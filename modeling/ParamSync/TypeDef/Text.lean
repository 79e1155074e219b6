import ParamSync.Field
import ParamSync.Text.Blank
import ParamSync.Wire.Codec

/-!
# The schemas of texts

Free text, a choice among entries, and an address of a resource. All three hold a text; they
differ in their options and in how long a length their texts have on the wire.
-/

namespace ParamSync

/-! ## Free text -/

/-- The schema of free text. -/
structure StringDef where
  default : Field String := {}
  regex : Field String := {}

namespace StringDef

def hasChanges (d : StringDef) : Bool := d.default.changed || d.regex.changed

def sent (d : StringDef) : StringDef := ⟨d.default.sent, d.regex.sent⟩

def merge (d other : StringDef) : StringDef :=
  ⟨d.default.merge other.default, d.regex.merge other.regex⟩

def gains (d other : StringDef) : Bool := d.default.gains other.default || d.regex.gains other.regex

instance : Alike StringDef := ⟨fun d e => alike d.default e.default && alike d.regex e.regex⟩

/-- A local change of one field: a value to store, or none to clear the field. -/
inductive Edit
  | default (change : Option String)
  | regex (change : Option String)

def edit (d : StringDef) : Edit → StringDef
  | .default c => { d with default := d.default.edit c }
  | .regex c => { d with regex := d.regex.edit c }

/-- What `edit` reports. -/
def report (d : StringDef) : Edit → Report
  | .default c => d.default.report c
  | .regex c => d.regex.report c

def encodeOptions (d : StringDef) (all : Bool) : Bytes :=
  d.default.encode all DefinitionOption.default (fun _ => "") Width.long.text
    ++ d.regex.encode all DefinitionOption.regex (fun _ => "") Width.long.text

/-- The schema after a write of its options. -/
def written (d : StringDef) (all : Bool) : StringDef :=
  ⟨d.default.written all, d.regex.written all⟩

@[simp] theorem written_true (d : StringDef) : d.written true = d := by simp [written]

@[simp] theorem written_false (d : StringDef) : d.written false = d.sent := by
  simp [written, sent]

/-- Reads the option with the given code, if the schema has one. -/
def readOption (d : StringDef) (code : UInt8) : Reader (Option StringDef) := do
  if code = DefinitionOption.default then
    return some { d with default := d.default.apply (← Reader.text .long) }
  if code = DefinitionOption.regex then
    return some { d with regex := d.regex.apply (← Reader.text .long) }
  return none

end StringDef

/-! ## A choice among entries -/

/-- The schema of a choice. On the wire the entries end with an empty one, so none is empty. -/
structure EnumDef where
  default : Field String := {}
  entries : Field (List String) := {}
  multiselect : Field Bool := {}

namespace EnumDef

def hasChanges (d : EnumDef) : Bool :=
  d.default.changed || d.entries.changed || d.multiselect.changed

def sent (d : EnumDef) : EnumDef := ⟨d.default.sent, d.entries.sent, d.multiselect.sent⟩

def merge (d other : EnumDef) : EnumDef where
  default := d.default.merge other.default
  entries := d.entries.merge other.entries
  multiselect := d.multiselect.merge other.multiselect

def gains (d other : EnumDef) : Bool :=
  d.default.gains other.default || d.entries.gains other.entries
    || d.multiselect.gains other.multiselect

instance : Alike EnumDef where
  alike d e :=
    alike d.default e.default && alike d.entries e.entries && alike d.multiselect e.multiselect

/-- A local change of one field: a value to store, or none to clear the field. -/
inductive Edit
  | default (change : Option String)
  /-- Empty entries are dropped. -/
  | entries (change : Option (List String))
  | multiselect (change : Option Bool)

/-- The entries that a list of texts makes. -/
def kept (entries : List String) : List String := entries.filter (!·.isEmpty)

def edit (d : EnumDef) : Edit → EnumDef
  | .default c => { d with default := d.default.edit c }
  | .entries c => { d with entries := d.entries.edit (c.map kept) }
  | .multiselect c => { d with multiselect := d.multiselect.edit c }

/-- What `edit` reports. -/
def report (d : EnumDef) : Edit → Report
  | .default c => d.default.report c
  | .entries c => d.entries.report (c.map kept)
  | .multiselect c => d.multiselect.report c

/-- The entries and the empty one that ends them. -/
def entriesBytes (entries : List String) : Bytes :=
  entries.flatMap Width.tiny.text ++ [terminator]

def encodeOptions (d : EnumDef) (all : Bool) : Bytes :=
  d.default.encode all DefinitionOption.default (fun _ => "") Width.tiny.text
    ++ d.entries.encode all DefinitionOption.entries (fun _ => []) entriesBytes
    ++ d.multiselect.encode all DefinitionOption.multiselect (fun _ => false) boolBytes

/-- The schema after a write of its options. -/
def written (d : EnumDef) (all : Bool) : EnumDef :=
  ⟨d.default.written all, d.entries.written all, d.multiselect.written all⟩

@[simp] theorem written_true (d : EnumDef) : d.written true = d := by simp [written]

@[simp] theorem written_false (d : EnumDef) : d.written false = d.sent := by
  simp [written, sent]

/-- One more entry; the list is kept last entry first. -/
def readEntry (entries : List String) : Reader (List String) := do
  return (← Reader.text .tiny) :: entries

theorem strict_readEntry (entries : List String) : (readEntry entries).Strict :=
  (Reader.strict_text .tiny).bind _

def readEntries : Reader (List String) := do
  return (← Reader.items readEntry strict_readEntry []).reverse

/-- Reads the option with the given code, if the schema has one. -/
def readOption (d : EnumDef) (code : UInt8) : Reader (Option EnumDef) := do
  if code = DefinitionOption.default then
    return some { d with default := d.default.apply (← Reader.text .tiny) }
  if code = DefinitionOption.entries then
    return some { d with entries := d.entries.apply (← readEntries) }
  if code = DefinitionOption.multiselect then
    return some { d with multiselect := d.multiselect.apply (← Reader.bool) }
  return none

end EnumDef

/-! ## An address of a resource -/

/-- The schema of an address, with the schemas it may have and a filter for files. On the wire
the schemas are one text with spaces between them. -/
structure UriDef where
  default : Field String := {}
  filter : Field String := {}
  schemas : Field (List String) := {}

namespace UriDef

def hasChanges (d : UriDef) : Bool := d.default.changed || d.filter.changed || d.schemas.changed

def sent (d : UriDef) : UriDef := ⟨d.default.sent, d.filter.sent, d.schemas.sent⟩

def merge (d other : UriDef) : UriDef where
  default := d.default.merge other.default
  filter := d.filter.merge other.filter
  schemas := d.schemas.merge other.schemas

def gains (d other : UriDef) : Bool :=
  d.default.gains other.default || d.filter.gains other.filter || d.schemas.gains other.schemas

instance : Alike UriDef where
  alike d e := alike d.default e.default && alike d.filter e.filter && alike d.schemas e.schemas

/-- A local change of one field: a value to store, or none to clear the field. -/
inductive Edit
  | default (change : Option String)
  | filter (change : Option String)
  | schemas (change : Option (List String))

def edit (d : UriDef) : Edit → UriDef
  | .default c => { d with default := d.default.edit c }
  | .filter c => { d with filter := d.filter.edit c }
  | .schemas c => { d with schemas := d.schemas.edit c }

/-- What `edit` reports. -/
def report (d : UriDef) : Edit → Report
  | .default c => d.default.report c
  | .filter c => d.filter.report c
  | .schemas c => d.schemas.report c

def encodeOptions (d : UriDef) (all : Bool) : Bytes :=
  d.default.encode all DefinitionOption.default (fun _ => "") Width.long.text
    ++ d.filter.encode all DefinitionOption.filter (fun _ => "") Width.tiny.text
    ++ d.schemas.encode all DefinitionOption.schemas (fun _ => [])
      (fun schemas => Width.tiny.text (" ".intercalate schemas))

/-- The schema after a write of its options. -/
def written (d : UriDef) (all : Bool) : UriDef :=
  ⟨d.default.written all, d.filter.written all, d.schemas.written all⟩

@[simp] theorem written_true (d : UriDef) : d.written true = d := by simp [written]

@[simp] theorem written_false (d : UriDef) : d.written false = d.sent := by
  simp [written, sent]

/-- Reads the option with the given code, if the schema has one. -/
def readOption (d : UriDef) (code : UInt8) : Reader (Option UriDef) := do
  if code = DefinitionOption.default then
    return some { d with default := d.default.apply (← Reader.text .long) }
  if code = DefinitionOption.filter then
    return some { d with filter := d.filter.apply (← Reader.text .tiny) }
  if code = DefinitionOption.schemas then
    return some { d with schemas := d.schemas.apply (Text.words (← Reader.text .tiny)) }
  return none

end UriDef

/-! ## Bare values -/

namespace Width

/-- Writes a bare text; a value of another shape is written as the empty text. -/
def encodeValue (w : Width) (v : Value) : Bytes := w.text (v.toText?.getD "")

/-- Reads a bare text. -/
def readValue (w : Width) : Reader Value := do return .text (← Reader.text w)

end Width
end ParamSync
