import Std.Data.ExtTreeMap
import ParamSync.Field
import ParamSync.Text.Blank
import ParamSync.Wire.Codec

/-!
# Texts in several languages

A label or a description: a default text, a text for each of some languages, and one flag for all
of them. On the wire it is a list of three bytes of language and a text, ended by the terminator;
the default text has the language `any`. A block replaces nothing that it does not mention.
-/

namespace ParamSync

/-- A text and its translations, in the order of their language codes. -/
structure LocalizedText where
  text : Option String := none
  languages : Std.ExtTreeMap String String := ∅
  changed : Bool := false

namespace LocalizedText

/-- Whether there is any text at all. -/
def isPresent (t : LocalizedText) : Bool := t.text.isSome || !t.languages.isEmpty

def language? (t : LocalizedText) (code : String) : Option String := t.languages[code]?

instance : Alike LocalizedText :=
  ⟨fun t u => t.text == u.text && t.languages.toList == u.languages.toList⟩

/-! ## Local changes -/

/-- A local change of a text. -/
inductive Edit
  /-- Sets the default text. -/
  | text (s : String)
  /-- Sets the text of a language. -/
  | language (code s : String)
  /-- Removes the text of a language. -/
  | forget (code : String)
  /-- Removes every text. -/
  | clear

/-- The text after a change. A change to what is there already is none. -/
def edit (t : LocalizedText) : Edit → LocalizedText
  | .text s => if t.text = some s then t else { t with text := some s, changed := true }
  | .language code s =>
    if t.language? code = some s then t
    else { t with languages := t.languages.insert code s, changed := true }
  | .forget code =>
    if code ∈ t.languages then { t with languages := t.languages.erase code, changed := true }
    else t
  | .clear => ⟨none, ∅, true⟩

/-- What `edit` reports. -/
def report (t : LocalizedText) : Edit → Report
  | .text s => some (t.text != some s)
  | .language code s => some (t.language? code != some s)
  | .forget code => some (t.languages.contains code)
  | .clear => none

/-- The text once its changes have been sent. -/
def sent (t : LocalizedText) : LocalizedText := { t with changed := false }

/-! ## Changes from a peer -/

/-- The text after what a peer's block mentions has been applied. -/
def merge (t other : LocalizedText) : LocalizedText :=
  { t with
    text := other.text.or t.text
    languages := other.languages.foldl (fun ls code s => ls.insert code s) t.languages }

/-- Whether `merge` would change anything. -/
def gains (t other : LocalizedText) : Bool :=
  (other.text.isSome && other.text != t.text)
    || other.languages.any fun code s => t.language? code != some s

/-! ## On the wire -/

/-- The three bytes that stand for the default text. -/
def anyLanguage : Bytes := [0x61, 0x6e, 0x79]

/-- A language code as three bytes, cut or filled up with spaces. -/
def languageBytes (code : String) : Bytes :=
  let bs := (Utf8.encode code).take 3
  bs ++ List.replicate (3 - bs.length) 0x20

/-- The entries of the block, without the terminator. -/
def entries (t : LocalizedText) (w : Width) : Bytes :=
  (match t.text with
    | some s => anyLanguage ++ w.text s
    | none => [])
  ++ t.languages.toList.flatMap fun (code, s) => languageBytes code ++ w.text s

/-- The text as an option with the given code, where it is due. A text that has been cleared is
an empty block. -/
def encode (t : LocalizedText) (all : Bool) (code : UInt8) (w : Width) : Bytes :=
  if t.isPresent then
    if all || t.changed then code :: (t.entries w ++ [terminator]) else []
  else if t.changed && !all then [code, terminator]
  else []

/-- The text after a write, by the same cases as `encode`. -/
def written (t : LocalizedText) (all : Bool) : LocalizedText :=
  if t.isPresent then
    if all || t.changed then (if all then t else t.sent) else t
  else if t.changed && !all then t.sent
  else t

@[simp] theorem written_true (t : LocalizedText) : t.written true = t := by simp [written]

@[simp] theorem written_false (t : LocalizedText) : t.written false = t.sent := by
  obtain ⟨text, languages, _ | _⟩ := t <;> simp [written, sent]

/-- One entry of a block. The spaces at the end of a language code are not part of it. -/
def readEntry (w : Width) (t : LocalizedText) : Reader LocalizedText := do
  let code ← Reader.take 3
  let s ← Reader.text w
  if code = anyLanguage then
    return { t with text := some s }
  return { t with languages := t.languages.insert (Text.trimEnd (Utf8.decode code)) s }

theorem strict_readEntry (w : Width) (t : LocalizedText) : (readEntry w t).Strict :=
  (Reader.strict_take (by decide)).bind _

/-- A block of texts. -/
def read (w : Width) : Reader LocalizedText := Reader.items (readEntry w) (strict_readEntry w) {}

end LocalizedText
end ParamSync
