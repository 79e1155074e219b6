import ParamSync.Proofs.Codec.Flags
import ParamSync.Proofs.Registry.Schemas
import ParamSync.Proofs.Registry.Unsent

/-!
# Full and delta writes

What a write sends of a piece does not depend on what it sends of another. `options` lists the
pieces of a definition or of a parameter, each with the bytes that stand for it, in the order of the
wire; `delta` is the block that has an option for exactly those that are due. A delta write sends
`delta` of what is flagged and puts every flag down, a full write looks at no flag and touches none.

`flagged` puts up the flags that it is told, so that a statement for all flags quantifies over it.

Results:
* `TypeDef.nodup_code_options`, `Parameter.nodup_code_options`: each option of a block stands for one
  piece.
* `TypeDef.flag_flagged`, `Parameter.flag_flagged`: the pieces that there are can be flagged in every
  combination.
* `TypeDef.encode_true_flagged`, `Parameter.encode_true_flagged`: a full write looks at no flag.
* `TypeDef.encode_false`, `Parameter.encode_false`: a delta write has the options that are flagged.
* `Parameter.Obtained.sendable`: a parameter made by its own operations can send all its flags.
* `Parameter.Obtained.writes`: what each write sends, what it leaves, and what a second delta sends.
-/

namespace ParamSync

/-! ## Options that are due -/

section Options

variable {π : Type} (code : π → UInt8) (due : π → Bool)

/-- The options of the pieces that are due: the code of each, then its bytes. -/
def dueOptions (options : List (π × Bytes)) : Bytes :=
  (options.filter fun option => due option.1).flatMap fun option => code option.1 :: option.2

@[simp] theorem dueOptions_nil : dueOptions code due [] = [] := rfl

theorem dueOptions_cons (x : π) (bytes : Bytes) (options : List (π × Bytes)) :
    dueOptions code due ((x, bytes) :: options) =
      (if due x then code x :: bytes else []) ++ dueOptions code due options := by
  unfold dueOptions
  cases hx : due x <;> simp [hx]

theorem dueOptions_append (options others : List (π × Bytes)) :
    dueOptions code due (options ++ others) =
      dueOptions code due options ++ dueOptions code due others := by
  simp [dueOptions]

theorem dueOptions_none (options : List (π × Bytes)) :
    dueOptions code (fun _ => false) options = [] := by
  simp [dueOptions]

end Options

/-! ## Of a field -/

namespace Field

variable {α : Type} (f : Field α) (code : UInt8) (sentinel : Unit → α) (bytes : α → Bytes)

/-- The field with the flag up or down. -/
def flagged (up : Bool) : Field α := { f with changed := up }

/-- A delta write sends a field that changed, or its sentinel if it was cleared. -/
theorem encode_false : f.encode false code sentinel bytes =
    if f.changed then code :: bytes (f.value.getD (sentinel ())) else [] := by
  unfold encode pending
  cases f.value <;> cases f.changed <;> rfl

/-- A full write does not look at the flag. -/
theorem encode_true_flagged (up : Bool) :
    (f.flagged up).encode true code sentinel bytes = f.encode true code sentinel bytes := by
  unfold encode
  rw [pending_all, pending_all]
  rfl

end Field

/-! ## Of a text in several languages -/

namespace LocalizedText

variable (t : LocalizedText) (code : UInt8) (w : Width)

/-- The text with the flag up or down. -/
def flagged (up : Bool) : LocalizedText := { t with changed := up }

theorem encode_false : t.encode false code w =
    if t.changed then code :: (t.entries w ++ [terminator]) else [] := by
  unfold encode
  cases hpresent : t.isPresent with
  | true => simp
  | false =>
    -- a text that was cleared has no entries
    rw [entries_eq, pairs_of_not_isPresent hpresent]
    simp

theorem encode_true_flagged (up : Bool) :
    (t.flagged up).encode true code w = t.encode true code w := by
  simp [encode, flagged, isPresent, entries]

end LocalizedText

/-! ## Of a schema -/

/-- The code of the option that a piece is sent as; those of a range's element are options of the
element. -/
def TypeDef.Piece.code : TypeDef.Piece → UInt8
  | default => DefinitionOption.default
  | minimum => DefinitionOption.minimum
  | maximum => DefinitionOption.maximum
  | multipleOf => DefinitionOption.multipleOf
  | scale => DefinitionOption.scale
  | unit => DefinitionOption.unit
  | regex => DefinitionOption.regex
  | entries => DefinitionOption.entries
  | multiselect => DefinitionOption.multiselect
  | filter => DefinitionOption.filter
  | schemas => DefinitionOption.schemas
  | uuid => DefinitionOption.uuid
  | config => DefinitionOption.config
  | element piece => piece.code

section Schemas

variable {α : Type} [Scalar α] {k : NumberKind} (up : TypeDef.Piece → Bool)

def PlainDef.flagged (d : PlainDef α) : PlainDef α := ⟨d.default.flagged (up .default)⟩

def PlainDef.options (d : PlainDef α) : List (TypeDef.Piece × Bytes) :=
  [(.default, Scalar.bytes (d.default.value.getD Scalar.zero))]

def NumberDef.flagged (d : NumberDef k) : NumberDef k where
  default := d.default.flagged (up .default)
  minimum := d.minimum.flagged (up .minimum)
  maximum := d.maximum.flagged (up .maximum)
  multipleOf := d.multipleOf.flagged (up .multipleOf)
  scale := d.scale.flagged (up .scale)
  unit := d.unit.flagged (up .unit)

/-- A bound that was cleared is sent as the one that excludes nothing. -/
def NumberDef.options (d : NumberDef k) : List (TypeDef.Piece × Bytes) :=
  [(.default, (d.default.value.getD (Number.zero k)).toBytes),
    (.minimum, (d.minimum.value.getD (Number.lowest k)).toBytes),
    (.maximum, (d.maximum.value.getD (Number.highest k)).toBytes),
    (.multipleOf, (d.multipleOf.value.getD (Number.zero k)).toBytes),
    (.scale, [(d.scale.value.getD .linear).code]),
    (.unit, Width.tiny.text (d.unit.value.getD ""))]

def StringDef.flagged (d : StringDef) : StringDef where
  default := d.default.flagged (up .default)
  regex := d.regex.flagged (up .regex)

def StringDef.options (d : StringDef) : List (TypeDef.Piece × Bytes) :=
  [(.default, Width.long.text (d.default.value.getD "")),
    (.regex, Width.long.text (d.regex.value.getD ""))]

def EnumDef.flagged (d : EnumDef) : EnumDef where
  default := d.default.flagged (up .default)
  entries := d.entries.flagged (up .entries)
  multiselect := d.multiselect.flagged (up .multiselect)

def EnumDef.options (d : EnumDef) : List (TypeDef.Piece × Bytes) :=
  [(.default, Width.tiny.text (d.default.value.getD "")),
    (.entries, EnumDef.entriesBytes (d.entries.value.getD [])),
    (.multiselect, boolBytes (d.multiselect.value.getD false))]

def UriDef.flagged (d : UriDef) : UriDef where
  default := d.default.flagged (up .default)
  filter := d.filter.flagged (up .filter)
  schemas := d.schemas.flagged (up .schemas)

def UriDef.options (d : UriDef) : List (TypeDef.Piece × Bytes) :=
  [(.default, Width.long.text (d.default.value.getD "")),
    (.filter, Width.tiny.text (d.filter.value.getD "")),
    (.schemas, Width.tiny.text (" ".intercalate (d.schemas.value.getD [])))]

def CustomDef.flagged (d : CustomDef) : CustomDef where
  size := d.size
  default := d.default.flagged (up .default)
  uuid := d.uuid.flagged (up .uuid)
  config := d.config.flagged (up .config)

/-- A default that was cleared is sent as zeros. -/
def CustomDef.options (d : CustomDef) : List (TypeDef.Piece × Bytes) :=
  [(.default, Bytes.fit d.size.toNat (d.default.value.getD [])),
    (.uuid, (d.uuid.value.getD ⟨0⟩).octets),
    (.config, blob (d.config.value.getD []))]

theorem PlainDef.encodeOptions_false (d : PlainDef α) :
    d.encodeOptions false = dueOptions TypeDef.Piece.code d.flag d.options := by
  simp only [encodeOptions, options, dueOptions_cons, Scalar.encodeField, Field.encode_false,
    dueOptions_nil, List.append_nil]
  rfl

theorem NumberDef.encodeOptions_false (d : NumberDef k) :
    d.encodeOptions false = dueOptions TypeDef.Piece.code d.flag d.options := by
  simp only [encodeOptions, options, dueOptions_cons, Scalar.encodeField, Field.encode_false,
    dueOptions_nil, List.append_nil, List.append_assoc]
  rfl

theorem StringDef.encodeOptions_false (d : StringDef) :
    d.encodeOptions false = dueOptions TypeDef.Piece.code d.flag d.options := by
  simp only [encodeOptions, options, dueOptions_cons, Field.encode_false, dueOptions_nil,
    List.append_nil]
  rfl

theorem EnumDef.encodeOptions_false (d : EnumDef) :
    d.encodeOptions false = dueOptions TypeDef.Piece.code d.flag d.options := by
  simp only [encodeOptions, options, dueOptions_cons, Field.encode_false, dueOptions_nil,
    List.append_nil, List.append_assoc]
  rfl

theorem UriDef.encodeOptions_false (d : UriDef) :
    d.encodeOptions false = dueOptions TypeDef.Piece.code d.flag d.options := by
  simp only [encodeOptions, options, dueOptions_cons, Field.encode_false, dueOptions_nil,
    List.append_nil, List.append_assoc]
  rfl

theorem CustomDef.encodeOptions_false (d : CustomDef) :
    d.encodeOptions false = dueOptions TypeDef.Piece.code d.flag d.options := by
  simp only [encodeOptions, options, dueOptions_cons, Field.encode_false, dueOptions_nil,
    List.append_nil, List.append_assoc]
  rfl

theorem PlainDef.flag_flagged (d : PlainDef α) (x : TypeDef.Piece) :
    (d.flagged up).flag x = (decide (x ∈ d.options.map Prod.fst) && up x) := by
  cases x <;> simp [flagged, flag, options, Field.flagged]

theorem NumberDef.flag_flagged (d : NumberDef k) (x : TypeDef.Piece) :
    (d.flagged up).flag x = (decide (x ∈ d.options.map Prod.fst) && up x) := by
  cases x <;> simp [flagged, flag, options, Field.flagged]

theorem StringDef.flag_flagged (d : StringDef) (x : TypeDef.Piece) :
    (d.flagged up).flag x = (decide (x ∈ d.options.map Prod.fst) && up x) := by
  cases x <;> simp [flagged, flag, options, Field.flagged]

theorem EnumDef.flag_flagged (d : EnumDef) (x : TypeDef.Piece) :
    (d.flagged up).flag x = (decide (x ∈ d.options.map Prod.fst) && up x) := by
  cases x <;> simp [flagged, flag, options, Field.flagged]

theorem UriDef.flag_flagged (d : UriDef) (x : TypeDef.Piece) :
    (d.flagged up).flag x = (decide (x ∈ d.options.map Prod.fst) && up x) := by
  cases x <;> simp [flagged, flag, options, Field.flagged]

theorem CustomDef.flag_flagged (d : CustomDef) (x : TypeDef.Piece) :
    (d.flagged up).flag x = (decide (x ∈ d.options.map Prod.fst) && up x) := by
  cases x <;> simp [flagged, flag, options, Field.flagged]

theorem PlainDef.encodeOptions_true_flagged (d : PlainDef α) :
    (d.flagged up).encodeOptions true = d.encodeOptions true := by
  simp [encodeOptions, flagged, Scalar.encodeField, Field.encode_true_flagged]

theorem NumberDef.encodeOptions_true_flagged (d : NumberDef k) :
    (d.flagged up).encodeOptions true = d.encodeOptions true := by
  simp [encodeOptions, flagged, Scalar.encodeField, Field.encode_true_flagged]

theorem StringDef.encodeOptions_true_flagged (d : StringDef) :
    (d.flagged up).encodeOptions true = d.encodeOptions true := by
  simp [encodeOptions, flagged, Field.encode_true_flagged]

theorem EnumDef.encodeOptions_true_flagged (d : EnumDef) :
    (d.flagged up).encodeOptions true = d.encodeOptions true := by
  simp [encodeOptions, flagged, Field.encode_true_flagged]

theorem UriDef.encodeOptions_true_flagged (d : UriDef) :
    (d.flagged up).encodeOptions true = d.encodeOptions true := by
  simp [encodeOptions, flagged, Field.encode_true_flagged]

theorem CustomDef.encodeOptions_true_flagged (d : CustomDef) :
    (d.flagged up).encodeOptions true = d.encodeOptions true := by
  simp [encodeOptions, flagged, Field.encode_true_flagged]

end Schemas

/-! ## Of a definition -/

namespace TypeDef

/-- The definition with the flags of its pieces up or down as they are told. -/
def flagged : TypeDef → (Piece → Bool) → TypeDef
  | boolean d, up => boolean (d.flagged up)
  | number k d, up => number k (d.flagged up)
  | string d, up => string (d.flagged up)
  | enum d, up => enum (d.flagged up)
  | uri d, up => uri (d.flagged up)
  | rgb d, up => rgb (d.flagged up)
  | rgba d, up => rgba (d.flagged up)
  | ipv4 d, up => ipv4 (d.flagged up)
  | ipv6 d, up => ipv6 (d.flagged up)
  | range element default, up =>
    range (element.flagged fun x => up (.element x)) (default.flagged (up .default))
  | custom d, up => custom (d.flagged up)
  | bang, _ => bang
  | group, _ => group

/-- The pieces of a definition that are options of its own, with their bytes. -/
def options : TypeDef → List (Piece × Bytes)
  | boolean d => d.options
  | number _ d => d.options
  | string d => d.options
  | enum d => d.options
  | uri d => d.options
  | rgb d | rgba d => d.options
  | ipv4 d => d.options
  | ipv6 d => d.options
  | range element default =>
    let pair := default.value.getD (zeroPair element)
    [(.default, element.encodeValue pair.1 ++ element.encodeValue pair.2)]
  | custom d => d.options
  | bang | group => []

/-- All that can change. -/
def pieces : TypeDef → List Piece
  | range element default =>
    element.pieces.map .element ++ (range element default).options.map Prod.fst
  | d => d.options.map Prod.fst

/-- The block of a definition with an option for each piece that is due. -/
def delta : TypeDef → (Piece → Bool) → Bytes
  | custom d, due =>
    Datatype.custom.code :: (Bytes.ofNat 4 d.size.toNat ++ dueOptions Piece.code due d.options
      ++ [terminator])
  | range element default, due =>
    Datatype.range.code :: (element.delta (fun x => due (.element x))
      ++ dueOptions Piece.code due (range element default).options ++ [terminator])
  | d, due => d.datatype.code :: (dueOptions Piece.code due d.options ++ [terminator])

/-- What there is of a definition of which nothing is due: the datatype, the mandatory part and the
terminator. -/
def skeleton : TypeDef → Bytes
  | custom d => Datatype.custom.code :: (Bytes.ofNat 4 d.size.toNat ++ [terminator])
  | range element _ => [Datatype.range.code, element.datatype.code, terminator, terminator]
  | d => [d.datatype.code, terminator]

variable (d : TypeDef)

/-- No two options of a definition have the same code. -/
theorem nodup_code_options : (d.options.map fun option => option.1.code).Nodup := by
  cases d <;> simp [options, PlainDef.options, NumberDef.options, StringDef.options,
    EnumDef.options, UriDef.options, CustomDef.options] <;> decide

theorem encodeOptions_false : d.encodeOptions false = dueOptions Piece.code d.flag d.options := by
  cases d with
  | boolean d | number _ d | string d | enum d | uri d | rgb d | rgba d | ipv4 d | ipv6 d
  | custom d => exact d.encodeOptions_false
  | range element default =>
    simp only [encodeOptions, options, dueOptions_cons, Field.encode_false, dueOptions_nil,
      List.append_nil]
    rfl
  | bang | group => rfl

/-- A delta write has the options that are flagged, at any depth. -/
theorem encode_false : d.encode false = d.delta d.flag := by
  induction d with
  | range element default ih =>
    rw [encode, ih, encodeOptions_false]
    rfl
  | _ => simp only [encode, encodeOptions_false]; rfl

theorem skeleton_sent : d.sent.skeleton = d.skeleton := by
  cases d with
  | range element default => rw [sent, skeleton, skeleton, datatype_sent]
  | _ => rfl

/-- A delta write of which nothing is due. -/
theorem delta_none {d : TypeDef} (hd : d.WellFormed) : d.delta (fun _ => false) = d.skeleton := by
  cases d with
  | range element default =>
    obtain ⟨k, element, rfl⟩ := eq_number_of_isNumber hd
    simp [delta, skeleton, dueOptions_none]
  | _ => simp [delta, skeleton, dueOptions_none]

/-! ### Flags and values -/

variable (up : Piece → Bool)

theorem zero?_flagged : (d.flagged up).zero? = d.zero? := by
  induction d generalizing up with
  | range element default ih => simp only [flagged, zero?, ih]
  | _ => rfl

theorem encodeValue_flagged : (d.flagged up).encodeValue = d.encodeValue := by
  induction d generalizing up with
  | range element default ih =>
    funext v
    cases v <;> simp only [flagged, encodeValue, zeroPair, zero?_flagged, ih]
  | _ => rfl

theorem encodeOptions_true_flagged :
    (d.flagged up).encodeOptions true = d.encodeOptions true := by
  cases d with
  | boolean d | number _ d | string d | enum d | uri d | rgb d | rgba d | ipv4 d | ipv6 d
  | custom d => exact d.encodeOptions_true_flagged up
  | range element default =>
    simp only [flagged, encodeOptions, zeroPair, zero?_flagged, encodeValue_flagged,
      Field.encode_true_flagged]
  | bang | group => rfl

/-- A full write does not look at the flags. -/
theorem encode_true_flagged : (d.flagged up).encode true = d.encode true := by
  induction d generalizing up with
  | range element default ih =>
    have hoptions := encodeOptions_true_flagged (range element default) up
    simp only [flagged] at hoptions
    simp only [flagged, encode, ih, hoptions]
  | custom d =>
    simp only [flagged, encode, encodeOptions, d.encodeOptions_true_flagged]
    rfl
  | boolean d | number _ d | string d | enum d | uri d | rgb d | rgba d | ipv4 d | ipv6 d =>
    simp only [flagged, encode, encodeOptions, datatype, d.encodeOptions_true_flagged]
  | bang | group => rfl

/-- The flags of the pieces that there are, are those that were told. -/
theorem flag_flagged (x : Piece) :
    (d.flagged up).flag x = (decide (x ∈ d.pieces) && up x) := by
  induction d generalizing up x with
  | boolean d | number _ d | string d | enum d | uri d | rgb d | rgba d | ipv4 d | ipv6 d
  | custom d => exact d.flag_flagged up x
  | range element default ih =>
    cases x with
    | element x => simp [flagged, flag, pieces, options, ih]
    | _ => simp [flagged, flag, pieces, options, Field.flagged]
  | bang | group => rfl

theorem flagged_flag : d.flagged d.flag = d := by
  induction d with
  | range element default ih => exact congrArg (range · default) ih
  | _ => rfl

/-- A flag that is up is on a piece of the definition. -/
theorem mem_pieces_of_flag {d : TypeDef} {x : Piece} (hx : d.flag x = true) : x ∈ d.pieces := by
  have hflag := d.flag_flagged d.flag x
  rw [flagged_flag, hx] at hflag
  simpa using hflag

/-- What has been sent has no flag up, and the values that it had. -/
theorem sent_eq_flagged : d.sent = d.flagged fun _ => false := by
  induction d with
  | range element default ih => rw [sent, flagged, ih]; rfl
  | _ => rfl

end TypeDef

/-! ## Of a parameter -/

namespace Parameter

/-- The code of the option that a piece is sent as. -/
def Piece.code : Piece → UInt8
  | value => ParameterOption.value.code
  | label => ParameterOption.label.code
  | description => ParameterOption.description.code
  | tags => ParameterOption.tags.code
  | order => ParameterOption.order.code
  | parent => ParameterOption.parentId.code
  | userData => ParameterOption.userData.code
  | userId => ParameterOption.userId.code
  | definition piece => piece.code

/-- The parameter with the flags of its pieces up or down as they are told. -/
def flagged (p : Parameter) (up : Piece → Bool) : Parameter :=
  { p with
    definition := p.definition.flagged fun x => up (.definition x)
    value := p.value.flagged (up .value)
    label := p.label.flagged (up .label)
    description := p.description.flagged (up .description)
    tags := p.tags.flagged (up .tags)
    order := p.order.flagged (up .order)
    parent := p.parent.flagged (up .parent)
    userData := p.userData.flagged (up .userData)
    userId := p.userId.flagged (up .userId) }

/-- The value with its bytes; bangs and groups have none. -/
def valueOptions (p : Parameter) : List (Piece × Bytes) :=
  if p.definition.hasValue then
    let zero := p.definition.zero?.getD (.bytes [])
    [(.value, p.definition.encodeValue (p.value.value.getD zero))]
  else []

/-- The pieces that are options of the parameter itself, with their bytes. -/
def options (p : Parameter) : List (Piece × Bytes) :=
  p.valueOptions ++ [(.label, p.label.entries .tiny ++ [terminator]),
    (.description, p.description.entries .short ++ [terminator]),
    (.tags, Width.tiny.text (p.tags.value.getD "")),
    (.order, int32Bytes (p.order.value.getD 0)),
    (.parent, (p.parent.value.getD .root).toBytes),
    (.userData, blob (p.userData.value.getD [])),
    (.userId, Width.tiny.text (p.userId.value.getD ""))]

/-- All that can change and be sent. -/
def pieces (p : Parameter) : List Piece :=
  p.definition.pieces.map .definition ++ p.options.map Prod.fst

/-- The block of a parameter with an option for each piece that is due. -/
def delta (p : Parameter) (due : Piece → Bool) : Bytes :=
  p.id.toBytes ++ p.definition.delta (fun x => due (.definition x))
    ++ dueOptions Piece.code due p.options ++ [terminator]

/-- What there is of a parameter of which nothing is due. -/
def skeleton (p : Parameter) : Bytes := p.id.toBytes ++ p.definition.skeleton ++ [terminator]

variable (p : Parameter)

/-- No two options of a parameter have the same code. -/
theorem nodup_code_options : (p.options.map fun option => option.1.code).Nodup := by
  unfold options valueOptions
  split <;> simp <;> decide

theorem encodeValue_false :
    p.encodeValue false = dueOptions Piece.code p.flag p.valueOptions := by
  unfold encodeValue valueOptions
  split
  · simp only [dueOptions_cons, Field.encode_false, dueOptions_nil, List.append_nil]
    rfl
  · rfl

theorem encodeOptions_false : p.encodeOptions false = dueOptions Piece.code p.flag p.options := by
  simp only [encodeOptions, options, encodeValue_false, dueOptions_append, dueOptions_cons,
    LocalizedText.encode_false, Field.encode_false, dueOptions_nil, List.append_nil,
    List.append_assoc]
  rfl

/-- A delta write has the options that are flagged. -/
theorem encode_false : p.encode false = p.delta p.flag := by
  rw [encode, TypeDef.encode_false, encodeOptions_false]
  rfl

/-- A delta write of which nothing is due. -/
theorem delta_none {p : Parameter} (h : p.definition.WellFormed) :
    p.delta (fun _ => false) = p.skeleton := by
  rw [delta, TypeDef.delta_none h, dueOptions_none, List.append_nil]
  rfl

/-! ### Flags and values -/

variable (up : Piece → Bool)

theorem hasValue_flagged (d : TypeDef) (up : TypeDef.Piece → Bool) :
    (d.flagged up).hasValue = d.hasValue := by
  cases d <;> rfl

/-- A full write does not look at the flags. -/
theorem encode_true_flagged : (p.flagged up).encode true = p.encode true := by
  simp only [encode, encodeOptions, encodeValue, flagged, TypeDef.encode_true_flagged,
    hasValue_flagged, TypeDef.encodeValue_flagged, TypeDef.zero?_flagged,
    LocalizedText.encode_true_flagged, Field.encode_true_flagged]

/-- The flags of the pieces that there are, are those that were told. -/
theorem flag_flagged {x : Piece} (hx : x ∈ p.pieces) : (p.flagged up).flag x = up x := by
  cases x with
  | definition x =>
    have hmem : x ∈ p.definition.pieces := by simpa [pieces, options, valueOptions] using hx
    simp [flagged, flag, TypeDef.flag_flagged, hmem]
  | _ => rfl

/-- A flag that is up is on a piece that can be sent. -/
theorem Sendable.mem_pieces {p : Parameter} (h : p.Sendable) {x : Piece} (hx : p.flag x = true) :
    x ∈ p.pieces := by
  cases x with
  | value =>
    have hvalue : p.definition.hasValue = true := by
      by_contra hnone
      exact Bool.false_ne_true ((h (by simpa using hnone)).symm.trans hx)
    simp [pieces, options, valueOptions, hvalue]
  | definition x =>
    have hmem : x ∈ p.definition.pieces := TypeDef.mem_pieces_of_flag hx
    simp [pieces, hmem]
  | _ => simp [pieces, options]

/-- What has been sent has no flag up, and the values that it had. -/
theorem Sendable.sent_eq_flagged {p : Parameter} (h : p.Sendable) :
    p.sent = p.flagged fun _ => false := by
  have hvalue : (if p.definition.hasValue then p.value.sent else p.value) =
      p.value.flagged false := by
    split
    · rfl
    · next hnone =>
      have hdown : p.value.changed = false := h (by simpa using hnone)
      rw [Field.flagged, ← hdown]
  rw [sent, hvalue, TypeDef.sent_eq_flagged]
  rfl

/-! ### How parameters are made -/

/-- The parameter was made by its own operations: it is new or was read, or it was changed by a
setter or a clearer, put into a group or written. -/
inductive Obtained : Parameter → Prop
  | new (id : ParamId) {definition : TypeDef} (h : definition.Made) : Obtained { id, definition }
  | read {p : Parameter} (h : p.Read) : Obtained p
  | edit {p p' : Parameter} {change : Edit} {report : Report} (hp : Obtained p)
    (h : p.edit change = .ok (p', report)) (hkeep : change.KeepsDefinition) : Obtained p'
  | setGroup {p : Parameter} (hp : Obtained p) (group : Option ParamId) :
    Obtained (p.setGroup group)
  | written {p : Parameter} (hp : Obtained p) (all : Bool) : Obtained (p.written all)

namespace Obtained

variable {p : Parameter}

theorem wellFormed (h : p.Obtained) : p.definition.WellFormed := by
  induction h with
  | new _ h => exact h.sound.wellFormed
  | read h => exact h.fresh.sound.wellFormed
  | edit _ h hkeep ih => exact ((edited_of_edit h).keeps hkeep).wellFormed ih
  | @setGroup p _ group ih =>
    obtain ⟨f, hf, -⟩ := p.setGroup_eq group
    rwa [hf]
  | @written p _ all ih =>
    cases all with
    | true => rwa [written_true]
    | false => rw [written_false]; exact ih.sent

/-- No flag is up that cannot be sent. -/
theorem sendable (h : p.Obtained) : p.Sendable := by
  induction h with
  | new _ _ => exact fun _ => rfl
  | read h => exact .of_not_hasChanges h.fresh.unchanged
  | edit _ h hkeep ih => exact (edited_of_edit h).sendable hkeep ih
  | @setGroup p _ group ih =>
    obtain ⟨f, hf, -⟩ := p.setGroup_eq group
    rw [hf]
    exact ih
  | @written p _ all ih =>
    cases all with
    | true => rwa [written_true]
    | false => rw [written_false]; exact sendable_sent ih

/-- A full write changes nothing, and its bytes are the same whatever is flagged. A delta write
keeps every value, has an option for each piece that is flagged and for no other, and puts every
flag down; a further one has the identifier, the datatype, the mandatory part and the terminators
of the definition and of the parameter. -/
theorem writes (h : p.Obtained) :
    p.written true = p ∧ (∀ up, (p.flagged up).encode true = p.encode true) ∧
      p.written false = p.flagged (fun _ => false) ∧
      p.encode false = p.delta p.flag ∧ (∀ x, p.flag x = true → x ∈ p.pieces) ∧
      (p.written false).hasChanges = false ∧
      (p.written false).encode false = p.skeleton := by
  have hsent : p.sent.hasChanges = false := hasChanges_sent h.sendable
  rw [written_true, written_false]
  refine ⟨rfl, p.encode_true_flagged, h.sendable.sent_eq_flagged, p.encode_false,
    fun x => h.sendable.mem_pieces, hsent, ?_⟩
  have hflag : p.sent.flag = fun _ => false := funext (hasChanges_eq_false_iff_flag.1 hsent)
  calc p.sent.encode false
      _ = p.sent.delta fun _ => false := by rw [encode_false, hflag]
      _ = p.sent.skeleton := delta_none h.wellFormed.sent
      _ = p.skeleton := by rw [skeleton, skeleton, Parameter.sent, TypeDef.skeleton_sent]

end Obtained

/-- A range that was sent with a label; since then its value and its default were cleared and its
element was bounded. -/
def trimmed : Parameter where
  id := ⟨5⟩
  definition := .range (.number .int16 { minimum := ⟨some ⟨7#16⟩, true⟩ }) ⟨none, true⟩
  value := ⟨none, true⟩
  label := { text := some "trim" }

theorem obtained_trimmed : trimmed.Obtained := by
  have helement : TypeDef.ofDatatype? (.number .int16) = some (.number .int16 {}) := rfl
  have hmade : (TypeDef.rangeOf .int16).Made := .range (.ofDatatype helement) rfl
  have hlabelled := @Obtained.edit _ _ (.label (.text "trim")) _ (.new ⟨5⟩ hmade) rfl trivial
  have hcleared := @Obtained.edit _ _ (.value none) _ (hlabelled.written false) rfl trivial
  have hreset := @Obtained.edit _ _ (.definition (.rangeDefault none)) _ hcleared rfl trivial
  exact @Obtained.edit _ _
    (.definition (.element (.number .int16 (.minimum (some ⟨7#16⟩))))) _ hreset rfl trivial

theorem writes_trimmed :
    trimmed.written true = trimmed ∧
      (∀ up, (trimmed.flagged up).encode true = trimmed.encode true) ∧
      trimmed.written false = trimmed.flagged (fun _ => false) ∧
      trimmed.encode false = trimmed.delta trimmed.flag ∧
      (∀ x, trimmed.flag x = true → x ∈ trimmed.pieces) ∧
      (trimmed.written false).hasChanges = false ∧
      (trimmed.written false).encode false = trimmed.skeleton :=
  obtained_trimmed.writes

example : trimmed.encode false =
    [0, 5, 0x2d, 0x13, 0x31, 0, 7, 0, 0x30, 0, 0, 0, 0, 0, 0x20, 0, 0, 0, 0, 0] := by decide

example : trimmed.skeleton = [0, 5, 0x2d, 0x13, 0, 0, 0] := by decide

end Parameter
end ParamSync
