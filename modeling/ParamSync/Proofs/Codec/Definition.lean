import ParamSync.Proofs.Codec.Options
import ParamSync.TypeDef.Codec

/-!
# What a peer reads of a type definition

A definition that is written, in full or as a delta, is read as another one, which `heard` gives
field by field: what is due, cut to what its length can say, and a cleared field as its sentinel.
So it is for bare values (`heardValue`).

Results:
* `TypeDef.run_readValue`: a bare value is read as `heardValue` gives it.
* `TypeDef.run_read`: a definition is read as `heard` gives it, if it is well formed.
-/

namespace ParamSync

open Reader

/-! ## Schemas with a default and nothing else -/

namespace PlainDef

variable {α : Type} [Scalar α]

def heard (d : PlainDef α) (all : Bool) : PlainDef α := ⟨d.default.heard all Scalar.zero⟩

theorem optionList [LawfulScalar α] (d : PlainDef α) (all : Bool) :
    OptionList readOption ({} : PlainDef α) (d.encodeOptions all) (d.heard all) := by
  unfold encodeOptions Scalar.encodeField
  refine Field.optionList_self (fun f => ({ default := f } : PlainDef α)) d.default all _
    (by decide) fun a _ rest => ?_
  exact run_bind_of_ok (LawfulScalar.run_bytes_append a rest) _

end PlainDef

/-! ## Numbers -/

namespace NumberDef

variable {k : NumberKind}

def heard (d : NumberDef k) (all : Bool) : NumberDef k where
  default := d.default.heard all (Number.zero k)
  minimum := d.minimum.heard all (Number.lowest k)
  maximum := d.maximum.heard all (Number.highest k)
  multipleOf := d.multipleOf.heard all (Number.zero k)
  scale := d.scale.heard all .linear
  unit := (d.unit.heard all "").map Width.tiny.cut

theorem run_readScale (s : NumberScale) (rest : Bytes) :
    readScale.run ([s.code] ++ rest) = .ok (s, rest) := by
  rw [readScale, List.singleton_append, run_bind_of_ok (run_u8_cons _ _),
    NumberScale.ofCode?_eq_some_iff.2 rfl]
  rfl

theorem optionList (d : NumberDef k) (all : Bool) :
    OptionList readOption ({} : NumberDef k) (d.encodeOptions all) (d.heard all) := by
  unfold encodeOptions Scalar.encodeField
  refine .append (.append (.append (.append (.append
    (Field.optionList_self (fun f => ({ default := f } : NumberDef k)) _ _ _ (by decide) ?_)
    (Field.optionList_self (fun f => ({ default := _, minimum := f } : NumberDef k)) _ _ _
      (by decide) ?_))
    (Field.optionList_self (fun f => ({ default := _, minimum := _, maximum := f } : NumberDef k))
      _ _ _ (by decide) ?_))
    (Field.optionList_self
      (fun f => ({ default := _, minimum := _, maximum := _, multipleOf := f } : NumberDef k))
      _ _ _ (by decide) ?_))
    (Field.optionList_self
      (fun f => ({ default := _, minimum := _, maximum := _, multipleOf := _, scale := f } :
        NumberDef k)) _ _ _ (by decide) ?_))
    (Field.optionList
      (fun f =>
        ({ default := _, minimum := _, maximum := _, multipleOf := _, scale := _, unit := f } :
          NumberDef k)) Width.tiny.cut _ _ _ (by decide) ?_)
  · exact fun a _ rest => run_bind_of_ok (run_number_append a rest) _
  · exact fun a _ rest => run_bind_of_ok (run_number_append a rest) _
  · exact fun a _ rest => run_bind_of_ok (run_number_append a rest) _
  · exact fun a _ rest => run_bind_of_ok (run_number_append a rest) _
  · exact fun a _ rest => run_bind_of_ok (run_readScale a rest) _
  · exact fun a _ rest => run_bind_of_ok (run_text_append .tiny a rest) _

end NumberDef

/-! ## Texts -/

namespace StringDef

def heard (d : StringDef) (all : Bool) : StringDef where
  default := (d.default.heard all "").map Width.long.cut
  regex := (d.regex.heard all "").map Width.long.cut

theorem optionList (d : StringDef) (all : Bool) :
    OptionList readOption ({} : StringDef) (d.encodeOptions all) (d.heard all) := by
  refine .append
    (Field.optionList (fun f => ({ default := f } : StringDef)) Width.long.cut _ _ _
      (by decide) ?_)
    (Field.optionList (fun f => ({ default := _, regex := f } : StringDef)) Width.long.cut _ _ _
      (by decide) ?_)
  · exact fun a _ rest => run_bind_of_ok (run_text_append .long a rest) _
  · exact fun a _ rest => run_bind_of_ok (run_text_append .long a rest) _

end StringDef

namespace EnumDef

def heard (d : EnumDef) (all : Bool) : EnumDef where
  default := (d.default.heard all "").map Width.tiny.cut
  entries := (d.entries.heard all []).map (·.map Width.tiny.cut)
  multiselect := d.multiselect.heard all false

/-- The length of a text that is not empty is not the terminator. -/
theorem exists_tiny_text {s : String} (hs : s ≠ "") :
    ∃ b bs, Width.tiny.text s = b :: bs ∧ b ≠ terminator := by
  have hne : Utf8.encode s ≠ [] := fun h => hs (Utf8.encode_eq_nil_iff.1 h)
  have hpos : 0 < (Utf8.encode s).length := List.length_pos_iff.2 hne
  have hlen : ((Utf8.encode s).take Width.tiny.limit).length = min 255 (Utf8.encode s).length := by
    rw [List.length_take]
    rfl
  refine ⟨UInt8.ofNat ((Utf8.encode s).take Width.tiny.limit).length, _, rfl, fun h => ?_⟩
  have := congrArg UInt8.toNat h
  rw [UInt8.toNat_ofNat', hlen] at this
  change _ = 0 at this
  omega

theorem itemList {entries : List String} (h : "" ∉ entries) (read : List String) :
    ItemList readEntry read (entries.flatMap Width.tiny.text)
      ((entries.map Width.tiny.cut).reverse ++ read) := by
  induction entries generalizing read with
  | nil => exact .nil _
  | cons s entries ih =>
    rw [List.mem_cons, not_or] at h
    obtain ⟨hs, hentries⟩ := h
    obtain ⟨b, bs, hbs, hb⟩ := exists_tiny_text (Ne.symm hs)
    rw [List.flatMap_cons, hbs, List.map_cons, List.reverse_cons, List.append_assoc]
    refine .cons hb (fun rest => ?_) (ih hentries _)
    rw [← hbs]
    exact run_bind_of_ok (run_text_append .tiny s rest) _

theorem run_readEntries {entries : List String} (h : "" ∉ entries) (rest : Bytes) :
    readEntries.run (entriesBytes entries ++ rest) = .ok (entries.map Width.tiny.cut, rest) := by
  rw [readEntries, entriesBytes, run_bind_of_ok ((itemList h []).run rest)]
  simp

theorem optionList {d : EnumDef} (h : ∀ entries, d.entries.value = some entries → "" ∉ entries)
    (all : Bool) : OptionList readOption ({} : EnumDef) (d.encodeOptions all) (d.heard all) := by
  refine .append (.append
    (Field.optionList (fun f => ({ default := f } : EnumDef)) Width.tiny.cut _ _ _ (by decide) ?_)
    (Field.optionList (fun f => ({ default := _, entries := f } : EnumDef))
      (·.map Width.tiny.cut) _ _ _ (by decide) ?_))
    (Field.optionList_self (fun f => ({ default := _, entries := _, multiselect := f } : EnumDef))
      _ _ _ (by decide) ?_)
  · exact fun a _ rest => run_bind_of_ok (run_text_append .tiny a rest) _
  · intro a ha rest
    have hempty : "" ∉ a := by
      rcases Field.value_heard_eq_some ha with ha | rfl
      · exact h a ha
      · simp
    exact run_bind_of_ok (run_readEntries hempty rest) _
  · exact fun a _ rest => run_bind_of_ok (LawfulScalar.run_bytes_append a rest) _

end EnumDef

namespace UriDef

def heard (d : UriDef) (all : Bool) : UriDef where
  default := (d.default.heard all "").map Width.long.cut
  filter := (d.filter.heard all "").map Width.tiny.cut
  schemas := (d.schemas.heard all []).map fun schemas =>
    Text.words (Width.tiny.cut (" ".intercalate schemas))

theorem optionList (d : UriDef) (all : Bool) :
    OptionList readOption ({} : UriDef) (d.encodeOptions all) (d.heard all) := by
  refine .append (.append
    (Field.optionList (fun f => ({ default := f } : UriDef)) Width.long.cut _ _ _ (by decide) ?_)
    (Field.optionList (fun f => ({ default := _, filter := f } : UriDef)) Width.tiny.cut _ _ _
      (by decide) ?_))
    (Field.optionList (fun f => ({ default := _, filter := _, schemas := f } : UriDef)) _ _ _ _
      (by decide) ?_)
  · exact fun a _ rest => run_bind_of_ok (run_text_append .long a rest) _
  · exact fun a _ rest => run_bind_of_ok (run_text_append .tiny a rest) _
  · exact fun a _ rest => run_bind_of_ok (run_text_append .tiny _ rest) _

end UriDef

/-! ## Custom types -/

namespace CustomDef

def heard (d : CustomDef) (all : Bool) : CustomDef where
  size := d.size
  default := (d.default.heard all []).map (Bytes.fit d.size.toNat)
  uuid := d.uuid.heard all ⟨0⟩
  config := (d.config.heard all []).map (List.take Width.long.limit)

theorem readOption_uuid (d : CustomDef) :
    d.readOption DefinitionOption.uuid = take 16 >>= fun bs =>
      pure (some { d with uuid := d.uuid.apply (Uuid.ofOctets bs) }) := rfl

theorem optionList (d : CustomDef) (all : Bool) :
    OptionList readOption ({ size := d.size } : CustomDef) (d.encodeOptions all) (d.heard all) := by
  refine .append (.append
    (Field.optionList (fun f => ({ size := d.size, default := f } : CustomDef))
      (Bytes.fit d.size.toNat) _ _ _ (by decide) ?_)
    (Field.optionList_self (fun f => ({ size := d.size, default := _, uuid := f } : CustomDef))
      _ _ _ (by decide) ?_))
    (Field.optionList
      (fun f => ({ size := d.size, default := _, uuid := _, config := f } : CustomDef))
      (List.take Width.long.limit) _ _ _ (by decide) ?_)
  · exact fun a _ rest => run_bind_of_ok (run_take_append (Bytes.length_fit _ a) rest) _
  · intro a _ rest
    have hlen : a.octets.length = 16 := Bytes.length_ofNat _ _
    rw [readOption_uuid, run_bind_of_ok (run_take_append hlen rest), Uuid.ofOctets_octets]
    rfl
  · exact fun a _ rest => run_bind_of_ok (run_blob_append a rest) _

end CustomDef

namespace TypeDef

/-! ## Well-formed definitions -/

/-- What every definition has that was made and changed by its own operations: no entry of a
choice is empty, the element of a range is a number, and the default of a custom type has its
size. -/
def WellFormed : TypeDef → Prop
  | enum d => ∀ entries, d.entries.value = some entries → "" ∉ entries
  | range element _ => element.datatype.isNumber = true
  | custom d => ∀ bs, d.default.value = some bs → bs.length = d.size.toNat
  | _ => True

/-- A definition of the datatype of a number is one. -/
theorem eq_number {d : TypeDef} {k : NumberKind} (h : d.datatype = .number k) :
    ∃ e, d = number k e := by
  cases d with
  | number l e =>
    cases h
    exact ⟨e, rfl⟩
  | _ => cases h

theorem eq_number_of_isNumber {d : TypeDef} (h : d.datatype.isNumber = true) :
    ∃ k e, d = number k e := by
  cases d with
  | number k e => exact ⟨k, e, rfl⟩
  | _ => cases h

/-! ## Bare values -/

/-- The value that is read where a scalar was written. -/
def heardScalar (α : Type) [Scalar α] (v : Value) : Value :=
  Scalar.toValue ((Scalar.ofValue? v).getD (Scalar.zero : α))

/-- The value that is read where a value was written. -/
def heardValue : TypeDef → Value → Value
  | boolean _, v => heardScalar Bool v
  | number k _, v => heardScalar (Number k) v
  | string _, v | uri _, v => .text (Width.long.cut (v.toText?.getD ""))
  | enum _, v => .text (Width.tiny.cut (v.toText?.getD ""))
  | rgb _, v | rgba _, v => heardScalar Color v
  | ipv4 _, v => heardScalar Ipv4 v
  | ipv6 _, v => heardScalar Ipv6 v
  | range element _, .range lower upper =>
    .range (element.heardValue lower) (element.heardValue upper)
  | range element _, _ =>
    let (lower, upper) := zeroPair element
    .range (element.heardValue lower) (element.heardValue upper)
  | custom d, .bytes bs => .bytes (Bytes.fit d.size.toNat bs)
  | custom d, _ => .bytes (Bytes.fit d.size.toNat [])
  | bang, v | group, v => v

theorem run_readScalar (α : Type) [Scalar α] [LawfulScalar α] (v : Value) (rest : Bytes) :
    (Scalar.readValue α).run (Scalar.encodeValue α v ++ rest) = .ok (heardScalar α v, rest) :=
  run_bind_of_ok (LawfulScalar.run_bytes_append _ rest) _

theorem run_readText (w : Width) (v : Value) (rest : Bytes) :
    w.readValue.run (w.encodeValue v ++ rest) = .ok (.text (w.cut (v.toText?.getD "")), rest) :=
  run_bind_of_ok (run_text_append w _ rest) _

/-- A bare number is read as it was written. -/
theorem run_readNumber (k : NumberKind) (e : NumberDef k) (v : Value) (rest : Bytes) :
    (number k e).readValue.run ((number k e).encodeValue v ++ rest) =
      .ok ((number k e).heardValue v, rest) :=
  run_readScalar (Number k) v rest

/-- Two values of an element, one after the other. -/
theorem run_readPair {element : TypeDef} (h : element.datatype.isNumber = true)
    (lower upper : Value) (rest : Bytes) {α : Type} (f : Value → Value → Reader α) :
    (element.readValue >>= fun l => element.readValue >>= f l).run
        (element.encodeValue lower ++ element.encodeValue upper ++ rest) =
      (f (element.heardValue lower) (element.heardValue upper)).run rest := by
  obtain ⟨k, e, rfl⟩ := eq_number_of_isNumber h
  rw [List.append_assoc, run_bind_of_ok (run_readNumber k e lower _),
    run_bind_of_ok (run_readNumber k e upper _)]

/-- A bare value is read as `heardValue` gives it. -/
theorem run_readValue {d : TypeDef} (h : d.WellFormed) (hv : d.hasValue = true) (v : Value)
    (rest : Bytes) : d.readValue.run (d.encodeValue v ++ rest) = .ok (d.heardValue v, rest) := by
  cases d with
  | boolean e =>
    rw [readValue, encodeValue, heardValue]
    exact run_readScalar Bool v rest
  | number k e =>
    rw [readValue, encodeValue, heardValue]
    exact run_readScalar (Number k) v rest
  | string e =>
    rw [readValue, encodeValue, heardValue]
    exact run_readText .long v rest
  | uri e =>
    rw [readValue, encodeValue, heardValue]
    exact run_readText .long v rest
  | enum e =>
    rw [readValue, encodeValue, heardValue]
    exact run_readText .tiny v rest
  | rgb e =>
    rw [readValue, encodeValue, heardValue]
    exact run_readScalar Color v rest
  | rgba e =>
    rw [readValue, encodeValue, heardValue]
    exact run_readScalar Color v rest
  | ipv4 e =>
    rw [readValue, encodeValue, heardValue]
    exact run_readScalar Ipv4 v rest
  | ipv6 e =>
    rw [readValue, encodeValue, heardValue]
    exact run_readScalar Ipv6 v rest
  | range element e =>
    cases v with
    | range lower upper =>
      rw [readValue, encodeValue, run_readPair h]
      rfl
    | _ =>
      rw [readValue, encodeValue]
      · exact run_readPair h element.zeroPair.1 element.zeroPair.2 rest fun lower upper =>
          pure (Value.range lower upper)
      · simp
  | custom e =>
    cases v with
    | bytes bs => exact run_bind_of_ok (run_take_append (Bytes.length_fit _ bs) rest) _
    | _ => exact run_bind_of_ok (run_take_append (Bytes.length_fit _ []) rest) _
  | bang => cases hv
  | group => cases hv

/-! ## Definitions -/

/-- The definition that is read where one was written. -/
def heard (all : Bool) : TypeDef → TypeDef
  | boolean d => boolean (d.heard all)
  | number k d => number k (d.heard all)
  | string d => string (d.heard all)
  | enum d => enum (d.heard all)
  | uri d => uri (d.heard all)
  | rgb d => rgb (d.heard all)
  | rgba d => rgba (d.heard all)
  | ipv4 d => ipv4 (d.heard all)
  | ipv6 d => ipv6 (d.heard all)
  | range element default =>
    range (element.heard all) ((default.heard all (zeroPair element)).map fun (lower, upper) =>
      (element.heardValue lower, element.heardValue upper))
  | custom d => custom (d.heard all)
  | bang => bang
  | group => group

@[simp] theorem datatype_heard (all : Bool) (d : TypeDef) :
    (d.heard all).datatype = d.datatype := by
  cases d <;> rfl

@[simp] theorem hasValue_heard (all : Bool) (d : TypeDef) :
    (d.heard all).hasValue = d.hasValue := by
  cases d <;> rfl

theorem run_datatype (d : Datatype) (rest : Bytes) :
    Reader.datatype.run (d.code :: rest) = .ok (d, rest) := by
  rw [Reader.datatype, run_bind_of_ok (run_u8_cons _ _), Datatype.ofCode?_eq_some_iff.2 rfl]
  rfl

/-- Options of a schema are options of the definition. -/
theorem run_readOptions {δ : Type} (wrap : δ → TypeDef) {readOption : δ → UInt8 → Reader (Option δ)}
    (hwrap : ∀ d code, TypeDef.readOption code (wrap d) =
      readOption d code >>= fun o => pure (o.map wrap))
    {d d' : δ} {bs : Bytes} (h : OptionList readOption d bs d') (rest : Bytes) :
    (readOptions (wrap d)).run (bs ++ [terminator] ++ rest) = .ok (wrap d', rest) := by
  refine (h.map readKnownOption wrap fun {d d' code bs rest} hread => ?_).run rest
  have hoption : (TypeDef.readOption code (wrap d)).run bs = .ok (some (wrap d'), rest) := by
    rw [hwrap, run_bind_of_ok hread]
    rfl
  rw [readKnownOption, run_bind_of_ok hoption]
  rfl

/-- A definition without a mandatory part, once its datatype is known. -/
theorem run_read_of_ofDatatype? {d d' : TypeDef} {bs rest : Bytes} {datatype : Datatype}
    (hd : ofDatatype? datatype = some d)
    (h : (readOptions d).run (bs ++ [terminator] ++ rest) = .ok (d', rest)) :
    read.run (datatype.code :: (bs ++ [terminator]) ++ rest) = .ok (d', rest) := by
  rw [read, List.cons_append, run_bind_of_ok (run_datatype _ _)]
  cases datatype <;> cases hd <;> exact h

theorem run_readKnownOption {d d' : TypeDef} {code : UInt8} {bs rest : Bytes}
    (h : (d.readOption code).run bs = .ok (some d', rest)) :
    (d.readKnownOption code).run bs = .ok (some d', rest) := by
  rw [readKnownOption, run_bind_of_ok h]
  rfl

theorem heard_range (all : Bool) (element : TypeDef) (default : Field (Value × Value)) :
    (range element default).heard all = range (element.heard all)
      ((default.heard all (zeroPair element)).map fun pair =>
        (element.heardValue pair.1, element.heardValue pair.2)) := rfl

/-- The definition of the element of a range, and the two values of its default. -/
theorem run_read_range {element : TypeDef} (h : element.datatype.isNumber = true)
    (default : Field (Value × Value)) (all : Bool) (rest : Bytes) :
    read.run ((range element default).encode all ++ rest) =
      .ok ((range element default).heard all, rest) := by
  obtain ⟨k, e, rfl⟩ := eq_number_of_isNumber h
  have helement : ∀ rest, readElement.run ((number k e).encode all ++ rest) =
      .ok (number k (e.heard all), rest) := by
    intro rest
    have hcode : Datatype.ofCode? (number k e).datatype.code = some (.number k) :=
      Datatype.ofCode?_eq_some_iff.2 rfl
    rw [readElement, encode, List.cons_append, run_bind_of_ok (run_peek_cons _ _), hcode]
    rw [run_bind_of_ok (run_u8_cons _ _)]
    · exact run_readOptions (number k) (fun _ _ => rfl) (e.optionList all) rest
    · simp
    · simp
  have hdefault : OptionList readKnownOption (range (number k (e.heard all)) {})
      (encodeOptions all (range (number k e) default))
      ((range (number k e) default).heard all) := by
    rw [encodeOptions, heard_range]
    refine Field.optionList (fun f => range (number k (e.heard all)) f) _ default all _ (by decide)
      fun pair _ rest => run_readKnownOption ?_
    exact run_readPair h pair.1 pair.2 rest fun lower upper =>
      pure (some (range (number k (e.heard all)) (.of (lower, upper))))
  rw [read, encode, List.cons_append, run_bind_of_ok (run_datatype .range _), List.append_assoc,
    List.append_assoc]
  show (readElement >>= fun element => readOptions (range element {})).run _ = _
  rw [run_bind_of_ok (helement _), ← List.append_assoc]
  exact hdefault.run rest

/-- A definition is read as `heard` gives it. -/
theorem run_read {d : TypeDef} (h : d.WellFormed) (all : Bool) (rest : Bytes) :
    read.run (d.encode all ++ rest) = .ok (d.heard all, rest) := by
  cases d with
  | boolean d =>
    exact run_read_of_ofDatatype? (d := boolean {}) rfl
      (run_readOptions boolean (fun _ _ => rfl) (d.optionList all) rest)
  | number k d =>
    exact run_read_of_ofDatatype? (d := number k {}) rfl
      (run_readOptions (number k) (fun _ _ => rfl) (d.optionList all) rest)
  | string d =>
    exact run_read_of_ofDatatype? (d := string {}) rfl
      (run_readOptions string (fun _ _ => rfl) (d.optionList all) rest)
  | enum d =>
    exact run_read_of_ofDatatype? (d := enum {}) rfl
      (run_readOptions enum (fun _ _ => rfl) (EnumDef.optionList h all) rest)
  | uri d =>
    exact run_read_of_ofDatatype? (d := uri {}) rfl
      (run_readOptions uri (fun _ _ => rfl) (d.optionList all) rest)
  | rgb d =>
    exact run_read_of_ofDatatype? (d := rgb {}) rfl
      (run_readOptions rgb (fun _ _ => rfl) (d.optionList all) rest)
  | rgba d =>
    exact run_read_of_ofDatatype? (d := rgba {}) rfl
      (run_readOptions rgba (fun _ _ => rfl) (d.optionList all) rest)
  | ipv4 d =>
    exact run_read_of_ofDatatype? (d := ipv4 {}) rfl
      (run_readOptions ipv4 (fun _ _ => rfl) (d.optionList all) rest)
  | ipv6 d =>
    exact run_read_of_ofDatatype? (d := ipv6 {}) rfl
      (run_readOptions ipv6 (fun _ _ => rfl) (d.optionList all) rest)
  | range element default => exact run_read_range h default all rest
  | custom d =>
    have hsize : d.size.toNat < Bytes.capacity 4 := d.size.toNat_lt
    rw [read, encode, List.cons_append, run_bind_of_ok (run_datatype .custom _), List.append_assoc,
      List.append_assoc]
    show (nat 4 >>= fun size => readOptions (ofSize (UInt32.ofNat size))).run _ = _
    rw [run_bind_of_ok (run_nat_append hsize _), ← List.append_assoc, UInt32.ofNat_toNat]
    exact run_readOptions custom (fun _ _ => rfl) (d.optionList all) rest
  | bang =>
    have hempty : OptionList readKnownOption bang [] bang := .nil _
    exact run_read_of_ofDatatype? (d := bang) rfl (hempty.run rest)
  | group =>
    have hempty : OptionList readKnownOption group [] group := .nil _
    exact run_read_of_ofDatatype? (d := group) rfl (hempty.run rest)

end TypeDef
end ParamSync
