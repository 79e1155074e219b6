import ParamSync.Proofs.Codec.Cutting
import ParamSync.Proofs.Codec.Parameter

/-!
# Parameters that survive the wire whole

`Parameter.Lossless` lists what a parameter must not have if a full write is to keep all of it:
texts and bytes past their lengths, values that its definition does not accept, language codes that
are cut, padded or taken for something else, and schemas of addresses that are no words. Everything
else survives, floating-point numbers bit by bit.

Results:
* `TypeDef.heardValue_of_fits`: such a value is read as it is.
* `Parameter.heard_true`: such a parameter is read as its copy, without flags, members and watchers.
-/

namespace ParamSync

/-! ## What fits -/

/-- The text fits its length. -/
def Width.Fits (w : Width) (s : String) : Prop := (Utf8.encode s).length ≤ w.limit

theorem Width.Fits.cut_eq {w : Width} {s : String} (h : w.Fits s) : w.cut s = s :=
  cut_of_length_le h

namespace Field

variable {α : Type}

/-- What the field holds, if it holds anything, has the property. -/
def Holds (f : Field α) (P : α → Prop) : Prop := ∀ a, f.value = some a → P a

theorem heard_true_eq_sent (f : Field α) (sentinel : α) : f.heard true sentinel = f.sent :=
  f.heard_true sentinel

/-- Reading keeps what it keeps of the value. -/
theorem map_heard_true {f : Field α} {read : α → α} (h : f.Holds fun a => read a = a)
    (sentinel : α) : (f.heard true sentinel).map read = f.sent := by
  rw [heard_true_eq_sent, map, sent]
  cases hv : f.value with
  | none => rfl
  | some a => rw [Option.map_some, h a hv]

end Field

/-! ## Schemas -/

theorem PlainDef.heard_true {α : Type} [Scalar α] (d : PlainDef α) : d.heard true = d.sent := by
  rw [heard, Field.heard_true_eq_sent, sent]

theorem NumberDef.heard_true {k : NumberKind} {d : NumberDef k}
    (h : d.unit.Holds Width.tiny.Fits) : d.heard true = d.sent := by
  have hunit := Field.map_heard_true (fun s hs => (h s hs).cut_eq) ""
  rw [heard, hunit]
  simp only [Field.heard_true_eq_sent, sent]

/-- The texts of the schema fit. -/
structure StringDef.Lossless (d : StringDef) : Prop where
  default : d.default.Holds Width.long.Fits
  regex : d.regex.Holds Width.long.Fits

theorem StringDef.heard_true {d : StringDef} (h : d.Lossless) : d.heard true = d.sent := by
  have hdefault := Field.map_heard_true (fun s hs => (h.default s hs).cut_eq) ""
  have hregex := Field.map_heard_true (fun s hs => (h.regex s hs).cut_eq) ""
  rw [heard, hdefault, hregex, sent]

/-- The default and every entry fit. -/
structure EnumDef.Lossless (d : EnumDef) : Prop where
  default : d.default.Holds Width.tiny.Fits
  entries : d.entries.Holds fun entries => ∀ s ∈ entries, Width.tiny.Fits s

/-- Every entry is read as it is written. -/
theorem EnumDef.Lossless.map_cut_entries {d : EnumDef} (h : d.Lossless) :
    d.entries.Holds fun entries => entries.map Width.tiny.cut = entries := fun entries he =>
  (List.map_congr_left fun s hs => (h.entries entries he s hs).cut_eq).trans entries.map_id'

theorem EnumDef.heard_true {d : EnumDef} (h : d.Lossless) : d.heard true = d.sent := by
  have hdefault := Field.map_heard_true (fun s hs => (h.default s hs).cut_eq) ""
  rw [heard, hdefault, Field.map_heard_true h.map_cut_entries, Field.heard_true_eq_sent, sent]

/-- The texts fit, the schemas joined to one, and every schema is a word. -/
structure UriDef.Lossless (d : UriDef) : Prop where
  default : d.default.Holds Width.long.Fits
  filter : d.filter.Holds Width.tiny.Fits
  schemas : d.schemas.Holds fun schemas =>
    (∀ s ∈ schemas, Text.IsWord s) ∧ Width.tiny.Fits (" ".intercalate schemas)

/-- The schemas are read as they are written. -/
theorem UriDef.Lossless.words_schemas {d : UriDef} (h : d.Lossless) :
    d.schemas.Holds fun schemas =>
      Text.words (Width.tiny.cut (" ".intercalate schemas)) = schemas := fun schemas hs => by
  obtain ⟨hwords, hfits⟩ := h.schemas schemas hs
  rw [hfits.cut_eq, Text.words_intercalate hwords]

theorem UriDef.heard_true {d : UriDef} (h : d.Lossless) : d.heard true = d.sent := by
  have hdefault := Field.map_heard_true (fun s hs => (h.default s hs).cut_eq) ""
  have hfilter := Field.map_heard_true (fun s hs => (h.filter s hs).cut_eq) ""
  rw [heard, hdefault, hfilter, Field.map_heard_true h.words_schemas, sent]

/-- The default has the size of the type and the configuration fits. -/
structure CustomDef.Lossless (d : CustomDef) : Prop where
  default : d.default.Holds fun bs => bs.length = d.size.toNat
  config : d.config.Holds fun bs => bs.length ≤ Width.long.limit

theorem CustomDef.heard_true {d : CustomDef} (h : d.Lossless) : d.heard true = d.sent := by
  have hdefault : (d.default.heard true []).map (Bytes.fit d.size.toNat) = d.default.sent :=
    Field.map_heard_true (fun bs hbs => Bytes.fit_of_length_eq (h.default bs hbs)) []
  have hconfig : (d.config.heard true []).map (List.take Width.long.limit) = d.config.sent :=
    Field.map_heard_true (fun bs hbs => List.take_of_length_le (h.config bs hbs)) []
  rw [heard, hdefault, hconfig, Field.heard_true_eq_sent, sent]

/-! ## Values -/

namespace TypeDef

/-- The definition accepts the value, and a text in it fits. -/
def Fits (d : TypeDef) (v : Value) : Prop :=
  d.accepts v = true ∧
    match d with
    | string _ | uri _ => ∀ s, v = .text s → Width.long.Fits s
    | enum _ => ∀ s, v = .text s → Width.tiny.Fits s
    | _ => True

theorem heardScalar_of_accepts {α : Type} [Scalar α] [LawfulScalar α] {v : Value}
    (h : Scalar.accepts α v = true) : heardScalar α v = v := by
  obtain ⟨a, ha⟩ := Option.isSome_iff_exists.1 h
  rw [heardScalar, ha, Option.getD_some]
  exact (LawfulScalar.ofValue?_eq_some_iff.1 ha).symm

theorem heardText_of_fits {w : Width} {v : Value} (h : v.toText?.isSome = true)
    (hw : ∀ s, v = .text s → w.Fits s) : Value.text (w.cut (v.toText?.getD "")) = v := by
  cases v with
  | text s => exact congrArg Value.text (hw s rfl).cut_eq
  | _ => cases h

/-- A value that fits is read as it is. -/
theorem heardValue_of_fits {d : TypeDef} (hd : d.WellFormed) {v : Value} (h : d.Fits v) :
    d.heardValue v = v := by
  obtain ⟨hacc, htext⟩ := h
  cases d with
  | string e => exact heardText_of_fits hacc htext
  | uri e => exact heardText_of_fits hacc htext
  | enum e => exact heardText_of_fits hacc htext
  | range element e =>
    obtain ⟨k, e, rfl⟩ := eq_number_of_isNumber hd
    cases v with
    | range lower upper =>
      rw [accepts, Bool.and_eq_true] at hacc
      have hlower := heardScalar_of_accepts (α := Number k) hacc.1
      have hupper := heardScalar_of_accepts (α := Number k) hacc.2
      rw [heardValue, heardValue, heardValue, hlower, hupper]
    | _ => cases hacc
  | custom e =>
    cases v with
    | bytes bs =>
      have hlen : bs.length = e.size.toNat := eq_of_beq hacc
      rw [heardValue, Bytes.fit_of_length_eq hlen]
    | _ => cases hacc
  | bang => cases hacc
  | group => cases hacc
  | boolean e => exact heardScalar_of_accepts hacc
  | number k e => exact heardScalar_of_accepts hacc
  | rgb e => exact heardScalar_of_accepts hacc
  | rgba e => exact heardScalar_of_accepts hacc
  | ipv4 e => exact heardScalar_of_accepts hacc
  | ipv6 e => exact heardScalar_of_accepts hacc

/-! ## Definitions -/

/-- A definition of which a full write keeps everything. -/
def Lossless : TypeDef → Prop
  | number _ d => d.unit.Holds Width.tiny.Fits
  | string d => d.Lossless
  | enum d => d.Lossless
  | uri d => d.Lossless
  | range element default =>
    element.Lossless ∧ default.Holds fun pair =>
      element.accepts pair.1 = true ∧ element.accepts pair.2 = true
  | custom d => d.config.Holds fun bs => bs.length ≤ Width.long.limit
  | _ => True

/-- A pair of numbers is read as it is written. -/
theorem holds_heardPair {k : NumberKind} {d : NumberDef k} {f : Field (Value × Value)}
    (h : f.Holds fun pair =>
      (number k d).accepts pair.1 = true ∧ (number k d).accepts pair.2 = true) :
    f.Holds fun pair =>
      ((number k d).heardValue pair.1, (number k d).heardValue pair.2) = pair := by
  intro pair hp
  obtain ⟨hlower, hupper⟩ := h pair hp
  have hl := heardValue_of_fits (d := number k d) trivial ⟨hlower, trivial⟩
  have hu := heardValue_of_fits (d := number k d) trivial ⟨hupper, trivial⟩
  rw [hl, hu]

theorem heard_true {d : TypeDef} (hd : d.WellFormed) (h : d.Lossless) : d.heard true = d.sent := by
  cases d with
  | boolean d => exact congrArg boolean d.heard_true
  | number k d => exact congrArg (number k) (NumberDef.heard_true h)
  | string d => exact congrArg string (StringDef.heard_true h)
  | enum d => exact congrArg enum (EnumDef.heard_true h)
  | uri d => exact congrArg uri (UriDef.heard_true h)
  | rgb d => exact congrArg rgb d.heard_true
  | rgba d => exact congrArg rgba d.heard_true
  | ipv4 d => exact congrArg ipv4 d.heard_true
  | ipv6 d => exact congrArg ipv6 d.heard_true
  | range element default =>
    obtain ⟨k, e, rfl⟩ := eq_number_of_isNumber hd
    have helement : (number k e).heard true = (number k e).sent :=
      congrArg (number k) (NumberDef.heard_true h.1)
    rw [heard_range, Field.map_heard_true (holds_heardPair h.2), helement]
    rfl
  | custom d => exact congrArg custom (CustomDef.heard_true ⟨hd, h⟩)
  | bang => rfl
  | group => rfl

end TypeDef

/-! ## Texts in several languages -/

namespace LocalizedText

/-- A text of which a full write keeps everything. -/
structure Lossless (t : LocalizedText) (w : Width) : Prop where
  text : ∀ s, t.text = some s → w.Fits s
  language : ∀ code s, t.language? code = some s → IsLanguage code ∧ w.Fits s
  legible : t.Legible

/-- A text that is in no language has none that could be lost. -/
theorem Lossless.of_languages_eq_empty {t : LocalizedText} {w : Width}
    (hlanguages : t.languages = ∅)
    (h : ∀ s, t.text = some s → w.Fits s) : t.Lossless w where
  text := h
  language := by simp [language?, hlanguages]
  legible := by simp [Legible, hlanguages]

/-- Putting every entry of a map into another one. -/
theorem getElem?_foldl_insert (m base : Std.ExtTreeMap String String) (k : String) :
    (m.toList.foldl (fun m (p : String × String) => m.insert p.1 p.2) base)[k]? =
      m[k]?.or base[k]? := by
  rw [← Std.ExtTreeMap.insertMany_list_eq_foldl]
  cases hk : m[k]? with
  | none =>
    rw [Std.ExtTreeMap.getElem?_insertMany_list_of_contains_eq_false, Option.none_or]
    rw [Std.ExtTreeMap.map_fst_toList_eq_keys, List.contains_eq_mem, decide_eq_false_iff_not,
      Std.ExtTreeMap.mem_keys, Std.ExtTreeMap.mem_iff_isSome_getElem?, hk]
    simp
  | some s =>
    exact Std.ExtTreeMap.getElem?_insertMany_list_of_mem Std.ReflCmp.compare_self
      Std.ExtTreeMap.distinct_keys_toList (Std.ExtTreeMap.mem_toList_iff_getElem?_eq_some.2 hk)

/-- Putting every entry of a map into an empty one makes the map again. -/
theorem foldl_insert_toList (m : Std.ExtTreeMap String String) :
    m.toList.foldl (fun m (p : String × String) => m.insert p.1 p.2) ∅ = m := by
  refine Std.ExtTreeMap.ext_getElem? fun k => ?_
  rw [getElem?_foldl_insert, Std.ExtTreeMap.getElem?_empty, Option.or_none]

/-- A text that is read as it is written: every language code is, and no text is changed by a
cut. -/
structure Settled (t : LocalizedText) (w : Width) : Prop where
  text : ∀ s, t.text = some s → w.cut s = s
  language : ∀ code s, t.language? code = some s → IsSettled code ∧ w.cut s = s

theorem Settled.legible {t : LocalizedText} {w : Width} (h : t.Settled w) : t.Legible := by
  intro code hcode
  rw [Std.ExtTreeMap.mem_iff_isSome_getElem?, Option.isSome_iff_exists] at hcode
  obtain ⟨s, hs⟩ := hcode
  exact (h.language code s hs).1.head?_ne

theorem Lossless.settled {t : LocalizedText} {w : Width} (h : t.Lossless w) : t.Settled w where
  text s hs := (h.text s hs).cut_eq
  language code s hs := by
    obtain ⟨hcode, hfits⟩ := h.language code s hs
    have hmem : code ∈ t.languages := by
      rw [Std.ExtTreeMap.mem_iff_isSome_getElem?, show t.languages[code]? = some s from hs]
      rfl
    exact ⟨hcode.isSettled (h.legible code hmem), hfits.cut_eq⟩

/-- The entries of languages are put into the map one by one. -/
theorem foldl_hear_languages {w : Width} {entries : List (String × String)}
    (h : ∀ entry ∈ entries, IsSettled entry.1 ∧ w.cut entry.2 = entry.2) (t : LocalizedText) :
    (entries.map fun (code, s) => (languageBytes code, s)).foldl (hear w) t =
      { t with languages := entries.foldl (fun m p => m.insert p.1 p.2) t.languages } := by
  induction entries generalizing t with
  | nil => rfl
  | cons entry entries ih =>
    obtain ⟨⟨hcode, hcut⟩, hentries⟩ := List.forall_mem_cons.1 h
    obtain ⟨code, s⟩ := entry
    rw [List.map_cons, List.foldl_cons, ih hentries, hear, if_neg hcode.ne_any, hcode.heard, hcut,
      List.foldl_cons]

/-- A settled text is read as it is. -/
theorem Settled.heard_true {t : LocalizedText} {w : Width} (h : t.Settled w) :
    t.heard w true = t.sent := by
  have hlanguages : ∀ entry ∈ t.languages.toList, IsSettled entry.1 ∧ w.cut entry.2 = entry.2 := by
    intro entry hentry
    exact h.language entry.1 entry.2 (Std.ExtTreeMap.mem_toList_iff_getElem?_eq_some.1 hentry)
  have hpairs : t.pairs.foldl (hear w) {} = t.sent := by
    rw [pairs, List.foldl_append, foldl_hear_languages hlanguages]
    cases ht : t.text with
    | none =>
      have := foldl_insert_toList t.languages
      simpa [sent, ht] using this
    | some s =>
      have := foldl_insert_toList t.languages
      simpa [sent, ht, hear, h.text s ht] using this
  unfold heard
  cases hpresent : t.isPresent with
  | true => simpa using hpairs
  | false =>
    rw [pairs_of_not_isPresent hpresent] at hpairs
    simpa using hpairs

/-- A text of which nothing is lost is read as it is. -/
theorem heard_true {t : LocalizedText} {w : Width} (h : t.Lossless w) :
    t.heard w true = t.sent :=
  h.settled.heard_true

end LocalizedText

/-! ## Parameters -/

namespace Parameter

/-- A parameter of which a full write keeps everything. -/
structure Lossless (p : Parameter) : Prop where
  definition : p.definition.Lossless
  value : p.value.Holds p.definition.Fits
  label : p.label.Lossless .tiny
  description : p.description.Lossless .short
  tags : p.tags.Holds Width.tiny.Fits
  userData : p.userData.Holds fun bs => bs.length ≤ Width.long.limit
  userId : p.userId.Holds Width.tiny.Fits

/-- What travels of a parameter: all but the flags, the members and the watchers. -/
def copy (p : Parameter) : Parameter where
  id := p.id
  definition := p.definition.sent
  value := p.value.sent
  label := p.label.sent
  description := p.description.sent
  tags := p.tags.sent
  order := p.order.sent
  parent := p.parent.sent
  userData := p.userData.sent
  userId := p.userId.sent

theorem Lossless.legible {p : Parameter} (h : p.Lossless) (hd : p.definition.WellFormed)
    {all : Bool} : p.Legible all :=
  ⟨hd, fun _ => h.label.legible, fun _ => h.description.legible⟩

/-- A parameter of which nothing is lost is read as its copy. -/
theorem heard_true {p : Parameter} (h : p.Lossless) (hd : p.definition.WellFormed) :
    p.heard true = p.copy := by
  have htags := Field.map_heard_true (fun s hs => (h.tags s hs).cut_eq) ""
  have huserId := Field.map_heard_true (fun s hs => (h.userId s hs).cut_eq) ""
  have huserData : (p.userData.heard true []).map (List.take Width.long.limit) = p.userData.sent :=
    Field.map_heard_true (fun bs hbs => List.take_of_length_le (h.userData bs hbs)) []
  have hvalue : (if p.definition.hasValue then
      (p.value.heard true (p.definition.zero?.getD (.bytes []))).map p.definition.heardValue
    else {}) = p.value.sent := by
    cases hv : p.definition.hasValue with
    | true =>
      exact Field.map_heard_true (fun v hpv => TypeDef.heardValue_of_fits hd (h.value v hpv)) _
    | false =>
      -- such a definition accepts no value
      have hnone : p.value.value = none := by
        cases hpv : p.value.value with
        | none => rfl
        | some v =>
          have hacc := (h.value v hpv).1
          cases hdef : p.definition <;> simp [hdef, TypeDef.hasValue, TypeDef.accepts] at hv hacc
      simp [Field.sent, hnone]
  rw [heard, copy, hvalue, TypeDef.heard_true hd h.definition, LocalizedText.heard_true h.label,
    LocalizedText.heard_true h.description, htags, huserData, huserId, Field.heard_true_eq_sent,
    Field.heard_true_eq_sent]

end Parameter
end ParamSync
