import ParamSync.Proofs.Codec.Kinds
import ParamSync.Proofs.Codec.RoundTrip
import ParamSync.Proofs.Registry.Likeness

/-!
# Deltas transfer what changed

A delta write has the fields that changed and no others. Who reads it and merges what was read into
a parameter of the same kind has then, in each field that changed, what the writer has there, or the
sentinel of the field if the writer has cleared it; and every other field is as it was.

`Conveys` says so, for a field, a text in several languages, a definition and a parameter: `f` is
the writer's, `g` what the reader had and `g'` what it has afterwards.

Results:
* `Field.conveys_merge`: a field that is heard as it is written conveys what changed.
* `LocalizedText.conveys_merge`: so does a text, entry by entry.
* `TypeDef.conveys_merge`: so do the options of a definition, for one of the same kind.
* `Parameter.exists_conveys`: so does a parameter.
-/

namespace ParamSync

/-! ## Fields -/

namespace Field

variable {α : Type} [Alike α] {f g g' : Field α} {sentinel : α}

/-- The field `g'` is `g` after a delta of `f`. A flag of the reader's own stays either way. -/
structure Conveys (f : Field α) (sentinel : α) (g g' : Field α) : Prop where
  told : f.changed = true → Same g'.value (some (f.value.getD sentinel))
  kept : f.changed = false → g' = g
  flag : g'.changed = g.changed

/-- What `read` makes of a field conveys it, if `read` keeps what is in it. -/
theorem conveys_merge {read : α → α} (h : f.Holds fun a => read a = a) (sentinel : α)
    (g : Field α) :
    f.Conveys (read sentinel) g (g.merge ((f.heard false sentinel).map read)) := by
  have hvalue : ((f.heard false sentinel).map read).value =
      if f.changed then some (f.value.getD (read sentinel)) else none := by
    show Option.map read (f.heard false sentinel).value = _
    rw [value_heard_false]
    split
    · cases hf : f.value with
      | none => rfl
      | some a => exact congrArg some (h a hf)
    · rfl
  refine ⟨fun hchanged => ?_, fun hchanged => ?_, changed_merge _ _⟩
  · rw [if_pos hchanged] at hvalue
    rw [merge, hvalue]
    exact g.same_apply _
  · rw [hchanged] at hvalue
    rw [merge, hvalue]
    rfl

/-- A field that is read as it is written. -/
theorem conveys_merge_self (f : Field α) (sentinel : α) (g : Field α) :
    f.Conveys sentinel g (g.merge (f.heard false sentinel)) := by
  have hid : (f.heard false sentinel).map (fun a => a) = f.heard false sentinel := by simp [map]
  have hread : ∀ a, f.value = some a → (fun a : α => a) a = a := fun _ _ => rfl
  have := conveys_merge hread sentinel g
  rwa [hid] at this

end Field

/-- Nothing of the empty text is cut. -/
theorem Width.cut_empty (w : Width) : w.cut "" = "" := by cases w <;> rfl

/-- A text that fits conveys itself. -/
theorem Width.conveys_merge {w : Width} {f : Field String} (h : f.Holds w.Fits)
    (g : Field String) : f.Conveys "" g (g.merge ((f.heard false "").map w.cut)) := by
  have := Field.conveys_merge (fun s hs => (h s hs).cut_eq) "" g
  rwa [w.cut_empty] at this

/-! ## Texts in several languages -/

namespace LocalizedText

/-- The text `u'` is `u` after a delta of `t`. A block says nothing of what it does not mention, so
that what was cleared stays with the reader. -/
structure Conveys (t u u' : LocalizedText) : Prop where
  text : t.changed = true → u'.text = t.text.or u.text
  language : t.changed = true → ∀ code, u'.language? code = (t.language? code).or (u.language? code)
  kept : t.changed = false → u' = u
  flag : u'.changed = u.changed

theorem heard_false {t : LocalizedText} {w : Width} (h : t.Lossless w) :
    t.heard w false = if t.changed then t.sent else {} := by
  have htrue := heard_true h
  unfold heard at htrue ⊢
  cases t.changed with
  | true => exact htrue
  | false => simp

theorem merge_empty (t : LocalizedText) : t.merge {} = t := by
  have hnil : (∅ : Std.ExtTreeMap String String).toList = [] :=
    Std.ExtTreeMap.toList_eq_nil_iff.2 rfl
  rw [merge, Std.ExtTreeMap.foldl_eq_foldl_toList, hnil]
  rfl

theorem language?_merge (t u : LocalizedText) (code : String) :
    (t.merge u).language? code = (u.language? code).or (t.language? code) := by
  rw [language?, merge, Std.ExtTreeMap.foldl_eq_foldl_toList]
  exact getElem?_foldl_insert u.languages t.languages code

/-- A text of which nothing is lost conveys what changed. -/
theorem conveys_merge {t : LocalizedText} {w : Width} (h : t.Lossless w) (u : LocalizedText) :
    t.Conveys u (u.merge (t.heard w false)) := by
  rw [heard_false h]
  refine ⟨fun hchanged => ?_, fun hchanged code => ?_, fun hchanged => ?_, rfl⟩
  · rw [if_pos hchanged]
    rfl
  · rw [if_pos hchanged]
    exact language?_merge u t.sent code
  · rw [hchanged]
    exact merge_empty u

end LocalizedText

/-! ## Schemas -/

def PlainDef.Conveys {α : Type} [Scalar α] (d e e' : PlainDef α) : Prop :=
  d.default.Conveys Scalar.zero e.default e'.default

theorem PlainDef.conveys_merge {α : Type} [Scalar α] (d e : PlainDef α) :
    d.Conveys e (e.merge (d.heard false)) := Field.conveys_merge_self _ _ _

/-- A bound that was cleared is heard as the bound that excludes nothing. -/
structure NumberDef.Conveys {k : NumberKind} (d e e' : NumberDef k) : Prop where
  default : d.default.Conveys (Number.zero k) e.default e'.default
  minimum : d.minimum.Conveys (Number.lowest k) e.minimum e'.minimum
  maximum : d.maximum.Conveys (Number.highest k) e.maximum e'.maximum
  multipleOf : d.multipleOf.Conveys (Number.zero k) e.multipleOf e'.multipleOf
  scale : d.scale.Conveys .linear e.scale e'.scale
  unit : d.unit.Conveys "" e.unit e'.unit

theorem NumberDef.conveys_merge {k : NumberKind} {d : NumberDef k}
    (h : d.unit.Holds Width.tiny.Fits) (e : NumberDef k) :
    d.Conveys e (e.merge (d.heard false)) where
  default := Field.conveys_merge_self _ _ _
  minimum := Field.conveys_merge_self _ _ _
  maximum := Field.conveys_merge_self _ _ _
  multipleOf := Field.conveys_merge_self _ _ _
  scale := Field.conveys_merge_self _ _ _
  unit := Width.conveys_merge h _

structure StringDef.Conveys (d e e' : StringDef) : Prop where
  default : d.default.Conveys "" e.default e'.default
  regex : d.regex.Conveys "" e.regex e'.regex

theorem StringDef.conveys_merge {d : StringDef} (h : d.Lossless) (e : StringDef) :
    d.Conveys e (e.merge (d.heard false)) where
  default := Width.conveys_merge h.default _
  regex := Width.conveys_merge h.regex _

structure EnumDef.Conveys (d e e' : EnumDef) : Prop where
  default : d.default.Conveys "" e.default e'.default
  entries : d.entries.Conveys [] e.entries e'.entries
  multiselect : d.multiselect.Conveys false e.multiselect e'.multiselect

theorem EnumDef.conveys_merge {d : EnumDef} (h : d.Lossless) (e : EnumDef) :
    d.Conveys e (e.merge (d.heard false)) where
  default := Width.conveys_merge h.default _
  entries := Field.conveys_merge h.map_cut_entries [] _
  multiselect := Field.conveys_merge_self _ _ _

structure UriDef.Conveys (d e e' : UriDef) : Prop where
  default : d.default.Conveys "" e.default e'.default
  filter : d.filter.Conveys "" e.filter e'.filter
  schemas : d.schemas.Conveys [] e.schemas e'.schemas

theorem UriDef.conveys_merge {d : UriDef} (h : d.Lossless) (e : UriDef) :
    d.Conveys e (e.merge (d.heard false)) where
  default := Width.conveys_merge h.default _
  filter := Width.conveys_merge h.filter _
  schemas := Field.conveys_merge h.words_schemas [] _

/-- A default that was cleared is heard as zeros. -/
structure CustomDef.Conveys (d e e' : CustomDef) : Prop where
  size : e'.size = e.size
  default : d.default.Conveys (List.replicate d.size.toNat 0) e.default e'.default
  uuid : d.uuid.Conveys ⟨0⟩ e.uuid e'.uuid
  config : d.config.Conveys [] e.config e'.config

theorem CustomDef.conveys_merge {d : CustomDef} (h : d.Lossless) {e : CustomDef}
    (hsize : e.size = d.size) : d.Conveys e (e.merge (d.heard false)) := by
  have hmerge : e.merge (d.heard false) = { e with
      default := e.default.merge (d.heard false).default
      uuid := e.uuid.merge (d.heard false).uuid
      config := e.config.merge (d.heard false).config } := if_pos hsize.symm
  rw [hmerge]
  refine ⟨rfl, ?_, Field.conveys_merge_self _ _ _, ?_⟩
  · have := Field.conveys_merge
      (fun bs hbs => Bytes.fit_of_length_eq (h.default bs hbs)) [] e.default
    rwa [Bytes.fit_nil] at this
  · exact Field.conveys_merge (fun bs hbs => List.take_of_length_le (h.config bs hbs)) [] _

/-! ## Definitions -/

namespace TypeDef

/-- The definition `e'` is `e` after a delta of `d`, where all three are of one kind. -/
inductive Conveys : TypeDef → TypeDef → TypeDef → Prop
  | boolean {d e e' : PlainDef Bool} : d.Conveys e e' → Conveys (boolean d) (boolean e) (boolean e')
  | number {k : NumberKind} {d e e' : NumberDef k} :
    d.Conveys e e' → Conveys (number k d) (number k e) (number k e')
  | string {d e e' : StringDef} : d.Conveys e e' → Conveys (string d) (string e) (string e')
  | enum {d e e' : EnumDef} : d.Conveys e e' → Conveys (enum d) (enum e) (enum e')
  | uri {d e e' : UriDef} : d.Conveys e e' → Conveys (uri d) (uri e) (uri e')
  | rgb {d e e' : PlainDef Color} : d.Conveys e e' → Conveys (rgb d) (rgb e) (rgb e')
  | rgba {d e e' : PlainDef Color} : d.Conveys e e' → Conveys (rgba d) (rgba e) (rgba e')
  | ipv4 {d e e' : PlainDef Ipv4} : d.Conveys e e' → Conveys (ipv4 d) (ipv4 e) (ipv4 e')
  | ipv6 {d e e' : PlainDef Ipv6} : d.Conveys e e' → Conveys (ipv6 d) (ipv6 e) (ipv6 e')
  | range {a b b' : TypeDef} {f g g' : Field (Value × Value)} :
    Conveys a b b' → f.Conveys (zeroPair a) g g' → Conveys (range a f) (range b g) (range b' g')
  | custom {d e e' : CustomDef} : d.Conveys e e' → Conveys (custom d) (custom e) (custom e')
  | bang : Conveys bang bang bang
  | group : Conveys group group group

theorem accepts_zeroValue {α : Type} [Scalar α] [LawfulScalar α] :
    Scalar.accepts α (Scalar.zeroValue α) = true :=
  Option.isSome_iff_exists.2 ⟨Scalar.zero, LawfulScalar.ofValue?_eq_some_iff.2 rfl⟩

theorem fits_zero_number {k : NumberKind} (d : NumberDef k) :
    (number k d).Fits (Scalar.zeroValue (Number k)) :=
  ⟨accepts_zeroValue (α := Number k), trivial⟩

/-- A definition accepts what a cleared value is sent as. -/
theorem fits_zero {d : TypeDef} (hd : d.WellFormed) {zero : Value} (h : d.zero? = some zero) :
    d.Fits zero := by
  have hempty (w : Width) : ∀ s, Value.text "" = .text s → w.Fits s := by
    rintro s ⟨⟩
    exact Nat.zero_le _
  cases d with
  | range element f =>
    obtain ⟨k, a, rfl⟩ := eq_number_of_isNumber hd
    obtain rfl := Option.some.inj h
    have hside := (fits_zero_number a).1
    exact ⟨Bool.and_eq_true_iff.2 ⟨hside, hside⟩, trivial⟩
  | custom d =>
    obtain rfl := Option.some.inj h
    exact ⟨beq_of_eq List.length_replicate, trivial⟩
  | string d =>
    obtain rfl := Option.some.inj h
    exact ⟨rfl, hempty .long⟩
  | uri d =>
    obtain rfl := Option.some.inj h
    exact ⟨rfl, hempty .long⟩
  | enum d =>
    obtain rfl := Option.some.inj h
    exact ⟨rfl, hempty .tiny⟩
  | bang => cases h
  | group => cases h
  | _ =>
    obtain rfl := Option.some.inj h
    exact ⟨accepts_zeroValue, trivial⟩

/-- The options of a definition of which nothing is lost are conveyed to one of the same kind. -/
theorem conveys_merge {d e : TypeDef} (hd : d.WellFormed) (h : d.Lossless) (hkind : d.SameKind e) :
    d.Conveys e (e.merge (d.heard false)) := by
  cases d with
  | boolean d =>
    cases e <;> cases hkind.datatype
    exact .boolean (d.conveys_merge _)
  | number k d =>
    obtain ⟨e, rfl⟩ := eq_number hkind.datatype.symm
    rw [heard, merge, dif_pos rfl]
    exact .number (NumberDef.conveys_merge h e)
  | string d =>
    cases e <;> cases hkind.datatype
    exact .string (StringDef.conveys_merge h _)
  | enum d =>
    cases e <;> cases hkind.datatype
    exact .enum (EnumDef.conveys_merge h _)
  | uri d =>
    cases e <;> cases hkind.datatype
    exact .uri (UriDef.conveys_merge h _)
  | rgb d =>
    cases e <;> cases hkind.datatype
    exact .rgb (d.conveys_merge _)
  | rgba d =>
    cases e <;> cases hkind.datatype
    exact .rgba (d.conveys_merge _)
  | ipv4 d =>
    cases e <;> cases hkind.datatype
    exact .ipv4 (d.conveys_merge _)
  | ipv6 d =>
    cases e <;> cases hkind.datatype
    exact .ipv6 (d.conveys_merge _)
  | range element f =>
    obtain ⟨k, a, rfl⟩ := eq_number_of_isNumber hd
    obtain ⟨b, g, rfl⟩ := hkind.exists_range
    -- a default that was cleared is written as zeros of the element, which are read as such
    have hzero := heardValue_of_fits (d := number k a) trivial (fits_zero_number a)
    have helement := NumberDef.conveys_merge h.1 b
    have hdefault := Field.conveys_merge (holds_heardPair h.2) (zeroPair (number k a)) g
    have hsentinel : zeroPair (number k a) =
        (Scalar.zeroValue (Number k), Scalar.zeroValue (Number k)) := rfl
    rw [heard_range, merge, heard, merge, dif_pos rfl]
    refine .range (.number helement) ?_
    simpa only [hsentinel, hzero] using hdefault
  | custom d =>
    obtain ⟨e, rfl, hsize⟩ := hkind.exists_custom
    exact .custom (CustomDef.conveys_merge ⟨hd, h⟩ hsize)
  | bang =>
    cases e <;> cases hkind.datatype
    exact .bang
  | group =>
    cases e <;> cases hkind.datatype
    exact .group

end TypeDef

/-! ## Parameters -/

namespace Parameter

/-- The parameter `q'` is `q` after a delta of `p`, where the definitions are of one kind. The
group of `q`, which only a registry can change, and what does not travel are as they were. -/
structure Conveys (p q q' : Parameter) : Prop where
  definition : p.definition.Conveys q.definition q'.definition
  value : ∀ zero, p.definition.zero? = some zero → p.value.Conveys zero q.value q'.value
  valueless : p.definition.zero? = none → q'.value = q.value
  label : p.label.Conveys q.label q'.label
  description : p.description.Conveys q.description q'.description
  tags : p.tags.Conveys "" q.tags q'.tags
  order : p.order.Conveys 0 q.order q'.order
  userData : p.userData.Conveys [] q.userData q'.userData
  userId : p.userId.Conveys "" q.userId q'.userId
  id : q'.id = q.id
  parent : q'.parent = q.parent
  children : q'.children = q.children
  watched : q'.watched = q.watched
  valueWatched : q'.valueWatched = q.valueWatched

/-- Whatever value is heard is accepted, so that all of it is merged. -/
theorem value_merge {p q : Parameter} (h : ∀ v, p.value.value = some v → q.definition.accepts v) :
    (q.merge p).value = q.value.merge p.value := by
  unfold merge acceptable Field.merge
  cases hv : p.value.value with
  | none => rfl
  | some v => simp only [Option.filter_some, h v hv, if_true]

theorem hasValue_of_zero? {d : TypeDef} {zero : Value} (h : d.zero? = some zero) :
    d.hasValue = true := by
  cases d with
  | bang | group => cases h
  | _ => rfl

theorem hasValue_of_zero?_eq_none {d : TypeDef} (h : d.zero? = none) : d.hasValue = false := by
  cases d with
  | bang | group => rfl
  | _ => cases h

theorem value_heard {p : Parameter} {all : Bool} {zero : Value}
    (h : p.definition.zero? = some zero) :
    (p.heard all).value = (p.value.heard all zero).map p.definition.heardValue := by
  rw [heard, if_pos (hasValue_of_zero? h), h, Option.getD_some]

/-- The value of a delta, or the zero that stands for it, fits the definition. -/
theorem fits_of_value_heard {p : Parameter} (hd : p.definition.WellFormed) (h : p.Lossless)
    {all : Bool} {zero v : Value} (hzero : p.definition.zero? = some zero)
    (hv : (p.heard all).value.value = some v) : p.definition.Fits v := by
  rw [value_heard hzero] at hv
  obtain ⟨u, hu, rfl⟩ := Option.map_eq_some_iff.1 hv
  have hfits : p.definition.Fits u := by
    rcases Field.value_heard_eq_some hu with hu | rfl
    · exact h.value u hu
    · exact TypeDef.fits_zero hd hzero
  rwa [TypeDef.heardValue_of_fits hd hfits]

/-- A delta of a parameter of which nothing is lost conveys what changed. -/
theorem conveys_merge {p q : Parameter} (hd : p.definition.WellFormed) (h : p.Lossless)
    (hkind : p.definition.SameKind q.definition) : p.Conveys q (q.merge (p.heard false)) where
  definition := TypeDef.conveys_merge hd h.definition hkind
  value zero hzero := by
    have hread : p.value.Holds fun v => p.definition.heardValue v = v :=
      fun v hv => TypeDef.heardValue_of_fits hd (h.value v hv)
    have hconveys := Field.conveys_merge hread zero q.value
    rw [TypeDef.heardValue_of_fits hd (TypeDef.fits_zero hd hzero), ← value_heard hzero] at hconveys
    rwa [value_merge fun v hv => ?_]
    rw [hkind.accepts_eq hd]
    exact (fits_of_value_heard hd h hzero hv).1
  valueless hnone := by
    have hheard : (p.heard false).value = {} := by
      rw [heard, hasValue_of_zero?_eq_none hnone]
      rfl
    rw [merge, acceptable, hheard]
    rfl
  label := LocalizedText.conveys_merge h.label _
  description := LocalizedText.conveys_merge h.description _
  tags := Width.conveys_merge h.tags _
  order := Field.conveys_merge_self _ _ _
  userData := Field.conveys_merge (fun bs hbs => List.take_of_length_le (h.userData bs hbs)) [] _
  userId := Width.conveys_merge h.userId _
  id := rfl
  parent := rfl
  children := rfl
  watched := rfl
  valueWatched := rfl

/-- A delta write is read, whatever follows it, and merging what was read into a parameter of the
same kind conveys what changed. Of the group, the delta tells the registry. -/
theorem exists_conveys {p q : Parameter} (hd : p.definition.WellFormed) (h : p.Lossless)
    (hkind : p.definition.SameKind q.definition) (rest : Bytes) :
    ∃ delta, read.run (p.encode false ++ rest) = .ok (delta, rest) ∧
      delta.id = p.id ∧
      delta.parent.value =
        (if p.parent.changed then some (p.parent.value.getD .root) else none) ∧
      p.Conveys q (q.merge delta) :=
  ⟨p.heard false, run_read (h.legible hd) rest, rfl, p.parent.value_heard_false _,
    conveys_merge hd h hkind⟩

/-- The frequency band once its value and its tags were cleared. -/
def bandCleared : Parameter := { band with value := ⟨none, true⟩, tags := ⟨none, true⟩ }

theorem lossless_bandCleared : bandCleared.Lossless :=
  { lossless_band with
    value := by rintro _ ⟨⟩
    tags := by rintro _ ⟨⟩ }

/-- A range with the same identifier, as a peer may have it. -/
def loudRange : Parameter := { id := ⟨5⟩, definition := .rangeOf .float32, tags := .of "loud" }

theorem exists_conveys_bandCleared :
    ∃ delta, read.run (bandCleared.encode false ++ [1, 0]) = .ok (delta, [1, 0]) ∧
      delta.id = bandCleared.id ∧
      delta.parent.value =
        (if bandCleared.parent.changed then some (bandCleared.parent.value.getD .root) else none) ∧
      bandCleared.Conveys loudRange (loudRange.merge delta) :=
  exists_conveys (q := loudRange) (by rfl) lossless_bandCleared ⟨rfl, rfl, rfl⟩ [1, 0]

end Parameter
end ParamSync
