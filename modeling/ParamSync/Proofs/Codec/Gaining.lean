import ParamSync.Proofs.Codec.Delta

/-!
# What a merge gains

What a peer sends is taken over by `merge`, and `gains` tells beforehand whether that changes
anything. The two are written side by side for every schema, and both compare as the program does,
for which a NaN is always news. Of what holds no NaN the report is true: nothing is gained exactly
if the merge changes nothing, and who has merged gains nothing from the same once more.

Results:
* `Value.alike_self_iff`: what is like itself holds no NaN.
* `Field.truthful`, `LocalizedText.truthful`, `TypeDef.truthful`: so the report is true of fields,
  of texts and of definitions.
* `TypeDef.accepts_merge`: a merge does not change what values a definition accepts.
* `Parameter.truthful`: so the report is true of parameters.
-/

namespace ParamSync

/-- Of the merges of `e` it is true that nothing is gained exactly if nothing changes, and nothing
is gained by what has `e` already. -/
structure Truthful {α : Type} (merge : α → α → α) (gains : α → α → Bool) (e : α) : Prop where
  eq_self_iff : ∀ d, merge d e = d ↔ gains d e = false
  again : ∀ d, gains (merge d e) e = false
  self : gains e e = false

/-! ## What is like itself -/

theorem LawfulAlike.alike_self {α : Type} [Alike α] [LawfulAlike α] (a : α) : alike a a = true :=
  (LawfulAlike.alike_iff_eq a a).2 rfl

theorem Number.alike_self_iff {k : NumberKind} (n : Number k) :
    alike n n = true ↔ n.isNaN = false := by
  cases hk : k.reading with
  | binary F => simp only [alike, Number.equal, Number.isNaN, hk, F.equal_self_iff]
  | signed => simp [alike, Number.equal, Number.isNaN, hk]
  | unsigned => simp [alike, Number.equal, Number.isNaN, hk]

/-- No number in the value is a NaN. -/
def Value.NoNaN : Value → Prop
  | number _ n => n.isNaN = false
  | range lower upper => lower.NoNaN ∧ upper.NoNaN
  | _ => True

theorem Value.alike_self_iff (v : Value) : alike v v = true ↔ v.NoNaN := by
  have halike : ∀ w : Value, alike w w = equal w w := fun _ => rfl
  induction v with
  | number k n =>
    rw [halike, equal_number, Number.alike_self_iff]
    rfl
  | range lower upper ihl ihu => exact Bool.and_eq_true_iff.trans (and_congr ihl ihu)
  | _ => simp [halike, equal, NoNaN]

/-! ## Fields -/

namespace Field

variable {α : Type} [Alike α]

theorem truthful {g : Field α} (h : g.Holds fun a => alike a a = true) :
    Truthful merge gains g := by
  cases hg : g.value with
  | none =>
    have hmerge : ∀ f : Field α, f.merge g = f := fun f => by rw [merge, hg]
    have hgains : ∀ f : Field α, f.gains g = false := fun f => by rw [gains, hg]
    exact ⟨fun f => iff_of_true (hmerge f) (hgains f), fun f => hgains _, hgains g⟩
  | some a =>
    have hself : ∀ f : Field α, f.value = some a → f.differs a = false := fun f hf => by
      have halike : alike (some a) (some a) = true := h a hg
      rw [differs, hf, halike]
      rfl
    have happly : ∀ f : Field α, f.apply a = f ↔ f.differs a = false := fun f => by
      unfold apply
      split
      · next hd =>
        -- what differs is not there
        refine iff_of_false (fun heq => ?_) (by simp [hd])
        rw [hself f (congrArg Field.value heq).symm] at hd
        cases hd
      · next hd => exact iff_of_true rfl (Bool.eq_false_iff.2 hd)
    have hagain : ∀ f : Field α, (f.apply a).differs a = false := fun f => by
      cases hd : f.differs a with
      | true => exact hself _ (by rw [apply, if_pos hd])
      | false => rwa [(happly f).2 hd]
    have hmerge : ∀ f : Field α, f.merge g = f.apply a := fun f => by rw [merge, hg]
    have hgains : ∀ f : Field α, f.gains g = f.differs a := fun f => by rw [gains, hg]
    refine ⟨fun f => ?_, fun f => ?_, ?_⟩
    · rw [hmerge, hgains, happly]
    · rw [hmerge, hgains, hagain]
    · rw [hgains, hself g hg]

theorem truthful_of_lawful [LawfulAlike α] (g : Field α) : Truthful merge gains g :=
  truthful fun a _ => LawfulAlike.alike_self a

end Field

/-! ## Texts in several languages -/

/-- A search through a map is one through its entries. -/
theorem any_eq_any_toList (m : Std.ExtTreeMap String String) (p : String → String → Bool) :
    m.any p = m.toList.any fun entry => p entry.1 entry.2 := by
  have hloop : m.any p = Id.run (do
      for entry in m do
        if p entry.1 entry.2 then return true
      return false) := by
    obtain ⟨inner⟩ := m
    induction inner using Std.ExtDTreeMap.inductionOn with
    | mk t => rfl
  rw [hloop, Std.ExtTreeMap.forIn_eq_forIn_toList]
  induction m.toList with
  | nil => rfl
  | cons entry entries ih =>
    rw [List.any_cons]
    cases h : p entry.1 entry.2 with
    | true => simp [h]
    | false => simpa [h] using ih

namespace LocalizedText

/-- Nothing is gained if all that the other has is there. -/
theorem gains_eq_false_iff {t u : LocalizedText} :
    t.gains u = false ↔
      (∀ s, u.text = some s → t.text = some s) ∧
        ∀ code s, u.language? code = some s → t.language? code = some s := by
  rw [gains, Bool.or_eq_false_iff, any_eq_any_toList, List.any_eq_false]
  refine and_congr ?_ ⟨fun h code s hs => ?_, fun h entry hentry => ?_⟩
  · cases u.text with
    | none => simp
    | some s =>
      simp only [Option.isSome_some, Bool.true_and, bne_eq_false_iff_eq, Option.some.injEq,
        forall_eq']
      exact eq_comm
  · have hmem := h (code, s) (Std.ExtTreeMap.mem_toList_iff_getElem?_eq_some.2 hs)
    simpa using hmem
  · have hs := h entry.1 entry.2 (Std.ExtTreeMap.mem_toList_iff_getElem?_eq_some.1 hentry)
    simpa using hs

theorem truthful (u : LocalizedText) : Truthful merge gains u where
  eq_self_iff t := by
    rw [gains_eq_false_iff]
    constructor
    · intro heq
      refine ⟨fun s hs => ?_, fun code s hs => ?_⟩
      · rw [← heq, merge, hs]
        rfl
      · rw [← heq, language?_merge, hs]
        rfl
    · rintro ⟨htext, hlanguage⟩
      have htext' : (t.merge u).text = t.text := by
        show u.text.or t.text = t.text
        cases hs : u.text with
        | none => rfl
        | some s => exact (htext s hs).symm
      have hlanguages : (t.merge u).languages = t.languages := by
        refine Std.ExtTreeMap.ext_getElem? fun code => ?_
        have hcode := language?_merge t u code
        cases hs : u.language? code with
        | none => rwa [hs, Option.none_or] at hcode
        | some s =>
          rw [hs, Option.some_or, ← hlanguage code s hs] at hcode
          exact hcode
      show LocalizedText.mk (t.merge u).text (t.merge u).languages t.changed = t
      rw [htext', hlanguages]
  again t := by
    refine gains_eq_false_iff.2 ⟨fun s hs => ?_, fun code s hs => ?_⟩
    · show u.text.or t.text = some s
      rw [hs]
      rfl
    · rw [language?_merge, hs]
      rfl
  self := gains_eq_false_iff.2 ⟨fun _ hs => hs, fun _ _ hs => hs⟩

end LocalizedText

/-! ## Schemas -/

theorem PlainDef.truthful {α : Type} [Scalar α] [LawfulAlike α] (e : PlainDef α) :
    Truthful merge gains e :=
  have h := e.default.truthful_of_lawful
  { eq_self_iff := fun d => by
      obtain ⟨default⟩ := d
      simp only [merge, gains, mk.injEq, h.eq_self_iff]
    again := fun d => h.again d.default
    self := h.self }

/-- No bound or default of the schema is a NaN. -/
structure NumberDef.NoNaN {k : NumberKind} (d : NumberDef k) : Prop where
  default : d.default.Holds fun n => n.isNaN = false
  minimum : d.minimum.Holds fun n => n.isNaN = false
  maximum : d.maximum.Holds fun n => n.isNaN = false
  multipleOf : d.multipleOf.Holds fun n => n.isNaN = false

theorem NumberDef.truthful {k : NumberKind} {e : NumberDef k} (h : e.NoNaN) :
    Truthful merge gains e := by
  have hdefault := Field.truthful fun n hn => (Number.alike_self_iff n).2 (h.default n hn)
  have hminimum := Field.truthful fun n hn => (Number.alike_self_iff n).2 (h.minimum n hn)
  have hmaximum := Field.truthful fun n hn => (Number.alike_self_iff n).2 (h.maximum n hn)
  have hmultipleOf := Field.truthful fun n hn => (Number.alike_self_iff n).2 (h.multipleOf n hn)
  have hscale := e.scale.truthful_of_lawful
  have hunit := e.unit.truthful_of_lawful
  refine ⟨fun d => ?_, fun d => ?_, ?_⟩
  · obtain ⟨default, minimum, maximum, multipleOf, scale, unit⟩ := d
    simp only [merge, gains, mk.injEq, hdefault.eq_self_iff, hminimum.eq_self_iff,
      hmaximum.eq_self_iff, hmultipleOf.eq_self_iff, hscale.eq_self_iff, hunit.eq_self_iff,
      Bool.or_eq_false_iff, and_assoc]
  · simp [merge, gains, hdefault.again, hminimum.again, hmaximum.again, hmultipleOf.again,
      hscale.again, hunit.again]
  · simp [gains, hdefault.self, hminimum.self, hmaximum.self, hmultipleOf.self, hscale.self,
      hunit.self]

theorem StringDef.truthful (e : StringDef) : Truthful merge gains e := by
  have hdefault := e.default.truthful_of_lawful
  have hregex := e.regex.truthful_of_lawful
  refine ⟨fun d => ?_, fun d => ?_, ?_⟩
  · obtain ⟨default, regex⟩ := d
    simp only [merge, gains, mk.injEq, hdefault.eq_self_iff, hregex.eq_self_iff,
      Bool.or_eq_false_iff]
  · simp [merge, gains, hdefault.again, hregex.again]
  · simp [gains, hdefault.self, hregex.self]

theorem EnumDef.truthful (e : EnumDef) : Truthful merge gains e := by
  have hdefault := e.default.truthful_of_lawful
  have hentries := e.entries.truthful_of_lawful
  have hmultiselect := e.multiselect.truthful_of_lawful
  refine ⟨fun d => ?_, fun d => ?_, ?_⟩
  · obtain ⟨default, entries, multiselect⟩ := d
    simp only [merge, gains, mk.injEq, hdefault.eq_self_iff, hentries.eq_self_iff,
      hmultiselect.eq_self_iff, Bool.or_eq_false_iff, and_assoc]
  · simp [merge, gains, hdefault.again, hentries.again, hmultiselect.again]
  · simp [gains, hdefault.self, hentries.self, hmultiselect.self]

theorem UriDef.truthful (e : UriDef) : Truthful merge gains e := by
  have hdefault := e.default.truthful_of_lawful
  have hfilter := e.filter.truthful_of_lawful
  have hschemas := e.schemas.truthful_of_lawful
  refine ⟨fun d => ?_, fun d => ?_, ?_⟩
  · obtain ⟨default, filter, schemas⟩ := d
    simp only [merge, gains, mk.injEq, hdefault.eq_self_iff, hfilter.eq_self_iff,
      hschemas.eq_self_iff, Bool.or_eq_false_iff, and_assoc]
  · simp [merge, gains, hdefault.again, hfilter.again, hschemas.again]
  · simp [gains, hdefault.self, hfilter.self, hschemas.self]

theorem CustomDef.truthful (e : CustomDef) : Truthful merge gains e := by
  have hdefault := e.default.truthful_of_lawful
  have huuid := e.uuid.truthful_of_lawful
  have hconfig := e.config.truthful_of_lawful
  refine ⟨fun d => ?_, fun d => ?_, ?_⟩
  · obtain ⟨size, default, uuid, config⟩ := d
    by_cases hsize : e.size = size
    · simp [merge, gains, hsize, hdefault.eq_self_iff, huuid.eq_self_iff, hconfig.eq_self_iff,
        and_assoc]
    · simp [merge, gains, hsize]
  · by_cases hsize : e.size = d.size
    · simp [merge, gains, hsize, hdefault.again, huuid.again, hconfig.again]
    · simp [merge, gains, hsize]
  · simp [gains, hdefault.self, huuid.self, hconfig.self]

namespace TypeDef

/-- No number in the options is a NaN. -/
def NoNaN : TypeDef → Prop
  | number _ d => d.NoNaN
  | range element default => element.NoNaN ∧ default.Holds fun pair => pair.1.NoNaN ∧ pair.2.NoNaN
  | _ => True

theorem merge_number {k : NumberKind} (d e : NumberDef k) :
    (number k d).merge (number k e) = number k (d.merge e) := dif_pos rfl

theorem gains_number {k : NumberKind} (d e : NumberDef k) :
    (number k d).gains (number k e) = d.gains e := dif_pos rfl

theorem merge_number_of_ne {k l : NumberKind} (h : l ≠ k) (d : NumberDef k) (e : NumberDef l) :
    (number k d).merge (number l e) = number k d := dif_neg h

theorem gains_number_of_ne {k l : NumberKind} (h : l ≠ k) (d : NumberDef k) (e : NumberDef l) :
    (number k d).gains (number l e) = false := dif_neg h

/-- Definitions of another datatype have nothing to tell. -/
theorem merge_of_datatype_ne {d e : TypeDef} (h : d.datatype ≠ e.datatype) :
    d.merge e = d ∧ d.gains e = false := by
  cases d with
  | number k d =>
    cases e with
    | number l e =>
      have hne : l ≠ k := fun heq => h (congrArg Datatype.number heq.symm)
      exact ⟨merge_number_of_ne hne d e, gains_number_of_ne hne d e⟩
    | _ => exact ⟨rfl, rfl⟩
  | _ => cases e <;> first | exact ⟨rfl, rfl⟩ | exact absurd rfl h

/-- Where the definitions of a datatype are made from schemas and merged as these are, the report
is true of them if it is of the schemas. -/
theorem truthful_of_schema {σ : Type} (make : σ → TypeDef) {merge' : σ → σ → σ}
    {gains' : σ → σ → Bool} {e : σ} (h : Truthful merge' gains' e)
    (hinj : ∀ {d d'}, make d = make d' → d = d')
    (hmerge : ∀ d, (make d).merge (make e) = make (merge' d e))
    (hgains : ∀ d, (make d).gains (make e) = gains' d e)
    (hmake : ∀ d : TypeDef, d.datatype = (make e).datatype → ∃ d', d = make d') :
    Truthful merge gains (make e) where
  eq_self_iff d := by
    by_cases hd : d.datatype = (make e).datatype
    · obtain ⟨d', rfl⟩ := hmake d hd
      rw [hmerge, hgains, ← h.eq_self_iff]
      exact ⟨hinj, congrArg make⟩
    · exact iff_of_true (merge_of_datatype_ne hd).1 (merge_of_datatype_ne hd).2
  again d := by
    by_cases hd : d.datatype = (make e).datatype
    · obtain ⟨d', rfl⟩ := hmake d hd
      rw [hmerge, hgains, h.again]
    · rw [(merge_of_datatype_ne hd).1, (merge_of_datatype_ne hd).2]
  self := by rw [hgains, h.self]

theorem truthful {e : TypeDef} (h : e.NoNaN) : Truthful merge gains e := by
  induction e with
  | number k e =>
    refine truthful_of_schema (number k) (NumberDef.truthful h) (fun heq => ?_)
      (fun d => merge_number d e) (fun d => gains_number d e) fun d hd => eq_number hd
    cases heq
    rfl
  | boolean e =>
    refine truthful_of_schema boolean e.truthful boolean.inj (fun _ => rfl) (fun _ => rfl) ?_
    intro d hd
    cases d <;> first | exact ⟨_, rfl⟩ | cases hd
  | string e =>
    refine truthful_of_schema string e.truthful string.inj (fun _ => rfl) (fun _ => rfl) ?_
    intro d hd
    cases d <;> first | exact ⟨_, rfl⟩ | cases hd
  | enum e =>
    refine truthful_of_schema enum e.truthful enum.inj (fun _ => rfl) (fun _ => rfl) ?_
    intro d hd
    cases d <;> first | exact ⟨_, rfl⟩ | cases hd
  | uri e =>
    refine truthful_of_schema uri e.truthful uri.inj (fun _ => rfl) (fun _ => rfl) ?_
    intro d hd
    cases d <;> first | exact ⟨_, rfl⟩ | cases hd
  | rgb e =>
    refine truthful_of_schema rgb e.truthful rgb.inj (fun _ => rfl) (fun _ => rfl) ?_
    intro d hd
    cases d <;> first | exact ⟨_, rfl⟩ | cases hd
  | rgba e =>
    refine truthful_of_schema rgba e.truthful rgba.inj (fun _ => rfl) (fun _ => rfl) ?_
    intro d hd
    cases d <;> first | exact ⟨_, rfl⟩ | cases hd
  | ipv4 e =>
    refine truthful_of_schema ipv4 e.truthful ipv4.inj (fun _ => rfl) (fun _ => rfl) ?_
    intro d hd
    cases d <;> first | exact ⟨_, rfl⟩ | cases hd
  | ipv6 e =>
    refine truthful_of_schema ipv6 e.truthful ipv6.inj (fun _ => rfl) (fun _ => rfl) ?_
    intro d hd
    cases d <;> first | exact ⟨_, rfl⟩ | cases hd
  | custom e =>
    refine truthful_of_schema custom e.truthful custom.inj (fun _ => rfl) (fun _ => rfl) ?_
    intro d hd
    cases d <;> first | exact ⟨_, rfl⟩ | cases hd
  | range b g ih =>
    have hb := ih h.1
    have hg := Field.truthful (g := g) fun pair hpair => Bool.and_eq_true_iff.2
      ⟨(Value.alike_self_iff _).2 (h.2 pair hpair).1, (Value.alike_self_iff _).2 (h.2 pair hpair).2⟩
    refine ⟨fun d => ?_, fun d => ?_, ?_⟩
    · cases d with
      | range a f =>
        simp only [merge, gains, range.injEq, hb.eq_self_iff, hg.eq_self_iff, Bool.or_eq_false_iff]
      | _ => exact iff_of_true rfl rfl
    · cases d with
      | range a f => simp [merge, gains, hb.again, hg.again]
      | _ => rfl
    · simp [gains, hb.self, hg.self]
  | bang =>
    exact ⟨fun d => iff_of_true (by cases d <;> rfl) (by cases d <;> rfl),
      fun d => by cases d <;> rfl, rfl⟩
  | group =>
    exact ⟨fun d => iff_of_true (by cases d <;> rfl) (by cases d <;> rfl),
      fun d => by cases d <;> rfl, rfl⟩

/-- A merge does not change what values a definition accepts. -/
theorem accepts_merge (d e : TypeDef) : (d.merge e).accepts = d.accepts := by
  induction d generalizing e with
  | range a f ih =>
    cases e with
    | range b g =>
      funext v
      cases v with
      | range lower upper => simp only [merge, accepts, ih b]
      | _ => rfl
    | _ => rfl
  | number k d =>
    cases e with
    | number l e =>
      by_cases h : l = k
      · subst h
        rw [merge_number]
        rfl
      · rw [merge_number_of_ne h]
    | _ => rfl
  | custom d =>
    cases e with
    | custom e =>
      funext v
      by_cases h : e.size = d.size <;> simp [merge, accepts, CustomDef.accepts, CustomDef.merge, h]
    | _ => rfl
  | _ => cases e <;> rfl

end TypeDef

/-! ## Parameters -/

namespace Parameter

/-- No number that travels with the parameter is a NaN. -/
structure NoNaN (p : Parameter) : Prop where
  definition : p.definition.NoNaN
  value : p.value.Holds Value.NoNaN

/-- What the definition accepts of the other's value, as a field. -/
def accepted (p other : Parameter) : Field Value := ⟨p.acceptable other, false⟩

theorem value_merge_eq (p other : Parameter) :
    (p.merge other).value = p.value.merge (p.accepted other) := by
  unfold merge accepted Field.merge
  cases p.acceptable other <;> rfl

theorem gainsValue_eq (p other : Parameter) :
    p.gainsValue other = p.value.gains (p.accepted other) := by
  unfold gainsValue accepted Field.gains
  cases p.acceptable other <;> rfl

/-- The definition that was merged into accepts the same of it. -/
theorem accepted_merge (p other : Parameter) :
    (p.merge other).accepted other = p.accepted other := by
  have haccepts : (p.merge other).definition.accepts = p.definition.accepts :=
    TypeDef.accepts_merge _ _
  rw [accepted, accepted, acceptable, acceptable, haccepts]

theorem NoNaN.accepted {other : Parameter} (h : other.NoNaN) (p : Parameter) :
    Truthful Field.merge Field.gains (p.accepted other) := by
  refine Field.truthful fun v hv => (Value.alike_self_iff v).2 (h.value v ?_)
  exact (Option.filter_eq_some_iff.1 hv).1

/-- The report of a merge is true if no number in the other parameter is a NaN. -/
theorem truthful {other : Parameter} (h : other.NoNaN) : Truthful merge gains other := by
  have hdefinition := TypeDef.truthful h.definition
  have hlabel := other.label.truthful
  have hdescription := other.description.truthful
  have htags := other.tags.truthful_of_lawful
  have horder := other.order.truthful_of_lawful
  have huserData := other.userData.truthful_of_lawful
  have huserId := other.userId.truthful_of_lawful
  refine ⟨fun p => ?_, fun p => ?_, ?_⟩
  · have hvalue := (h.accepted p).eq_self_iff p.value
    rw [← value_merge_eq, ← gainsValue_eq] at hvalue
    simp only [gains, Bool.or_eq_false_iff, ← hvalue, ← hdefinition.eq_self_iff,
      ← hlabel.eq_self_iff, ← hdescription.eq_self_iff, ← htags.eq_self_iff, ← horder.eq_self_iff,
      ← huserData.eq_self_iff, ← huserId.eq_self_iff]
    constructor
    · intro heq
      exact ⟨⟨⟨⟨⟨⟨⟨congrArg (·.value) heq, congrArg (·.definition) heq⟩, congrArg (·.label) heq⟩,
        congrArg (·.description) heq⟩, congrArg (·.tags) heq⟩, congrArg (·.order) heq⟩,
        congrArg (·.userData) heq⟩, congrArg (·.userId) heq⟩
    · rintro ⟨⟨⟨⟨⟨⟨⟨hv, hd⟩, hl⟩, hde⟩, ht⟩, ho⟩, hud⟩, hui⟩
      show { p with
        value := (p.merge other).value
        definition := p.definition.merge other.definition
        label := p.label.merge other.label
        description := p.description.merge other.description
        tags := p.tags.merge other.tags
        order := p.order.merge other.order
        userData := p.userData.merge other.userData
        userId := p.userId.merge other.userId } = p
      rw [hv, hd, hl, hde, ht, ho, hud, hui]
  · have hvalue : (p.merge other).gainsValue other = false := by
      rw [gainsValue_eq, accepted_merge, value_merge_eq]
      exact (h.accepted p).again p.value
    rw [gains, hvalue]
    simp [merge, hdefinition.again, hlabel.again, hdescription.again, htags.again, horder.again,
      huserData.again, huserId.again]
  · have hvalue : other.gainsValue other = false := by
      have hself := (Field.truthful fun v hv => (Value.alike_self_iff v).2 (h.value v hv)).self
      unfold Field.gains at hself
      unfold gainsValue acceptable
      cases hv : other.value.value with
      | none => rfl
      | some v =>
        rw [hv] at hself
        rw [Option.filter_some]
        split
        · exact hself
        · rfl
    simp [gains, hvalue, hdefinition.self, hlabel.self, hdescription.self, htags.self, horder.self,
      huserData.self, huserId.self]

end Parameter
end ParamSync
