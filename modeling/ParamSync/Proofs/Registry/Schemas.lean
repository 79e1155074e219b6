import ParamSync.Proofs.Codec.Incoming
import ParamSync.Proofs.Codec.Kinds
import ParamSync.Proofs.Registry.Likeness
import ParamSync.Proofs.Registry.Orderly

/-!
# Defaults that fit their schema

A definition stays of its kind, whatever is set, sent or merged, and so it goes on accepting the
values that it has accepted. The default of a range is a pair of values of the element as long as it
is set by its own setter or read together with the element. A merge is another matter: it takes the
default of the peer's range without a look at the elements, and where these are of different
datatypes (`Clashes`) the default that comes is no pair of values of the element that is there.

Results:
* `TypeDef.sameKind_edit`, `TypeDef.sameKind_merge`, `TypeDef.sameKind_sent`: the kind stays.
* `TypeDef.Sound.defaultFits_merge_iff`: a merge leaves a default that fits exactly if the two
  definitions do not clash.
* `TypeDef.Made.sound`: a definition that was made by its own operations is well formed, and its
  default fits.
-/

namespace ParamSync

/-! ## What fields hold -/

namespace Field.Holds

variable {α : Type} [Alike α] {f g : Field α} {P : α → Prop}

theorem set (h : f.Holds P) {a : α} (ha : P a) : (f.set a).Holds P := by
  unfold Field.set
  split
  · rintro _ ⟨⟩
    exact ha
  · exact h

theorem merge (h : f.Holds P) (hg : g.Holds P) : (f.merge g).Holds P := by
  unfold Field.merge
  split
  · next a ha => exact h.apply (hg a ha)
  · exact h

end Field.Holds

/-! ## Kinds -/

namespace TypeDef

variable {d d' e : TypeDef}

theorem sameKind_number {k : NumberKind} (d e : NumberDef k) :
    (number k d).SameKind (number k e) := ⟨rfl, rfl, rfl⟩

theorem sameKind_of_isNumber (h : d.datatype.isNumber = true) (hd : d'.datatype = d.datatype) :
    d.SameKind d' := by
  obtain ⟨k, e, rfl⟩ := eq_number_of_isNumber h
  obtain ⟨e', rfl⟩ := eq_number hd
  exact sameKind_number e e'

/-- Only custom types and ranges have more of a kind than their datatype. -/
theorem sameKind_of_ne (hcustom : d.datatype ≠ .custom) (hrange : d.datatype ≠ .range)
    (h : d.datatype = d'.datatype) : d.SameKind d' := by
  have hsize : ∀ {e : TypeDef}, e.datatype ≠ .custom → e.size? = none := by
    intro e he
    cases e with
    | custom e => exact absurd rfl he
    | _ => rfl
  have helement : ∀ {e : TypeDef}, e.datatype ≠ .range → e.elementDatatype? = none := by
    intro e he
    cases e with
    | range element default => exact absurd rfl he
    | _ => rfl
  exact ⟨h, (hsize hcustom).trans (hsize (h ▸ hcustom)).symm,
    (helement hrange).trans (helement (h ▸ hrange)).symm⟩

theorem sameKind_edit {change : Edit} {report : Report} (h : d.edit change = .ok (d', report))
    (hkeep : ∀ e, change ≠ .replaceElement e) : d.SameKind d' := by
  have hdatatype := (datatype_edit h).symm
  cases d with
  | custom d =>
    cases change with
    | custom c =>
      cases h
      cases c <;> exact ⟨rfl, rfl, rfl⟩
    | _ => cases h
  | range element default =>
    cases change with
    | rangeDefault c =>
      simp only [edit] at h
      split at h <;> cases h
      exact ⟨rfl, rfl, rfl⟩
    | element c =>
      simp only [edit] at h
      split at h
      · next element' report' heq =>
        cases h
        exact ⟨rfl, rfl, congrArg some (datatype_edit heq).symm⟩
      · cases h
    | replaceElement e => exact absurd rfl (hkeep e)
    | _ => cases h
  | _ => exact sameKind_of_ne (by simp [datatype]) (by simp [datatype]) hdatatype

theorem sameKind_merge (d e : TypeDef) : d.SameKind (d.merge e) := by
  have hdatatype := (datatype_merge d e).symm
  cases d with
  | custom d =>
    cases e with
    | custom e =>
      refine ⟨rfl, ?_, rfl⟩
      show some d.size = some (d.merge e).size
      rw [CustomDef.merge]
      split <;> rfl
    | _ => exact ⟨rfl, rfl, rfl⟩
  | range a f =>
    cases e with
    | range b g => exact ⟨rfl, rfl, congrArg some (datatype_merge a b).symm⟩
    | _ => exact ⟨rfl, rfl, rfl⟩
  | _ => exact sameKind_of_ne (by simp [datatype]) (by simp [datatype]) hdatatype

theorem sameKind_sent (d : TypeDef) : d.SameKind d.sent := by
  cases d with
  | range element default => exact ⟨rfl, rfl, congrArg some element.datatype_sent.symm⟩
  | _ => exact ⟨rfl, rfl, rfl⟩

/-! ## Pairs of values -/

/-- Elements of one kind of number accept the same pairs. -/
theorem acceptsPair_eq {element element' : TypeDef} (h : element.SameKind element')
    (hd : element.WellFormed) : acceptsPair element' = acceptsPair element := by
  funext pair
  rw [acceptsPair, acceptsPair, h.accepts_eq hd]

theorem wellFormed_of_isNumber (h : d.datatype.isNumber = true) : d.WellFormed := by
  obtain ⟨k, e, rfl⟩ := eq_number_of_isNumber h
  trivial

/-- A number accepts what is like something that it accepts, and nothing else is like it. -/
theorem accepts_of_alike {k : NumberKind} {d : NumberDef k} {v w : Value}
    (hv : (number k d).accepts v = true) (h : alike v w = true) :
    (number k d).accepts w = true := by
  obtain ⟨n, hn⟩ := Option.isSome_iff_exists.1 hv
  obtain rfl := Value.toNumber?_eq_some_iff.1 hn
  cases w with
  | number l m =>
    have hk : k = l := by
      by_contra hk
      have hfalse : Value.equal (.number k n) (.number l m) = false := dif_neg hk
      exact Bool.false_ne_true (hfalse.symm.trans h)
    subst hk
    exact Option.isSome_iff_exists.2 ⟨m, Value.toNumber?_number k m⟩
  | _ => cases h

/-- A value is one of a single kind of number. -/
theorem kind_eq_of_accepts {k l : NumberKind} {d : NumberDef k} {e : NumberDef l} {v : Value}
    (hd : (number k d).accepts v = true) (he : (number l e).accepts v = true) : k = l := by
  obtain ⟨n, hn⟩ := Option.isSome_iff_exists.1 hd
  obtain ⟨m, hm⟩ := Option.isSome_iff_exists.1 he
  have heq := (Value.toNumber?_eq_some_iff.1 hn).symm.trans (Value.toNumber?_eq_some_iff.1 hm)
  cases heq
  rfl

/-! ## Defaults -/

/-- The peer's range has a default, and elements of another datatype. -/
def Clashes : TypeDef → TypeDef → Prop
  | range a _, range b g => g.isPresent = true ∧ b.datatype ≠ a.datatype
  | _, _ => False

theorem Clashes.ranges (h : d.Clashes e) : d.datatype = .range ∧ e.datatype = .range := by
  unfold Clashes at h
  split at h
  · exact ⟨rfl, rfl⟩
  · exact h.elim

namespace Sound

theorem edit (h : d.Sound) {change : Edit} {report : Report}
    (he : d.edit change = .ok (d', report)) (hkeep : ∀ e, change ≠ .replaceElement e) :
    d'.Sound := by
  refine ⟨h.wellFormed.edit he hkeep, ?_⟩
  by_cases hrange : d.datatype = .range
  · cases d with
    | range element default =>
      have helement := wellFormed_of_isNumber h.wellFormed
      have hdefault : default.Holds fun pair => acceptsPair element pair = true := h.defaultFits
      cases change with
      | rangeDefault c =>
        simp only [TypeDef.edit] at he
        split at he
        · next hc =>
          cases he
          cases c with
          | none => rintro _ ⟨⟩
          | some pair =>
            exact Field.Holds.set hdefault hc
        · cases he
      | element c =>
        simp only [TypeDef.edit] at he
        split at he
        · next element' report' heq =>
          cases he
          have hkind := sameKind_of_isNumber h.wellFormed (datatype_edit heq)
          show default.Holds fun pair => acceptsPair element' pair = true
          rw [acceptsPair_eq hkind helement]
          exact hdefault
        · cases he
      | replaceElement e => exact absurd rfl (hkeep e)
      | _ => cases he
    | _ => cases hrange
  · exact defaultFits_of_ne (datatype_edit he ▸ hrange)

theorem sent (h : d.Sound) : d.sent.Sound := by
  refine ⟨h.wellFormed.sent, ?_⟩
  cases d with
  | range element default =>
    have helement := wellFormed_of_isNumber h.wellFormed
    show default.sent.Holds fun pair => acceptsPair element.sent pair = true
    rw [acceptsPair_eq (sameKind_sent element) helement]
    exact h.defaultFits
  | _ => trivial

theorem defaultFits_merge_range_iff {a b : TypeDef} {f g : Field (Value × Value)}
    (hd : (range a f).Sound) (he : (range b g).Sound) :
    ((range a f).merge (range b g)).DefaultFits ↔ ¬ (range a f).Clashes (range b g) := by
  obtain ⟨k, a, rfl⟩ := eq_number_of_isNumber hd.wellFormed
  obtain ⟨l, b, rfl⟩ := eq_number_of_isNumber he.wellFormed
  have hf : f.Holds fun pair => acceptsPair (number k a) pair = true := hd.defaultFits
  have hg : g.Holds fun pair => acceptsPair (number l b) pair = true := he.defaultFits
  have helement := acceptsPair_eq (sameKind_merge (number k a) (number l b)) trivial
  have hmerge : ((range (number k a) f).merge (range (number l b) g)).DefaultFits ↔
      (f.merge g).Holds fun pair => acceptsPair (number k a) pair = true := by
    rw [TypeDef.merge, DefaultFits, helement]
  rw [hmerge]
  constructor
  · rintro hfits ⟨hpresent, hne⟩
    obtain ⟨pair, hpair⟩ := Option.isSome_iff_exists.1 hpresent
    obtain ⟨hlower, -⟩ := Bool.and_eq_true_iff.1 (hg pair hpair)
    rw [Field.merge, hpair] at hfits
    -- what is stored now is the peer's pair, or a pair like it
    have haccepts : (number k a).accepts pair.1 = true := by
      rcases f.same_apply pair with hsame | hlike
      · exact (Bool.and_eq_true_iff.1 (hfits pair hsame)).1
      · cases hold : (f.apply pair).value with
        | none => rw [hold] at hlike; cases hlike
        | some old =>
          rw [hold] at hlike
          exact accepts_of_alike (Bool.and_eq_true_iff.1 (hfits old hold)).1
            (Bool.and_eq_true_iff.1 hlike).1
    have hkind := kind_eq_of_accepts haccepts hlower
    exact hne (congrArg Datatype.number hkind.symm)
  · intro hclash
    by_cases hkind : l = k
    · subst hkind
      exact hf.merge (acceptsPair_eq (sameKind_number b a) trivial ▸ hg)
    · have hnone : g.value = none := by
        by_contra hsome
        refine hclash ⟨Option.isSome_iff_ne_none.2 hsome, fun heq => hkind ?_⟩
        exact Datatype.number.inj heq
      rw [Field.merge, hnone]
      exact hf

/-- A merge leaves a default that fits exactly if the definitions do not clash. -/
theorem defaultFits_merge_iff (hd : d.Sound) (he : e.Sound) :
    (d.merge e).DefaultFits ↔ ¬ d.Clashes e := by
  by_cases hrange : d.datatype = .range
  · cases d with
    | range a f =>
      cases e with
      | range b g => exact defaultFits_merge_range_iff hd he
      | _ => exact iff_of_true hd.defaultFits fun hclash => False.elim hclash
    | _ => cases hrange
  · have hfits := defaultFits_of_ne ((datatype_merge d e).symm ▸ hrange)
    exact iff_of_true hfits fun hclash => hrange hclash.ranges.1

theorem merge (hd : d.Sound) (he : e.Sound) (h : ¬ d.Clashes e) : (d.merge e).Sound :=
  ⟨hd.wellFormed.merge he.wellFormed, (hd.defaultFits_merge_iff he).2 h⟩

end Sound

/-! ## How definitions are made -/

/-- The definition was made by its own operations: it is new, or was read, or was changed by a
setter, by a delta write or by what a peer said of one that it does not clash with. -/
inductive Made : TypeDef → Prop
  | ofDatatype {datatype : Datatype} {d : TypeDef} (h : ofDatatype? datatype = some d) : Made d
  | ofSize (size : UInt32) : Made (ofSize size)
  | range {element d : TypeDef} (helement : Made element) (h : range? element = .ok d) : Made d
  | read {bs rest : Bytes} {d : TypeDef} (h : read.run bs = .ok (d, rest)) : Made d
  | edit {d d' : TypeDef} {change : Edit} {report : Report} (hd : Made d)
      (h : d.edit change = .ok (d', report)) (hkeep : ∀ e, change ≠ .replaceElement e) : Made d'
  | sent {d : TypeDef} (hd : Made d) : Made d.sent
  | merge {d e : TypeDef} (hd : Made d) (he : Made e) (h : ¬ d.Clashes e) : Made (d.merge e)

/-- Whatever is made so is well formed, and its default fits. -/
theorem Made.sound (h : Made d) : d.Sound := by
  induction h with
  | ofDatatype h => exact sound_of_ofDatatype? h
  | ofSize size => exact sound_ofSize size
  | range _ h ih =>
    unfold range? at h
    split at h
    · next hnumber =>
      cases h
      exact sound_range hnumber
    · cases h
  | read h => exact gives_read_sound h
  | edit _ h hkeep ih => exact ih.edit h hkeep
  | sent _ ih => exact ih.sent
  | merge _ _ h ihd ihe => exact ihd.merge ihe h

end TypeDef
end ParamSync
