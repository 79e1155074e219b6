import Mathlib.Order.WellFounded
import ParamSync.Proofs.Registry.Moving

/-!
# Who gets which identifier

A new parameter gets the least slot that nobody has. The scan for it reads two sets of the registry:
the slots that are taken, and the identifiers whose removal is to be told. The first is kept beside
the parameters, so it has to agree with them (`Ledger`) for a scan to tell who is there.

Results:
* `Ledger.vacant_iff`: what the scan takes for free is free.
* `exists_nextId?_iff`: it finds something if there is anything.
* `Ledger.create_iff`: when a parameter cannot be created, and why.
* `Ledger.creates_of_create`: what is created, and that nothing else changes.
* `Reachable.create_exact`: all this of every registry that a run makes.
-/

namespace ParamSync

namespace Parameter

/-- A parameter as it is created. It names its group, which is to be told, unless that is the
root. -/
def created (id : ParamId) (definition : TypeDef) (group : Option ParamId) : Parameter where
  id
  definition
  parent := ⟨group.filter (!·.isRoot), (group.filter (!·.isRoot)).isSome⟩

theorem setGroup_blank (id : ParamId) (definition : TypeDef) (group : Option ParamId) :
    Parameter.setGroup { id, definition } (group.filter (!·.isRoot)) =
      created id definition group := by
  rw [setGroup, created, Option.filter_filter]
  cases hg : group.filter (!·.isRoot) with
  | none => simp [hg, Field.isPresent]
  | some g =>
    simp [hg]
    rfl

theorem group?_created (id : ParamId) (definition : TypeDef) (group : Option ParamId) :
    (created id definition group).group? = group.filter (!·.isRoot) :=
  group?_of_parent rfl

theorem home_created (id : ParamId) (definition : TypeDef) (group : Option ParamId) :
    (created id definition group).home = target group := by
  rw [home, group?_created, target]

end Parameter

namespace Registry

variable {r m : Registry} {id g : ParamId} {definition : TypeDef} {group : Option ParamId}

/-! ## Vacant slots -/

/-- A slot that can be given away: it is not the root's, nobody who is there has it, and nobody
whose removal is to be told. -/
def Vacant (r : Registry) (slot : UInt16) : Prop :=
  slot ≠ 0 ∧ (∀ x, r.contains x = true → x.slot ≠ slot) ∧ ∀ x ∈ r.removed, x.slot ≠ slot

theorem forall_slot_ne_iff {P : ParamId → Prop} {slot : UInt16} :
    (∀ x, P x → x.slot ≠ slot) ↔ ¬ P (.ofSlot slot) := by
  constructor
  · exact fun h hslot => h _ hslot (ParamId.slot_ofSlot slot)
  · rintro h x hx rfl
    rw [ParamId.ofSlot_slot] at h
    exact h hx

/-- What the scan takes for free is free. -/
theorem Ledger.vacant_iff (h : Ledger r) {slot : UInt16} :
    r.Vacant slot ↔ slot ≠ 0 ∧ r.isFree (.ofSlot slot) = true := by
  rw [Vacant, isFree_iff, h.reserved]
  exact and_congr_right fun _ => and_congr forall_slot_ne_iff forall_slot_ne_iff

/-- The scan fails only if everything is taken. -/
theorem exists_nextId?_iff : (∃ id, r.nextId? = some id) ↔
    ∃ slot, slot ≠ 0 ∧ r.isFree (.ofSlot slot) = true := by
  constructor
  · rintro ⟨id, hid⟩
    obtain ⟨⟨hroot, hfree⟩, -⟩ := nextId?_eq_some_iff.1 hid
    exact ⟨id.slot, mt slot_eq_zero_iff.1 hroot, by rwa [ParamId.ofSlot_slot]⟩
  · intro hex
    obtain ⟨least, ⟨hne, hfree⟩, hmin⟩ := (measure UInt16.toNat).wf.has_min
      {slot | slot ≠ 0 ∧ r.isFree (.ofSlot slot) = true} hex
    refine ⟨.ofSlot least, nextId?_eq_some_iff.2 ⟨⟨?_, hfree⟩, fun slot hslot hslotFree => ?_⟩⟩
    · rwa [Ne, ← slot_eq_zero_iff, ParamId.slot_ofSlot]
    · rw [ParamId.slot_ofSlot, UInt16.le_iff_toNat_le]
      exact Nat.le_of_not_lt (hmin slot ⟨hslot, hslotFree⟩)

/-! ## Refusals -/

/-- A place for a new parameter: none and the root, or a living group. -/
def Receives (r : Registry) : Option ParamId → Prop
  | none => True
  | some g => g = .root ∨ r.isGroup g = true

/-- Why nothing is created: the group is not there, or it is not a group, or there is no slot
left. -/
inductive Denies (r : Registry) : Option ParamId → RegistryError → Prop
  | noTarget {g : ParamId} (hroot : g ≠ .root) (hdead : r.get? g = none) :
      Denies r (some g) (.notFound g)
  | notAGroup {g : ParamId} {q : Parameter} (hroot : g ≠ .root) (hq : r.get? g = some q)
      (hgroup : q.isGroup = false) : Denies r (some g) (.notAGroup g)
  | exhausted {group : Option ParamId} (hgroup : r.Receives group)
      (hfull : ∀ slot, ¬ r.Vacant slot) : Denies r group .idSpaceExhausted

/-- Nothing is created for one of the reasons, or there are a place and a slot. -/
theorem denied_or_received (r : Registry) (group : Option ParamId) :
    (∃ e, r.Denies group e) ∨ (r.Receives group ∧ ∃ slot, r.Vacant slot) := by
  by_cases hgroup : r.Receives group
  · by_cases hslot : ∃ slot, r.Vacant slot
    · exact .inr ⟨hgroup, hslot⟩
    · exact .inl ⟨_, .exhausted hgroup (not_exists.1 hslot)⟩
  · cases group with
    | none => exact absurd trivial hgroup
    | some g =>
      obtain ⟨hroot, hnot⟩ := not_or.1 hgroup
      cases hq : r.get? g with
      | none => exact .inl ⟨_, .noTarget hroot hq⟩
      | some q =>
        refine .inl ⟨_, .notAGroup hroot hq ?_⟩
        rw [← Bool.not_eq_true]
        exact fun hqg => hnot (isGroup_eq_true_iff.2 ⟨q, hq, hqg⟩)

theorem resolveGroup_of_receives (hgroup : r.Receives group) :
    r.resolveGroup group = .ok (group.filter (!·.isRoot)) := by
  cases group with
  | none => rfl
  | some g =>
    by_cases hroot : g = .root
    · rw [hroot]
      rfl
    · obtain ⟨q, hq, hqg⟩ := isGroup_eq_true_iff.1 (hgroup.resolve_left hroot)
      rw [resolveGroup_of_alive hroot hq, if_pos hqg, filter_isRoot, if_neg hroot]

namespace Ledger

theorem create_of_denies (h : Ledger r) {e : RegistryError} (he : r.Denies group e) :
    r.create definition group = .error e := by
  cases he with
  | noTarget hroot hdead =>
    rw [Registry.create, resolveGroup_of_dead hroot hdead]
    rfl
  | notAGroup hroot hq hgroup =>
    rw [Registry.create, resolveGroup_of_alive hroot hq, hgroup]
    rfl
  | exhausted hgroup hfull =>
    have hnone : r.nextId? = none := by
      rw [Option.eq_none_iff_forall_ne_some]
      intro id hid
      obtain ⟨slot, hslot⟩ := exists_nextId?_iff.1 ⟨id, hid⟩
      exact hfull slot (h.vacant_iff.2 hslot)
    rw [Registry.create, resolveGroup_of_receives hgroup, hnone]
    rfl

/-- A parameter is created exactly if there are a place and a slot for it, and otherwise it is
refused, for the reason that there is. -/
theorem create_iff (h : Ledger r) :
    ((∃ made, r.create definition group = .ok made) ↔ r.Receives group ∧ ∃ slot, r.Vacant slot) ∧
      ∀ e, r.create definition group = .error e ↔ r.Denies group e := by
  refine outcome_iff (r.denied_or_received group) (fun _ => h.create_of_denies) ?_
  rintro ⟨hgroup, slot, hslot⟩
  obtain ⟨id, hid⟩ := exists_nextId?_iff.2 ⟨slot, h.vacant_iff.1 hslot⟩
  rw [Registry.create, resolveGroup_of_receives hgroup, hid]
  exact ⟨_, rfl⟩

end Ledger

/-! ## What is created -/

/-- There is a new parameter in the group, which is to be told. The members of the group are all
that changed of the other parameters. -/
structure Creates (r : Registry) (definition : TypeDef) (group : Option ParamId) (id : ParamId)
    (m : Registry) : Prop where
  get? : ∀ x, m.get? x =
    if x = id then some (Parameter.created id definition group)
    else if x = Parameter.target group then (r.get? x).map (·.insertChild id)
    else r.get? x
  reserved : m.reserved = r.reserved.insert id.slot
  dirty : m.dirty = r.dirty.insert id
  removed : m.removed = r.removed

/-- A created parameter is entered as it is, its group being there. -/
theorem entered_created {target : Option ParamId} (h : r.resolveGroup group = .ok target) :
    r.entered (Parameter.created id definition group) = Parameter.created id definition group := by
  obtain ⟨rfl, halive⟩ := resolveGroup_ok h
  rw [entered, Parameter.group?_created]
  cases hg : group.filter (!·.isRoot) with
  | none => simp [Parameter.created, Parameter.applyGroup, Field.isPresent, hg]
  | some g =>
    obtain ⟨-, q, hq, hqg⟩ := halive g hg
    simp [isGroup_eq_true_iff.2 ⟨q, hq, hqg⟩]

theorem Ledger.creates_of_create (h : Ledger r) (hc : r.create definition group = .ok (id, m)) :
    Creates r definition group id m := by
  obtain ⟨target, hres, hnext, rfl⟩ := create_ok hc
  obtain ⟨hroot, hnew, -⟩ := h.fresh_nextId? hnext
  have hentered : r.entered (Parameter.created id definition group) = _ := entered_created hres
  obtain ⟨rfl, -⟩ := resolveGroup_ok hres
  rw [Parameter.setGroup_blank]
  constructor
  · intro x
    show (r.attach (Parameter.created id definition group)).get? x = _
    rw [get?_attach (p := Parameter.created id definition group) hroot hnew, hentered,
      Parameter.home_created]
    rfl
  · exact reserved_attach (p := Parameter.created id definition group) hroot hnew
  · show (r.attach (Parameter.created id definition group)).dirty.insert id = _
    rw [dirty_attach]
  · exact removed_attach r _

/-- The identifier is the one with the least vacant slot. -/
theorem Ledger.least_of_create (h : Ledger r) (hc : r.create definition group = .ok (id, m)) :
    r.Vacant id.slot ∧ ∀ slot, r.Vacant slot → id.slot ≤ slot := by
  obtain ⟨target, -, hnext, -⟩ := create_ok hc
  obtain ⟨⟨hroot, hfree⟩, hleast⟩ := nextId?_eq_some_iff.1 hnext
  refine ⟨h.vacant_iff.2 ⟨mt slot_eq_zero_iff.1 hroot, ?_⟩, fun slot hslot => ?_⟩
  · rwa [ParamId.ofSlot_slot]
  · obtain ⟨hne, hslotFree⟩ := h.vacant_iff.1 hslot
    exact hleast slot hne hslotFree

/-- A parameter is created exactly if its group is there and a slot is vacant; otherwise nothing
changes, and the error says why. It gets the least slot that is vacant, so it was not there and its
removal is not to be told; it is among the members of the group and is to be told, and nothing else
changes. -/
theorem Reachable.create_exact (hr : Reachable (fun _ op => op.Childless) r) (definition : TypeDef)
    (group : Option ParamId) :
    ((∃ made, r.create definition group = .ok made) ↔
      r.Receives group ∧ ∃ slot, r.Vacant slot) ∧
    (∀ e, r.create definition group = .error e ↔ r.Denies group e) ∧
    (∀ e, r.create definition group = .error e → r.perform (.create definition group) = r) ∧
    ∀ id m, r.create definition group = .ok (id, m) →
      r.perform (.create definition group) = m ∧
      (r.Vacant id.slot ∧ ∀ slot, r.Vacant slot → id.slot ≤ slot) ∧
      (id ≠ .root ∧ r.get? id = none ∧ id ∉ r.removed) ∧
      Creates r definition group id m ∧ m.Lists (Parameter.target group) id := by
  have hl : Ledger r := hr.ledger fun _ _ hop => hop
  have hf : Forest r := hr.forest fun _ _ hop => hop
  refine ⟨hl.create_iff.1, hl.create_iff.2, fun e he => ?_, fun id m hm => ?_⟩
  · rw [perform, he]
    rfl
  · have hperform : r.perform (.create definition group) = m := by
      rw [perform, hm]
      rfl
    have hcreates : Creates r definition group id m := hl.creates_of_create hm
    obtain ⟨_, -, hnext, -⟩ := create_ok hm
    obtain ⟨hroot, hnew, hremoved⟩ := hl.fresh_nextId? hnext
    refine ⟨hperform, hl.least_of_create hm, ⟨hroot, hnew, hremoved⟩, hcreates, ?_⟩
    have hforest : Forest m := hperform ▸ hf.perform (.create definition group) trivial
    refine hforest.lists_iff.2 ⟨hroot, ?_⟩
    rw [home?, hcreates.get?, if_pos rfl, Option.map_some, Parameter.home_created]

/-- A flag and a group that a peer made under the first and the third identifier, and a group with a
negative one. -/
def gapRun : List Op :=
  [.merge { id := ⟨1⟩, definition := .boolean {} }, .merge { id := ⟨3⟩, definition := .group },
    .merge { id := ⟨-3⟩, definition := .group }]

/-- A flag in the group gets the second, and there is no place for it in the other flag. -/
theorem create_exact_gap :
    (∃ m, (new.performAll gapRun).create (.boolean {}) (some ⟨-3⟩) = .ok (⟨2⟩, m) ∧
      (∀ slot, (new.performAll gapRun).Vacant slot → 2 ≤ slot) ∧
      Creates (new.performAll gapRun) (.boolean {}) (some ⟨-3⟩) ⟨2⟩ m) ∧
    (new.performAll gapRun).Denies (some ⟨1⟩) (.notAGroup ⟨1⟩) := by
  have hr : Reachable (fun _ op => op.Childless) (new.performAll gapRun) :=
    Reachable.performAll .new (by simp [gapRun, Op.Childless])
  obtain ⟨-, -, -, hok⟩ := hr.create_exact (.boolean {}) (some ⟨-3⟩)
  obtain ⟨-, ⟨-, hleast⟩, -, hcreates, -⟩ := hok ⟨2⟩ _ rfl
  obtain ⟨-, herror, -, -⟩ := hr.create_exact (.boolean {}) (some ⟨1⟩)
  exact ⟨⟨_, rfl, hleast, hcreates⟩, (herror _).1 rfl⟩

end Registry
end ParamSync
