import ParamSync.Proofs.Registry.Eviction

/-!
# What operations do to the tree

Each operation that can change a link is taken apart once: what it asks for, and which of `attach`,
`relink?` and `evict` it comes down to. That it keeps the tree a tree is then a matter of these.

Results:
* `nextId?_eq_some_iff`: which identifier is free for a new parameter.
* `create_ok`, `move_ok`, `remove_ok`, `merge_ok`: the operations taken apart.
* `Forest.perform`: every operation keeps the tree a tree, if a parameter of a peer comes without
  members.
* `Reachable.forest`: so it is along every run.
-/

namespace ParamSync
namespace Registry

variable {r r' : Registry}

/-! ## Free identifiers -/

section Scan

variable {id : ParamId}

theorem slot_eq_zero_iff : id.slot = 0 ↔ id = .root := by
  constructor
  · intro h
    rw [← ParamId.ofSlot_slot id, h]
    rfl
  · rintro rfl
    rfl

theorem isFree_iff : r.isFree id = true ↔ id.slot ∉ r.reserved ∧ id ∉ r.removed := by
  rw [isFree, Bool.and_eq_true, Bool.not_eq_true', Bool.not_eq_true',
    Bool.eq_false_iff (b := r.reserved.contains id.slot),
    Bool.eq_false_iff (b := r.removed.contains id), Ne, Ne, Std.ExtTreeSet.contains_iff_mem,
    Std.ExtTreeSet.contains_iff_mem]

/-- The scan finds the least free slot of the last `n`. -/
theorem firstFree?_eq_some_iff {n : Nat} (hn : n ≤ 65535) :
    r.firstFree? n = some id ↔ (65535 < id.slot.toNat + n ∧ r.isFree id = true) ∧
      ∀ slot : UInt16, 65535 < slot.toNat + n → r.isFree (.ofSlot slot) = true →
        id.slot ≤ slot := by
  induction n with
  | zero =>
    have hlt := id.slot.toNat_lt
    simp only [firstFree?, reduceCtorEq, false_iff, not_and]
    omega
  | succ n ih =>
    have hfirst : (UInt16.ofNat (65535 - n)).toNat = 65535 - n := by
      rw [UInt16.toNat_ofNat']
      omega
    rw [firstFree?]
    split
    · next hfree =>
      have hleast : ∀ slot : UInt16, 65535 < slot.toNat + (n + 1) →
          UInt16.ofNat (65535 - n) ≤ slot := by
        intro slot hslot
        rw [UInt16.le_iff_toNat_le, hfirst]
        omega
      constructor
      · rintro ⟨⟩
        rw [ParamId.slot_ofSlot, hfirst]
        exact ⟨⟨by omega, hfree⟩, fun slot hslot _ => hleast slot hslot⟩
      · rintro ⟨⟨hslot, -⟩, hle⟩
        have heq := UInt16.le_antisymm (hleast id.slot hslot) (hle _ (by omega) hfree)
        rw [heq, ParamId.ofSlot_slot]
    · next htaken =>
      -- what is free is not the slot that was looked at
      have hrest : ∀ slot : UInt16, r.isFree (.ofSlot slot) = true →
          (65535 < slot.toNat + (n + 1) ↔ 65535 < slot.toNat + n) := by
        intro slot hfree
        have hne : slot.toNat ≠ 65535 - n := by
          intro heq
          rw [← heq, UInt16.ofNat_toNat] at htaken
          exact htaken hfree
        omega
      rw [ih (by omega)]
      refine and_congr (and_congr_left fun hfree => ?_) (forall_congr' fun slot => ?_)
      · exact (hrest id.slot (by rwa [ParamId.ofSlot_slot])).symm
      · exact ⟨fun h hslot hfree => h ((hrest slot hfree).1 hslot) hfree,
          fun h hslot hfree => h ((hrest slot hfree).2 hslot) hfree⟩

theorem lt_toNat_add_iff {slot : UInt16} : 65535 < slot.toNat + 65535 ↔ slot ≠ 0 := by
  rw [Ne, ← UInt16.toNat_inj]
  simp
  omega

/-- The scan of all slots but the root's. -/
theorem nextId?_eq_some_iff : r.nextId? = some id ↔ (id ≠ .root ∧ r.isFree id = true) ∧
    ∀ slot ≠ 0, r.isFree (.ofSlot slot) = true → id.slot ≤ slot := by
  simp only [nextId?, firstFree?_eq_some_iff Nat.le.refl, lt_toNat_add_iff, Ne, slot_eq_zero_iff]

end Scan

/-! ## The operations taken apart -/

theorem create_ok {definition : TypeDef} {group : Option ParamId} {id : ParamId}
    (h : r.create definition group = .ok (id, r')) :
    ∃ target, r.resolveGroup group = .ok target ∧ r.nextId? = some id ∧
      r' = { r.attach (Parameter.setGroup { id, definition } target) with
        dirty := (r.attach (Parameter.setGroup { id, definition } target)).dirty.insert id } := by
  unfold create at h
  cases hres : r.resolveGroup group with
  | error e => rw [hres] at h; cases h
  | ok target =>
    rw [hres] at h
    cases hnext : r.nextId? with
    | none => rw [hnext] at h; cases h
    | some next =>
      rw [hnext] at h
      cases h
      exact ⟨target, rfl, rfl, rfl⟩

/-- A group that somebody may be moved into: one that is alive and not below it. -/
def Accepts (r : Registry) (id : ParamId) (target : Option ParamId) : Prop :=
  ∀ g, target = some g →
    g ≠ .root ∧ (∃ q, r.get? g = some q ∧ q.isGroup = true) ∧ r.isWithin g id = false

theorem accepts_of_resolveGroup {id : ParamId} {group target : Option ParamId}
    (h : r.resolveGroup group = .ok target) (hw : ¬ target.any (r.isWithin · id) = true) :
    r.Accepts id target := by
  intro g hg
  obtain ⟨-, hres⟩ := resolveGroup_ok h
  obtain ⟨hroot, halive⟩ := hres g hg
  rw [hg, Option.any_some, Bool.not_eq_true] at hw
  exact ⟨hroot, halive, hw⟩

theorem move_ok {id : ParamId} {group : Option ParamId} (h : r.move id group = .ok r') :
    id ≠ .root ∧ (∃ p, r.get? id = some p) ∧ r.Accepts id (group.filter (!·.isRoot)) ∧
      ((r.relink? id (group.filter (!·.isRoot)) .here = none ∧ r' = r) ∨
        ∃ m, r.relink? id (group.filter (!·.isRoot)) .here = some m ∧ r' = m.setDirty id) := by
  unfold move at h
  by_cases hid : id.isRoot = true
  · rw [if_pos hid] at h; cases h
  rw [if_neg hid] at h
  by_cases hnone : (!r.parameters.contains id) = true
  · rw [if_pos hnone] at h; cases h
  rw [if_neg hnone] at h
  cases hres : r.resolveGroup group with
  | error e => rw [hres] at h; cases h
  | ok target =>
    rw [hres] at h
    obtain ⟨rfl, -⟩ := resolveGroup_ok hres
    by_cases hw : (group.filter (!·.isRoot)).any (r.isWithin · id) = true
    · simp only [bind, Except.bind, pure, Except.pure, if_pos hw] at h
      cases h
    · simp only [bind, Except.bind, pure, Except.pure, if_neg hw] at h
      rw [Bool.not_eq_true', Bool.not_eq_false, contains_eq_isSome,
        Option.isSome_iff_exists] at hnone
      refine ⟨by simpa using hid, hnone, accepts_of_resolveGroup hres hw, ?_⟩
      cases hm : r.relink? id (group.filter (!·.isRoot)) .here with
      | none => rw [hm] at h; cases h; exact .inl ⟨rfl, rfl⟩
      | some m => rw [hm] at h; cases h; exact .inr ⟨m, rfl, rfl⟩

theorem remove_ok {id : ParamId} {found : Bool} (h : r.remove id = .ok (found, r')) :
    id ≠ .root ∧
      ((found = true ∧ (∃ p, r.get? id = some p) ∧
          r' = { (r.evict id).1 with removed := r.removed.insert id }) ∨
        (found = false ∧ r.get? id = none ∧ id ∈ r.removed ∧ r' = r)) := by
  unfold remove at h
  split at h
  · cases h
  · next hid =>
    refine ⟨by simpa using hid, ?_⟩
    split at h
    · next halive =>
      cases h
      rw [contains_eq_isSome, Option.isSome_iff_exists] at halive
      exact .inl ⟨rfl, halive, by rw [removed_evict]⟩
    · next halive =>
      split at h
      · next hremoved =>
        cases h
        rw [contains_eq_isSome, Bool.not_eq_true, Option.isSome_eq_false_iff,
          Option.isNone_iff_eq_none] at halive
        exact .inr ⟨rfl, halive, Std.ExtTreeSet.contains_iff_mem.1 hremoved, rfl⟩
      · cases h

/-- Whoever is there and not the root can be removed. -/
theorem remove_of_alive {id : ParamId} {p : Parameter} (hid : id ≠ .root)
    (hp : r.get? id = some p) :
    r.remove id = .ok (true, { (r.evict id).1 with removed := r.removed.insert id }) := by
  have hroot : ¬ id.isRoot = true := by simpa using hid
  have halive : r.parameters.contains id = true := by rw [contains_eq_isSome, hp]; rfl
  rw [remove, if_neg hroot, if_pos halive, ← r.removed_evict id]

theorem follow?_eq_some {id : ParamId} {reference : Option ParamId} {m : Registry}
    (h : r.follow? id reference = some m) :
    reference ≠ none ∧ r.Accepts id (reference.filter (!·.isRoot)) ∧
      r.relink? id (reference.filter (!·.isRoot)) .peer = some m := by
  unfold follow? at h
  split at h
  · cases h
  · next group =>
    split at h
    · cases h
    · next target hres =>
      split at h
      · cases h
      · next hw =>
        obtain ⟨rfl, -⟩ := resolveGroup_ok hres
        exact ⟨by simp, accepts_of_resolveGroup hres hw, h⟩

/-- A known parameter after a merge, before it goes to the group that the other names. -/
def overlay (r : Registry) (p incoming : Parameter) : Registry :=
  { r with parameters := r.parameters.insert incoming.id (p.merge incoming) }

theorem sameLinks_overlay {p incoming : Parameter} (hp : r.get? incoming.id = some p) :
    SameLinks r (r.overlay p incoming) :=
  sameLinks_of_insert rfl hp (p.links_merge incoming)

/-- Who is not known is registered. -/
theorem merge_of_unknown {incoming : Parameter} (hid : incoming.id ≠ .root)
    (hnew : r.get? incoming.id = none) :
    r.merge incoming = .ok (.added, r.attach incoming, []) := by
  have hroot : ¬ incoming.id.isRoot = true := by simpa using hid
  rw [merge, if_neg hroot, hnew]

theorem merge_ok {incoming : Parameter} {outcome : Merge} {notices : List Notice}
    (h : r.merge incoming = .ok (outcome, r', notices)) :
    incoming.id ≠ .root ∧
      ((r.get? incoming.id = none ∧ r' = r.attach incoming) ∨
        ∃ p, r.get? incoming.id = some p ∧ p.datatype = incoming.datatype ∧
          r' = ((r.overlay p incoming).follow? incoming.id incoming.parent.value).getD
            (r.overlay p incoming)) := by
  unfold merge at h
  split at h
  · cases h
  · next hid =>
    refine ⟨by simpa using hid, ?_⟩
    split at h
    · next hp => cases h; exact .inl ⟨hp, rfl⟩
    · next p hp =>
      split at h
      · cases h
      · next hd =>
        refine .inr ⟨p, hp, by simpa using hd, ?_⟩
        dsimp only at h
        split at h
        · cases h; rfl
        · next hsame =>
          cases h
          have hfollow :
              (r.overlay p incoming).follow? incoming.id incoming.parent.value = none := by
            rw [Bool.or_eq_true, not_or, Bool.not_eq_true, Bool.not_eq_true,
              Option.isSome_eq_false_iff, Option.isNone_iff_eq_none] at hsame
            exact hsame.2
          rw [hfollow]
          rfl

/-! ## The tree stays a tree -/

namespace Forest

/-- The root alone is a tree. -/
theorem of_parameters_eq {p : Parameter} (hp : r.parameters = (∅ : IdMap Parameter).insert .root p)
    (hl : p.links = (.root, .root, ∅)) : Forest r := by
  have hid : p.id = .root := congrArg (·.1) hl
  have hhome : p.home = .root := congrArg (·.2.1) hl
  have hchildren : p.children = ∅ := congrArg (·.2.2) hl
  have hget := get?_of_root hp
  have hroot : ∀ {x q}, r.get? x = some q → x = .root ∧ q = p := by
    intro x q hq
    rw [hget] at hq
    split at hq
    · next h => cases hq; exact ⟨h, rfl⟩
    · cases hq
  constructor
  · intro id q hq
    obtain ⟨rfl, rfl⟩ := hroot hq
    exact hid
  · rw [home?, hget, if_pos rfl, Option.map_some, hhome]
  · intro g c
    constructor
    · rintro ⟨q, hq, hc⟩
      obtain ⟨rfl, rfl⟩ := hroot hq
      rw [hchildren] at hc
      simp at hc
    · rintro ⟨hc, hg⟩
      obtain ⟨q, hq, -⟩ := home?_eq_some_iff.1 hg
      exact absurd (hroot hq).1 hc
  · intro id g hg
    obtain ⟨q, hq, -⟩ := home?_eq_some_iff.1 hg
    rw [(hroot hq).1]
    exact ⟨[], .root⟩

theorem new : Forest .new := of_parameters_eq rfl rfl

theorem root_eq (h : Forest r) : r.get? .root = some r.root ∧ r.root.id = .root ∧
    r.root.home = .root := by
  obtain ⟨p, hp, hhome⟩ := home?_eq_some_iff.1 h.root
  have hroot : r.root = p := by
    rw [Registry.root, Std.ExtTreeMap.getD_eq_getD_getElem?]
    rw [get?] at hp
    rw [hp, Option.getD_some]
  rw [hroot]
  exact ⟨hp, h.keyed hp, hhome⟩

theorem clear (h : Forest r) : Forest r.clear := by
  obtain ⟨-, hid, hhome⟩ := h.root_eq
  refine of_parameters_eq rfl ?_
  show (r.root.id, r.root.home, (∅ : IdSet)) = _
  rw [hid, hhome]

/-- A move to a group that accepts the parameter. -/
theorem relink_of_accepts (h : Forest r) {id : ParamId} (hid : id ≠ .root) {group : Option ParamId}
    {origin : Origin} {m : Registry} (ha : r.Accepts id (group.filter (!·.isRoot)))
    (hm : r.relink? id (group.filter (!·.isRoot)) origin = some m) : Forest m := by
  have htarget : Parameter.target (group.filter (!·.isRoot)) =
      (group.filter (!·.isRoot)).getD .root := Parameter.target_filter group
  cases hg : group.filter (!·.isRoot) with
  | none =>
    rw [hg] at hm
    exact h.relink hid hm rfl rfl ⟨_, h.root⟩ not_above_root
  | some g =>
    obtain ⟨hroot, ⟨q, hq, -⟩, hw⟩ := ha g hg
    rw [hg] at hm htarget
    refine h.relink hid hm rfl htarget ⟨_, home?_of_get? hq⟩ ?_
    rw [Option.getD_some, ← h.isWithin_iff hid (home?_of_get? hq), hw]
    simp

theorem create (h : Forest r) {definition : TypeDef} {group : Option ParamId} {id : ParamId}
    (hc : r.create definition group = .ok (id, r')) : Forest r' := by
  obtain ⟨target, -, -, rfl⟩ := create_ok hc
  refine (h.attach ?_).of_sameLinks (sameLinks_of_parameters_eq rfl)
  exact congrArg (·.2.2) (Parameter.links_setGroup { id, definition } target)

theorem move (h : Forest r) {id : ParamId} {group : Option ParamId}
    (hm : r.move id group = .ok r') : Forest r' := by
  obtain ⟨hid, -, ha, ⟨-, rfl⟩ | ⟨m, hm', rfl⟩⟩ := move_ok hm
  · exact h
  · exact (h.relink_of_accepts hid ha hm').of_sameLinks (m.sameLinks_setDirty id)

theorem remove (h : Forest r) {id : ParamId} {found : Bool} (hr : r.remove id = .ok (found, r')) :
    Forest r' := by
  obtain ⟨hid, ⟨-, -, rfl⟩ | ⟨-, -, -, rfl⟩⟩ := remove_ok hr
  · exact (h.evict hid).of_sameLinks (sameLinks_of_parameters_eq rfl)
  · exact h

theorem removeDirect (h : Forest r) (id : ParamId) : Forest (r.removeDirect id).1 := by
  unfold Registry.removeDirect
  split
  · exact h
  · next hid => exact h.evict (by simpa using hid)

theorem merge (h : Forest r) {incoming : Parameter} (hc : incoming.children = ∅)
    {outcome : Merge} {notices : List Notice}
    (hm : r.merge incoming = .ok (outcome, r', notices)) : Forest r' := by
  obtain ⟨hid, ⟨-, rfl⟩ | ⟨p, hp, -, rfl⟩⟩ := merge_ok hm
  · exact h.attach hc
  · have hover := h.of_sameLinks (sameLinks_overlay hp)
    cases hf : (r.overlay p incoming).follow? incoming.id incoming.parent.value with
    | none => exact hover
    | some m =>
      obtain ⟨-, ha, hm'⟩ := follow?_eq_some hf
      exact hover.relink_of_accepts hid ha hm'

/-- Every operation keeps the tree a tree. -/
theorem perform (h : Forest r) (op : Op) (hop : op.Childless) : Forest (r.perform op) := by
  cases op with
  | create definition group => exact of_orSame h fun _ hok => h.create hok
  | createGroup group => exact of_orSame h fun _ hok => h.create hok
  | edit id accesses =>
    exact of_orSame h fun _ hok =>
      h.of_sameLinks (sameLinks_edit hok (Parameter.links_accessAll · _))
  | setDirty id => exact h.of_sameLinks (r.sameLinks_setDirty id)
  | move id group => exact of_orSame h fun _ hok => h.move hok
  | remove id => exact of_orSame h fun _ hok => h.remove hok
  | removeDirect id => exact h.removeDirect id
  | merge incoming => exact of_orSame h fun _ hok => h.merge hop hok
  | applyValue u => exact of_orSame h fun _ hok => h.of_sameLinks (sameLinks_applyValue hok)
  | encodeDirty => exact h.of_sameLinks r.sameLinks_encodeDirty
  | encodeRemoved => exact h.of_sameLinks (sameLinks_of_parameters_eq rfl)
  | encodeAll => rwa [perform_encodeAll]
  | clear => exact h.clear

end Forest

/-- Along every run in which parameters of peers come without members, the tree is a tree. -/
theorem Reachable.forest {allowed : Registry → Op → Prop} (h : Reachable allowed r)
    (hc : ∀ r op, allowed r op → op.Childless) : Forest r :=
  h.invariant .new fun _ _ hforest hop => hforest.perform _ (hc _ _ hop)

end Registry
end ParamSync
