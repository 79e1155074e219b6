import ParamSync.Proofs.Registry.Forest

/-!
# Taking a subtree out

`evictFrom` takes parameters out by a stack onto which the members of each go. What it takes out
is closed under members (`members_gone`) and holds nobody that members do not lead to
(`evictFrom_induction`), on any links at all. On a tree that is the subtree, no more and no less.

Results:
* `Forest.get?_evict_of_above`, `Forest.get?_evict_of_not_above`: the subtree is gone, its top is no
  longer listed, and all else is as it was.
* `Forest.mem_dirty_evict`, `Forest.mem_reserved_evict`: so it is for the unsent changes and the
  slots.
* `Forest.evict`: the rest is still a tree.
-/

namespace ParamSync
namespace Registry

variable {r r' : Registry}

/-! ## The loop -/

/-- Nothing is entered by the loop. -/
theorem getElem?_of_evictFrom (ps : IdMap Parameter) (evicted : List Parameter)
    (stack : List ParamId) {x : ParamId} {p : Parameter}
    (h : (evictFrom ps evicted stack).1[x]? = some p) : ps[x]? = some p := by
  fun_induction evictFrom ps evicted stack with
  | case1 => exact h
  | case2 ps evicted id stack hid ih => exact ih h
  | case3 ps evicted id stack q hid ih =>
    have := ih h
    rw [IdMap.getElem?_erase_eq] at this
    split at this
    · cases this
    · exact this

theorem getElem?_evictFrom_eq_none (ps : IdMap Parameter) (evicted : List Parameter)
    (stack : List ParamId) {x : ParamId} (h : ps[x]? = none) :
    (evictFrom ps evicted stack).1[x]? = none := by
  rw [Option.eq_none_iff_forall_not_mem]
  intro p hp
  rw [getElem?_of_evictFrom ps evicted stack hp] at h
  cases h

/-- The stack is worked off. -/
theorem stack_gone (ps : IdMap Parameter) (evicted : List Parameter) (stack : List ParamId)
    {x : ParamId} (hx : x ∈ stack) : (evictFrom ps evicted stack).1[x]? = none := by
  fun_induction evictFrom ps evicted stack with
  | case1 => simp at hx
  | case2 ps evicted id stack hid ih =>
    rcases List.mem_cons.1 hx with rfl | hx
    · exact getElem?_evictFrom_eq_none _ _ _ hid
    · exact ih hx
  | case3 ps evicted id stack q hid ih =>
    rcases List.mem_cons.1 hx with rfl | hx
    · exact getElem?_evictFrom_eq_none _ _ _ (by rw [IdMap.getElem?_erase_eq, if_pos rfl])
    · exact ih (List.mem_append_right _ hx)

/-- The members of what is taken out are taken out. -/
theorem members_gone (ps : IdMap Parameter) (evicted : List Parameter) (stack : List ParamId)
    {x c : ParamId} {p : Parameter} (hp : ps[x]? = some p)
    (hx : (evictFrom ps evicted stack).1[x]? = none) (hc : c ∈ p.children) :
    (evictFrom ps evicted stack).1[c]? = none := by
  fun_induction evictFrom ps evicted stack with
  | case1 => rw [hp] at hx; cases hx
  | case2 ps evicted id stack hid ih => exact ih hp hx
  | case3 ps evicted id stack q hid ih =>
    by_cases hxid : x = id
    · subst hxid
      rw [hid] at hp
      cases hp
      refine stack_gone _ _ _ (List.mem_append_left _ ?_)
      rw [List.mem_reverse, Parameter.childList, Std.ExtTreeSet.mem_toList]
      exact hc
    · refine ih ?_ hx
      rw [IdMap.getElem?_erase_eq, if_neg hxid]
      exact hp

/-- What is taken out has every property that the stack has and that passes to members. -/
theorem evictFrom_induction (ps : IdMap Parameter) (evicted : List Parameter)
    (stack : List ParamId) {Q : ParamId → Prop} (hstack : ∀ x ∈ stack, Q x)
    (hmembers : ∀ {x : ParamId} {p : Parameter}, ps[x]? = some p → Q x → ∀ c ∈ p.children, Q c)
    {x : ParamId} {p : Parameter} (hp : ps[x]? = some p) (hx : (evictFrom ps evicted stack).1[x]? = none) :
    Q x := by
  fun_induction evictFrom ps evicted stack with
  | case1 => rw [hp] at hx; cases hx
  | case2 ps evicted id stack hid ih =>
    exact ih (fun y hy => hstack y (List.mem_cons_of_mem _ hy)) hmembers hp hx
  | case3 ps evicted id stack q hid ih =>
    by_cases hxid : x = id
    · exact hxid ▸ hstack id List.mem_cons_self
    · have herase : ∀ {y : ParamId} {p' : Parameter},
          (ps.erase id)[y]? = some p' → ps[y]? = some p' := by
        intro y p' hy
        rw [IdMap.getElem?_erase_eq] at hy
        split at hy
        · cases hy
        · exact hy
      refine ih (fun y hy => ?_) (fun hy => hmembers (herase hy)) ?_ hx
      · rcases List.mem_append.1 hy with hy | hy
        · rw [List.mem_reverse, Parameter.childList, Std.ExtTreeSet.mem_toList] at hy
          exact hmembers hid (hstack id List.mem_cons_self) y hy
        · exact hstack y (List.mem_cons_of_mem _ hy)
      · rw [IdMap.getElem?_erase_eq, if_neg hxid]
        exact hp

/-- What is handed out is what was taken out, without its watchers. -/
theorem mem_evicted_iff (ps : IdMap Parameter) (evicted : List Parameter) (stack : List ParamId)
    {q : Parameter} :
    q ∈ (evictFrom ps evicted stack).2 ↔ q ∈ evicted ∨
      ∃ (x : ParamId) (p : Parameter), ps[x]? = some p ∧ (evictFrom ps evicted stack).1[x]? = none ∧
        q = p.unwatched := by
  fun_induction evictFrom ps evicted stack with
  | case1 =>
    constructor
    · exact .inl
    · rintro (h | ⟨x, p, hp, hx, -⟩)
      · exact h
      · rw [hp] at hx; cases hx
  | case2 ps evicted id stack hid ih => exact ih
  | case3 ps evicted id stack p₀ hid ih =>
    have hgone : (ps.erase id)[id]? = none := by rw [IdMap.getElem?_erase_eq, if_pos rfl]
    rw [ih, List.mem_cons]
    constructor
    · rintro ((rfl | h) | ⟨x, p, hp, hx, rfl⟩)
      · exact .inr ⟨id, p₀, hid, getElem?_evictFrom_eq_none _ _ _ hgone, rfl⟩
      · exact .inl h
      · rw [IdMap.getElem?_erase_eq] at hp
        split at hp
        · cases hp
        · exact .inr ⟨x, p, hp, hx, rfl⟩
    · rintro (h | ⟨x, p, hp, hx, rfl⟩)
      · exact .inl (.inr h)
      · by_cases hxid : x = id
        · subst hxid
          rw [hid] at hp
          cases hp
          exact .inl (.inl rfl)
        · refine .inr ⟨x, p, ?_, hx, rfl⟩
          rw [IdMap.getElem?_erase_eq, if_neg hxid]
          exact hp

theorem mem_foldl_erase {α : Type} [Ord α] [Std.TransOrd α] [Std.LawfulEqOrd α]
    (key : Parameter → α) (qs : List Parameter) (s : Std.ExtTreeSet α) {a : α} :
    a ∈ qs.foldl (fun s q => s.erase (key q)) s ↔ a ∈ s ∧ ∀ q ∈ qs, key q ≠ a := by
  induction qs generalizing s with
  | nil => simp
  | cons q qs ih =>
    rw [List.foldl_cons, ih, Std.ExtTreeSet.mem_erase, Ne, Std.compare_eq_iff_eq]
    simp only [List.forall_mem_cons]
    constructor
    · rintro ⟨⟨hq, ha⟩, hqs⟩
      exact ⟨ha, hq, hqs⟩
    · rintro ⟨ha, hq, hqs⟩
      exact ⟨⟨hq, ha⟩, hqs⟩

/-! ## On a tree -/

theorem evict_of_dead {id : ParamId} (h : r.get? id = none) : r.evict id = (r, []) := by
  unfold evict
  split
  · rfl
  · next hp => rw [h] at hp; cases hp

/-- The parameters while the top of a subtree is taken off its group. -/
def unlinked (r : Registry) (id : ParamId) (p : Parameter) : Registry :=
  r.modify p.home (·.eraseChild id)

theorem get?_unlinked (r : Registry) (id : ParamId) (p : Parameter) (x : ParamId) :
    (r.unlinked id p).get? x = if x = p.home then (r.get? x).map (·.eraseChild id) else r.get? x :=
  r.get?_modify _ _ x

/-- What an eviction does to a living parameter. -/
theorem evict_of_alive {id : ParamId} {p : Parameter} (hp : r.get? id = some p) :
    (r.evict id).1 = { r with
      parameters := (evictFrom (r.unlinked id p).parameters [] [id]).1
      reserved := (evictFrom (r.unlinked id p).parameters [] [id]).2.foldl
        (fun slots q => slots.erase q.id.slot) r.reserved
      dirty := (evictFrom (r.unlinked id p).parameters [] [id]).2.foldl
        (fun ids q => ids.erase q.id) r.dirty } := by
  unfold evict
  split
  · next h => rw [h] at hp; cases hp
  · next q h =>
    rw [h] at hp
    cases hp
    rfl

@[simp] theorem removed_evict (r : Registry) (id : ParamId) :
    (r.evict id).1.removed = r.removed := by
  cases hp : r.get? id with
  | none => rw [evict_of_dead hp]
  | some p => rw [evict_of_alive hp]

namespace Forest

variable {id : ParamId} {p : Parameter}

/-- A member is below what its group is below. -/
theorem above_of_lists (h : Forest r) {a g c : ParamId} (hl : r.Lists g c) (ha : Above r a g) :
    Above r a c := by
  obtain ⟨hc, hg⟩ := h.lists_iff.1 hl
  obtain ⟨l, hl, hmem⟩ := ha
  exact ⟨_, .member hc hg hl, List.mem_cons_of_mem _ hmem⟩

theorem above_self (h : Forest r) (hid : id ≠ .root) (hp : r.get? id = some p) :
    Above r id id := by
  obtain ⟨l, hl⟩ := h.rooted (home?_of_get? hp)
  exact ⟨l, hl, hl.self_mem hid⟩

/-- Who is gone after an eviction: the subtree, besides who was not there before. -/
theorem evicted_iff (h : Forest r) (hid : id ≠ .root) (hp : r.get? id = some p) {x : ParamId} :
    (r.evict id).1.get? x = none ↔ r.get? x = none ∨ Above r id x := by
  rw [evict_of_alive hp]
  have hnone : (r.unlinked id p).get? x = none ↔ r.get? x = none := by
    rw [get?_unlinked]
    split
    · exact Option.map_eq_none_iff
    · exact Iff.rfl
  -- a member that is still listed by its group was so before
  have hlists : ∀ {g c : ParamId}, (r.unlinked id p).Lists g c ↔ r.Lists g c ∧ c ≠ id := by
    intro g c
    simp only [Lists, get?_unlinked]
    by_cases hg : g = p.home
    · subst hg
      cases r.get? p.home <;> simp [and_comm]
    · simp only [if_neg hg]
      refine ⟨fun hl => ⟨hl, ?_⟩, And.left⟩
      rintro rfl
      have := (h.lists_iff.1 hl).2
      rw [home?_of_get? hp, Option.some.injEq] at this
      exact hg this.symm
  constructor
  · intro hx
    cases hxp : (r.unlinked id p).get? x with
    | none => exact .inl (hnone.1 hxp)
    | some q =>
      refine .inr (evictFrom_induction (r.unlinked id p).parameters [] [id] (Q := Above r id)
        ?_ ?_ hxp hx)
      · intro y hy
        rw [List.mem_singleton.1 hy]
        exact h.above_self hid hp
      · intro y q hy hQ c hc
        exact h.above_of_lists (hlists.1 ⟨q, hy, hc⟩).1 hQ
  · rintro (hx | ⟨l, hl, hmem⟩)
    · exact getElem?_evictFrom_eq_none _ _ _ (hnone.2 hx)
    · clear hnone
      induction hl with
      | root => simp at hmem
      | @member x g l hx hg _ ih =>
        by_cases hxid : x = id
        · exact stack_gone _ _ _ (hxid ▸ List.mem_cons_self)
        · have hmem' : id ∈ l := (List.mem_cons.1 hmem).resolve_left (Ne.symm hxid)
          obtain ⟨q, hq, hxq⟩ := hlists.2 ⟨h.lists_iff.2 ⟨hx, hg⟩, hxid⟩
          exact members_gone _ _ _ hq (ih hmem') hxq

theorem get?_evict_of_above (h : Forest r) (hid : id ≠ .root) (hp : r.get? id = some p)
    {x : ParamId} (hx : Above r id x) : (r.evict id).1.get? x = none :=
  (h.evicted_iff hid hp).2 (.inr hx)

/-- All but the subtree is as it was, and the top of the subtree is listed no more. -/
theorem get?_evict_of_not_above (h : Forest r) (hid : id ≠ .root) (hp : r.get? id = some p)
    {x : ParamId} (hx : ¬ Above r id x) :
    (r.evict id).1.get? x =
      if x = p.home then (r.get? x).map (·.eraseChild id) else r.get? x := by
  rw [← get?_unlinked]
  cases hq : (r.evict id).1.get? x with
  | none =>
    have hdead : r.get? x = none := ((h.evicted_iff hid hp).1 hq).resolve_right hx
    rw [get?_unlinked, hdead]
    split <;> rfl
  | some q =>
    rw [evict_of_alive hp] at hq
    exact (getElem?_of_evictFrom _ _ _ hq).symm

theorem home?_evict_of_not_above (h : Forest r) (hid : id ≠ .root) (hp : r.get? id = some p)
    {x : ParamId} (hx : ¬ Above r id x) : (r.evict id).1.home? x = r.home? x := by
  rw [home?, h.get?_evict_of_not_above hid hp hx]
  split
  · rw [Option.map_map]; rfl
  · rfl

theorem home?_evict_eq_some_iff (h : Forest r) (hid : id ≠ .root) (hp : r.get? id = some p)
    {x g : ParamId} :
    (r.evict id).1.home? x = some g ↔ r.home? x = some g ∧ ¬ Above r id x := by
  by_cases hx : Above r id x
  · simp [home?, h.get?_evict_of_above hid hp hx, hx]
  · simp [h.home?_evict_of_not_above hid hp hx, hx]

/-- A group lists whom it listed, the subtree apart. -/
theorem lists_evict (h : Forest r) (hid : id ≠ .root) (hp : r.get? id = some p) {g c : ParamId} :
    (r.evict id).1.Lists g c ↔ r.Lists g c ∧ ¬ Above r id c := by
  by_cases hg : Above r id g
  · have hnot : ¬ (r.evict id).1.Lists g c := by
      rintro ⟨q, hq, -⟩
      rw [h.get?_evict_of_above hid hp hg] at hq
      cases hq
    exact ⟨fun hl => absurd hl hnot, fun ⟨hl, hc⟩ => absurd (h.above_of_lists hl hg) hc⟩
  · -- from outside the subtree only its top is listed, and that by its group
    have hc : r.Lists g c → (Above r id c ↔ c = id) := by
      intro hl
      constructor
      · rintro ⟨l, hlc, hmem⟩
        obtain ⟨hcroot, hcg⟩ := h.lists_iff.1 hl
        cases hlc with
        | root => exact absurd rfl hcroot
        | member _ hcg' hlg =>
          rw [hcg] at hcg'
          cases hcg'
          rcases List.mem_cons.1 hmem with rfl | hmem
          · rfl
          · exact absurd ⟨_, hlg, hmem⟩ hg
      · rintro rfl
        exact h.above_self hid hp
    have hhome : r.Lists g id → g = p.home := by
      intro hl
      have := (h.lists_iff.1 hl).2
      rw [home?_of_get? hp, Option.some.injEq] at this
      exact this.symm
    have hlists : (r.evict id).1.Lists g c ↔ r.Lists g c ∧ (g = p.home → c ≠ id) := by
      simp only [Lists, h.get?_evict_of_not_above hid hp hg]
      by_cases hgp : g = p.home
      · subst hgp
        cases r.get? p.home <;> simp [and_comm]
      · simp [hgp]
    rw [hlists]
    refine and_congr_right fun hl => ?_
    rw [hc hl]
    refine ⟨fun hne heq => hne (hhome (heq ▸ hl)) heq, fun hne _ => hne⟩

/-- The subtree is handed out, each under its own identifier. -/
theorem exists_evicted_iff (h : Forest r) (hid : id ≠ .root) (hp : r.get? id = some p)
    {x : ParamId} :
    (∃ q ∈ (evictFrom (r.unlinked id p).parameters [] [id]).2, q.id = x) ↔ Above r id x := by
  have hkeyed : (r.unlinked id p).Keyed := h.keyed.modify (Parameter.id_eraseChild · id)
  have hgone : ∀ y, (evictFrom (r.unlinked id p).parameters [] [id]).1[y]? =
      (r.evict id).1.get? y := fun y => by rw [evict_of_alive hp]; rfl
  constructor
  · rintro ⟨q, hq, rfl⟩
    obtain hq | ⟨y, p', hp', hy, rfl⟩ := (mem_evicted_iff _ _ _).1 hq
    · cases hq
    · have hyid : p'.id = y := hkeyed hp'
      have halive : r.get? y ≠ none := by
        intro hdead
        have : (r.unlinked id p).get? y = some p' := hp'
        rw [get?_unlinked, hdead] at this
        split at this <;> cases this
      show Above r id p'.id
      rw [hyid]
      exact ((h.evicted_iff hid hp).1 ((hgone y).symm.trans hy)).resolve_left halive
  · intro hx
    have hxgone := (hgone x).trans (h.get?_evict_of_above hid hp hx)
    obtain ⟨l, hl, hmem⟩ := hx
    have halive : ∃ g, r.home? x = some g := by
      cases hl with
      | root => cases hmem
      | member _ hg _ => exact ⟨_, hg⟩
    obtain ⟨g, hg⟩ := halive
    obtain ⟨q, hq, -⟩ := home?_eq_some_iff.1 hg
    have hun : ∃ q', (r.unlinked id p).get? x = some q' := by
      rw [get?_unlinked, hq]
      split
      · exact ⟨_, rfl⟩
      · exact ⟨_, rfl⟩
    obtain ⟨q', hq'⟩ := hun
    have hq'id : q'.id = x := hkeyed hq'
    exact ⟨_, (mem_evicted_iff _ _ _).2 (.inr ⟨x, q', hq', hxgone, rfl⟩), hq'id⟩

/-- Nothing of the subtree is left to be told. -/
theorem mem_dirty_evict (h : Forest r) (hid : id ≠ .root) (hp : r.get? id = some p)
    {x : ParamId} : x ∈ (r.evict id).1.dirty ↔ x ∈ r.dirty ∧ ¬ Above r id x := by
  rw [evict_of_alive hp, ← h.exists_evicted_iff hid hp]
  simpa using mem_foldl_erase (·.id) _ r.dirty

/-- The slots of the subtree are free again. -/
theorem mem_reserved_evict (h : Forest r) (hid : id ≠ .root) (hp : r.get? id = some p)
    {slot : UInt16} :
    slot ∈ (r.evict id).1.reserved ↔ slot ∈ r.reserved ∧ ¬ Above r id (.ofSlot slot) := by
  rw [evict_of_alive hp, ← h.exists_evicted_iff hid hp]
  have hslot : ∀ q : Parameter, q.id = .ofSlot slot ↔ q.id.slot = slot := fun q =>
    ⟨fun heq => by rw [heq, ParamId.slot_ofSlot], fun heq => by rw [← heq, ParamId.ofSlot_slot]⟩
  simp only [hslot]
  simpa using mem_foldl_erase (·.id.slot) _ r.reserved

/-- What is left of a tree is a tree. -/
theorem evict (h : Forest r) (hid : id ≠ .root) : Forest (r.evict id).1 := by
  cases hp : r.get? id with
  | none => rwa [evict_of_dead hp]
  | some p =>
    constructor
    · intro x q hq
      have hx : ¬ Above r id x := by
        intro hx
        rw [h.get?_evict_of_above hid hp hx] at hq
        cases hq
      rw [h.get?_evict_of_not_above hid hp hx] at hq
      exact h.keyed.modify (Parameter.id_eraseChild · id) ((r.get?_modify _ _ x).trans hq)
    · exact (h.home?_evict_eq_some_iff hid hp).2 ⟨h.root, not_above_root⟩
    · intro g c
      rw [h.lists_evict hid hp, h.home?_evict_eq_some_iff hid hp, h.lists_iff, and_assoc]
    · intro x g hg
      obtain ⟨hg, hx⟩ := (h.home?_evict_eq_some_iff hid hp).1 hg
      obtain ⟨l, hl⟩ := h.rooted hg
      refine ⟨l, hl.congr fun y hy => h.home?_evict_of_not_above hid hp ?_⟩
      -- who is above the one that is left is not below the one that is taken out
      rintro ⟨ly, hly, hmem⟩
      obtain ⟨ly', hly', hs⟩ := hl.exists_of_mem hy
      exact hx ⟨l, hl, hs.subset (hly.unique hly' ▸ hmem)⟩

end Forest
end Registry
end ParamSync
