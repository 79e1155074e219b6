import ParamSync.Proofs.Registry.Order
import ParamSync.Proofs.Registry.Steps
import ParamSync.Registry.Hierarchy

/-!
# The loops over the tree end

The way up, the removal of a subtree, the order of a dump and that of a snapshot are written here
by recursion with a bound. As a program they are loops that stop when there is nowhere to go on.
`Loop` says that a loop ends, and with what: of each of the four, with what the bounded recursion
gives. So the bounds are never met on a tree, and without them the loops end on it.

Results:
* `Forest.loop_climb`, `loop_evict`, `Forest.loop_walk`, `loop_snapshot`: the four loops end.
* `Reachable.tree_and_loops`: on every registry that operations make, the two sides of the links
  agree, every way up ends at the root and the loops end.
-/

namespace ParamSync

/-- From a state, a step gives another one or the result. The loop ends with the result. -/
inductive Loop {σ β : Type} (step : σ → σ ⊕ β) : σ → β → Prop
  | stop {s : σ} {b : β} (h : step s = .inr b) : Loop step s b
  | next {s s' : σ} {b : β} (h : step s = .inl s') (hl : Loop step s' b) : Loop step s b

/-- A loop ends in one way. -/
theorem Loop.unique {σ β : Type} {step : σ → σ ⊕ β} {s : σ} {b b' : β} (h : Loop step s b)
    (h' : Loop step s b') : b = b' := by
  induction h with
  | stop h =>
    cases h' with
    | stop h' => rw [h] at h'; cases h'; rfl
    | next h' _ => rw [h] at h'; cases h'
  | next h _ ih =>
    cases h' with
    | stop h' => rw [h] at h'; cases h'
    | next h' hl' => rw [h] at h'; cases h'; exact ih hl'

namespace Registry

variable {r : Registry}

/-! ## The way up -/

/-- Is this the one that is looked for? If not, the next is its group, if it is in one. -/
def climbStep (r : Registry) (ancestor : ParamId) : Option ParamId → Option ParamId ⊕ Bool
  | none => .inr false
  | some id => if id = ancestor then .inr true else .inl (r.group? id)

/-- The step at a parameter, where the rest of the way is known. -/
theorem loop_climb_some {ancestor id : ParamId} {b : Bool}
    (h : Loop (r.climbStep ancestor) (r.group? id) b) :
    Loop (r.climbStep ancestor) (some id) (id == ancestor || b) := by
  by_cases hid : id = ancestor
  · refine .stop ?_
    rw [climbStep, if_pos hid, hid, beq_self_eq_true, Bool.true_or]
  · rw [beq_eq_false_iff_ne.2 hid, Bool.false_or]
    exact .next (by rw [climbStep, if_neg hid]) h

theorem Forest.loop_climbSteps (h : Forest r) (ancestor : ParamId) {id : ParamId}
    {l : List ParamId} (hl : Lineage r id l) {n : Nat} (hn : l.length < n) :
    Loop (r.climbStep ancestor) (some id) (r.isWithinSteps ancestor n id) := by
  induction hl generalizing n with
  | root =>
    obtain ⟨n, rfl⟩ := Nat.exists_eq_succ_of_ne_zero (Nat.ne_of_gt hn)
    refine loop_climb_some ?_
    rw [h.group?_root]
    exact .stop rfl
  | @member id g l hid hg hl ih =>
    obtain ⟨n, rfl⟩ := Nat.exists_eq_succ_of_ne_zero (Nat.ne_of_gt (Nat.zero_lt_of_lt hn))
    refine loop_climb_some ?_
    obtain ⟨p, hp, rfl⟩ := home?_eq_some_iff.1 hg
    have hgroup : r.group? id = p.group? := by rw [group?, hp, Option.bind_some]
    by_cases hroot : p.home = .root
    · rw [hgroup, Parameter.home_eq_root_iff.1 hroot]
      exact .stop rfl
    · rw [hgroup, Parameter.group?_eq_some_home hroot]
      exact ih (by rw [List.length_cons] at hn; omega)

/-- The search for an ancestor ends, wherever it starts. -/
theorem Forest.loop_climb (h : Forest r) (id ancestor : ParamId) :
    Loop (r.climbStep ancestor) (some id) (r.isWithin id ancestor) := by
  cases hid : r.home? id with
  | none =>
    refine loop_climb_some ?_
    have hgroup : r.group? id = none := by
      rw [group?, home?_eq_none_iff.1 hid, Option.bind_none]
    rw [hgroup]
    exact .stop rfl
  | some g =>
    obtain ⟨l, hl⟩ := h.rooted hid
    have := hl.length_lt_size h.root
    exact h.loop_climbSteps ancestor hl (by omega)

/-! ## The removal of a subtree -/

/-- Takes the last of the stack out and puts its members there. -/
def evictStep : IdMap Parameter × List Parameter × List ParamId →
    (IdMap Parameter × List Parameter × List ParamId) ⊕ (IdMap Parameter × List Parameter)
  | (ps, evicted, []) => .inr (ps, evicted)
  | (ps, evicted, id :: stack) =>
    match ps[id]? with
    | none => .inl (ps, evicted, stack)
    | some p => .inl (ps.erase id, p.unwatched :: evicted, p.childList.reverse ++ stack)

/-- A removal ends, on any links, as whatever is met twice is gone the second time. -/
theorem loop_evict (ps : IdMap Parameter) (evicted : List Parameter) (stack : List ParamId) :
    Loop evictStep (ps, evicted, stack) (evictFrom ps evicted stack) := by
  fun_induction evictFrom ps evicted stack with
  | case1 => exact .stop rfl
  | case2 ps evicted id stack hid ih => exact .next (by rw [evictStep, hid]) ih
  | case3 ps evicted id stack q hid ih => exact .next (by rw [evictStep, hid]) ih

/-! ## Walks with a stack -/

/-- A walk passes over a list of entries, if it passes over each of them. -/
theorem loop_flatMap {κ : Type}
    {step : List ParamId × List κ → (List ParamId × List κ) ⊕ List ParamId} {entry : ParamId → κ}
    {f : ParamId → List ParamId} {ids order result : List ParamId} {stack : List κ}
    (hf : ∀ id ∈ ids, ∀ order stack, Loop step (order ++ f id, stack) result →
      Loop step (order, entry id :: stack) result)
    (h : Loop step (order ++ ids.flatMap f, stack) result) :
    Loop step (order, ids.map entry ++ stack) result := by
  induction ids generalizing order with
  | nil => rwa [List.flatMap_nil, List.append_nil] at h
  | cons id ids ih =>
    obtain ⟨hid, hids⟩ := List.forall_mem_cons.1 hf
    refine hid _ _ (ih hids ?_)
    rwa [List.flatMap_cons, ← List.append_assoc] at h

/-! ## The order of a dump -/

/-- Writes down the last of the stack and puts its members there. -/
def walkStep (r : Registry) : List ParamId × List ParamId →
    (List ParamId × List ParamId) ⊕ List ParamId
  | (order, []) => .inr order
  | (order, id :: stack) => .inl (order ++ [id], r.children id ++ stack)

/-- The stack does what a walk does from those on top of it, and goes on with the rest. -/
theorem Walk.loop {ids walked order stack result : List ParamId} (h : Walk r.children ids walked)
    (hrest : Loop r.walkStep (order ++ walked, stack) result) :
    Loop r.walkStep (order, ids ++ stack) result := by
  induction h generalizing order stack with
  | nil => rwa [List.append_nil] at hrest
  | @cons id siblings below rest _ _ ihbelow ihrest =>
    refine .next rfl (ihbelow (ihrest ?_))
    rwa [List.append_assoc, List.append_assoc, List.singleton_append]

/-- The walk of a dump ends, with everything below the root in preorder. -/
theorem Forest.loop_walk (h : Forest r) :
    Loop r.walkStep ([], r.children .root) r.depthFirst := by
  have hloop : Loop r.walkStep ([], r.children .root ++ []) r.depthFirst :=
    h.walk_depthFirst.loop (.stop rfl)
  rwa [List.append_nil] at hloop

/-! ## The order of a snapshot -/

/-- Writes down the last of the stack and puts its members there, if they are not too deep. -/
def snapshotStep (r : Registry) : List ParamId × List (ParamId × Nat) →
    (List ParamId × List (ParamId × Nat)) ⊕ List ParamId
  | (order, []) => .inr order
  | (order, (id, depth) :: stack) =>
    if depth = maxHierarchyDepth then .inl (order ++ [id], stack)
    else .inl (order ++ [id], (r.children id).reverse.map (·, depth + 1) ++ stack)

theorem loop_snapshotOrder {n depth : Nat} (hn : depth + n = maxHierarchyDepth) (id : ParamId)
    (order result : List ParamId) (stack : List (ParamId × Nat))
    (hrest : Loop r.snapshotStep (order ++ r.snapshotOrder n id, stack) result) :
    Loop r.snapshotStep (order, (id, depth) :: stack) result := by
  induction n generalizing id depth order stack with
  | zero => exact .next (by rw [snapshotStep, if_pos (by omega)]; rfl) hrest
  | succ n ih =>
    refine .next (by rw [snapshotStep, if_neg (by omega)]) ?_
    refine loop_flatMap (f := r.snapshotOrder n) (fun c _ => ih (by omega) c) ?_
    rwa [List.append_assoc, List.singleton_append]

/-- The walk of a snapshot ends, on any links, as it goes down so many levels only. -/
theorem loop_snapshot (r : Registry) :
    Loop r.snapshotStep ([], [(.root, 0)]) (r.snapshotOrder maxHierarchyDepth .root) :=
  loop_snapshotOrder (Nat.zero_add _) _ _ _ _ (.stop rfl)

/-! ## All of it -/

/-- Whatever is done to a registry, the groups and the members agree on who is where, members are
alive and not the root, every way up ends at the root, and the loops over the tree end. -/
theorem Reachable.tree_and_loops (h : Reachable (fun _ op => op.Childless) r) :
    (∀ c g p q, r.get? c = some p → c ≠ .root → r.get? g = some q →
      (c ∈ q.children ↔ p.home = g)) ∧
    (∀ g q c, r.get? g = some q → c ∈ q.children → c ≠ .root ∧ ∃ p, r.get? c = some p) ∧
    (∀ id p, r.get? id = some p → ∃ l, Lineage r id l) ∧
    (∀ id ancestor, Loop (r.climbStep ancestor) (some id) (r.isWithin id ancestor)) ∧
    (∀ id p, r.get? id = some p → ∃ result,
      Loop evictStep ((r.unlinked id p).parameters, [], [id]) result ∧
        (r.evict id).1.parameters = result.1 ∧ (r.evict id).2 = result.2.reverse) ∧
    Loop r.walkStep ([], r.children .root) r.depthFirst ∧
    ∃ order, Loop r.snapshotStep ([], [(.root, 0)]) order ∧
      r.hierarchy = (order.foldr r.buildNode ∅).getD .root (r.hierarchyNode .root []) := by
  have hf : Forest r := h.forest fun _ _ hop => hop
  refine ⟨?_, ?_, fun id p hp => hf.rooted (home?_of_get? hp), hf.loop_climb, ?_, hf.loop_walk,
    _, r.loop_snapshot, rfl⟩
  · intro c g p q hp hc hq
    have hl := hf.lists_iff (g := g) (c := c)
    rw [home?_of_get? hp, Option.some.injEq] at hl
    rw [← and_iff_right (b := p.home = g) hc, ← hl]
    constructor
    · exact fun hmem => ⟨q, hq, hmem⟩
    · rintro ⟨q', hq', hmem⟩
      rw [hq] at hq'
      cases hq'
      exact hmem
  · intro g q c hq hmem
    obtain ⟨hc, hhome⟩ := hf.lists_iff.1 ⟨q, hq, hmem⟩
    obtain ⟨p, hp, -⟩ := home?_eq_some_iff.1 hhome
    exact ⟨hc, p, hp⟩
  · intro id p hp
    refine ⟨_, loop_evict _ _ _, by rw [evict_of_alive hp], ?_⟩
    unfold evict
    split
    · next h => rw [h] at hp; cases hp
    · next q h => rw [h] at hp; cases hp; rfl

/-- Two groups, a refused move of the outer one into the inner one, and a parameter of a peer that
names itself as its group. -/
def nestedRun : List Op :=
  [.createGroup none, .createGroup (some ⟨1⟩), .move ⟨1⟩ (some ⟨2⟩),
    .merge { id := ⟨-3⟩, definition := .group, parent := .of ⟨-3⟩ }]

theorem tree_and_loops_nestedRun :
    (∃ l, Lineage (Registry.new.performAll nestedRun) ⟨2⟩ l) ∧
      Loop (Registry.new.performAll nestedRun).walkStep ([], [⟨-3⟩, ⟨1⟩]) [⟨-3⟩, ⟨1⟩, ⟨2⟩] :=
  have h : Reachable (fun _ op => op.Childless) (Registry.new.performAll nestedRun) :=
    Reachable.performAll .new (by simp [nestedRun, Op.Childless])
  have hall := Reachable.tree_and_loops h
  ⟨hall.2.2.1 ⟨2⟩ _ rfl, hall.2.2.2.2.2.1⟩

end Registry
end ParamSync
