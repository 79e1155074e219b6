import ParamSync.Proofs.Registry.Dump
import ParamSync.Proofs.Registry.Loops

/-!
# What a dump tells, and in which order

A dump is found by a loop with a stack. `Walk` says what the loop finds without a stack and without
a bound: each parameter, and then its members with all that is below them, in ascending order.
Everybody but the root is found once, on a tree, and every group before its members; so whoever
hears a dump knows the group of everybody that it is told of.

Results:
* `GroupsFirst.lt_of_home?`: in such an order a group is ahead of its members.
* `Reachable.dumps_in_preorder`: the loop, the walk and the packets of a dump.
-/

namespace ParamSync
namespace Registry

variable {r : Registry}

/-- The members of a group come in ascending order. -/
theorem pairwise_val_children (r : Registry) (g : ParamId) :
    (r.children g).Pairwise (·.val < ·.val) := by
  unfold children
  cases r.get? g with
  | none => exact .nil
  | some p =>
    refine (pairwise_lt_toList p.children).imp fun {a b} h => ?_
    have hval : compare a.val b.val = .lt := h
    exact Std.compare_eq_lt.1 hval

/-- Whoever comes after its group is further behind, if nobody comes twice. -/
theorem GroupsFirst.lt_of_home? {seen ids : List ParamId} (h : GroupsFirst r seen ids)
    (hnodup : ids.Nodup) {i j : Nat} {g c : ParamId} (hg : g ∉ seen) (hi : ids[i]? = some g)
    (hj : ids[j]? = some c) (hhome : r.home? c = some g) : i < j := by
  induction ids generalizing seen i j with
  | nil => cases hi
  | cons x ids ih =>
    obtain ⟨-, ⟨g', hg', hx⟩, hrest⟩ := h
    obtain ⟨hnot, hnodup⟩ := List.nodup_cons.1 hnodup
    cases j with
    | zero =>
      -- the first has a group that came before the list
      rw [List.getElem?_cons_zero, Option.some.injEq] at hj
      rw [hj, hhome, Option.some.injEq] at hx
      exact absurd (hx ▸ hg') hg
    | succ j =>
      cases i with
      | zero => exact Nat.zero_lt_succ j
      | succ i =>
        rw [List.getElem?_cons_succ] at hi hj
        have hgx : g ≠ x := fun heq => hnot (heq ▸ List.mem_of_getElem? hi)
        exact Nat.succ_lt_succ (ih hrest hnodup (List.not_mem_cons_of_ne_of_not_mem hgx hg) hi hj)

theorem Forest.lt_of_groupsFirst (h : Forest r) {seen : List ParamId} {ps : List Parameter}
    (hfirst : GroupsFirst r seen (ps.map (·.id))) (hnodup : (ps.map (·.id)).Nodup) {i j : Nat}
    {p q : Parameter} (hp : p.id ∉ seen) (hi : ps[i]? = some p) (hj : ps[j]? = some q)
    (hlists : r.Lists p.id q.id) : i < j := by
  have hat : ∀ {k : Nat} {p : Parameter}, ps[k]? = some p →
      (ps.map (·.id))[k]? = some p.id := by
    intro k p hk
    rw [List.getElem?_map, hk, Option.map_some]
  exact hfirst.lt_of_home? hnodup hp (hat hi) (hat hj) (h.lists_iff.1 hlists).2

/-- A dump tells of a group before it tells of its members. -/
theorem Forest.lt_of_mem_children (h : Forest r) {i j : Nat} {p q : Parameter}
    (hi : r.dumped[i]? = some p) (hj : r.dumped[j]? = some q) (hq : q.id ∈ p.children) :
    i < j := by
  have hfirst : GroupsFirst r [.root] (r.dumped.map (·.id)) := by
    rw [h.map_id_dumped]
    exact h.groupsFirst_depthFirst
  obtain ⟨hroot, hp⟩ := h.mem_dumped_iff.1 (List.mem_of_getElem? hi)
  exact h.lt_of_groupsFirst hfirst h.nodup_dumped (fun hmem => hroot (List.mem_singleton.1 hmem))
    hi hj ⟨p, hp, hq⟩

/-- The loop of a dump ends, with what is below the root in the order of a walk: there is no other
such order, each group's members are all of those in it, and they come in ascending order. So
everybody but the root is met, once. A dump has a full packet for each of them, in this order, and
that of a group is ahead of those of its members. -/
theorem Reachable.dumps_in_preorder (hr : Reachable (fun _ op => op.Childless) r) :
    Loop r.walkStep ([], r.children .root) r.depthFirst ∧
    (∀ order, Walk r.children (r.children .root) order ↔ order = r.depthFirst) ∧
    (∀ g, (∀ c, c ∈ r.children g ↔ r.Lists g c) ∧ (r.children g).Pairwise (·.val < ·.val)) ∧
    r.depthFirst.Nodup ∧
    (∀ x, x ∈ r.depthFirst ↔ r.contains x = true) ∧
    r.encodeAll = r.dumped.map (Packet.encodeUpdate · true) ∧
    r.dumped.map (·.id) = r.depthFirst ∧
    (∀ p ∈ r.dumped, r.get? p.id = some p) ∧
    ∀ (i j : Nat) (p q : Parameter), r.dumped[i]? = some p → r.dumped[j]? = some q →
      q.id ∈ p.children → i < j := by
  have h : Forest r := hr.forest fun _ _ hop => hop
  refine ⟨h.loop_walk, fun order => ⟨fun hwalk => hwalk.unique h.walk_depthFirst, ?_⟩,
    fun g => ⟨fun c => mem_children_iff, r.pairwise_val_children g⟩, h.nodup_depthFirst,
    fun x => ?_, r.encodeAll_eq_map, h.map_id_dumped, fun p hp => (h.mem_dumped_iff.1 hp).2,
    fun i j p q => h.lt_of_mem_children⟩
  · rintro rfl
    exact h.walk_depthFirst
  · rw [h.mem_depthFirst_iff, contains_iff_ne_root]
    refine and_congr_right fun _ => ?_
    rw [Ne, ← home?_eq_none_iff, ← Ne, Option.ne_none_iff_exists']

/-- A flag, a group that a peer has made under a negative identifier, and a second group in that
one, to which the flag is moved. -/
def atticRun : List Op :=
  [.create (.boolean {}) none, .merge { id := ⟨-3⟩, definition := .group },
    .createGroup (some ⟨-3⟩), .move ⟨1⟩ (some ⟨2⟩)]

/-- The flag is told of last, though its identifier is less than that of its group. -/
theorem dumps_in_preorder_attic :
    Loop (new.performAll atticRun).walkStep ([], [⟨-3⟩]) [⟨-3⟩, ⟨2⟩, ⟨1⟩] ∧
      Walk (new.performAll atticRun).children [⟨-3⟩] [⟨-3⟩, ⟨2⟩, ⟨1⟩] :=
  have hr : Reachable (fun _ op => op.Childless) (new.performAll atticRun) :=
    Reachable.performAll .new (by simp [atticRun, Op.Childless])
  have hall := Reachable.dumps_in_preorder hr
  ⟨hall.1, (hall.2.1 _).2 rfl⟩

end Registry
end ParamSync
