import ParamSync.Json.Hierarchy
import ParamSync.Proofs.Registry.Traversal

/-!
# A snapshot is a recursion

A snapshot is built without recursion: a loop with a stack writes down whom it meets, and on the way
back each node takes those of its members out of what is finished. `picture` is the recursion that
this stands for. The way back finds the nodes of all members finished and of nobody else, because a
parameter is met once and before all that is below it.

Results:
* `takeNodes_of_built`: a node gets the nodes of its members and takes nothing else.
* `Forest.foldr_buildNode`: the way back over what is below a parameter finishes one node, its own.
* `Forest.hierarchy_eq_picture`: a snapshot is what the recursion gives.
* `Forest.mem_flatten_picture`: at which depth somebody is in it.
* `Forest.count_hierarchy`: who is in it, and that it is there once.
* `Reachable.hierarchy_exact`: all this of every registry that a run makes.
-/

namespace ParamSync
namespace Registry

variable {r : Registry} {id x : ParamId} {p : Parameter} {l : List ParamId}

/-! ## The recursion -/

/-- The node of a parameter, with those of its members so many levels down. -/
def picture (r : Registry) : Nat → ParamId → HierarchyNode
  | 0, id => r.hierarchyNode id []
  | n + 1, id => r.hierarchyNode id ((r.children id).map (r.picture n))

theorem hierarchyNode_of_alive (hp : r.get? id = some p) (children : List HierarchyNode) :
    r.hierarchyNode id children =
      .node id p.datatype p.label.text (p.value.value.map (·.display)) children := by
  rw [hierarchyNode, hp]
  rfl

theorem id_picture (r : Registry) (n : Nat) (id : ParamId) : (r.picture n id).id = id := by
  cases n <;> rfl

/-! ## The way back -/

section Nodes

variable {built : IdMap HierarchyNode} {ids : List ParamId}

theorem takeNodes_cons : takeNodes built (id :: ids) =
    match (takeNodes built ids).2[id]? with
    | some node => (node :: (takeNodes built ids).1, (takeNodes built ids).2.erase id)
    | none => takeNodes built ids := rfl

/-- Nothing is taken where nothing is finished. -/
theorem takeNodes_of_none (h : ∀ c ∈ ids, built[c]? = none) :
    takeNodes built ids = ([], built) := by
  induction ids with
  | nil => rfl
  | cons c ids ih =>
    obtain ⟨hc, hids⟩ := List.forall_mem_cons.1 h
    rw [takeNodes_cons, ih hids]
    dsimp only
    rw [hc]

/-- Finished nodes are taken, each once, and all others stay. -/
theorem takeNodes_of_built {f : ParamId → HierarchyNode} (hnodup : ids.Nodup)
    (h : ∀ c ∈ ids, built[c]? = some (f c)) :
    (takeNodes built ids).1 = ids.map f ∧
      ∀ x, (takeNodes built ids).2[x]? = if x ∈ ids then none else built[x]? := by
  induction ids with
  | nil => exact ⟨rfl, fun x => (if_neg List.not_mem_nil).symm⟩
  | cons c ids ih =>
    obtain ⟨hnot, hnodup⟩ := List.nodup_cons.1 hnodup
    obtain ⟨hc, hids⟩ := List.forall_mem_cons.1 h
    obtain ⟨hnodes, hrest⟩ := ih hnodup hids
    have hfound : (takeNodes built ids).2[c]? = some (f c) := by rw [hrest, if_neg hnot, hc]
    rw [takeNodes_cons, hfound]
    refine ⟨by rw [hnodes, List.map_cons], fun x => ?_⟩
    rw [IdMap.getElem?_erase_eq, hrest]
    by_cases hx : x = c
    · rw [if_pos hx, if_pos (List.mem_cons.2 (.inl hx))]
    · simp [hx]

/-- A node that has all of its members takes them over. -/
theorem buildNode_of_built {f : ParamId → HierarchyNode} {before : IdMap HierarchyNode}
    (hbefore : ∀ c ∈ r.children id, before[c]? = none)
    (h : ∀ x, built[x]? = if x ∈ r.children id then some (f x) else before[x]?) :
    r.buildNode id built = before.insert id (r.hierarchyNode id ((r.children id).map f)) := by
  obtain ⟨hnodes, hrest⟩ := takeNodes_of_built (r.nodup_children id)
    (fun c hc => (h c).trans (if_pos hc))
  have hsame : (takeNodes built (r.children id)).2 = before := by
    refine Std.ExtTreeMap.ext_getElem? fun x => ?_
    rw [hrest]
    by_cases hx : x ∈ r.children id
    · rw [if_pos hx, hbefore x hx]
    · rw [if_neg hx, h, if_neg hx]
  show (takeNodes built (r.children id)).2.insert id
    (r.hierarchyNode id (takeNodes built (r.children id)).1) = _
  rw [hnodes, hsame]

end Nodes

/-- Nothing is finished of a parameter, whose way up is given, and of what is below it. -/
def Unfinished (r : Registry) (built : IdMap HierarchyNode) (l : List ParamId) : Prop :=
  ∀ x lx, Lineage r x lx → l <:+ lx → built[x]? = none

theorem Unfinished.below {built : IdMap HierarchyNode} (hnone : Unfinished r built l)
    (c : ParamId) : Unfinished r built (c :: l) :=
  fun x lx hlx hs => hnone x lx hlx ((List.suffix_cons c l).trans hs)

/-- A finished member leaves the other ones unfinished. -/
theorem Unfinished.insert {built : IdMap HierarchyNode} {c c' : ParamId}
    (hnone : Unfinished r built (c' :: l)) (hl : Lineage r c (c :: l)) (hne : c' ≠ c)
    (node : HierarchyNode) : Unfinished r (built.insert c node) (c' :: l) := by
  intro x lx hlx hs
  rw [IdMap.getElem?_insert_eq, if_neg ?_, hnone x lx hlx hs]
  rintro rfl
  rw [hlx.unique hl] at hs
  exact hne (List.cons.inj (hs.eq_of_length rfl)).1

namespace Forest

variable (h : Forest r)
include h

theorem none_of_unfinished (hl : Lineage r id l) {built : IdMap HierarchyNode}
    (hnone : Unfinished r built l) : ∀ c ∈ r.children id, built[c]? = none := fun c hc =>
  hnone c _ (h.lineage_of_mem_children hc hl) (List.suffix_cons c l)

/-- If the way back over what is below a member finishes the node of the member, then over what is
below some of them it finishes their nodes. The last ones are met first, so it comes to the first
ones first. -/
theorem foldr_members {n : Nat} (hl : Lineage r id l) {ids : List ParamId}
    (hids : ids ⊆ r.children id) (hnodup : ids.Nodup) {built : IdMap HierarchyNode}
    (hnone : ∀ c ∈ ids, Unfinished r built (c :: l))
    (hmember : ∀ c ∈ ids, ∀ built, Unfinished r built (c :: l) →
      (r.snapshotOrder n c).foldr r.buildNode built = built.insert c (r.picture n c))
    (x : ParamId) :
    ((ids.reverse.flatMap (r.snapshotOrder n)).foldr r.buildNode built)[x]? =
      if x ∈ ids then some (r.picture n x) else built[x]? := by
  induction ids generalizing built with
  | nil => exact (if_neg List.not_mem_nil).symm
  | cons c ids ih =>
    obtain ⟨hc, hids⟩ := List.cons_subset.1 hids
    obtain ⟨hnot, hnodup⟩ := List.nodup_cons.1 hnodup
    obtain ⟨hcnone, hnone⟩ := List.forall_mem_cons.1 hnone
    obtain ⟨hcmember, hmember⟩ := List.forall_mem_cons.1 hmember
    have hlc : Lineage r c (c :: l) := h.lineage_of_mem_children hc hl
    have hnone' : ∀ c' ∈ ids, Unfinished r (built.insert c (r.picture n c)) (c' :: l) :=
      fun c' hc' => (hnone c' hc').insert hlc (fun heq => hnot (heq ▸ hc')) _
    rw [List.reverse_cons, List.flatMap_append, List.foldr_append, List.flatMap_singleton,
      hcmember built hcnone, ih hids hnodup hnone' hmember, IdMap.getElem?_insert_eq]
    by_cases hx : x = c
    · subst hx
      rw [if_neg hnot, if_pos rfl, if_pos List.mem_cons_self]
    · simp [hx]

/-- The way back over what is below a parameter, so many levels down, finishes one node: its own. -/
theorem foldr_buildNode {n : Nat} (hl : Lineage r id l) {built : IdMap HierarchyNode}
    (hnone : Unfinished r built l) :
    (r.snapshotOrder n id).foldr r.buildNode built = built.insert id (r.picture n id) := by
  induction n generalizing id l built with
  | zero =>
    rw [snapshotOrder, List.foldr_cons, List.foldr_nil, buildNode,
      takeNodes_of_none (h.none_of_unfinished hl hnone), picture]
  | succ n ih =>
    rw [snapshotOrder, List.foldr_cons, picture]
    refine buildNode_of_built (h.none_of_unfinished hl hnone) ?_
    exact h.foldr_members hl (List.Subset.refl _) (r.nodup_children id)
      (fun c _ => hnone.below c) fun c hc built => ih (h.lineage_of_mem_children hc hl)

/-- Whatever order the loop ends with, on the way back only the node of the root is left over. -/
theorem foldr_loop {order : List ParamId} (hloop : Loop r.snapshotStep ([], [(.root, 0)]) order) :
    order.foldr r.buildNode ∅ =
      (∅ : IdMap HierarchyNode).insert .root (r.picture maxHierarchyDepth .root) := by
  rw [hloop.unique r.loop_snapshot]
  exact h.foldr_buildNode .root fun _ _ _ _ => Std.ExtTreeMap.getElem?_empty

/-- A snapshot is what the recursion gives. -/
theorem hierarchy_eq_picture : r.hierarchy = r.picture maxHierarchyDepth .root := by
  rw [hierarchy, h.foldr_loop r.loop_snapshot, Std.ExtTreeMap.getD_insert_self]

end Forest

/-! ## Who is in a snapshot -/

theorem flatten_picture_zero (r : Registry) (depth : Nat) (id : ParamId) :
    (r.picture 0 id).flatten depth = [(depth, r.picture 0 id)] := by
  rw [picture, hierarchyNode, HierarchyNode.flatten]
  rfl

theorem flatten_picture_succ (r : Registry) (n depth : Nat) (id : ParamId) :
    (r.picture (n + 1) id).flatten depth = (depth, r.picture (n + 1) id) ::
      (r.children id).flatMap fun c => (r.picture n c).flatten (depth + 1) := by
  rw [picture, hierarchyNode, HierarchyNode.flatten, List.flatMap_map]

/-- The rows of a snapshot are those whom a walk down meets. -/
theorem map_id_flatten_picture (r : Registry) (n depth : Nat) (id : ParamId) :
    ((r.picture n id).flatten depth).map (·.2.id) = r.preorder n id := by
  induction n generalizing depth id with
  | zero => rw [flatten_picture_zero, List.map_singleton, id_picture, preorder]
  | succ n ih =>
    rw [flatten_picture_succ, List.map_cons, List.map_flatMap, id_picture, preorder]
    congr 1
    exact List.flatMap_congr fun c _ => ih (depth + 1) c

/-- A row has the depth of its parameter, and the node that the recursion gives so far down. -/
theorem Forest.mem_flatten_picture (h : Forest r) {n depth : Nat} (hl : Lineage r id l)
    {node : HierarchyNode} (hmem : (depth, node) ∈ (r.picture n id).flatten l.length) :
    ∃ lx levels, Lineage r node.id lx ∧ lx.length = depth ∧ depth + levels = l.length + n ∧
      node = r.picture levels node.id := by
  induction n generalizing id l with
  | zero =>
    rw [flatten_picture_zero, List.mem_singleton] at hmem
    cases hmem
    exact ⟨l, 0, hl, rfl, rfl, rfl⟩
  | succ n ih =>
    rw [flatten_picture_succ, List.mem_cons, List.mem_flatMap] at hmem
    rcases hmem with heq | ⟨c, hc, hmem⟩
    · cases heq
      exact ⟨l, n + 1, hl, rfl, rfl, rfl⟩
    · obtain ⟨lx, levels, hlx, hdepth, hlevels, hnode⟩ :=
        ih (h.lineage_of_mem_children hc hl) hmem
      rw [List.length_cons] at hlevels
      exact ⟨lx, levels, hlx, hdepth, by omega, hnode⟩

/-- Nobody is in a snapshot twice, and who is too far down is not in it. -/
theorem Forest.count_hierarchy (h : Forest r) (hl : Lineage r id l) :
    ((r.hierarchy.flatten 0).map (·.2.id)).count id =
      if l.length ≤ maxHierarchyDepth then 1 else 0 := by
  rw [h.hierarchy_eq_picture, map_id_flatten_picture, (h.nodup_preorder .root).count]
  refine if_congr ?_ rfl rfl
  rw [h.mem_preorder_iff .root, List.length_nil, Nat.zero_add]
  constructor
  · rintro ⟨lx, hlx, -, hle⟩
    exact hl.unique hlx ▸ hle
  · exact fun hle => ⟨l, hl, List.nil_suffix, hle⟩

/-- What a snapshot has of a living parameter, and where it stops: on the last level the members are
left out, and above it their nodes come in ascending order. The parameter is in it once, if it is
not further down than that. -/
structure Pictured (r : Registry) (id : ParamId) (p : Parameter) : Prop where
  last : r.picture 0 id =
    .node id p.datatype p.label.text (p.value.value.map (·.display)) []
  node : ∀ levels, r.picture (levels + 1) id =
    .node id p.datatype p.label.text (p.value.value.map (·.display))
      (p.childList.map (r.picture levels))
  ascending : p.childList.Pairwise (·.val < ·.val)
  members : ∀ c, c ∈ p.childList ↔ c ≠ .root ∧ r.home? c = some id
  count : ∃ l, Lineage r id l ∧
    ((r.hierarchy.flatten 0).map (·.2.id)).count id = if l.length ≤ 64 then 1 else 0

theorem Forest.pictured (h : Forest r) (hp : r.get? id = some p) : Pictured r id p := by
  have hchildren : r.children id = p.childList := by
    rw [children, hp, Option.map_some, Option.getD_some]
  refine ⟨hierarchyNode_of_alive hp [], fun levels => ?_, hchildren ▸ r.pairwise_val_children id,
    fun c => ?_, ?_⟩
  · rw [picture, hchildren, hierarchyNode_of_alive hp]
  · rw [← hchildren, mem_children_iff, h.lists_iff]
  · obtain ⟨l, hl⟩ := h.rooted (home?_of_get? hp)
    exact ⟨l, hl, h.count_hierarchy hl⟩

/-- The loop and the way back make what the recursion gives, 64 levels below the root. Each row is a
living parameter at the depth that it has in the tree, with the node that the recursion gives so far
down; and every living parameter that is not further down has one row. -/
theorem Reachable.hierarchy_exact (hr : Reachable (fun _ op => op.Childless) r) :
    r.hierarchy = r.picture 64 .root ∧
    (∀ order, Loop r.snapshotStep ([], [(.root, 0)]) order →
      (order.foldr r.buildNode ∅)[ParamId.root]? = some r.hierarchy) ∧
    (∀ id p, r.get? id = some p → Pictured r id p) ∧
    ∀ depth node, (depth, node) ∈ r.hierarchy.flatten 0 →
      depth ≤ 64 ∧ node = r.picture (64 - depth) node.id ∧ (∃ p, r.get? node.id = some p) ∧
      ∃ l, Lineage r node.id l ∧ l.length = depth := by
  have h : Forest r := hr.forest fun _ _ hop => hop
  refine ⟨h.hierarchy_eq_picture, fun order hloop => ?_, fun id p => h.pictured,
    fun depth node hmem => ?_⟩
  · rw [h.foldr_loop hloop, Std.ExtTreeMap.getElem?_insert_self, h.hierarchy_eq_picture]
  · rw [h.hierarchy_eq_picture] at hmem
    obtain ⟨l, levels, hl, hdepth, hlevels, hnode⟩ := h.mem_flatten_picture .root hmem
    rw [List.length_nil, Nat.zero_add, maxHierarchyDepth] at hlevels
    obtain ⟨g, hg⟩ := h.alive_of_lineage hl
    obtain ⟨p, hp, -⟩ := home?_eq_some_iff.1 hg
    have hleft : 64 - depth = levels := by omega
    exact ⟨by omega, hleft ▸ hnode, ⟨p, hp⟩, l, hl, hdepth⟩

/-- The flag is on the third level, in the group in the group. -/
theorem hierarchy_exact_attic : (new.performAll atticRun).hierarchy =
    .node .root .group (some "root") none [.node ⟨-3⟩ .group none none
      [.node ⟨2⟩ .group none none [.node ⟨1⟩ .boolean none none []]]] :=
  have hr : Reachable (fun _ op => op.Childless) (new.performAll atticRun) :=
    Reachable.performAll .new (by simp [atticRun, Op.Childless])
  (Reachable.hierarchy_exact hr).1

end Registry
end ParamSync
