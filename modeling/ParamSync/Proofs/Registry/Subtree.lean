import ParamSync.Proofs.Registry.Backlog
import ParamSync.Proofs.Registry.Moving
import ParamSync.Proofs.Registry.Traversal

/-!
# A removal takes a subtree out

A removal goes down from a parameter and takes out whom it comes to, while the map in which it looks
up the members gets smaller. On a tree it comes to nobody twice, so it finds everybody as they were:
what it takes out is what a walk down meets, where the last members come first. That is the
parameter, with all whom its members lead to, and nothing else is lost.

A removal that is to be told is not made twice: until it has been told, or all is forgotten, a
second one finds out that it was made, unless a peer has brought the parameter back.

Results:
* `evictFrom_walk`: what the loop takes out, and in which order.
* `Forest.evicts`: what is left.
* `Forest.evicted_eq`: what is handed out.
* `remove_again`: a second removal.
* `Reachable.removal_exact`: all this of every registry that a run makes.
* `forgotten_by_clear`: who forgets everything does not know of the first removal.
-/

namespace ParamSync
namespace Registry

variable {r r' : Registry} {id x : ParamId} {p : Parameter}

/-! ## The order in which parameters are taken out -/

theorem evictFrom_of_alive {ps : IdMap Parameter} {evicted : List Parameter}
    {stack : List ParamId} (hp : ps[id]? = some p) :
    evictFrom ps evicted (id :: stack) =
      evictFrom (ps.erase id) (p.unwatched :: evicted) (p.childList.reverse ++ stack) := by
  rw [evictFrom]
  split
  · next h => rw [h] at hp; cases hp
  · next q h => rw [h] at hp; cases hp; rfl

/-- A removal takes out whom a walk meets that comes to the last members first. It does so on any
parameters that are those of the registry as far as the walk goes, and leaves all others. -/
theorem evictFrom_walk {ids order : List ParamId}
    (h : Walk (fun g => (r.children g).reverse) ids order) (hnodup : order.Nodup)
    {ps : IdMap Parameter} (hps : ∀ x ∈ order, ∃ p, r.get? x = some p ∧ ps[x]? = some p)
    (evicted : List Parameter) (stack : List ParamId) :
    ∃ ps' : IdMap Parameter, (∀ x ∉ order, ps'[x]? = ps[x]?) ∧
      evictFrom ps evicted (ids ++ stack) =
        evictFrom ps' (((order.filterMap r.get?).map (·.unwatched)).reverse ++ evicted) stack := by
  induction h generalizing ps evicted stack with
  | nil => exact ⟨ps, fun _ _ => rfl, rfl⟩
  | @cons id siblings below rest _ _ ihbelow ihrest =>
    obtain ⟨hid, hnodup⟩ := List.nodup_cons.1 hnodup
    obtain ⟨hbelow, hrest, hdisjoint⟩ := List.nodup_append.1 hnodup
    obtain ⟨⟨p, hp, hpid⟩, htail⟩ := List.forall_mem_cons.1 hps
    have hchildren : (r.children id).reverse = p.childList.reverse := by
      rw [children, hp, Option.map_some, Option.getD_some]
    have herase : ∀ x ∈ below ++ rest, (ps.erase id)[x]? = ps[x]? := fun x hx => by
      rw [IdMap.getElem?_erase_eq, if_neg fun heq : x = id => hid (heq ▸ hx)]
    obtain ⟨ps₁, hkept₁, heq₁⟩ := ihbelow hbelow
      (fun x hx => by
        rw [herase x (List.mem_append_left _ hx)]
        exact htail x (List.mem_append_left _ hx))
      (p.unwatched :: evicted) (siblings ++ stack)
    obtain ⟨ps₂, hkept₂, heq₂⟩ := ihrest hrest
      (fun x hx => by
        have hout : x ∉ below := fun hmem => hdisjoint x hmem x hx rfl
        rw [hkept₁ x hout, herase x (List.mem_append_right _ hx)]
        exact htail x (List.mem_append_right _ hx))
      (((below.filterMap r.get?).map (·.unwatched)).reverse ++ (p.unwatched :: evicted)) stack
    refine ⟨ps₂, fun x hx => ?_, ?_⟩
    · obtain ⟨hxid, hx⟩ := not_or.1 (mt List.mem_cons.2 hx)
      obtain ⟨hxbelow, hxrest⟩ := not_or.1 (mt List.mem_append.2 hx)
      rw [hkept₂ x hxrest, hkept₁ x hxbelow, IdMap.getElem?_erase_eq, if_neg hxid]
    · rw [List.cons_append, evictFrom_of_alive hpid, ← hchildren, heq₁, heq₂]
      simp [hp]

/-- The identifiers of a subtree, as a removal takes them out. -/
def evictionOrder (r : Registry) (id : ParamId) : List ParamId :=
  r.snapshotOrder r.parameters.size id

/-- Whether the first members come first or the last ones, so many levels down are the same. -/
theorem snapshotOrder_perm (r : Registry) (n : Nat) (id : ParamId) :
    (r.snapshotOrder n id).Perm (r.preorder n id) := by
  induction n generalizing id with
  | zero => exact .refl _
  | succ n ih =>
    have hbelow : ((r.children id).reverse.flatMap (r.snapshotOrder n)).Perm
        ((r.children id).flatMap (r.preorder n)) :=
      ((List.reverse_perm _).flatMap_right _).trans (.flatMap_left _ fun c _ => ih c)
    exact hbelow.cons id

namespace Forest

section Order

variable (h : Forest r) (hp : r.get? id = some p)
include h hp

theorem walk_evictionOrder :
    Walk (fun g => (r.children g).reverse) [id] (r.evictionOrder id) := by
  obtain ⟨l, hl⟩ := h.rooted (home?_of_get? hp)
  exact h.walk_of_levels (fun _ _ hc => List.mem_reverse.1 hc) (fun _ _ => rfl) hl
    (Nat.le_add_left _ _)

theorem nodup_evictionOrder : (r.evictionOrder id).Nodup := by
  obtain ⟨l, hl⟩ := h.rooted (home?_of_get? hp)
  exact (r.snapshotOrder_perm _ id).nodup_iff.2 (h.nodup_preorder hl)

/-- A removal takes out the parameter and all whom its members lead to. -/
theorem mem_evictionOrder_iff (hid : id ≠ .root) : x ∈ r.evictionOrder id ↔ r.InSubtree id x := by
  obtain ⟨l, hl⟩ := h.rooted (home?_of_get? hp)
  rw [evictionOrder, (r.snapshotOrder_perm _ id).mem_iff, h.mem_preorder_iff hl,
    ← h.above_iff_inSubtree hid hp]
  constructor
  · rintro ⟨lx, hlx, hs, -⟩
    exact ⟨lx, hlx, hs.subset (hl.self_mem hid)⟩
  · rintro ⟨lx, hlx, hmem⟩
    obtain ⟨l', hl', hs⟩ := hlx.exists_of_mem hmem
    have := hlx.length_lt_size h.root
    exact ⟨lx, hlx, hl.unique hl' ▸ hs, by omega⟩

/-- Whoever the members lead to is there. -/
theorem exists_of_inSubtree (hid : id ≠ .root) (hx : r.InSubtree id x) :
    ∃ q, r.get? x = some q := by
  obtain ⟨l, hl, -⟩ := (h.above_iff_inSubtree hid hp).2 hx
  obtain ⟨g, hg⟩ := h.alive_of_lineage hl
  obtain ⟨q, hq, -⟩ := home?_eq_some_iff.1 hg
  exact ⟨q, hq⟩

/-- What is handed out are the parameters of the subtree as they were, without their watchers. -/
theorem evicted_eq (hid : id ≠ .root) :
    (r.evict id).2 = ((r.evictionOrder id).filterMap r.get?).map (·.unwatched) := by
  have hps : ∀ x ∈ r.evictionOrder id,
      ∃ q, r.get? x = some q ∧ (r.unlinked id p).parameters[x]? = some q := by
    intro x hx
    have hsub : r.InSubtree id x := (h.mem_evictionOrder_iff hp hid).1 hx
    -- the group that loses its member is not in the subtree
    have hhome : x ≠ p.home := fun heq =>
      not_above_home hid (home?_of_get? hp) ((h.above_iff_inSubtree hid hp).2 (heq ▸ hsub))
    obtain ⟨q, hq⟩ := h.exists_of_inSubtree hp hid hsub
    have hq' : (r.unlinked id p).get? x = some q := by rw [get?_unlinked, if_neg hhome, hq]
    exact ⟨q, hq, hq'⟩
  obtain ⟨ps', -, heq⟩ :=
    evictFrom_walk (h.walk_evictionOrder hp) (h.nodup_evictionOrder hp) hps [] []
  have hlist : (r.evict id).2 = (evictFrom (r.unlinked id p).parameters [] [id]).2.reverse := by
    unfold Registry.evict
    split
    · next hdead => rw [hdead] at hp; cases hp
    · next q hq => rw [hq] at hp; cases hp; rfl
  rw [hlist]
  rw [List.append_nil] at heq
  rw [heq, evictFrom, List.append_nil, List.reverse_reverse]

/-- Each is handed out under its own identifier. -/
theorem map_id_evicted (hid : id ≠ .root) :
    (r.evict id).2.map (·.id) = r.evictionOrder id := by
  rw [h.evicted_eq hp hid, List.map_map, List.map_filterMap]
  refine (List.filterMap_congr fun x hx => ?_).trans List.filterMap_some
  obtain ⟨q, hq⟩ := h.exists_of_inSubtree hp hid ((h.mem_evictionOrder_iff hp hid).1 hx)
  have hqid : q.id = x := h.keyed hq
  rw [hq, Option.map_some, Function.comp_apply, ← hqid]
  rfl

/-- Each is handed out as it was. -/
theorem mem_evicted (hid : id ≠ .root) {q : Parameter} (hq : q ∈ (r.evict id).2) :
    ∃ q', r.get? q.id = some q' ∧ q = q'.unwatched := by
  rw [h.evicted_eq hp hid] at hq
  obtain ⟨q', hq', rfl⟩ := List.mem_map.1 hq
  obtain ⟨y, -, hy⟩ := List.mem_filterMap.1 hq'
  have hyid : q'.id = y := h.keyed hy
  exact ⟨q', hyid ▸ hy, rfl⟩

/-- A group is handed out before its members. -/
theorem lt_of_evicted (hid : id ≠ .root) {i j : Nat} {q q' : Parameter}
    (hi : (r.evict id).2[i]? = some q) (hj : (r.evict id).2[j]? = some q')
    (hmem : q'.id ∈ q.children) : i < j := by
  have hids : (r.evict id).2.map (·.id) = r.evictionOrder id := h.map_id_evicted hp hid
  have hnodup : ((r.evict id).2.map (·.id)).Nodup := hids ▸ h.nodup_evictionOrder hp
  have hlists : ∀ g, ∀ c ∈ (r.children g).reverse, c ≠ .root ∧ r.home? c = some g :=
    fun g c hc => h.lists_iff.1 (mem_children_iff.1 (List.mem_reverse.1 hc))
  have hfirst : GroupsFirst r [p.home] ((r.evict id).2.map (·.id)) := by
    rw [hids]
    refine (h.walk_evictionOrder hp).groupsFirst hlists fun x hx => ?_
    rw [List.mem_singleton.1 hx]
    exact ⟨hid, _, List.mem_singleton_self _, home?_of_get? hp⟩
  have hsub : r.InSubtree id q.id := by
    rw [← h.mem_evictionOrder_iff hp hid, ← hids]
    exact List.mem_map_of_mem (List.mem_of_getElem? hi)
  have hnot : q.id ∉ [p.home] := fun hhome =>
    not_above_home hid (home?_of_get? hp)
      ((h.above_iff_inSubtree hid hp).2 (List.mem_singleton.1 hhome ▸ hsub))
  obtain ⟨q₀, hq₀, rfl⟩ := h.mem_evicted hp hid (List.mem_of_getElem? hi)
  exact h.lt_of_groupsFirst hfirst hnodup hnot hi hj ⟨q₀, hq₀, hmem⟩

end Order

end Forest

/-! ## What is left -/

/-- The subtree is gone and nothing is kept of it. All others are as they were, except that the
group of the parameter does not list it any more. -/
structure Evicts (r : Registry) (id : ParamId) (m : Registry) : Prop where
  gone : ∀ x, r.InSubtree id x → m.get? x = none ∧ x.slot ∉ m.reserved ∧ x ∉ m.dirty
  kept : ∀ x, ¬ r.InSubtree id x → m.get? x = (r.get? x).map fun q =>
    if r.home? id = some x then q.eraseChild id else q
  reserved : ∀ x, ¬ r.InSubtree id x → (x.slot ∈ m.reserved ↔ x.slot ∈ r.reserved)
  dirty : ∀ x, ¬ r.InSubtree id x → (x ∈ m.dirty ↔ x ∈ r.dirty)

theorem Forest.evicts (h : Forest r) (hid : id ≠ .root) (hp : r.get? id = some p) :
    Evicts r id (r.evict id).1 := by
  have habove : ∀ {x}, r.InSubtree id x ↔ Above r id x := (h.above_iff_inSubtree hid hp).symm
  constructor
  · intro x hx
    rw [habove] at hx
    refine ⟨h.get?_evict_of_above hid hp hx, fun hmem => ?_, fun hmem => ?_⟩
    · exact ((h.mem_reserved_evict hid hp).1 hmem).2 (by rwa [ParamId.ofSlot_slot])
    · exact ((h.mem_dirty_evict hid hp).1 hmem).2 hx
  · intro x hx
    rw [habove] at hx
    rw [h.get?_evict_of_not_above hid hp hx]
    by_cases hhome : x = p.home
    · simp [home?_of_get? hp, hhome]
    · simp [home?_of_get? hp, hhome, Ne.symm hhome]
  · intro x hx
    rw [habove] at hx
    rw [h.mem_reserved_evict hid hp, ParamId.ofSlot_slot, and_iff_left hx]
  · intro x hx
    rw [habove] at hx
    rw [h.mem_dirty_evict hid hp, and_iff_left hx]

/-- What is handed out of a removal: the subtree as it was, without its watchers, each parameter
once and every group before its members. -/
structure HandsOut (r : Registry) (id : ParamId) (evicted : List Parameter) : Prop where
  same : ∀ q ∈ evicted, ∃ p, r.get? q.id = some p ∧ q = p.unwatched
  once : (evicted.map (·.id)).Nodup
  all : ∀ x, x ∈ evicted.map (·.id) ↔ r.InSubtree id x
  head : (evicted.map (·.id)).head? = some id
  ordered : Walk (fun g => (r.children g).reverse) [id] (evicted.map (·.id))
  groupsFirst : ∀ (i j : Nat) (q q' : Parameter), evicted[i]? = some q → evicted[j]? = some q' →
    q'.id ∈ q.children → i < j

theorem Forest.handsOut (h : Forest r) (hid : id ≠ .root) (hp : r.get? id = some p) :
    HandsOut r id (r.evict id).2 where
  same _ hq := h.mem_evicted hp hid hq
  once := h.map_id_evicted hp hid ▸ h.nodup_evictionOrder hp
  all _ := h.map_id_evicted hp hid ▸ h.mem_evictionOrder_iff hp hid
  head := by
    rw [h.map_id_evicted hp hid, evictionOrder]
    cases r.parameters.size <;> rfl
  ordered := h.map_id_evicted hp hid ▸ h.walk_evictionOrder hp
  groupsFirst _ _ _ _ hi hj hmem := h.lt_of_evicted hp hid hi hj hmem

/-! ## A removal that has not been told -/

/-- All but the two operations that drop the removals: telling them, and forgetting everything. -/
def Op.KeepsRemovals : Op → Prop
  | encodeRemoved => False
  | clear => False
  | _ => True

theorem mem_removed_perform {op : Op} (hop : op.KeepsRemovals) (hx : x ∈ r.removed) :
    x ∈ (r.perform op).removed := by
  have hcreate : ∀ definition group,
      x ∈ (r.orSame (·.2) (r.create definition group)).removed := by
    refine fun definition group => of_orSame (P := (x ∈ ·.removed)) hx ?_
    rintro ⟨made, m⟩ hok
    obtain ⟨target, -, -, rfl⟩ := create_ok hok
    rwa [removed_attach]
  cases op with
  | create definition group => exact hcreate definition group
  | createGroup group => exact hcreate .group group
  | edit id accesses => rwa [removed_edit]
  | setDirty id => rwa [perform, removed_setDirty]
  | move id group =>
    refine of_orSame (P := (x ∈ ·.removed)) hx fun m hok => ?_
    obtain ⟨-, -, -, ⟨-, rfl⟩ | ⟨m', hm', rfl⟩⟩ := move_ok hok
    · exact hx
    · rwa [removed_setDirty, (Notes.relink hm').removed]
  | remove id =>
    refine of_orSame (P := (x ∈ ·.removed)) hx ?_
    rintro ⟨found, m⟩ hok
    obtain ⟨-, ⟨-, -, rfl⟩ | ⟨-, -, -, rfl⟩⟩ := remove_ok hok
    · exact IdSet.mem_insert_iff.2 (.inr hx)
    · exact hx
  | removeDirect id => rwa [removed_removeDirect]
  | merge incoming => rwa [(r.backlog_merge incoming).2]
  | applyValue u =>
    refine of_orSame (P := (x ∈ ·.removed)) hx ?_
    rintro ⟨applied, m, notices⟩ hok
    obtain ⟨-, -, -, -, -, rfl⟩ := applyValue_ok hok
    exact hx
  | encodeDirty => exact hx
  | encodeAll => rwa [perform_encodeAll]
  | encodeRemoved => exact hop.elim
  | clear => exact hop.elim

/-- Whoever waits for its removal to be told comes back by a merge or not at all. -/
theorem gone_perform {op : Op} (hx : x ∈ r.removed) (hroot : x ≠ .root) (hdead : r.get? x = none)
    (hop : ∀ p, op = .merge p → p.id ≠ x) : (r.perform op).get? x = none := by
  obtain hn | ⟨y, hy, he⟩ | ⟨y, ht⟩ := r.effect_perform op
  · exact hn.gone x hroot hdead
  · refine he.gone x ?_ hroot hdead
    rintro rfl
    rcases hy with hfree | ⟨p, hmerge, hpid⟩
    · exact hfree hx
    · exact hop p hmerge hpid
  · exact ht.gone x (.inr hdead)

theorem mem_removed_performAll {ops : List Op} (hops : ∀ op ∈ ops, op.KeepsRemovals)
    (hx : x ∈ r.removed) : x ∈ (r.performAll ops).removed := by
  induction ops generalizing r with
  | nil => exact hx
  | cons op ops ih =>
    obtain ⟨hop, hops⟩ := List.forall_mem_cons.1 hops
    exact ih hops (mem_removed_perform hop hx)

theorem gone_performAll {ops : List Op} (hops : ∀ op ∈ ops, op.KeepsRemovals)
    (hmerge : ∀ p, .merge p ∈ ops → p.id ≠ x) (hx : x ∈ r.removed) (hroot : x ≠ .root)
    (hdead : r.get? x = none) : (r.performAll ops).get? x = none := by
  induction ops generalizing r with
  | nil => exact hdead
  | cons op ops ih =>
    obtain ⟨hop, hops⟩ := List.forall_mem_cons.1 hops
    refine ih hops (fun p hp => hmerge p (List.mem_cons_of_mem _ hp)) (mem_removed_perform hop hx)
      (gone_perform hx hroot hdead ?_)
    rintro p rfl
    exact hmerge p List.mem_cons_self

/-- While a removal has not been told, another one finds that out, unless there is somebody to
remove. -/
theorem remove_again_iff (hroot : id ≠ .root) (hremoved : id ∈ r.removed) :
    r.remove id = .ok (false, r) ↔ r.contains id = false := by
  rw [remove, if_neg (by simpa using hroot), contains, ParamId.isRoot_eq_false_iff.2 hroot,
    Bool.not_false, Bool.true_and]
  cases hp : r.parameters.contains id with
  | false => simp [Std.ExtTreeSet.contains_iff_mem.2 hremoved]
  | true => simp

/-- Until a removal is told or everything is forgotten, another one only finds that it was made,
unless the parameter is there again; and only a peer can bring it back. -/
theorem remove_again {ops : List Op} (hops : ∀ op ∈ ops, op.KeepsRemovals) (hroot : id ≠ .root)
    (hremoved : id ∈ r.removed) (hdead : r.get? id = none) :
    ((r.performAll ops).remove id = .ok (false, r.performAll ops) ↔
      (r.performAll ops).contains id = false) ∧
    ((∀ p, .merge p ∈ ops → p.id ≠ id) → (r.performAll ops).contains id = false) := by
  refine ⟨remove_again_iff hroot (mem_removed_performAll hops hremoved), fun hmerge => ?_⟩
  rw [contains, contains_eq_isSome, gone_performAll hops hmerge hremoved hroot hdead,
    Option.isSome_none, Bool.and_false]

/-! ## Removals -/

/-- Either removal of a living parameter takes out its subtree and nothing else. One is to be told,
the other hands out what it has taken. Until the first is told or everything is forgotten, another
one only finds that it was made, unless the parameter is there again; and only a peer can bring it
back. -/
theorem Reachable.removal_exact (hr : Reachable (fun _ op => op.Childless) r)
    (hid : r.contains id = true) :
    (∃ m, r.remove id = .ok (true, m) ∧ Evicts r id m ∧ m.removed = r.removed.insert id ∧
      ∀ ops, (∀ op ∈ ops, op.KeepsRemovals) →
        ((m.performAll ops).remove id = .ok (false, m.performAll ops) ↔
          (m.performAll ops).contains id = false) ∧
        ((∀ p, .merge p ∈ ops → p.id ≠ id) → (m.performAll ops).contains id = false)) ∧
    ∃ m evicted, r.removeDirect id = (m, evicted) ∧ Evicts r id m ∧ m.removed = r.removed ∧
      HandsOut r id evicted := by
  have h : Forest r := hr.forest fun _ _ hop => hop
  obtain ⟨hroot, p, hp⟩ := contains_eq_true_iff.1 hid
  have hdirect : r.removeDirect id = r.evict id := by
    rw [removeDirect, if_neg (by simpa using hroot)]
  have hevicts : Evicts r id (r.evict id).1 := h.evicts hroot hp
  constructor
  · refine ⟨_, remove_of_alive hroot hp,
      ⟨hevicts.gone, hevicts.kept, hevicts.reserved, hevicts.dirty⟩, rfl,
      fun ops hops => remove_again hops hroot ?_ ?_⟩
    · exact IdSet.mem_insert_iff.2 (.inl rfl)
    · exact (hevicts.gone id .refl).1
  · exact ⟨_, _, hdirect, hevicts, r.removed_evict id, h.handsOut hroot hp⟩

/-- A group with a group that has a flag, and a flag of its own; and a flag beside it. -/
def shelfRun : List Op :=
  [.createGroup none, .create (.boolean {}) (some ⟨1⟩), .createGroup (some ⟨1⟩),
    .create (.boolean {}) (some ⟨3⟩), .create (.boolean {}) none]

/-- The last members of the group are handed out first, with what is below them. -/
theorem removal_exact_shelf :
    ∃ m evicted, (new.performAll shelfRun).removeDirect ⟨1⟩ = (m, evicted) ∧
      evicted.map (·.id) = [⟨1⟩, ⟨3⟩, ⟨4⟩, ⟨2⟩] ∧ m.get? ⟨4⟩ = none :=
  have hr : Reachable (fun _ op => op.Childless) (new.performAll shelfRun) :=
    Reachable.performAll .new (by simp [shelfRun, Op.Childless])
  have hid : (new.performAll shelfRun).contains ⟨1⟩ = true := rfl
  have ⟨_, evicted, heq, evicts, _, hands⟩ := (Reachable.removal_exact hr hid).2
  have horder : evicted.map (·.id) = (new.performAll shelfRun).evictionOrder ⟨1⟩ :=
    hands.ordered.unique ((hr.forest fun _ _ hop => hop).walk_evictionOrder rfl)
  have hids : evicted.map (·.id) = [⟨1⟩, ⟨3⟩, ⟨4⟩, ⟨2⟩] := horder
  ⟨_, evicted, heq, hids, (evicts.gone ⟨4⟩ ((hands.all ⟨4⟩).1 (by simp [hids]))).1⟩

/-- Who forgets everything does not know of the first removal any more. -/
theorem forgotten_by_clear :
    let first := new.performAll [.create (.boolean {}) none]
    let second := first.performAll [.remove ⟨1⟩, .clear]
    (∃ m, first.remove ⟨1⟩ = .ok (true, m)) ∧ second.contains ⟨1⟩ = false ∧
      second.remove ⟨1⟩ = .error (.notFound ⟨1⟩) :=
  ⟨⟨_, rfl⟩, rfl, rfl⟩

end Registry
end ParamSync
