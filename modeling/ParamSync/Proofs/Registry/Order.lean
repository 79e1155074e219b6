import ParamSync.Proofs.Registry.Forest
import ParamSync.Registry.Sync

/-!
# The order of a dump

A dump goes down from the root, each group before its members. Who is met so many levels below a
parameter has a way up that goes by the parameter and has so many more stations, and there is one
way up only: so nobody is met twice, however far the walk goes. As no way up has more stations than
there are parameters, a dump goes down far enough to meet everybody.

Results:
* `Walk.unique`: what comes in which order on a walk down is settled by the members alone.
* `Forest.mem_preorder_iff`, `Forest.nodup_preorder`: who is met on the way down, and that it is met
  once.
* `Forest.walk_depthFirst`: a dump is a walk.
* `Forest.mem_depthFirst_iff`, `Forest.nodup_depthFirst`: everybody but the root comes, once.
* `Forest.groupsFirst_depthFirst`: everybody comes after its group.
-/

namespace ParamSync
namespace Registry

variable {r : Registry} {id x : ParamId} {l : List ParamId}

theorem mem_children_iff {g c : ParamId} : c ∈ r.children g ↔ r.Lists g c := by
  unfold children Lists
  cases r.get? g with
  | none => simp
  | some p => simp [Parameter.childList, Std.ExtTreeSet.mem_toList]

theorem nodup_children (r : Registry) (g : ParamId) : (r.children g).Nodup := by
  unfold children
  cases r.get? g with
  | none => exact List.nodup_nil
  | some p => exact nodup_toList p.children

theorem depthFirst_eq_flatMap (r : Registry) :
    r.depthFirst = (r.children .root).flatMap (r.preorder r.parameters.size) := by
  unfold depthFirst
  induction r.children .root with
  | nil => rfl
  | cons c cs ih => rw [List.foldr_cons, ih, visit_eq_append, List.flatMap_cons]

/-- A dump is what is below the root, down to a level that nobody is below. -/
theorem preorder_root (r : Registry) :
    r.preorder (r.parameters.size + 1) .root = .root :: r.depthFirst := by
  rw [preorder, depthFirst_eq_flatMap]

/-- A list in which nobody comes before its group, where some have come already. -/
def GroupsFirst (r : Registry) : List ParamId → List ParamId → Prop
  | _, [] => True
  | seen, id :: ids =>
    id ≠ .root ∧ (∃ g ∈ seen, r.home? id = some g) ∧ GroupsFirst r (id :: seen) ids

theorem GroupsFirst.mono {seen more ids : List ParamId} (h : GroupsFirst r seen ids)
    (hle : seen ⊆ more) : GroupsFirst r more ids := by
  induction ids generalizing seen more with
  | nil => trivial
  | cons id ids ih =>
    obtain ⟨hid, ⟨g, hg, hhome⟩, hrest⟩ := h
    exact ⟨hid, ⟨g, hle hg, hhome⟩, ih hrest (List.cons_subset_cons id hle)⟩

theorem GroupsFirst.append {seen ids ids' : List ParamId} (h : GroupsFirst r seen ids)
    (h' : GroupsFirst r (ids.reverse ++ seen) ids') : GroupsFirst r seen (ids ++ ids') := by
  induction ids generalizing seen with
  | nil => exact h'
  | cons id ids ih =>
    obtain ⟨hid, hhome, hrest⟩ := h
    refine ⟨hid, hhome, ih hrest ?_⟩
    rwa [List.reverse_cons, List.append_assoc] at h'

/-! ## Walks -/

/-- A walk down meets those of a list, one after the other, and after each of them all that is below
it, in the same way. The members of a group come in the order in which `members` has them. -/
inductive Walk (members : ParamId → List ParamId) : List ParamId → List ParamId → Prop
  | nil : Walk members [] []
  | cons {id : ParamId} {siblings below rest : List ParamId}
      (hbelow : Walk members (members id) below) (hrest : Walk members siblings rest) :
      Walk members (id :: siblings) (id :: (below ++ rest))

namespace Walk

variable {members : ParamId → List ParamId} {ids ids' order order' : List ParamId}

/-- There is one way to walk. -/
theorem unique (h : Walk members ids order) (h' : Walk members ids order') : order = order' := by
  induction h generalizing order' with
  | nil => cases h'; rfl
  | cons _ _ ihbelow ihrest =>
    cases h' with
    | cons hbelow' hrest' => rw [ihbelow hbelow', ihrest hrest']

theorem append (h : Walk members ids order) (h' : Walk members ids' order') :
    Walk members (ids ++ ids') (order ++ order') := by
  induction h with
  | nil => exact h'
  | cons hbelow _ _ ihrest =>
    rw [List.cons_append, List.cons_append, List.append_assoc]
    exact .cons hbelow ihrest

theorem flatMap {f : ParamId → List ParamId} (h : ∀ id ∈ ids, Walk members [id] (f id)) :
    Walk members ids (ids.flatMap f) := by
  induction ids with
  | nil => exact .nil
  | cons id ids ih =>
    obtain ⟨hid, hids⟩ := List.forall_mem_cons.1 h
    exact hid.append (ih hids)

/-- A walk that goes to members only, from those whose groups have come, comes to every group before
its members. -/
theorem groupsFirst (h : Walk members ids order) {seen : List ParamId}
    (hmembers : ∀ g, ∀ c ∈ members g, c ≠ .root ∧ r.home? c = some g)
    (hids : ∀ id ∈ ids, id ≠ .root ∧ ∃ g ∈ seen, r.home? id = some g) :
    GroupsFirst r seen order := by
  induction h generalizing seen with
  | nil => trivial
  | @cons id _ _ _ _ _ ihbelow ihrest =>
    obtain ⟨⟨hid, hhome⟩, hsiblings⟩ := List.forall_mem_cons.1 hids
    have hbelow : GroupsFirst r (id :: seen) _ := ihbelow fun c hc =>
      ⟨(hmembers id c hc).1, id, List.mem_cons_self, (hmembers id c hc).2⟩
    refine ⟨hid, hhome, hbelow.append ((ihrest hsiblings).mono ?_)⟩
    exact List.Subset.trans (List.subset_cons_self _ _) (List.subset_append_right _ _)

end Walk

/-! ## Ways up that go by a parameter -/

/-- A list that is the end of a longer one is so with what stands before it. -/
theorem exists_cons_suffix {α : Type} {l l' : List α} (h : l <:+ l') (hne : l ≠ l') :
    ∃ a, a :: l <:+ l' := by
  obtain ⟨front, rfl⟩ := h
  obtain rfl | ⟨rest, a, rfl⟩ := front.eq_nil_or_concat
  · exact absurd rfl hne
  · exact ⟨a, rest, by simp⟩

namespace Lineage

/-- The way up tells from where it starts. -/
theorem injective (h : Lineage r id l) (h' : Lineage r x l) : id = x := by
  cases h with
  | root => exact (h'.eq_nil_iff.1 rfl).symm
  | member _ _ _ => cases h' with | member _ _ _ => rfl

/-- A way up that goes by a parameter comes there from one of its members. -/
theorem home?_of_suffix {c : ParamId} {lx : List ParamId} (hlx : Lineage r x lx)
    (hl : Lineage r id l) (hs : c :: l <:+ lx) : c ≠ .root ∧ r.home? c = some id := by
  induction hlx with
  | root => exact absurd (List.suffix_nil.1 hs) (List.cons_ne_nil c l)
  | member hid hg hlg ih =>
    rcases List.suffix_cons_iff.1 hs with heq | hs
    · cases heq
      exact ⟨hid, hlg.injective hl ▸ hg⟩
    · exact ih hs

end Lineage

namespace Forest

theorem alive_of_lineage (h : Forest r) (hl : Lineage r id l) : ∃ g, r.home? id = some g := by
  cases hl with
  | root => exact ⟨_, h.root⟩
  | member _ hg _ => exact ⟨_, hg⟩

/-- The way up from a member goes by its group. -/
theorem lineage_of_mem_children (h : Forest r) {c : ParamId} (hc : c ∈ r.children id)
    (hl : Lineage r id l) : Lineage r c (c :: l) := by
  obtain ⟨hroot, hhome⟩ := h.lists_iff.1 (mem_children_iff.1 hc)
  exact .member hroot hhome hl

section Preorder

variable (h : Forest r)
include h

/-- A parameter is met so many levels down if its way up goes by where the walk starts, and has no
more stations before that. -/
theorem mem_preorder_iff {n : Nat} (hl : Lineage r id l) :
    x ∈ r.preorder n id ↔ ∃ lx, Lineage r x lx ∧ l <:+ lx ∧ lx.length ≤ l.length + n := by
  induction n generalizing id l with
  | zero =>
    rw [preorder, List.mem_singleton]
    constructor
    · rintro rfl
      exact ⟨l, hl, List.suffix_refl l, Nat.le_refl _⟩
    · rintro ⟨lx, hlx, hs, hle⟩
      exact (hl.injective (hs.eq_of_length_le hle ▸ hlx)).symm
  | succ n ih =>
    have hchild : ∀ c ∈ r.children id, x ∈ r.preorder n c ↔
        ∃ lx, Lineage r x lx ∧ c :: l <:+ lx ∧ lx.length ≤ l.length + (n + 1) := by
      intro c hc
      rw [ih (h.lineage_of_mem_children hc hl), List.length_cons, Nat.add_right_comm, Nat.add_assoc]
    rw [preorder, List.mem_cons, List.mem_flatMap]
    constructor
    · rintro (rfl | ⟨c, hc, hx⟩)
      · exact ⟨l, hl, List.suffix_refl l, Nat.le_add_right _ _⟩
      · obtain ⟨lx, hlx, hs, hle⟩ := (hchild c hc).1 hx
        exact ⟨lx, hlx, (List.suffix_cons c l).trans hs, hle⟩
    · rintro ⟨lx, hlx, hs, hle⟩
      by_cases hx : x = id
      · exact .inl hx
      · obtain ⟨c, hs⟩ := exists_cons_suffix hs fun heq => hx (hlx.injective (heq ▸ hl))
        obtain ⟨hroot, hhome⟩ := hlx.home?_of_suffix hl hs
        have hc : c ∈ r.children id := mem_children_iff.2 (h.lists_iff.2 ⟨hroot, hhome⟩)
        exact .inr ⟨c, hc, (hchild c hc).2 ⟨lx, hlx, hs, hle⟩⟩

/-- Nobody is met twice. -/
theorem nodup_preorder {n : Nat} (hl : Lineage r id l) : (r.preorder n id).Nodup := by
  induction n generalizing id l with
  | zero => exact List.nodup_singleton id
  | succ n ih =>
    have hbelow : ∀ {c x}, c ∈ r.children id → x ∈ r.preorder n c →
        ∃ lx, Lineage r x lx ∧ c :: l <:+ lx := by
      intro c x hc hx
      obtain ⟨lx, hlx, hs, -⟩ := (h.mem_preorder_iff (h.lineage_of_mem_children hc hl)).1 hx
      exact ⟨lx, hlx, hs⟩
    refine List.nodup_cons.2 ⟨fun hmem => ?_, List.nodup_flatMap.2
      ⟨fun c hc => ih (h.lineage_of_mem_children hc hl), ?_⟩⟩
    · obtain ⟨c, hc, hid⟩ := List.mem_flatMap.1 hmem
      obtain ⟨lx, hlx, hs⟩ := hbelow hc hid
      have := hs.length_le
      rw [hlx.unique hl, List.length_cons] at this
      omega
    · refine (r.nodup_children id).imp_of_mem fun {c c'} hc hc' hne x hx hx' => hne ?_
      -- the way up of who is below both goes by the one and by the other, at the same place
      obtain ⟨lx, hlx, hs⟩ := hbelow hc hx
      obtain ⟨lx', hlx', hs'⟩ := hbelow hc' hx'
      obtain rfl := hlx.unique hlx'
      exact (List.cons.inj ((List.suffix_of_suffix_length_le hs hs' (by simp)).eq_of_length
        (by simp))).1

/-- A recursion that goes down one level after the other walks, if it starts on so many levels that
nobody is below the last of them. -/
theorem walk_of_levels {members : ParamId → List ParamId} {walk : Nat → ParamId → List ParamId}
    (hmembers : ∀ g, ∀ c ∈ members g, c ∈ r.children g)
    (hwalk : ∀ n id, walk (n + 1) id = id :: (members id).flatMap (walk n)) {n : Nat}
    (hl : Lineage r id l) (hn : r.parameters.size ≤ l.length + n) :
    Walk members [id] (walk n id) := by
  induction n generalizing id l with
  | zero =>
    have := hl.length_lt_size h.root
    omega
  | succ n ih =>
    have hbelow : Walk members (members id) ((members id).flatMap (walk n)) := by
      refine .flatMap fun c hc => ih (h.lineage_of_mem_children (hmembers id c hc) hl) ?_
      rw [List.length_cons]
      omega
    rw [hwalk]
    simpa using Walk.cons hbelow .nil

/-- Everybody but the root is in a dump. -/
theorem mem_depthFirst_iff : x ∈ r.depthFirst ↔ x ≠ .root ∧ ∃ g, r.home? x = some g := by
  have hroot : .root ∉ r.depthFirst :=
    (List.nodup_cons.1 (r.preorder_root ▸ h.nodup_preorder .root)).1
  have hmem : x = .root ∨ x ∈ r.depthFirst ↔ ∃ g, r.home? x = some g := by
    rw [← List.mem_cons, ← preorder_root, h.mem_preorder_iff .root]
    constructor
    · rintro ⟨lx, hlx, -⟩
      exact h.alive_of_lineage hlx
    · rintro ⟨g, hg⟩
      obtain ⟨lx, hlx⟩ := h.rooted hg
      have := hlx.length_lt_size h.root
      exact ⟨lx, hlx, List.nil_suffix, by omega⟩
  constructor
  · intro hx
    exact ⟨fun heq => hroot (heq ▸ hx), hmem.1 (.inr hx)⟩
  · rintro ⟨hx, halive⟩
    exact (hmem.2 halive).resolve_left hx

/-- Nobody is in a dump twice. -/
theorem nodup_depthFirst : r.depthFirst.Nodup :=
  (List.nodup_cons.1 (r.preorder_root ▸ h.nodup_preorder .root)).2

/-- A dump walks down from the members of the root. -/
theorem walk_depthFirst : Walk r.children (r.children .root) r.depthFirst := by
  rw [depthFirst_eq_flatMap]
  refine .flatMap fun c hc => ?_
  exact h.walk_of_levels (fun _ _ hc => hc) (fun _ _ => rfl) (h.lineage_of_mem_children hc .root)
    (Nat.le_add_left _ _)

/-- Everybody in a dump comes after its group. -/
theorem groupsFirst_depthFirst : GroupsFirst r [.root] r.depthFirst := by
  have hmembers : ∀ g, ∀ c ∈ r.children g, c ≠ .root ∧ r.home? c = some g := fun g c hc =>
    h.lists_iff.1 (mem_children_iff.1 hc)
  refine h.walk_depthFirst.groupsFirst hmembers fun c hc => ?_
  obtain ⟨hroot, hhome⟩ := hmembers _ c hc
  exact ⟨hroot, _, List.mem_singleton_self _, hhome⟩

end Preorder
end Forest
end Registry
end ParamSync
