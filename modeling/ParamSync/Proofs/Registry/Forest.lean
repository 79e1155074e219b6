import Mathlib.Data.List.Nodup
import Mathlib.Data.List.Perm.Subperm
import ParamSync.Proofs.Registry.Links

/-!
# The tree is a tree

The tree is kept twice: a parameter names its group (`home?`), and a group lists its members
(`Lists`). `Forest` says that the two agree, and that every way up ends at the root. The ways up
are `Lineage`s: the stations from a parameter to the root, which is not one of them. A lineage
visits nobody twice, so it is no longer than there are parameters, and who asks for the way up
with so many steps gets the whole of it.

Results:
* `Lineage.nodup`, `Lineage.length_lt_size`: nobody is above itself.
* `Forest.isWithin_iff`: the bounded search for an ancestor finds exactly the ancestors.
* `Forest.attach`, `Forest.relink`: what enters or moves a parameter keeps the tree a tree.
-/

namespace ParamSync
namespace Registry

variable {r r' : Registry}

/-! ## The two sides -/

/-- The group that a living parameter is in. -/
def home? (r : Registry) (id : ParamId) : Option ParamId := (r.get? id).map Parameter.home

/-- The group has the other among its members. -/
def Lists (r : Registry) (g c : ParamId) : Prop := ∃ p, r.get? g = some p ∧ c ∈ p.children

/-- Every parameter is registered under its own identifier. -/
def Keyed (r : Registry) : Prop := ∀ ⦃id p⦄, r.get? id = some p → p.id = id

theorem Keyed.modify (h : r.Keyed) {f : Parameter → Parameter} (hf : ∀ p, (f p).id = p.id)
    {id : ParamId} : (r.modify id f).Keyed := by
  intro x q hq
  rw [get?_modify] at hq
  split at hq
  · obtain ⟨q', hq', rfl⟩ := Option.map_eq_some_iff.1 hq
    rw [hf, h hq']
  · exact h hq

theorem home?_eq_some_iff {id g : ParamId} :
    r.home? id = some g ↔ ∃ p, r.get? id = some p ∧ p.home = g := Option.map_eq_some_iff

theorem home?_of_get? {id : ParamId} {p : Parameter} (hp : r.get? id = some p) :
    r.home? id = some p.home := by rw [home?, hp, Option.map_some]

theorem home?_eq_none_iff {id : ParamId} : r.home? id = none ↔ r.get? id = none :=
  Option.map_eq_none_iff

/-- A change that keeps the group of a parameter. -/
theorem home?_modify {f : Parameter → Parameter} (hf : ∀ p, (f p).home = p.home) {id x : ParamId} :
    (r.modify id f).home? x = r.home? x := by
  rw [home?, get?_modify]
  split
  · rw [Option.map_map]
    exact congrArg (Option.map · _) (funext hf)
  · rfl

theorem SameLinks.home?_eq (h : SameLinks r r') (id : ParamId) : r'.home? id = r.home? id := by
  have hx := congrArg (Option.map (·.2.1)) (h id)
  rwa [Option.map_map, Option.map_map] at hx

theorem SameLinks.lists (h : SameLinks r r') {g c : ParamId} (hl : r.Lists g c) :
    r'.Lists g c := by
  obtain ⟨p, hp, hc⟩ := hl
  obtain ⟨p', hp', heq⟩ := h.exists_get? hp
  have hchildren : p'.children = p.children := congrArg (·.2.2) heq
  exact ⟨p', hp', hchildren ▸ hc⟩

/-! ## Ways up -/

/-- The stations of the way up from a parameter, itself the first, the root left out. -/
inductive Lineage (r : Registry) : ParamId → List ParamId → Prop
  | root : Lineage r .root []
  | member {id g : ParamId} {l : List ParamId} (hid : id ≠ .root) (hg : r.home? id = some g)
      (hl : Lineage r g l) : Lineage r id (id :: l)

/-- The parameter is above the other, or is the other. -/
def Above (r : Registry) (ancestor id : ParamId) : Prop := ∃ l, Lineage r id l ∧ ancestor ∈ l

namespace Lineage

variable {id x : ParamId} {l l' : List ParamId}

theorem unique (h : Lineage r id l) (h' : Lineage r id l') : l = l' := by
  induction h generalizing l' with
  | root =>
    cases h' with
    | root => rfl
    | member hid _ _ => exact absurd rfl hid
  | member hid hg _ ih =>
    cases h' with
    | root => exact absurd rfl hid
    | member _ hg' hl' =>
      rw [hg] at hg'
      cases hg'
      rw [ih hl']

theorem eq_nil_iff (h : Lineage r id l) : l = [] ↔ id = .root := by
  cases h with
  | root => simp
  | member hid _ _ => simp [hid]

/-- The first station is the parameter itself. -/
theorem self_mem (h : Lineage r id l) (hid : id ≠ .root) : id ∈ l := by
  cases h with
  | root => exact absurd rfl hid
  | member _ _ _ => exact List.mem_cons_self

/-- From each station on, the rest of the way is the way up from there. -/
theorem exists_of_mem (h : Lineage r id l) (hx : x ∈ l) :
    ∃ l', Lineage r x l' ∧ l' <:+ l := by
  induction h with
  | root => simp at hx
  | member hid hg hl ih =>
    rcases List.mem_cons.1 hx with rfl | hx
    · exact ⟨_, .member hid hg hl, List.suffix_refl _⟩
    · obtain ⟨l', hl', hs⟩ := ih hx
      exact ⟨l', hl', hs.trans (List.suffix_cons _ _)⟩

theorem alive_of_mem (h : Lineage r id l) (hx : x ∈ l) :
    x ≠ .root ∧ ∃ g, r.home? x = some g := by
  induction h with
  | root => simp at hx
  | member hid hg _ ih =>
    rcases List.mem_cons.1 hx with rfl | hx
    · exact ⟨hid, _, hg⟩
    · exact ih hx

/-- Nobody is above itself. -/
theorem nodup (h : Lineage r id l) : l.Nodup := by
  induction h with
  | root => exact List.nodup_nil
  | member hid hg hl ih =>
    refine List.nodup_cons.2 ⟨fun hmem => ?_, ih⟩
    -- the way up from a station is shorter than the way up from below it
    obtain ⟨l', hl', hs⟩ := hl.exists_of_mem hmem
    have := hl'.unique (.member hid hg hl)
    subst this
    have := hs.length_le
    rw [List.length_cons] at this
    omega

/-- No way up has more stations than there are parameters, the root apart. -/
theorem length_lt_size (h : Lineage r id l) (hroot : r.home? .root = some .root) :
    l.length < r.parameters.size := by
  have hnodup : (ParamId.root :: l).Nodup :=
    List.nodup_cons.2 ⟨fun hmem => (h.alive_of_mem hmem).1 rfl, h.nodup⟩
  have hsub : ParamId.root :: l ⊆ r.parameters.keys := by
    intro x hx
    have halive : ∃ g, r.home? x = some g := by
      rcases List.mem_cons.1 hx with rfl | hx
      · exact ⟨_, hroot⟩
      · exact (h.alive_of_mem hx).2
    obtain ⟨g, hg⟩ := halive
    obtain ⟨p, hp, -⟩ := home?_eq_some_iff.1 hg
    exact mem_keys_of_get? hp
  have := (hnodup.subperm hsub).length_le
  rw [Std.ExtTreeMap.length_keys, List.length_cons] at this
  omega

/-- A way up stays what it is where its stations stay in their groups. -/
theorem congr (h : Lineage r id l) (hsame : ∀ x ∈ l, r'.home? x = r.home? x) :
    Lineage r' id l := by
  induction h with
  | root => exact .root
  | @member id g l hid hg hl ih =>
    exact .member hid ((hsame id List.mem_cons_self).trans hg)
      (ih fun x hx => hsame x (List.mem_cons_of_mem _ hx))

/-- A parameter that is moved below somebody who is not below it is still on a way up, and so is
everybody below it. -/
theorem exists_of_moved (h : Lineage r id l) {moved new : ParamId}
    (hnew : r'.home? moved = some new)
    (hsame : ∀ x, x ≠ moved → r'.home? x = r.home? x)
    {ln : List ParamId} (hln : Lineage r new ln) (hnot : moved ∉ ln) :
    ∃ l', Lineage r' id l' := by
  induction h with
  | root => exact ⟨[], .root⟩
  | @member id g l hid hg _ ih =>
    by_cases hx : id = moved
    · subst hx
      exact ⟨_, .member hid hnew (hln.congr fun x hx => hsame x fun heq => hnot (heq ▸ hx))⟩
    · obtain ⟨l', hl'⟩ := ih
      exact ⟨_, .member hid ((hsame id hx).trans hg) hl'⟩

end Lineage

theorem Above.trans {a b id : ParamId} (h : Above r a b) (h' : Above r b id) : Above r a id := by
  obtain ⟨l, hl, ha⟩ := h
  obtain ⟨l', hl', hb⟩ := h'
  obtain ⟨m, hm, hs⟩ := hl'.exists_of_mem hb
  exact ⟨l', hl', hs.subset (hl.unique hm ▸ ha)⟩

theorem not_above_root {a : ParamId} : ¬ Above r a .root := by
  rintro ⟨l, hl, ha⟩
  rw [hl.eq_nil_iff.2 rfl] at ha
  cases ha

/-! ## The invariant -/

/-- Groups and members agree on who is where, and every way up ends at the root. -/
structure Forest (r : Registry) : Prop where
  keyed : r.Keyed
  /-- The root is always alive, and in no group. -/
  root : r.home? .root = some .root
  lists_iff : ∀ {g c}, r.Lists g c ↔ c ≠ .root ∧ r.home? c = some g
  rooted : ∀ {id g}, r.home? id = some g → ∃ l, Lineage r id l

namespace Forest

/-- The group that a parameter is in is alive. -/
theorem home_alive (h : Forest r) {id g : ParamId} (hg : r.home? id = some g) :
    ∃ g', r.home? g = some g' := by
  by_cases hid : id = .root
  · subst hid
    rw [h.root] at hg
    cases hg
    exact ⟨_, h.root⟩
  · obtain ⟨p, hp, -⟩ := h.lists_iff.2 ⟨hid, hg⟩
    exact ⟨_, home?_of_get? hp⟩

/-- The tree is made of links, so the same links make the same tree. -/
theorem of_sameLinks (h : Forest r) (hs : SameLinks r r') : Forest r' where
  keyed := by
    intro id p hp
    obtain ⟨p', hp', hl⟩ := hs.symm.exists_get? hp
    have hid : p'.id = p.id := congrArg (·.1) hl
    exact hid.symm.trans (h.keyed hp')
  root := (hs.home?_eq _).trans h.root
  lists_iff := by
    intro g c
    rw [hs.home?_eq, ← h.lists_iff]
    exact ⟨hs.symm.lists, hs.lists⟩
  rooted := by
    intro id g hg
    obtain ⟨l, hl⟩ := h.rooted ((hs.home?_eq id).symm.trans hg)
    exact ⟨l, hl.congr fun x _ => hs.home?_eq x⟩

/-! ## Asking for the way up -/

theorem group?_root (h : Forest r) : r.group? .root = none := by
  obtain ⟨p, hp, hroot⟩ := home?_eq_some_iff.1 h.root
  rw [group?, hp, Option.bind_some, Parameter.home_eq_root_iff.1 hroot]

/-- So many steps as there are stations show whether somebody is among them. -/
theorem isWithinSteps_eq (h : Forest r) {ancestor id : ParamId} (hne : ancestor ≠ .root)
    {l : List ParamId} (hl : Lineage r id l) {n : Nat} (hn : l.length ≤ n) :
    r.isWithinSteps ancestor n id = decide (ancestor ∈ l) := by
  induction hl generalizing n with
  | root =>
    cases n with
    | zero => rfl
    | succ n => simp [isWithinSteps, h.group?_root, Ne.symm hne]
  | @member id g l hid hg hl ih =>
    cases n with
    | zero => simp at hn
    | succ n =>
      obtain ⟨p, hp, rfl⟩ := home?_eq_some_iff.1 hg
      have hgroup : r.group? id = p.group? := by rw [group?, hp, Option.bind_some]
      have hrest : (r.group? id).any (r.isWithinSteps ancestor n) = decide (ancestor ∈ l) := by
        by_cases hroot : p.home = .root
        · rw [hgroup, Parameter.home_eq_root_iff.1 hroot, hl.eq_nil_iff.2 hroot]
          simp
        · rw [hgroup, Parameter.group?_eq_some_home hroot, Option.any_some]
          exact ih (by rw [List.length_cons] at hn; omega)
      rw [isWithinSteps, hrest]
      by_cases hx : id = ancestor
      · simp [hx]
      · simp [hx, Ne.symm hx]

theorem isWithin_eq (h : Forest r) {ancestor id : ParamId} (hne : ancestor ≠ .root)
    {l : List ParamId} (hl : Lineage r id l) : r.isWithin id ancestor = decide (ancestor ∈ l) := by
  have := hl.length_lt_size h.root
  exact h.isWithinSteps_eq hne hl (by omega)

theorem isWithin_iff (h : Forest r) {ancestor id g : ParamId} (hne : ancestor ≠ .root)
    (hg : r.home? id = some g) : r.isWithin id ancestor = true ↔ Above r ancestor id := by
  obtain ⟨l, hl⟩ := h.rooted hg
  rw [h.isWithin_eq hne hl, decide_eq_true_iff]
  constructor
  · exact fun hmem => ⟨l, hl, hmem⟩
  · rintro ⟨l', hl', hmem⟩
    exact hl.unique hl' ▸ hmem

/-- Nobody is in a group of its own subtree. -/
theorem home?_ne_self (h : Forest r) {id : ParamId} (hid : id ≠ .root) :
    r.home? id ≠ some id := by
  intro hg
  obtain ⟨l, hl⟩ := h.rooted hg
  cases hl with
  | root => exact hid rfl
  | member _ hg' hl =>
    rw [hg] at hg'
    cases hg'
    have := (Lineage.member hid hg hl).nodup
    exact (List.nodup_cons.1 this).1 (hl.self_mem hid)

end Forest

/-! ## Groups that are asked for -/

/-- A group that can be put into: the root where none is given, and otherwise a living group. -/
theorem resolveGroup_ok {group target : Option ParamId} (h : r.resolveGroup group = .ok target) :
    target = group.filter (!·.isRoot) ∧
      ∀ g, target = some g → g ≠ .root ∧ ∃ p, r.get? g = some p ∧ p.isGroup = true := by
  unfold resolveGroup at h
  split at h
  · next hg => cases h; exact ⟨hg.symm, by simp⟩
  · next g hg =>
    have hroot : g ≠ .root := by
      have := (Option.filter_eq_some_iff.1 hg).2
      simpa using this
    split at h
    · cases h
    · next p hp =>
      split at h
      · next hgroup =>
        cases h
        refine ⟨hg.symm, ?_⟩
        rintro g' ⟨⟩
        exact ⟨hroot, p, hp, hgroup⟩
      · cases h

/-! ## Entering a parameter -/

theorem contains_eq_isSome (r : Registry) (id : ParamId) :
    r.parameters.contains id = (r.get? id).isSome :=
  Std.ExtTreeMap.contains_eq_isSome_getElem?

theorem contains_iff_ne_root {x : ParamId} :
    r.contains x = true ↔ x ≠ .root ∧ r.get? x ≠ none := by
  rw [contains, contains_eq_isSome, Bool.and_eq_true, Option.isSome_iff_ne_none, Bool.not_eq_true',
    ParamId.isRoot_eq_false_iff]

/-- A parameter as it is registered: at the root where its group is not alive. -/
def entered (r : Registry) (p : Parameter) : Parameter :=
  if (p.group?.filter r.isGroup).isSome then p else p.applyGroup none

theorem links_entered (r : Registry) (p : Parameter) :
    (r.entered p).links = (p.id, (p.group?.filter r.isGroup).getD .root, p.children) := by
  unfold entered
  cases hg : p.group?.filter r.isGroup with
  | none => simp
  | some g =>
    have hgroup := (Option.filter_eq_some_iff.1 hg).1
    simp [Parameter.links, Parameter.home_of_group?_eq_some hgroup]

theorem not_taken {p : Parameter} (hid : p.id ≠ .root) (hnew : r.get? p.id = none) :
    ¬ (p.id.isRoot || r.parameters.contains p.id) = true := by
  simp [contains_eq_isSome, hnew, hid]

/-- What `attach` leaves under each identifier. -/
theorem get?_attach {p : Parameter} (hid : p.id ≠ .root) (hnew : r.get? p.id = none)
    (x : ParamId) :
    (r.attach p).get? x =
      if x = p.id then some (r.entered p)
      else if x = (r.entered p).home then (r.get? x).map (·.insertChild p.id)
      else r.get? x := by
  have hhome : (r.entered p).home = (p.group?.filter r.isGroup).getD .root :=
    congrArg (·.2.1) (r.links_entered p)
  rw [attach, if_neg (not_taken hid hnew), hhome]
  rw [get?_of_insert (r := r.modify ((p.group?.filter r.isGroup).getD .root) (·.insertChild p.id))
    rfl, get?_modify]
  rfl

/-- Who is there after an attachment is the new parameter, or was there with other members. -/
theorem get?_attach_cases {p p' : Parameter} (hid : p.id ≠ .root) (hnew : r.get? p.id = none)
    {x : ParamId} (hp' : (r.attach p).get? x = some p') :
    (x = p.id ∧ p' = r.entered p) ∨ ∃ q children, r.get? x = some q ∧ p' = { q with children } := by
  rw [get?_attach hid hnew] at hp'
  split at hp'
  · next hx => exact .inl ⟨hx, (Option.some.inj hp').symm⟩
  split at hp'
  · obtain ⟨q, hq, rfl⟩ := Option.map_eq_some_iff.1 hp'
    exact .inr ⟨q, _, hq, rfl⟩
  · exact .inr ⟨p', p'.children, hp', rfl⟩

theorem attach_of_taken {p : Parameter} (h : p.id = .root ∨ ∃ g, r.home? p.id = some g) :
    r.attach p = r := by
  have hcond : (p.id.isRoot || r.parameters.contains p.id) = true := by
    rcases h with h | ⟨g, hg⟩
    · simp [h]
    · obtain ⟨q, hq, -⟩ := home?_eq_some_iff.1 hg
      simp [contains_eq_isSome, hq]
  rw [attach, if_pos hcond]

/-- A parameter is left out, or it is new. -/
theorem attach_eq_or_new (r : Registry) (p : Parameter) :
    r.attach p = r ∨ p.id ≠ .root ∧ r.get? p.id = none := by
  by_cases hid : p.id = .root
  · exact .inl (attach_of_taken (.inl hid))
  · cases hp : r.get? p.id with
    | none => exact .inr ⟨hid, rfl⟩
    | some q => exact .inl (attach_of_taken (.inr ⟨_, home?_of_get? hp⟩))

theorem dirty_attach (r : Registry) (p : Parameter) : (r.attach p).dirty = r.dirty := by
  unfold attach
  split <;> rfl

theorem removed_attach (r : Registry) (p : Parameter) : (r.attach p).removed = r.removed := by
  unfold attach
  split <;> rfl

section Attach

variable {p : Parameter} (hid : p.id ≠ .root) (hnew : r.get? p.id = none)
include hid hnew

theorem reserved_attach : (r.attach p).reserved = r.reserved.insert p.id.slot := by
  rw [attach, if_neg (not_taken hid hnew)]

/-- Only the new parameter is in a group that it was not in. -/
theorem home?_attach (x : ParamId) :
    (r.attach p).home? x = if x = p.id then some (r.entered p).home else r.home? x := by
  rw [home?, get?_attach hid hnew]
  by_cases hx : x = p.id
  · rw [if_pos hx, if_pos hx, Option.map_some]
  · rw [if_neg hx, if_neg hx]
    split
    · rw [Option.map_map]; rfl
    · rfl

theorem lists_attach (hc : p.children = ∅) (hg : ∃ g, r.home? (r.entered p).home = some g)
    {g c : ParamId} :
    (r.attach p).Lists g c ↔ r.Lists g c ∨ (c = p.id ∧ g = (r.entered p).home) := by
  have hchildren : (r.entered p).children = ∅ :=
    (congrArg (·.2.2) (r.links_entered p)).trans hc
  have hne : (r.entered p).home ≠ p.id := by
    obtain ⟨g, hg⟩ := hg
    intro heq
    rw [heq, home?, hnew] at hg
    cases hg
  simp only [Lists, get?_attach hid hnew]
  by_cases hgid : g = p.id
  · subst hgid
    simp [hchildren, hnew, Ne.symm hne]
  · by_cases hgh : g = (r.entered p).home
    · subst hgh
      obtain ⟨g', hg'⟩ := hg
      obtain ⟨q, hq, -⟩ := home?_eq_some_iff.1 hg'
      simp [hne, hq, or_comm]
    · simp [hgid, hgh]

end Attach

namespace Forest

/-- The group under which a parameter is registered is alive. -/
theorem home_entered_alive (h : Forest r) (p : Parameter) :
    ∃ g, r.home? (r.entered p).home = some g := by
  have hhome : (r.entered p).home = (p.group?.filter r.isGroup).getD .root :=
    congrArg (·.2.1) (r.links_entered p)
  rw [hhome]
  cases hg : p.group?.filter r.isGroup with
  | none => exact ⟨_, h.root⟩
  | some g =>
    have hgroup : r.isGroup g = true := (Option.filter_eq_some_iff.1 hg).2
    rw [isGroup] at hgroup
    cases hq : r.get? g with
    | none => simp [hq] at hgroup
    | some q => exact ⟨_, home?_of_get? hq⟩

/-- A new parameter without members may name any group, also itself or one that is not alive. -/
theorem attach (h : Forest r) {p : Parameter} (hc : p.children = ∅) : Forest (r.attach p) := by
  obtain hold | ⟨hid, hnew⟩ := r.attach_eq_or_new p
  · rwa [hold]
  have hhomenone := home?_eq_none_iff.2 hnew
  have hgroup := h.home_entered_alive p
  have hhome := home?_attach hid hnew
  have hsame : ∀ x, x ≠ p.id → (r.attach p).home? x = r.home? x := fun x hx => by
    rw [hhome, if_neg hx]
  constructor
  · intro id q hq
    rw [get?_attach hid hnew] at hq
    split at hq
    · next hx =>
      cases hq
      have hpid : (r.entered p).id = p.id := congrArg (·.1) (r.links_entered p)
      exact hpid.trans hx.symm
    · split at hq
      · obtain ⟨q', hq', rfl⟩ := Option.map_eq_some_iff.1 hq
        have hid : q'.id = id := h.keyed hq'
        exact hid
      · exact h.keyed hq
  · rw [hsame _ (Ne.symm hid), h.root]
  · intro g c
    rw [lists_attach hid hnew hc hgroup, h.lists_iff, hhome]
    by_cases hx : c = p.id
    · simp [hx, hid, hhomenone, eq_comm]
    · simp [hx]
  · intro id g hg
    obtain ⟨g', hg'⟩ := hgroup
    obtain ⟨ln, hln⟩ := h.rooted hg'
    have hnot : p.id ∉ ln := fun hmem => by
      obtain ⟨-, g'', hg''⟩ := hln.alive_of_mem hmem
      rw [hhomenone] at hg''
      cases hg''
    have hnewhome : (r.attach p).home? p.id = some (r.entered p).home := by
      rw [hhome, if_pos rfl]
    by_cases hx : id = p.id
    · subst hx
      exact ⟨_, .member hid hnewhome (hln.congr fun x hx => hsame x fun heq => hnot (heq ▸ hx))⟩
    · rw [hsame id hx] at hg
      obtain ⟨l, hl⟩ := h.rooted hg
      exact hl.exists_of_moved hnewhome hsame hln hnot

end Forest
/-! ## Moving a parameter -/

/-- A parameter once somebody has put it into another group. -/
def Origin.place (group : Option ParamId) (p : Parameter) : Origin → Parameter
  | here => p.setGroup group
  | peer => p.applyGroup group

/-- That sets the one field. -/
theorem Origin.place_eq (group : Option ParamId) (p : Parameter) (origin : Origin) :
    ∃ f : Field ParamId, origin.place group p = { p with parent := f } ∧
      f.value = group.filter (!·.isRoot) := by
  cases origin with
  | here => exact p.setGroup_eq group
  | peer => exact p.applyGroup_eq group

theorem Origin.links_place (group : Option ParamId) (p : Parameter) (origin : Origin) :
    (origin.place group p).links = (p.id, Parameter.target group, p.children) := by
  cases origin with
  | here => exact p.links_setGroup group
  | peer => exact p.links_applyGroup group

/-- What a move leaves under each identifier. -/
theorem relink?_eq_some {id : ParamId} {group : Option ParamId} {origin : Origin} {m : Registry}
    (h : r.relink? id group origin = some m) :
    ∃ p, r.get? id = some p ∧ p.home ≠ group.getD .root ∧
      m = ((r.modify p.home (·.eraseChild id)).modify (group.getD .root) (·.insertChild id)).modify
        id (origin.place group) := by
  unfold relink? at h
  split at h
  · cases h
  · next p hp =>
    dsimp only at h
    split at h
    · cases h
    · next hne =>
      cases h
      refine ⟨p, hp, hne, ?_⟩
      cases origin <;> rfl

/-- A move changes the group of one parameter and the members of others. -/
theorem get?_relink {id : ParamId} {group : Option ParamId} {origin : Origin} {m : Registry}
    (h : r.relink? id group origin = some m) (x : ParamId) :
    ∃ f : Parameter → Parameter, (∀ p, ∃ children, f p = { p with children }) ∧
      m.get? x = if x = id then (r.get? x).map fun p => origin.place group (f p)
        else (r.get? x).map f := by
  obtain ⟨p, -, -, rfl⟩ := relink?_eq_some h
  refine ⟨fun q => (if x = group.getD .root then (·.insertChild id) else fun q => q)
    ((if x = p.home then (·.eraseChild id) else fun q => q) q), fun q => ?_, ?_⟩
  · refine ⟨((if x = group.getD .root then (·.insertChild id) else fun q => q)
      ((if x = p.home then (·.eraseChild id) else fun q => q) q)).children, ?_⟩
    repeat' split
    all_goals rfl
  · rw [get?_modify, get?_modify, get?_modify]
    cases r.get? x with
    | none => simp
    | some q => repeat' split
                all_goals rfl

/-- Who is there after a move was there with other members, and maybe in another group. -/
theorem get?_relink_cases {id : ParamId} {group : Option ParamId} {origin : Origin} {m : Registry}
    (h : r.relink? id group origin = some m) {x : ParamId} {p' : Parameter}
    (hp' : m.get? x = some p') :
    ∃ p children, r.get? x = some p ∧
      p' = if x = id then origin.place group { p with children } else { p with children } := by
  obtain ⟨f, hf, hget⟩ := get?_relink h x
  rw [hget] at hp'
  split at hp'
  · next hx =>
    obtain ⟨p, hp, rfl⟩ := Option.map_eq_some_iff.1 hp'
    obtain ⟨children, hchildren⟩ := hf p
    exact ⟨p, children, hp, by rw [if_pos hx, hchildren]⟩
  · next hx =>
    obtain ⟨p, hp, rfl⟩ := Option.map_eq_some_iff.1 hp'
    obtain ⟨children, hchildren⟩ := hf p
    exact ⟨p, children, hp, by rw [if_neg hx, hchildren]⟩

namespace Forest

variable {id new : ParamId} {group : Option ParamId} {origin : Origin} {m : Registry}

/-- After a move the parameter is in its new group, and all others are where they were. -/
theorem home?_relink (hm : r.relink? id group origin = some m)
    (htarget : Parameter.target group = new) (x : ParamId) :
    m.home? x = if x = id then some new else r.home? x := by
  obtain ⟨p, hp, -, rfl⟩ := relink?_eq_some hm
  have hplace : ∀ q : Parameter, (origin.place group q).home = new := fun q =>
    (congrArg (·.2.1) (origin.links_place group q)).trans htarget
  have hrest : ((r.modify p.home (·.eraseChild id)).modify (group.getD .root)
      (·.insertChild id)).home? x = r.home? x := by
    rw [home?_modify (Parameter.home_insertChild · id),
      home?_modify (Parameter.home_eraseChild · id)]
  rw [home?, get?_modify]
  by_cases hx : x = id
  · subst hx
    rw [home?_of_get? hp] at hrest
    obtain ⟨q, hq, -⟩ := home?_eq_some_iff.1 hrest
    rw [if_pos rfl, if_pos rfl, hq, Option.map_some, Option.map_some, hplace]
  · rw [if_neg hx, if_neg hx]
    exact hrest

/-- Only the group of a parameter has it among its members. -/
theorem mem_children_iff_home (h : Forest r) (hid : id ≠ .root) {p q : Parameter} {g : ParamId}
    (hp : r.get? id = some p) (hq : r.get? g = some q) : id ∈ q.children ↔ g = p.home := by
  have hl := h.lists_iff (g := g) (c := id)
  rw [home?_of_get? hp] at hl
  simpa [Lists, hq, hid, eq_comm] using hl

/-- After a move the parameter is listed by its new group and by no other. -/
theorem lists_relink (h : Forest r) (hid : id ≠ .root) (hm : r.relink? id group origin = some m)
    (hnew : group.getD .root = new) (hgroup : ∃ g, r.home? new = some g) {x c : ParamId} :
    m.Lists x c ↔ if c = id then x = new else r.Lists x c := by
  obtain ⟨p, hp, hne, rfl⟩ := relink?_eq_some hm
  rw [hnew] at hne ⊢
  cases hq : r.get? x with
  | none =>
    have hxnew : x ≠ new := by
      rintro rfl
      obtain ⟨g, hg⟩ := hgroup
      rw [home?, hq] at hg
      cases hg
    simp [Lists, get?_modify, hq, hxnew]
  | some q =>
    have hold : id ∈ q.children ↔ x = p.home := h.mem_children_iff_home hid hp hq
    -- the members, once the two groups have been changed
    have hmem : ∀ f : Parameter → Parameter, (∀ q, (f q).children = q.children) →
        ((((r.modify p.home (·.eraseChild id)).modify new (·.insertChild id)).modify id f).Lists
            x c ↔
          if c = id then x = new else c ∈ q.children) := by
      intro f hf
      simp only [Lists, get?_modify, hq]
      by_cases hx : x = id <;> by_cases hxnew : x = new <;> by_cases hxold : x = p.home <;>
        by_cases hc : c = id <;> simp_all
    rw [hmem _ fun q => congrArg (·.2.2) (origin.links_place group q)]
    simp [Lists, hq]

/-- A parameter may be moved to any living group that is not below it. -/
theorem relink (h : Forest r) (hid : id ≠ .root) (hm : r.relink? id group origin = some m)
    (hnew : group.getD .root = new) (htarget : Parameter.target group = new)
    (hgroup : ∃ g, r.home? new = some g) (hnot : ¬ Above r id new) : Forest m := by
  have hhome := home?_relink hm htarget
  constructor
  · intro x q hq
    obtain ⟨p, -, -, rfl⟩ := relink?_eq_some hm
    exact ((h.keyed.modify (Parameter.id_eraseChild · id)).modify
      (Parameter.id_insertChild · id)).modify
      (fun q => congrArg (·.1) (origin.links_place group q)) hq
  · rw [hhome, if_neg (Ne.symm hid), h.root]
  · intro g c
    rw [h.lists_relink hid hm hnew hgroup, hhome]
    by_cases hc : c = id
    · simp [hc, hid, eq_comm]
    · simp [hc, h.lists_iff]
  · intro x g hg
    obtain ⟨g', hg'⟩ := hgroup
    obtain ⟨ln, hln⟩ := h.rooted hg'
    have hnot' : id ∉ ln := fun hmem => hnot ⟨ln, hln, hmem⟩
    have hx : ∃ g, r.home? x = some g := by
      by_cases hx : x = id
      · obtain ⟨p, hp, -⟩ := relink?_eq_some hm
        exact ⟨_, hx ▸ home?_of_get? hp⟩
      · exact ⟨g, by rwa [hhome, if_neg hx] at hg⟩
    obtain ⟨g'', hg''⟩ := hx
    obtain ⟨l, hl⟩ := h.rooted hg''
    exact hl.exists_of_moved (by rw [hhome, if_pos rfl])
      (fun x hx => by rw [hhome, if_neg hx]) hln hnot'

end Forest
end Registry
end ParamSync
