import ParamSync.Proofs.Codec.Lossless
import ParamSync.Proofs.Registry.Order
import ParamSync.Proofs.Registry.Orderly

/-!
# A dump makes a mirror

A peer that knows only the root takes over a dump parameter by parameter. `Mirrors s seen r` says
that it has copies of those it has seen and nothing else, where each group lists those of its
members that were seen. Who comes next is in a group that was seen, so it is entered there; at the
end everybody was seen.

Results:
* `Mirrors.attach`: the copy of somebody whose group was seen is entered where it belongs.
* `Mirrors.performAll`: so it goes for any number of them, each after its group.
* `Forest.mirror_dump`: copies in the order of a dump make a mirror of everything.
-/

namespace ParamSync

namespace Parameter

/-- A parameter as a peer has it: its copy, with its members. -/
def mirrored (p : Parameter) : Parameter := { p.copy with children := p.children }

@[simp] theorem id_copy (p : Parameter) : p.copy.id = p.id := rfl

@[simp] theorem group?_copy (p : Parameter) : p.copy.group? = p.group? := rfl

theorem isGroup_copy (p : Parameter) : p.copy.isGroup = p.isGroup :=
  TypeDef.isGroup_eq_of_datatype_eq p.definition.datatype_sent

end Parameter

namespace Registry

variable {s r : Registry} {seen : List ParamId}

/-- A registry that has copies of the root and of those that were seen, and nothing else. Who was
seen is in the root or in a group that was seen. -/
structure Mirrors (s : Registry) (seen : List ParamId) (r : Registry) : Prop where
  copied : ∀ {x p}, x = .root ∨ x ∈ seen → s.get? x = some p →
    ∃ children, r.get? x = some { p.copy with children } ∧
      ∀ c, c ∈ children ↔ c ∈ p.children ∧ c ∈ seen
  dead : ∀ {x}, x ≠ .root → x ∉ seen → r.get? x = none
  home_seen : ∀ {x g}, x ∈ seen → s.home? x = some g → g = .root ∨ g ∈ seen
  dirty : r.dirty = ∅
  removed : r.removed = ∅

/-- A new registry has seen nobody. -/
theorem Mirrors.new (hs : Orderly s) : Mirrors s [] .new where
  copied := by
    intro x p hx hp
    obtain rfl : x = .root := hx.resolve_right (by simp)
    obtain ⟨children, hroot⟩ := hs.root
    rw [hroot, Option.some.injEq] at hp
    subst hp
    exact ⟨∅, (get?_new _).trans (if_pos rfl), by simp⟩
  dead := by
    intro x hx _
    rw [get?_new, if_neg hx]
  home_seen := by simp
  dirty := rfl
  removed := rfl

/-- A copy is entered as it is, if its group was seen. -/
theorem Mirrors.entered_copy (h : Mirrors s seen r) {p : Parameter} (hp : s.Settled p)
    (hhome : p.home = .root ∨ p.home ∈ seen) : r.entered p.copy = p.copy := by
  unfold entered
  cases hg : p.group? with
  | none =>
    have hnone : p.parent.value = none := by
      cases hv : p.parent.value with
      | none => rfl
      | some g =>
        rw [Parameter.group?, hv, Option.filter_eq_none_iff] at hg
        have hroot : g = .root := by simpa using hg
        exact absurd (hroot ▸ hv) hp.parent
    have hcopy : p.copy.parent.value = none := hnone
    simp [hg, Parameter.applyGroup, Field.isPresent, hcopy]
  | some g =>
    have hghome : p.home = g := Parameter.home_of_group?_eq_some hg
    obtain ⟨q, hq, hisGroup⟩ := isGroup_eq_true_iff.1 hp.group
    obtain ⟨children, hr, -⟩ := h.copied hhome hq
    have hgroup : r.isGroup g = true := by
      rw [← hghome]
      exact isGroup_eq_true_iff.2 ⟨_, hr, q.isGroup_copy.trans hisGroup⟩
    simp [hg, hgroup]

/-- The group of a new copy lists it, and nothing else changes. -/
theorem Mirrors.get?_attach_copy (h : Mirrors s seen r) {p : Parameter} (hid : p.id ≠ .root)
    (hseen : p.id ∉ seen) (hp : s.Settled p) (hhome : p.home = .root ∨ p.home ∈ seen)
    (x : ParamId) :
    (r.attach p.copy).get? x =
      if x = p.id then some p.copy
      else if x = p.home then (r.get? x).map (·.insertChild p.id) else r.get? x := by
  have hnew : r.get? p.copy.id = none := h.dead hid hseen
  have hget := get?_attach (r := r) (p := p.copy) hid hnew x
  rwa [h.entered_copy hp hhome] at hget

section Attach

variable (h : Mirrors s seen r) (hf : Forest s) {p : Parameter} (hid : p.id ≠ .root)
  (hseen : p.id ∉ seen) (hp : s.get? p.id = some p)
include h hf hid hseen hp

/-- No member of somebody who was not seen was seen. -/
theorem Mirrors.members_unseen {c : ParamId} (hc : c ∈ p.children) : c ∉ p.id :: seen := by
  intro hcseen
  obtain ⟨hcroot, hchome⟩ := hf.lists_iff.1 ⟨p, hp, hc⟩
  rcases List.mem_cons.1 hcseen with rfl | hcseen
  · exact hf.home?_ne_self hid hchome
  · rcases h.home_seen hcseen hchome with hroot | hmem
    · exact hid hroot
    · exact hseen hmem

variable (hsettled : s.Settled p) (hhome : p.home = .root ∨ p.home ∈ seen)
include hsettled hhome

/-- Everybody who was seen is copied, with the members that were seen. -/
theorem Mirrors.attach_copied {x : ParamId} {q : Parameter} (hx : x = .root ∨ x ∈ p.id :: seen)
    (hq : s.get? x = some q) :
    ∃ children, (r.attach p.copy).get? x = some { q.copy with children } ∧
      ∀ c, c ∈ children ↔ c ∈ q.children ∧ c ∈ p.id :: seen := by
  rw [h.get?_attach_copy hid hseen hsettled hhome]
  by_cases hxid : x = p.id
  · subst hxid
    rw [hp] at hq
    cases hq
    refine ⟨∅, by rw [if_pos rfl]; rfl, fun c => ⟨fun hc => absurd hc (by simp), ?_⟩⟩
    rintro ⟨hc, hcseen⟩
    exact absurd hcseen (h.members_unseen hf hid hseen hp hc)
  · have hx' : x = .root ∨ x ∈ seen :=
      hx.imp_right fun hmem => (List.mem_cons.1 hmem).resolve_left hxid
    obtain ⟨children, hr, hchildren⟩ := h.copied hx' hq
    have hmember := hf.mem_children_iff_home hid hp hq
    rw [if_neg hxid, hr]
    by_cases hxhome : x = p.home
    · refine ⟨children.insert p.id, by rw [if_pos hxhome]; rfl, fun c => ?_⟩
      rw [IdSet.mem_insert_iff, hchildren, List.mem_cons]
      constructor
      · rintro (rfl | ⟨hc, hcseen⟩)
        · exact ⟨hmember.2 hxhome, .inl rfl⟩
        · exact ⟨hc, .inr hcseen⟩
      · rintro ⟨hc, rfl | hcseen⟩
        · exact .inl rfl
        · exact .inr ⟨hc, hcseen⟩
    · refine ⟨children, by rw [if_neg hxhome], fun c => ?_⟩
      rw [hchildren, List.mem_cons]
      constructor
      · rintro ⟨hc, hcseen⟩
        exact ⟨hc, .inr hcseen⟩
      · rintro ⟨hc, rfl | hcseen⟩
        · exact absurd (hmember.1 hc) hxhome
        · exact ⟨hc, hcseen⟩

/-- The copy of somebody whose group was seen is entered where it belongs. -/
theorem Mirrors.attach : Mirrors s (p.id :: seen) (r.attach p.copy) where
  copied := h.attach_copied hf hid hseen hp hsettled hhome
  dead := by
    intro x hx hxseen
    rw [List.mem_cons, not_or] at hxseen
    rw [h.get?_attach_copy hid hseen hsettled hhome, if_neg hxseen.1, h.dead hx hxseen.2]
    split <;> rfl
  home_seen := by
    intro x g hx hg
    rcases List.mem_cons.1 hx with rfl | hx
    · rw [home?_of_get? hp] at hg
      cases hg
      exact hhome.imp_right (List.mem_cons_of_mem _)
    · exact (h.home_seen hx hg).imp_right (List.mem_cons_of_mem _)
  dirty := (r.dirty_attach p.copy).trans h.dirty
  removed := (r.removed_attach p.copy).trans h.removed

end Attach

/-! ## A whole dump -/

/-- Somebody who is not there is registered. -/
theorem perform_merge_of_new {p : Parameter} (hid : p.id ≠ .root) (hnew : r.get? p.id = none) :
    r.perform (.merge p) = r.attach p := by
  have hroot : ¬ p.id.isRoot = true := by simpa using hid
  rw [perform, merge, if_neg hroot, hnew]
  rfl

/-- Copies that come after their groups are entered where they belong, one by one. -/
theorem Mirrors.performAll (h : Mirrors s seen r) (hf : Forest s) (ho : Orderly s)
    {ids : List ParamId} (horder : GroupsFirst s (.root :: seen) ids) (hnodup : ids.Nodup)
    (hdisjoint : ∀ id ∈ ids, id ∉ seen) :
    Mirrors s (ids.reverse ++ seen)
      (r.performAll ((ids.filterMap s.get?).map fun p => .merge p.copy)) := by
  induction ids generalizing seen r with
  | nil => exact h
  | cons id ids ih =>
    obtain ⟨hid, ⟨g, hg, hhome⟩, hrest⟩ := horder
    obtain ⟨hidids, hnodup'⟩ := List.nodup_cons.1 hnodup
    obtain ⟨hidseen, hdisjoint'⟩ := List.forall_mem_cons.1 hdisjoint
    obtain ⟨p, hp, rfl⟩ := home?_eq_some_iff.1 hhome
    obtain rfl := hf.keyed hp
    have hnext := h.attach hf hid hidseen hp (ho.settled hid hp) (List.mem_cons.1 hg)
    have hmerge : r.perform (.merge p.copy) = r.attach p.copy :=
      perform_merge_of_new hid (h.dead hid hidseen)
    rw [← hmerge] at hnext
    have hlast := ih hnext (hrest.mono fun x hx => by
      rcases List.mem_cons.1 hx with rfl | hx
      · exact List.mem_cons_of_mem _ List.mem_cons_self
      · rcases List.mem_cons.1 hx with rfl | hx
        · exact List.mem_cons_self
        · exact List.mem_cons_of_mem _ (List.mem_cons_of_mem _ hx)) hnodup'
      fun x hx hseen => by
        rcases List.mem_cons.1 hseen with rfl | hseen
        · exact hidids hx
        · exact hdisjoint' x hx hseen
    rw [List.filterMap_cons_some hp, List.map_cons, List.reverse_cons, List.append_assoc]
    exact hlast

/-- What a dump tells of, in its order. -/
def dumped (r : Registry) : List Parameter := r.depthFirst.filterMap r.get?

theorem encodeAll_eq_map (r : Registry) :
    r.encodeAll = r.dumped.map (Packet.encodeUpdate · true) := by
  rw [encodeAll, dump, writeEach, dumped, List.map_filterMap]

namespace Forest

variable (hf : Forest s)
include hf

/-- A dump tells of everybody but the root. -/
theorem mem_dumped_iff {p : Parameter} : p ∈ s.dumped ↔ p.id ≠ .root ∧ s.get? p.id = some p := by
  rw [dumped, List.mem_filterMap]
  constructor
  · rintro ⟨x, hx, hget⟩
    obtain rfl := hf.keyed hget
    exact ⟨(hf.mem_depthFirst_iff.1 hx).1, hget⟩
  · rintro ⟨hid, hget⟩
    exact ⟨p.id, hf.mem_depthFirst_iff.2 ⟨hid, _, home?_of_get? hget⟩, hget⟩

/-- A dump tells of those who are met, as they are met. -/
theorem map_id_dumped : s.dumped.map (·.id) = s.depthFirst := by
  rw [dumped, List.map_filterMap]
  refine (List.filterMap_congr fun x hx => ?_).trans List.filterMap_some
  obtain ⟨-, g, hg⟩ := hf.mem_depthFirst_iff.1 hx
  obtain ⟨p, hp, -⟩ := home?_eq_some_iff.1 hg
  rw [hp, Option.map_some, hf.keyed hp]

/-- A dump tells of nobody twice. -/
theorem nodup_dumped : (s.dumped.map (·.id)).Nodup := by
  rw [hf.map_id_dumped]
  exact hf.nodup_depthFirst

end Forest

/-- A new registry that takes over the copies of a dump has everybody as they are in the other,
and nothing to tell. -/
theorem Forest.mirror_dump (hf : Forest s) (ho : Orderly s) :
    let r := Registry.new.performAll (s.dumped.map fun p => .merge p.copy)
    (∀ x, r.get? x = (s.get? x).map Parameter.mirrored) ∧ r.dirty = ∅ ∧ r.removed = ∅ := by
  have h := (Mirrors.new ho).performAll hf ho hf.groupsFirst_depthFirst hf.nodup_depthFirst
    (by simp)
  refine ⟨fun x => ?_, h.dirty, h.removed⟩
  have hseen : ∀ x, x ∈ s.depthFirst.reverse ++ [] ↔ x ≠ .root ∧ ∃ g, s.home? x = some g := by
    intro x
    rw [List.append_nil, List.mem_reverse, hf.mem_depthFirst_iff]
  cases hp : s.get? x with
  | none =>
    have hroot : x ≠ .root := by
      rintro rfl
      obtain ⟨children, hroot⟩ := ho.root
      rw [hp] at hroot
      cases hroot
    refine h.dead hroot fun hmem => ?_
    obtain ⟨-, g, hg⟩ := (hseen x).1 hmem
    rw [home?_eq_none_iff.2 hp] at hg
    cases hg
  | some p =>
    have hx : x = .root ∨ x ∈ s.depthFirst.reverse ++ [] := by
      by_cases hroot : x = .root
      · exact .inl hroot
      · exact .inr ((hseen x).2 ⟨hroot, _, home?_of_get? hp⟩)
    obtain ⟨children, hr, hchildren⟩ := h.copied hx hp
    have hall : children = p.children := by
      refine Std.ExtTreeSet.ext_mem fun c => ?_
      rw [hchildren, and_iff_left_iff_imp]
      intro hc
      obtain ⟨hroot, hhome⟩ := hf.lists_iff.1 ⟨p, hp, hc⟩
      exact (hseen c).2 ⟨hroot, _, hhome⟩
    rw [dumped, hr, hall]
    rfl

end Registry
end ParamSync
