import ParamSync.Proofs.Registry.Orderly

/-!
# Where a merge puts a parameter

A merge moves nobody but the parameter that it brings. A new one goes to the group that it names,
if there is one, and a known one follows if the group is there and is not below it. Whether it is
can be told from the way up, which is a matter of who is in which group and of nothing else.

Results:
* `home?_merge_other`: all others stay.
* `content_merge`: what a merge does apart from that.
* `content_mergeAll`: what many of them do, one after the other.
* `home?_merge_new`, `Forest.home?_merge_known`: where the parameter is afterwards.
* `Forest.above_iff_passes`: what is above somebody, by the groups alone.
-/

namespace ParamSync

/-- What a parameter is apart from its place in the tree. -/
def Parameter.content (p : Parameter) : Parameter := { p with parent := {}, children := ∅ }

theorem Parameter.datatype_of_content_eq {p q : Parameter} (h : p.content = q.content) :
    p.datatype = q.datatype := by
  have := congrArg Parameter.datatype h
  exact this

/-- What a merge makes of a parameter has nothing to do with its place. -/
theorem Parameter.content_merge_congr {p q : Parameter} (h : p.content = q.content)
    (other : Parameter) : (p.merge other).content = (q.merge other).content := by
  have := congrArg (fun p => (Parameter.merge p other).content) h
  exact this

namespace Registry

variable {r m : Registry} {id x g : ParamId} {incoming : Parameter}

/-! ## The way up -/

/-- The way up from `y` passes `x`, where each is in the group that `home` gives. -/
inductive Passes (home : ParamId → Option ParamId) (x : ParamId) : ParamId → Prop
  | here : Passes home x x
  | up {y g : ParamId} (hy : y ≠ .root) (hg : home y = some g) (h : Passes home x g) :
      Passes home x y

theorem Forest.above_iff_passes (h : Forest r) (hx : x ≠ .root) {g' : ParamId}
    (hg : r.home? g = some g') : Above r x g ↔ Passes r.home? x g := by
  constructor
  · rintro ⟨l, hl, hmem⟩
    clear hg
    induction hl with
    | root => cases hmem
    | member hid hg _ ih =>
      rcases List.mem_cons.1 hmem with rfl | hmem
      · exact .here
      · exact .up hid hg (ih hmem)
  · intro hp
    induction hp generalizing g' with
    | here =>
      obtain ⟨p, hp, -⟩ := home?_eq_some_iff.1 hg
      exact h.above_self hx hp
    | up hy hhome _ ih =>
      obtain ⟨g'', hg''⟩ := h.home_alive hhome
      obtain ⟨l, hl, hmem⟩ := ih hg''
      exact ⟨_, .member hy hhome hl, List.mem_cons_of_mem _ hmem⟩

/-- Nobody is on the way up from its group. -/
theorem not_above_home (hx : x ≠ .root) (hg : r.home? x = some g) : ¬ Above r x g := by
  rintro ⟨l, hl, hmem⟩
  exact (List.nodup_cons.1 (Lineage.member hx hg hl).nodup).1 hmem

/-- The same groups make the same ways up. -/
theorem above_congr (h : ∀ y, m.home? y = r.home? y) : Above m x g ↔ Above r x g := by
  constructor
  · rintro ⟨l, hl, hmem⟩
    exact ⟨l, hl.congr fun y _ => (h y).symm, hmem⟩
  · rintro ⟨l, hl, hmem⟩
    exact ⟨l, hl.congr fun y _ => h y, hmem⟩

/-! ## All but the links -/

/-- A move leaves everything but the links. -/
theorem content_relink {group : Option ParamId} {origin : Origin}
    (h : r.relink? id group origin = some m) (x : ParamId) :
    (m.get? x).map Parameter.content = (r.get? x).map Parameter.content := by
  obtain ⟨f, hf, hget⟩ := get?_relink h x
  have hcontent : ∀ p, (f p).content = p.content := by
    intro p
    obtain ⟨children, hp⟩ := hf p
    rw [hp]
    rfl
  rw [hget]
  split
  · rw [Option.map_map]
    congr 1
    funext p
    obtain ⟨g, hg, -⟩ := origin.place_eq group (f p)
    rw [Function.comp_apply, hg]
    exact hcontent p
  · rw [Option.map_map]
    congr 1
    funext p
    exact hcontent p

/-- So does a registration, of all that were there. -/
theorem content_attach (hid : incoming.id ≠ .root) (hnew : r.get? incoming.id = none)
    (x : ParamId) :
    ((r.attach incoming).get? x).map Parameter.content =
      if x = incoming.id then some incoming.content else (r.get? x).map Parameter.content := by
  rw [get?_attach hid hnew]
  split
  · rw [Option.map_some, entered]
    split
    · rfl
    · obtain ⟨g, hg, -⟩ := incoming.applyGroup_eq none
      rw [hg]
      rfl
  · split
    · rw [Option.map_map]
      rfl
    · rfl

/-! ## Following -/

theorem relink?_eq_none {group : Option ParamId} {origin : Origin}
    (h : r.relink? id group origin = none) {p : Parameter} (hp : r.get? id = some p) :
    p.home = group.getD .root := by
  unfold relink? at h
  rw [hp] at h
  dsimp only at h
  split at h
  · assumption
  · cases h

theorem filter_isRoot (g : ParamId) :
    (some g).filter (!·.isRoot) = if g = .root then none else some g := by
  by_cases hg : g = .root
  · simp [hg]
  · simp [hg, ParamId.isRoot_eq_false_iff.2 hg]

theorem target_some (g : ParamId) : Parameter.target (some g) = g := by
  rw [Parameter.target, filter_isRoot]
  split
  · next hg => exact hg.symm
  · rfl

/-- A parameter is moved to a group that can be gone to, if it is not there already. -/
theorem follow?_of_accepts (hg : g = .root ∨ (r.isGroup g = true ∧ r.isWithin g id = false)) :
    r.follow? id (some g) = r.relink? id ((some g).filter (!·.isRoot)) .peer := by
  rw [follow?, resolveGroup, filter_isRoot]
  by_cases hroot : g = .root
  · simp [hroot]
  · obtain ⟨hgroup, hw⟩ := hg.resolve_left hroot
    obtain ⟨q, hq, hqg⟩ := isGroup_eq_true_iff.1 hgroup
    simp [hroot, hq, hqg, hw]

/-- A parameter that follows is where it is told to go, if it was there or can go there. -/
theorem Forest.home?_follow (h : Forest r) (hid : id ≠ .root) {p : Parameter}
    (hp : r.get? id = some p) :
    ((r.follow? id (some g)).getD r).home? id = some g ↔
      r.home? id = some g ∨ g = .root ∨ (r.isGroup g = true ∧ ¬ Above r id g) := by
  -- where there is a group, the two ways to say that it is not below agree
  have hwithin : r.isGroup g = true → (r.isWithin g id = false ↔ ¬ Above r id g) := by
    intro hgroup
    obtain ⟨q, hq, -⟩ := isGroup_eq_true_iff.1 hgroup
    rw [← h.isWithin_iff hid (home?_of_get? hq), Bool.not_eq_true]
  cases hf : r.follow? id (some g) with
  | some m =>
    obtain ⟨-, ha, hm⟩ := follow?_eq_some hf
    have htarget : Parameter.target ((some g).filter (!·.isRoot)) = g :=
      (Parameter.target_filter _).trans (target_some g)
    rw [Option.getD_some, home?_relink hm htarget, if_pos rfl]
    refine iff_of_true rfl (.inr ?_)
    by_cases hroot : g = .root
    · exact .inl hroot
    · obtain ⟨-, hgroup, hw⟩ := ha g (by rw [filter_isRoot, if_neg hroot])
      exact .inr ⟨isGroup_eq_true_iff.2 hgroup, (hwithin (isGroup_eq_true_iff.2 hgroup)).1 hw⟩
  | none =>
    rw [Option.getD_none]
    refine ⟨.inl, fun hcan => ?_⟩
    rcases hcan with hhome | hcan
    · exact hhome
    · rw [follow?_of_accepts (hcan.imp_right fun hg => ⟨hg.1, (hwithin hg.1).2 hg.2⟩)] at hf
      rw [home?_of_get? hp, relink?_eq_none hf hp, filter_isRoot]
      split
      · next hroot => rw [hroot]; rfl
      · rfl

/-! ## Merging -/

/-- A parameter of the same datatype is merged. -/
theorem exists_merge_of_known {p : Parameter} (hid : incoming.id ≠ .root)
    (hp : r.get? incoming.id = some p) (hd : p.datatype = incoming.datatype) :
    ∃ outcome notices, r.merge incoming =
      .ok (outcome, ((r.overlay p incoming).follow? incoming.id incoming.parent.value).getD
        (r.overlay p incoming), notices) := by
  cases hm : r.merge incoming with
  | error e =>
    have hroot : ¬ incoming.id.isRoot = true := by simpa using hid
    unfold merge at hm
    rw [if_neg hroot, hp] at hm
    simp only [hd, ne_eq, not_true_eq_false, if_false] at hm
    split at hm <;> cases hm
  | ok result =>
    obtain ⟨outcome, r', notices⟩ := result
    obtain ⟨-, ⟨hnone, -⟩ | ⟨p', hp', -, rfl⟩⟩ := merge_ok hm
    · rw [hp] at hnone
      cases hnone
    · rw [hp, Option.some.injEq] at hp'
      subst hp'
      exact ⟨outcome, notices, rfl⟩

theorem perform_merge_of_known {p : Parameter} (hid : incoming.id ≠ .root)
    (hp : r.get? incoming.id = some p) (hd : p.datatype = incoming.datatype) :
    r.perform (.merge incoming) =
      ((r.overlay p incoming).follow? incoming.id incoming.parent.value).getD
        (r.overlay p incoming) := by
  obtain ⟨outcome, notices, hm⟩ := exists_merge_of_known hid hp hd
  rw [perform, hm]
  rfl

/-- A known parameter that does not name a group is changed in place. -/
theorem perform_merge_silent {p : Parameter} (hid : incoming.id ≠ .root)
    (hp : r.get? incoming.id = some p) (hd : p.datatype = incoming.datatype)
    (hparent : incoming.parent.value = none) :
    r.perform (.merge incoming) = r.overlay p incoming := by
  rw [perform_merge_of_known hid hp hd, hparent]
  rfl

/-- A merge moves nobody but the parameter that it brings. -/
theorem home?_merge_other (incoming : Parameter) (hx : x ≠ incoming.id) :
    (r.perform (.merge incoming)).home? x = r.home? x := by
  rw [perform]
  cases hm : r.merge incoming with
  | error e => rfl
  | ok result =>
    obtain ⟨outcome, r', notices⟩ := result
    obtain ⟨hid, ⟨hnone, rfl⟩ | ⟨p, hp, -, rfl⟩⟩ := merge_ok hm
    · exact (home?_attach hid hnone x).trans (if_neg hx)
    · have hover := (sameLinks_overlay hp).home?_eq x
      cases hf : (r.overlay p incoming).follow? incoming.id incoming.parent.value with
      | none => exact hover
      | some m =>
        obtain ⟨-, -, hm⟩ := follow?_eq_some hf
        exact (Forest.home?_relink hm rfl x).trans ((if_neg hx).trans hover)

/-- A parameter that follows leaves everything but the links. -/
theorem content_follow (r : Registry) (id : ParamId) (group : Option ParamId) (x : ParamId) :
    (((r.follow? id group).getD r).get? x).map Parameter.content =
      (r.get? x).map Parameter.content := by
  cases hf : r.follow? id group with
  | none => rfl
  | some m => exact content_relink (follow?_eq_some hf).2.2 x

/-- A merge leaves everything but the links of all others, also if it is refused. -/
theorem content_merge_other (incoming : Parameter) (hx : x ≠ incoming.id) :
    ((r.perform (.merge incoming)).get? x).map Parameter.content =
      (r.get? x).map Parameter.content := by
  rw [perform]
  cases hm : r.merge incoming with
  | error e => rfl
  | ok result =>
    obtain ⟨outcome, r', notices⟩ := result
    obtain ⟨hid, ⟨hnone, rfl⟩ | ⟨p, hp, -, rfl⟩⟩ := merge_ok hm
    · exact (content_attach hid hnone x).trans (if_neg hx)
    · have hover : ((r.overlay p incoming).get? x).map Parameter.content =
          (r.get? x).map Parameter.content := by
        rw [get?_of_insert rfl, if_neg hx]
      exact (content_follow _ incoming.id incoming.parent.value x).trans hover

/-- Of a parameter that is new or has the datatype of the one that is brought a merge takes over
what that has, and of all others it leaves everything but the links. -/
theorem content_merge (incoming : Parameter) (hid : incoming.id ≠ .root)
    (hd : ∀ p, r.get? incoming.id = some p → p.datatype = incoming.datatype) (x : ParamId) :
    ((r.perform (.merge incoming)).get? x).map Parameter.content =
      if x = incoming.id then
        some ((r.get? incoming.id).elim incoming fun p => p.merge incoming).content
      else (r.get? x).map Parameter.content := by
  cases hp : r.get? incoming.id with
  | none =>
    rw [perform, merge_of_unknown hid hp]
    exact content_attach hid hp x
  | some p =>
    rw [perform_merge_of_known hid hp (hd p hp)]
    have hover : ((r.overlay p incoming).get? x).map Parameter.content =
        if x = incoming.id then some (p.merge incoming).content
        else (r.get? x).map Parameter.content := by
      rw [get?_of_insert rfl]
      split <;> rfl
    exact (content_follow _ incoming.id incoming.parent.value x).trans hover

theorem home?_merge_new (incoming : Parameter) (hid : incoming.id ≠ .root)
    (hnew : r.get? incoming.id = none) :
    (r.perform (.merge incoming)).home? incoming.id =
      some ((incoming.group?.filter r.isGroup).getD .root) := by
  have hhome : (r.entered incoming).home = (incoming.group?.filter r.isGroup).getD .root :=
    congrArg (·.2.1) (r.links_entered incoming)
  rw [perform, merge_of_unknown hid hnew]
  exact (home?_attach hid hnew incoming.id).trans ((if_pos rfl).trans (congrArg some hhome))

/-- A known parameter that does not name a group stays. -/
theorem home?_merge_silent (incoming : Parameter) {p : Parameter} (hid : incoming.id ≠ .root)
    (hp : r.get? incoming.id = some p) (hd : p.datatype = incoming.datatype)
    (hparent : incoming.parent.value = none) :
    (r.perform (.merge incoming)).home? incoming.id = r.home? incoming.id := by
  rw [perform_merge_silent hid hp hd hparent]
  exact (sameLinks_overlay hp).home?_eq incoming.id

/-- A known parameter is in the group that it names, if it was there or can go there. -/
theorem Forest.home?_merge_known (h : Forest r) (incoming : Parameter) {p : Parameter}
    (hid : incoming.id ≠ .root)
    (hp : r.get? incoming.id = some p) (hd : p.datatype = incoming.datatype)
    (hparent : incoming.parent.value = some g) :
    (r.perform (.merge incoming)).home? incoming.id = some g ↔
      r.home? incoming.id = some g ∨ g = .root ∨
        (r.isGroup g = true ∧ ¬ Above r incoming.id g) := by
  have hsame : SameLinks r (r.overlay p incoming) := sameLinks_overlay hp
  have hget : (r.overlay p incoming).get? incoming.id = some (p.merge incoming) := by
    rw [get?_of_insert rfl, if_pos rfl]
  have hgroup : (r.overlay p incoming).isGroup g = r.isGroup g := by
    have hg : (r.overlay p incoming).get? g =
        if g = incoming.id then some (p.merge incoming) else r.get? g := get?_of_insert rfl g
    rw [isGroup, isGroup, hg]
    split
    · next hx =>
      rw [hx, hp, Option.any_some, Option.any_some]
      exact TypeDef.isGroup_eq_of_datatype_eq (TypeDef.datatype_merge _ _)
    · rfl
  rw [perform_merge_of_known hid hp hd, hparent,
    (h.of_sameLinks hsame).home?_follow hid hget, hsame.home?_eq, hgroup,
    above_congr hsame.home?_eq]

/-! ## One merge after the other -/

section MergeAll

variable {f : Parameter → Parameter} (hf : ∀ p, (f p).id = p.id) {ps : List Parameter}
include hf

/-- Whom none of them brings is left, but for the links. -/
theorem content_mergeAll_other (hx : x ∉ ps.map (·.id)) :
    ((r.performAll (ps.map fun p => .merge (f p))).get? x).map Parameter.content =
      (r.get? x).map Parameter.content := by
  induction ps generalizing r with
  | nil => rfl
  | cons p ps ih =>
    rw [List.map_cons, List.mem_cons, not_or, ← hf p] at hx
    exact (ih hx.2).trans (content_merge_other (f p) hx.1)

/-- Whom one of them brings has taken it over, if it was new or had its datatype. -/
theorem content_mergeAll (hnodup : (ps.map (·.id)).Nodup) {p : Parameter} (hp : p ∈ ps)
    (hid : p.id ≠ .root) (hd : ∀ q, r.get? p.id = some q → q.datatype = (f p).datatype) :
    ((r.performAll (ps.map fun p => .merge (f p))).get? p.id).map Parameter.content =
      some ((r.get? p.id).elim (f p) fun q => q.merge (f p)).content := by
  induction ps generalizing r with
  | nil => cases hp
  | cons p' ps ih =>
    rw [List.map_cons, List.nodup_cons] at hnodup
    by_cases heq : p = p'
    · subst heq
      have hmerge := content_merge (f p) (by rwa [hf]) (r := r) (by rwa [hf]) p.id
      rw [if_pos (hf p).symm, hf] at hmerge
      exact (content_mergeAll_other hf hnodup.1).trans hmerge
    · have hmem := (List.mem_cons.1 hp).resolve_left heq
      have hne : p.id ≠ p'.id := fun h => hnodup.1 (h ▸ List.mem_map_of_mem hmem)
      have hother : ((r.perform (.merge (f p'))).get? p.id).map Parameter.content =
          (r.get? p.id).map Parameter.content := content_merge_other (f p') (by rwa [hf])
      have hlater := ih (r := r.perform (.merge (f p'))) hnodup.2 hmem fun q hq => by
        obtain ⟨q', hq', hcontent⟩ := exists_of_map_eq hother.symm hq
        rw [← hd q' hq', Parameter.datatype_of_content_eq hcontent]
      refine hlater.trans (congrArg some ?_)
      cases hr : r.get? p.id with
      | none =>
        rw [hr, Option.map_none, Option.map_eq_none_iff] at hother
        rw [hother]
      | some q =>
        obtain ⟨q', hq', hcontent⟩ := exists_of_map_eq hother hr
        rw [hq']
        exact Parameter.content_merge_congr hcontent (f p)

end MergeAll

end Registry
end ParamSync
