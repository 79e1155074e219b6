import ParamSync.Proofs.Codec.Packet
import ParamSync.Proofs.Registry.Changes
import ParamSync.Proofs.Registry.Merging

/-!
# What removals and moves leave

A removal takes a subtree out at once, but only its top is told, and it is told before the moves
are. So a mirror takes out what was below the removed parameters when it last heard of the tree:
who has been moved into a removed subtree since stays there, and who has been moved out of one goes
and comes back empty, if it comes back.

Results:
* `Trims.performAll`: what moves and removals do to the parameters that stay.
* `Forest.removeAll`: what a mirror takes out.
* `shown_performAll`: what the packets of the moves bring.
* `content_afterTick`: what a tick makes of a parameter of a mirror that stays.
* `mirror_shows_iff`: when the mirror shows what is there.
-/

namespace ParamSync

open Registry

/-! ## Parameters -/

namespace Parameter

/-- What people see of a parameter, its value and its label. -/
def shown (p : Parameter) : Option Value × Option String × Std.ExtTreeMap String String :=
  (p.value.value, p.label.text, p.label.languages)

/-- What people see of a parameter that has neither. -/
def blank : Option Value × Option String × Std.ExtTreeMap String String := (none, none, ∅)

theorem shown_of_content_eq {p p' : Parameter} (h : p'.content = p.content) :
    p'.shown = p.shown := by
  have := congrArg Parameter.shown h
  exact this

theorem hasChanges_content {p : Parameter} (h : p.hasChanges = false) :
    p.content.hasChanges = false := by
  simp_all [hasChanges, content]

section Quiet

variable {p : Parameter} (h : p.content.hasChanges = false)
include h

/-- Of a parameter of which nothing but the group changed neither value nor label is sent. -/
theorem heard_of_quiet :
    (p.heard false).value.value = none ∧ (p.heard false).label = {} := by
  have hvalue : p.value.changed = false := by simp_all [hasChanges, content]
  have hlabel : p.label.changed = false := by simp_all [hasChanges, content]
  constructor
  · unfold heard
    split
    · have := p.value.value_heard_false (p.definition.zero?.getD (.bytes []))
      rw [hvalue] at this
      simp [Field.map, this]
    · rfl
  · simp [heard, LocalizedText.heard, hlabel]

theorem legible_of_quiet (hd : p.definition.WellFormed) : p.Legible false := by
  have hlabel : p.label.changed = false := by simp_all [hasChanges, content]
  have hdescription : p.description.changed = false := by simp_all [hasChanges, content]
  exact ⟨hd, by simp [hlabel], by simp [hdescription]⟩

theorem shown_heard_of_quiet : (p.heard false).shown = blank := by
  obtain ⟨hvalue, hlabel⟩ := heard_of_quiet h
  rw [shown, hvalue, hlabel]
  rfl

theorem shown_merge_of_quiet (q : Parameter) : (q.merge (p.heard false)).shown = q.shown := by
  obtain ⟨hvalue, hlabel⟩ := heard_of_quiet h
  have hacceptable : q.acceptable (p.heard false) = none := by rw [acceptable, hvalue]; rfl
  have hmerge : q.label.merge {} = q.label := by
    rw [LocalizedText.merge, Std.ExtTreeMap.foldl_eq_foldl_toList, Option.none_or]
    rfl
  rw [shown, shown, merge, hacceptable, hlabel, hmerge]

end Quiet
end Parameter

namespace Registry

variable {s r r' m : Registry} {i j x : ParamId}

/-! ## Moves and removals -/

/-- A move or a removal. -/
def Op.Trims : Op → Prop
  | .move _ _ | .remove _ => True
  | _ => False

theorem Op.Trims.legal {op : Op} (h : op.Trims) : op.Legal := by
  cases op with
  | move | remove => exact ⟨trivial, trivial⟩
  | _ => exact h.elim

/-- Whoever is in `r` was in `s`, the same but for its links, and who is dirty is there. -/
structure Trims (s r : Registry) : Prop where
  content : ∀ {x p'}, r.get? x = some p' → ∃ p, s.get? x = some p ∧ p'.content = p.content
  alive : ∀ {x}, x ∈ r.dirty → x ≠ .root ∧ ∃ p, r.get? x = some p

namespace Trims

theorem refl (hdirty : s.dirty = ∅) : Trims s s where
  content hp := ⟨_, hp, rfl⟩
  alive := by simp [hdirty]

theorem trans_content (h : Trims s r)
    (hcontent : ∀ x p', r'.get? x = some p' → ∃ p, r.get? x = some p ∧ p'.content = p.content)
    (halive : ∀ x, x ∈ r'.dirty → x ≠ .root ∧ ∃ p, r'.get? x = some p) : Trims s r' where
  content := by
    intro x p' hp'
    obtain ⟨q, hq, heq⟩ := hcontent x p' hp'
    obtain ⟨p, hp, heq'⟩ := h.content hq
    exact ⟨p, hp, heq.trans heq'⟩
  alive := halive _

theorem move (h : Trims s r) {id : ParamId} {group : Option ParamId}
    (hm : r.move id group = .ok r') : Trims s r' := by
  obtain ⟨hid, -, -, ⟨-, rfl⟩ | ⟨m, hm', rfl⟩⟩ := move_ok hm
  · exact h
  have hget : ∀ x, (m.setDirty id).get? x = m.get? x := by
    intro x
    rw [get?, get?, parameters_setDirty]
  have hsame : ∀ x, (m.get? x).map Parameter.content = (r.get? x).map Parameter.content :=
    content_relink hm'
  have hkeep : ∀ x p, r.get? x = some p → ∃ q, m.get? x = some q := by
    intro x p hp
    exact (exists_of_map_eq (hsame x) hp).imp fun _ => And.left
  obtain ⟨p, hp, -, hmeq⟩ := relink?_eq_some hm'
  have hdirty : ∀ x, x ∈ (m.setDirty id).dirty → x = id ∨ x ∈ r.dirty := by
    intro x hx
    have hmdirty : m.dirty = r.dirty := by rw [hmeq]; rfl
    unfold setDirty at hx
    split at hx
    · exact .inr (hmdirty ▸ hx)
    · rwa [IdSet.mem_insert_iff, hmdirty] at hx
  refine h.trans_content (fun x p' hp' => ?_) fun x hx => ?_
  · rw [hget] at hp'
    exact (exists_of_map_eq (hsame x).symm hp').imp fun _ h => ⟨h.1, h.2.symm⟩
  · rw [hget]
    rcases hdirty x hx with rfl | hx
    · exact ⟨hid, hkeep _ p hp⟩
    · obtain ⟨hroot, q, hq⟩ := h.alive hx
      exact ⟨hroot, hkeep x q hq⟩

theorem remove (h : Trims s r) (hf : Forest r) {id : ParamId} {found : Bool}
    (hr : r.remove id = .ok (found, r')) : Trims s r' := by
  obtain ⟨hid, ⟨-, ⟨p, hp⟩, rfl⟩ | ⟨-, -, -, rfl⟩⟩ := remove_ok hr
  · have hget : ∀ x, ({ (r.evict id).1 with removed := r.removed.insert id } : Registry).get? x =
        (r.evict id).1.get? x := fun _ => rfl
    refine h.trans_content (fun x p' hp' => ?_) fun x hx => ?_
    · rw [hget] at hp'
      have hx : ¬ Above r id x := by
        intro hx
        rw [hf.get?_evict_of_above hid hp hx] at hp'
        cases hp'
      rw [hf.get?_evict_of_not_above hid hp hx] at hp'
      split at hp'
      · obtain ⟨q, hq, rfl⟩ := Option.map_eq_some_iff.1 hp'
        exact ⟨q, hq, rfl⟩
      · exact ⟨p', hp', rfl⟩
    · obtain ⟨hxdirty, hx⟩ := (hf.mem_dirty_evict hid hp).1 hx
      obtain ⟨hroot, q, hq⟩ := h.alive hxdirty
      refine ⟨hroot, ?_⟩
      rw [hget, hf.get?_evict_of_not_above hid hp hx, hq]
      split
      · exact ⟨_, rfl⟩
      · exact ⟨_, rfl⟩
  · exact h

theorem performAll (h : Trims s r) (hf : Forest r) {ops : List Op} (hops : ∀ op ∈ ops, op.Trims) :
    Trims s (r.performAll ops) := by
  induction ops generalizing r with
  | nil => exact h
  | cons op ops ih =>
    obtain ⟨hop, hops⟩ := List.forall_mem_cons.1 hops
    refine ih ?_ (hf.perform _ hop.legal.childless) hops
    cases op with
    | move id group => exact of_orSame (P := Trims s) h fun _ hok => h.move hok
    | remove id => exact of_orSame (P := Trims s) h fun _ hok => h.remove hf hok
    | _ => exact hop.elim

end Trims

/-! ## Taking out -/

/-- Whoever is there and not the root can be removed. -/
theorem perform_remove {p : Parameter} (hi : i ≠ .root) (hp : r.get? i = some p) :
    r.perform (.remove i) = { (r.evict i).1 with removed := r.removed.insert i } := by
  rw [perform, remove_of_alive hi hp]
  rfl

namespace Forest

variable (h : Forest m)
include h

theorem removeDirect_of_above (hx : Above m i x) : (m.perform (.removeDirect i)).get? x = none := by
  obtain ⟨l, hl, hmem⟩ := hx
  obtain ⟨hi, g, hg⟩ := hl.alive_of_mem hmem
  obtain ⟨p, hp, -⟩ := home?_eq_some_iff.1 hg
  have hroot : ¬ i.isRoot = true := by simpa using hi
  rw [Registry.perform, Registry.removeDirect, if_neg hroot]
  exact h.get?_evict_of_above hi hp ⟨l, hl, hmem⟩

/-- Whoever is not taken out stays as it is, but for its members. -/
theorem removeDirect_of_not_above (hx : ¬ Above m i x) :
    (∃ f : Parameter → Parameter, (∀ p, (f p).content = p.content ∧ (f p).home = p.home) ∧
      (m.perform (.removeDirect i)).get? x = (m.get? x).map f) := by
  have hsame : ∃ f : Parameter → Parameter, (∀ p, (f p).content = p.content ∧ (f p).home = p.home) ∧
      m.get? x = (m.get? x).map f := ⟨id, fun _ => ⟨rfl, rfl⟩, by simp⟩
  rw [Registry.perform, Registry.removeDirect]
  by_cases hroot : i.isRoot = true
  · rw [if_pos hroot]
    exact hsame
  · rw [if_neg hroot]
    cases hp : m.get? i with
    | none =>
      rw [evict_of_dead hp]
      exact hsame
    | some p =>
      rw [h.get?_evict_of_not_above (by simpa using hroot) hp hx]
      split
      · exact ⟨(·.eraseChild i), fun _ => ⟨rfl, rfl⟩, rfl⟩
      · exact hsame

theorem home?_removeDirect (hx : ¬ Above m i x) :
    (m.perform (.removeDirect i)).home? x = m.home? x := by
  obtain ⟨f, hf, hget⟩ := h.removeDirect_of_not_above hx
  rw [home?, hget, Option.map_map, home?]
  congr 1
  funext p
  exact (hf p).2

/-- Who stays has the same above it. -/
theorem above_removeDirect (hx : ¬ Above m i x) :
    Above (m.perform (.removeDirect i)) j x ↔ Above m j x := by
  have hlineage : ∀ l, Lineage m x l → Lineage (m.perform (.removeDirect i)) x l := by
    intro l hl
    refine hl.congr fun y hy => h.home?_removeDirect fun hiy => hx (hiy.trans ⟨l, hl, hy⟩)
  constructor
  · rintro ⟨l, hl, hmem⟩
    have halive : ∃ g, m.home? x = some g := by
      by_cases hroot : x = .root
      · exact ⟨_, hroot ▸ h.root⟩
      · obtain ⟨-, g, hg⟩ := hl.alive_of_mem (hl.self_mem hroot)
        exact ⟨g, (h.home?_removeDirect hx).symm.trans hg⟩
    obtain ⟨g, hg⟩ := halive
    obtain ⟨l', hl'⟩ := h.rooted hg
    obtain rfl := (hlineage l' hl').unique hl
    exact ⟨l', hl', hmem⟩
  · rintro ⟨l, hl, hmem⟩
    exact ⟨l, hlineage l hl, hmem⟩

/-- A mirror takes out whoever was below one of those that it is told of. -/
theorem removeAll (ids : List ParamId) :
    Forest (m.performAll (ids.map .removeDirect)) ∧ ∀ x,
      ((∃ i ∈ ids, Above m i x) → (m.performAll (ids.map .removeDirect)).get? x = none) ∧
      ((¬ ∃ i ∈ ids, Above m i x) →
        ((m.performAll (ids.map .removeDirect)).get? x).map Parameter.content =
          (m.get? x).map Parameter.content) := by
  induction ids generalizing m with
  | nil => exact ⟨h, fun x => ⟨by simp, fun _ => rfl⟩⟩
  | cons i ids ih =>
    obtain ⟨hforest, hrest⟩ := ih (h.perform (.removeDirect i) trivial)
    refine ⟨hforest, fun x => ?_⟩
    obtain ⟨hgone, hstays⟩ := hrest x
    by_cases hx : Above m i x
    · refine ⟨fun _ => ?_, fun hnone => absurd ⟨i, List.mem_cons_self, hx⟩ hnone⟩
      by_cases hlater : ∃ j ∈ ids, Above (m.perform (.removeDirect i)) j x
      · exact hgone hlater
      · have hsame := hstays hlater
        rw [h.removeDirect_of_above hx] at hsame
        exact Option.map_eq_none_iff.1 hsame
    · have hlater : (∃ j ∈ i :: ids, Above m j x) ↔
          ∃ j ∈ ids, Above (m.perform (.removeDirect i)) j x := by
        simp [hx, h.above_removeDirect hx]
      rw [hlater]
      refine ⟨hgone, fun hnone => (hstays hnone).trans ?_⟩
      obtain ⟨f, hf, hget⟩ := h.removeDirect_of_not_above hx
      rw [hget, Option.map_map]
      congr 1
      funext p
      exact (hf p).1

end Forest

/-! ## Putting back -/

/-- Parameters of which nothing but the group changed leave values and labels as they are where they
are known, and come without where they are not. -/
theorem shown_performAll {ps : List Parameter}
    (hps : ∀ p ∈ ps, p.id ≠ .root ∧ p.content.hasChanges = false) (hnodup : (ps.map (·.id)).Nodup)
    (hd : ∀ p ∈ ps, ∀ q, m.get? p.id = some q → q.datatype = p.datatype) (x : ParamId) :
    ((m.performAll (ps.map fun p => .merge (p.heard false))).get? x).map Parameter.shown =
      ((m.get? x).map Parameter.shown).or
        (if x ∈ ps.map (·.id) then some Parameter.blank else none) := by
  by_cases hmem : x ∈ ps.map (·.id)
  · rw [if_pos hmem]
    obtain ⟨p, hp, rfl⟩ := List.mem_map.1 hmem
    obtain ⟨hid, hquiet⟩ := hps p hp
    have hmerged := congrArg (Option.map Parameter.shown)
      (content_mergeAll (f := (·.heard false)) (fun _ => rfl) hnodup hp hid fun q hq =>
        (hd p hp q hq).trans (p.datatype_heard false).symm)
    rw [Option.map_map] at hmerged
    refine Eq.trans hmerged ?_
    cases m.get? p.id with
    | none => exact congrArg some (Parameter.shown_heard_of_quiet hquiet)
    | some q => exact congrArg some (Parameter.shown_merge_of_quiet hquiet q)
  · have hother := congrArg (Option.map Parameter.shown)
      (content_mergeAll_other (r := m) (f := (·.heard false)) (fun _ => rfl) hmem)
    rw [Option.map_map, Option.map_map] at hother
    rw [if_neg hmem, Option.or_none]
    exact hother

/-! ## The mirror -/

/-- The same parameters in the same groups, with the same values and labels. -/
def Agrees (s m : Registry) : Prop :=
  ∀ x, (m.get? x).map (fun p => (p.datatype, p.home, p.shown)) =
    (s.get? x).map (fun p => (p.datatype, p.home, p.shown))

/-- The mirror once it has been told of the removals and then of the moves. -/
def afterTick (m r : Registry) : Registry :=
  (m.performAll (r.removed.toList.map .removeDirect)).performAll
    (r.unsent.map fun p => .merge (p.heard false))

/-- One parameter of the mirror: if no removal takes it out, it takes over what it is told of, if it
is told of anything. -/
theorem content_afterTick {x : ParamId} {p q : Parameter} (hm : Forest m) (hr : Forest r)
    (halive : ∀ y ∈ r.dirty, ∃ p, r.get? y = some p) (hx : x ≠ .root) (hq : m.get? x = some q)
    (hp : r.get? x = some p) (hd : q.datatype = p.datatype)
    (hstays : ∀ i ∈ r.removed, ¬ Above m i x) :
    ((m.afterTick r).get? x).map Parameter.content =
      some (if x ∈ r.dirty then q.merge (p.heard false) else q).content := by
  have hkept : ((m.performAll (r.removed.toList.map .removeDirect)).get? x).map
      Parameter.content = some q.content := by
    rw [((hm.removeAll r.removed.toList).2 x).2 fun ⟨i, hi, habove⟩ =>
      hstays i (Std.ExtTreeSet.mem_toList.1 hi) habove, hq]
    rfl
  obtain ⟨q₁, hq₁, hcontent⟩ := Option.map_eq_some_iff.1 hkept
  have hids := map_id_unsent hr.keyed halive
  obtain rfl := hr.keyed hp
  split
  · next hdirty =>
    have hmem : p ∈ r.unsent := List.mem_filterMap.2 ⟨_, Std.ExtTreeSet.mem_toList.2 hdirty, hp⟩
    have hmerged := content_mergeAll (f := (·.heard false)) (fun _ => rfl)
      (hids ▸ nodup_toList r.dirty) hmem hx fun q' hq' => by
        rw [hq₁, Option.some.injEq] at hq'
        rw [← hq', Parameter.datatype_of_content_eq hcontent, hd, Parameter.datatype_heard]
    rw [afterTick, hmerged, hq₁]
    exact congrArg some (Parameter.content_merge_congr hcontent _)
  · next hdirty =>
    have hnot : p.id ∉ r.unsent.map (·.id) := by rwa [hids, Std.ExtTreeSet.mem_toList]
    exact (content_mergeAll_other (f := (·.heard false)) (fun _ => rfl) hnot).trans hkept

/-- Somebody above was removed, when the mirror last heard of the tree. -/
def WasBelow (s r : Registry) (x : ParamId) : Prop := ∃ i ∈ r.removed, Above s i x

section Mirror

variable (hm : Forest m) (hr : Forest r) (hagrees : Agrees s m) (ht : Trims s r)
  (hclean : ∀ x p, s.get? x = some p → p.hasChanges = false)

include hagrees in
theorem home?_of_agrees (y : ParamId) : m.home? y = s.home? y := by
  have := congrArg (Option.map (·.2.1)) (hagrees y)
  rwa [Option.map_map, Option.map_map] at this

include hagrees in
theorem shown_of_agrees (y : ParamId) :
    (m.get? y).map Parameter.shown = (s.get? y).map Parameter.shown := by
  have := congrArg (Option.map (·.2.2)) (hagrees y)
  rwa [Option.map_map, Option.map_map] at this

include hagrees ht in
/-- What the mirror has and what has become of it have the same datatype. -/
theorem datatype_of_agrees {y : ParamId} {p q : Parameter} (hq : m.get? y = some q)
    (hp : r.get? y = some p) : q.datatype = p.datatype := by
  obtain ⟨p₀, hp₀, hcontent⟩ := ht.content hp
  have hy := hagrees y
  rw [hq, hp₀, Option.map_some, Option.map_some, Option.some.injEq] at hy
  exact (congrArg (·.1) hy).trans (Parameter.datatype_of_content_eq hcontent).symm

include hr ht hclean in
theorem quiet_unsent {p : Parameter} (hp : p ∈ r.unsent) :
    p.id ≠ .root ∧ p.content.hasChanges = false := by
  obtain ⟨hdirty, hget⟩ := mem_unsent hr.keyed hp
  obtain ⟨p₀, hp₀, hcontent⟩ := ht.content hget
  rw [hcontent]
  exact ⟨(ht.alive hdirty).1, Parameter.hasChanges_content (hclean _ p₀ hp₀)⟩

include hm hr hagrees ht hclean

/-- Afterwards the mirror shows whoever was not below somebody that was removed, and whoever it has
been told of. -/
theorem shown_afterTick (x : ParamId) :
    (WasBelow s r x → ((m.afterTick r).get? x).map Parameter.shown =
      if x ∈ r.dirty then some Parameter.blank else none) ∧
    (¬ WasBelow s r x → ((m.afterTick r).get? x).map Parameter.shown =
      ((s.get? x).map Parameter.shown).or
        (if x ∈ r.dirty then some Parameter.blank else none)) := by
  have hbelow : ∀ y, (∃ i ∈ r.removed.toList, Above m i y) ↔ WasBelow s r y := by
    intro y
    simp [WasBelow, Std.ExtTreeSet.mem_toList, above_congr (home?_of_agrees hagrees)]
  have hremoved := (hm.removeAll r.removed.toList).2
  have hids := map_id_unsent hr.keyed fun y hy => (ht.alive hy).2
  have hdatatype : ∀ p ∈ r.unsent, ∀ q,
      (m.performAll (r.removed.toList.map .removeDirect)).get? p.id = some q →
        q.datatype = p.datatype := by
    intro p hp q hq
    obtain ⟨-, hget⟩ := mem_unsent hr.keyed hp
    obtain ⟨hgone, hstays⟩ := hremoved p.id
    have hnot : ¬ ∃ i ∈ r.removed.toList, Above m i p.id := fun hx => by
      rw [hgone hx] at hq
      cases hq
    obtain ⟨q₀, hq₀, heq⟩ := exists_of_map_eq (hstays hnot).symm hq
    rw [← Parameter.datatype_of_content_eq heq, datatype_of_agrees hagrees ht hq₀ hget]
  have hlast := shown_performAll (fun p hp => quiet_unsent hr ht hclean hp)
    (hids ▸ nodup_toList r.dirty) hdatatype x
  rw [hids, ← afterTick] at hlast
  simp only [Std.ExtTreeSet.mem_toList] at hlast
  obtain ⟨hgone, hstays⟩ := hremoved x
  rw [hlast, ← hbelow]
  refine ⟨fun hx => ?_, fun hx => ?_⟩
  · rw [hgone hx, Option.map_none, Option.none_or]
  · have hsame := congrArg (Option.map Parameter.shown) (hstays hx)
    rw [Option.map_map, Option.map_map] at hsame
    rw [← shown_of_agrees hagrees]
    exact congrArg (Option.or · _) hsame

/-- The mirror shows what is there exactly if whoever is gone was below somebody that was removed,
and whoever was there and is not gone is told of and has nothing to show. -/
theorem mirror_shows_iff :
    (∀ x, ((m.afterTick r).get? x).map Parameter.shown = (r.get? x).map Parameter.shown) ↔
      (∀ x p, s.get? x = some p → r.get? x = none → WasBelow s r x) ∧
      ∀ x p, r.get? x = some p → WasBelow s r x → x ∈ r.dirty ∧ p.shown = Parameter.blank := by
  have hafter := shown_afterTick hm hr hagrees ht hclean
  have hdead : ∀ x, r.get? x = none → x ∉ r.dirty := by
    intro x hx hdirty
    obtain ⟨-, p, hp⟩ := ht.alive hdirty
    rw [hx] at hp
    cases hp
  constructor
  · intro hall
    refine ⟨fun x p hp hx => ?_, fun x p hp hbelow => ?_⟩
    · by_contra hnot
      have hshown := (hafter x).2 hnot
      rw [hall, hx, hp] at hshown
      cases hshown
    · have hshown := (hafter x).1 hbelow
      rw [hall, hp, Option.map_some] at hshown
      split at hshown
      · next hdirty => exact ⟨hdirty, Option.some.inj hshown⟩
      · cases hshown
  · rintro ⟨hgone, hstays⟩ x
    by_cases hbelow : WasBelow s r x
    · rw [(hafter x).1 hbelow]
      cases hp : r.get? x with
      | none => rw [if_neg (hdead x hp), Option.map_none]
      | some p =>
        obtain ⟨hdirty, hblank⟩ := hstays x p hp hbelow
        rw [if_pos hdirty, Option.map_some, hblank]
    · rw [(hafter x).2 hbelow]
      cases hp : r.get? x with
      | none =>
        have hnone : s.get? x = none := by
          cases hs : s.get? x with
          | none => rfl
          | some p => exact absurd (hgone x p hs hp) hbelow
        rw [if_neg (hdead x hp), hnone]
        rfl
      | some p =>
        obtain ⟨p₀, hp₀, hcontent⟩ := ht.content hp
        rw [hp₀, Option.map_some, Option.some_or, Option.map_some,
          Parameter.shown_of_content_eq hcontent]

end Mirror

end Registry
end ParamSync
