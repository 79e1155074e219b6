import ParamSync.Proofs.Codec.Gaining
import ParamSync.Proofs.Registry.Merging

/-!
# What a merge reports

A merge says whether the parameter was new, or changed, or neither, and tells the watcher of a
parameter that changed. The report goes by what is gained, field by field, and by whether the
parameter follows into the group that the other names. Where the other has no NaN the report is
true, and after the merge there is nothing left to take over: the same once more changes nothing.

Results:
* `merge_of_settled`: who has all that the other has, and is where it can be, is left as it is.
* `get?_ne_of_gained`, `overlay_of_not_gained`: what is reported as a change is one, and what is not
  is none.
* `merge_again`: after a merge there is nothing left to take over.
* `Reachable.merge_reports`: all this of every registry that a run makes.
-/

namespace ParamSync

/-- Entering what is there already. -/
theorem IdMap.insert_of_getElem? {α : Type} {m : IdMap α} {id : ParamId} {a : α}
    (h : m[id]? = some a) : m.insert id a = m := by
  refine Std.ExtTreeMap.ext_getElem? fun x => ?_
  rw [IdMap.getElem?_insert_eq]
  split
  · next hx => rw [hx, h]
  · rfl

/-- The notice says that a peer has changed something. -/
def Notice.isUpdated : Notice → Bool
  | updated _ _ => true
  | value _ _ => false

namespace Parameter

theorem filter_valueNotices (p : Parameter) : p.valueNotices.filter Notice.isUpdated = [] := by
  unfold valueNotices
  split <;> rfl

theorem filter_updatedNotices (p : Parameter) :
    p.updatedNotices.filter Notice.isUpdated = p.updatedNotices := by
  unfold updatedNotices
  split <;> rfl

/-- What is gained has nothing to do with the place. -/
theorem gains_congr {p q : Parameter} (h : p.content = q.content) (other : Parameter) :
    p.gains other = q.gains other := by
  have := congrArg (fun p => Parameter.gains p other) h
  exact this

theorem gainsValue_of_gains {p other : Parameter} (h : p.gains other = false) :
    p.gainsValue other = false := by
  simp only [gains, Bool.or_eq_false_iff] at h
  exact h.1.1.1.1.1.1.1

/-- A merge that changes the content changes the parameter, and it changes nothing else. -/
theorem merge_eq_self_of_content {p other : Parameter} (h : (p.merge other).content = p.content) :
    p.merge other = p := by
  have hplace : p.merge other =
      { (p.merge other).content with parent := p.parent, children := p.children } := rfl
  rw [hplace, h]
  rfl

end Parameter

namespace Registry

variable {r r' : Registry} {id : ParamId} {incoming p : Parameter} {outcome : Merge}
  {notices : List Notice}

/-! ## Nothing to take over -/

theorem isWithin_self (r : Registry) (id : ParamId) : r.isWithin id id = true := by
  rw [isWithin, isWithinSteps, beq_self_eq_true, Bool.true_or]

/-- Who is where it could be told to go does not follow. -/
theorem follow?_of_there {reference : Option ParamId}
    (h : ∀ p, r.get? id = some p → r.Accepts id (reference.filter (!·.isRoot)) →
      p.home = Parameter.target reference) : r.follow? id reference = none := by
  cases hf : r.follow? id reference with
  | none => rfl
  | some m =>
    obtain ⟨-, ha, hm⟩ := follow?_eq_some hf
    obtain ⟨p, hp, hne, -⟩ := relink?_eq_some hm
    exact absurd (h p hp ha) hne

theorem overlay_of_merge_eq_self (hp : r.get? incoming.id = some p) (h : p.merge incoming = p) :
    r.overlay p incoming = r := by
  rw [overlay, h, IdMap.insert_of_getElem? hp]

/-- What a merge makes of a known parameter, and what it reports of it. -/
theorem merge_of_known (hid : incoming.id ≠ .root) (hp : r.get? incoming.id = some p)
    (hd : p.datatype = incoming.datatype) {followed : Option Registry}
    (hf : (r.overlay p incoming).follow? incoming.id incoming.parent.value = followed) :
    r.merge incoming =
      if p.gains incoming || followed.isSome then
        .ok (.updated, followed.getD (r.overlay p incoming),
          (if p.gainsValue incoming then (p.merge incoming).valueNotices else []) ++
            (((followed.getD (r.overlay p incoming)).get? incoming.id).map
              (·.updatedNotices)).getD [])
      else
        .ok (.unchanged, r.overlay p incoming,
          if p.gainsValue incoming then (p.merge incoming).valueNotices else []) := by
  have hroot : ¬ incoming.id.isRoot = true := by simpa using hid
  rw [merge, if_neg hroot, hp]
  dsimp only
  rw [if_neg (not_not.2 hd), ← hf]
  rfl

/-- Who has all that the other has, and is where it can be, is left as it is. -/
theorem merge_of_settled (hid : incoming.id ≠ .root) (hp : r.get? incoming.id = some p)
    (hd : p.datatype = incoming.datatype) (hgains : p.gains incoming = false)
    (hmerge : p.merge incoming = p)
    (hfollow : r.follow? incoming.id incoming.parent.value = none) :
    r.merge incoming = .ok (.unchanged, r, []) := by
  have hover := overlay_of_merge_eq_self hp hmerge
  rw [merge_of_known hid hp hd (hover ▸ hfollow), hgains, hover,
    Parameter.gainsValue_of_gains hgains]
  rfl

/-! ## What is left after a merge -/

/-- Who has been registered is in the group that it names, if that can be gone to. -/
theorem follow?_attach (hid : incoming.id ≠ .root) (hnew : r.get? incoming.id = none) :
    (r.attach incoming).follow? incoming.id incoming.parent.value = none := by
  refine follow?_of_there fun p hp ha => ?_
  rw [get?_attach hid hnew, if_pos rfl, Option.some.injEq] at hp
  have hhome : (r.entered incoming).home = (incoming.group?.filter r.isGroup).getD .root :=
    congrArg (·.2.1) (r.links_entered incoming)
  rw [← hp, hhome, Parameter.target, Parameter.group?]
  cases hg : incoming.parent.value.filter (!·.isRoot) with
  | none => rfl
  | some g =>
    obtain ⟨-, ⟨q, hq, hgroup⟩, hw⟩ := ha g hg
    have hisGroup : r.isGroup g = true := by
      rcases get?_attach_cases hid hnew hq with ⟨rfl, -⟩ | ⟨q', children, hq', rfl⟩
      · -- nobody can be put into itself
        rw [isWithin_self] at hw
        cases hw
      · exact isGroup_eq_true_iff.2 ⟨q', hq', hgroup⟩
    rw [Option.filter_some, if_pos hisGroup]

/-- Who has followed does not follow again, and who has not could not. -/
theorem follow?_followed (r : Registry) (id : ParamId) (reference : Option ParamId) :
    ((r.follow? id reference).getD r).follow? id reference = none := by
  cases hf : r.follow? id reference with
  | none => exact hf
  | some m =>
    obtain ⟨-, -, hm⟩ := follow?_eq_some hf
    refine follow?_of_there fun p hp _ => ?_
    rw [Option.getD_some] at hp
    have hhome := Forest.home?_relink hm (Parameter.target_filter reference) id
    rw [if_pos rfl, home?_of_get? hp] at hhome
    exact Option.some.inj hhome

theorem get?_overlay_self (r : Registry) (p incoming : Parameter) :
    (r.overlay p incoming).get? incoming.id = some (p.merge incoming) := by
  rw [get?_of_insert (r := r) rfl, if_pos rfl]

/-- After a merge there is nothing left to take over. -/
theorem merge_again (hnan : incoming.NoNaN)
    (h : r.merge incoming = .ok (outcome, r', notices)) :
    r'.merge incoming = .ok (.unchanged, r', []) := by
  have htruthful := Parameter.truthful hnan
  -- whoever has a content that gains nothing is settled
  have hsettled : ∀ {q e : Parameter}, r'.get? incoming.id = some q → q.content = e.content →
      e.datatype = incoming.datatype → e.gains incoming = false → incoming.id ≠ .root →
      r'.follow? incoming.id incoming.parent.value = none →
      r'.merge incoming = .ok (.unchanged, r', []) := by
    intro q e hq hcontent hd hgains hid hfollow
    have hqgains : q.gains incoming = false := (Parameter.gains_congr hcontent _).trans hgains
    exact merge_of_settled hid hq ((Parameter.datatype_of_content_eq hcontent).trans hd) hqgains
      ((htruthful.eq_self_iff q).2 hqgains) hfollow
  obtain ⟨hid, ⟨hnew, rfl⟩ | ⟨p, hp, hd, rfl⟩⟩ := merge_ok h
  · have hget := get?_attach (r := r) hid hnew incoming.id
    rw [if_pos rfl] at hget
    have hcontent := content_attach (r := r) hid hnew incoming.id
    rw [hget, if_pos rfl, Option.map_some, Option.some.injEq] at hcontent
    exact hsettled hget hcontent rfl htruthful.self hid (follow?_attach hid hnew)
  · have hcontent := content_follow (r.overlay p incoming) incoming.id incoming.parent.value
      incoming.id
    rw [get?_overlay_self, Option.map_some, Option.map_eq_some_iff] at hcontent
    obtain ⟨q, hq, hcontent⟩ := hcontent
    have hdatatype : (p.merge incoming).datatype = incoming.datatype :=
      (TypeDef.datatype_merge _ _).trans hd
    exact hsettled hq hcontent hdatatype (htruthful.again p) hid (follow?_followed _ _ _)

/-! ## What is reported -/

/-- What was reported as a change of a known parameter is one. -/
theorem get?_ne_of_gained (hnan : incoming.NoNaN) (hp : r.get? incoming.id = some p)
    {followed : Option Registry}
    (hf : (r.overlay p incoming).follow? incoming.id incoming.parent.value = followed)
    (hchange : (p.gains incoming || followed.isSome) = true) :
    (followed.getD (r.overlay p incoming)).get? incoming.id ≠ r.get? incoming.id := by
  intro hsame
  rw [hp] at hsame
  have hcontent := content_follow (r.overlay p incoming) incoming.id incoming.parent.value
    incoming.id
  rw [hf, hsame, get?_overlay_self, Option.map_some, Option.map_some, Option.some.injEq]
    at hcontent
  have hgains : p.gains incoming = false :=
    ((Parameter.truthful hnan).eq_self_iff p).1
      (Parameter.merge_eq_self_of_content hcontent.symm)
  -- so it followed, and then it is elsewhere
  rw [hgains, Bool.false_or, Option.isSome_iff_exists] at hchange
  obtain ⟨m, rfl⟩ := hchange
  rw [Option.getD_some] at hsame
  obtain ⟨-, -, hm⟩ := follow?_eq_some hf
  obtain ⟨q, hq, hne, -⟩ := relink?_eq_some hm
  rw [get?_overlay_self, Option.some.injEq] at hq
  have hhome := Forest.home?_relink hm (Parameter.target_filter incoming.parent.value) incoming.id
  rw [if_pos rfl, home?_of_get? hsame, Option.some.injEq] at hhome
  rw [← hq] at hne
  exact hne hhome

/-- What was not reported as a change is none. -/
theorem overlay_of_not_gained (hnan : incoming.NoNaN) (hp : r.get? incoming.id = some p)
    (h : p.gains incoming = false) : r.overlay p incoming = r :=
  overlay_of_merge_eq_self hp (((Parameter.truthful hnan).eq_self_iff p).2 h)

/-- A known parameter keeps its identifier. -/
theorem id_of_merge_known {q : Parameter}
    (hq : (((r.overlay p incoming).follow? incoming.id incoming.parent.value).getD
      (r.overlay p incoming)).get? incoming.id = some q) : q.id = p.id := by
  have hcontent := content_follow (r.overlay p incoming) incoming.id incoming.parent.value
    incoming.id
  rw [hq, get?_overlay_self, Option.map_some, Option.map_some, Option.some.injEq] at hcontent
  have hid := congrArg Parameter.id hcontent
  exact hid

/-- A merge reports a parameter as added exactly if it was not there, as unchanged exactly if it was
there and nothing changed, and as updated otherwise. Its watcher is told once that it was updated if
it was, and not at all otherwise. After the merge a second one of the same changes nothing, reports
that and tells nobody. -/
theorem Reachable.merge_reports (hr : Reachable (fun _ op => op.Childless) r)
    (hnan : incoming.NoNaN) (h : r.merge incoming = .ok (outcome, r', notices)) :
    (outcome = .added ↔ r.get? incoming.id = none) ∧
    (outcome = .unchanged ↔ r.get? incoming.id ≠ none ∧ ∀ x, r'.get? x = r.get? x) ∧
    (outcome = .updated ↔ r.get? incoming.id ≠ none ∧ ∃ x, r'.get? x ≠ r.get? x) ∧
    (∀ q, r'.get? incoming.id = some q → notices.filter Notice.isUpdated =
      if outcome = .updated ∧ q.watched = true then [.updated incoming.id q.value.value] else []) ∧
    r'.merge incoming = .ok (.unchanged, r', []) := by
  have hagain := merge_again hnan h
  obtain ⟨hid, ⟨hnew, -⟩ | ⟨p, hp, hd, -⟩⟩ := merge_ok h
  · rw [merge_of_unknown hid hnew] at h
    cases h
    exact ⟨by simp [hnew], by simp [hnew], by simp [hnew], by simp, hagain⟩
  have hkeyed : p.id = incoming.id := (hr.forest fun _ _ hop => hop).keyed hp
  have hmerge := merge_of_known hid hp hd rfl
  rw [h] at hmerge
  split at hmerge
  · next hchange =>
    cases hmerge
    have hne := get?_ne_of_gained hnan hp rfl hchange
    refine ⟨by simp [hp], iff_of_false (by simp) fun hsame => hne (hsame.2 _),
      iff_of_true rfl ⟨by simp [hp], _, hne⟩, fun q hq => ?_, hagain⟩
    have hqid : q.id = incoming.id := (id_of_merge_known hq).trans hkeyed
    have hvalue : (if p.gainsValue incoming then (p.merge incoming).valueNotices else []).filter
        Notice.isUpdated = [] := by
      split
      · exact Parameter.filter_valueNotices _
      · rfl
    rw [hq, List.filter_append, hvalue, Option.map_some, Option.getD_some,
      Parameter.filter_updatedNotices, List.nil_append, Parameter.updatedNotices, hqid]
    simp
  · next hchange =>
    cases hmerge
    rw [Bool.or_eq_true, not_or, Bool.not_eq_true] at hchange
    have hover := overlay_of_not_gained hnan hp hchange.1
    have hnotices := Parameter.gainsValue_of_gains hchange.1
    exact ⟨by simp [hp], by simp [hp, hover], by simp [hover], by simp [hnotices], hagain⟩

/-- A group, and a dimmer beside it that is watched. -/
def dimmerRun : List Op :=
  [.createGroup none, .create (.number .float32 {}) none, .edit ⟨2⟩ [.edit (.watch true)]]

/-- The dimmer as a peer has it, fully up and in the group. -/
def dimmerUp : Parameter where
  id := ⟨2⟩
  definition := .number .float32 {}
  value := .of (.number .float32 ⟨0x3F800000⟩)
  parent := .of ⟨1⟩

theorem merge_reports_dimmer :
    ∃ r' notices, (Registry.new.performAll dimmerRun).merge dimmerUp =
        .ok (.updated, r', notices) ∧
      notices.filter Notice.isUpdated =
        [.updated ⟨2⟩ (some (.number .float32 ⟨0x3F800000⟩))] ∧
      r'.merge dimmerUp = .ok (.unchanged, r', []) := by
  have hr : Reachable (fun _ op => op.Childless) (Registry.new.performAll dimmerRun) :=
    Reachable.performAll .new (by simp [dimmerRun, Op.Childless])
  have hnan : dimmerUp.NoNaN := by
    refine ⟨⟨?_, ?_, ?_, ?_⟩, ?_⟩ <;> rintro _ ⟨⟩
    rfl
  obtain ⟨r', notices, q, h, hq, hwatched, hvalue⟩ : ∃ r' notices q,
      (Registry.new.performAll dimmerRun).merge dimmerUp = .ok (.updated, r', notices) ∧
        r'.get? ⟨2⟩ = some q ∧ q.watched = true ∧
        q.value.value = some (.number .float32 ⟨0x3F800000⟩) :=
    ⟨_, _, _, rfl, rfl, rfl, rfl⟩
  obtain ⟨-, -, -, hnotices, hagain⟩ := hr.merge_reports hnan h
  have htold := hnotices q hq
  rw [if_pos ⟨rfl, hwatched⟩, hvalue] at htold
  exact ⟨r', notices, h, htold, hagain⟩

end Registry
end ParamSync
