import ParamSync.Proofs.Registry.Changes

/-!
# Removals that wait to be told

An identifier whose removal has not been told names nobody, and is not given to anybody: so its
`REMOVE` takes out of a mirror what was removed and nothing else. Only a merge can spoil this, as it
registers whoever it does not know, and so an identifier that has just been removed.

Results:
* `effect_perform`: what an operation does to who is there and to what waits to be told.
* `apart_perform_iff`: an operation spoils it exactly if it is the merge of a removed parameter.
* `apart_performAll_iff`: so it is along every run.
* `not_apart_resurrection`: a removed parameter that is merged is there, and its removal is told.
-/

namespace ParamSync
namespace Registry

variable {r r' : Registry} {id : ParamId}

/-- Whoever waits for its removal to be told is not there; the root never waits. -/
def Apart (r : Registry) : Prop := ∀ x ∈ r.removed, x ≠ .root ∧ r.get? x = none

theorem apart_new : Apart .new := by
  intro x hx
  have hempty : Registry.new.removed = ∅ := rfl
  simp [hempty] at hx

/-! ## What an operation does -/

/-- Nobody is there, and no removal waits to be told, that was not before. -/
structure Narrows (r r' : Registry) : Prop where
  gone : ∀ x, x ≠ .root → r.get? x = none → r'.get? x = none
  removed : ∀ x ∈ r'.removed, x ∈ r.removed

/-- An identifier is there now, and all else is as before. -/
structure Enters (r r' : Registry) (id : ParamId) : Prop where
  alive : r'.get? id ≠ none
  gone : ∀ x, x ≠ id → x ≠ .root → r.get? x = none → r'.get? x = none
  removed : r'.removed = r.removed

/-- An identifier is not there any more, and its removal waits to be told. -/
structure Retires (r r' : Registry) (id : ParamId) : Prop where
  ne_root : id ≠ .root
  gone : ∀ x, x = id ∨ r.get? x = none → r'.get? x = none
  removed : r'.removed = r.removed.insert id

theorem Narrows.refl (r : Registry) : Narrows r r := ⟨fun _ _ h => h, fun _ h => h⟩

/-- A change of parameters that are there. -/
theorem Narrows.of_sameLinks (h : SameLinks r r') (hremoved : r'.removed = r.removed) :
    Narrows r r' where
  gone x _ hx := by
    have hlinks := h x
    rw [hx, Option.map_none] at hlinks
    exact Option.map_eq_none_iff.1 hlinks
  removed x hx := hremoved ▸ hx

/-- Whatever is done to a borrowed parameter, even if it is replaced by another one. -/
theorem narrows_edit {α : Type} {f : Parameter → Parameter × α} {a : α}
    (h : r.edit id f = .ok (r', a)) : Narrows r r' := by
  obtain ⟨-, p, hp, -, rfl⟩ := edit_ok h
  refine ⟨fun x _ hx => ?_, fun x hx => hx⟩
  rw [get?_of_insert rfl]
  split
  · next hid => rw [hid, hp] at hx; cases hx
  · exact hx

theorem removed_setDirty (r : Registry) (id : ParamId) : (r.setDirty id).removed = r.removed := by
  unfold setDirty
  split <;> rfl

theorem narrows_setDirty (r : Registry) (id : ParamId) : Narrows r (r.setDirty id) :=
  .of_sameLinks (r.sameLinks_setDirty id) (r.removed_setDirty id)

theorem narrows_relink {group : Option ParamId} {origin : Origin} {m : Registry}
    (h : r.relink? id group origin = some m) : Narrows r m := by
  refine ⟨fun x _ hx => ?_, ?_⟩
  · obtain ⟨f, -, hget⟩ := get?_relink h x
    rw [hget, hx]
    split <;> rfl
  · obtain ⟨p, -, -, rfl⟩ := relink?_eq_some h
    exact fun x hx => hx

theorem Narrows.trans {r'' : Registry} (h : Narrows r r') (h' : Narrows r' r'') : Narrows r r'' :=
  ⟨fun x hx hnone => h'.gone x hx (h.gone x hx hnone), fun x hx => h.removed x (h'.removed x hx)⟩

/-- A subtree that is taken out takes its top with it. -/
theorem gone_evict (r : Registry) (id x : ParamId) (h : x = id ∨ r.get? x = none) :
    (r.evict id).1.get? x = none := by
  cases hp : r.get? id with
  | none =>
    rw [evict_of_dead hp]
    rcases h with rfl | h
    · exact hp
    · exact h
  | some p =>
    rw [evict_of_alive hp]
    rcases h with rfl | h
    · exact stack_gone _ _ _ (List.mem_singleton_self x)
    · refine getElem?_evictFrom_eq_none _ _ _ ?_
      have hget := r.get?_unlinked id p x
      rw [h] at hget
      exact hget.trans (ite_self _)

theorem narrows_removeDirect (r : Registry) (id : ParamId) :
    Narrows r (r.removeDirect id).1 := by
  unfold removeDirect
  split
  · exact .refl r
  · exact ⟨fun x _ hx => r.gone_evict id x (.inr hx), fun x hx => by simpa using hx⟩

/-- A parameter that is entered is there; one whose identifier is taken is not entered. -/
theorem enters_attach {p : Parameter} (hid : p.id ≠ .root) (hnew : r.get? p.id = none) :
    Enters r (r.attach p) p.id := by
  have hget := get?_attach hid hnew
  refine ⟨?_, fun x hx _ hnone => ?_, r.removed_attach p⟩
  · rw [hget, if_pos rfl]
    nofun
  · rw [hget, if_neg hx, hnone]
    exact ite_self _

theorem effect_create {definition : TypeDef} {group : Option ParamId}
    (h : r.create definition group = .ok (id, r')) :
    Narrows r r' ∨ id ∉ r.removed ∧ Enters r r' id := by
  obtain ⟨target, -, hnext, rfl⟩ := create_ok h
  obtain ⟨⟨hroot, hfree⟩, -⟩ := nextId?_eq_some_iff.1 hnext
  obtain ⟨q, hq⟩ : ∃ q, Parameter.setGroup { id, definition } target = q := ⟨_, rfl⟩
  have hlinks := Parameter.links_setGroup { id, definition } target
  have hid : q.id = id := hq ▸ congrArg (·.1) hlinks
  rw [hq]
  cases hget : r.get? id with
  | none =>
    have henters := enters_attach (hid ▸ hroot) (hid ▸ hget)
    rw [hid] at henters
    exact .inr ⟨(isFree_iff.1 hfree).2, henters.alive, henters.gone, henters.removed⟩
  | some p =>
    -- no such identifier is free in a registry that a run has made, but nothing hangs on it
    have htaken : r.attach q = r :=
      attach_of_taken (.inr ⟨p.home, by rw [home?, hid, hget, Option.map_some]⟩)
    rw [htaken]
    exact .inl ⟨fun x _ hx => hx, fun x hx => hx⟩

theorem effect_merge {incoming : Parameter} {outcome : Merge} {notices : List Notice}
    (h : r.merge incoming = .ok (outcome, r', notices)) :
    Narrows r r' ∨ Enters r r' incoming.id := by
  obtain ⟨hid, ⟨hnew, rfl⟩ | ⟨p, hp, -, rfl⟩⟩ := merge_ok h
  · exact .inr (enters_attach hid hnew)
  · have hover : Narrows r (r.overlay p incoming) := .of_sameLinks (sameLinks_overlay hp) rfl
    cases hf : (r.overlay p incoming).follow? incoming.id incoming.parent.value with
    | none => exact .inl hover
    | some m =>
      obtain ⟨-, -, hm⟩ := follow?_eq_some hf
      exact .inl (hover.trans (narrows_relink hm))

theorem effect_remove {found : Bool} (h : r.remove id = .ok (found, r')) :
    Narrows r r' ∨ Retires r r' id := by
  obtain ⟨hid, ⟨-, -, rfl⟩ | ⟨-, -, -, rfl⟩⟩ := remove_ok h
  · exact .inr ⟨hid, fun x => r.gone_evict id x, rfl⟩
  · exact .inl (.refl _)

/-- A removal of somebody who is there takes it out. -/
theorem retires_remove {p : Parameter} (hid : id ≠ .root) (hp : r.get? id = some p) :
    Retires r (r.perform (.remove id)) id := by
  rw [perform, remove_of_alive hid hp]
  exact ⟨hid, fun x => r.gone_evict id x, rfl⟩

/-- An operation enters nobody and has no more to tell than before, or enters somebody whose removal
is not to be told, unless it is a merge, or takes somebody out. -/
theorem effect_perform (r : Registry) (op : Op) :
    Narrows r (r.perform op) ∨
      (∃ id, (id ∉ r.removed ∨ ∃ p, op = .merge p ∧ p.id = id) ∧ Enters r (r.perform op) id) ∨
      ∃ id, Retires r (r.perform op) id := by
  have hcreate : ∀ definition group,
      Narrows r (r.orSame (·.2) (r.create definition group)) ∨
        ∃ id, id ∉ r.removed ∧ Enters r (r.orSame (·.2) (r.create definition group)) id := by
    intro definition group
    cases hc : r.create definition group with
    | error e => exact .inl (.refl r)
    | ok after =>
      obtain hn | ⟨hid, henters⟩ := effect_create hc
      · exact .inl hn
      · exact .inr ⟨_, hid, henters⟩
  cases op with
  | create definition group =>
    exact (hcreate definition group).imp_right fun ⟨id, hid, h⟩ => .inl ⟨id, .inl hid, h⟩
  | createGroup group =>
    exact (hcreate .group group).imp_right fun ⟨id, hid, h⟩ => .inl ⟨id, .inl hid, h⟩
  | merge incoming =>
    rw [perform]
    cases hm : r.merge incoming with
    | error e => exact .inl (.refl r)
    | ok after =>
      exact (effect_merge hm).imp_right fun h => .inl ⟨_, .inr ⟨incoming, rfl, rfl⟩, h⟩
  | remove id =>
    rw [perform]
    cases hr : r.remove id with
    | error e => exact .inl (.refl r)
    | ok after => exact (effect_remove hr).imp_right fun h => .inr ⟨id, h⟩
  | edit id accesses => exact .inl (of_orSame (.refl r) fun _ hok => narrows_edit hok)
  | setDirty id => exact .inl (r.narrows_setDirty id)
  | move id group =>
    refine .inl (of_orSame (.refl r) fun _ hok => ?_)
    obtain ⟨-, -, -, ⟨-, rfl⟩ | ⟨m, hm, rfl⟩⟩ := move_ok hok
    · exact .refl _
    · exact (narrows_relink hm).trans (m.narrows_setDirty id)
  | removeDirect id => exact .inl (r.narrows_removeDirect id)
  | applyValue u =>
    refine .inl (of_orSame (.refl r) fun _ hok => .of_sameLinks (sameLinks_applyValue hok) ?_)
    obtain ⟨p, p', -, -, -, hr⟩ := applyValue_ok hok
    rw [hr]
  | encodeDirty => exact .inl (.of_sameLinks r.sameLinks_encodeDirty rfl)
  | encodeRemoved =>
    exact .inl ⟨fun x _ hx => hx, fun x hx => absurd hx Std.ExtTreeSet.not_mem_empty⟩
  | encodeAll =>
    rw [perform_encodeAll]
    exact .inl (.refl r)
  | clear =>
    refine .inl ⟨fun x hx _ => ?_, fun x hx => absurd hx Std.ExtTreeSet.not_mem_empty⟩
    exact (r.get?_clear x).trans (if_neg hx)

/-! ## One operation -/

namespace Apart

theorem of_narrows (h : Apart r) (hn : Narrows r r') : Apart r' := by
  intro x hx
  obtain ⟨hroot, hnone⟩ := h x (hn.removed x hx)
  exact ⟨hroot, hn.gone x hroot hnone⟩

theorem of_retires (h : Apart r) (hr : Retires r r' id) : Apart r' := by
  intro x hx
  rw [hr.removed, IdSet.mem_insert_iff] at hx
  rcases hx with rfl | hx
  · exact ⟨hr.ne_root, hr.gone _ (.inl rfl)⟩
  · obtain ⟨hroot, hnone⟩ := h x hx
    exact ⟨hroot, hr.gone x (.inr hnone)⟩

theorem iff_of_enters (h : Apart r) (he : Enters r r' id) : Apart r' ↔ id ∉ r.removed := by
  constructor
  · intro h' hid
    exact he.alive (h' id (he.removed ▸ hid)).2
  · intro hid x hx
    rw [he.removed] at hx
    obtain ⟨hroot, hnone⟩ := h x hx
    exact ⟨hroot, he.gone x (fun heq => hid (heq ▸ hx)) hroot hnone⟩

end Apart

/-- A merge of a removed parameter enters it. -/
theorem enters_merge {incoming : Parameter} (h : Apart r) (hid : incoming.id ∈ r.removed) :
    Enters r (r.perform (.merge incoming)) incoming.id := by
  obtain ⟨hroot, hnone⟩ := h _ hid
  rw [perform, merge_of_unknown hroot hnone]
  exact enters_attach hroot hnone

/-- An operation leaves somebody there whose removal is still to be told exactly if it is a merge of
a parameter that was removed. -/
theorem apart_perform_iff (h : Apart r) (op : Op) :
    Apart (r.perform op) ↔ ∀ p, op = .merge p → p.id ∉ r.removed := by
  constructor
  · rintro h' p rfl hid
    exact (h.iff_of_enters (enters_merge h hid)).1 h' hid
  · intro hop
    obtain hn | ⟨id, hid, he⟩ | ⟨id, hr⟩ := r.effect_perform op
    · exact h.of_narrows hn
    · refine (h.iff_of_enters he).2 ?_
      rcases hid with hid | ⟨p, hp, rfl⟩
      · exact hid
      · exact hop p hp
    · exact h.of_retires hr

/-! ## Runs -/

theorem performAll_take_succ (r : Registry) (ops : List Op) (k : Nat) :
    r.performAll (ops.take (k + 1)) =
      (r.performAll (ops.take k)).performAll ops[k]?.toList := by
  rw [List.take_add_one, performAll, List.foldl_append]
  rfl

/-- Along a run, nobody whose removal is still to be told is there, exactly if no parameter is
merged before its removal has been told. -/
theorem apart_performAll_iff (ops : List Op) :
    (∀ k, Apart (new.performAll (ops.take k))) ↔
      ∀ k p, ops[k]? = some (.merge p) → p.id ∉ (new.performAll (ops.take k)).removed := by
  constructor
  · intro h k p hk
    have hnext := h (k + 1)
    rw [performAll_take_succ, hk] at hnext
    exact (apart_perform_iff (h k) (.merge p)).1 hnext p rfl
  · intro h k
    induction k with
    | zero => exact apart_new
    | succ k ih =>
      rw [performAll_take_succ]
      cases hk : ops[k]? with
      | none => exact ih
      | some op =>
        refine (apart_perform_iff ih op).2 ?_
        rintro p rfl
        exact h k p hk

/-- A flag as a peer sends it. -/
def flag : Parameter := { id := ⟨1⟩, definition := .boolean {} }

/-- A flag is made and removed, and a peer sends it once more. -/
def resurrection : List Op := [.create (.boolean {}) none, .remove ⟨1⟩, .merge flag]

/-- The flag is there again, and its removal is still to be told. -/
theorem not_apart_resurrection :
    (new.performAll resurrection).contains ⟨1⟩ = true ∧
      ⟨1⟩ ∈ (new.performAll resurrection).removed ∧ ∀ op ∈ resurrection, op.Childless := by
  obtain ⟨made, hmade⟩ : ∃ m, new.perform (.create (.boolean {}) none) = m := ⟨_, rfl⟩
  have halive : ∃ p, (new.perform (.create (.boolean {}) none)).get? ⟨1⟩ = some p := ⟨_, rfl⟩
  rw [hmade] at halive
  obtain ⟨p, hp⟩ := halive
  have hroot : (⟨1⟩ : ParamId) ≠ .root := by decide
  have hretires := retires_remove hroot hp
  have hmadeApart : Apart made := by
    rw [← hmade, apart_perform_iff apart_new]
    rintro p ⟨⟩
  have hapart : Apart (made.perform (.remove ⟨1⟩)) := by
    rw [apart_perform_iff hmadeApart]
    rintro p ⟨⟩
  have hremoved : ⟨1⟩ ∈ (made.perform (.remove ⟨1⟩)).removed := by
    rw [hretires.removed]
    exact Std.ExtTreeSet.mem_insert_self
  have henters : Enters (made.perform (.remove ⟨1⟩))
      ((made.perform (.remove ⟨1⟩)).perform (.merge flag)) ⟨1⟩ := enters_merge hapart hremoved
  have hrun : new.performAll resurrection =
      (made.perform (.remove ⟨1⟩)).perform (.merge flag) := by
    rw [resurrection, performAll, List.foldl_cons, hmade, List.foldl_cons, List.foldl_cons,
      List.foldl_nil]
  rw [hrun]
  refine ⟨?_, ?_, by simp [resurrection, Op.Childless, flag]⟩
  · rw [contains, contains_eq_isSome, Bool.and_eq_true]
    exact ⟨rfl, Option.isSome_iff_ne_none.2 henters.alive⟩
  · rw [henters.removed]
    exact hremoved

end Registry
end ParamSync
