import ParamSync.Proofs.Registry.Merging
import ParamSync.Proofs.Registry.Pending

/-!
# What operations leave to be told

Two sides that talk about one parameter change their registries by few operations: an edit, a
removal, a removal that is not told, and a merge. For each of them it is said here what becomes of
the parameter, and of what waits to be told.

Results:
* `get?_edit`, `mem_dirty_of_edit`: what an edit does.
* `gone_remove`, `mem_removed_remove`: a removed parameter is gone, and that is to be told.
* `gone_removeDirect`, `mem_dirty_removeDirect`: a parameter that is taken out is gone.
* `alive_merge`, `backlog_merge`: a parameter that is merged is there, and nothing is to be told.
-/

namespace ParamSync
namespace Registry

variable {r r' : Registry} {x y : ParamId}

/-! ## Edits -/

theorem edit_of_alive {p : Parameter} {accesses : List Parameter.Access} (hx : x ≠ .root)
    (hp : r.get? x = some p) :
    r.perform (.edit x accesses) = { r with
      parameters := r.parameters.insert x (p.accessAll accesses)
      dirty := if (p.accessAll accesses).hasChanges && !r.removed.contains (p.accessAll accesses).id
        then r.dirty.insert (p.accessAll accesses).id else r.dirty } := by
  have hroot : ¬ x.isRoot = true := by simpa using hx
  rw [perform, edit, if_neg hroot, hp]
  dsimp only [orSame]
  split <;> rfl

theorem edit_of_dead {accesses : List Parameter.Access} (hp : r.get? x = none) :
    r.perform (.edit x accesses) = r := by
  rw [perform, edit]
  split
  · rfl
  · rw [hp]; rfl

/-- An edit changes the parameter, if it is there. -/
theorem get?_edit (accesses : List Parameter.Access) (hx : x ≠ .root) :
    (r.perform (.edit x accesses)).get? x = (r.get? x).map (·.accessAll accesses) := by
  cases hp : r.get? x with
  | none => rw [edit_of_dead hp, hp]; rfl
  | some p =>
    rw [edit_of_alive hx hp, get?_of_insert (r := r) rfl, if_pos rfl]
    rfl

/-- It changes nobody else. -/
theorem get?_edit_other (accesses : List Parameter.Access) (hy : y ≠ x) :
    (r.perform (.edit x accesses)).get? y = r.get? y := by
  refine of_orSame (P := fun r' => r'.get? y = r.get? y) rfl ?_
  rintro ⟨r', ⟨⟩⟩ hok
  obtain ⟨-, p, -, -, rfl⟩ := edit_ok hok
  rw [get?_of_insert (r := r) rfl, if_neg hy]

/-- Who has something to tell still has it after an edit. -/
theorem mem_dirty_edit (accesses : List Parameter.Access) (hy : y ∈ r.dirty) :
    y ∈ (r.perform (.edit x accesses)).dirty := by
  refine of_orSame (P := fun r' => y ∈ r'.dirty) hy ?_
  rintro ⟨r', ⟨⟩⟩ hok
  obtain ⟨-, p, -, -, rfl⟩ := edit_ok hok
  dsimp only
  split
  · exact IdSet.mem_insert_iff.2 (.inr hy)
  · exact hy

/-- Who is there is not changed by an edit. -/
theorem sameLinks_perform_edit (r : Registry) (x : ParamId) (accesses : List Parameter.Access) :
    SameLinks r (r.perform (.edit x accesses)) :=
  of_orSame (P := SameLinks r) (.refl r) fun _ hok =>
    sameLinks_edit hok fun p => p.links_accessAll accesses

/-- An edit after which there is something to tell makes the parameter dirty, unless its removal is
to be told. -/
theorem mem_dirty_of_hasChanges {p : Parameter} {accesses : List Parameter.Access}
    (hx : x ≠ .root) (hp : r.get? x = some p) (hid : p.id = x) (hremoved : x ∉ r.removed)
    (hchanges : (p.accessAll accesses).hasChanges = true) :
    x ∈ (r.perform (.edit x accesses)).dirty := by
  have hlinks : (p.accessAll accesses).id = x :=
    (congrArg (·.1) (p.links_accessAll accesses)).trans hid
  have hkept : r.removed.contains x = false := by
    rwa [Bool.eq_false_iff, Ne, Std.ExtTreeSet.contains_iff_mem]
  rw [edit_of_alive hx hp, hlinks, hchanges, hkept]
  exact Std.ExtTreeSet.mem_insert_self

/-- So it is if no removal is to be told. -/
theorem mem_dirty_of_edit {p : Parameter} {accesses : List Parameter.Access} (hx : x ≠ .root)
    (hp : r.get? x = some p) (hid : p.id = x) (hremoved : r.removed = ∅)
    (hchanges : (p.accessAll accesses).hasChanges = true) :
    x ∈ (r.perform (.edit x accesses)).dirty :=
  mem_dirty_of_hasChanges hx hp hid (by simp [hremoved]) hchanges

theorem removed_edit (accesses : List Parameter.Access) :
    (r.perform (.edit x accesses)).removed = r.removed := by
  by_cases hx : x = .root
  · subst hx; rfl
  · cases hp : r.get? x with
    | none => rw [edit_of_dead hp]
    | some p => rw [edit_of_alive hx hp]

/-! ## Removals -/

/-- Nobody is dirty after an eviction who was not before. -/
theorem mem_dirty_of_evict (h : y ∈ (r.evict x).1.dirty) : y ∈ r.dirty := by
  cases hp : r.get? x with
  | none => rwa [evict_of_dead hp] at h
  | some p =>
    rw [evict_of_alive hp] at h
    exact ((mem_foldl_erase _ _ _).1 h).1

theorem remove_of_dead (hx : r.get? x = none) : r.perform (.remove x) = r := by
  have hcontains : ¬ r.parameters.contains x = true := by simp [contains_eq_isSome, hx]
  rw [perform, remove, if_neg hcontains]
  split
  · rfl
  · split <;> rfl

/-- Who is removed is gone. -/
theorem gone_remove (hx : x ≠ .root) : (r.perform (.remove x)).get? x = none := by
  cases hp : r.get? x with
  | none => rw [remove_of_dead hp, hp]
  | some p => exact (retires_remove hx hp).gone x (.inl rfl)

/-- Who was there and is removed waits to be told. -/
theorem mem_removed_remove (hx : x ≠ .root) :
    y ∈ (r.perform (.remove x)).removed ↔ (y = x ∧ r.get? x ≠ none) ∨ y ∈ r.removed := by
  cases hp : r.get? x with
  | none => simp [remove_of_dead hp]
  | some p =>
    rw [(retires_remove hx hp).removed, IdSet.mem_insert_iff]
    simp

theorem mem_dirty_remove (h : y ∈ (r.perform (.remove x)).dirty) : y ∈ r.dirty := by
  rw [perform] at h
  cases hr : r.remove x with
  | error e => rwa [hr] at h
  | ok result =>
    obtain ⟨found, r'⟩ := result
    rw [hr] at h
    obtain ⟨-, ⟨-, -, rfl⟩ | ⟨-, -, -, rfl⟩⟩ := remove_ok hr
    · exact mem_dirty_of_evict h
    · exact h

/-- Who is taken out is gone. -/
theorem gone_removeDirect (hx : x ≠ .root) : (r.perform (.removeDirect x)).get? x = none := by
  have hroot : ¬ x.isRoot = true := by simpa using hx
  rw [perform, removeDirect, if_neg hroot]
  exact r.gone_evict x x (.inl rfl)

theorem mem_dirty_removeDirect (h : y ∈ (r.perform (.removeDirect x)).dirty) : y ∈ r.dirty := by
  rw [perform, removeDirect] at h
  split at h
  · exact h
  · exact mem_dirty_of_evict h

theorem removed_removeDirect : (r.perform (.removeDirect x)).removed = r.removed := by
  rw [perform, removeDirect]
  split
  · rfl
  · exact r.removed_evict x

/-! ## Merges -/

/-- Who is merged is there, even if the merge is refused. -/
theorem alive_merge {incoming : Parameter} (hid : incoming.id ≠ .root) :
    (r.perform (.merge incoming)).get? incoming.id ≠ none := by
  cases hp : r.get? incoming.id with
  | none =>
    rw [perform, merge_of_unknown hid hp]
    exact (enters_attach hid hp).alive
  | some p =>
    by_cases hd : p.datatype = incoming.datatype
    · rw [perform_merge_of_known hid hp hd]
      have hover : (r.overlay p incoming).get? incoming.id = some (p.merge incoming) :=
        (get?_of_insert rfl incoming.id).trans (if_pos rfl)
      cases hf : (r.overlay p incoming).follow? incoming.id incoming.parent.value with
      | none =>
        rw [Option.getD_none, hover]
        exact Option.some_ne_none _
      | some m =>
        obtain ⟨-, -, hm⟩ := follow?_eq_some hf
        obtain ⟨f, -, hget⟩ := get?_relink hm incoming.id
        rw [Option.getD_some, hget, if_pos rfl, hover]
        exact Option.some_ne_none _
    · have hroot : ¬ incoming.id.isRoot = true := by simpa using hid
      have hmerge : r.merge incoming =
          .error (.datatypeMismatch incoming.id p.datatype incoming.datatype) := by
        rw [merge, if_neg hroot, hp]
        exact if_pos hd
      rw [perform, hmerge, orSame, hp]
      exact Option.some_ne_none _

/-- After a merge there is who was there, and who was merged. -/
theorem alive_merge_iff {incoming : Parameter} (hx : x ≠ .root) :
    (r.perform (.merge incoming)).get? x ≠ none ↔ r.get? x ≠ none ∨ incoming.id = x := by
  by_cases hid : incoming.id = x
  · subst hid
    exact ⟨fun _ => .inr rfl, fun _ => alive_merge hx⟩
  · have hhome := home?_merge_other (r := r) incoming (Ne.symm hid)
    rw [or_iff_left hid, ne_eq, ne_eq, ← home?_eq_none_iff, hhome, home?_eq_none_iff]

/-- A merge leaves nothing to be told. -/
theorem backlog_merge (r : Registry) (incoming : Parameter) :
    (r.perform (.merge incoming)).dirty = r.dirty ∧
      (r.perform (.merge incoming)).removed = r.removed := by
  rw [perform]
  cases hm : r.merge incoming with
  | error e => exact ⟨rfl, rfl⟩
  | ok result =>
    obtain ⟨outcome, r', notices⟩ := result
    obtain ⟨-, ⟨-, rfl⟩ | ⟨p, -, -, rfl⟩⟩ := merge_ok hm
    · exact ⟨r.dirty_attach incoming, r.removed_attach incoming⟩
    · cases hf : (r.overlay p incoming).follow? incoming.id incoming.parent.value with
      | none => exact ⟨rfl, rfl⟩
      | some m =>
        obtain ⟨-, -, hm⟩ := follow?_eq_some hf
        obtain ⟨q, -, -, rfl⟩ := relink?_eq_some hm
        exact ⟨rfl, rfl⟩

end Registry
end ParamSync
