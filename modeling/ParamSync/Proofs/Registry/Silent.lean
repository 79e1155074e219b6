import ParamSync.Proofs.Codec.Flags
import ParamSync.Proofs.Registry.Backlog

/-!
# What peers bring is not told again

A registry that merges a parameter of a peer, applies a value of it or takes out a subtree that it
has removed has nothing to tell afterwards that it had not to tell before. That asks nothing of the
registry, not even that its parameters are a tree: each step of an operation replaces parameters by
ones with no more flags, and none of them notes anybody.

Results:
* `raisesNone_merge`, `raisesNone_applyValue`, `raisesNone_removeDirect`: no flag goes up.
* `tellsTheSame_merge`, `tellsTheSame_applyValue`: nor is anything noted.
* `tellsNoMore_removeDirect`: who is taken out is not to be told of any more.
* `TellsNoMore.hasPending_eq_false`: who has nothing to tell still has nothing to tell.
-/

namespace ParamSync
namespace Registry

variable {r r' r'' : Registry} {x id : ParamId} {p p' : Parameter}

/-- Whether the flag of a piece is up; where nobody is there is none. -/
def flagged (r : Registry) (x : ParamId) (piece : Parameter.Piece) : Bool :=
  (r.get? x).any (·.flag piece)

/-- No flag is up in the second registry that is not up in the first. -/
def RaisesNone (r r' : Registry) : Prop :=
  ∀ x piece, r'.flagged x piece = true → r.flagged x piece = true

/-- The same is to be told by both registries, and no flag has gone up. -/
structure TellsTheSame (r r' : Registry) : Prop where
  flag : r.RaisesNone r'
  dirty : r'.dirty = r.dirty
  removed : r'.removed = r.removed

/-- The second registry has nothing to tell that the first has not. -/
structure TellsNoMore (r r' : Registry) : Prop where
  flag : r.RaisesNone r'
  dirty : ∀ x ∈ r'.dirty, x ∈ r.dirty
  removed : ∀ x ∈ r'.removed, x ∈ r.removed

/-! ## Flags -/

namespace RaisesNone

theorem refl (r : Registry) : r.RaisesNone r := fun _ _ h => h

theorem trans (h : r.RaisesNone r') (h' : r'.RaisesNone r'') : r.RaisesNone r'' :=
  fun x piece hup => h x piece (h' x piece hup)

/-- Each parameter comes without flags, or takes the place of one with as many. -/
theorem of_get? (h : ∀ x p', r'.get? x = some p' →
    p'.hasChanges = false ∨ ∃ p, r.get? x = some p ∧ p.RaisesNone p') : r.RaisesNone r' := by
  intro x piece hup
  obtain ⟨p', hp', hup⟩ := (Option.any_eq_true _ _).1 hup
  rcases h x p' hp' with hnone | ⟨p, hp, hraises⟩
  · exact absurd (hup.symm.trans (Parameter.hasChanges_eq_false_iff_flag.1 hnone piece)) nofun
  · rw [flagged, hp]
    exact hraises piece hup

end RaisesNone

/-- A parameter takes the place of one with as many flags. -/
theorem raisesNone_insert (hp : r.get? id = some p) (h : p.RaisesNone p') :
    r.RaisesNone { r with parameters := r.parameters.insert id p' } := by
  refine .of_get? fun x q hq => .inr ?_
  rw [get?_of_insert rfl] at hq
  split at hq
  · next hx =>
    cases hq
    exact ⟨p, hx ▸ hp, h⟩
  · exact ⟨q, hq, .refl q⟩

/-- A parameter without flags is registered without flags. -/
theorem raisesNone_attach (hid : p.id ≠ .root) (hnew : r.get? p.id = none)
    (hp : p.hasChanges = false) : r.RaisesNone (r.attach p) := by
  have hentered : (r.entered p).hasChanges = false := by
    rw [Parameter.hasChanges_eq_false_iff_flag] at hp ⊢
    intro piece
    have hraises : p.RaisesNone (r.entered p) := by
      unfold entered
      split
      · exact .refl p
      · exact p.raisesNone_applyGroup none
    exact Bool.eq_false_iff.2 fun hup => absurd ((hp piece).symm.trans (hraises piece hup)) nofun
  refine .of_get? fun x p' hp' => ?_
  rcases get?_attach_cases hid hnew hp' with ⟨-, rfl⟩ | ⟨q, children, hq, rfl⟩
  · exact .inl hentered
  · exact .inr ⟨q, hq, q.raisesNone_children children⟩

/-- A peer that moves a parameter puts up no flag. -/
theorem raisesNone_relink {group : Option ParamId} {m : Registry}
    (h : r.relink? id group .peer = some m) : r.RaisesNone m := by
  refine .of_get? fun x p' hp' => .inr ?_
  obtain ⟨p, children, hp, rfl⟩ := get?_relink_cases h hp'
  refine ⟨p, hp, ?_⟩
  split
  · exact (p.raisesNone_children children).trans (Parameter.raisesNone_applyGroup _ group)
  · exact p.raisesNone_children children

/-- An eviction changes nothing of who stays but the members of one group. -/
theorem raisesNone_evict (r : Registry) (id : ParamId) : r.RaisesNone (r.evict id).1 := by
  cases hp : r.get? id with
  | none => rw [evict_of_dead hp]; exact .refl r
  | some p =>
    refine .of_get? fun x p' hp' => .inr ?_
    rw [evict_of_alive hp] at hp'
    have hkept : (r.unlinked id p).get? x = some p' := getElem?_of_evictFrom _ _ _ hp'
    rw [get?_unlinked] at hkept
    split at hkept
    · obtain ⟨q, hq, rfl⟩ := Option.map_eq_some_iff.1 hkept
      exact ⟨q, hq, q.raisesNone_children _⟩
    · exact ⟨p', hkept, .refl p'⟩

/-! ## Operations -/

/-- A parameter that comes without flags is merged without flags. -/
theorem raisesNone_merge (r : Registry) {incoming : Parameter} (hin : incoming.hasChanges = false) :
    r.RaisesNone (r.perform (.merge incoming)) := by
  refine of_orSame (.refl r) ?_
  rintro ⟨outcome, r', notices⟩ hm
  obtain ⟨hid, ⟨hnew, rfl⟩ | ⟨p, hp, -, rfl⟩⟩ := merge_ok hm
  · exact raisesNone_attach hid hnew hin
  · have hover : r.RaisesNone (r.overlay p incoming) :=
      raisesNone_insert hp (p.raisesNone_merge incoming)
    cases hf : (r.overlay p incoming).follow? incoming.id incoming.parent.value with
    | none => exact hover
    | some m =>
      obtain ⟨-, -, hm'⟩ := follow?_eq_some hf
      exact hover.trans (raisesNone_relink hm')

theorem raisesNone_applyValue (r : Registry) (u : ValueUpdate) :
    r.RaisesNone (r.perform (.applyValue u)) := by
  refine of_orSame (.refl r) ?_
  rintro ⟨applied, r', notices⟩ hok
  obtain ⟨p, p', hp, -, hp', rfl⟩ := applyValue_ok hok
  exact raisesNone_insert hp (Parameter.raisesNone_applyValue hp')

theorem raisesNone_removeDirect (r : Registry) (id : ParamId) :
    r.RaisesNone (r.perform (.removeDirect id)) := by
  rw [perform, removeDirect]
  split
  · exact .refl r
  · exact r.raisesNone_evict id

/-! ## What is to be told -/

theorem TellsTheSame.refl (r : Registry) : r.TellsTheSame r := ⟨.refl r, rfl, rfl⟩

theorem TellsTheSame.tellsNoMore (h : r.TellsTheSame r') : r.TellsNoMore r' :=
  ⟨h.flag, fun _ hx => h.dirty ▸ hx, fun _ hx => h.removed ▸ hx⟩

/-- A parameter that comes without flags leaves nothing to be told. -/
theorem tellsTheSame_merge (r : Registry) {incoming : Parameter}
    (hin : incoming.hasChanges = false) : r.TellsTheSame (r.perform (.merge incoming)) :=
  ⟨r.raisesNone_merge hin, (r.backlog_merge incoming).1, (r.backlog_merge incoming).2⟩

/-- A value leaves nothing to be told. -/
theorem tellsTheSame_applyValue (r : Registry) (u : ValueUpdate) :
    r.TellsTheSame (r.perform (.applyValue u)) := by
  have hsame : (r.perform (.applyValue u)).dirty = r.dirty ∧
      (r.perform (.applyValue u)).removed = r.removed := by
    refine of_orSame (P := fun r' => r'.dirty = r.dirty ∧ r'.removed = r.removed) ⟨rfl, rfl⟩ ?_
    rintro ⟨applied, r', notices⟩ hok
    obtain ⟨p, p', -, -, -, rfl⟩ := applyValue_ok hok
    exact ⟨rfl, rfl⟩
  exact ⟨r.raisesNone_applyValue u, hsame.1, hsame.2⟩

theorem tellsNoMore_removeDirect (r : Registry) (id : ParamId) :
    r.TellsNoMore (r.perform (.removeDirect id)) where
  flag := r.raisesNone_removeDirect id
  dirty _ := mem_dirty_removeDirect
  removed _ hx := removed_removeDirect ▸ hx

namespace TellsNoMore

theorem refl (r : Registry) : r.TellsNoMore r := (TellsTheSame.refl r).tellsNoMore

/-- Who has nothing to tell still has nothing to tell. -/
theorem hasPending_eq_false (h : r.TellsNoMore r') (hr : r.hasPending = false) :
    r'.hasPending = false := by
  obtain ⟨hdirty, hremoved⟩ := hasPending_eq_false_iff.1 hr
  refine hasPending_eq_false_iff.2
    ⟨Std.ExtTreeSet.eq_empty_iff_forall_not_mem.2 fun x hx => ?_,
      Std.ExtTreeSet.eq_empty_iff_forall_not_mem.2 fun x hx => ?_⟩
  · exact Std.ExtTreeSet.not_mem_empty (hdirty ▸ h.dirty x hx)
  · exact Std.ExtTreeSet.not_mem_empty (hremoved ▸ h.removed x hx)

end TellsNoMore

end Registry
end ParamSync
