import ParamSync.Proofs.Registry.Steps

/-!
# The root stays as it was made

Of the root only the members ever change. An operation that names it is refused or passed over, also
one that a peer asks for; entering, moving or taking out somebody else changes at most who its
members are. So a registry that forgets everything else is the new one, whatever was done to it.

Results:
* `FreshRoot.perform`: every operation leaves the root as it was made.
* `Reachable.clear_eq_new`: a registry that forgets is new.
-/

namespace ParamSync
namespace Registry

variable {r r' : Registry} {id : ParamId}

/-- The root is as it was made, its members apart. -/
def FreshRoot (r : Registry) : Prop := ∃ children, r.get? .root = some { freshRoot with children }

namespace FreshRoot

/-- What changes only the members of the root, if anything about it. -/
theorem of_children (h : r.FreshRoot)
    (hroot : ∀ p, r.get? .root = some p →
      ∃ children, r'.get? .root = some { p with children }) : r'.FreshRoot := by
  obtain ⟨children, hr⟩ := h
  obtain ⟨children', hr'⟩ := hroot _ hr
  exact ⟨children', hr'⟩

theorem of_get?_eq (h : r.FreshRoot) (hroot : r'.get? .root = r.get? .root) : r'.FreshRoot := by
  obtain ⟨children, hr⟩ := h
  exact ⟨children, hroot.trans hr⟩

theorem of_parameters_eq (h : r.FreshRoot) (hr : r'.parameters = r.parameters) : r'.FreshRoot :=
  h.of_get?_eq (by rw [get?, get?, hr])

/-- Somebody else is entered or replaced. -/
theorem of_insert (h : r.FreshRoot) (hid : id ≠ .root) {p : Parameter}
    (hr : r'.parameters = r.parameters.insert id p) : r'.FreshRoot :=
  h.of_get?_eq (by rw [get?_of_insert hr, if_neg (Ne.symm hid)])

theorem attach (h : r.FreshRoot) (p : Parameter) : (r.attach p).FreshRoot := by
  obtain hold | ⟨hid, hnew⟩ := r.attach_eq_or_new p
  · rwa [hold]
  refine h.of_children fun q hq => ?_
  rw [get?_attach hid hnew, if_neg (Ne.symm hid), hq]
  split
  · exact ⟨_, rfl⟩
  · exact ⟨q.children, rfl⟩

theorem relink (h : r.FreshRoot) (hid : id ≠ .root) {group : Option ParamId} {origin : Origin}
    {m : Registry} (hm : r.relink? id group origin = some m) : m.FreshRoot := by
  obtain ⟨f, hf, hget⟩ := get?_relink hm .root
  refine h.of_children fun q hq => ?_
  obtain ⟨children, hchildren⟩ := hf q
  exact ⟨children, by rw [hget, if_neg (Ne.symm hid), hq, Option.map_some, hchildren]⟩

/-- The root is below nobody, so it is not taken out. -/
theorem evict (h : r.FreshRoot) (hf : Forest r) (hid : id ≠ .root) :
    (r.evict id).1.FreshRoot := by
  cases hp : r.get? id with
  | none => rwa [evict_of_dead hp]
  | some p =>
    refine h.of_children fun q hq => ?_
    rw [hf.get?_evict_of_not_above hid hp not_above_root, hq]
    split
    · exact ⟨_, rfl⟩
    · exact ⟨q.children, rfl⟩

theorem create (h : r.FreshRoot) {definition : TypeDef} {group : Option ParamId}
    (hc : r.create definition group = .ok (id, r')) : r'.FreshRoot := by
  obtain ⟨target, -, -, rfl⟩ := create_ok hc
  exact (h.attach _).of_parameters_eq rfl

/-- A peer that sends a parameter with the identifier of the root is refused. -/
theorem merge (h : r.FreshRoot) {incoming : Parameter} {outcome : Merge} {notices : List Notice}
    (hm : r.merge incoming = .ok (outcome, r', notices)) : r'.FreshRoot := by
  obtain ⟨hid, ⟨-, rfl⟩ | ⟨p, -, -, rfl⟩⟩ := merge_ok hm
  · exact h.attach incoming
  · have hover : (r.overlay p incoming).FreshRoot := h.of_insert hid rfl
    cases hf : (r.overlay p incoming).follow? incoming.id incoming.parent.value with
    | none => exact hover
    | some m =>
      obtain ⟨-, -, hm'⟩ := follow?_eq_some hf
      exact hover.relink hid hm'

/-- The root is never noted; if it were, it would have nothing to send. -/
theorem encodeDirty (h : r.FreshRoot) : r.encodeDirty.2.FreshRoot := by
  obtain ⟨children, hr⟩ := h
  rw [FreshRoot, get?_encodeDirty, hr]
  split <;> exact ⟨children, rfl⟩

theorem root_eq (h : r.FreshRoot) (hf : Forest r) :
    ∃ children, r.root = { freshRoot with children } := by
  obtain ⟨children, hr⟩ := h
  exact ⟨children, Option.some.inj (hf.root_eq.1.symm.trans hr)⟩

theorem clear_eq_new (h : r.FreshRoot) (hf : Forest r) : r.clear = .new := by
  obtain ⟨children, hr⟩ := h.root_eq hf
  rw [clear, hr]
  rfl

theorem new : FreshRoot .new := ⟨∅, get?_new .root⟩

theorem perform (h : r.FreshRoot) (hf : Forest r) (op : Op) : (r.perform op).FreshRoot := by
  cases op with
  | create definition group => exact of_orSame h fun _ hok => h.create hok
  | createGroup group => exact of_orSame h fun _ hok => h.create hok
  | edit id accesses =>
    refine of_orSame h ?_
    rintro ⟨r', ⟨⟩⟩ hok
    obtain ⟨hid, p, -, -, rfl⟩ := edit_ok hok
    exact h.of_insert hid rfl
  | setDirty id => exact h.of_parameters_eq (r.parameters_setDirty id)
  | move id group =>
    refine of_orSame h fun r' hok => ?_
    obtain ⟨hid, -, -, ⟨-, rfl⟩ | ⟨m, hm, rfl⟩⟩ := move_ok hok
    · exact h
    · exact (h.relink hid hm).of_parameters_eq (m.parameters_setDirty id)
  | remove id =>
    refine of_orSame h ?_
    rintro ⟨found, r'⟩ hok
    obtain ⟨hid, ⟨-, -, rfl⟩ | ⟨-, -, -, rfl⟩⟩ := remove_ok hok
    · exact (h.evict hf hid).of_parameters_eq rfl
    · exact h
  | removeDirect id =>
    show (r.removeDirect id).1.FreshRoot
    unfold removeDirect
    split
    · exact h
    · next hid => exact h.evict hf (by simpa using hid)
  | merge incoming => exact of_orSame h fun _ hok => h.merge hok
  | applyValue u =>
    refine of_orSame h ?_
    rintro ⟨applied, r', notices⟩ hok
    obtain ⟨p, p', hp, hid, -, rfl⟩ := applyValue_ok hok
    have hkey : p.id = u.id := hf.keyed hp
    exact h.of_insert (fun hroot => hid (hkey.trans hroot)) rfl
  | encodeDirty => exact h.encodeDirty
  | encodeRemoved => exact h.of_parameters_eq rfl
  | encodeAll => rwa [perform_encodeAll]
  | clear =>
    show r.clear.FreshRoot
    rw [h.clear_eq_new hf]
    exact new

end FreshRoot

/-- A registry that forgets everything but the root is the new one. -/
theorem Reachable.clear_eq_new (h : Reachable (fun _ => Op.Childless) r) : r.clear = .new := by
  have hinvariant : Forest r ∧ r.FreshRoot := by
    refine h.invariant (I := fun r => Forest r ∧ r.FreshRoot) ⟨.new, .new⟩ ?_
    rintro r op ⟨hf, hroot⟩ hop
    exact ⟨hf.perform op hop, hroot.perform hf op⟩
  exact hinvariant.2.clear_eq_new hinvariant.1

end Registry
end ParamSync
