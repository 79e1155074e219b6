import ParamSync.Registry.Local
import ParamSync.Registry.Remote
import ParamSync.Registry.Sync

/-!
# Runs of a registry

Everything that can be done to a registry from outside, as data: `perform` gives the registry that
an operation leaves behind, where a refused operation leaves it as it was. `Reachable` holds of the
registries that a run of operations makes out of the new one. What a run may do is a parameter, as
the properties that runs keep differ in what they ask of it.

Results:
* `Reachable.invariant`: what the new registry has and every allowed operation keeps, every
  reachable registry has.
-/

namespace ParamSync

/-! ## Borrowed parameters -/

namespace Parameter

/-- What is done to a borrowed parameter: a change, or a write, which resets the flags if it is a
delta. -/
inductive Access
  | edit (change : Edit)
  | write (all : Bool)

/-- The parameter afterwards; a refused change leaves it as it was. -/
def access (p : Parameter) : Access → Parameter
  | .edit change =>
    match p.edit change with
    | .ok (p', _) => p'
    | .error _ => p
  | .write all => p.written all

/-- The parameter when it is given back. -/
def accessAll (p : Parameter) (accesses : List Access) : Parameter := accesses.foldl access p

end Parameter

namespace Registry

/-! ## Operations -/

/-- What can be done to a registry. -/
inductive Op
  | create (definition : TypeDef) (group : Option ParamId)
  | createGroup (group : Option ParamId)
  | edit (id : ParamId) (accesses : List Parameter.Access)
  | setDirty (id : ParamId)
  | move (id : ParamId) (group : Option ParamId)
  | remove (id : ParamId)
  | removeDirect (id : ParamId)
  | merge (incoming : Parameter)
  | applyValue (u : ValueUpdate)
  | encodeDirty
  | encodeRemoved
  | encodeAll
  | clear

/-- What an operation that may be refused leaves behind. -/
def orSame {α : Type} (r : Registry) (after : α → Registry) :
    Except RegistryError α → Registry
  | .ok a => after a
  | .error _ => r

/-- What a refusal leaves alone and a success brings about holds either way. -/
theorem of_orSame {P : Registry → Prop} {α : Type} {r : Registry} {after : α → Registry}
    {result : Except RegistryError α} (hsame : P r) (hok : ∀ a, result = .ok a → P (after a)) :
    P (r.orSame after result) := by
  cases result with
  | error e => exact hsame
  | ok a => exact hok a rfl

/-- The registry after an operation. -/
def perform (r : Registry) : Op → Registry
  | .create definition group => r.orSame (·.2) (r.create definition group)
  | .createGroup group => r.orSame (·.2) (r.createGroup group)
  | .edit id accesses => r.orSame (·.1) (r.edit id fun p => (p.accessAll accesses, ()))
  | .setDirty id => r.setDirty id
  | .move id group => r.orSame (fun moved => moved) (r.move id group)
  | .remove id => r.orSame (·.2) (r.remove id)
  | .removeDirect id => (r.removeDirect id).1
  | .merge incoming => r.orSame (·.2.1) (r.merge incoming)
  | .applyValue u => r.orSame (·.2.1) (r.applyValue u)
  | .encodeDirty => r.encodeDirty.2
  | .encodeRemoved => r.encodeRemoved.2
  | .encodeAll => r.dump.2
  | .clear => r.clear

@[simp] theorem perform_encodeAll (r : Registry) : r.perform .encodeAll = r := r.dump_snd

/-- The registry after some operations. -/
def performAll (r : Registry) (ops : List Op) : Registry := ops.foldl perform r

namespace Op

/-- A parameter of a peer comes without members. -/
def Childless : Op → Prop
  | merge incoming => incoming.children = ∅
  | _ => True

end Op

/-! ## Runs -/

/-- The registries that a run of allowed operations makes out of the new one. -/
inductive Reachable (allowed : Registry → Op → Prop) : Registry → Prop
  | new : Reachable allowed .new
  | step {r : Registry} (op : Op) (h : Reachable allowed r) (hop : allowed r op) :
      Reachable allowed (r.perform op)

namespace Reachable

variable {allowed : Registry → Op → Prop} {r : Registry}

theorem invariant {I : Registry → Prop} (h : Reachable allowed r) (hnew : I .new)
    (hstep : ∀ r op, I r → allowed r op → I (r.perform op)) : I r := by
  induction h with
  | new => exact hnew
  | step op _ hop ih => exact hstep _ op ih hop

theorem performAll (h : Reachable allowed r) {ops : List Op}
    (hops : ∀ op ∈ ops, ∀ r, allowed r op) : Reachable allowed (r.performAll ops) := by
  induction ops generalizing r with
  | nil => exact h
  | cons op ops ih =>
    exact ih (.step op h (hops op (by simp) r)) fun op' hop' => hops op' (by simp [hop'])

end Reachable
end Registry
end ParamSync
