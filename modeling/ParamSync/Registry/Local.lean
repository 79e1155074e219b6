import ParamSync.Registry.Basic

/-!
# Changes of our own

Creating, changing, moving and removing parameters. What changes is noted as dirty or removed, to
be told at the next tick. A removal takes the whole subtree out, and tells of its top alone.
-/

namespace ParamSync
namespace Registry

/-- Notes that a parameter has unsent changes; the root and removed identifiers are never
noted. -/
def setDirty (r : Registry) (id : ParamId) : Registry :=
  if id.isRoot || r.removed.contains id || !r.parameters.contains id then r
  else { r with dirty := r.dirty.insert id }

/-- Creates a parameter in a group, under the least free identifier. -/
def create (r : Registry) (definition : TypeDef) (group : Option ParamId) :
    Except RegistryError (ParamId × Registry) := do
  let group ← r.resolveGroup group
  match r.nextId? with
  | none => throw .idSpaceExhausted
  | some id =>
    let attached := r.attach (Parameter.setGroup { id, definition } group)
    return (id, { attached with dirty := attached.dirty.insert id })

def createGroup (r : Registry) (group : Option ParamId) :
    Except RegistryError (ParamId × Registry) :=
  r.create .group group

/-- Lets `f` change a parameter, and afterwards notes it as dirty if it has unsent changes. -/
def edit {α : Type} (r : Registry) (id : ParamId) (f : Parameter → Parameter × α) :
    Except RegistryError (Registry × α) :=
  if id.isRoot then .error .rootImmutable
  else
    match r.get? id with
    | none => .error (.notFound id)
    | some p =>
      let (p', a) := f p
      let r' := { r with parameters := r.parameters.insert id p' }
      let dirty := p'.hasChanges && !r.removed.contains p'.id
      .ok (if dirty then { r' with dirty := r'.dirty.insert p'.id } else r', a)

/-- Moves a parameter into another group. -/
def move (r : Registry) (id : ParamId) (group : Option ParamId) :
    Except RegistryError Registry := do
  if id.isRoot then
    throw .rootImmutable
  if !r.parameters.contains id then
    throw (.notFound id)
  let group ← r.resolveGroup group
  if group.any (r.isWithin · id) then
    throw (.cycle id)
  match r.relink? id group .here with
  | some moved => return moved.setDirty id
  | none => return r

/-! ## Removal -/

/-- Takes parameters out, each with its members, the last of a stack first; what was taken out
comes last first. An identifier that is not alive is passed over. -/
def evictFrom (parameters : IdMap Parameter) (evicted : List Parameter) :
    List ParamId → IdMap Parameter × List Parameter
  | [] => (parameters, evicted)
  | id :: stack =>
    match _h : parameters[id]? with
    | none => evictFrom parameters evicted stack
    | some p =>
      evictFrom (parameters.erase id) (p.unwatched :: evicted)
        (p.childList.reverse ++ stack)
termination_by stack => (parameters.size, stack.length)
decreasing_by
  · exact Prod.Lex.right _ (Nat.lt_succ_self _)
  · exact Prod.Lex.left _ _ (IdMap.size_erase_lt _h)

/-- Takes a parameter and its subtree out. Gives what was taken out, the top first. -/
def evict (r : Registry) (id : ParamId) : Registry × List Parameter :=
  match r.get? id with
  | none => (r, [])
  | some p =>
    let unlinked := r.modify (p.group?.getD .root) (·.eraseChild id)
    let (parameters, evicted) := evictFrom unlinked.parameters [] [id]
    ({ r with
      parameters
      reserved := evicted.foldl (fun slots q => slots.erase q.id.slot) r.reserved
      dirty := evicted.foldl (fun ids q => ids.erase q.id) r.dirty },
      evicted.reverse)

/-- Removes a parameter and its subtree, to be told. False if that has happened before. -/
def remove (r : Registry) (id : ParamId) : Except RegistryError (Bool × Registry) :=
  if id.isRoot then .error .rootImmutable
  else if r.parameters.contains id then
    let evicted := (r.evict id).1
    .ok (true, { evicted with removed := evicted.removed.insert id })
  else if r.removed.contains id then .ok (false, r)
  else .error (.notFound id)

/-- Removes a parameter and its subtree, not to be told. Gives what was taken out. -/
def removeDirect (r : Registry) (id : ParamId) : Registry × List Parameter :=
  if id.isRoot then (r, []) else r.evict id

/-- Forgets every parameter but the root, and all that was to be told. -/
def clear (r : Registry) : Registry where
  parameters := (∅ : IdMap Parameter).insert .root { r.root with children := ∅ }
  reserved := ∅
  dirty := ∅
  removed := ∅

end Registry
end ParamSync
