import ParamSync.Packet.ValueUpdate
import ParamSync.Registry.Basic

/-!
# Changes of a peer

A parameter that a peer has sent is registered if it is new and merged otherwise; a bare value is
applied to a parameter that is there. None of this is noted as dirty, so it is not sent back.
-/

namespace ParamSync
namespace Registry

/-- What a merge did. -/
inductive Merge
  /-- The identifier was free; the parameter is registered now. -/
  | added
  /-- Something changed. -/
  | updated
  /-- Nothing changed. -/
  | unchanged
deriving DecidableEq

def Merge.name : Merge → String
  | added => "Added"
  | updated => "Updated"
  | unchanged => "Unchanged"

/-- Moves a parameter into the group that a peer names, where that can be done. -/
def follow? (r : Registry) (id : ParamId) (reference : Option ParamId) : Option Registry :=
  match reference with
  | none => none
  | some group =>
    match r.resolveGroup (some group) with
    | .error _ => none
    | .ok target => if target.any (r.isWithin · id) then none else r.relink? id target .peer

/-- Merges a parameter of a peer: a new one is registered, a known one takes over what the other
has, and its place if that names a group it can go to. -/
def merge (r : Registry) (incoming : Parameter) :
    Except RegistryError (Merge × Registry × List Notice) :=
  if incoming.id.isRoot then .error .rootImmutable
  else
    match r.get? incoming.id with
    | none => .ok (.added, r.attach incoming, [])
    | some p =>
      if p.datatype ≠ incoming.datatype then
        .error (.datatypeMismatch incoming.id p.datatype incoming.datatype)
      else
        let merged := p.merge incoming
        let r' := { r with parameters := r.parameters.insert incoming.id merged }
        let followed := r'.follow? incoming.id incoming.parent.value
        let valueNotices := if p.gainsValue incoming then merged.valueNotices else []
        if p.gains incoming || followed.isSome then
          let r'' := followed.getD r'
          let updated := ((r''.get? incoming.id).map (·.updatedNotices)).getD []
          .ok (.updated, r'', valueNotices ++ updated)
        else .ok (.unchanged, r', valueNotices)

/-- Applies a bare value of a peer; tells whether it changed anything. -/
def applyValue (r : Registry) (u : ValueUpdate) :
    Except RegistryError (Bool × Registry × List Notice) :=
  match (r.get? u.id).filter (!·.id.isRoot) with
  | none => .error (.notFound u.id)
  | some p =>
    if p.datatype ≠ u.datatype then .error (.datatypeMismatch u.id p.datatype u.datatype)
    else
      match p.applyValue u.value with
      | .error e => .error (.protocol e)
      | .ok p' =>
        let r' := { r with parameters := r.parameters.insert u.id p' }
        if p.value.differs u.value then .ok (true, r', p'.valueNotices ++ p'.updatedNotices)
        else .ok (false, r', [])

end Registry
end ParamSync
