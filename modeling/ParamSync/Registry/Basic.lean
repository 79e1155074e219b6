import ParamSync.Parameter.Basic

/-!
# The registry

All parameters of one peer by identifier, the root group among them, and what the peer still has
to tell: which parameters have unsent changes and which identifiers were removed. Identifiers are
reserved as unsigned slots while their parameter lives; one whose removal has not been told stays
unavailable until it has.
-/

namespace ParamSync

/-- A refusal by the registry. -/
inductive RegistryError
  /-- Every identifier but the root's is taken. -/
  | idSpaceExhausted
  | notFound (id : ParamId)
  | notAGroup (id : ParamId)
  | rootImmutable
  /-- A group cannot be put into its own subtree. -/
  | cycle (id : ParamId)
  | datatypeMismatch (id : ParamId) (expected found : Datatype)
  | protocol (e : ProtocolError)
deriving DecidableEq

namespace RegistryError

/-- The name of the cause. -/
def kind : RegistryError → String
  | idSpaceExhausted => "IdSpaceExhausted"
  | notFound _ => "NotFound"
  | notAGroup _ => "NotAGroup"
  | rootImmutable => "RootImmutable"
  | cycle _ => "Cycle"
  | datatypeMismatch .. => "DatatypeMismatch"
  | protocol e => e.kind

/-- The sentence that reports the error. -/
def message : RegistryError → String
  | idSpaceExhausted => "parameter id space exhausted"
  | notFound id => "parameter " ++ id.text ++ " not found"
  | notAGroup id => "parameter " ++ id.text ++ " is not a group"
  | rootImmutable => "the root group cannot be modified this way"
  | cycle id => "parameter " ++ id.text ++ " cannot be moved into its own subtree"
  | datatypeMismatch id expected found =>
    "parameter " ++ id.text ++ " has datatype " ++ expected.name ++ ", update carries "
      ++ found.name
  | protocol e => e.message

end RegistryError

/-- The parameters of one peer. -/
structure Registry where
  /-- The living parameters, the root group included. -/
  parameters : IdMap Parameter
  /-- The slots of the living parameters, the root apart. -/
  reserved : Std.ExtTreeSet UInt16
  /-- The parameters with unsent changes. -/
  dirty : IdSet
  /-- The identifiers whose removal has not been told. -/
  removed : IdSet

namespace Registry

/-- The root group as it is at first. -/
def freshRoot : Parameter where
  id := .root
  definition := .group
  label := { text := some "root" }

/-- The registry that holds only the root group. -/
def new : Registry where
  parameters := (∅ : IdMap Parameter).insert .root freshRoot
  reserved := ∅
  dirty := ∅
  removed := ∅

/-! ## Lookup -/

def get? (r : Registry) (id : ParamId) : Option Parameter := r.parameters[id]?

def root (r : Registry) : Parameter := r.parameters.getD .root freshRoot

/-- Whether the identifier names a parameter other than the root. -/
def contains (r : Registry) (id : ParamId) : Bool := !id.isRoot && r.parameters.contains id

/-- The number of parameters, the root apart. -/
def size (r : Registry) : Nat := r.parameters.size - 1

/-- The parameters other than the root, in ascending order. -/
def ids (r : Registry) : List ParamId := r.parameters.keys.filter (!·.isRoot)

def isGroup (r : Registry) (id : ParamId) : Bool := (r.get? id).any (·.isGroup)

/-- The members of a group. -/
def children (r : Registry) (id : ParamId) : List ParamId :=
  ((r.get? id).map (·.childList)).getD []

/-- Whether there is anything to tell. -/
def hasPending (r : Registry) : Bool := !r.dirty.isEmpty || !r.removed.isEmpty

/-- The group of a parameter, if it is alive and not at the root. -/
def group? (r : Registry) (id : ParamId) : Option ParamId := (r.get? id).bind (·.group?)

/-- Whether `ancestor` is met on the way up from `node`, in at most `n` steps. -/
def isWithinSteps (r : Registry) (ancestor : ParamId) : Nat → ParamId → Bool
  | 0, _ => false
  | n + 1, node =>
    node == ancestor || (r.group? node).any (isWithinSteps r ancestor n)

/-- Whether `node` is `ancestor` or lies below it. No way up has more stations than there are
parameters, and one more for where it may leave them. -/
def isWithin (r : Registry) (node ancestor : ParamId) : Bool :=
  r.isWithinSteps ancestor (r.parameters.size + 1) node

/-- Checks that a parameter can be put there: nowhere and the root's identifier both mean the
root. -/
def resolveGroup (r : Registry) (group : Option ParamId) :
    Except RegistryError (Option ParamId) :=
  match group.filter (!·.isRoot) with
  | none => .ok none
  | some id =>
    match r.get? id with
    | none => .error (.notFound id)
    | some p => if p.isGroup then .ok (some id) else .error (.notAGroup id)

/-! ## Identifiers -/

/-- Whether the identifier is neither taken nor waiting for its removal to be told. -/
def isFree (r : Registry) (id : ParamId) : Bool :=
  !r.reserved.contains id.slot && !r.removed.contains id

/-- The first free identifier among the last `n` slots. -/
def firstFree? (r : Registry) : Nat → Option ParamId
  | 0 => none
  | n + 1 =>
    let id := ParamId.ofSlot (UInt16.ofNat (65535 - n))
    if r.isFree id then some id else firstFree? r n

/-- The free identifier with the least slot, the root's apart. -/
def nextId? (r : Registry) : Option ParamId := r.firstFree? 65535

/-! ## The two sides of a link -/

/-- Changes a parameter in place. -/
def modify (r : Registry) (id : ParamId) (f : Parameter → Parameter) : Registry :=
  { r with parameters := r.parameters.modify id f }

/-- Registers a parameter and links it to its group, or to the root if the group is not alive. A
parameter whose identifier is taken is left out. -/
def attach (r : Registry) (p : Parameter) : Registry :=
  if p.id.isRoot || r.parameters.contains p.id then r
  else
    let group := p.group?.filter r.isGroup
    let p' := if group.isSome then p else p.applyGroup none
    let linked := r.modify (group.getD .root) (·.insertChild p.id)
    { linked with
      parameters := linked.parameters.insert p.id p'
      reserved := r.reserved.insert p.id.slot }

/-- Who puts a parameter into another group. -/
inductive Origin
  /-- We do, so it has to be told. -/
  | here
  | peer

/-- Moves a living parameter to another group, on both sides of the link; none if it is there
already. -/
def relink? (r : Registry) (id : ParamId) (group : Option ParamId) (origin : Origin) :
    Option Registry :=
  match r.get? id with
  | none => none
  | some p =>
    let old := p.group?.getD .root
    let new := group.getD .root
    if old = new then none
    else
      some (((r.modify old (·.eraseChild id)).modify new (·.insertChild id)).modify id
        (match origin with
          | .here => (·.setGroup group)
          | .peer => (·.applyGroup group)))

end Registry
end ParamSync
