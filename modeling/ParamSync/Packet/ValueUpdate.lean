import ParamSync.Parameter.Basic
import ParamSync.TypeDef.Codec

/-!
# Value updates

The short form of a change: an identifier, a datatype, for ranges the datatype of the element,
and a bare value. It tells enough about the definition to read the value, and nothing more, so
custom types, whose size it does not carry, have no short form.
-/

namespace ParamSync

/-- A bare value addressed to a parameter. -/
structure ValueUpdate where
  id : ParamId
  datatype : Datatype
  /-- The datatype of the element, for ranges. -/
  element : Option Datatype
  value : Value
deriving DecidableEq

namespace ValueUpdate

instance : Alike ValueUpdate where
  alike a b :=
    a.id == b.id && a.datatype == b.datatype && a.element == b.element && alike a.value b.value

/-- The short form of a parameter's value, if it has one. -/
def ofParameter? (p : Parameter) : Option ValueUpdate :=
  match p.value.value, p.definition with
  | none, _ => none
  | _, .custom _ => none
  | some value, .range element _ => some ⟨p.id, .range, some element.datatype, value⟩
  | some value, d => some ⟨p.id, d.datatype, none, value⟩

/-- A definition that can read and write the values of a datatype. -/
def definition (datatype : Datatype) (element : Option Datatype) :
    Except ProtocolError TypeDef :=
  match datatype, element with
  | .range, some (.number k) => .ok (.rangeOf k)
  | .range, some e => .error (.invalidRangeElement e)
  | .custom, _ => .error (.unsupportedDatatype .custom)
  | d, _ =>
    match (TypeDef.ofDatatype? d).filter (·.hasValue) with
    | some definition => .ok definition
    | none => .error (.unsupportedDatatype d)

/-- The update on the wire, if its value fits its datatype. -/
def encode (u : ValueUpdate) : Except ProtocolError Bytes := do
  let d ← definition u.datatype u.element
  if d.accepts u.value then
    return u.id.toBytes ++ u.datatype.code :: (u.element.map Datatype.code).toList
      ++ d.encodeValue u.value
  throw (.valueMismatch u.datatype)

/-- Reads the datatype of the element, which only ranges have. -/
def readElement (datatype : Datatype) : Reader (Option Datatype) :=
  if datatype = .range then do return some (← Reader.datatype) else return none

/-- Takes what may have failed. -/
def readDefinition (datatype : Datatype) (element : Option Datatype) : Reader TypeDef :=
  match definition datatype element with
  | .ok d => return d
  | .error e => Reader.fail e

/-- Reads an update. -/
def read : Reader ValueUpdate := do
  let id ← Reader.paramId
  let datatype ← Reader.datatype
  let element ← readElement datatype
  let d ← readDefinition datatype element
  let value ← d.readValue
  return { id, datatype, element, value }

end ValueUpdate
end ParamSync
