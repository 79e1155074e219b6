import ParamSync.Parameter.Basic
import ParamSync.TypeDef.Codec

/-!
# Parameters on the wire

A parameter is its identifier, its definition, its options and the terminator. A full write has
every option that is present, a delta write those that changed. A reader that meets an option it
does not know keeps what it has read so far and stops, since the option's length is unknown.
-/

namespace ParamSync
namespace Parameter

/-- The value as an option; bangs and groups have none. -/
def encodeValue (p : Parameter) (all : Bool) : Bytes :=
  if p.definition.hasValue then
    p.value.encode all ParameterOption.value.code (fun _ => p.definition.zero?.getD (.bytes []))
      p.definition.encodeValue
  else []

/-- Everything after the definition, without the terminator. -/
def encodeOptions (p : Parameter) (all : Bool) : Bytes :=
  p.encodeValue all
    ++ p.label.encode all ParameterOption.label.code .tiny
    ++ p.description.encode all ParameterOption.description.code .short
    ++ p.tags.encode all ParameterOption.tags.code (fun _ => "") Width.tiny.text
    ++ p.order.encode all ParameterOption.order.code (fun _ => 0) int32Bytes
    ++ p.parent.encode all ParameterOption.parentId.code (fun _ => ParamId.root) ParamId.toBytes
    ++ p.userData.encode all ParameterOption.userData.code (fun _ => []) blob
    ++ p.userId.encode all ParameterOption.userId.code (fun _ => "") Width.tiny.text

/-- The whole parameter. -/
def encode (p : Parameter) (all : Bool) : Bytes :=
  p.id.toBytes ++ p.definition.encode all ++ p.encodeOptions all ++ [terminator]

/-- The parameter after a write: every option as its writer leaves it. The value of a bang or a
group is not written, so its flag is left alone. -/
def written (p : Parameter) (all : Bool) : Parameter :=
  { p with
    definition := p.definition.written all
    value := if p.definition.hasValue then p.value.written all else p.value
    label := p.label.written all
    description := p.description.written all
    tags := p.tags.written all
    order := p.order.written all
    parent := p.parent.written all
    userData := p.userData.written all
    userId := p.userId.written all }

/-- The parameter once its changes have been sent. -/
def sent (p : Parameter) : Parameter :=
  { p with
    definition := p.definition.sent
    value := if p.definition.hasValue then p.value.sent else p.value
    label := p.label.sent
    description := p.description.sent
    tags := p.tags.sent
    order := p.order.sent
    parent := p.parent.sent
    userData := p.userData.sent
    userId := p.userId.sent }

/-- A full write leaves the parameter as it is. -/
@[simp] theorem written_true (p : Parameter) : p.written true = p := by simp [written]

/-- A delta write leaves no flag of what it looks at. -/
@[simp] theorem written_false (p : Parameter) : p.written false = p.sent := by
  simp [written, sent]

/-- Reads the option with the given code, if it is one that can be read. -/
def readOption (p : Parameter) (code : UInt8) : Reader (Option Parameter) :=
  match ParameterOption.ofCode? code with
  | some .value =>
    if p.definition.hasValue then do
      return some { p with value := p.value.apply (← p.definition.readValue) }
    else return none
  | some .label => do return some { p with label := ← LocalizedText.read .tiny }
  | some .description => do return some { p with description := ← LocalizedText.read .short }
  | some .tags => do return some { p with tags := p.tags.apply (← Reader.text .tiny) }
  | some .order => do return some { p with order := p.order.apply (← Reader.int32) }
  | some .parentId => do return some { p with parent := p.parent.apply (← Reader.paramId) }
  | some .userData => do return some { p with userData := p.userData.apply (← Reader.blob) }
  | some .userId => do return some { p with userId := p.userId.apply (← Reader.text .tiny) }
  | some .widget | none => return none

/-- Reads a whole parameter. -/
def read : Reader Parameter := do
  let id ← Reader.paramId
  let definition ← TypeDef.read
  Reader.options readOption { id, definition }

end Parameter
end ParamSync
