import ParamSync.TypeDef.Basic

/-!
# Type definitions on the wire

A definition is its datatype, a mandatory part, its options and the terminator. The mandatory
part is the size of a custom type and the whole definition of a range's element; it is empty for
all else. An unknown option is an error, because its length cannot be known.
-/

namespace ParamSync
namespace TypeDef

/-! ## Bare values -/

/-- Writes a bare value. A value of another shape is written as zero, so that what follows can
still be read. -/
def encodeValue : TypeDef → Value → Bytes
  | boolean _, v => Scalar.encodeValue Bool v
  | number k _, v => Scalar.encodeValue (Number k) v
  | string _, v | uri _, v => Width.long.encodeValue v
  | enum _, v => Width.tiny.encodeValue v
  | rgb _, v | rgba _, v => Scalar.encodeValue Color v
  | ipv4 _, v => Scalar.encodeValue Ipv4 v
  | ipv6 _, v => Scalar.encodeValue Ipv6 v
  | range element _, .range lower upper => element.encodeValue lower ++ element.encodeValue upper
  | range element _, _ =>
    let (lower, upper) := zeroPair element
    element.encodeValue lower ++ element.encodeValue upper
  | custom d, v => d.encodeValue v
  | bang, _ | group, _ => []

/-- Reads a bare value. -/
def readValue : TypeDef → Reader Value
  | boolean _ => Scalar.readValue Bool
  | number k _ => Scalar.readValue (Number k)
  | string _ | uri _ => Width.long.readValue
  | enum _ => Width.tiny.readValue
  | rgb _ | rgba _ => Scalar.readValue Color
  | ipv4 _ => Scalar.readValue Ipv4
  | ipv6 _ => Scalar.readValue Ipv6
  | range element _ => do
    let lower ← element.readValue
    let upper ← element.readValue
    return .range lower upper
  | custom d => d.readValue
  | bang => Reader.fail (.noValue .bang)
  | group => Reader.fail (.noValue .group)

/-! ## Definitions -/

/-- The options that are due, without the terminator. -/
def encodeOptions (all : Bool) : TypeDef → Bytes
  | boolean d => d.encodeOptions all
  | number _ d => d.encodeOptions all
  | string d => d.encodeOptions all
  | enum d => d.encodeOptions all
  | uri d => d.encodeOptions all
  | rgb d | rgba d => d.encodeOptions all
  | ipv4 d => d.encodeOptions all
  | ipv6 d => d.encodeOptions all
  | range element default =>
    default.encode all DefinitionOption.default (fun _ => zeroPair element) fun (lower, upper) =>
      element.encodeValue lower ++ element.encodeValue upper
  | custom d => d.encodeOptions all
  | bang | group => []

/-- The whole definition. -/
def encode (all : Bool) : TypeDef → Bytes
  | custom d =>
    Datatype.custom.code :: (Bytes.ofNat 4 d.size.toNat ++ encodeOptions all (custom d)
      ++ [terminator])
  | range element default =>
    Datatype.range.code :: (encode all element ++ encodeOptions all (range element default)
      ++ [terminator])
  | d => d.datatype.code :: (encodeOptions all d ++ [terminator])

/-- The definition after a write: every option as its writer leaves it, and in the element of a
range likewise. -/
def written (all : Bool) : TypeDef → TypeDef
  | boolean d => boolean (d.written all)
  | number k d => number k (d.written all)
  | string d => string (d.written all)
  | enum d => enum (d.written all)
  | uri d => uri (d.written all)
  | rgb d => rgb (d.written all)
  | rgba d => rgba (d.written all)
  | ipv4 d => ipv4 (d.written all)
  | ipv6 d => ipv6 (d.written all)
  | range element default => range (written all element) (default.written all)
  | custom d => custom (d.written all)
  | bang => bang
  | group => group

@[simp] theorem written_true (d : TypeDef) : d.written true = d := by
  induction d <;> simp [written, *]

@[simp] theorem written_false (d : TypeDef) : d.written false = d.sent := by
  induction d <;> simp [written, sent, *]

/-- Reads the option with the given code, if the definition has one. -/
def readOption (code : UInt8) : TypeDef → Reader (Option TypeDef)
  | boolean d => do return (← d.readOption code).map boolean
  | number k d => do return (← d.readOption code).map (number k)
  | string d => do return (← d.readOption code).map string
  | enum d => do return (← d.readOption code).map enum
  | uri d => do return (← d.readOption code).map uri
  | rgb d => do return (← d.readOption code).map rgb
  | rgba d => do return (← d.readOption code).map rgba
  | ipv4 d => do return (← d.readOption code).map ipv4
  | ipv6 d => do return (← d.readOption code).map ipv6
  | range element default => do
    if code = DefinitionOption.default then
      let lower ← element.readValue
      let upper ← element.readValue
      return some (range element (default.apply (lower, upper)))
    return none
  | custom d => do return (← d.readOption code).map custom
  | bang | group => return none

/-- Reads one option; an unknown one is an error. -/
def readKnownOption (d : TypeDef) (code : UInt8) : Reader (Option TypeDef) := do
  match ← d.readOption code with
  | some d' => return some d'
  | none => Reader.fail (.unknownOption .typeDefinition code)

/-- Reads the options of a definition up to the terminator. -/
def readOptions (d : TypeDef) : Reader TypeDef := Reader.options readKnownOption d

/-- Reads the definition of a range's element. Its datatype is looked at before it is taken, so
that a refusal leaves it in place. -/
def readElement : Reader TypeDef := do
  let code ← Reader.peek
  match Datatype.ofCode? code with
  | some (.number k) =>
    let _ ← Reader.u8
    readOptions (number k {})
  | some d => Reader.fail (.invalidRangeElement d)
  | none => Reader.fail (.unknownDatatype code)

/-- Reads a whole definition. -/
def read : Reader TypeDef := do
  match ← Reader.datatype with
  | .custom =>
    let size ← Reader.nat 4
    readOptions (ofSize (UInt32.ofNat size))
  | .range =>
    let element ← readElement
    readOptions (range element {})
  | d =>
    let definition ← Reader.ofOption (.unsupportedDatatype d) (ofDatatype? d)
    readOptions definition

end TypeDef
end ParamSync
