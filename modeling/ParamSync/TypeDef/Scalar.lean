import ParamSync.Field
import ParamSync.Wire.Codec

/-!
# Scalars and the definitions that have only a default

A scalar is a value of fixed size: a number, a flag, a colour or an address. `Scalar` says how
it is written, read and recognised; `LawfulScalar` is what the definitions rely on.
-/

namespace ParamSync

/-- Types whose values have a fixed size on the wire. -/
class Scalar (α : Type) extends Alike α where
  /-- What a cleared field is sent as. -/
  zero : α
  bytes : α → Bytes
  reader : Reader α
  toValue : α → Value
  ofValue? : Value → Option α

/-- What is written is read back, and a value is recognised exactly when it was built from the
type. -/
class LawfulScalar (α : Type) [Scalar α] : Prop where
  run_bytes_append : ∀ (a : α) (rest : Bytes),
    (Scalar.reader : Reader α).run (Scalar.bytes a ++ rest) = .ok (a, rest)
  ofValue?_eq_some_iff : ∀ {v : Value} {a : α}, Scalar.ofValue? v = some a ↔ v = Scalar.toValue a

instance : Scalar Bool where
  zero := false
  bytes := boolBytes
  reader := Reader.bool
  toValue := .boolean
  ofValue? := Value.toBool?

instance : Scalar Color where
  zero := Color.clear
  bytes := Color.toBytes
  reader := Reader.color
  toValue := .color
  ofValue? := Value.toColor?

instance : Scalar Ipv4 where
  zero := ⟨0⟩
  bytes := Ipv4.octets
  reader := Reader.ipv4
  toValue := .ipv4
  ofValue? := Value.toIpv4?

instance : Scalar Ipv6 where
  zero := ⟨0⟩
  bytes := Ipv6.octets
  reader := Reader.ipv6
  toValue := .ipv6
  ofValue? := Value.toIpv6?

instance (k : NumberKind) : Scalar (Number k) where
  zero := Number.zero k
  bytes := Number.toBytes
  reader := Reader.number k
  toValue := .number k
  ofValue? := Value.toNumber? k

instance : LawfulScalar Bool where
  run_bytes_append a rest := by cases a <;> rfl
  ofValue?_eq_some_iff {v a} := by
    cases v <;> simp [Scalar.ofValue?, Scalar.toValue, Value.toBool?]

instance : LawfulScalar Color where
  run_bytes_append a rest := by
    have h := Reader.run_nat_append (n := 4) (v := a.packed) a.packed_lt rest
    simp only [Scalar.reader, Scalar.bytes, Reader.color, Color.toBytes]
    rw [Reader.run_bind_of_ok h, Color.ofPacked_packed, Reader.run_pure]
  ofValue?_eq_some_iff {v a} := by
    cases v <;> simp [Scalar.ofValue?, Scalar.toValue, Value.toColor?]

instance : LawfulScalar Ipv4 where
  run_bytes_append a rest := by
    simp only [Scalar.reader, Scalar.bytes, Reader.ipv4]
    rw [Reader.run_bind_of_ok (Reader.run_take_append (by simp [Ipv4.octets]) rest),
      Ipv4.ofOctets_octets, Reader.run_pure]
  ofValue?_eq_some_iff {v a} := by
    cases v <;> simp [Scalar.ofValue?, Scalar.toValue, Value.toIpv4?]

instance : LawfulScalar Ipv6 where
  run_bytes_append a rest := by
    simp only [Scalar.reader, Scalar.bytes, Reader.ipv6]
    rw [Reader.run_bind_of_ok (Reader.run_take_append (by simp [Ipv6.octets]) rest),
      Ipv6.ofOctets_octets, Reader.run_pure]
  ofValue?_eq_some_iff {v a} := by
    cases v <;> simp [Scalar.ofValue?, Scalar.toValue, Value.toIpv6?]

instance (k : NumberKind) : LawfulScalar (Number k) where
  run_bytes_append a rest := Reader.run_number_append a rest
  ofValue?_eq_some_iff := Value.toNumber?_eq_some_iff

/-! ## Bare values -/

namespace Scalar

variable {α : Type} [Scalar α]

/-- Reads a bare value. -/
def readValue (α : Type) [Scalar α] : Reader Value := do return toValue (← (reader : Reader α))

/-- Writes a bare value; one of another shape is written as zero. -/
def encodeValue (α : Type) [Scalar α] (v : Value) : Bytes :=
  bytes ((ofValue? v).getD (zero : α))

/-- Whether the value has the shape of the type. -/
def accepts (α : Type) [Scalar α] (v : Value) : Bool := (ofValue? v : Option α).isSome

/-- Zero as a value. -/
def zeroValue (α : Type) [Scalar α] : Value := toValue (zero : α)

/-- A field as an option whose sentinel is `sentinel`. -/
def encodeField (f : Field α) (all : Bool) (code : UInt8) (sentinel : α) : Bytes :=
  f.encode all code (fun _ => sentinel) bytes

end Scalar

/-! ## A default and nothing else -/

/-- The schema of flags, colours and addresses: an optional default. -/
structure PlainDef (α : Type) where
  default : Field α := {}

namespace PlainDef

variable {α : Type} [Scalar α]

def hasChanges (d : PlainDef α) : Bool := d.default.changed

def sent (d : PlainDef α) : PlainDef α := ⟨d.default.sent⟩

def merge (d other : PlainDef α) : PlainDef α := ⟨d.default.merge other.default⟩

def gains (d other : PlainDef α) : Bool := d.default.gains other.default

instance : Alike (PlainDef α) := ⟨fun d e => alike d.default e.default⟩

def encodeOptions (d : PlainDef α) (all : Bool) : Bytes :=
  Scalar.encodeField d.default all DefinitionOption.default Scalar.zero

/-- The schema after a write of its options. -/
def written (d : PlainDef α) (all : Bool) : PlainDef α := ⟨d.default.written all⟩

omit [Scalar α] in
@[simp] theorem written_true (d : PlainDef α) : d.written true = d := by simp [written]

omit [Scalar α] in
@[simp] theorem written_false (d : PlainDef α) : d.written false = d.sent := by
  simp [written, sent]

/-- Reads the option with the given code, if the schema has one. -/
def readOption (d : PlainDef α) (code : UInt8) : Reader (Option (PlainDef α)) := do
  if code = DefinitionOption.default then
    return some ⟨d.default.apply (← (Scalar.reader : Reader α))⟩
  return none

end PlainDef
end ParamSync
