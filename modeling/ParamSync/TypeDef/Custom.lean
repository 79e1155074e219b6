import ParamSync.Field
import ParamSync.Wire.Codec

/-!
# The schema of custom types

Values that only the application understands, all of the same size in bytes. The identifier names
the application's type and the configuration is free.
-/

namespace ParamSync

/-- Sixteen bytes that name an application's type. -/
structure Uuid where
  bits : BitVec 128
deriving DecidableEq

namespace Uuid

def octets (u : Uuid) : Bytes := Bytes.ofNat 16 u.bits.toNat

def ofOctets (bs : Bytes) : Uuid := ⟨BitVec.ofNat 128 bs.toNat⟩

instance : Alike Uuid := ⟨(· == ·)⟩

instance : LawfulAlike Uuid := ⟨by simp [alike]⟩

theorem ofOctets_octets (u : Uuid) : ofOctets u.octets = u := by
  have h : u.bits.toNat < Bytes.capacity 16 := u.bits.isLt
  rw [ofOctets, octets, Bytes.toNat_ofNat_of_lt h]
  simp

end Uuid

/-- The schema of a custom type. -/
structure CustomDef where
  size : UInt32
  default : Field Bytes := {}
  uuid : Field Uuid := {}
  config : Field Bytes := {}

namespace CustomDef

def hasChanges (d : CustomDef) : Bool := d.default.changed || d.uuid.changed || d.config.changed

def sent (d : CustomDef) : CustomDef :=
  { d with default := d.default.sent, uuid := d.uuid.sent, config := d.config.sent }

/-- Types of another size have nothing to tell. -/
def merge (d other : CustomDef) : CustomDef :=
  if other.size = d.size then
    { d with
      default := d.default.merge other.default
      uuid := d.uuid.merge other.uuid
      config := d.config.merge other.config }
  else d

def gains (d other : CustomDef) : Bool :=
  other.size == d.size
    && (d.default.gains other.default || d.uuid.gains other.uuid || d.config.gains other.config)

instance : Alike CustomDef where
  alike d e :=
    d.size == e.size && alike d.default e.default && alike d.uuid e.uuid && alike d.config e.config

/-- A local change of one field: a value to store, or none to clear the field. -/
inductive Edit
  /-- Cut, or filled up with zeros, to the size of the type. -/
  | default (change : Option Bytes)
  | uuid (change : Option Uuid)
  | config (change : Option Bytes)

def edit (d : CustomDef) : Edit → CustomDef
  | .default c => { d with default := d.default.edit (c.map (Bytes.fit d.size.toNat)) }
  | .uuid c => { d with uuid := d.uuid.edit c }
  | .config c => { d with config := d.config.edit c }

/-- What `edit` reports. -/
def report (d : CustomDef) : Edit → Report
  | .default c => d.default.report (c.map (Bytes.fit d.size.toNat))
  | .uuid c => d.uuid.report c
  | .config c => d.config.report c

def encodeOptions (d : CustomDef) (all : Bool) : Bytes :=
  d.default.encode all DefinitionOption.default (fun _ => []) (Bytes.fit d.size.toNat)
    ++ d.uuid.encode all DefinitionOption.uuid (fun _ => ⟨0⟩) Uuid.octets
    ++ d.config.encode all DefinitionOption.config (fun _ => []) blob

/-- The schema after a write of its options. -/
def written (d : CustomDef) (all : Bool) : CustomDef :=
  { d with
    default := d.default.written all
    uuid := d.uuid.written all
    config := d.config.written all }

@[simp] theorem written_true (d : CustomDef) : d.written true = d := by simp [written]

@[simp] theorem written_false (d : CustomDef) : d.written false = d.sent := by
  simp [written, sent]

/-- Reads the option with the given code, if the schema has one. -/
def readOption (d : CustomDef) (code : UInt8) : Reader (Option CustomDef) := do
  if code = DefinitionOption.default then
    return some { d with default := d.default.apply (← Reader.take d.size.toNat) }
  if code = DefinitionOption.uuid then
    return some { d with uuid := d.uuid.apply (Uuid.ofOctets (← Reader.take 16)) }
  if code = DefinitionOption.config then
    return some { d with config := d.config.apply (← Reader.blob) }
  return none

/-- The value a cleared field is sent as. -/
def zero (d : CustomDef) : Value := .bytes (List.replicate d.size.toNat 0)

def accepts (d : CustomDef) : Value → Bool
  | .bytes bs => bs.length == d.size.toNat
  | _ => false

/-- Reads a bare value. -/
def readValue (d : CustomDef) : Reader Value := do return .bytes (← Reader.take d.size.toNat)

/-- Writes a bare value, cut or filled up with zeros to the size of the type; a value of another
shape is written as zeros. -/
def encodeValue (d : CustomDef) : Value → Bytes
  | .bytes bs => Bytes.fit d.size.toNat bs
  | _ => Bytes.fit d.size.toNat []

end CustomDef
end ParamSync
