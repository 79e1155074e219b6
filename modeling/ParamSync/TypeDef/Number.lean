import ParamSync.TypeDef.Scalar

/-!
# The schema of numbers

Default, bounds, step, scale and unit. A cleared minimum is sent as the lowest number and a
cleared maximum as the highest, so that who applies them is unbounded again.
-/

namespace ParamSync

/-- The schema of a number of the kind `k`. -/
structure NumberDef (k : NumberKind) where
  default : Field (Number k) := {}
  minimum : Field (Number k) := {}
  maximum : Field (Number k) := {}
  multipleOf : Field (Number k) := {}
  scale : Field NumberScale := {}
  unit : Field String := {}

namespace NumberDef

variable {k : NumberKind}

/-- Whether the number lies within the bounds; a bound that is missing does not constrain. -/
def contains (d : NumberDef k) (n : Number k) : Bool :=
  d.minimum.value.all (fun low => low.atMost n) && d.maximum.value.all (fun high => n.atMost high)

def hasChanges (d : NumberDef k) : Bool :=
  d.default.changed || d.minimum.changed || d.maximum.changed || d.multipleOf.changed
    || d.scale.changed || d.unit.changed

def sent (d : NumberDef k) : NumberDef k where
  default := d.default.sent
  minimum := d.minimum.sent
  maximum := d.maximum.sent
  multipleOf := d.multipleOf.sent
  scale := d.scale.sent
  unit := d.unit.sent

def merge (d other : NumberDef k) : NumberDef k where
  default := d.default.merge other.default
  minimum := d.minimum.merge other.minimum
  maximum := d.maximum.merge other.maximum
  multipleOf := d.multipleOf.merge other.multipleOf
  scale := d.scale.merge other.scale
  unit := d.unit.merge other.unit

def gains (d other : NumberDef k) : Bool :=
  d.default.gains other.default || d.minimum.gains other.minimum
    || d.maximum.gains other.maximum || d.multipleOf.gains other.multipleOf
    || d.scale.gains other.scale || d.unit.gains other.unit

instance : Alike (NumberDef k) where
  alike d e :=
    alike d.default e.default && alike d.minimum e.minimum && alike d.maximum e.maximum
      && alike d.multipleOf e.multipleOf && alike d.scale e.scale && alike d.unit e.unit

/-! ## Local changes -/

/-- A local change of one field: a value to store, or none to clear the field. -/
inductive Edit (k : NumberKind)
  | default (change : Option (Number k))
  | minimum (change : Option (Number k))
  | maximum (change : Option (Number k))
  | multipleOf (change : Option (Number k))
  | scale (change : Option NumberScale)
  | unit (change : Option String)

def edit (d : NumberDef k) : Edit k → NumberDef k
  | .default c => { d with default := d.default.edit c }
  | .minimum c => { d with minimum := d.minimum.edit c }
  | .maximum c => { d with maximum := d.maximum.edit c }
  | .multipleOf c => { d with multipleOf := d.multipleOf.edit c }
  | .scale c => { d with scale := d.scale.edit c }
  | .unit c => { d with unit := d.unit.edit c }

/-- What `edit` reports. -/
def report (d : NumberDef k) : Edit k → Report
  | .default c => d.default.report c
  | .minimum c => d.minimum.report c
  | .maximum c => d.maximum.report c
  | .multipleOf c => d.multipleOf.report c
  | .scale c => d.scale.report c
  | .unit c => d.unit.report c

/-! ## On the wire -/

def encodeOptions (d : NumberDef k) (all : Bool) : Bytes :=
  Scalar.encodeField d.default all DefinitionOption.default (Number.zero k)
    ++ Scalar.encodeField d.minimum all DefinitionOption.minimum (Number.lowest k)
    ++ Scalar.encodeField d.maximum all DefinitionOption.maximum (Number.highest k)
    ++ Scalar.encodeField d.multipleOf all DefinitionOption.multipleOf (Number.zero k)
    ++ d.scale.encode all DefinitionOption.scale (fun _ => .linear) (fun s => [s.code])
    ++ d.unit.encode all DefinitionOption.unit (fun _ => "") Width.tiny.text

/-- The schema after a write of its options. -/
def written (d : NumberDef k) (all : Bool) : NumberDef k where
  default := d.default.written all
  minimum := d.minimum.written all
  maximum := d.maximum.written all
  multipleOf := d.multipleOf.written all
  scale := d.scale.written all
  unit := d.unit.written all

@[simp] theorem written_true (d : NumberDef k) : d.written true = d := by simp [written]

@[simp] theorem written_false (d : NumberDef k) : d.written false = d.sent := by
  simp [written, sent]

/-- Reads a scale by its code. -/
def readScale : Reader NumberScale := do
  let code ← Reader.u8
  Reader.ofOption (.unknownScale code) (NumberScale.ofCode? code)

/-- Reads the option with the given code, if the schema has one. -/
def readOption (d : NumberDef k) (code : UInt8) : Reader (Option (NumberDef k)) := do
  if code = DefinitionOption.default then
    return some { d with default := d.default.apply (← Reader.number k) }
  if code = DefinitionOption.minimum then
    return some { d with minimum := d.minimum.apply (← Reader.number k) }
  if code = DefinitionOption.maximum then
    return some { d with maximum := d.maximum.apply (← Reader.number k) }
  if code = DefinitionOption.multipleOf then
    return some { d with multipleOf := d.multipleOf.apply (← Reader.number k) }
  if code = DefinitionOption.scale then
    return some { d with scale := d.scale.apply (← readScale) }
  if code = DefinitionOption.unit then
    return some { d with unit := d.unit.apply (← Reader.text .tiny) }
  return none

end NumberDef
end ParamSync
