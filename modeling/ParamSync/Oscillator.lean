import ParamSync.Number.Single
import ParamSync.Registry.Local

/-!
# An oscillator to control

A group of parameters that stand for an oscillator: whether it runs, its frequency, the shape of
its wave, a colour, and a phase that the server advances by one tick of a twentieth of a second
at a time.
-/

namespace ParamSync

/-- The identifiers of an exposed oscillator. -/
structure Oscillator where
  running : ParamId
  frequency : ParamId
  waveform : ParamId
  tint : ParamId
  phase : ParamId
deriving DecidableEq

namespace Oscillator

/-- The parameters inside the group. -/
def ids (o : Oscillator) : List ParamId := [o.running, o.frequency, o.waveform, o.tint, o.phase]

/-- Work on a registry that may fail; what was done before a failure stays done. -/
abbrev Work := ExceptT RegistryError (StateM Registry)

/-- Makes some local changes; those that are refused do not happen. -/
def change (edits : List Parameter.Edit) (p : Parameter) : Parameter :=
  edits.foldl (fun p e => match p.edit e with | .ok (p', _) => p' | .error _ => p) p

/-- Creates a parameter and makes some changes to it. -/
def place (definition : TypeDef) (group : Option ParamId) (edits : List Parameter.Edit) :
    Work ParamId := do
  match (← get).create definition group with
  | .error e => throw e
  | .ok (id, created) =>
    set created
    match created.edit id fun p => (change edits p, ()) with
    | .error e => throw e
    | .ok (changed, _) =>
      set changed
      return id

/-- The bits of the floating-point numbers 0.05, 0.1, 1 and 20. -/
def tickLength : Single := Single.ofBits 0x3d4ccccd
def lowestFrequency : Single := Single.ofBits 0x3dcccccd
def one : Single := Single.ofBits 0x3f800000
def highestFrequency : Single := Single.ofBits 0x41a00000

def frequencyDef : NumberDef .float32 where
  minimum := ⟨some lowestFrequency, true⟩
  maximum := ⟨some highestFrequency, true⟩
  unit := ⟨some "Hz", true⟩

def waveformDef : EnumDef where
  entries := ⟨some ["sine", "square", "saw"], true⟩
  default := ⟨some "sine", true⟩

def phaseDef : NumberDef .float32 where
  minimum := ⟨some (Number.zero .float32), true⟩
  maximum := ⟨some one, true⟩

/-- Exposes an oscillator as a group at the root. -/
def expose : Work Oscillator := do
  let group ← place .group none [.label (.text "oscillator")]
  let running ← place (.boolean {}) (some group)
    [.label (.text "running"), .value (some (.boolean true))]
  let frequency ← place (.number .float32 frequencyDef) (some group)
    [.label (.text "frequency"), .label (.language "deu" "Frequenz"),
      .value (some (.number .float32 one))]
  let waveform ← place (.enum waveformDef) (some group)
    [.label (.text "waveform"), .value (some (.text "sine"))]
  let tint ← place (.rgba {}) (some group)
    [.label (.text "tint"), .value (some (.color ⟨255, 128, 0, 255⟩))]
  let phase ← place (.number .float32 phaseDef) (some group)
    [.label (.text "phase"), .description (.text "read only, advanced by the server"),
      .value (some (.number .float32 (Number.zero .float32)))]
  return { running, frequency, waveform, tint, phase }

/-- The floating-point number that a parameter holds. -/
def single? (r : Registry) (id : ParamId) : Option Single :=
  (r.get? id).bind fun p => p.value.value.bind (Value.toNumber? .float32)

/-- Advances the phase by one tick; none if the oscillator does not run. -/
def advance (o : Oscillator) (r : Registry) :
    Registry × Except RegistryError (Option Single) :=
  let runs := ((r.get? o.running).bind fun p => p.value.value.bind Value.toBool?) == some true
  if !runs then (r, .ok none)
  else
    let frequency := (single? r o.frequency).getD one
    let phase := (single? r o.phase).getD (Number.zero .float32)
    let next := Single.fraction (Single.add phase (Single.mul frequency tickLength))
    let store (p : Parameter) : Parameter × Except ProtocolError Unit :=
      match p.setValue (.number .float32 next) with
      | .ok p' => (p', .ok ())
      | .error e => (p, .error e)
    match r.edit o.phase store with
    | .error e => (r, .error e)
    | .ok (r', .ok ()) => (r', .ok (some next))
    | .ok (r', .error e) => (r', .error (.protocol e))

end Oscillator
end ParamSync
