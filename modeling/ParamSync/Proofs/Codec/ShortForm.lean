import ParamSync.Proofs.Codec.Envelope

/-!
# When the short form of a value is read back

A value update is written if its datatypes make a definition and that definition accepts the value.
The writer puts in the datatype of the element wherever the update has one. The reader takes one for
ranges and for nothing else, so the element of any other update is read as the beginning of its
value.

Results:
* `ValueUpdate.encode_ok`: what can be written.
* `ValueUpdate.gives_read`: nothing but a range is read with an element.
* `Packet.value_read_iff`: an update that was written is read back exactly if no datatype but that
  of a range has an element beside it.
-/

namespace ParamSync

open Reader

namespace ValueUpdate

variable {u : ValueUpdate} {d : TypeDef}

/-! ## What can be written -/

theorem encode_ok {bs : Bytes} (h : u.encode = .ok bs) :
    ∃ d, definition u.datatype u.element = .ok d ∧ d.accepts u.value = true := by
  unfold encode at h
  cases hd : definition u.datatype u.element with
  | error e =>
    rw [hd] at h
    cases h
  | ok d =>
    refine ⟨d, rfl, ?_⟩
    by_contra haccepts
    rw [hd] at h
    simp [bind, Except.bind, haccepts, throw, throwThe, MonadExceptOf.throw] at h

/-- The length that stands before a text of the datatype. -/
def textWidth (datatype : Datatype) : Width := if datatype = .enum then .tiny else .long

/-- A text in the update is no longer than its length can say. -/
def TextFits (u : ValueUpdate) : Prop := ∀ s, u.value = .text s → (textWidth u.datatype).Fits s

theorem fits_of_textFits (hd : d.datatype = u.datatype) (haccepts : d.accepts u.value = true)
    (htext : u.TextFits) : d.Fits u.value := by
  refine ⟨haccepts, ?_⟩
  rw [TextFits, ← hd] at htext
  cases d with
  | string e => exact htext
  | uri e => exact htext
  | enum e => exact htext
  | _ => trivial

/-! ## What is read -/

/-- Nothing but a range is read with an element. -/
theorem gives_read : read.Gives fun u => u.element ≠ none → u.datatype = .range :=
  Gives.after _ fun _ => Gives.after _ fun datatype =>
    (gives_readElement datatype).bind fun _ helement =>
      Gives.after _ fun _ => Gives.after _ fun _ => gives_pure helement

end ValueUpdate

namespace Packet

variable {u : ValueUpdate}

/-- An update that was written is read back exactly if no datatype but that of a range has an
element beside it. -/
theorem value_read_iff (htext : u.TextFits) {all : Bool} {bs : Bytes}
    (h : (ofValue u).encode all = .ok bs) :
    ofBytes bs = .ok (some (ofValue u)) ↔ (u.element ≠ none → u.datatype = .range) := by
  cases hbody : u.encode with
  | error e =>
    rw [encode_ofValue, hbody] at h
    cases h
  | ok body =>
    rw [encode_ofValue, hbody] at h
    cases h
    obtain ⟨d, hdefinition, haccepts⟩ := ValueUpdate.encode_ok hbody
    obtain ⟨hdatatype, hd, -⟩ := ValueUpdate.definition_ok hdefinition
    constructor
    · intro hread
      rw [ofBytes, run_read_updateValue, run_bind] at hread
      cases hu : ValueUpdate.read.run body with
      | error e =>
        rw [hu] at hread
        cases hread
      | ok result =>
        rw [hu] at hread
        cases hread
        exact ValueUpdate.gives_read hu
    · intro helement
      have hlegible : u.Legible d :=
        ⟨hdefinition, ValueUpdate.run_readElement hdefinition helement, hd,
          ValueUpdate.fits_of_textFits hdatatype haccepts htext⟩
      obtain ⟨bs, hencode, hread⟩ := hlegible.exists_encode
      rw [hbody] at hencode
      cases hencode
      have hrun := hread []
      rw [List.append_nil] at hrun
      rw [ofBytes, run_read_updateValue, run_bind_of_ok hrun]
      rfl

/-- A range from a NaN to the negative zero. -/
def nanUpdate : ValueUpdate where
  id := ⟨7⟩
  datatype := .range
  element := some (.number .float32)
  value := .range (.number .float32 ⟨0x7FC00001⟩) (.number .float32 ⟨0x80000000⟩)

/-- A range is read back to the bit. -/
theorem value_read_iff_nan :
    ∃ bs, (ofValue nanUpdate).encode true = .ok bs ∧ ofBytes bs = .ok (some (ofValue nanUpdate)) :=
  have ⟨bs, hbs⟩ : ∃ bs, (ofValue nanUpdate).encode true = .ok bs := ⟨_, rfl⟩
  ⟨bs, hbs, (value_read_iff (by rintro _ ⟨⟩) hbs).2 fun _ => rfl⟩

/-- A switch that is off, with an element that a switch does not have. -/
def strayUpdate : ValueUpdate where
  id := ⟨1⟩
  datatype := .boolean
  element := some (.number .int32)
  value := .boolean false

/-- It can be written, and is read as a switch that is on. -/
theorem stray_switches_on :
    ∃ bs, (ofValue strayUpdate).encode true = .ok bs ∧
      ofBytes bs =
        .ok (some (ofValue { strayUpdate with element := none, value := .boolean true })) ∧
      ofBytes bs ≠ .ok (some (ofValue strayUpdate)) := by
  refine ⟨[0x05, 0x00, 0x01, 0x10, 0x15, 0x00], rfl, rfl, fun h => ?_⟩
  have hread : ofBytes [0x05, 0x00, 0x01, 0x10, 0x15, 0x00] =
      .ok (some (ofValue { strayUpdate with element := none, value := .boolean true })) := rfl
  rw [hread] at h
  cases h

end Packet
end ParamSync
