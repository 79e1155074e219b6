import ParamSync.Client
import ParamSync.Proofs.Codec.Packet
import ParamSync.Proofs.Codec.Settled
import ParamSync.Proofs.Registry.Schemas

/-!
# One hop settles a parameter

A server passes on the bytes of a client's update as they are, and writes anew what it read of them
for those who come later. Both say the same: what the first reader makes of a parameter is settled,
whatever texts, bytes and language codes the parameter was built with, so every later reader makes
the same of it. All that can spoil this is a language code that begins with the terminator.

Results:
* `Parameter.Made.exists_settled`: what is read of a parameter is read again as it is.
-/

namespace ParamSync

namespace Parameter

/-- The parameter was made with a definition and changed by its own operations, which do not replace
the definition. -/
def Made (p : Parameter) : Prop :=
  ∃ (id : ParamId) (definition : TypeDef) (accesses : List Access), definition.Made ∧
    (∀ change, Access.edit change ∈ accesses → change.KeepsDefinition) ∧
    p = ({ id, definition } : Parameter).accessAll accesses

theorem Made.wellFormed {p : Parameter} (h : p.Made) : p.definition.WellFormed := by
  obtain ⟨id, definition, accesses, hmade, hkeep, rfl⟩ := h
  exact (keeps_accessAll _ hkeep).wellFormed hmade.sound.wellFormed

/-- What is read of a full write is written in full and read as it is, with all bytes taken, and a
client cannot tell the two messages apart. -/
theorem Made.exists_settled {p : Parameter} (h : p.Made) (hlabel : p.label.Legible)
    (hdescription : p.description.Legible) :
    ∃ settled : Parameter,
      (∀ rest, read.run (p.encode true ++ rest) = .ok (settled, rest)) ∧
      (∀ rest, read.run (settled.encode true ++ rest) = .ok (settled, rest)) ∧
      ∀ c : Client, c.receive (Packet.encodeUpdate settled true) =
        c.receive (Packet.encodeUpdate p true) := by
  have hlegible : p.Legible true := ⟨h.wellFormed, fun _ => hlabel, fun _ => hdescription⟩
  have hheard := heard_heard hlegible
  refine ⟨p.heard true, run_read hlegible, fun rest => ?_, fun c => ?_⟩
  · rw [run_read hlegible.heard, hheard]
  · rw [Client.receive, Client.receive, Packet.ofBytes_encodeUpdate hlegible,
      Packet.ofBytes_encodeUpdate hlegible.heard, hheard]

/-- A text of 300 bytes. -/
def longText : String := String.ofList (List.replicate 100 '€')

/-- A link whose label, as well as the code of its language, is cut inside a character. Another
language has no code at all, and the schemas are no words. -/
def oddLink : Parameter :=
  ({ id := ⟨7⟩, definition := .uri {} } : Parameter).accessAll [
    .edit (.label (.language "d€" ("-" ++ longText))),
    .edit (.label (.language "" "empty")),
    .edit (.definition (.uri (.schemas (some ["http  ", " ", "a b"])))),
    .edit (.userData (some [0, 255])),
    .edit (.value (some (.text longText)))]

theorem exists_settled_oddLink :
    ∃ settled : Parameter,
      (∀ rest, read.run (oddLink.encode true ++ rest) = .ok (settled, rest)) ∧
      (∀ rest, read.run (settled.encode true ++ rest) = .ok (settled, rest)) ∧
      ∀ c : Client, c.receive (Packet.encodeUpdate settled true) =
        c.receive (Packet.encodeUpdate oddLink true) := by
  have huri : TypeDef.ofDatatype? .uri = some (.uri {}) := rfl
  refine Made.exists_settled ⟨⟨7⟩, .uri {}, _, .ofDatatype huri, ?_, rfl⟩ ?_ ?_
  · simp [Edit.KeepsDefinition]
  · intro code hcode
    have hcodes : code = "" ∨ "d€" = code := by
      simpa [oddLink, accessAll, access, edit, LocalizedText.edit, LocalizedText.language?,
        TypeDef.edit, setValue, TypeDef.hasValue, TypeDef.accepts, Value.toText?] using hcode
    rcases hcodes with rfl | rfl <;> decide
  · intro code hcode
    simp [oddLink, accessAll, access, edit, TypeDef.edit, setValue, TypeDef.hasValue,
      TypeDef.accepts, Value.toText?] at hcode

end Parameter
end ParamSync
