import ParamSync.Proofs.Codec.Bare
import ParamSync.Proofs.Codec.Packet
import ParamSync.Proofs.Codec.RoundTrip

/-!
# Packets are read back

What the data of a packet are is not on the wire: the writer and the reader both take it from the
command. `Packet.Lossless` says that they agree on it, and that nothing of the data is too long. A
value update stands apart. It has no options and no terminator, and the reader makes up a definition
from what it tells of the parameter's, which is enough to read the value.

Results:
* `ValueUpdate.exists_encode_heard`: what is read of an update.
* `ValueUpdate.Legible.exists_encode`: the short form of a parameter's value is read back.
* `Packet.Lossless.reads_back`: a packet is read back, whatever follows it, and the writers of
  updates and removals write what the packets do.
-/

namespace ParamSync

open Reader

/-! ## Value updates -/

namespace ValueUpdate

/-- An update whose datatypes tell of a definition that accepts its value is written. If nothing but
a range has an element, the value is read, as it is heard. -/
theorem exists_encode_heard {u : ValueUpdate} {d : TypeDef}
    (hdefinition : definition u.datatype u.element = .ok d)
    (helement : u.element ≠ none → u.datatype = .range) (haccepts : d.accepts u.value = true) :
    ∃ bs, u.encode = .ok bs ∧
      ∀ rest, read.run (bs ++ rest) = .ok ({ u with value := d.heardValue u.value }, rest) := by
  refine ⟨u.id.toBytes ++ u.datatype.code :: (u.element.map Datatype.code).toList
    ++ d.encodeValue u.value, ?_, fun rest => ?_⟩
  · rw [encode, hdefinition]
    exact if_pos haccepts
  · obtain ⟨-, hd, -⟩ := definition_ok hdefinition
    have hreadDefinition : readDefinition u.datatype u.element = pure d := by
      rw [readDefinition, hdefinition]
    have hreadValue := TypeDef.run_readValue hd (TypeDef.hasValue_of_accepts haccepts) u.value rest
    rw [read, List.append_assoc, List.append_assoc, List.cons_append,
      run_bind_of_ok (run_paramId_append _ _), run_bind_of_ok (TypeDef.run_datatype _ _),
      run_bind_of_ok (run_readElement hdefinition helement _), hreadDefinition,
      run_bind_of_ok (run_pure _ _), run_bind_of_ok hreadValue]
    rfl

/-- An update of which the datatypes tell how its value is read, and whose value fits. -/
structure Legible (u : ValueUpdate) (d : TypeDef) : Prop where
  definition : definition u.datatype u.element = .ok d
  element : ∀ rest, (readElement u.datatype).run ((u.element.map Datatype.code).toList ++ rest) =
    .ok (u.element, rest)
  wellFormed : d.WellFormed
  fits : d.Fits u.value

/-- The short form tells a definition of the same kind. -/
theorem legible_of_ofParameter? {p : Parameter} (hd : p.definition.WellFormed)
    (hvalue : p.value.Holds p.definition.Fits) {u : ValueUpdate} (hu : ofParameter? p = some u) :
    ∃ d, u.Legible d := by
  cases hv : p.value.value with
  | none => simp [ofParameter?, hv] at hu
  | some v =>
    have hfits := hvalue v hv
    have hcustom : p.datatype ≠ .custom := by
      rw [Parameter.datatype]
      cases hdef : p.definition with
      | custom d => simp [ofParameter?, hv, hdef] at hu
      | _ => rintro ⟨⟩
    rw [Parameter.ofParameter?_eq_short hcustom hv, Option.some.injEq] at hu
    subst hu
    have hnumbers := TypeDef.hasNumbers_of_wellFormed hd
    have hdefinition :=
      TypeDef.definition_eq_bare hcustom (TypeDef.hasValue_of_accepts hfits.1) hnumbers
    exact ⟨p.definition.bare, hdefinition,
      run_readElement hdefinition Parameter.datatype_short_of_element,
      TypeDef.wellFormed_bare hnumbers, TypeDef.fits_bare hfits⟩

/-- An update that is legible is written and read back. -/
theorem Legible.exists_encode {u : ValueUpdate} {d : TypeDef} (h : u.Legible d) :
    ∃ bs, u.encode = .ok bs ∧ ∀ rest, read.run (bs ++ rest) = .ok (u, rest) := by
  have helement := gives_readElement u.datatype (h.element [])
  obtain ⟨bs, hencode, hread⟩ := exists_encode_heard h.definition helement h.fits.1
  rw [TypeDef.heardValue_of_fits h.wellFormed h.fits] at hread
  exact ⟨bs, hencode, hread⟩

end ValueUpdate

/-! ## What packets have -/

theorem Reader.run_uint64_append (n : UInt64) (rest : Bytes) :
    uint64.run (uint64Bytes n ++ rest) = .ok (n, rest) := by
  have h := run_nat_append (n := 8) (v := n.toNat) n.toNat_lt rest
  rw [uint64Bytes, uint64, run_bind_of_ok h, UInt64.ofNat_toNat]
  rfl

/-- The texts of the record fit. -/
structure Info.Lossless (info : Info) : Prop where
  version : Width.tiny.Fits info.version
  applicationId : ∀ s, info.applicationId = some s → Width.tiny.Fits s

theorem Info.heard_eq {info : Info} (h : info.Lossless) : info.heard = info := by
  obtain ⟨version, applicationId⟩ := info
  have hversion : Width.tiny.cut version = version := h.version.cut_eq
  cases applicationId with
  | none => rw [heard, hversion, Option.map_none]
  | some s =>
    have hid : Width.tiny.cut s = s := (h.applicationId s rfl).cut_eq
    rw [heard, hversion, Option.map_some, hid]

/-- All that travels of the data is there, to the bit. -/
inductive Payload.Restores : Payload → Payload → Prop
  | info (info : Info) : Restores (.info info) (.info info)
  | id (id : ParamId) : Restores (.id id) (.id id)
  | parameter {q p : Parameter} (h : q.Restores p) : Restores (.parameter q) (.parameter p)
  | value (u : ValueUpdate) : Restores (.value u) (.value u)

/-- A command goes with these data, of which a full write keeps everything. -/
inductive Payload.Lossless : Command → Payload → Prop
  | info {command : Command} {info : Info} (hcommand : command = .info ∨ command = .version)
      (h : info.Lossless) : Lossless command (.info info)
  | id {command : Command} (id : ParamId)
      (hcommand : command = .dump ∨ command = .discover ∨ command = .remove) :
      Lossless command (.id id)
  | parameter {p : Parameter} (hd : p.definition.WellFormed) (h : p.Lossless) :
      Lossless .update (.parameter p)

theorem Payload.Lossless.ne_updateValue {command : Command} {d : Payload}
    (h : d.Lossless command) : command ≠ .updateValue := by
  cases h with
  | info hcommand => rcases hcommand with rfl | rfl <;> decide
  | id _ hcommand => rcases hcommand with rfl | rfl | rfl <;> decide
  | parameter => decide

/-- Data that go with the command are read back. -/
theorem Payload.Lossless.exists_run_readData {command : Command} {d : Payload}
    (h : d.Lossless command) : ∃ d' : Payload, d'.Restores d ∧
      ∀ rest, (Packet.readData command).run (Packet.encodeData true d ++ rest) =
        .ok (d', rest) := by
  cases h with
  | @info command info hcommand h =>
    refine ⟨.info info, .info info, fun rest => ?_⟩
    have hread := Info.run_read info rest
    rw [Info.heard_eq h] at hread
    rcases hcommand with rfl | rfl <;> exact run_bind_of_ok hread _
  | id id hcommand =>
    refine ⟨.id id, .id id, fun rest => ?_⟩
    have hread := run_paramId_append id rest
    rcases hcommand with rfl | rfl | rfl <;> exact run_bind_of_ok hread _
  | @parameter p hd h =>
    exact ⟨.parameter p.copy, .parameter p.restores_copy, fun rest =>
      run_bind_of_ok (Parameter.run_read_copy hd h rest) _⟩

/-! ## Packets -/

namespace Packet

/-- A packet whose data go with its command and are kept by a full write. The short form of a value
has no time. -/
inductive Lossless : Packet → Prop
  | bare {command : Command} (hcommand : command ≠ .updateValue) (timestamp : Option UInt64) :
      Lossless { command, timestamp }
  | framed {command : Command} {d : Payload} (h : d.Lossless command)
      (timestamp : Option UInt64) : Lossless { command, timestamp, data := some d }
  | value {p : Parameter} {u : ValueUpdate} (hd : p.definition.WellFormed) (hp : p.Lossless)
      (hu : ValueUpdate.ofParameter? p = some u) : Lossless (ofValue u)

/-- The command and the time are there, and all that travels of the data. -/
structure Restores (q p : Packet) : Prop where
  command : q.command = p.command
  timestamp : q.timestamp = p.timestamp
  data : ∀ d, p.data = some d → ∃ d', q.data = some d' ∧ d'.Restores d
  bare : p.data = none → q.data = none

/-- A value update is written as its command and the update. -/
theorem encode_ofValue (u : ValueUpdate) (all : Bool) :
    (ofValue u).encode all = u.encode >>= fun bs => pure (Command.updateValue.code :: bs) := rfl

/-- And so it is read. -/
theorem run_read_updateValue (bs : Bytes) :
    read.run (Command.updateValue.code :: bs) =
      (ValueUpdate.read >>= fun u => pure (some (ofValue u))).run bs := by
  rw [read, run_bind_of_ok (run_u8_cons _ _), Command.ofCode?_eq_some_iff.2 rfl]
  simp only [readBody, readData, if_true, run_bind]
  cases ValueUpdate.read.run bs with
  | error e => rfl
  | ok result => rfl

/-- The option that a time contributes. -/
theorem optionList_timestamp (command : Command) (timestamp : Option UInt64) :
    OptionList readOption { command }
      (match timestamp with
        | some t => PacketOption.timestamp.code :: uint64Bytes t
        | none => [])
      { command, timestamp } := by
  cases timestamp with
  | none => exact .nil _
  | some t =>
    refine .single (by decide) fun rest => ?_
    have hcode : PacketOption.ofCode? PacketOption.timestamp.code = some .timestamp :=
      PacketOption.ofCode?_eq_some_iff.2 rfl
    simp only [readOption, hcode]
    exact run_bind_of_ok (run_uint64_append t rest) _

/-- A packet that is lossless is written and read back. -/
theorem Lossless.exists_run_read {p : Packet} (h : p.Lossless) :
    ∃ bs q, p.encode true = .ok bs ∧ q.Restores p ∧
      ∀ rest, read.run (bs ++ rest) = .ok (some q, rest) := by
  cases h with
  | @bare command hcommand timestamp =>
    refine ⟨_, { command, timestamp }, rfl, ⟨rfl, rfl, by rintro _ ⟨⟩, fun _ => rfl⟩, ?_⟩
    rw [encodeFramed, List.append_nil]
    exact run_read_options hcommand (optionList_timestamp command timestamp)
  | @framed command d h timestamp =>
    obtain ⟨d', hrestores, hread⟩ := h.exists_run_readData
    have hencode : encode { command, timestamp, data := some d } true =
        .ok (encodeFramed { command, timestamp, data := some d } true) := by
      cases h <;> rfl
    refine ⟨_, { command, timestamp, data := some d' }, hencode,
      ⟨rfl, rfl, ?_, by rintro ⟨⟩⟩, ?_⟩
    · rintro _ ⟨⟩
      exact ⟨d', rfl, hrestores⟩
    · exact run_read_options h.ne_updateValue
        ((optionList_timestamp command timestamp).append (optionList_data hread))
  | @value p u hd hp hu =>
    obtain ⟨d, hlegible⟩ := ValueUpdate.legible_of_ofParameter? hd hp.value hu
    obtain ⟨bs, hencode, hread⟩ := hlegible.exists_encode
    refine ⟨Command.updateValue.code :: bs, ofValue u, ?_, ⟨rfl, rfl, ?_, fun h => h⟩,
      fun rest => ?_⟩
    · rw [encode_ofValue, hencode]
      rfl
    · rintro _ ⟨⟩
      exact ⟨_, rfl, .value u⟩
    · rw [List.cons_append, run_read_updateValue, run_bind_of_ok (hread rest)]
      rfl

/-- A packet that is lossless is written and read back, and what follows it is left unread. The
messages that are written without a packet are those of the packets. -/
theorem Lossless.reads_back {p : Packet} (h : p.Lossless) (q : Parameter) (id : ParamId)
    (all : Bool) :
    (∃ bs p', p.encode true = .ok bs ∧ p'.Restores p ∧
      ∀ rest, read.run (bs ++ rest) = .ok (some p', rest)) ∧
    (ofParameter q).encode all = .ok (encodeUpdate q all) ∧
    (ofRemoval id).encode all = .ok (encodeRemoval id) :=
  ⟨h.exists_run_read, encode_ofParameter q all, encode_ofRemoval id all⟩

/-- The frequency band in an update with a time. -/
def bandUpdate : Packet :=
  { command := .update, timestamp := some 1700000000, data := some (.parameter .band) }

theorem reads_back_bandUpdate :
    (∃ bs p', bandUpdate.encode true = .ok bs ∧ p'.Restores bandUpdate ∧
      ∀ rest, read.run (bs ++ rest) = .ok (some p', rest)) ∧
    (ofParameter .band).encode false = .ok (encodeUpdate .band false) ∧
    (ofRemoval ⟨5⟩).encode false = .ok (encodeRemoval ⟨5⟩) :=
  Lossless.reads_back (.framed (.parameter (by rfl) Parameter.lossless_band) _) .band ⟨5⟩ false

end Packet
end ParamSync
