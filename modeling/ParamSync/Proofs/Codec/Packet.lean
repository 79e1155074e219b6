import ParamSync.Packet.Basic
import ParamSync.Proofs.Codec.Parameter

/-!
# What a peer reads of a message

Between a command and the terminator stand options, so a packet is read by the loop that reads a
parameter. What the data are hangs on the command, and each kind of data ends itself.

Results:
* `Packet.run_read_options`, `Packet.ofBytes_options`: a packet is read as its options say.
* `Packet.ofBytes_request`: a command alone is read as such.
* `Packet.ofBytes_encodeUpdate`, `Packet.ofBytes_encodeRemoval`, `Packet.ofBytes_encodeInfo`: so
  are the messages of a server.
-/

namespace ParamSync

open Reader

/-! ## Info records -/

namespace Info

/-- What a peer hears of a record: texts that are too long are cut. -/
def heard (info : Info) : Info where
  version := Width.tiny.cut info.version
  applicationId := info.applicationId.map Width.tiny.cut

theorem run_read (info : Info) (rest : Bytes) :
    read.run (info.encode ++ rest) = .ok (info.heard, rest) := by
  rw [read, encode, List.append_assoc, List.append_assoc, run_bind_of_ok (run_text_append _ _ _),
    ← List.append_assoc]
  refine (?_ : OptionList readOption _ _ info.heard).run rest
  unfold heard
  cases info.applicationId with
  | none => exact .nil _
  | some id =>
    have hcode : applicationIdCode ≠ terminator := by decide
    exact .single hcode fun rest => run_bind_of_ok (run_text_append .tiny id rest) _

end Info

/-! ## Packets -/

namespace Packet

/-- A packet is read as its options say, and what follows it is left. -/
theorem run_read_options {command : Command} {bs : Bytes} {p : Packet}
    (hcommand : command ≠ .updateValue) (h : OptionList readOption { command } bs p)
    (rest : Bytes) :
    read.run (command.code :: (bs ++ [terminator]) ++ rest) = .ok (some p, rest) := by
  rw [List.cons_append, read, run_bind_of_ok (run_u8_cons _ _), Command.ofCode?_eq_some_iff.2 rfl]
  simp only [readBody, if_neg hcommand]
  rw [run_bind_of_ok (h.run rest)]
  rfl

theorem ofBytes_options {command : Command} {bs : Bytes} {p : Packet}
    (hcommand : command ≠ .updateValue) (h : OptionList readOption { command } bs p) :
    ofBytes (command.code :: (bs ++ [terminator])) = .ok (some p) := by
  have hread := run_read_options hcommand h []
  rw [List.append_nil] at hread
  rw [ofBytes, hread]

/-- A command alone. -/
theorem ofBytes_request {command : Command} (hcommand : command ≠ .updateValue) :
    ofBytes (encodeFramed { command } true) = .ok (some { command }) :=
  ofBytes_options hcommand (.nil _)

/-- The option that data contribute which end themselves. -/
theorem optionList_data {command : Command} {timestamp : Option UInt64} {payload : Payload}
    {bs : Bytes} (h : ∀ rest, (readData command).run (bs ++ rest) = .ok (payload, rest)) :
    OptionList readOption { command, timestamp } (PacketOption.data.code :: bs)
      { command, timestamp, data := some payload } := by
  refine .single (by decide) fun rest => ?_
  have hcode : PacketOption.ofCode? PacketOption.data.code = some .data :=
    PacketOption.ofCode?_eq_some_iff.2 rfl
  simp only [readOption, hcode]
  exact run_bind_of_ok (h rest) _

/-- A packet with data that end themselves. -/
theorem ofBytes_framed {command : Command} {payload : Payload} {bs : Bytes}
    (hcommand : command ≠ .updateValue)
    (h : ∀ rest, (readData command).run (bs ++ rest) = .ok (payload, rest)) :
    ofBytes ([command.code, PacketOption.data.code] ++ bs ++ [terminator]) =
      .ok (some { command, data := some payload }) :=
  ofBytes_options hcommand (optionList_data h)

/-- The packet of a legible parameter carries what is heard of it. -/
theorem ofBytes_encodeUpdate {p : Parameter} {all : Bool} (h : p.Legible all) :
    ofBytes (encodeUpdate p all) = .ok (some (ofParameter (p.heard all))) :=
  ofBytes_framed (by decide) fun rest => run_bind_of_ok (Parameter.run_read h rest) _

/-- The packet of a removal carries the identifier. -/
theorem ofBytes_encodeRemoval (id : ParamId) :
    ofBytes (encodeRemoval id) = .ok (some (ofRemoval id)) :=
  ofBytes_framed (by decide) fun rest => run_bind_of_ok (run_paramId_append id rest) _

/-- The packet of an info record carries what is heard of it. -/
theorem ofBytes_encodeInfo (info : Info) :
    ofBytes ((ofInfo info).encodeFramed true) = .ok (some (ofInfo info.heard)) :=
  ofBytes_framed (show Command.info ≠ .updateValue by decide) fun rest =>
    run_bind_of_ok (Info.run_read info rest) _

end Packet
end ParamSync
