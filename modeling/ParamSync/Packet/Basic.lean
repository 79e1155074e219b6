import ParamSync.Packet.Info
import ParamSync.Packet.ValueUpdate
import ParamSync.Parameter.Codec

/-!
# Packets

The envelope of every message: a command, an optional time, optional data whose shape hangs on
the command, and the terminator. A value update has neither time nor terminator; its data follow
the command at once. A byte that is no command makes no packet, which is not an error. A reader
that meets an option it does not know keeps what it has read and stops.
-/

namespace ParamSync

/-- The data of a packet. -/
inductive Payload
  | info (info : Info)
  | id (id : ParamId)
  | parameter (p : Parameter)
  | value (u : ValueUpdate)

/-- A message. -/
structure Packet where
  command : Command
  timestamp : Option UInt64 := none
  data : Option Payload := none

instance : Alike Payload where
  alike
    | .info a, .info b => a == b
    | .id a, .id b => a == b
    | .parameter a, .parameter b => alike a b
    | .value a, .value b => alike a b
    | _, _ => false

namespace Packet

instance : Alike Packet where
  alike a b := a.command == b.command && a.timestamp == b.timestamp && alike a.data b.data

/-! ## The messages that are sent -/

/-- Asks for the version. -/
def infoRequest : Packet := { command := .info }

/-- Asks for every parameter. -/
def dumpRequest : Packet := { command := .dump }

def ofInfo (info : Info) : Packet := { command := .info, data := some (.info info) }

/-- Tells that a parameter is gone. -/
def ofRemoval (id : ParamId) : Packet := { command := .remove, data := some (.id id) }

def ofParameter (p : Parameter) : Packet := { command := .update, data := some (.parameter p) }

def ofValue (u : ValueUpdate) : Packet := { command := .updateValue, data := some (.value u) }

/-! ## Parts -/

def parameter? (p : Packet) : Option Parameter :=
  match p.data with
  | some (.parameter q) => some q
  | _ => none

def info? (p : Packet) : Option Info :=
  match p.data with
  | some (.info info) => some info
  | _ => none

def value? (p : Packet) : Option ValueUpdate :=
  match p.data with
  | some (.value u) => some u
  | _ => none

/-- The parameter that the packet is about. -/
def id? (p : Packet) : Option ParamId :=
  match p.data with
  | some (.id id) => some id
  | some (.parameter q) => some q.id
  | some (.value u) => some u.id
  | _ => none

/-! ## Writing -/

/-- Data that stand between their option code and the terminator. -/
def encodeData (all : Bool) : Payload → Bytes
  | .info info => info.encode
  | .id id => id.toBytes
  | .parameter p => p.encode all
  | .value _ => []

/-- A packet whose data are no value update. -/
def encodeFramed (p : Packet) (all : Bool) : Bytes :=
  p.command.code ::
    ((match p.timestamp with
      | some t => PacketOption.timestamp.code :: uint64Bytes t
      | none => [])
    ++ (match p.data with
      | some d => PacketOption.data.code :: encodeData all d
      | none => [])
    ++ [terminator])

/-- The packet on the wire; a parameter in it is written in full (`all`) or as a delta. -/
def encode (p : Packet) (all : Bool) : Except ProtocolError Bytes :=
  match p.data with
  | some (.value u) => return p.command.code :: (← u.encode)
  | _ => return p.encodeFramed all

/-- The packet after a write; a delta write resets the flags of a parameter in it. -/
def written (p : Packet) (all : Bool) : Packet :=
  match p.data with
  | some (.parameter q) => { p with data := some (.parameter (q.written all)) }
  | _ => p

/-- The packet that carries a parameter. -/
def encodeUpdate (p : Parameter) (all : Bool) : Bytes :=
  [Command.update.code, PacketOption.data.code] ++ p.encode all ++ [terminator]

/-- The packet that tells that a parameter is gone. -/
def encodeRemoval (id : ParamId) : Bytes :=
  [Command.remove.code, PacketOption.data.code] ++ id.toBytes ++ [terminator]

theorem encode_ofParameter (p : Parameter) (all : Bool) :
    (ofParameter p).encode all = .ok (encodeUpdate p all) := by
  simp [encode, ofParameter, encodeFramed, encodeData, encodeUpdate, pure, Except.pure]

theorem encode_ofRemoval (id : ParamId) (all : Bool) :
    (ofRemoval id).encode all = .ok (encodeRemoval id) := by
  simp [encode, ofRemoval, encodeFramed, encodeData, encodeRemoval, pure, Except.pure]

/-! ## Reading -/

/-- Reads the data that go with a command. -/
def readData : Command → Reader Payload
  | .info | .version => do return .info (← Info.read)
  | .dump | .discover | .remove => do return .id (← Reader.paramId)
  | .update => do return .parameter (← Parameter.read)
  | .updateValue => do return .value (← ValueUpdate.read)

/-- Reads the option with the given code, if there is one. -/
def readOption (p : Packet) (code : UInt8) : Reader (Option Packet) :=
  match PacketOption.ofCode? code with
  | some .timestamp => do return some { p with timestamp := some (← Reader.uint64) }
  | some .data => do return some { p with data := some (← readData p.command) }
  | none => return none

/-- Reads what follows a command. -/
def readBody (command : Command) : Reader Packet :=
  if command = .updateValue then do return { command, data := some (← readData command) }
  else Reader.options readOption { command }

/-- Reads a packet; none if the first byte is no command. -/
def read : Reader (Option Packet) := do
  match Command.ofCode? (← Reader.u8) with
  | some command => return some (← readBody command)
  | none => return none

/-- Reads a message; bytes after the packet are passed over. -/
def ofBytes (bs : Bytes) : Except ProtocolError (Option Packet) :=
  match read.run bs with
  | .ok (packet, _) => .ok packet
  | .error e => .error e

end Packet
end ParamSync
