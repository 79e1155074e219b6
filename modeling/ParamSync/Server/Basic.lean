import ParamSync.Network.Basic
import ParamSync.Registry.Remote
import ParamSync.Registry.Sync
import ParamSync.Server.Config
import ParamSync.Text.Quoted

/-!
# The server

A server owns the parameters and any number of server ends of the network. What it does with a
message is a step on its own state that says what is to be sent; the network delivers that. So
`receive` can be read without the network, and a poll is the two in turn.
-/

namespace ParamSync

/-- A server end that is attached to a server. -/
structure TransporterId where
  val : Nat
deriving DecidableEq

namespace TransporterId

instance : Ord TransporterId := ⟨fun a b => compare a.val b.val⟩

instance : Std.TransOrd TransporterId where
  eq_swap := compare_val_eq_swap TransporterId.val _ _
  isLE_trans := compare_val_isLE_trans TransporterId.val

instance : Std.LawfulEqOrd TransporterId where
  eq_of_compare {a b} h := by cases a; cases b; exact congrArg _ (Nat.compare_eq_eq.1 h)

def text (id : TransporterId) : String := "transporter-" ++ toString id.val

end TransporterId

/-- A refusal by a server or a client. -/
inductive PeerError
  | transport (e : TransportError)
  | protocol (e : ProtocolError)
  | registry (e : RegistryError)
  | unknownTransporter (id : TransporterId)
deriving DecidableEq

namespace PeerError

/-- The name of the cause. -/
def kind : PeerError → String
  | transport e => e.kind
  | protocol e => e.kind
  | registry e => e.kind
  | unknownTransporter _ => "UnknownTransporter"

/-- The sentence that reports the error. -/
def message : PeerError → String
  | transport e => e.message
  | protocol e => e.message
  | registry e => e.message
  | unknownTransporter id => "unknown transporter " ++ id.text

end PeerError

/-- What a server wants sent. -/
inductive Outgoing
  /-- Messages for one connection, up to the first that cannot be sent. -/
  | toOne (server : ServerKey) (connection : ConnectionId) (messages : List Bytes)
  /-- A message for every connection but one. -/
  | toAll (server : ServerKey) (message : Bytes) (exclude : Option ConnectionId)

namespace Network

/-- Sends messages over one connection, up to the first that cannot be sent. -/
def sendEach (n : Network) (s : ServerKey) (id : ConnectionId) : List Bytes → Network
  | [] => n
  | data :: rest =>
    match n.sendToOne s data id with
    | (n', .ok ()) => sendEach n' s id rest
    | (n', .error _) => n'

/-- Sends what a server wants sent. -/
def deliver (n : Network) : Outgoing → Network
  | .toOne s id messages => n.sendEach s id messages
  | .toAll s message exclude => n.sendToAll s message exclude

end Network

/-- The side that owns the parameters. -/
structure Server where
  config : Config := {}
  registry : Registry := .new
  /-- The attached server ends. -/
  transporters : Std.ExtTreeMap TransporterId ServerKey := ∅
  /-- How many server ends have been attached. -/
  attached : Nat := 0

namespace Server

/-- A server together with the network. -/
structure OnNetwork where
  server : Server
  network : Network

/-! ## Server ends -/

/-- Attaches a server end. -/
def attach (s : Server) (key : ServerKey) : TransporterId × Server :=
  let id := ⟨s.attached + 1⟩
  (id, { s with transporters := s.transporters.insert id key, attached := s.attached + 1 })

/-- Hands a server end back, as it is. -/
def detach (s : Server) (id : TransporterId) : Except PeerError (ServerKey × Server) :=
  match s.transporters[id]? with
  | none => .error (.unknownTransporter id)
  | some key => .ok (key, { s with transporters := s.transporters.erase id })

/-- A server with some server ends attached. -/
def build (config : Config) (keys : List ServerKey) : Server :=
  keys.foldl (fun s key => (s.attach key).2) { config }

/-- The connections of all attached server ends. -/
def connectionCount (s : Server) (n : Network) : Nat :=
  s.transporters.values.foldl (fun count key => count + n.connectionsOf key) 0

/-- What people see of a server. -/
def inspect (s : Server) : String :=
  let application := match s.config.applicationId with
    | some id => "Some(" ++ Text.quoted id ++ ")"
    | none => "None"
  "ParameterServer \x7b config: ServerConfig \x7b version: " ++ Text.quoted s.config.version
    ++ ", application_id: " ++ application ++ " \x7d, parameters: " ++ toString s.registry.size
    ++ ", transporters: " ++ toString s.transporters.size ++ " \x7d"

/-- The network once the server is gone, and has given back the endpoints of its ends. -/
def drop (w : OnNetwork) : Network :=
  w.server.transporters.values.foldl Network.dropServer w.network

/-! ## Inbound -/

/-- A message for everyone but its sender. -/
def relay (s : Server) (origin : TransporterId) (sender : ConnectionId) (data : Bytes) :
    List Outgoing :=
  s.transporters.toList.map fun (id, key) =>
    .toAll key data (if id = origin then some sender else none)

/-- Messages for the sender of a message, if the server end it came by is attached. -/
def reply (s : Server) (origin : TransporterId) (sender : ConnectionId) (messages : List Bytes) :
    List Outgoing :=
  match s.transporters[origin]? with
  | some key => [.toOne key sender messages]
  | none => []

/-- The record that answers a request for the version. -/
def infoMessages (s : Server) : List Bytes :=
  match (Packet.ofInfo s.config.info).encode true with
  | .ok bytes => [bytes]
  | .error _ => []

/-- What a server does with a message: an update that the registry accepts is passed on as it
came, a request for the parameters or for the version is answered, and all else is passed over. -/
def receive (s : Server) (origin : TransporterId) (sender : ConnectionId) (data : Bytes) :
    Server × List Outgoing × List Notice :=
  match Packet.ofBytes data with
  | .error _ | .ok none => (s, [], [])
  | .ok (some packet) =>
    match packet.command with
    | .dump =>
      let (packets, registry) := s.registry.dump
      ({ s with registry }, s.reply origin sender packets, [])
    | .update =>
      match packet.parameter? with
      | none => (s, [], [])
      | some p =>
        match s.registry.merge p with
        | .error _ => (s, [], [])
        | .ok (_, registry, notices) => ({ s with registry }, s.relay origin sender data, notices)
    | .info | .version => (s, s.reply origin sender s.infoMessages, [])
    | .remove | .discover | .updateValue => (s, [], [])

/-- Handles one message and sends what follows from it. -/
def handle (w : OnNetwork) (origin : TransporterId) (sender : ConnectionId) (data : Bytes) :
    OnNetwork × List Notice :=
  let (server, outgoing, notices) := w.server.receive origin sender data
  (⟨server, outgoing.foldl Network.deliver w.network⟩, notices)

/-- Takes up to `n` messages from a server end and handles each; counts them, and gives the
notices last first. -/
def drain (origin : TransporterId) (key : ServerKey) :
    Nat → OnNetwork × Nat × List Notice → OnNetwork × Nat × List Notice
  | 0, state => state
  | n + 1, (w, handled, notices) =>
    match w.network.takeMessage? key with
    | none => (w, handled, notices)
    | some ((sender, data), network) =>
      let (w', more) := handle { w with network } origin sender data
      drain origin key n (w', handled + 1, more.reverse ++ notices)

/-- Takes every message that waits at any attached server end and handles it. A server only sends
to clients, so no message arrives meanwhile. -/
def poll (w : OnNetwork) : OnNetwork × Nat × List Notice :=
  let (w', handled, notices) := w.server.transporters.toList.foldl
    (fun state (id, key) => drain id key (state.1.network.waitingMessages key) state) (w, 0, [])
  (w', handled, notices.reverse)

/-! ## Outbound -/

/-- A message for everyone. -/
def broadcast (s : Server) (message : Bytes) : List Outgoing :=
  s.transporters.values.map fun key => .toAll key message none

/-- Tells everyone of the removals and then of the changes there have been. Without a server end
there is nobody to tell, so nothing is drained. -/
def update (s : Server) : Server × List Bytes :=
  if s.transporters.isEmpty || !s.registry.hasPending then (s, [])
  else
    let (removals, registry) := s.registry.encodeRemoved
    let (updates, registry) := registry.encodeDirty
    ({ s with registry }, removals ++ updates)

/-- A tick: the packets of `update` go to everyone; counts them. -/
def tick (w : OnNetwork) : OnNetwork × Nat :=
  let (server, packets) := w.server.update
  (⟨server, (packets.flatMap server.broadcast).foldl Network.deliver w.network⟩, packets.length)

/-- The short form of a parameter's value, as a message. Its unsent changes stay unsent. -/
def valueMessage (s : Server) (id : ParamId) : Except PeerError Bytes :=
  match s.registry.get? id with
  | none => .error (.registry (.notFound id))
  | some p =>
    match ValueUpdate.ofParameter? p with
    | none => .error (.protocol (.unsupportedDatatype p.datatype))
    | some u =>
      match (Packet.ofValue u).encode true with
      | .ok bytes => .ok bytes
      | .error e => .error (.protocol e)

/-- Sends the short form of a parameter's value to everyone. -/
def sendValue (w : OnNetwork) (id : ParamId) : Except PeerError OnNetwork :=
  match w.server.valueMessage id with
  | .error e => .error e
  | .ok bytes =>
    .ok { w with network := (w.server.broadcast bytes).foldl Network.deliver w.network }

end Server
end ParamSync
