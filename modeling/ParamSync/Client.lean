import ParamSync.Network.Transport
import ParamSync.Registry.Remote
import ParamSync.Registry.Sync
import ParamSync.Server.Basic

/-!
# The client

A client keeps a copy of a server's parameters. Messages of the server change the copy and
are reported to listeners; changes of our own go to the server, and those that cannot be sent
wait in order until they can.
-/

namespace ParamSync

/-- What a listener of a client is told, and what a watcher of a parameter is, in one order. -/
inductive ClientNotice
  | connected
  | disconnected
  | info (info : Info)
  /-- A parameter that the client did not know. -/
  | added (p : Parameter)
  | updated (p : Parameter)
  /-- A parameter that left the copy, also with the group it was in. -/
  | removed (p : Parameter)
  | watched (notice : Notice)

/-- The side that keeps a copy of the parameters. -/
structure Client where
  registry : Registry := .new
  /-- What the server has reported about itself. -/
  info : Option Info := none
  /-- Updates that have not been sent yet, the oldest first. -/
  outbox : List Bytes := []

namespace Client

/-- Whether changes of our own wait to be sent. -/
def hasPending (c : Client) : Bool := !c.outbox.isEmpty || c.registry.hasPending

/-- Forgets the copy, and what was to be sent with it. -/
def reset (c : Client) : Client where
  registry := c.registry.clear
  info := none
  outbox := []

/-! ## Inbound -/

/-- The notice that a parameter of the copy has changed. -/
def updatedNotice (c : Client) (id : ParamId) : List ClientNotice :=
  (c.registry.get? id).toList.map .updated

/-- Merges a parameter into the copy. -/
def receiveParameter (c : Client) (p : Parameter) : Client × List ClientNotice :=
  match c.registry.merge p with
  | .error _ => (c, [])
  | .ok (merge, registry, notices) =>
    let c' := { c with registry }
    let reported := match merge with
      | .added => (registry.get? p.id).toList.map .added
      | .updated => c'.updatedNotice p.id
      | .unchanged => []
    (c', notices.map .watched ++ reported)

/-- Takes a parameter, and what is below it, out of the copy. -/
def receiveRemoval (c : Client) (id : ParamId) : Client × List ClientNotice :=
  if c.registry.contains id then
    let (registry, evicted) := c.registry.removeDirect id
    ({ c with registry }, evicted.map .removed)
  else (c, [])

/-- Applies a bare value to a parameter of the copy. -/
def receiveValue (c : Client) (u : ValueUpdate) : Client × List ClientNotice :=
  match c.registry.applyValue u with
  | .error _ => (c, [])
  | .ok (applied, registry, notices) =>
    let c' := { c with registry }
    (c', notices.map .watched ++ (if applied then c'.updatedNotice u.id else []))

/-- What a client does with a message. What cannot be read, and requests, are passed over. -/
def receive (c : Client) (data : Bytes) : Client × List ClientNotice :=
  match Packet.ofBytes data with
  | .error _ | .ok none => (c, [])
  | .ok (some packet) =>
    match packet.command with
    | .update =>
      match packet.parameter? with
      | some p => c.receiveParameter p
      | none => (c, [])
    | .remove =>
      match packet.id? with
      | some id => c.receiveRemoval id
      | none => (c, [])
    | .info | .version =>
      match packet.info? with
      | some info => ({ c with info := some info }, [.info info])
      | none => (c, [])
    | .updateValue =>
      match packet.value? with
      | some u => c.receiveValue u
      | none => (c, [])
    | .dump | .discover => (c, [])

/-- What a client asks for when its connection opens. -/
def requests : List Bytes :=
  [Packet.infoRequest, Packet.dumpRequest].map (Packet.encodeFramed · true)

section Connection

variable {σ : Type} (t : ClientTransport σ)

/-- Handles one event of the connection. -/
def handle (c : Client) (s : σ) : LinkEvent → Client × σ × List ClientNotice
  | .connected => (c, requests.foldl (fun s data => (t.send data s).1) s, [.connected])
  | .disconnected => (c.reset, s, [.disconnected])
  | .received data =>
    let (c', notices) := c.receive data
    (c', s, notices)

/-- Takes up to `n` events and handles each; counts them, and gives the notices last first. -/
def drain : Nat → Client × σ × Nat × List ClientNotice → Client × σ × Nat × List ClientNotice
  | 0, state => state
  | n + 1, (c, s, handled, notices) =>
    match t.takeEvent? s with
    | none => (c, s, handled, notices)
    | some (e, s') =>
      let (c', s'', more) := handle t c s' e
      drain n (c', s'', handled + 1, more.reverse ++ notices)

/-- Takes every event that waits and handles it. -/
def poll (c : Client) (s : σ) : Client × σ × Nat × List ClientNotice :=
  let (c', s', handled, notices) := drain t (t.waiting s) (c, s, 0, [])
  (c', s', handled, notices.reverse)

/-- Closes the connection and forgets the copy. -/
def disconnect (c : Client) (s : σ) : Client × σ := (c.reset, t.disconnect s)

/-! ## Outbound -/

/-- Sends what is in the outbox, up to the first message that cannot be sent, which stays in it;
counts what was sent before. -/
def flush (sent : Nat) : List Bytes → σ → List Bytes × σ × Except TransportError Nat
  | [], s => ([], s, .ok sent)
  | data :: rest, s =>
    match t.send data s with
    | (s', .ok ()) => flush (sent + 1) rest s'
    | (s', .error e) => (data :: rest, s', .error e)

/-- Sends the changes there have been to the server, after those that could not be sent before.
A client cannot remove parameters of the server, so removals are dropped. While there is no
connection nothing is drained. -/
def update (c : Client) (s : σ) : Client × σ × Except TransportError Nat :=
  if !t.isConnected s || !c.hasPending then (c, s, .ok 0)
  else
    let (updates, registry) := c.registry.encodeRemoved.2.encodeDirty
    let (outbox, s', result) := flush t 0 (c.outbox ++ updates) s
    ({ c with registry, outbox }, s', result)

end Connection
end Client
end ParamSync
