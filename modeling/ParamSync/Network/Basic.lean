import ParamSync.Bytes
import ParamSync.Ident
import ParamSync.Network.Queue

/-!
# A network in memory

Server ends bind endpoints, client ends connect to them, and messages wait in queues until they
are taken. What a server end binds an endpoint with is a listener, a new one each time: the table
of endpoints leads to it, and every link to the server end is a link to it. A connection lives in
the roster of its listener, under a number that is never used again; so a client end is connected
exactly as long as that roster has its number. The messages of the client ends wait at the
listener, for as long as the server end is there to take them.
-/

namespace ParamSync

/-- A connection, by a number that is never used again. -/
structure ConnectionId where
  val : Nat
deriving DecidableEq

/-- The end of the network that a server holds. -/
structure ServerKey where
  val : Nat
deriving DecidableEq

/-- The end of the network that a client holds. -/
structure ClientKey where
  val : Nat
deriving DecidableEq

/-- A listener, by the server end that it is of and its number among the listeners of that. -/
structure ListenerKey where
  server : ServerKey
  number : Nat
deriving DecidableEq

/-! These are ordered by their numbers. -/

section Order

theorem compare_val_eq_swap {α : Type} (f : α → Nat) (a b : α) :
    compare (f a) (f b) = (compare (f b) (f a)).swap :=
  Std.OrientedCmp.eq_swap

theorem compare_val_isLE_trans {α : Type} (f : α → Nat) {a b c : α}
    (hab : (compare (f a) (f b)).isLE) (hbc : (compare (f b) (f c)).isLE) :
    (compare (f a) (f c)).isLE :=
  Std.TransCmp.isLE_trans hab hbc

instance : Ord ConnectionId := ⟨fun a b => compare a.val b.val⟩

instance : Std.TransOrd ConnectionId where
  eq_swap := compare_val_eq_swap ConnectionId.val _ _
  isLE_trans := compare_val_isLE_trans ConnectionId.val

instance : Std.LawfulEqOrd ConnectionId where
  eq_of_compare {a b} h := by cases a; cases b; exact congrArg _ (Nat.compare_eq_eq.1 h)

instance : Ord ServerKey := ⟨fun a b => compare a.val b.val⟩

instance : Std.TransOrd ServerKey where
  eq_swap := compare_val_eq_swap ServerKey.val _ _
  isLE_trans := compare_val_isLE_trans ServerKey.val

instance : Std.LawfulEqOrd ServerKey where
  eq_of_compare {a b} h := by cases a; cases b; exact congrArg _ (Nat.compare_eq_eq.1 h)

instance : Ord ClientKey := ⟨fun a b => compare a.val b.val⟩

instance : Std.TransOrd ClientKey where
  eq_swap := compare_val_eq_swap ClientKey.val _ _
  isLE_trans := compare_val_isLE_trans ClientKey.val

instance : Std.LawfulEqOrd ClientKey where
  eq_of_compare {a b} h := by cases a; cases b; exact congrArg _ (Nat.compare_eq_eq.1 h)

instance : Ord ListenerKey :=
  ⟨compareLex (compareOn fun key => key.server.val) (compareOn ListenerKey.number)⟩

instance : Std.TransOrd ListenerKey :=
  inferInstanceAs (Std.TransCmp (compareLex (compareOn fun key : ListenerKey => key.server.val)
    (compareOn ListenerKey.number)))

instance : Std.LawfulEqOrd ListenerKey where
  eq_of_compare {a b} h := by
    obtain ⟨⟨s⟩, number⟩ := a
    obtain ⟨⟨s'⟩, number'⟩ := b
    obtain ⟨hserver, hnumber⟩ := Ordering.then_eq_eq.1 h
    cases Nat.compare_eq_eq.1 hserver
    cases Nat.compare_eq_eq.1 hnumber
    rfl

end Order

def ConnectionId.text (id : ConnectionId) : String := "conn-" ++ toString id.val

/-- Where a server end can be found, by its number. -/
abbrev Endpoint := UInt16

/-- A refusal by the network. -/
inductive TransportError
  /-- The endpoint is taken. -/
  | bindFailed (endpoint : Endpoint)
  /-- Nobody has bound the endpoint. -/
  | connectionRefused (endpoint : Endpoint)
  | notBound
  | notConnected
  | unknownConnection (id : ConnectionId)
  | connectionClosed (reason : String)
deriving DecidableEq

namespace TransportError

/-- The name of the cause. -/
def kind : TransportError → String
  | bindFailed _ => "BindFailed"
  | connectionRefused _ => "ConnectionRefused"
  | notBound => "NotBound"
  | notConnected => "NotConnected"
  | unknownConnection _ => "UnknownConnection"
  | connectionClosed _ => "ConnectionClosed"

/-- The sentence that reports the error. -/
def message : TransportError → String
  | bindFailed endpoint => "bind to port " ++ toString endpoint.toNat ++ " failed: address in use"
  | connectionRefused endpoint => "nothing listening on port " ++ toString endpoint.toNat
  | notBound => "transporter is not bound"
  | notConnected => "transporter is not connected"
  | unknownConnection id => "unknown connection " ++ id.text
  | connectionClosed reason => "connection closed: " ++ reason

end TransportError

/-- What a client end is told. -/
inductive LinkEvent
  | connected
  | disconnected
  | received (data : Bytes)
deriving DecidableEq

/-- What a server end shares with its client ends while it has an endpoint bound. -/
structure Listener where
  /-- The open connections and whom they lead to. -/
  connections : Std.ExtTreeMap ConnectionId ClientKey := ∅
  /-- Messages that wait to be taken, and where they came from; none once nobody takes them. -/
  inbound : Option (Queue (ConnectionId × Bytes)) := some {}

/-- A server's end of the network. -/
structure ServerEnd where
  /-- The endpoint it has bound, and the number of the listener it has bound it with. -/
  bound : Option (Endpoint × Nat) := none
  /-- The number of the listener whose messages it takes. -/
  inbound : Option Nat := none
  /-- How many listeners it has had. -/
  listenerCount : Nat := 0

/-- A connection as the client sees it. -/
structure Link where
  connection : ConnectionId
  listener : ListenerKey
deriving DecidableEq

/-- A client's end of the network. -/
structure ClientEnd where
  link : Option Link := none
  /-- What waits to be told. -/
  events : Queue LinkEvent := {}

/-- Everything that is bound, connected or under way. -/
structure Network where
  endpoints : Std.ExtTreeMap Endpoint ListenerKey := ∅
  listening : Std.ExtTreeMap ListenerKey Listener := ∅
  servers : Std.ExtTreeMap ServerKey ServerEnd := ∅
  clients : Std.ExtTreeMap ClientKey ClientEnd := ∅
  /-- How many server ends, client ends and connections there have been. -/
  serverCount : Nat := 0
  clientCount : Nat := 0
  connectionCount : Nat := 0

namespace Network

/-! ## Ends -/

/-- A new server end, not bound. -/
def addServer (n : Network) : ServerKey × Network :=
  let key := ⟨n.serverCount⟩
  (key, { n with servers := n.servers.insert key {}, serverCount := n.serverCount + 1 })

/-- A new client end, not connected. -/
def addClient (n : Network) : ClientKey × Network :=
  let key := ⟨n.clientCount⟩
  (key, { n with clients := n.clients.insert key {}, clientCount := n.clientCount + 1 })

def server? (n : Network) (s : ServerKey) : Option ServerEnd := n.servers[s]?

def client? (n : Network) (c : ClientKey) : Option ClientEnd := n.clients[c]?

def listener? (n : Network) (l : ListenerKey) : Option Listener := n.listening[l]?

def onServer (n : Network) (s : ServerKey) (f : ServerEnd → ServerEnd) : Network :=
  { n with servers := n.servers.modify s f }

def onClient (n : Network) (c : ClientKey) (f : ClientEnd → ClientEnd) : Network :=
  { n with clients := n.clients.modify c f }

def onListener (n : Network) (l : ListenerKey) (f : Listener → Listener) : Network :=
  { n with listening := n.listening.modify l f }

/-- Tells a client end something, if it is still there. -/
def tell (n : Network) (c : ClientKey) (e : LinkEvent) : Network :=
  n.onClient c fun d => { d with events := d.events.push e }

/-! ## Listeners -/

/-- The open connections of a listener and whom they lead to. -/
def roster (n : Network) (l : ListenerKey) : Std.ExtTreeMap ConnectionId ClientKey :=
  ((n.listener? l).map (·.connections)).getD ∅

/-- The messages that wait at a listener, as long as somebody is there to take them. -/
def mailbox? (n : Network) (l : ListenerKey) : Option (Queue (ConnectionId × Bytes)) :=
  (n.listener? l).bind (·.inbound)

/-- The open connections of a listener become others. -/
def onRoster (n : Network) (l : ListenerKey)
    (f : Std.ExtTreeMap ConnectionId ClientKey → Std.ExtTreeMap ConnectionId ClientKey) : Network :=
  n.onListener l fun v => { v with connections := f v.connections }

/-- What waits at a listener becomes something else. -/
def setMailbox (n : Network) (l : ListenerKey)
    (waiting : Option (Queue (ConnectionId × Bytes))) : Network :=
  n.onListener l fun v => { v with inbound := waiting }

/-- What a server end has bound, and with which listener. -/
def bound? (n : Network) (s : ServerKey) : Option (Endpoint × ListenerKey) :=
  ((n.server? s).bind (·.bound)).map fun (endpoint, number) => (endpoint, ⟨s, number⟩)

/-- The listener whose messages a server end takes. -/
def receiver? (n : Network) (s : ServerKey) : Option ListenerKey :=
  ((n.server? s).bind (·.inbound)).map fun number => ⟨s, number⟩

/-- The endpoint that a server end has bound. -/
def endpoint? (n : Network) (s : ServerKey) : Option Endpoint := (n.bound? s).map (·.1)

/-- The connections of a server end. -/
def connections (n : Network) (s : ServerKey) : Std.ExtTreeMap ConnectionId ClientKey :=
  ((n.bound? s).map fun bound => n.roster bound.2).getD ∅

/-! ## Servers -/

/-- Takes no more messages; those that wait are lost. -/
def hangUp (n : Network) (s : ServerKey) : Network :=
  match n.receiver? s with
  | none => n
  | some l => (n.onServer s fun e => { e with inbound := none }).setMailbox l none

/-- Gives the endpoint back and closes every connection; messages that were not taken are lost. -/
def unbind (n : Network) (s : ServerKey) : Network :=
  match n.bound? s with
  | none => n
  | some (endpoint, l) =>
    let released := { n with endpoints := n.endpoints.erase endpoint }
    let closed := (released.onServer s fun e => { e with bound := none }).onRoster l fun _ => ∅
    ((n.roster l).foldl (fun m _ c => m.tell c .disconnected) closed).hangUp s

/-- The number of the next listener of a server end. -/
def nextListener (n : Network) (s : ServerKey) : Nat :=
  ((n.server? s).map (·.listenerCount)).getD 0

/-- Binds a free endpoint with a new listener. -/
def listen (n : Network) (s : ServerKey) (endpoint : Endpoint) : Network :=
  let number := n.nextListener s
  { n with
    endpoints := n.endpoints.insert endpoint ⟨s, number⟩
    listening := n.listening.insert ⟨s, number⟩ {}
    servers := n.servers.insert s
      { bound := some (endpoint, number), inbound := some number, listenerCount := number + 1 } }

/-- Binds an endpoint, after giving back the one that was bound. -/
def bind (n : Network) (s : ServerKey) (endpoint : Endpoint) :
    Network × Except TransportError Unit :=
  let n := n.unbind s
  if n.endpoints.contains endpoint then (n, .error (.bindFailed endpoint))
  else ((n.hangUp s).listen s endpoint, .ok ())

/-- A server end that is gone has given its endpoint back, and takes no more messages. -/
def dropServer (n : Network) (s : ServerKey) : Network :=
  let n := (n.unbind s).hangUp s
  { n with servers := n.servers.erase s }

/-- Sends a message over one connection. -/
def sendToOne (n : Network) (s : ServerKey) (data : Bytes) (id : ConnectionId) :
    Network × Except TransportError Unit :=
  match n.bound? s with
  | none => (n, .error .notBound)
  | some (_, l) =>
    match (n.roster l)[id]? with
    | none => (n, .error (.unknownConnection id))
    | some c =>
      if n.clients.contains c then (n.tell c (.received data), .ok ())
      else (n, .error (.connectionClosed id.text))

/-- Sends a message over every connection but one. -/
def sendToAll (n : Network) (s : ServerKey) (data : Bytes) (exclude : Option ConnectionId) :
    Network :=
  (n.connections s).foldl
    (fun m id c => if some id = exclude then m else m.tell c (.received data)) n

/-- How many connections a server end has. -/
def connectionsOf (n : Network) (s : ServerKey) : Nat := (n.connections s).size

/-- How many messages wait to be taken. -/
def waitingMessages (n : Network) (s : ServerKey) : Nat :=
  (((n.receiver? s).bind n.mailbox?).map (·.size)).getD 0

/-- Takes the oldest message that has arrived. -/
def takeMessage? (n : Network) (s : ServerKey) : Option ((ConnectionId × Bytes) × Network) :=
  (n.receiver? s).bind fun l =>
    ((n.mailbox? l).bind Queue.pop?).map fun (message, waiting) =>
      (message, n.setMailbox l (some waiting))

/-! ## Clients -/

/-- The connection as a client end sees it. -/
def link? (n : Network) (c : ClientKey) : Option Link := (n.client? c).bind (·.link)

/-- Whether the connection that a client end has made is still open. -/
def isConnected (n : Network) (c : ClientKey) : Bool :=
  (n.link? c).any fun link => (n.roster link.listener).contains link.connection

/-- Closes the connection that a client end has made. -/
def disconnect (n : Network) (c : ClientKey) : Network :=
  match n.link? c with
  | none => n
  | some link =>
    let closed := n.onRoster link.listener (·.erase link.connection)
    (closed.onClient c fun d => { d with link := none }).tell c .disconnected

/-- Opens a connection to a listener. -/
def opened (n : Network) (c : ClientKey) (l : ListenerKey) : Network :=
  let id : ConnectionId := ⟨n.connectionCount + 1⟩
  let listed := { n with connectionCount := n.connectionCount + 1 }.onRoster l (·.insert id c)
  (listed.onClient c fun d => { d with link := some ⟨id, l⟩ }).tell c .connected

/-- Connects to an endpoint, after closing the connection there was. -/
def connect (n : Network) (c : ClientKey) (endpoint : Endpoint) :
    Network × Except TransportError Unit :=
  let n := n.disconnect c
  match n.endpoints[endpoint]? with
  | none => (n, .error (.connectionRefused endpoint))
  | some l => (n.opened c l, .ok ())

/-- Sends a message to the server. -/
def send (n : Network) (c : ClientKey) (data : Bytes) : Network × Except TransportError Unit :=
  match (n.link? c).filter fun _ => n.isConnected c with
  | none => (n, .error .notConnected)
  | some link =>
    match n.mailbox? link.listener with
    | none => (n, .error (.connectionClosed link.connection.text))
    | some waiting =>
      (n.setMailbox link.listener (some (waiting.push (link.connection, data))), .ok ())

/-- How many events wait to be told. -/
def waitingEvents (n : Network) (c : ClientKey) : Nat :=
  ((n.client? c).map (·.events.size)).getD 0

/-- Takes the oldest event. A client end that is told of the end of its connection forgets it. -/
def takeEvent? (n : Network) (c : ClientKey) : Option (LinkEvent × Network) :=
  match n.client? c with
  | none => none
  | some d =>
    match d.events.pop? with
    | none => none
    | some (e, events) =>
      let link := if e = .disconnected && !n.isConnected c then none else d.link
      some (e, { n with clients := n.clients.insert c { link, events } })

/-- A client end that is gone does not close its connection; the server finds out when it
sends. -/
def dropClient (n : Network) (c : ClientKey) : Network :=
  { n with clients := n.clients.erase c }

end Network
end ParamSync
