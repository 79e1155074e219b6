import Mathlib.Logic.Function.Basic
import ParamSync.Proofs.Peers.Wires

/-!
# Sessions

A server and any number of clients on one network, each of which acts when it likes. Every turn of
a session is one call: a client changes its copy, tells of its changes or handles what it was told,
and so does the server. What a turn keeps is shown for one event or one message and then holds of
the turn, however many of them wait.

Results:
* `Session.update_quiet`, `Session.exists_update`: what a client that tells of its changes does.
* `Session.poll_induction`, `Session.serve_induction`: what a client and a server that poll keep.
* `Session.news_poll`, `Session.inbox_serve`: they leave nothing to handle.
* `Seat.Taken.count_others_self`, `Seat.Taken.count_others`: whom a message that is passed on
  reaches.
-/

namespace ParamSync

open Network (Wired SameWires Moved)

/-- A client has nothing to tell if it has sent everything and nothing has changed since. -/
theorem Client.hasPending_eq_false_iff {c : Client} : c.hasPending = false ↔
    c.outbox = [] ∧ c.registry.dirty = ∅ ∧ c.registry.removed = ∅ := by
  rw [hasPending, Bool.or_eq_false_iff, Bool.not_eq_false', List.isEmpty_iff,
    Registry.hasPending_eq_false_iff]

/-! ## Seats -/

/-- Where a client is on the network: its end, and the server end and connection it talks over. -/
structure Seat where
  client : ClientKey
  server : ServerKey
  connection : ConnectionId

/-- The client of the seat is connected to an end of the server, and is reached over no other
connection. -/
structure Seat.Taken (seat : Seat) (w : Server.OnNetwork) : Prop where
  wired : Wired w.network seat.client seat.server seat.connection
  attached : ∃ origin : TransporterId, w.server.transporters[origin]? = some seat.server
  once : (w.server.audience w.network).count seat.client = 1

namespace Seat.Taken

variable {seat seat' : Seat} {w w' : Server.OnNetwork} {origin : TransporterId}

theorem of_same (h : seat.Taken w) (ht : w'.server.transporters = w.server.transporters)
    (hs : SameWires w.network w'.network) : seat.Taken w' where
  wired := h.wired.of_same hs
  attached := by rw [ht]; exact h.attached
  once := by
    rw [Server.audience, ht, ← Server.audience, Server.audience_congr _ hs.connections]
    exact h.once

/-- A message that is passed on does not reach its sender. -/
theorem count_others_self (h : seat.Taken w)
    (horigin : w.server.transporters[origin]? = some seat.server) :
    (w.server.others w.network origin seat.connection).count seat.client = 0 := by
  have hcount := Server.count_others horigin h.wired.connection seat.client
  rw [h.once, if_pos rfl] at hcount
  omega

/-- A message that is passed on reaches every other client once. -/
theorem count_others (h : seat.Taken w) (h' : seat'.Taken w)
    (horigin : w.server.transporters[origin]? = some seat.server)
    (hne : seat.client ≠ seat'.client) :
    (w.server.others w.network origin seat.connection).count seat'.client = 1 := by
  have hcount := Server.count_others horigin h.wired.connection seat'.client
  rw [h'.once, if_neg hne] at hcount
  omega

/-- Whoever sends an update is told nothing of it. -/
theorem news_handle_self {data : Bytes} {p : Parameter} (h : seat.Taken w)
    (horigin : w.server.transporters[origin]? = some seat.server)
    (hp : Packet.update? data = some p) :
    (Server.handle w origin seat.connection data).1.network.news seat.client =
      w.network.news seat.client := by
  rw [Server.handle_update w origin seat.connection hp]
  split
  · rfl
  · refine (h.wired.news_tellAll _ _).trans ?_
    rw [h.count_others_self horigin, List.replicate_zero, List.append_nil]

/-- Every other client is told of an update that is merged. -/
theorem news_handle_other {data : Bytes} {p : Parameter} (h : seat.Taken w) (h' : seat'.Taken w)
    (horigin : w.server.transporters[origin]? = some seat.server)
    (hne : seat.client ≠ seat'.client) (hp : Packet.update? data = some p)
    {result : Registry.Merge × Registry × List Notice}
    (hmerge : w.server.registry.merge p = .ok result) :
    (Server.handle w origin seat.connection data).1.network.news seat'.client =
      w.network.news seat'.client ++ [.received data] := by
  obtain ⟨outcome, registry, notices⟩ := result
  rw [Server.handle_update w origin seat.connection hp, hmerge]
  refine (h'.wired.news_tellAll _ _).trans ?_
  rw [h.count_others h' horigin hne]
  rfl

end Seat.Taken

/-! ## Turns -/

/-- What comes at some point of a run comes at its first turn or later. -/
theorem exists_eq_append_cons {α : Type} {u t : α} {rest : List α} {P : List α → List α → Prop} :
    (∃ pre post, u :: rest = pre ++ t :: post ∧ P pre post) ↔
      (u = t ∧ P [] rest) ∨ ∃ pre post, rest = pre ++ t :: post ∧ P (u :: pre) post := by
  constructor
  · rintro ⟨pre, post, hturns, hP⟩
    cases pre with
    | nil =>
      obtain ⟨rfl, rfl⟩ := List.cons.inj hturns
      exact .inl ⟨rfl, hP⟩
    | cons u' pre =>
      obtain ⟨rfl, rfl⟩ := List.cons.inj hturns
      exact .inr ⟨pre, post, rfl, hP⟩
  · rintro (⟨rfl, hP⟩ | ⟨pre, post, rfl, hP⟩)
    · exact ⟨[], rest, rfl, hP⟩
    · exact ⟨u :: pre, post, rfl, hP⟩

/-- A server and some clients on a network. -/
structure Session (ι : Type) where
  world : Server.OnNetwork
  clients : ι → Client

namespace Session

variable {ι : Type} [DecidableEq ι] {seats : ι → Seat} {s : Session ι} {i : ι}

/-- What waits to be handled, at the server ends and at the ends of the clients. -/
def inbox (s : Session ι) (seat : Seat) : List (ConnectionId × Bytes) :=
  s.world.network.inbox seat.server

def news (s : Session ι) (seat : Seat) : List LinkEvent := s.world.network.news seat.client

/-- A client changes a parameter of its copy. -/
def edit (s : Session ι) (i : ι) (x : ParamId) (accesses : List Parameter.Access) : Session ι :=
  { s with clients := Function.update s.clients i ((s.clients i).perform (.edit x accesses)) }

/-- A client tells of its changes. -/
def update (seats : ι → Seat) (s : Session ι) (i : ι) : Session ι :=
  let (client, n, _) := (s.clients i).update (.ofNetwork (seats i).client) s.world.network
  ⟨⟨s.world.server, n⟩, Function.update s.clients i client⟩

/-- A client handles what it was told. -/
def poll (seats : ι → Seat) (s : Session ι) (i : ι) : Session ι :=
  let (client, n, _) := (s.clients i).poll (.ofNetwork (seats i).client) s.world.network
  ⟨⟨s.world.server, n⟩, Function.update s.clients i client⟩

/-- The server changes its registry. -/
def perform (s : Session ι) (op : Registry.Op) : Session ι :=
  { s with world := { s.world with server := { s.world.server with
      registry := s.world.server.registry.perform op } } }

/-- The server tells of its changes. -/
def tick (s : Session ι) : Session ι := { s with world := (Server.tick s.world).1 }

/-- The server handles what it was sent. -/
def serve (s : Session ι) : Session ι := { s with world := (Server.poll s.world).1 }

/-- Nothing waits to be told or to be handled. -/
structure Quiet (seats : ι → Seat) (s : Session ι) : Prop where
  server : s.world.server.registry.hasPending = false
  clients : ∀ i, (s.clients i).hasPending = false
  inbox : ∀ (t : TransporterId) (k : ServerKey),
    s.world.server.transporters[t]? = some k → s.world.network.inbox k = []
  news : ∀ i, s.news (seats i) = []

/-! ## Telling of changes -/

/-- A client without changes tells nothing. -/
theorem update_quiet (h : (s.clients i).hasPending = false) : s.update seats i = s := by
  rw [update, Client.update, h]
  simp [Function.update_eq_self]

/-- What a client sends over an open connection is sent. -/
theorem flush_wired {n : Network} {seat : Seat}
    (h : Wired n seat.client seat.server seat.connection) (packets : List Bytes) (sent : Nat) :
    ∃ n' result, Client.flush (.ofNetwork seat.client) sent packets n = ([], n', result) ∧
      Moved n n' (fun k => if k = seat.server then
        n.inbox k ++ packets.map (seat.connection, ·) else n.inbox k) n.news := by
  induction packets generalizing n sent with
  | nil =>
    refine ⟨n, _, rfl, ⟨SameWires.refl n, fun k => ?_, fun _ => rfl⟩⟩
    rw [List.map_nil, List.append_nil, ite_self]
  | cons data packets ih =>
    obtain ⟨hsent, hmoved⟩ := h.moved_send data
    obtain ⟨n', result, hflush, hmoved'⟩ := ih (h.of_same hmoved.toSameWires) (sent + 1)
    refine ⟨n', result, ?_, ⟨hmoved.toSameWires.trans hmoved'.toSameWires, fun k => ?_,
      fun c => (hmoved'.news c).trans (hmoved.news c)⟩⟩
    · have hstep : (ClientTransport.ofNetwork seat.client).send data n =
          ((n.send seat.client data).1, .ok ()) := Prod.ext rfl hsent
      rw [Client.flush, hstep]
      exact hflush
    · rw [hmoved'.inbox, hmoved.inbox]
      split
      · rw [List.append_assoc, List.map_cons, List.singleton_append]
      · rfl

variable (seats i) in
/-- A client with changes sends the packets of them. -/
theorem exists_update (h : (seats i).Taken s.world) (hpending : (s.clients i).hasPending = true)
    (houtbox : (s.clients i).outbox = []) :
    ∃ n', s.update seats i = ⟨⟨s.world.server, n'⟩, Function.update s.clients i
        { s.clients i with registry := (s.clients i).registry.encodeRemoved.2.encodeDirty.2 }⟩ ∧
      Moved s.world.network n' (fun k => if k = (seats i).server then
        s.world.network.inbox k ++
          (s.clients i).registry.encodeDirty.1.map ((seats i).connection, ·)
        else s.world.network.inbox k) s.world.network.news := by
  have hconnected : (ClientTransport.ofNetwork (seats i).client).isConnected s.world.network =
      true := h.wired.isConnected
  obtain ⟨n', result, hflush, hmoved⟩ :=
    flush_wired h.wired (s.clients i).registry.encodeDirty.1 0
  refine ⟨n', ?_, hmoved⟩
  have hpackets : (s.clients i).registry.encodeRemoved.2.encodeDirty.1 =
      (s.clients i).registry.encodeDirty.1 := rfl
  rw [update, Client.update, hconnected, hpending]
  simp only [Bool.not_true, Bool.or_self, Bool.false_eq_true, if_false]
  rw [houtbox, List.nil_append, hpackets, hflush]

/-! ## Ticks -/

omit [DecidableEq ι] in
theorem sameWires_tick (s : Session ι) : SameWires s.world.network s.tick.world.network :=
  Server.sameWires_broadcast _ _ _

omit [DecidableEq ι] in
theorem inbox_tick (s : Session ι) (k : ServerKey) :
    s.tick.world.network.inbox k = s.world.network.inbox k :=
  Server.inbox_foldl_deliver _ _ k

omit [DecidableEq ι] in
/-- A server that ticks has nothing more to tell, and whoever is reached once hears it once. -/
theorem tick_taken {seat : Seat} (h : seat.Taken s.world) :
    s.tick.world.server = { s.world.server with
      registry := s.world.server.registry.encodeRemoved.2.encodeDirty.2 } ∧
      s.tick.news seat = s.news seat ++ (s.world.server.registry.encodeRemoved.1 ++
        s.world.server.registry.encodeDirty.1).map .received := by
  have hmem : seat.client ∈ s.world.server.audience s.world.network :=
    List.count_pos_iff.1 (h.once ▸ Nat.one_pos)
  have hupdate := Server.update_eq (Server.not_isEmpty_of_mem_audience hmem)
  refine ⟨congrArg Prod.fst hupdate, ?_⟩
  rw [news, tick, Server.tick, hupdate]
  exact Server.news_broadcast _ h.wired h.once _

/-! ## Handling what waits -/

/-- What every message that a client handles keeps, its poll keeps. -/
theorem poll_induction {P : Session ι → Prop}
    (hstep : ∀ s e n, P s → s.world.network.takeEvent? (seats i).client = some (e, n) →
      ∃ data, e = .received data ∧
        P ⟨⟨s.world.server, n⟩, Function.update s.clients i ((s.clients i).receive data).1⟩)
    (h : P s) : P (s.poll seats i) := by
  have hpoll := Client.poll_induction
    (P := fun client n => P ⟨⟨s.world.server, n⟩, Function.update s.clients i client⟩)
    (t := .ofNetwork (seats i).client) (c := s.clients i) (s := s.world.network) ?_ ?_
  · exact hpoll
  · intro client n e n' hP htake
    obtain ⟨data, rfl, hP'⟩ := hstep _ e n' hP htake
    simp only [Function.update_self, Function.update_idem] at hP'
    exact hP'
  · rw [Function.update_eq_self]
    exact h

omit [DecidableEq ι] in
/-- What every message that the server handles keeps, its poll keeps. -/
theorem serve_induction {P : Session ι → Prop}
    (hstep : ∀ s' (origin : TransporterId) (key : ServerKey) sender data n,
      s.world.server.transporters[origin]? = some key →
      P s' → s'.world.network.takeMessage? key = some ((sender, data), n) →
        P { s' with world := (Server.handle ⟨s'.world.server, n⟩ origin sender data).1 })
    (h : P s) : P s.serve := by
  refine Server.poll_induction (P := fun w => P { s with world := w }) ?_ h
  intro w origin key sender data n horigin hP htake
  exact hstep _ origin key sender data n horigin hP htake

/-- A client that has polled was told nothing that it has not handled. -/
theorem news_poll (s : Session ι) (i : ι) : (s.poll seats i).news (seats i) = [] :=
  Client.news_poll _ _ _

omit [DecidableEq ι] in
/-- Nothing that waited at the server is left when it has polled. -/
theorem inbox_serve {seat : Seat} (h : seat.Taken s.world) : s.serve.inbox seat = [] := by
  obtain ⟨origin, horigin⟩ := h.attached
  exact Server.inbox_poll s.world horigin

end Session
end ParamSync
