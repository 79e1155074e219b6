import ParamSync.Proofs.Peers.Handshake
import ParamSync.Proofs.Peers.Replies
import ParamSync.Proofs.Peers.Session
import ParamSync.Proofs.Registry.Silent

/-!
# No echo

What a peer is told changes what it has, and gives it nothing to tell. So where nobody changes
anything of its own, ticks and updates do nothing, and updates that are under way are used up: a
client sends none at all, and a server passes one on to everybody but its sender.

Results:
* `Server.tellsTheSame_receive`, `Client.tellsNoMore_receive`: a message gives nothing to tell.
* `Session.Drains.poll`, `Session.Drains.serve`: nobody who polls sends the server an update.
* `Session.Calms.poll`, `Session.Calms.serve`: nor one to a client, if nobody else has sent any.
* `Session.no_echo`: so updates only become fewer where nobody changes anything of its own.
-/

namespace ParamSync

/-! ## One message -/

namespace Server

variable (s : Server) (origin : TransporterId) (sender : ConnectionId) (data : Bytes)

/-- A message gives a server nothing to tell. -/
theorem tellsTheSame_receive :
    s.registry.TellsTheSame (s.receive origin sender data).1.registry := by
  rcases s.receive_cases origin sender data with heq | ⟨p, hp, heq⟩
  · rw [heq]
    exact .refl _
  · rw [heq]
    exact s.registry.tellsTheSame_merge hp.fresh.unchanged

theorem transporters_receive : (s.receive origin sender data).1.transporters = s.transporters := by
  rcases s.receive_cases origin sender data with heq | ⟨p, -, heq⟩ <;> rw [heq]

end Server

/-- What a message can have a peer do gives it nothing to tell. -/
theorem Registry.Op.Remote.tellsNoMore {op : Registry.Op} (h : op.Remote) (r : Registry) :
    r.TellsNoMore (r.perform op) := by
  cases h with
  | merge hp => exact (r.tellsTheSame_merge hp.fresh.unchanged).tellsNoMore
  | applyValue u => exact (r.tellsTheSame_applyValue u).tellsNoMore
  | removeDirect id => exact r.tellsNoMore_removeDirect id

namespace Client

/-- A message gives a client nothing to tell. -/
theorem tellsNoMore_receive (c : Client) (data : Bytes) :
    (c.receive data).1.outbox = c.outbox ∧
      c.registry.TellsNoMore (c.receive data).1.registry := by
  rcases c.receive_cases data with ⟨info, heq⟩ | ⟨op, hop, heq⟩
  · rw [heq]
    exact ⟨rfl, .refl _⟩
  · rw [heq]
    exact ⟨rfl, hop.tellsNoMore c.registry⟩

/-- No event of its connection gives a client anything to tell. -/
theorem hasPending_handle {σ : Type} {t : ClientTransport σ} {c : Client} (s : σ) (e : LinkEvent)
    (h : c.hasPending = false) : (handle t c s e).1.hasPending = false := by
  cases e with
  | connected => exact h
  | disconnected => exact hasPending_eq_false_iff.2 ⟨rfl, rfl, rfl⟩
  | received data =>
    obtain ⟨houtbox, hregistry⟩ := c.tellsNoMore_receive data
    show (c.receive data).1.hasPending = false
    rw [hasPending, Bool.or_eq_false_iff] at h ⊢
    rw [houtbox]
    exact ⟨h.1, hregistry.hasPending_eq_false h.2⟩

end Client

/-! ## Sessions in which nobody changes anything -/

open Packet (command?)

/-- The updates among what waits at a server end. -/
def updatesOf (messages : List (ConnectionId × Bytes)) : List (ConnectionId × Bytes) :=
  messages.filter fun m => command? m.2 = some .update

/-- Whether a client is told of an update. -/
def LinkEvent.isUpdate : LinkEvent → Bool
  | .received data => command? data = some .update
  | _ => false

/-- A client that asks for something sends no update. -/
theorem Network.updatesOf_foldl_send (n : Network) (c : ClientKey) (k : ServerKey)
    {messages : List Bytes} (h : ∀ d ∈ messages, command? d ≠ some .update) :
    updatesOf ((messages.foldl (fun n d => (n.send c d).1) n).inbox k) = updatesOf (n.inbox k) := by
  induction messages generalizing n with
  | nil => rfl
  | cons data messages ih =>
    obtain ⟨hdata, hrest⟩ := List.forall_mem_cons.1 h
    rw [List.foldl_cons, ih _ hrest]
    rcases n.inbox_send c data k with hinbox | ⟨id, hinbox⟩
    · rw [hinbox]
    · rw [hinbox, updatesOf, List.filter_append, List.filter_singleton]
      simp [hdata, updatesOf]

namespace Session

variable {ι : Type} [DecidableEq ι] {seats : ι → Seat} {s s' s'' : Session ι} {i j : ι}

/-- What happens next: a client tells of its changes or handles what it was told, or the server
does. -/
inductive Turn (ι : Type)
  | update (i : ι)
  | poll (i : ι)
  | tick
  | serve

def play (seats : ι → Seat) (s : Session ι) : Turn ι → Session ι
  | .update i => s.update seats i
  | .poll i => s.poll seats i
  | .tick => s.tick
  | .serve => s.serve

def playAll (seats : ι → Seat) (s : Session ι) (turns : List (Turn ι)) : Session ι :=
  turns.foldl (play seats) s

/-- Nobody has anything to tell. -/
structure Idle (s : Session ι) : Prop where
  server : s.world.server.registry.hasPending = false
  clients : ∀ i, (s.clients i).hasPending = false

omit [DecidableEq ι] in
/-- A server without changes tells nothing. -/
theorem tick_quiet (h : s.world.server.registry.hasPending = false) : s.tick = s := by
  rw [tick, Server.tick, Server.update, h]
  simp

/-- Whoever had nothing to tell still has nothing to tell, and no update waits at the server that
did not wait there before. -/
structure Drains (s s' : Session ι) : Prop where
  idle : s.Idle → s'.Idle
  updates : ∀ k, updatesOf (s'.world.network.inbox k) <:+ updatesOf (s.world.network.inbox k)

namespace Drains

omit [DecidableEq ι] in
theorem refl (s : Session ι) : Drains s s := ⟨id, fun _ => List.suffix_rfl⟩

omit [DecidableEq ι] in
theorem trans (h : Drains s s') (h' : Drains s' s'') : Drains s s'' :=
  ⟨fun hidle => h'.idle (h.idle hidle), fun k => (h'.updates k).trans (h.updates k)⟩

variable (seats s) in
/-- A client that polls sends no update, whatever it is told. -/
theorem poll (i : ι) : Drains s (s.poll seats i) := by
  have hpoll := Client.poll_induction
    (P := fun client n => ((s.clients i).hasPending = false → client.hasPending = false) ∧
      ∀ k, updatesOf (n.inbox k) = updatesOf (s.world.network.inbox k))
    (t := .ofNetwork (seats i).client) (c := s.clients i) (s := s.world.network) ?_
    ⟨id, fun _ => rfl⟩
  · refine ⟨fun hidle => ⟨hidle.server, fun j => ?_⟩, fun k => ?_⟩
    · by_cases hj : j = i
      · subst hj
        exact (congrArg Client.hasPending (Function.update_self ..)).trans
          (hpoll.1 (hidle.clients j))
      · exact (congrArg Client.hasPending (Function.update_of_ne hj ..)).trans (hidle.clients j)
    · exact hpoll.2 k ▸ List.suffix_rfl
  · rintro client n e n' ⟨hclient, hupdates⟩ htake
    have hinbox := Network.inbox_takeEvent? htake
    refine ⟨fun hidle => client.hasPending_handle n' e (hclient hidle), fun k => ?_⟩
    rw [← hupdates, ← hinbox]
    cases e with
    | connected => exact n'.updatesOf_foldl_send (seats i).client k Client.command?_requests
    | disconnected => rfl
    | received data => rfl

variable (s) in
omit [DecidableEq ι] in
/-- A server that polls has nothing to tell of what it was sent. -/
theorem serve : Drains s s.serve := by
  refine serve_induction (P := Drains s) ?_ (refl s)
  intro s' origin key sender data n _ hdrains htake
  obtain ⟨rest, hrest, hmoved⟩ := Network.moved_takeMessage? htake
  have hserver := (s'.world.server.tellsTheSame_receive origin sender data).tellsNoMore
  refine hdrains.trans ⟨fun hidle => ?_, fun k => ?_⟩
  · exact ⟨hserver.hasPending_eq_false hidle.server, hidle.clients⟩
  · rw [Server.inbox_handle, hmoved.inbox]
    split
    · next hk =>
      rw [hk, hrest]
      exact (List.suffix_cons _ _).filter _
    · exact List.suffix_rfl

variable (seats) in
theorem play (h : s.Idle) (t : Turn ι) : Drains s (play seats s t) := by
  cases t with
  | update i =>
    rw [Session.play, update_quiet (h.clients i)]
    exact refl s
  | poll i => exact poll seats s i
  | tick =>
    rw [Session.play, tick_quiet h.server]
    exact refl s
  | serve => exact serve s

variable (seats) in
/-- Where nobody has anything to tell, updates for the server only become fewer. -/
theorem playAll (h : s.Idle) (turns : List (Turn ι)) : Drains s (playAll seats s turns) := by
  induction turns generalizing s with
  | nil => exact refl s
  | cons t rest ih =>
    have hstep := play seats h t
    exact hstep.trans (ih (hstep.idle h))

end Drains

/-! ### Two peers -/

/-- The client of a seat is connected, no connection is being opened or closed, nobody waits for a
dump, and the updates that the server has still to handle are its own. -/
structure Alone (seats : ι → Seat) (i : ι) (s : Session ι) : Prop where
  taken : (seats i).Taken s.world
  news : ∀ j, ∀ e ∈ s.news (seats j), ∃ data, e = .received data
  inbox : ∀ (t : TransporterId) (k : ServerKey), s.world.server.transporters[t]? = some k →
    ∀ m ∈ s.world.network.inbox k, command? m.2 ≠ some .dump ∧
      (command? m.2 = some .update → k = (seats i).server ∧ m.1 = (seats i).connection)

/-- Afterwards it is still so, and no update waits for the client that did not wait before. -/
structure Calms (seats : ι → Seat) (i : ι) (s s' : Session ι) : Prop where
  alone : Alone seats i s'
  updates : (s'.news (seats i)).filter LinkEvent.isUpdate <:+
    (s.news (seats i)).filter LinkEvent.isUpdate

namespace Calms

omit [DecidableEq ι] in
theorem refl (h : Alone seats i s) : Calms seats i s s := ⟨h, List.suffix_rfl⟩

omit [DecidableEq ι] in
theorem trans (h : Calms seats i s s') (h' : Calms seats i s' s'') : Calms seats i s s'' :=
  ⟨h'.alone, h'.updates.trans h.updates⟩

/-- A client that handles a message sends nothing. -/
theorem hear (h : Alone seats i s) {e : LinkEvent} {n : Network}
    (htake : s.world.network.takeEvent? (seats j).client = some (e, n)) :
    ∃ data, e = .received data ∧ Calms seats i s ⟨⟨s.world.server, n⟩,
      Function.update s.clients j ((s.clients j).receive data).1⟩ := by
  have htold : s.news (seats j) = e :: n.news (seats j).client := Network.news_takeEvent? htake
  obtain ⟨data, rfl⟩ := h.news j e (htold ▸ List.mem_cons_self)
  have hmoved := Network.moved_takeEvent? htake LinkEvent.noConfusion
  -- whoever the messages are for, what waits afterwards is a part of what waited before
  have hsuffix : ∀ seat : Seat, n.news seat.client <:+ s.news seat := fun seat => by
    rw [hmoved.news]
    split
    · next hclient =>
      have hseat : s.news seat = s.news (seats j) := congrArg s.world.network.news hclient
      rw [hseat, htold]
      exact List.suffix_cons _ _
    · exact List.suffix_rfl
  refine ⟨data, rfl, ⟨h.taken.of_same rfl hmoved.toSameWires,
    fun l e he => h.news l e ((hsuffix (seats l)).subset he), fun t k hk m hm => ?_⟩,
    (hsuffix (seats i)).filter _⟩
  rw [hmoved.inbox] at hm
  exact h.inbox t k hk m hm

omit [DecidableEq ι] in
/-- A server that handles a message passes an update of the client on to others only, and sends no
update on anything else. -/
theorem handle (h : Alone seats i s) {origin : TransporterId} {key : ServerKey}
    {sender : ConnectionId} {data : Bytes} {n : Network}
    (horigin : s.world.server.transporters[origin]? = some key)
    (htake : s.world.network.takeMessage? key = some ((sender, data), n)) :
    Calms seats i s
      { s with world := (Server.handle ⟨s.world.server, n⟩ origin sender data).1 } := by
  obtain ⟨rest, hrest, hmoved⟩ := Network.moved_takeMessage? htake
  have hmem : (sender, data) ∈ s.world.network.inbox key := hrest ▸ List.mem_cons_self
  obtain ⟨hdump, hown⟩ := h.inbox origin key horigin _ hmem
  have htold := Server.told_handle ⟨s.world.server, n⟩ origin sender data
  have htransporters := s.world.server.transporters_receive origin sender data
  have htaken : (seats i).Taken ⟨s.world.server, n⟩ := h.taken.of_same rfl hmoved.toSameWires
  have hnews : ∀ seat : Seat, n.news seat.client = s.news seat := fun seat => hmoved.news _
  refine ⟨⟨htaken.of_same htransporters htold.toSameWires, fun j e he => ?_,
    fun t k hk m hm => ?_⟩, ?_⟩
  · obtain ⟨added, hadded, -⟩ := htold.news (seats j).client
    rw [news, hadded, hnews, List.mem_append, List.mem_map] at he
    rcases he with he | ⟨d, -, rfl⟩
    · exact h.news j e he
    · exact ⟨d, rfl⟩
  · refine h.inbox t k (htransporters ▸ hk) m ?_
    rw [Server.inbox_handle, hmoved.inbox] at hm
    split at hm
    · next hkey =>
      rw [hkey, hrest]
      exact List.mem_cons_of_mem _ hm
    · exact hm
  · suffices hsame : ((Server.handle ⟨s.world.server, n⟩ origin sender data).1.network.news
        (seats i).client).filter LinkEvent.isUpdate =
          (s.news (seats i)).filter LinkEvent.isUpdate from hsame ▸ List.suffix_rfl
    by_cases hupdate : command? data = some .update
    · obtain ⟨rfl, rfl⟩ := hown hupdate
      -- the sender of an update is told nothing of it
      have hself : (Server.handle ⟨s.world.server, n⟩ origin (seats i).connection
          data).1.network.news (seats i).client = n.news (seats i).client := by
        cases hp : Packet.update? data with
        | some p => exact htaken.news_handle_self horigin hp
        | none =>
          have hread : Packet.IsUpdate data := fun packet hpacket =>
            Option.some.inj ((Packet.command?_of_ofBytes hpacket).symm.trans hupdate)
          rw [Server.handle_nothing _ origin (seats i).connection hread hp]
      rw [hself, hnews]
    · obtain ⟨added, hadded, hnone⟩ := htold.news (seats i).client
      have hfilter : (added.map LinkEvent.received).filter LinkEvent.isUpdate = [] := by
        rw [List.filter_eq_nil_iff]
        intro e he hisUpdate
        obtain ⟨d, hd, rfl⟩ := List.mem_map.1 he
        exact (hnone d hd (of_decide_eq_true hisUpdate)).elim hupdate hdump
      rw [hadded, hnews, List.filter_append, hfilter, List.append_nil]

theorem poll (h : Alone seats i s) (j : ι) : Calms seats i s (s.poll seats j) := by
  refine poll_induction (P := Calms seats i s) ?_ (refl h)
  intro s' e n hcalms htake
  obtain ⟨data, he, hstep⟩ := hear hcalms.alone htake
  exact ⟨data, he, hcalms.trans hstep⟩

omit [DecidableEq ι] in
theorem serve (h : Alone seats i s) : Calms seats i s s.serve := by
  refine (serve_induction (s := s)
    (P := fun s' => s'.world.server.transporters = s.world.server.transporters ∧
      Calms seats i s s') ?_ ⟨rfl, refl h⟩).2
  rintro s' origin key sender data n horigin ⟨hsame, hcalms⟩ htake
  exact ⟨(s'.world.server.transporters_receive origin sender data).trans hsame,
    hcalms.trans (handle hcalms.alone (hsame ▸ horigin) htake)⟩

theorem play (h : Alone seats i s) (hidle : s.Idle) (t : Turn ι) :
    Calms seats i s (play seats s t) := by
  cases t with
  | update j =>
    rw [Session.play, update_quiet (hidle.clients j)]
    exact refl h
  | poll j => exact poll h j
  | tick =>
    rw [Session.play, tick_quiet hidle.server]
    exact refl h
  | serve => exact serve h

/-- Where nobody has anything to tell, the updates for a client that nobody else talks past only
become fewer. -/
theorem playAll (h : Alone seats i s) (hidle : s.Idle) (turns : List (Turn ι)) :
    Calms seats i s (playAll seats s turns) := by
  induction turns generalizing s with
  | nil => exact refl h
  | cons t rest ih =>
    have hstep := play h hidle t
    exact hstep.trans (ih hstep.alone ((Drains.play seats hidle t).idle hidle))

end Calms

/-! ### What follows -/

variable (seats) in
/-- A registry that merges a parameter that was read, or applies a value, has the same to tell as
before. So has a server that receives a message, and a client that does sends nothing and has
nothing more to tell. So whoever polls sends no update back: a client sends none at all, and a
server none to a client from which alone it has updates to handle. And where nobody has anything to
tell, nobody ever has, however turns are taken: who tells of its changes does nothing, and updates
only become fewer. -/
theorem no_echo :
    (∀ (r : Registry) (p : Parameter), p.Read → r.TellsTheSame (r.perform (.merge p))) ∧
      (∀ (r : Registry) (u : ValueUpdate), r.TellsTheSame (r.perform (.applyValue u))) ∧
      (∀ (server : Server) (origin : TransporterId) (sender : ConnectionId) (data : Bytes),
        server.registry.TellsTheSame (server.receive origin sender data).1.registry) ∧
      (∀ (σ : Type) (t : ClientTransport σ) (client : Client) (n : σ) (data : Bytes),
        (client.handle t n (.received data)).2.1 = n ∧
          (client.handle t n (.received data)).1.outbox = client.outbox ∧
          client.registry.TellsNoMore (client.handle t n (.received data)).1.registry) ∧
      (∀ s : Session ι, (∀ j, Drains s (s.poll seats j)) ∧ Drains s s.serve) ∧
      (∀ (s : Session ι) (i : ι), Alone seats i s →
        (∀ j, Calms seats i s (s.poll seats j)) ∧ Calms seats i s s.serve) ∧
      ∀ (s : Session ι) (turns : List (Turn ι)), s.Idle →
        (playAll seats s turns).Idle ∧
          (∀ j, (playAll seats s turns).update seats j = playAll seats s turns) ∧
          (playAll seats s turns).tick = playAll seats s turns ∧
          Drains s (playAll seats s turns) ∧
          ∀ i, Alone seats i s → Calms seats i s (playAll seats s turns) := by
  refine ⟨fun r p hp => r.tellsTheSame_merge hp.fresh.unchanged, Registry.tellsTheSame_applyValue,
    Server.tellsTheSame_receive, fun σ t client n data => ⟨rfl, client.tellsNoMore_receive data⟩,
    fun s => ⟨Drains.poll seats s, Drains.serve s⟩,
    fun s i halone => ⟨Calms.poll halone, Calms.serve halone⟩, fun s turns hs => ?_⟩
  have hdrains := Drains.playAll seats hs turns
  have hidle := hdrains.idle hs
  exact ⟨hidle, fun j => update_quiet (hidle.clients j), tick_quiet hidle.server, hdrains,
    fun i halone => Calms.playAll halone hs turns⟩

/-- A button that a peer has. -/
def button : Parameter := { id := ⟨5⟩, definition := .bang }

theorem read_button : button.Read := by
  have hlegible : button.Legible true :=
    ⟨trivial, by simp [button, LocalizedText.Legible], by simp [button, LocalizedText.Legible]⟩
  exact hlegible.read rfl

/-- A server to which one client is connected, which has not handled yet what that has sent. -/
def buttonSession : Session Unit where
  world := ⟨Server.build {} [⟨0⟩], {
    endpoints := (∅ : Std.ExtTreeMap Endpoint ListenerKey).insert 7 ⟨⟨0⟩, 0⟩
    listening := (∅ : Std.ExtTreeMap ListenerKey Listener).insert ⟨⟨0⟩, 0⟩
      { connections := (∅ : Std.ExtTreeMap ConnectionId ClientKey).insert ⟨1⟩ ⟨0⟩
        inbound := some (({} : Queue (ConnectionId × Bytes)).push
          (⟨1⟩, Packet.encodeUpdate button true)) }
    servers := (∅ : Std.ExtTreeMap ServerKey ServerEnd).insert ⟨0⟩
      { bound := some (7, 0), inbound := some 0, listenerCount := 1 }
    clients := (∅ : Std.ExtTreeMap ClientKey ClientEnd).insert ⟨0⟩
      { link := some ⟨⟨1⟩, ⟨0⟩, 0⟩ }
    serverCount := 1
    clientCount := 1
    connectionCount := 1 }⟩
  clients _ := {}

def buttonSeat : Seat := ⟨⟨0⟩, ⟨0⟩, ⟨1⟩⟩

theorem alone_button : Alone (fun _ => buttonSeat) () buttonSession where
  taken := ⟨⟨⟨⟨⟨0⟩, 0⟩, rfl, rfl⟩, rfl⟩, ⟨⟨1⟩, rfl⟩, rfl⟩
  news _ _ he := absurd he List.not_mem_nil
  inbox t k hk m hm := by
    have hbuild : (Server.build {} [⟨0⟩]).transporters[t]? = some k := hk
    obtain rfl := Server.OnNetwork.end_of_build hbuild
    obtain rfl : m = (⟨1⟩, Packet.encodeUpdate button true) := List.mem_singleton.1 hm
    exact ⟨by decide, fun _ => ⟨rfl, rfl⟩⟩

theorem no_echo_button :
    button.Read ∧ buttonSession.Idle ∧ Alone (fun _ => buttonSeat) () buttonSession ∧
      Registry.new.TellsTheSame (Registry.new.perform (.merge button)) ∧
      Drains buttonSession
        (playAll (fun _ => buttonSeat) buttonSession [.serve, .poll (), .update (), .tick]) ∧
      Calms (fun _ => buttonSeat) () buttonSession
        (playAll (fun _ => buttonSeat) buttonSession [.serve, .poll (), .update (), .tick]) := by
  have hidle : buttonSession.Idle := ⟨rfl, fun _ => rfl⟩
  obtain ⟨hmerge, -, -, -, -, -, hturns⟩ := no_echo fun _ : Unit => buttonSeat
  obtain ⟨-, -, -, hdrains, hcalms⟩ :=
    hturns buttonSession [.serve, .poll (), .update (), .tick] hidle
  exact ⟨read_button, hidle, alone_button, hmerge .new button read_button, hdrains,
    hcalms () alone_button⟩

end Session
end ParamSync
