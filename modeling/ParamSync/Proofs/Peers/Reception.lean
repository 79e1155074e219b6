import ParamSync.Proofs.Peers.Wires

/-!
# What a server makes of a message

A message asks a server for exactly one thing, or for nothing. The server does all of it: an update
that the registry accepts goes to every connection but the one it came by, an answer goes to the
asker alone, and a message that asks for nothing leaves everything as it is. Connections are told
apart by their end and their number, since two ends may have given the same number.

Results:
* `Server.mem_routes_iff`, `Server.nodup_routes`: the routes are the connections, each once.
* `Server.existsUnique_asks`: a message asks for exactly one thing.
* `Server.handle_all_or_nothing`: the server does what the message asks for, and nothing else.
-/

namespace ParamSync

namespace Network

variable {n n' n'' : Network} {c : ClientKey} {k : ServerKey} {id : ConnectionId}

/-! ## What is queued -/

/-- At each client end `added` waits after all that waited there, and nothing else has changed. -/
structure Queued (n n' : Network) (added : ClientKey → List LinkEvent) : Prop where
  endpoints : n'.endpoints = n.endpoints
  listening : n'.listening = n.listening
  servers : n'.servers = n.servers
  counts : n'.serverCount = n.serverCount ∧ n'.clientCount = n.clientCount ∧
    n'.connectionCount = n.connectionCount
  gone : ∀ c, n.client? c = none → n'.client? c = none
  client : ∀ c d, n.client? c = some d →
    ∃ events, n'.client? c = some ⟨d.link, events⟩ ∧ events.toList = d.events.toList ++ added c

namespace Queued

variable {added added' : ClientKey → List LinkEvent}

theorem refl (n : Network) : Queued n n fun _ => [] :=
  ⟨rfl, rfl, rfl, ⟨rfl, rfl, rfl⟩, fun _ h => h,
    fun _ d h => ⟨d.events, h, (List.append_nil _).symm⟩⟩

theorem trans (h : Queued n n' added) (h' : Queued n' n'' added') :
    Queued n n'' fun c => added c ++ added' c where
  endpoints := h'.endpoints.trans h.endpoints
  listening := h'.listening.trans h.listening
  servers := h'.servers.trans h.servers
  counts := ⟨h'.counts.1.trans h.counts.1, h'.counts.2.1.trans h.counts.2.1,
    h'.counts.2.2.trans h.counts.2.2⟩
  gone c hc := h'.gone c (h.gone c hc)
  client c d hd := by
    obtain ⟨events, hevents, hlist⟩ := h.client c d hd
    obtain ⟨events', hevents', hlist'⟩ := h'.client c _ hevents
    exact ⟨events', hevents', by rw [hlist', hlist, List.append_assoc]⟩

/-- Only what is added at client ends that are there counts. -/
theorem congr (h : Queued n n' added) (heq : ∀ c, n.client? c ≠ none → added c = added' c) :
    Queued n n' added' :=
  { h with
    client := fun c d hd => by
      rw [← heq c (by rw [hd]; simp)]
      exact h.client c d hd }

end Queued

theorem queued_tell (n : Network) (c : ClientKey) (e : LinkEvent) :
    Queued n (n.tell c e) fun x => if c = x then [e] else [] where
  endpoints := rfl
  listening := rfl
  servers := rfl
  counts := ⟨rfl, rfl, rfl⟩
  gone x hx := by
    rw [client?_tell, hx, Option.map_none, ite_self]
  client x d hd := by
    rw [client?_tell]
    by_cases hx : x = c
    · rw [if_pos hx, if_pos hx.symm, hd]
      exact ⟨_, rfl, Queue.toList_push _ _⟩
    · rw [if_neg hx, if_neg (Ne.symm hx)]
      exact ⟨d.events, hd, (List.append_nil _).symm⟩

theorem queued_tellAll (n : Network) (cs : List ClientKey) (e : LinkEvent) :
    Queued n (n.tellAll cs e) fun x => List.replicate (cs.count x) e := by
  induction cs generalizing n with
  | nil => exact .refl n
  | cons c cs ih =>
    refine ((n.queued_tell c e).trans (ih (n.tell c e))).congr fun x _ => ?_
    rw [List.count_cons]
    by_cases hx : c = x
    · simp [hx, List.replicate_succ]
    · simp [hx]

theorem queued_sendEach (hbound : (n.endpoint? k).isSome = true)
    (hid : (n.connections k)[id]? = some c) (messages : List Bytes) :
    Queued n (n.sendEach k id messages) fun x =>
      if c = x then messages.map .received else [] := by
  induction messages generalizing n with
  | nil =>
    rw [sendEach]
    exact (Queued.refl n).congr fun x _ => by rw [List.map_nil, ite_self]
  | cons data messages ih =>
    rw [sendEach, sendToOne_eq hbound hid]
    by_cases hc : n.clients.contains c = true
    · rw [if_pos hc]
      refine ((n.queued_tell c (.received data)).trans
        (ih (n := n.tell c (.received data)) hbound hid)).congr fun x _ => ?_
      split <;> rfl
    · rw [if_neg hc]
      refine (Queued.refl n).congr fun x hx => ?_
      rw [if_neg]
      rintro rfl
      rw [Std.ExtTreeMap.contains_eq_isSome_getElem?] at hc
      exact hx (by simpa [client?] using hc)

end Network

namespace Server

open Network (Queued)

/-! ## Routes -/

/-- The connections of all attached ends, each by its end and its number, and whom they lead to. -/
def routes (s : Server) (n : Network) : List ((TransporterId × ConnectionId) × ClientKey) :=
  s.transporters.toList.flatMap fun t => (n.connections t.2).toList.map fun p => ((t.1, p.1), p.2)

theorem mem_routes_iff {s : Server} {n : Network} {t : TransporterId} {id : ConnectionId}
    {c : ClientKey} :
    ((t, id), c) ∈ s.routes n ↔
      ∃ k, s.transporters[t]? = some k ∧ (n.connections k)[id]? = some c := by
  simp only [routes, List.mem_flatMap, List.mem_map, Prod.exists, Prod.mk.injEq,
    Std.ExtTreeMap.mem_toList_iff_getElem?_eq_some]
  constructor
  · rintro ⟨t', k, hk, id', c', hc, ⟨rfl, rfl⟩, rfl⟩
    exact ⟨k, hk, hc⟩
  · rintro ⟨k, hk, hc⟩
    exact ⟨t, k, hk, id, c, hc, ⟨rfl, rfl⟩, rfl⟩

/-- No connection is listed twice. -/
theorem nodup_routes (s : Server) (n : Network) : ((s.routes n).map (·.1)).Nodup := by
  rw [routes, List.map_flatMap, List.nodup_flatMap]
  refine ⟨fun t _ => ?_, (pairwise_toList s.transporters).imp fun {t u} htu => ?_⟩
  · rw [List.map_map]
    refine List.Pairwise.map _ (fun p q hpq heq => hpq ?_) (pairwise_toList (n.connections t.2))
    exact (Prod.mk.inj heq).2
  · intro route ht hu
    simp only [List.map_map, List.mem_map] at ht hu
    obtain ⟨p, -, rfl⟩ := ht
    obtain ⟨q, -, heq⟩ := hu
    exact htu (congrArg Prod.fst heq).symm

/-- The others are whom all routes lead to but that of the sender. -/
theorem others_eq (s : Server) (n : Network) (origin : TransporterId) (sender : ConnectionId) :
    s.others n origin sender =
      ((s.routes n).filter fun route => route.1 ≠ (origin, sender)).map (·.2) := by
  rw [others, routes, List.filter_flatMap, List.map_flatMap]
  refine List.flatMap_congr fun t _ => ?_
  rw [List.filter_map, List.map_map]
  split
  · next ht =>
    refine congrArg (List.map _) (List.filter_congr fun p _ => ?_)
    simp [ht]
  · next ht =>
    rw [List.filter_eq_self.2 fun p _ => by simp [ht]]
    rfl

/-! ## What is asked for -/

/-- What a message can ask a server for. -/
inductive Request
  /-- That the registry becomes another one and the message is passed on. -/
  | change (registry : Registry)
  | dump
  | info
  | nothing

/-- What a message asks a server with the registry for. -/
inductive Asks (r : Registry) (data : Bytes) : Request → Prop
  | change {packet : Packet} {p : Parameter} {outcome : Registry.Merge}
      {registry : Registry} {notices : List Notice}
      (hread : Packet.ofBytes data = .ok (some packet))
      (hcommand : packet.command = .update) (hp : packet.parameter? = some p)
      (hmerge : r.merge p = .ok (outcome, registry, notices)) : Asks r data (.change registry)
  | dump {packet : Packet} (hread : Packet.ofBytes data = .ok (some packet))
      (hcommand : packet.command = .dump) : Asks r data .dump
  | info {packet : Packet} (hread : Packet.ofBytes data = .ok (some packet))
      (hcommand : packet.command = .info ∨ packet.command = .version) : Asks r data .info
  | unreadable {e : ProtocolError} (hread : Packet.ofBytes data = .error e) : Asks r data .nothing
  | noCommand (hread : Packet.ofBytes data = .ok none) : Asks r data .nothing
  | bare {packet : Packet} (hread : Packet.ofBytes data = .ok (some packet))
      (hcommand : packet.command = .update) (hp : packet.parameter? = none) : Asks r data .nothing
  | rejected {packet : Packet} {p : Parameter} {e : RegistryError}
      (hread : Packet.ofBytes data = .ok (some packet)) (hcommand : packet.command = .update)
      (hp : packet.parameter? = some p) (hmerge : r.merge p = .error e) : Asks r data .nothing
  | ignored {packet : Packet} (hread : Packet.ofBytes data = .ok (some packet))
      (hcommand : packet.command = .remove ∨ packet.command = .discover ∨
        packet.command = .updateValue) : Asks r data .nothing

theorem exists_asks (r : Registry) (data : Bytes) : ∃ q, Asks r data q := by
  cases hread : Packet.ofBytes data with
  | error e => exact ⟨_, .unreadable hread⟩
  | ok read =>
    cases read with
    | none => exact ⟨_, .noCommand hread⟩
    | some packet =>
      cases hcommand : packet.command with
      | update =>
        cases hp : packet.parameter? with
        | none => exact ⟨_, .bare hread hcommand hp⟩
        | some p =>
          cases hmerge : r.merge p with
          | error e => exact ⟨_, .rejected hread hcommand hp hmerge⟩
          | ok result => exact ⟨_, .change hread hcommand hp hmerge⟩
      | dump => exact ⟨_, .dump hread hcommand⟩
      | info => exact ⟨_, .info hread (.inl hcommand)⟩
      | version => exact ⟨_, .info hread (.inr hcommand)⟩
      | remove => exact ⟨_, .ignored hread (.inl hcommand)⟩
      | discover => exact ⟨_, .ignored hread (.inr (.inl hcommand))⟩
      | updateValue => exact ⟨_, .ignored hread (.inr (.inr hcommand))⟩

theorem Asks.unique {r : Registry} {data : Bytes} {q q' : Request} (h : Asks r data q)
    (h' : Asks r data q') : q' = q := by
  cases h <;> cases h' <;> grind

/-- A message asks for exactly one thing. -/
theorem existsUnique_asks (r : Registry) (data : Bytes) : ∃! q, Asks r data q := by
  obtain ⟨q, hq⟩ := exists_asks r data
  exact ⟨q, hq, fun q' hq' => hq.unique hq'⟩

/-! ## What is done -/

/-- Between the two worlds all was done that was asked for by a message that came from the client
end over the connection, and nothing else. -/
def Request.Done (w w' : OnNetwork) (origin : TransporterId) (sender : ConnectionId)
    (c : ClientKey) (data : Bytes) : Request → Prop
  | .change registry =>
    w'.server = { w.server with registry } ∧
      Queued w.network w'.network fun x =>
        ((w.server.routes w.network).filter fun route =>
          route.1 ≠ (origin, sender) ∧ route.2 = x).map fun _ => .received data
  | .dump =>
    w'.server = w.server ∧
      Queued w.network w'.network fun x =>
        if c = x then w.server.registry.encodeAll.map .received else []
  | .info =>
    w'.server = w.server ∧
      ∃ answer, (Packet.ofInfo w.server.config.info).encode true = .ok answer ∧
        Queued w.network w'.network fun x => if c = x then [.received answer] else []
  | .nothing => w' = w

section Handle

variable {w : OnNetwork} {origin : TransporterId} {key : ServerKey} {sender : ConnectionId}
  {c : ClientKey}

/-- What is passed on is queued once for each route but that of the sender. -/
theorem queued_others (s : Server) (n : Network) (origin : TransporterId) (sender : ConnectionId)
    (data : Bytes) :
    Queued n (n.tellAll (s.others n origin sender) (.received data)) fun x =>
      ((s.routes n).filter fun route => route.1 ≠ (origin, sender) ∧ route.2 = x).map fun _ =>
        .received data := by
  refine (n.queued_tellAll _ _).congr fun x _ => ?_
  rw [others_eq, List.map_const', List.count_eq_length_filter, List.filter_map, List.length_map,
    List.filter_filter]
  refine congrArg (List.replicate · _) (congrArg List.length (List.filter_congr fun route _ => ?_))
  by_cases hx : route.2 = x <;> simp [hx]

variable (horigin : w.server.transporters[origin]? = some key)
  (hbound : (w.network.endpoint? key).isSome = true)
  (hsender : (w.network.connections key)[sender]? = some c)
include horigin hbound hsender

/-- The server does what a message asks for. -/
theorem Asks.done {data : Bytes} {q : Request} (h : Asks w.server.registry data q) :
    q.Done w (handle w origin sender data).1 origin sender c data := by
  have hreply : ∀ messages, Queued w.network
      ((w.server.reply origin sender messages).foldl Network.deliver w.network) fun x =>
        if c = x then messages.map .received else [] := fun messages => by
    rw [deliver_reply sender horigin]
    exact Network.queued_sendEach hbound hsender messages
  have hnothing : w.server.receive origin sender data = (w.server, [], []) →
      (handle w origin sender data).1 = w := fun hreceive => by
    rw [handle, hreceive]
    rfl
  cases h with
  | @change packet p _ _ _ hread hcommand hp hmerge =>
    have hupdate : Packet.update? data = some p := by
      rw [Packet.update?, hread]
      exact (if_pos hcommand).trans hp
    rw [handle_update w origin sender hupdate, hmerge]
    exact ⟨rfl, queued_others _ _ _ _ _⟩
  | dump hread hcommand =>
    rw [handle, receive_of_dump hread hcommand]
    exact ⟨rfl, hreply _⟩
  | info hread hcommand =>
    have hreceive : w.server.receive origin sender data =
        (w.server, w.server.reply origin sender w.server.infoMessages, []) := by
      rcases hcommand with hcommand | hcommand <;> simp only [receive, hread, hcommand]
    rw [handle, hreceive]
    exact ⟨rfl, _, rfl, hreply _⟩
  | unreadable hread => exact hnothing (by simp only [receive, hread])
  | noCommand hread => exact hnothing (by simp only [receive, hread])
  | bare hread hcommand hp => exact hnothing (by simp only [receive, hread, hcommand, hp])
  | rejected hread hcommand hp hmerge =>
    exact hnothing (by simp only [receive, hread, hcommand, hp, hmerge])
  | ignored hread hcommand =>
    refine hnothing ?_
    rcases hcommand with hcommand | hcommand | hcommand <;> simp only [receive, hread, hcommand]

/-- A message that comes over a connection of an attached end asks for exactly one thing, and the
server does that and nothing else. -/
theorem handle_all_or_nothing (data : Bytes) :
    (∃! q, Asks w.server.registry data q) ∧
      ∀ q, Asks w.server.registry data q →
        q.Done w (handle w origin sender data).1 origin sender c data :=
  ⟨existsUnique_asks _ _, fun _ h => h.done horigin hbound hsender⟩

end Handle

/-- A server with two ends, of which both have a connection with the number one. -/
def switchboard : OnNetwork where
  server := Server.build {} [⟨0⟩, ⟨1⟩]
  network := {
    endpoints := ((∅ : Std.ExtTreeMap Endpoint ListenerKey).insert 7 ⟨⟨0⟩, 0⟩).insert 8 ⟨⟨1⟩, 0⟩
    listening := ((∅ : Std.ExtTreeMap ListenerKey Listener).insert ⟨⟨0⟩, 0⟩
        { connections := ((∅ : Std.ExtTreeMap ConnectionId ClientKey).insert ⟨1⟩ ⟨0⟩).insert
            ⟨2⟩ ⟨1⟩ }).insert ⟨⟨1⟩, 0⟩
        { connections := (∅ : Std.ExtTreeMap ConnectionId ClientKey).insert ⟨1⟩ ⟨2⟩ }
    servers := ((∅ : Std.ExtTreeMap ServerKey ServerEnd).insert ⟨0⟩
        { bound := some (7, 0), inbound := some 0, listenerCount := 1 }).insert ⟨1⟩
        { bound := some (8, 0), inbound := some 0, listenerCount := 1 }
    clients := (((∅ : Std.ExtTreeMap ClientKey ClientEnd).insert ⟨0⟩
      { link := some ⟨⟨1⟩, ⟨0⟩, 0⟩ }).insert ⟨1⟩ { link := some ⟨⟨2⟩, ⟨0⟩, 0⟩ }).insert ⟨2⟩
      { link := some ⟨⟨1⟩, ⟨1⟩, 0⟩ }
    serverCount := 2
    clientCount := 3
    connectionCount := 2 }

/-- The message that brings a button. -/
def buttonMessage : Bytes := Packet.encodeUpdate { id := ⟨5⟩, definition := .bang } true

theorem handle_all_or_nothing_switchboard :
    (∃! q, Asks switchboard.server.registry buttonMessage q) ∧
      ∀ q, Asks switchboard.server.registry buttonMessage q →
        q.Done switchboard (handle switchboard ⟨1⟩ ⟨1⟩ buttonMessage).1 ⟨1⟩ ⟨1⟩ ⟨0⟩
          buttonMessage :=
  have horigin : switchboard.server.transporters[(⟨1⟩ : TransporterId)]? = some ⟨0⟩ := rfl
  have hsender : (switchboard.network.connections ⟨0⟩)[(⟨1⟩ : ConnectionId)]? = some ⟨0⟩ := rfl
  handle_all_or_nothing horigin rfl hsender buttonMessage

end Server
end ParamSync
