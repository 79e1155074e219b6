import ParamSync.Proofs.Peers.Link
import ParamSync.Proofs.Peers.Receive
import ParamSync.Proofs.Peers.Runs
import ParamSync.Proofs.Registry.Dump

/-!
# The handshake

A client that has connected asks for the version and for the parameters; the server answers both,
and the answer to the second is a dump. So after three polls the client has a mirror of everything.
Other server ends at which nothing waits have no part in it.

Results:
* `Server.poll_requests`: a server that polls answers the requests and stays as it is.
* `Server.OnNetwork.handshake_eq`: what the three polls come to.
* `Server.OnNetwork.handshake_mirrors`: after a handshake the client mirrors the tree.
-/

namespace ParamSync

open Network (Linked)

variable {base : Network} {c : ClientKey} {key : ServerKey} {id : ConnectionId}

/-! ## The client asks -/

/-- A client that is told of its connection sends the requests. -/
theorem Client.poll_connected {n : Network} (h : Linked base c key id [] [.connected] n)
    (client : Client) :
    let after := client.poll (.ofNetwork c) n
    after.1 = client ∧ Linked base c key id (Client.requests.map (id, ·)) [] after.2.1 := by
  obtain ⟨n', htake, h'⟩ := h.takeEvent? (by simp)
  have hwaiting : (ClientTransport.ofNetwork c).waiting n = 1 := h.waitingEvents
  have ht : (ClientTransport.ofNetwork c).takeEvent? n = some (.connected, n') := htake
  have hsent := (h'.send (Packet.infoRequest.encodeFramed true)).send
    (Packet.dumpRequest.encodeFramed true)
  unfold poll
  rw [hwaiting, drain, ht]
  exact ⟨rfl, hsent⟩

/-! ## The server answers -/

namespace Server

variable {w : OnNetwork} {origin : TransporterId}

/-- What a server answers to the requests of a client. -/
def answers (s : Server) : List Bytes := s.infoMessages ++ s.registry.encodeAll

/-- The requests that wait at one server end are answered. -/
theorem drain_requests
    (h : Linked base c key id (Client.requests.map (id, ·)) [] w.network)
    (horigin : w.server.transporters[origin]? = some key) (handled : Nat) (notices : List Notice) :
    let after := drain origin key 2 (w, handled, notices)
    after.1.server = w.server ∧
      Linked base c key id [] (w.server.answers.map .received) after.1.network := by
  obtain ⟨n₁, htake₁, h₁⟩ := h.takeMessage?
  have hinfo := h₁.sendEach w.server.infoMessages
  have hhandle₁ := handle_infoRequest (w := ⟨w.server, n₁⟩) id horigin
  obtain ⟨n₂, htake₂, h₂⟩ := hinfo.takeMessage?
  have hhandle₂ := handle_dumpRequest (w := ⟨w.server, n₂⟩) id horigin
  have hdump := h₂.sendEach w.server.registry.encodeAll
  rw [List.nil_append, ← List.map_append] at hdump
  have hdrain : (drain origin key 2 (w, handled, notices)).1 =
      ⟨w.server, n₂.sendEach key id w.server.registry.encodeAll⟩ := by
    rw [drain, htake₁]
    dsimp only
    rw [hhandle₁, drain, htake₂]
    dsimp only
    rw [hhandle₂, drain]
  dsimp only
  rw [hdrain]
  exact ⟨rfl, hdump⟩

/-- Ends at which nothing waits are passed over. -/
theorem foldl_pollEnd_quiet {ts : List (TransporterId × ServerKey)}
    (h : ∀ t ∈ ts, w.network.waitingMessages t.2 = 0) (handled : Nat) (notices : List Notice) :
    ts.foldl pollEnd (w, handled, notices) = (w, handled, notices) := by
  induction ts with
  | nil => rfl
  | cons t ts ih =>
    obtain ⟨ht, hts⟩ := List.forall_mem_cons.1 h
    have hstep : pollEnd (w, handled, notices) t = (w, handled, notices) := by
      rw [pollEnd, ht, drain]
    rw [List.foldl_cons, hstep, ih hts]

/-- Once the end with the requests is met, they are answered, and nothing waits any more. -/
theorem foldl_pollEnd_requests {ts : List (TransporterId × ServerKey)}
    (h : Linked base c key id (Client.requests.map (id, ·)) [] w.network)
    (hattached : ∀ t ∈ ts, w.server.transporters[t.1]? = some t.2)
    (hquiet : ∀ t ∈ ts, t.2 ≠ key → base.waitingMessages t.2 = 0) (hkey : ∃ t ∈ ts, t.2 = key)
    (handled : Nat) (notices : List Notice) :
    let after := ts.foldl pollEnd (w, handled, notices)
    after.1.server = w.server ∧
      Linked base c key id [] (w.server.answers.map .received) after.1.network := by
  induction ts with
  | nil => simp at hkey
  | cons t ts ih =>
    obtain ⟨hattachedt, hattached'⟩ := List.forall_mem_cons.1 hattached
    obtain ⟨hquiett, hquiet'⟩ := List.forall_mem_cons.1 hquiet
    rw [List.foldl_cons]
    by_cases ht : t.2 = key
    · obtain ⟨origin, k⟩ := t
      obtain rfl : k = key := ht
      have hdrain := drain_requests h hattachedt handled notices
      have hwaiting : w.network.waitingMessages k = 2 := h.waitingMessages
      rw [pollEnd, hwaiting]
      -- from here on no end has anything that waits
      rcases hw' : drain origin k 2 (w, handled, notices) with ⟨w', handled', notices'⟩
      rw [hw'] at hdrain
      rw [foldl_pollEnd_quiet]
      · exact hdrain
      · intro t hts
        by_cases ht : t.2 = k
        · rw [ht, hdrain.2.waitingMessages]
          rfl
        · rw [hdrain.2.waitingMessages_other ht, hquiet' t hts ht]
    · have hstep : pollEnd (w, handled, notices) t = (w, handled, notices) := by
        rw [pollEnd, h.waitingMessages_other ht, hquiett ht, drain]
      rw [hstep]
      obtain ⟨t', ht', hkey⟩ := hkey
      have hmem : t' ∈ ts :=
        (List.mem_cons.1 ht').resolve_left fun heq => ht (heq ▸ hkey)
      exact ih hattached' hquiet' ⟨t', hmem, hkey⟩

/-- A server that polls answers the requests and stays as it is. -/
theorem poll_requests (h : Linked base c key id (Client.requests.map (id, ·)) [] w.network)
    (horigin : w.server.transporters[origin]? = some key)
    (hquiet : ∀ (t : TransporterId) (k : ServerKey), w.server.transporters[t]? = some k → k ≠ key →
      base.waitingMessages k = 0) :
    let after := (poll w).1
    after.server = w.server ∧
      Linked base c key id [] (w.server.answers.map .received) after.network := by
  have hmem : ∀ t, t ∈ w.server.transporters.toList ↔ w.server.transporters[t.1]? = some t.2 :=
    fun t => Std.ExtTreeMap.mem_toList_iff_getElem?_eq_some
  exact foldl_pollEnd_requests h (fun t ht => (hmem t).1 ht)
    (fun t ht => hquiet t.1 t.2 ((hmem t).1 ht)) ⟨(origin, key), (hmem _).2 horigin, rfl⟩ 0 []

/-! ## The three polls -/

/-- A new client connects to an endpoint, and polls before and after the server does. -/
def OnNetwork.handshake (w : OnNetwork) (endpoint : Endpoint) : Client × OnNetwork :=
  let c := w.network.addClient.1
  let (client, n, _) := ({} : Client).poll (.ofNetwork c) (w.network.joined endpoint)
  let (w, _) := poll ⟨w.server, n⟩
  let (client, n, _) := client.poll (.ofNetwork c) w.network
  (client, ⟨w.server, n⟩)

namespace OnNetwork

variable {endpoint : Endpoint} {l : ListenerKey}

theorem reachable_handshake (w : OnNetwork) (endpoint : Endpoint) :
    Registry.Reachable (fun _ => Registry.Op.Legal) (w.handshake endpoint).1.registry :=
  Client.reachable_poll (Client.reachable_poll .new _) _

section Handshake

variable (horigin : w.server.transporters[origin]? = some key)
  (hbound : w.network.endpoints[endpoint]? = some l)
  (hend : w.network.socket? key = some l)
  (hquiet : ∀ (t : TransporterId) (k : ServerKey), w.server.transporters[t]? = some k →
    w.network.waitingMessages k = 0)
include horigin hbound hend hquiet

/-- What a client has after a handshake is what it made of the answers, and the server is as it
was. -/
theorem handshake_eq :
    (w.handshake endpoint).1 =
        w.server.answers.foldl (fun client data => (client.receive data).1) {} ∧
      (w.handshake endpoint).2.server = w.server ∧
      Linked (w.network.joined endpoint) w.network.addClient.1 key
        ⟨w.network.connectionCount + 1⟩ [] [] (w.handshake endpoint).2.network := by
  have hlinked := Network.linked_joined hbound hend (hquiet _ _ horigin)
  obtain ⟨hclient, hasked⟩ := Client.poll_connected hlinked {}
  obtain ⟨hserver, hanswered⟩ := poll_requests (w := ⟨w.server, _⟩) hasked horigin
    fun t k hk _ => (Network.waitingMessages_joined hbound k).trans (hquiet t k hk)
  obtain ⟨hlast, hdone⟩ := hanswered.poll {}
  unfold handshake
  dsimp only
  rw [hclient, hserver]
  exact ⟨hlast, rfl, hdone⟩

/-- The client has merged what is heard of a dump, and has nothing else. -/
theorem handshake_heard (hlegible : ∀ p ∈ w.server.registry.dumped, p.Legible true) :
    (w.handshake endpoint).1 =
      { registry := Registry.new.performAll
          (w.server.registry.dumped.map fun p => .merge (p.heard true))
        info := some w.server.config.info.heard } := by
  obtain ⟨hclient, -⟩ := handshake_eq horigin hbound hend hquiet
  rw [hclient, answers, infoMessages_eq, List.singleton_append, List.foldl_cons,
    Client.receive_encodeInfo, Registry.encodeAll_eq_map,
    Client.foldl_receive_encodeUpdate hlegible]

variable
  (hreach : Registry.Reachable (fun _ => Registry.Op.Legal) w.server.registry)
  (hlossless : ∀ x p, x ≠ .root → w.server.registry.get? x = some p → p.Lossless)
include hreach hlossless

/-- If nothing is lost, that are the copies of a dump. -/
theorem handshake_client :
    (w.handshake endpoint).1 =
      { registry := Registry.new.performAll
          (w.server.registry.dumped.map fun p => .merge p.copy)
        info := some w.server.config.info.heard } := by
  obtain ⟨hforest, horderly⟩ := hreach.orderly
  -- every packet of the dump is heard as the copy that it was made of
  have hdumped : ∀ p ∈ w.server.registry.dumped, p.Legible true ∧ p.heard true = p.copy := by
    intro p hp
    obtain ⟨hroot, hget⟩ := hforest.mem_dumped_iff.1 hp
    have hl := hlossless p.id p hroot hget
    have hd := (horderly.settled hroot hget).wellFormed
    exact ⟨hl.legible hd, p.heard_true hl hd⟩
  have hops : (w.server.registry.dumped.map fun p => Registry.Op.merge (p.heard true)) =
      w.server.registry.dumped.map fun p => .merge p.copy :=
    List.map_congr_left fun p hp => by rw [(hdumped p hp).2]
  rw [handshake_heard horigin hbound hend hquiet fun p hp => (hdumped p hp).1, hops]

/-- The client has every parameter as the server has it, but for what does not travel. -/
theorem get?_handshake (x : ParamId) :
    (w.handshake endpoint).1.registry.get? x =
      (w.server.registry.get? x).map Parameter.mirrored := by
  obtain ⟨hforest, horderly⟩ := hreach.orderly
  rw [handshake_client horigin hbound hend hquiet hreach hlossless]
  exact (hforest.mirror_dump horderly).1 x

/-- After a handshake the client has every parameter as the server has it, but for what does not
travel, and the server is as it was. -/
theorem handshake_mirrors :
    (∀ x, (w.handshake endpoint).1.registry.get? x =
        (w.server.registry.get? x).map Parameter.mirrored) ∧
      (w.handshake endpoint).1.hasPending = false ∧
      (w.handshake endpoint).2.server = w.server := by
  obtain ⟨hforest, horderly⟩ := hreach.orderly
  obtain ⟨-, hdirty, hremoved⟩ := hforest.mirror_dump horderly
  obtain ⟨-, hserver, -⟩ := handshake_eq horigin hbound hend hquiet
  refine ⟨get?_handshake horigin hbound hend hquiet hreach hlossless, ?_, hserver⟩
  rw [handshake_client horigin hbound hend hquiet hreach hlossless, Client.hasPending,
    Registry.hasPending, hdirty, hremoved]
  rfl

end Handshake

/-- A group with a lamp in it, of which everybody has been told. -/
def lampRun : List Registry.Op :=
  [.createGroup none, .create (.boolean {}) (some ⟨1⟩),
    .edit ⟨2⟩ [.edit (.value (some (.boolean true))), .edit (.label (.text "lamp"))],
    .encodeDirty]

/-- A server with these, bound to an endpoint. -/
def lamp : OnNetwork where
  server := { Server.build {} [⟨0⟩] with registry := Registry.new.performAll lampRun }
  network := (({} : Network).addServer.2.bind ⟨0⟩ 7).1

theorem lossless_lamp {x : ParamId} {p : Parameter} (hx : x ≠ .root)
    (hp : lamp.server.registry.get? x = some p) : p.Lossless := by
  have hkeys : lamp.server.registry.parameters.keys = [.root, ⟨1⟩, ⟨2⟩] := rfl
  have hmem := Registry.mem_keys_of_get? hp
  rw [hkeys] at hmem
  simp only [List.mem_cons, hx, List.not_mem_nil, or_false, false_or] at hmem
  rcases hmem with rfl | rfl
  · obtain rfl := Option.some.inj hp
    refine ⟨trivial, ?_, .of_languages_eq_empty rfl ?_, .of_languages_eq_empty rfl ?_, ?_, ?_, ?_⟩
      <;> rintro _ ⟨⟩
  · obtain rfl := Option.some.inj hp
    refine ⟨trivial, ?_, .of_languages_eq_empty rfl ?_, .of_languages_eq_empty rfl ?_, ?_, ?_, ?_⟩
      <;> rintro _ ⟨⟩
    · exact ⟨rfl, trivial⟩
    · exact (by decide : (Utf8.encode "lamp").length ≤ Width.tiny.limit)

theorem reachable_lamp :
    Registry.Reachable (fun _ => Registry.Op.Legal) lamp.server.registry :=
  Registry.Reachable.performAll .new (by
    simp [lampRun, Registry.Op.legal_iff, Registry.Op.Childless, Registry.Op.KeepsDefinitions,
      Parameter.Edit.KeepsDefinition, TypeDef.WellFormed])

/-- A server that is built with one end has no other. -/
theorem end_of_build {config : Config} {t : TransporterId} {k : ServerKey}
    (hk : (Server.build config [key]).transporters[t]? = some k) : k = key := by
  have hmem := Std.ExtTreeMap.mem_toList_iff_getElem?_eq_some.2 hk
  have hall : (Server.build config [key]).transporters.toList = [(⟨1⟩, key)] := rfl
  rw [hall, List.mem_singleton, Prod.mk.injEq] at hmem
  exact hmem.2

theorem end_lamp {t : TransporterId} {k : ServerKey}
    (hk : lamp.server.transporters[t]? = some k) : k = ⟨0⟩ :=
  have hbuild : (Server.build {} [⟨0⟩]).transporters[t]? = some k := hk
  end_of_build hbuild

theorem quiet_lamp {t : TransporterId} {k : ServerKey}
    (hk : lamp.server.transporters[t]? = some k) : lamp.network.waitingMessages k = 0 := by
  rw [end_lamp hk]
  rfl

/-- A client that has connected to the lamp has merged the copies of its dump. -/
theorem client_lamp : (lamp.handshake 7).1 =
    { registry := Registry.new.performAll (lamp.server.registry.dumped.map fun p => .merge p.copy)
      info := some lamp.server.config.info.heard } :=
  have horigin : lamp.server.transporters[(⟨1⟩ : TransporterId)]? = some ⟨0⟩ := rfl
  handshake_client horigin rfl rfl (fun _ _ => quiet_lamp) reachable_lamp fun _ _ => lossless_lamp

theorem handshake_mirrors_lamp :
    (∀ x, (lamp.handshake 7).1.registry.get? x =
        (lamp.server.registry.get? x).map Parameter.mirrored) ∧
      (lamp.handshake 7).1.hasPending = false ∧ (lamp.handshake 7).2.server = lamp.server :=
  have horigin : lamp.server.transporters[(⟨1⟩ : TransporterId)]? = some ⟨0⟩ := rfl
  handshake_mirrors horigin rfl rfl (fun _ _ => quiet_lamp) reachable_lamp fun _ _ => lossless_lamp

end OnNetwork
end Server
end ParamSync
