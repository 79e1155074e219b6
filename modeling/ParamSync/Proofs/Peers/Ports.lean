import ParamSync.Proofs.Peers.Reception

/-!
# Ports and connections

The table of endpoints, the entries of the server ends, the listeners and the links of the client
ends say the same thing from four sides. `Coherent` says how they fit together. A listener outlives
the server end that had it as long as a link leads to it, but then its roster is empty; so whoever
is connected is connected to one whose messages are taken. Most operations bind and open nothing
(`Closes`), and many change only what is under way (`SamePorts`).

Results:
* `Coherent.mem_endpoints_iff`: an endpoint is in the table exactly if one server end has bound it.
* `Coherent.isConnected_iff`: a client end is connected exactly if its link is open at both ends.
* `Coherent.send_eq`: a client's message is refused exactly if the client end is not connected, and
  never because nobody is there to take it.
* `Coherent.count_reached`: what goes over every connection reaches a client end once.
* `Coherent.queued`, `Coherent.send`, `Coherent.takeMessage?`, `Coherent.takeEvent?`: what is sent
  and what is taken leaves the tables together.
-/

namespace ParamSync
namespace Network

variable {n n' : Network} {c : ClientKey} {s : ServerKey} {l : ListenerKey} {id : ConnectionId}

/-! ## Coherent tables -/

/-- The tables fit together, and no number has been given twice. -/
structure Coherent (n : Network) : Prop where
  server : ∀ s, n.server? s ≠ none → s.val < n.serverCount
  client : ∀ c, n.client? c ≠ none → c.val < n.clientCount
  /-- An endpoint leads to the listener that is bound to it. -/
  endpoint : ∀ p l, n.endpoints[p]? = some l ↔ n.bound? l.server = some (p, l)
  /-- A server end takes the messages of the listener that it has bound, and of no other. -/
  receiver : ∀ s, n.receiver? s = (n.bound? s).map (·.2)
  mailbox : ∀ {s l}, n.receiver? s = some l → n.mailbox? l ≠ none
  /-- A connection in a roster is the link of a client end, and somebody takes its messages. -/
  entry : ∀ {l} {id : ConnectionId} {c : ClientKey}, (n.roster l)[id]? = some c →
    n.link? c = some ⟨id, l⟩ ∧ n.receiver? l.server = some l
  number : ∀ {c link}, n.link? c = some link → link.connection.val ≤ n.connectionCount
  sole : ∀ {c d link link'}, n.link? c = some link → n.link? d = some link' →
    link.connection = link'.connection → c = d

theorem coherent_empty : Coherent {} := by
  constructor <;>
    simp [server?, client?, bound?, receiver?, roster, listener?, link?]

theorem link?_of_client?_eq_none (h : n.client? c = none) : n.link? c = none := by
  rw [link?, h]
  rfl

theorem news_of_client?_eq_none (h : n.client? c = none) : n.news c = [] := by
  rw [news, h]
  rfl

/-- Whom a message over every connection but `exclude` reaches. -/
def reached (n : Network) (s : ServerKey) (exclude : Option ConnectionId) : List ClientKey :=
  ((n.connections s).toList.filter fun p => some p.1 ≠ exclude).map (·.2)

theorem sendToAll_reached (n : Network) (s : ServerKey) (data : Bytes)
    (exclude : Option ConnectionId) :
    n.sendToAll s data exclude = n.tellAll (n.reached s exclude) (.received data) := by
  cases exclude with
  | none => rw [sendToAll_eq, listeners, reached]; simp
  | some id => rw [sendToAll_but, listenersBut, reached]; simp

theorem listeners_eq_reached (n : Network) (s : ServerKey) :
    n.listeners s = n.reached s none := by
  rw [listeners, reached]
  simp

namespace Coherent

theorem socket?_eq (h : Coherent n) (s : ServerKey) : n.socket? s = n.receiver? s := by
  refine Option.ext fun l => ?_
  rw [socket?_eq_some_iff, ← h.receiver]
  exact ⟨fun hl => hl.1, fun hl => ⟨hl, hl, h.mailbox hl⟩⟩

/-- The messages at a listener to which an endpoint leads are taken. -/
theorem receiver_of_endpoint (h : Coherent n) {p : Endpoint} (hp : n.endpoints[p]? = some l) :
    n.receiver? l.server = some l := by
  rw [h.receiver, (h.endpoint p l).1 hp]
  rfl

/-- A server end has bound an endpoint exactly if that leads to a listener of it. -/
theorem endpoint?_eq_some_iff (h : Coherent n) {p : Endpoint} :
    n.endpoint? s = some p ↔ ∃ l, l.server = s ∧ n.endpoints[p]? = some l := by
  rw [endpoint?, Option.map_eq_some_iff]
  constructor
  · rintro ⟨⟨_, l⟩, hbound, rfl⟩
    have hl := server_of_bound? hbound
    exact ⟨l, hl, (h.endpoint _ l).2 (by rw [hl, hbound])⟩
  · rintro ⟨l, rfl, hl⟩
    exact ⟨(p, l), (h.endpoint p l).1 hl, rfl⟩

/-- An endpoint is in the table exactly if one server end has bound it. -/
theorem mem_endpoints_iff (h : Coherent n) {p : Endpoint} :
    p ∈ n.endpoints ↔ ∃! s, n.endpoint? s = some p := by
  rw [Std.ExtTreeMap.mem_iff_isSome_getElem?, Option.isSome_iff_exists]
  constructor
  · rintro ⟨l, hl⟩
    refine ⟨l.server, h.endpoint?_eq_some_iff.2 ⟨l, rfl, hl⟩, fun k hk => ?_⟩
    obtain ⟨m, rfl, hm⟩ := h.endpoint?_eq_some_iff.1 hk
    rw [Option.some.inj (hm.symm.trans hl)]
  · rintro ⟨s, hs, -⟩
    obtain ⟨l, -, hl⟩ := h.endpoint?_eq_some_iff.1 hs
    exact ⟨l, hl⟩

/-- A connection in a roster is open: the client end that it leads to has it as its link. -/
theorem wired_roster (h : Coherent n) (hid : (n.roster l)[id]? = some c) :
    Wired n c l.server id := by
  obtain ⟨hlink, hreceiver⟩ := h.entry hid
  have hsocket : n.socket? l.server = some l := (h.socket?_eq _).trans hreceiver
  exact ⟨⟨l, hlink, hsocket⟩, by rw [connections_of_socket? hsocket, hid]⟩

theorem wired (h : Coherent n) (hid : (n.connections s)[id]? = some c) : Wired n c s id := by
  cases hb : n.bound? s with
  | none =>
    rw [connections_of_bound?_eq_none hb] at hid
    simp at hid
  | some bound =>
    obtain ⟨p, l⟩ := bound
    rw [connections_of_bound? hb] at hid
    rw [← server_of_bound? hb]
    exact h.wired_roster hid

theorem wired_iff (h : Coherent n) : Wired n c s id ↔ (n.connections s)[id]? = some c :=
  ⟨Wired.connection, h.wired⟩

/-- A client end has one open connection at most, and a connection one client end. -/
theorem wired_unique (h : Coherent n) {d : ClientKey} {k : ServerKey} {id' : ConnectionId}
    (hwired : Wired n c s id) (hother : Wired n d k id') : c = d ↔ id = id' := by
  constructor
  · rintro rfl
    exact (hwired.unique hother).2
  · obtain ⟨l, hlink, -⟩ := hwired.link
    obtain ⟨l', hlink', -⟩ := hother.link
    exact fun heq => h.sole hlink hlink' heq

/-- A client end is connected exactly if its link is open at both ends. -/
theorem isConnected_iff (h : Coherent n) : n.isConnected c = true ↔ ∃ s id, Wired n c s id := by
  refine ⟨fun hconnected => ?_, fun ⟨s, id, hwired⟩ => hwired.isConnected⟩
  rw [isConnected] at hconnected
  cases hlink : n.link? c with
  | none => rw [hlink] at hconnected; cases hconnected
  | some link =>
    rw [hlink, Option.any_some, Std.ExtTreeMap.contains_eq_isSome_getElem?] at hconnected
    obtain ⟨d, hd⟩ := Option.isSome_iff_exists.1 hconnected
    obtain rfl : c = d := h.sole hlink (h.entry hd).1 rfl
    exact ⟨link.listener.server, link.connection, h.wired_roster hd⟩

theorem mem_reached_iff {exclude : Option ConnectionId} :
    c ∈ n.reached s exclude ↔ ∃ id, (n.connections s)[id]? = some c ∧ some id ≠ exclude := by
  simp [reached, Std.ExtTreeMap.mem_toList_iff_getElem?_eq_some]

/-- No client end has two connections. -/
theorem nodup_reached (h : Coherent n) (s : ServerKey) (exclude : Option ConnectionId) :
    (n.reached s exclude).Nodup := by
  rw [reached, List.Nodup, List.pairwise_map]
  refine (((pairwise_toList (n.connections s)).filter _).imp_of_mem ?_)
  intro p q hp hq hne heq
  have hwired {p : ConnectionId × ClientKey}
      (hp : p ∈ (n.connections s).toList.filter fun p => some p.1 ≠ exclude) :
      Wired n p.2 s p.1 :=
    h.wired (Std.ExtTreeMap.mem_toList_iff_getElem?_eq_some.1 (List.mem_filter.1 hp).1)
  exact hne ((h.wired_unique (hwired hp) (hwired hq)).1 heq)

/-- A message over every connection but `exclude` reaches a client end that is connected once. -/
theorem count_reached (h : Coherent n) (hwired : Wired n c s id) (exclude : Option ConnectionId) :
    (n.reached s exclude).count c = if some id = exclude then 0 else 1 := by
  have hmem : c ∈ n.reached s exclude ↔ some id ≠ exclude := by
    refine mem_reached_iff.trans
      ⟨fun ⟨id', hid', hne⟩ => ?_, fun hne => ⟨id, hwired.connection, hne⟩⟩
    rwa [(hwired.unique (h.wired hid')).2]
  split
  · next hid => exact List.count_eq_zero.2 fun hc => hmem.1 hc hid
  · next hid => exact List.count_eq_one_of_mem (h.nodup_reached s exclude) (hmem.2 hid)

/-- Nobody else is reached. -/
theorem count_reached_of_not (h : Coherent n) (hnot : ∀ id, ¬ Wired n c s id)
    (exclude : Option ConnectionId) : (n.reached s exclude).count c = 0 := by
  refine List.count_eq_zero.2 fun hc => ?_
  obtain ⟨id, hid, -⟩ := mem_reached_iff.1 hc
  exact hnot id (h.wired hid)

end Coherent

/-! ## Where nothing is bound or opened -/

/-- Nothing was bound, opened or added; connections may have been closed and links forgotten. -/
structure Closes (n n' : Network) : Prop where
  endpoints : n'.endpoints = n.endpoints
  servers : n'.servers = n.servers
  mailbox : ∀ l, n'.mailbox? l = none ↔ n.mailbox? l = none
  client : ∀ c, n'.client? c = none ↔ n.client? c = none
  counts : n'.serverCount = n.serverCount ∧ n'.clientCount = n.clientCount ∧
    n'.connectionCount = n.connectionCount
  entry : ∀ {l} {id : ConnectionId} {c : ClientKey}, (n'.roster l)[id]? = some c →
    (n.roster l)[id]? = some c ∧ n'.link? c = n.link? c
  link : ∀ {c link}, n'.link? c = some link → n.link? c = some link

theorem Coherent.closes (h : Coherent n) (hc : Closes n n') : Coherent n' where
  server s hserver := by
    rw [hc.counts.1]
    exact h.server s (by rwa [server?, ← hc.servers])
  client c hclient := by
    rw [hc.counts.2.1]
    exact h.client c (mt (hc.client c).2 hclient)
  endpoint p l := by rw [hc.endpoints, bound?_congr hc.servers, h.endpoint]
  receiver s := by rw [receiver?_congr hc.servers, bound?_congr hc.servers, h.receiver]
  mailbox hreceiver := by
    rw [receiver?_congr hc.servers] at hreceiver
    exact mt (hc.mailbox _).1 (h.mailbox hreceiver)
  entry hid := by
    obtain ⟨hold, hlink⟩ := hc.entry hid
    rw [hlink, receiver?_congr hc.servers]
    exact h.entry hold
  number hlink := by
    rw [hc.counts.2.2]
    exact h.number (hc.link hlink)
  sole hlink hlink' := h.sole (hc.link hlink) (hc.link hlink')

/-- Nothing was bound, opened, closed or added; only what is under way may have changed. -/
structure SamePorts (n n' : Network) : Prop where
  endpoints : n'.endpoints = n.endpoints
  servers : n'.servers = n.servers
  mailbox : ∀ l, n'.mailbox? l = none ↔ n.mailbox? l = none
  client : ∀ c, n'.client? c = none ↔ n.client? c = none
  counts : n'.serverCount = n.serverCount ∧ n'.clientCount = n.clientCount ∧
    n'.connectionCount = n.connectionCount
  roster : ∀ l, n'.roster l = n.roster l
  link : ∀ c, n'.link? c = n.link? c

theorem SamePorts.sameWires (h : SamePorts n n') : SameWires n n' :=
  .of_tables h.servers h.roster h.mailbox h.link

theorem SamePorts.closes (h : SamePorts n n') : Closes n n' where
  endpoints := h.endpoints
  servers := h.servers
  mailbox := h.mailbox
  client := h.client
  counts := h.counts
  entry hid := by
    rw [h.roster] at hid
    exact ⟨hid, h.link _⟩
  link hlink := h.link _ ▸ hlink

section Queued

variable {added : ClientKey → List LinkEvent}

theorem Queued.samePorts (h : Queued n n' added) : SamePorts n n' := by
  have hlink : ∀ c, n'.link? c = n.link? c := fun c => by
    cases hc : n.client? c with
    | none => rw [link?_of_client?_eq_none hc, link?_of_client?_eq_none (h.gone c hc)]
    | some d =>
      obtain ⟨events, hevents, -⟩ := h.client c d hc
      rw [link?, link?, hc, hevents]
      rfl
  have hlistener : n'.listener? = n.listener? := by
    funext l
    rw [listener?, listener?, h.listening]
  refine ⟨h.endpoints, h.servers, fun l => ?_, fun c => ?_, h.counts, fun l => ?_, hlink⟩
  · rw [mailbox?, mailbox?, hlistener]
  · refine ⟨fun hnone => ?_, h.gone c⟩
    cases hc : n.client? c with
    | none => rfl
    | some d =>
      obtain ⟨events, hevents, -⟩ := h.client c d hc
      rw [hevents] at hnone
      cases hnone
  · rw [roster, roster, hlistener]

theorem Queued.inbox (h : Queued n n' added) (s : ServerKey) : n'.inbox s = n.inbox s := by
  have hmailbox : n'.mailbox? = n.mailbox? := by
    funext l
    rw [mailbox?, mailbox?, listener?, listener?, h.listening]
  rw [Network.inbox, Network.inbox, receiver?_congr h.servers, hmailbox]

/-- What a client end that is there has to hear. -/
theorem Queued.news (h : Queued n n' added) (hc : n.client? c ≠ none) :
    n'.news c = n.news c ++ added c := by
  obtain ⟨d, hd⟩ := Option.ne_none_iff_exists'.1 hc
  obtain ⟨events, hevents, hlist⟩ := h.client c d hd
  rw [Network.news, Network.news, hd, hevents]
  exact hlist

theorem Queued.news_of_nil (h : Queued n n' added) (hnil : added c = []) :
    n'.news c = n.news c := by
  by_cases hc : n.client? c = none
  · rw [news_of_client?_eq_none hc, news_of_client?_eq_none (h.gone c hc)]
  · rw [h.news hc, hnil, List.append_nil]

theorem Coherent.queued (h : Coherent n) (hq : Queued n n' added) : Coherent n' :=
  h.closes hq.samePorts.closes

end Queued

/-! ### Messages of clients -/

/-- Where messages are taken, others come to wait. -/
theorem samePorts_setMailbox (hl : n.mailbox? l ≠ none)
    (waiting : Queue (ConnectionId × Bytes)) : SamePorts n (n.setMailbox l (some waiting)) :=
  ⟨rfl, rfl, mailbox?_setMailbox_eq_none_iff hl waiting, fun _ => Iff.rfl, ⟨rfl, rfl, rfl⟩,
    fun m => n.roster_setMailbox l m _, fun _ => rfl⟩

theorem samePorts_send (n : Network) (c : ClientKey) (data : Bytes) :
    SamePorts n (n.send c data).1 := by
  rcases n.send_cases c data with heq | ⟨link, waiting, -, hwaiting, heq⟩
  · rw [heq]
    exact ⟨rfl, rfl, fun _ => Iff.rfl, fun _ => Iff.rfl, ⟨rfl, rfl, rfl⟩, fun _ => rfl,
      fun _ => rfl⟩
  · rw [heq]
    exact samePorts_setMailbox (hwaiting ▸ Option.some_ne_none _) _

theorem Coherent.send (h : Coherent n) (c : ClientKey) (data : Bytes) :
    Coherent (n.send c data).1 :=
  h.closes (n.samePorts_send c data).closes

/-- A message is accepted exactly if the client end is connected: whoever is connected is connected
to a listener whose messages are taken. -/
theorem Coherent.send_eq (h : Coherent n) (c : ClientKey) (data : Bytes) :
    (n.send c data).2 = if n.isConnected c then .ok () else .error .notConnected := by
  split
  · next hconnected =>
    obtain ⟨s, id, hwired⟩ := h.isConnected_iff.1 hconnected
    exact (hwired.moved_send data).1
  · next hconnected => rw [send_of_not_isConnected (by simpa using hconnected)]

-- tables that no run leaves behind: the roster of a listener whose messages nobody takes
example :
    let l : ListenerKey := ⟨⟨0⟩, 0⟩
    let n : Network := {
      listening := (∅ : Std.ExtTreeMap ListenerKey Listener).insert l
        { connections := (∅ : Std.ExtTreeMap ConnectionId ClientKey).insert ⟨1⟩ ⟨0⟩
          inbound := none }
      clients := (∅ : Std.ExtTreeMap ClientKey ClientEnd).insert ⟨0⟩ { link := some ⟨⟨1⟩, l⟩ } }
    n.isConnected ⟨0⟩ = true ∧ (n.send ⟨0⟩ []).2 = .error (.connectionClosed "conn-1") :=
  ⟨rfl, rfl⟩

/-! ### What is taken -/

theorem samePorts_takeMessage? {m : ConnectionId × Bytes} (h : n.takeMessage? s = some (m, n')) :
    SamePorts n n' := by
  obtain ⟨l, waiting, rest, -, hwaiting, -, rfl⟩ := takeMessage?_eq_some_iff.1 h
  exact samePorts_setMailbox (hwaiting ▸ Option.some_ne_none _) rest

theorem Coherent.takeMessage? (h : Coherent n) {m : ConnectionId × Bytes}
    (ht : n.takeMessage? s = some (m, n')) : Coherent n' :=
  h.closes (samePorts_takeMessage? ht).closes

/-- A client end that is told of the end of its connection, and is not connected, has no link
afterwards. -/
theorem link?_takeEvent? {e : LinkEvent} (h : n.takeEvent? c = some (e, n')) (x : ClientKey) :
    n'.link? x =
      if x = c ∧ e = .disconnected ∧ n.isConnected c = false then none else n.link? x := by
  obtain ⟨d, events, hd, -, rfl⟩ := takeEvent?_ok h
  rw [link?, client?, client?_insert, link?]
  by_cases hx : x = c
  · subst hx
    simp [hd]
  · simp [hx]

theorem news_takeEvent?_of_ne {e : LinkEvent} (h : n.takeEvent? c = some (e, n')) {x : ClientKey}
    (hx : x ≠ c) : n'.news x = n.news x := by
  obtain ⟨d, events, -, -, rfl⟩ := takeEvent?_ok h
  rw [news, client?, client?_insert, if_neg hx, news]

theorem views_takeEvent? {e : LinkEvent} (h : n.takeEvent? c = some (e, n')) :
    n'.roster = n.roster ∧ n'.inbox = n.inbox := by
  obtain ⟨d, events, -, -, rfl⟩ := takeEvent?_ok h
  exact ⟨rfl, rfl⟩

theorem closes_takeEvent? (hn : Coherent n) {e : LinkEvent} (h : n.takeEvent? c = some (e, n')) :
    Closes n n' := by
  have hlink := link?_takeEvent? h
  obtain ⟨d, events, hd, -, rfl⟩ := takeEvent?_ok h
  refine ⟨rfl, rfl, fun _ => Iff.rfl, fun x => ?_, ⟨rfl, rfl, rfl⟩, ?_, ?_⟩
  · rw [client?, client?_insert]
    split
    · next hx => simp [hx, hd]
    · rfl
  · intro l id x hid
    have hold : (n.roster l)[id]? = some x := hid
    refine ⟨hold, ?_⟩
    rw [hlink, if_neg]
    rintro ⟨rfl, -, hnot⟩
    rw [(hn.wired_roster hold).isConnected] at hnot
    cases hnot
  · intro x link hx
    rw [hlink] at hx
    split at hx
    · cases hx
    · exact hx

theorem Coherent.takeEvent? (h : Coherent n) {e : LinkEvent} (ht : n.takeEvent? c = some (e, n')) :
    Coherent n' :=
  h.closes (closes_takeEvent? h ht)

end Network
end ParamSync
