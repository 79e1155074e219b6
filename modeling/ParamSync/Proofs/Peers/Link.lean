import ParamSync.Proofs.Peers.Views

/-!
# One connection

What a peer does on the network is seen by another only through the queues at the two ends of their
connection. `Linked` says of a network that such a connection is open and what waits at its ends;
each operation of a peer then adds to one of the two lists or takes from it, and opens and closes
nothing.

Results:
* `linked_joined`: a new client end that connects is linked.
* `Linked.send`, `Linked.sendEach`, `Linked.takeMessage?`, `Linked.takeEvent?`: what the operations
  do to the lists.
* `Linked.poll`: a client that polls handles every message that waits.
-/

namespace ParamSync
namespace Network

variable {n n' base : Network} {c : ClientKey} {s : ServerKey} {l : ListenerKey}
  {id : ConnectionId} {inbox : List (ConnectionId × Bytes)} {events : List LinkEvent}

/-- The connection is open, `inbox` waits at its server end and `events` at its client end. All
connections are as they are in `base`, and so is what waits at all other server ends. -/
structure Linked (base : Network) (c : ClientKey) (s : ServerKey) (id : ConnectionId)
    (inbox : List (ConnectionId × Bytes)) (events : List LinkEvent) (n : Network) : Prop where
  wired : Wired n c s id
  connections : ∀ k, n.connections k = base.connections k
  inbox : ∀ k, n.inbox k = if k = s then inbox else base.inbox k
  news : n.news c = events

/-! ## Opening a connection -/

/-- The network once a new client end has connected. -/
def joined (n : Network) (endpoint : Endpoint) : Network :=
  (n.addClient.2.connect n.addClient.1 endpoint).1

section Joined

variable {endpoint : Endpoint} (hbound : n.endpoints[endpoint]? = some l)
include hbound

theorem joined_eq : n.joined endpoint = n.addClient.2.opened n.addClient.1 l := by
  have hnew : n.addClient.2.link? n.addClient.1 = none := by
    rw [link?, client?, addClient, client?_insert, if_pos rfl]
    rfl
  have hdisconnect : n.addClient.2.disconnect n.addClient.1 = n.addClient.2 := by
    rw [disconnect, hnew]
  have hendpoints : n.addClient.2.endpoints[endpoint]? = some l := hbound
  rw [joined, connect, hdisconnect]
  simp only [hendpoints]

/-- A connection brings no messages. -/
theorem waitingMessages_joined (k : ServerKey) :
    (n.joined endpoint).waitingMessages k = n.waitingMessages k := by
  rw [joined_eq hbound, ← length_inbox, inbox_opened]
  exact n.length_inbox k

/-- A new client end that connects to a bound endpoint, where no message waits, is linked, and is
told so. -/
theorem linked_joined (hsocket : n.socket? s = some l) (hquiet : n.waitingMessages s = 0) :
    Linked (n.joined endpoint) n.addClient.1 s ⟨n.connectionCount + 1⟩ [] [.connected]
      (n.joined endpoint) := by
  have hnew : n.addClient.2.client? n.addClient.1 = some {} := by
    rw [client?, addClient, client?_insert, if_pos rfl]
  have hthere : n.addClient.2.client? n.addClient.1 ≠ none := hnew ▸ Option.some_ne_none _
  refine ⟨?_, fun _ => rfl, fun k => ?_, ?_⟩
  · rw [joined_eq hbound]
    exact wired_opened hthere hsocket
  · split
    · next hk =>
      rw [← List.length_eq_zero_iff, length_inbox, waitingMessages_joined hbound, hk, hquiet]
    · rfl
  · rw [joined_eq hbound, news_opened hthere, if_pos rfl, news, hnew]
    rfl

end Joined

namespace Linked

theorem waitingEvents (h : Linked base c s id inbox events n) :
    n.waitingEvents c = events.length := by
  rw [← length_news, h.news]

theorem inbox_eq (h : Linked base c s id inbox events n) : n.inbox s = inbox := by
  rw [h.inbox, if_pos rfl]

theorem waitingMessages (h : Linked base c s id inbox events n) :
    n.waitingMessages s = inbox.length := by
  rw [← length_inbox, h.inbox_eq]

theorem waitingMessages_other (h : Linked base c s id inbox events n) {k : ServerKey} (hk : k ≠ s) :
    n.waitingMessages k = base.waitingMessages k := by
  rw [← length_inbox, ← length_inbox, h.inbox, if_neg hk]

/-- What an operation moves is seen at the two ends. -/
theorem of_moved {inbox' : ServerKey → List (ConnectionId × Bytes)}
    {events' : ClientKey → List LinkEvent} (h : Linked base c s id inbox events n)
    (hmoved : Moved n n' inbox' events') (hothers : ∀ k, k ≠ s → inbox' k = n.inbox k) :
    Linked base c s id (inbox' s) (events' c) n' where
  wired := h.wired.of_same hmoved.toSameWires
  connections k := (hmoved.connections k).trans (h.connections k)
  inbox k := by
    rw [hmoved.inbox]
    split
    · next hk => rw [hk]
    · next hk => rw [hothers k hk, h.inbox, if_neg hk]
  news := hmoved.news c

/-! ## From the client -/

theorem isConnected (h : Linked base c s id inbox events n) : n.isConnected c = true :=
  h.wired.isConnected

/-- What a client sends waits at the server end. -/
theorem send (h : Linked base c s id inbox events n) (data : Bytes) :
    Linked base c s id (inbox ++ [(id, data)]) events (n.send c data).1 := by
  have hsent := h.of_moved (h.wired.moved_send data).2 fun k hk => if_neg hk
  rwa [if_pos rfl, h.inbox_eq, h.news] at hsent

/-- The oldest event is taken. -/
theorem takeEvent? {e : LinkEvent} (h : Linked base c s id inbox (e :: events) n)
    (he : e ≠ .disconnected) :
    ∃ n', n.takeEvent? c = some (e, n') ∧ Linked base c s id inbox events n' := by
  cases htake : n.takeEvent? c with
  | none => cases h.news.symm.trans (news_of_takeEvent?_eq_none htake)
  | some taken =>
    obtain ⟨e', n'⟩ := taken
    have hnews := h.news.symm.trans (news_takeEvent? htake)
    obtain ⟨rfl, rfl⟩ := List.cons.inj hnews
    have htaken := h.of_moved (moved_takeEvent? htake he) fun _ _ => rfl
    rw [if_pos rfl, h.inbox_eq] at htaken
    exact ⟨n', rfl, htaken⟩

/-! ## From the server -/

/-- The client end is told something. -/
theorem tell (h : Linked base c s id inbox events n) (e : LinkEvent) :
    Linked base c s id inbox (events ++ [e]) (n.tell c e) where
  wired := h.wired.of_same (n.sameWires_tell c e)
  connections := h.connections
  inbox := h.inbox
  news := by
    obtain ⟨d, hd⟩ := h.wired.client
    rw [news_tell (hd ▸ Option.some_ne_none d), h.news]

/-- Another client end is told something. -/
theorem tell_other (h : Linked base c s id inbox events n) {c' : ClientKey} (hc : c' ≠ c)
    (e : LinkEvent) : Linked base c s id inbox events (n.tell c' e) where
  wired := h.wired.of_same (n.sameWires_tell c' e)
  connections := h.connections
  inbox := h.inbox
  news := (news_tell_of_ne hc.symm e).trans h.news

/-- What the server sends over the connection waits at the client end. -/
theorem sendEach (h : Linked base c s id inbox events n) (messages : List Bytes) :
    Linked base c s id inbox (events ++ messages.map .received) (n.sendEach s id messages) := by
  induction messages generalizing n events with
  | nil => rwa [List.map_nil, List.append_nil]
  | cons data messages ih =>
    rw [Network.sendEach, h.wired.sendToOne]
    have hrest := ih (h.tell (.received data))
    rwa [List.append_assoc] at hrest

/-- The oldest message is taken. -/
theorem takeMessage? {m : ConnectionId × Bytes} (h : Linked base c s id (m :: inbox) events n) :
    ∃ n', n.takeMessage? s = some (m, n') ∧ Linked base c s id inbox events n' := by
  cases htake : n.takeMessage? s with
  | none => cases h.inbox_eq.symm.trans (inbox_of_takeMessage?_eq_none htake)
  | some taken =>
    obtain ⟨m', n'⟩ := taken
    obtain ⟨rest, hrest, hmoved⟩ := moved_takeMessage? htake
    obtain ⟨rfl, rfl⟩ := List.cons.inj (h.inbox_eq.symm.trans hrest)
    have htaken := h.of_moved hmoved fun k hk => if_neg hk
    rw [if_pos rfl, h.news] at htaken
    exact ⟨n', rfl, htaken⟩

/-! ## A poll -/

theorem drain {messages : List Bytes} (h : Linked base c s id inbox (messages.map .received) n)
    (client : Client) (handled : Nat) (notices : List ClientNotice) :
    let after := Client.drain (.ofNetwork c) messages.length (client, n, handled, notices)
    after.1 = messages.foldl (fun client data => (client.receive data).1) client ∧
      Linked base c s id inbox [] after.2.1 := by
  induction messages generalizing client n handled notices with
  | nil => exact ⟨rfl, h⟩
  | cons data messages ih =>
    obtain ⟨n', htake, h'⟩ := h.takeEvent? (by simp)
    have hstep : Client.drain (.ofNetwork c) (messages.length + 1) (client, n, handled, notices) =
        Client.drain (.ofNetwork c) messages.length ((client.receive data).1, n', handled + 1,
          (client.receive data).2.reverse ++ notices) := by
      rw [Client.drain]
      have ht : (ClientTransport.ofNetwork c).takeEvent? n = some (.received data, n') := htake
      rw [ht]
      rfl
    rw [List.length_cons, hstep]
    exact ih h' _ _ _

/-- A client that polls handles the messages that wait, one by one. -/
theorem poll {messages : List Bytes} (h : Linked base c s id inbox (messages.map .received) n)
    (client : Client) :
    let after := client.poll (.ofNetwork c) n
    after.1 = messages.foldl (fun client data => (client.receive data).1) client ∧
      Linked base c s id inbox [] after.2.1 := by
  have hwaiting : (ClientTransport.ofNetwork c).waiting n = messages.length := by
    have := h.waitingEvents
    rwa [List.length_map] at this
  have hdrain := h.drain client 0 []
  unfold Client.poll
  rw [hwaiting]
  exact hdrain

end Linked
end Network
end ParamSync
