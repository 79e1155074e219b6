import ParamSync.Client

/-!
# What is seen of a network

A network is read at its ends: `inbox` waits at a server end and `news` at a client end, `link?` is
the connection as the client end has it and `connections` are those that the server end has. In
between stands a listener. `socket?` is the one that a server end has bound and also takes the
messages of; `Wired` is a connection that is open from both ends, over such a listener. Each
operation of a peer adds to what waits somewhere or takes from it, and opens and closes nothing.

Results:
* `inbox_setMailbox`, `connections_onRoster`: what the two updates of a listener change.
* `Wired.moved_send`, `moved_takeMessage?`, `moved_takeEvent?`: what the operations do.
* `wired_opened`: a connection that is opened to a listener is open.
-/

namespace ParamSync
namespace Network

variable {n n' n'' : Network} {c : ClientKey} {s k : ServerKey} {l : ListenerKey}
  {id : ConnectionId}

/-! ## The tables -/

theorem server?_onServer (n : Network) (s : ServerKey) (f : ServerEnd → ServerEnd)
    (k : ServerKey) :
    (n.onServer s f).server? k = if k = s then (n.server? k).map f else n.server? k := by
  simp only [server?, onServer, Std.ExtTreeMap.getElem?_modify, Std.compare_eq_iff_eq,
    @eq_comm _ k s]
  split
  · next h => rw [h]
  · rfl

theorem server?_insert (n : Network) (s : ServerKey) (e : ServerEnd) (k : ServerKey) :
    (n.servers.insert s e)[k]? = if k = s then some e else n.server? k := by
  simp only [Std.ExtTreeMap.getElem?_insert, Std.compare_eq_iff_eq, @eq_comm _ k s]
  rfl

theorem client?_onClient (n : Network) (c : ClientKey) (f : ClientEnd → ClientEnd)
    (x : ClientKey) :
    (n.onClient c f).client? x = if x = c then (n.client? x).map f else n.client? x := by
  simp only [client?, onClient, Std.ExtTreeMap.getElem?_modify, Std.compare_eq_iff_eq,
    @eq_comm _ x c]
  split
  · next h => rw [h]
  · rfl

theorem client?_insert (n : Network) (c : ClientKey) (d : ClientEnd) (x : ClientKey) :
    (n.clients.insert c d)[x]? = if x = c then some d else n.client? x := by
  simp only [Std.ExtTreeMap.getElem?_insert, Std.compare_eq_iff_eq, @eq_comm _ x c]
  rfl

theorem client?_tell (n : Network) (c : ClientKey) (e : LinkEvent) (x : ClientKey) :
    (n.tell c e).client? x =
      if x = c then (n.client? x).map fun d => { d with events := d.events.push e }
      else n.client? x :=
  n.client?_onClient c _ x

theorem listener?_onListener (n : Network) (l : ListenerKey) (f : Listener → Listener)
    (m : ListenerKey) :
    (n.onListener l f).listener? m = if m = l then (n.listener? m).map f else n.listener? m := by
  simp only [listener?, onListener, Std.ExtTreeMap.getElem?_modify, Std.compare_eq_iff_eq,
    @eq_comm _ m l]
  split
  · next h => rw [h]
  · rfl

/-! ## Listeners -/

/-- The listener with which a server end has its endpoint bound, if it takes the messages there. -/
def socket? (n : Network) (s : ServerKey) : Option ListenerKey :=
  ((n.bound? s).map (·.2)).filter fun l => n.receiver? s = some l ∧ (n.mailbox? l).isSome

theorem socket?_eq_some_iff : n.socket? s = some l ↔
    (n.bound? s).map (·.2) = some l ∧ n.receiver? s = some l ∧ n.mailbox? l ≠ none := by
  simp [socket?, Option.filter_eq_some_iff, Option.isSome_iff_ne_none]

/-- A listener that a server end has is one of its own. -/
theorem server_of_bound? {p : Endpoint} (h : n.bound? s = some (p, l)) : l.server = s := by
  obtain ⟨_, -, hl⟩ := Option.map_eq_some_iff.1 h
  cases hl
  rfl

theorem server_of_receiver? (h : n.receiver? s = some l) : l.server = s := by
  obtain ⟨_, -, rfl⟩ := Option.map_eq_some_iff.1 h
  rfl

theorem server_of_socket? (h : n.socket? s = some l) : l.server = s :=
  server_of_receiver? (socket?_eq_some_iff.1 h).2.1

theorem bound?_of_server?_eq_none (h : n.server? s = none) : n.bound? s = none := by
  rw [bound?, h]
  rfl

theorem receiver?_of_server?_eq_none (h : n.server? s = none) : n.receiver? s = none := by
  rw [receiver?, h]
  rfl

theorem bound?_congr (h : n'.servers = n.servers) : n'.bound? = n.bound? := by
  funext s
  rw [bound?, bound?, server?, server?, h]

theorem receiver?_congr (h : n'.servers = n.servers) : n'.receiver? = n.receiver? := by
  funext s
  rw [receiver?, receiver?, server?, server?, h]

theorem connections_of_bound? {p : Endpoint} (h : n.bound? s = some (p, l)) :
    n.connections s = n.roster l := by
  rw [connections, h]
  rfl

theorem connections_of_socket? (h : n.socket? s = some l) : n.connections s = n.roster l := by
  obtain ⟨⟨p, l'⟩, hbound, rfl⟩ := Option.map_eq_some_iff.1 (socket?_eq_some_iff.1 h).1
  exact connections_of_bound? hbound

theorem connections_of_bound?_eq_none (h : n.bound? s = none) : n.connections s = ∅ := by
  rw [connections, h]
  rfl

theorem listener?_ne_none (h : n.mailbox? l ≠ none) : n.listener? l ≠ none := by
  intro hnone
  rw [mailbox?, hnone] at h
  exact h rfl

@[simp] theorem roster_setMailbox (n : Network) (l m : ListenerKey)
    (waiting : Option (Queue (ConnectionId × Bytes))) :
    (n.setMailbox l waiting).roster m = n.roster m := by
  rw [roster, setMailbox, listener?_onListener, roster]
  split
  · rw [Option.map_map]
    rfl
  · rfl

theorem mailbox?_setMailbox {waiting : Option (Queue (ConnectionId × Bytes))}
    (hl : n.listener? l = none → waiting = none) (m : ListenerKey) :
    (n.setMailbox l waiting).mailbox? m = if m = l then waiting else n.mailbox? m := by
  rw [mailbox?, setMailbox, listener?_onListener, mailbox?]
  split
  · next hm =>
    subst hm
    cases hv : n.listener? m with
    | none => exact (hl hv).symm
    | some v => rfl
  · rfl

theorem mailbox?_setMailbox_eq_none_iff (hl : n.mailbox? l ≠ none)
    (waiting : Queue (ConnectionId × Bytes)) (m : ListenerKey) :
    (n.setMailbox l (some waiting)).mailbox? m = none ↔ n.mailbox? m = none := by
  rw [mailbox?_setMailbox fun hnone => absurd hnone (listener?_ne_none hl)]
  split
  · next hm => exact iff_of_false (Option.some_ne_none _) (hm ▸ hl)
  · rfl

@[simp] theorem mailbox?_onRoster (n : Network) (l m : ListenerKey)
    (f : Std.ExtTreeMap ConnectionId ClientKey → Std.ExtTreeMap ConnectionId ClientKey) :
    (n.onRoster l f).mailbox? m = n.mailbox? m := by
  rw [mailbox?, onRoster, listener?_onListener, mailbox?]
  split
  · cases n.listener? m <;> rfl
  · rfl

theorem roster_onRoster
    {f : Std.ExtTreeMap ConnectionId ClientKey → Std.ExtTreeMap ConnectionId ClientKey}
    (hf : n.listener? l = none → f ∅ = ∅) (m : ListenerKey) :
    (n.onRoster l f).roster m = if m = l then f (n.roster m) else n.roster m := by
  rw [roster, onRoster, listener?_onListener, roster]
  split
  · next hm =>
    subst hm
    cases hv : n.listener? m with
    | none => exact (hf hv).symm
    | some v => rfl
  · rfl

/-! ## What is under way -/

/-- What waits at a server end, the oldest first. -/
def inbox (n : Network) (s : ServerKey) : List (ConnectionId × Bytes) :=
  (((n.receiver? s).bind n.mailbox?).map (·.toList)).getD []

/-- What waits at a client end, the oldest first. -/
def news (n : Network) (c : ClientKey) : List LinkEvent :=
  ((n.client? c).map (·.events.toList)).getD []

theorem length_inbox (n : Network) (s : ServerKey) :
    (n.inbox s).length = n.waitingMessages s := by
  rw [inbox, waitingMessages]
  cases (n.receiver? s).bind n.mailbox? with
  | none => rfl
  | some waiting => exact waiting.length_toList

theorem length_news (n : Network) (c : ClientKey) : (n.news c).length = n.waitingEvents c := by
  rw [news, waitingEvents]
  cases n.client? c with
  | none => rfl
  | some d => exact d.events.length_toList

theorem inbox_of_receiver? (h : n.receiver? s = some l) :
    n.inbox s = ((n.mailbox? l).map (·.toList)).getD [] := by
  rw [inbox, h, Option.bind_some]

theorem inbox_of_receiver?_eq_none (h : n.receiver? s = none) : n.inbox s = [] := by
  rw [inbox, h]
  rfl

/-- What waits at a listener does not wait at a server end that takes other messages. -/
theorem inbox_setMailbox_of_ne (hs : n.receiver? s ≠ some l) (hl : n.mailbox? l ≠ none)
    (waiting : Option (Queue (ConnectionId × Bytes))) :
    (n.setMailbox l waiting).inbox s = n.inbox s := by
  have hreceiver : (n.setMailbox l waiting).receiver? s = n.receiver? s := rfl
  rw [inbox, hreceiver, inbox]
  cases hr : n.receiver? s with
  | none => rfl
  | some m =>
    have hm : m ≠ l := fun heq => hs (heq ▸ hr)
    rw [Option.bind_some, Option.bind_some,
      mailbox?_setMailbox fun hnone => absurd hnone (listener?_ne_none hl), if_neg hm]

/-- It waits at the one that takes its messages. -/
theorem inbox_setMailbox (hs : n.receiver? l.server = some l) (hl : n.mailbox? l ≠ none)
    (waiting : Queue (ConnectionId × Bytes)) (k : ServerKey) :
    (n.setMailbox l (some waiting)).inbox k =
      if k = l.server then waiting.toList else n.inbox k := by
  split
  · next hk =>
    have hreceiver : (n.setMailbox l (some waiting)).receiver? k = some l := hk ▸ hs
    rw [inbox_of_receiver? hreceiver,
      mailbox?_setMailbox fun hnone => absurd hnone (listener?_ne_none hl), if_pos rfl]
    rfl
  · next hk =>
    exact inbox_setMailbox_of_ne (fun hr => hk (server_of_receiver? hr).symm) hl _

/-- The connections of a server end are those of the listener that it has bound. -/
theorem connections_onRoster (hs : n.socket? s = some l)
    (f : Std.ExtTreeMap ConnectionId ClientKey → Std.ExtTreeMap ConnectionId ClientKey)
    (k : ServerKey) :
    (n.onRoster l f).connections k = if k = s then f (n.connections k) else n.connections k := by
  have hroster : ∀ m, (n.onRoster l f).roster m = if m = l then f (n.roster m) else n.roster m :=
    roster_onRoster fun hnone => absurd hnone (listener?_ne_none (socket?_eq_some_iff.1 hs).2.2)
  split
  · next hk =>
    obtain ⟨⟨p, l'⟩, hbound, rfl⟩ := Option.map_eq_some_iff.1 (socket?_eq_some_iff.1 hs).1
    rw [hk, connections_of_bound? hbound, connections_of_bound? (n := n.onRoster l' f) hbound,
      hroster, if_pos rfl]
  · next hk =>
    cases hb : n.bound? k with
    | none =>
      rw [connections_of_bound?_eq_none hb,
        connections_of_bound?_eq_none (n := n.onRoster l f) hb]
    | some b =>
      obtain ⟨p, m⟩ := b
      have hm : m ≠ l := fun heq => hk <| by
        rw [← server_of_bound? hb, heq, server_of_socket? hs]
      rw [connections_of_bound? hb, connections_of_bound? (n := n.onRoster l f) hb, hroster,
        if_neg hm]

/-! ## Open connections -/

/-- The same connections are open, seen from both ends. -/
structure SameWires (n n' : Network) : Prop where
  connections : ∀ s, n'.connections s = n.connections s
  link : ∀ c, n'.link? c = n.link? c
  socket : ∀ s, n'.socket? s = n.socket? s

/-- Nothing was opened or closed, and what is under way now is `inbox` and `news`. -/
structure Moved (n n' : Network) (inbox : ServerKey → List (ConnectionId × Bytes))
    (news : ClientKey → List LinkEvent) : Prop extends SameWires n n' where
  inbox : ∀ s, n'.inbox s = inbox s
  news : ∀ c, n'.news c = news c

/-- A connection that is open, from both ends. -/
structure Wired (n : Network) (c : ClientKey) (s : ServerKey) (id : ConnectionId) : Prop where
  link : ∃ l, n.link? c = some ⟨id, l⟩ ∧ n.socket? s = some l
  connection : (n.connections s)[id]? = some c

theorem SameWires.refl (n : Network) : SameWires n n := ⟨fun _ => rfl, fun _ => rfl, fun _ => rfl⟩

theorem SameWires.trans (h : SameWires n n') (h' : SameWires n' n'') : SameWires n n'' :=
  ⟨fun s => (h'.connections s).trans (h.connections s), fun c => (h'.link c).trans (h.link c),
    fun s => (h'.socket s).trans (h.socket s)⟩

/-- What a server end has is read from its entry and from its listener. -/
theorem SameWires.of_tables (hservers : n'.servers = n.servers)
    (hroster : ∀ l, n'.roster l = n.roster l)
    (hmailbox : ∀ l, n'.mailbox? l = none ↔ n.mailbox? l = none)
    (hlink : ∀ c, n'.link? c = n.link? c) : SameWires n n' := by
  have hbound := bound?_congr hservers
  have hreceiver := receiver?_congr hservers
  refine ⟨fun s => ?_, hlink, fun s => Option.ext fun l => ?_⟩
  · rw [Network.connections, Network.connections, hbound, funext hroster]
  · rw [socket?_eq_some_iff, socket?_eq_some_iff, hbound, hreceiver, ne_eq, ne_eq, hmailbox]

namespace Wired

variable {k : ServerKey} {id' : ConnectionId}

theorem of_same (h : Wired n c s id) (hs : SameWires n n') : Wired n' c s id := by
  obtain ⟨l, hlink, hsocket⟩ := h.link
  exact ⟨⟨l, (hs.link c).trans hlink, (hs.socket s).trans hsocket⟩,
    by rw [hs.connections, h.connection]⟩

/-- A client end has one open connection at most. -/
theorem unique (h : Wired n c s id) (h' : Wired n c k id') : s = k ∧ id = id' := by
  obtain ⟨l, hlink, hsocket⟩ := h.link
  obtain ⟨l', hlink', hsocket'⟩ := h'.link
  cases hlink.symm.trans hlink'
  exact ⟨(server_of_socket? hsocket).symm.trans (server_of_socket? hsocket'), rfl⟩

theorem link?_ne_none (h : Wired n c s id) : n.link? c ≠ none := by
  obtain ⟨l, hlink, -⟩ := h.link
  rw [hlink]
  exact Option.some_ne_none _

theorem client (h : Wired n c s id) : ∃ d, n.client? c = some d := by
  obtain ⟨l, hlink, -⟩ := h.link
  obtain ⟨d, hd, -⟩ := Option.bind_eq_some_iff.1 hlink
  exact ⟨d, hd⟩

/-- The server end of a connection has bound an endpoint. -/
theorem exists_bound (h : Wired n c s id) : ∃ p l, n.bound? s = some (p, l) := by
  obtain ⟨l, -, hsocket⟩ := h.link
  obtain ⟨⟨p, l⟩, hbound, -⟩ := Option.map_eq_some_iff.1 (socket?_eq_some_iff.1 hsocket).1
  exact ⟨p, l, hbound⟩

/-- A connection that is open has been made by the client end. -/
theorem map_link? (h : Wired n c s id) : (n.link? c).map (·.connection) = some id := by
  obtain ⟨l, hlink, -⟩ := h.link
  rw [hlink]
  rfl

theorem isConnected (h : Wired n c s id) : n.isConnected c = true := by
  obtain ⟨l, hlink, hsocket⟩ := h.link
  rw [Network.isConnected, hlink, Option.any_some, Std.ExtTreeMap.contains_eq_isSome_getElem?,
    ← connections_of_socket? hsocket, h.connection]
  rfl

end Wired

/-! ## What the operations do -/

/-- At a listener that takes messages, others come to wait. -/
theorem moved_setMailbox (hs : n.receiver? l.server = some l) (hl : n.mailbox? l ≠ none)
    (waiting : Queue (ConnectionId × Bytes)) :
    Moved n (n.setMailbox l (some waiting))
      (fun k => if k = l.server then waiting.toList else n.inbox k) n.news where
  toSameWires :=
    .of_tables rfl (fun m => n.roster_setMailbox l m _)
      (mailbox?_setMailbox_eq_none_iff hl waiting) fun _ => rfl
  inbox := inbox_setMailbox hs hl waiting
  news _ := rfl

/-- What a client sends comes to wait at the listener of its link, or nothing happens. -/
theorem send_cases (n : Network) (c : ClientKey) (data : Bytes) :
    (n.send c data).1 = n ∨ ∃ link waiting, n.link? c = some link ∧
      n.mailbox? link.listener = some waiting ∧
      (n.send c data).1 =
        n.setMailbox link.listener (some (waiting.push (link.connection, data))) := by
  unfold send
  split
  · exact .inl rfl
  · next link hlink =>
    split
    · exact .inl rfl
    · next waiting hwaiting =>
      exact .inr ⟨link, waiting, (Option.filter_eq_some_iff.1 hlink).1, hwaiting, rfl⟩

/-- What a client end sends tells it nothing. -/
theorem news_send (n : Network) (c : ClientKey) (data : Bytes) (x : ClientKey) :
    (n.send c data).1.news x = n.news x := by
  rcases n.send_cases c data with heq | ⟨link, waiting, -, -, heq⟩
  · rw [heq]
  · rw [heq]
    rfl

/-- A message that is sent while the connection is open comes to wait at the listener. -/
theorem Wired.send_eq (h : Wired n c s id) (data : Bytes) :
    ∃ l waiting, n.socket? s = some l ∧ n.mailbox? l = some waiting ∧
      n.send c data = (n.setMailbox l (some (waiting.push (id, data))), .ok ()) := by
  obtain ⟨l, hlink, hsocket⟩ := h.link
  obtain ⟨waiting, hwaiting⟩ :=
    Option.ne_none_iff_exists'.1 (socket?_eq_some_iff.1 hsocket).2.2
  refine ⟨l, waiting, hsocket, hwaiting, ?_⟩
  simp only [send, hlink, h.isConnected, Option.filter_some, if_true, hwaiting]

/-- What a client sends waits at the server end, after all that waits there. -/
theorem Wired.moved_send (h : Wired n c s id) (data : Bytes) :
    (n.send c data).2 = .ok () ∧
      Moved n (n.send c data).1
        (fun k => if k = s then n.inbox k ++ [(id, data)] else n.inbox k) n.news := by
  obtain ⟨l, waiting, hsocket, hwaiting, hsend⟩ := h.send_eq data
  obtain ⟨-, hreceiver, hl⟩ := socket?_eq_some_iff.1 hsocket
  obtain rfl := server_of_socket? hsocket
  have hmoved := moved_setMailbox hreceiver hl (waiting.push (id, data))
  rw [hsend]
  refine ⟨rfl, hmoved.toSameWires, fun k => (hmoved.inbox k).trans ?_, hmoved.news⟩
  split
  · next hk => rw [hk, inbox_of_receiver? hreceiver, hwaiting]; exact Queue.toList_push _ _
  · rfl

/-- What is sent by a client end that is not connected is refused, and changes nothing. -/
theorem send_of_not_isConnected (h : n.isConnected c = false) (data : Bytes) :
    n.send c data = (n, .error .notConnected) := by
  have hnone : (n.link? c).filter (fun _ => n.isConnected c) = none := by
    rw [h]
    cases n.link? c <;> rfl
  rw [send, hnone]

theorem takeMessage?_eq_some_iff {m : ConnectionId × Bytes} :
    n.takeMessage? s = some (m, n') ↔ ∃ l waiting rest, n.receiver? s = some l ∧
      n.mailbox? l = some waiting ∧ waiting.pop? = some (m, rest) ∧
      n' = n.setMailbox l (some rest) := by
  rw [takeMessage?, Option.bind_eq_some_iff]
  constructor
  · rintro ⟨l, hreceiver, h⟩
    obtain ⟨⟨_, rest⟩, hpop, h⟩ := Option.map_eq_some_iff.1 h
    obtain ⟨waiting, hwaiting, hpop⟩ := Option.bind_eq_some_iff.1 hpop
    cases h
    exact ⟨l, waiting, rest, hreceiver, hwaiting, hpop, rfl⟩
  · rintro ⟨l, waiting, rest, hreceiver, hwaiting, hpop, rfl⟩
    refine ⟨l, hreceiver, ?_⟩
    rw [hwaiting, Option.bind_some, hpop]
    rfl

/-- A message that is taken was the oldest. -/
theorem moved_takeMessage? {m : ConnectionId × Bytes} (h : n.takeMessage? s = some (m, n')) :
    ∃ rest, n.inbox s = m :: rest ∧
      Moved n n' (fun k => if k = s then rest else n.inbox k) n.news := by
  obtain ⟨l, waiting, rest, hreceiver, hwaiting, hpop, rfl⟩ := takeMessage?_eq_some_iff.1 h
  obtain rfl := server_of_receiver? hreceiver
  refine ⟨rest.toList, ?_, moved_setMailbox hreceiver (hwaiting ▸ Option.some_ne_none _) rest⟩
  rw [inbox_of_receiver? hreceiver, hwaiting]
  exact Queue.toList_of_pop? hpop

theorem inbox_of_takeMessage?_eq_none (h : n.takeMessage? s = none) : n.inbox s = [] := by
  cases hreceiver : n.receiver? s with
  | none => exact inbox_of_receiver?_eq_none hreceiver
  | some l =>
    rw [inbox_of_receiver? hreceiver]
    cases hwaiting : n.mailbox? l with
    | none => rfl
    | some waiting =>
      rw [takeMessage?, hreceiver, Option.bind_some, hwaiting, Option.bind_some,
        Option.map_eq_none_iff] at h
      exact Queue.pop?_eq_none_iff.1 h

/-- What waits first is taken next. -/
theorem map_fst_takeMessage? (n : Network) (s : ServerKey) :
    (n.takeMessage? s).map (·.1) = (n.inbox s).head? := by
  cases ht : n.takeMessage? s with
  | none => rw [inbox_of_takeMessage?_eq_none ht]; rfl
  | some taken =>
    obtain ⟨rest, hinbox, -⟩ := moved_takeMessage? ht
    rw [hinbox]
    rfl

/-- What is left when an event is taken. -/
theorem takeEvent?_ok {e : LinkEvent} (h : n.takeEvent? c = some (e, n')) :
    ∃ d events, n.client? c = some d ∧ d.events.toList = e :: events.toList ∧
      n' = { n with
        clients := n.clients.insert c
          ⟨if e = .disconnected && !n.isConnected c then none else d.link, events⟩ } := by
  unfold takeEvent? at h
  cases hd : n.client? c with
  | none => rw [hd] at h; cases h
  | some d =>
    rw [hd] at h
    dsimp only at h
    cases hpop : d.events.pop? with
    | none => rw [hpop] at h; cases h
    | some popped =>
      obtain ⟨e', events⟩ := popped
      rw [hpop] at h
      obtain ⟨rfl, rfl⟩ := Prod.mk.inj (Option.some.inj h)
      exact ⟨d, events, rfl, Queue.toList_of_pop? hpop, rfl⟩

/-- An event that is taken was the oldest. -/
theorem news_takeEvent? {e : LinkEvent} (h : n.takeEvent? c = some (e, n')) :
    n.news c = e :: n'.news c := by
  obtain ⟨d, events, hd, hevents, rfl⟩ := takeEvent?_ok h
  rw [news, hd, Option.map_some, Option.getD_some, hevents, news, client?, client?_insert,
    if_pos rfl]
  rfl

theorem news_of_takeEvent?_eq_none (h : n.takeEvent? c = none) : n.news c = [] := by
  unfold takeEvent? at h
  rw [news]
  cases hd : n.client? c with
  | none => rfl
  | some d =>
    rw [hd] at h
    dsimp only at h
    cases hpop : d.events.pop? with
    | none => exact Queue.pop?_eq_none_iff.1 hpop
    | some popped => rw [hpop] at h; cases h

/-- What is under way when an event is taken that is not the end of the connection. -/
theorem moved_takeEvent? {e : LinkEvent} (h : n.takeEvent? c = some (e, n'))
    (he : e ≠ .disconnected) :
    Moved n n' n.inbox (fun x => if x = c then n'.news c else n.news x) := by
  obtain ⟨d, events, hd, -, rfl⟩ := takeEvent?_ok h
  have hlink : (if (decide (e = .disconnected) && !n.isConnected c) = true then none
      else d.link) = d.link := by simp [he]
  rw [hlink]
  have hclient : ∀ x, ({ n with clients := n.clients.insert c ⟨d.link, events⟩ } :
      Network).client? x = if x = c then some ⟨d.link, events⟩ else n.client? x :=
    n.client?_insert c _
  refine ⟨⟨fun _ => rfl, fun x => ?_, fun _ => rfl⟩, fun _ => rfl, fun x => ?_⟩
  · rw [link?, hclient]
    split
    · next hx => rw [hx, link?, hd]; rfl
    · rfl
  · split
    · next hx => rw [hx]
    · next hx => rw [news, hclient, if_neg hx, news]

theorem sameWires_tell (n : Network) (c : ClientKey) (e : LinkEvent) :
    SameWires n (n.tell c e) := by
  refine ⟨fun _ => rfl, fun x => ?_, fun _ => rfl⟩
  rw [link?, client?_tell, link?]
  split
  · cases n.client? x <;> rfl
  · rfl

/-- A client end that is there hears what it is told, after all that it has to hear. -/
theorem news_tell (hc : n.client? c ≠ none) (e : LinkEvent) :
    (n.tell c e).news c = n.news c ++ [e] := by
  obtain ⟨d, hd⟩ := Option.ne_none_iff_exists'.1 hc
  rw [news, client?_tell, if_pos rfl, news, hd]
  exact Queue.toList_push _ _

theorem news_tell_of_ne {x : ClientKey} (hx : x ≠ c) (e : LinkEvent) :
    (n.tell c e).news x = n.news x := by
  rw [news, client?_tell, if_neg hx, news]

/-- What is sent over an open connection of a bound end is told to the client end that it leads to,
if that is still there. -/
theorem sendToOne_eq (hbound : (n.endpoint? s).isSome = true)
    (hid : (n.connections s)[id]? = some c) (data : Bytes) :
    n.sendToOne s data id =
      if n.clients.contains c then (n.tell c (.received data), .ok ())
      else (n, .error (.connectionClosed id.text)) := by
  obtain ⟨p, hp⟩ := Option.isSome_iff_exists.1 hbound
  obtain ⟨⟨p, l⟩, hb, rfl⟩ := Option.map_eq_some_iff.1 hp
  rw [connections_of_bound? hb] at hid
  rw [sendToOne, hb]
  dsimp only
  rw [hid]

theorem Wired.sendToOne (h : Wired n c s id) (data : Bytes) :
    n.sendToOne s data id = (n.tell c (.received data), .ok ()) := by
  obtain ⟨d, hd⟩ := h.client
  obtain ⟨p, l, hbound⟩ := h.exists_bound
  have hendpoint : (n.endpoint? s).isSome = true := by rw [endpoint?, hbound]; rfl
  have hthere : n.clients.contains c = true := by
    rw [Std.ExtTreeMap.contains_eq_isSome_getElem?, ← client?, hd]
    rfl
  rw [sendToOne_eq hendpoint h.connection, if_pos hthere]

/-! ## Opening a connection -/

theorem client?_opened (n : Network) (c : ClientKey) (l : ListenerKey) (x : ClientKey) :
    (n.opened c l).client? x =
      if x = c then (n.client? x).map fun d =>
        ⟨some ⟨⟨n.connectionCount + 1⟩, l⟩, d.events.push .connected⟩
      else n.client? x := by
  rw [opened, client?_tell, client?_onClient]
  split
  · rw [Option.map_map]; rfl
  · rfl

theorem roster_opened (hl : n.mailbox? l ≠ none) (c : ClientKey) (m : ListenerKey) :
    (n.opened c l).roster m =
      if m = l then (n.roster m).insert ⟨n.connectionCount + 1⟩ c else n.roster m :=
  roster_onRoster (f := (·.insert ⟨n.connectionCount + 1⟩ c))
    (fun hnone => absurd hnone (listener?_ne_none hl)) m

theorem mailbox?_opened (n : Network) (c : ClientKey) (l m : ListenerKey) :
    (n.opened c l).mailbox? m = n.mailbox? m :=
  n.mailbox?_onRoster l m (·.insert ⟨n.connectionCount + 1⟩ c)

theorem socket?_opened (n : Network) (c : ClientKey) (l : ListenerKey) (k : ServerKey) :
    (n.opened c l).socket? k = n.socket? k := by
  refine Option.ext fun m => ?_
  rw [socket?_eq_some_iff, socket?_eq_some_iff, mailbox?_opened]
  rfl

theorem inbox_opened (n : Network) (c : ClientKey) (l : ListenerKey) (k : ServerKey) :
    (n.opened c l).inbox k = n.inbox k := by
  rw [inbox, inbox, funext (n.mailbox?_opened c l)]
  rfl

theorem connections_opened (hs : n.socket? s = some l) (c : ClientKey) (k : ServerKey) :
    (n.opened c l).connections k =
      if k = s then (n.connections k).insert ⟨n.connectionCount + 1⟩ c else n.connections k :=
  connections_onRoster hs (·.insert ⟨n.connectionCount + 1⟩ c) k

section Opened

variable (hc : n.client? c ≠ none)
include hc

theorem link?_opened (l : ListenerKey) (x : ClientKey) :
    (n.opened c l).link? x =
      if x = c then some ⟨⟨n.connectionCount + 1⟩, l⟩ else n.link? x := by
  rw [link?, client?_opened, link?]
  split
  · next hx =>
    obtain ⟨d, hd⟩ := Option.ne_none_iff_exists'.1 hc
    simp [hx, hd]
  · rfl

theorem news_opened (l : ListenerKey) (x : ClientKey) :
    (n.opened c l).news x = if x = c then n.news x ++ [.connected] else n.news x := by
  rw [news, client?_opened, news]
  split
  · next hx =>
    obtain ⟨d, hd⟩ := Option.ne_none_iff_exists'.1 hc
    simp [hx, hd]
  · rfl

/-- A connection that was opened is open. -/
theorem wired_opened (hs : n.socket? s = some l) :
    Wired (n.opened c l) c s ⟨n.connectionCount + 1⟩ := by
  refine ⟨⟨l, by rw [link?_opened hc, if_pos rfl], (n.socket?_opened c l s).trans hs⟩, ?_⟩
  rw [connections_opened hs, if_pos rfl, Std.ExtTreeMap.getElem?_insert_self]

end Opened

end Network
end ParamSync
