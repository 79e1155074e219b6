import ParamSync.Proofs.Peers.Calls
import ParamSync.Proofs.Peers.Outbox

/-!
# What a client does, written down

A client goes by what it sees of its connection, so it does the same at an end of a network whether
or not a journal is kept of what is done. From the journal it can be said which messages a client end
has received over which of its connections, though the events that it was told do not say it.

Results:
* `Client.poll_of_shows`, `Client.update_of_shows`: what a client does goes by what it sees.
* `Journal.shows_network`: at an end of which a journal is kept it sees the network.
* `Journal.flush_eq`: what a client that is connected sends is posted to its server end.
* `Journal.Sound.addressed`: what was received over a connection was addressed to it.
* `Journal.Sound.received_iff`: what was heard was received over the connection that is open exactly
  if no end of an older one waits to be told.
-/

namespace ParamSync

open Network (Wired)

/-! ## What a client sees of its connection -/

section Shows

variable {σ τ : Type} {t : ClientTransport σ} {u : ClientTransport τ} {f : σ → τ}

/-- What `f` shows of one connection is another one, which answers the same. -/
structure ClientTransport.Shows (t : ClientTransport σ) (f : σ → τ) (u : ClientTransport τ) :
    Prop where
  disconnect : ∀ s, u.disconnect (f s) = f (t.disconnect s)
  isConnected : ∀ s, u.isConnected (f s) = t.isConnected s
  send : ∀ data s, u.send data (f s) = (f (t.send data s).1, (t.send data s).2)
  waiting : ∀ s, u.waiting (f s) = t.waiting s
  takeEvent? : ∀ s, u.takeEvent? (f s) = (t.takeEvent? s).map fun taken => (taken.1, f taken.2)

namespace Client

theorem flush_of_shows (h : t.Shows f u) (sent : Nat) (outbox : List Bytes) (s : σ) :
    flush u sent outbox (f s) = ((flush t sent outbox s).1, f (flush t sent outbox s).2.1,
      (flush t sent outbox s).2.2) := by
  induction outbox generalizing sent s with
  | nil => rfl
  | cons data rest ih =>
    simp only [flush, h.send]
    rcases t.send data s with ⟨s', _ | _⟩
    · rfl
    · exact ih (sent + 1) s'

theorem handle_of_shows (h : t.Shows f u) (c : Client) (s : σ) (e : LinkEvent) :
    handle u c (f s) e = ((handle t c s e).1, f (handle t c s e).2.1, (handle t c s e).2.2) := by
  cases e with
  | connected =>
    have hsends : ∀ s data, (u.send data (f s)).1 = f (t.send data s).1 := fun s data => by
      rw [h.send]
    simp only [handle]
    rw [List.foldl_hom f hsends]
  | disconnected => rfl
  | received data => rfl

theorem drain_of_shows (h : t.Shows f u) (n : Nat) (c : Client) (s : σ) (handled : Nat)
    (notices : List ClientNotice) :
    drain u n (c, f s, handled, notices) =
      ((drain t n (c, s, handled, notices)).1, f (drain t n (c, s, handled, notices)).2.1,
        (drain t n (c, s, handled, notices)).2.2) := by
  induction n generalizing c s handled notices with
  | zero => rfl
  | succ n ih =>
    simp only [drain, h.takeEvent?]
    rcases t.takeEvent? s with _ | ⟨e, s'⟩
    · rfl
    · simp only [Option.map_some, handle_of_shows h]
      exact ih _ _ _ _

theorem poll_of_shows (h : t.Shows f u) (c : Client) (s : σ) :
    c.poll u (f s) = ((c.poll t s).1, f (c.poll t s).2.1, (c.poll t s).2.2) := by
  simp only [poll, h.waiting, drain_of_shows h]

theorem update_of_shows (h : t.Shows f u) (c : Client) (s : σ) :
    c.update u (f s) = ((c.update t s).1, f (c.update t s).2.1, (c.update t s).2.2) := by
  have hdrained : c.drained u (f s) = c.drained t s := by rw [drained, drained, h.isConnected]
  rw [update_eq, update_eq, h.isConnected, hdrained]
  split
  · simp only [flush_of_shows h]
  · rfl

end Client
end Shows

/-! ## What is done, written down -/

namespace Network

variable {n : Network} {op : Op}

/-- An operation that asks for an endpoint. -/
def Op.Opens : Op → Prop
  | bind _ _ | connect _ _ => True
  | _ => False

/-- An end that is not there closes, sends and takes nothing. -/
theorem perform_of_dead (h : ¬ op.Live n) (hop : ¬ op.Opens) : n.perform op = n := by
  cases op with
  | addServer => exact absurd trivial h
  | addClient => exact absurd trivial h
  | bind s p => exact absurd trivial hop
  | unbind s => exact unbind_of_none (bound?_of_server?_eq_none (not_not.1 h))
  | connect c p => exact absurd trivial hop
  | disconnect c => exact disconnect_of_none (link?_of_client?_eq_none (not_not.1 h))
  | send c data =>
    have hclosed := isConnected_of_link?_eq_none (link?_of_client?_eq_none (not_not.1 h))
    rw [perform, send_of_not_isConnected hclosed]
  | sendToOne s data id => rw [perform, sendToOne, bound?_of_server?_eq_none (not_not.1 h)]
  | sendToAll s data exclude =>
    rw [perform, sendToAll, connections_of_bound?_eq_none (bound?_of_server?_eq_none (not_not.1 h))]
    rfl
  | takeMessage s =>
    rw [perform, takeMessage?, receiver?_of_server?_eq_none (not_not.1 h)]
    rfl
  | takeEvent c =>
    rw [perform, takeEvent?, not_not.1 h]
    rfl

end Network

namespace Journal

variable {j : Journal} {c : ClientKey} {s : ServerKey} {id : ConnectionId}

theorem network_record (j : Journal) (op : Network.Op) :
    (j.record op).network = j.network.perform op := by
  cases op with
  | sendToOne s data id =>
    simp only [record]
    split <;> rfl
  | send c data =>
    simp only [record]
    split <;> rfl
  | _ => rfl

theorem network_play (j : Journal) (op : Network.Op) (hop : ¬ op.Opens) :
    (j.play op).network = j.network.perform op := by
  rw [play]
  split
  · exact j.network_record op
  · next hdead => exact (Network.perform_of_dead hdead hop).symm

/-- Only what a client end takes is told to it. -/
theorem told_play (j : Journal) (op : Network.Op) (h : op ≠ .takeEvent c) :
    (j.play op).told c = j.told c := by
  rw [play]
  split
  · cases op with
    | takeEvent d => exact Function.update_of_ne (fun hd => h (congrArg _ hd.symm)) _ _
    | sendToOne s data id =>
      simp only [record]
      split <;> rfl
    | send d data =>
      simp only [record]
      split <;> rfl
    | _ => rfl
  · rfl

theorem play_send (h : Wired j.network c s id) (data : Bytes) :
    j.play (.send c data) = j.record (.send c data) := by
  have hlive : Network.Op.Live j.network (.send c data) := by
    obtain ⟨d, hd⟩ := h.client
    show j.network.client? c ≠ none
    rw [hd]
    exact Option.some_ne_none d
  rw [play, if_pos hlive]

/-- A message that a client end sends is posted once, or is refused. -/
theorem posted_send (j : Journal) (c : ClientKey) (data : Bytes) (s : ServerKey) :
    (j.play (.send c data)).posted s = j.posted s ∨
      ∃ id, (j.play (.send c data)).posted s = j.posted s ++ [(id, data)] := by
  rw [play]
  split
  · simp only [record]
    split
    · next l _ _ =>
      dsimp only
      rw [Function.update_apply]
      split
      · next hs => exact .inr ⟨l.connection, by rw [hs]⟩
      · exact .inl rfl
    · exact .inl rfl
  · exact .inl rfl

end Journal

/-- A client end of a network, with what is done on the network written down. -/
def ClientTransport.ofJournal (c : ClientKey) : ClientTransport Journal where
  connect endpoint j := (j.play (.connect c endpoint), (j.network.connect c endpoint).2)
  disconnect j := j.play (.disconnect c)
  isConnected j := j.network.isConnected c
  send data j := (j.play (.send c data), (j.network.send c data).2)
  waiting j := j.network.waitingEvents c
  takeEvent? j := (j.network.takeEvent? c).map fun taken => (taken.1, j.play (.takeEvent c))

namespace Journal

variable {j j' : Journal} {c : ClientKey} {s : ServerKey} {id : ConnectionId} {e : LinkEvent}

/-- That it is written down changes nothing. -/
theorem shows_network (c : ClientKey) :
    (ClientTransport.ofJournal c).Shows Journal.network (.ofNetwork c) where
  disconnect j := (j.network_play (.disconnect c) not_false).symm
  isConnected _ := rfl
  send data j := Prod.ext (j.network_play (.send c data) not_false).symm rfl
  waiting _ := rfl
  takeEvent? j := by
    have hnetwork : (j.play (.takeEvent c)).network = j.network.perform (.takeEvent c) :=
      j.network_play _ not_false
    rw [Network.perform] at hnetwork
    show j.network.takeEvent? c = ((j.network.takeEvent? c).map _).map _
    cases ht : j.network.takeEvent? c with
    | none => rfl
    | some taken =>
      rw [ht] at hnetwork
      rw [Option.map_some, Option.map_some, hnetwork]
      rfl

theorem posted_connect (j : Journal) (c : ClientKey) (p : Endpoint) :
    (j.play (.connect c p)).posted = j.posted := by
  rw [play]
  split <;> rfl

theorem posted_disconnect (j : Journal) (c : ClientKey) :
    (j.play (.disconnect c)).posted = j.posted := by
  rw [play]
  split <;> rfl

/-- An event that is taken is told. -/
theorem takeEvent?_ok (h : (ClientTransport.ofJournal c).takeEvent? j = some (e, j')) :
    j' = j.play (.takeEvent c) ∧ j'.told c = j.told c ++ [e] ∧ j'.posted = j.posted := by
  obtain ⟨⟨e', n'⟩, ht, heq⟩ := Option.map_eq_some_iff.1 h
  obtain ⟨rfl, rfl⟩ := Prod.mk.inj heq
  have hlive : Network.Op.Live j.network (.takeEvent c) := by
    obtain ⟨d, -, hd, -⟩ := Network.takeEvent?_ok ht
    show j.network.client? c ≠ none
    rw [hd]
    exact Option.some_ne_none d
  refine ⟨rfl, ?_⟩
  rw [play, if_pos hlive]
  refine ⟨?_, rfl⟩
  simp only [record, ht]
  exact Function.update_self c _ _

/-- What a client end sends tells it nothing. -/
theorem Sound.foldl_send (h : j.Sound) (c : ClientKey) (messages : List Bytes) :
    (messages.foldl (fun j data => j.play (.send c data)) j).Sound ∧
      (messages.foldl (fun j data => j.play (.send c data)) j).told c = j.told c :=
  List.foldlRecOn (motive := fun j' => Journal.Sound j' ∧ j'.told c = j.told c) messages _
    ⟨h, rfl⟩ fun j' h data _ =>
      ⟨h.1.play _, (j'.told_play (.send c data) nofun).trans h.2⟩

/-- The messages of a client end that is connected are posted in order. -/
theorem flush_eq (h : Wired j.network c s id) (sent : Nat) (messages : List Bytes) :
    Client.flush (.ofJournal c) sent messages j =
        ([], messages.foldl (fun j data => j.play (.send c data)) j,
          .ok (sent + messages.length)) ∧
      ∀ k, (messages.foldl (fun j data => j.play (.send c data)) j).posted k =
        j.posted k ++ if k = s then messages.map (id, ·) else [] := by
  induction messages generalizing j sent with
  | nil => exact ⟨rfl, fun k => by simp⟩
  | cons data messages ih =>
    have hwired : Wired (j.play (.send c data)).network c s id := by
      rw [play_send h, record_send h]
      exact h.of_same (j.network.samePorts_send c data).sameWires
    obtain ⟨hflush, hposted⟩ := ih hwired (sent + 1)
    have hsend : (ClientTransport.ofJournal c).send data j = (j.play (.send c data), .ok ()) :=
      Prod.ext rfl (h.moved_send data).1
    refine ⟨?_, fun k => ?_⟩
    · rw [Client.flush, hsend]
      dsimp only
      rw [hflush, List.foldl_cons, List.length_cons, Nat.add_right_comm, Nat.add_assoc]
    · rw [List.foldl_cons, hposted, play_send h, record_send h]
      dsimp only
      rw [Function.update_apply]
      split
      · next hk => rw [hk, List.append_assoc, List.map_cons, List.singleton_append]
      · rfl

/-- What a client end sends, one after the other, is posted as far as it is accepted. -/
theorem exists_posted_foldl (j : Journal) (c : ClientKey) (messages : List Bytes) (s : ServerKey) :
    ∃ added, (messages.foldl (fun j data => j.play (.send c data)) j).posted s =
        j.posted s ++ added ∧
      ∀ m ∈ added, m.2 ∈ messages := by
  induction messages generalizing j with
  | nil => exact ⟨[], (List.append_nil _).symm, List.forall_mem_nil _⟩
  | cons data messages ih =>
    obtain ⟨added, hposted, hadded⟩ := ih (j.play (.send c data))
    have hlater : ∀ m ∈ added, m.2 ∈ data :: messages := fun m hm =>
      List.mem_cons_of_mem _ (hadded m hm)
    rw [List.foldl_cons, hposted]
    rcases j.posted_send c data s with heq | ⟨id, heq⟩
    · exact ⟨added, by rw [heq], hlater⟩
    · refine ⟨(id, data) :: added, by rw [heq, List.append_assoc, List.singleton_append], ?_⟩
      exact List.forall_mem_cons.2 ⟨List.mem_cons_self, hlater⟩

end Journal

/-! ## What is received over a connection -/

namespace Call

variable {calls : List Call} {before after : List LinkEvent} {data : Bytes}

theorem count_connected (call : Call) : call.events.count .connected = 1 := by
  have hmessages : (call.messages.map LinkEvent.received).count .connected = 0 :=
    List.count_eq_zero.2 (by simp)
  have hendings : (List.replicate call.endings LinkEvent.disconnected).count .connected = 0 :=
    List.count_eq_zero.2 (by simp)
  rw [events, List.count_append, List.count_cons_self, hmessages, hendings]

/-- Where a message stands among the events of a call. -/
theorem split_events {call : Call} (h : call.events = before ++ .received data :: after) :
    ∃ messages later, call.messages = messages ++ data :: later ∧
      before = .connected :: messages.map .received ∧
      after = later.map .received ++ List.replicate call.endings .disconnected := by
  have hendings : ∀ {l : List LinkEvent} {m : List LinkEvent},
      List.replicate call.endings LinkEvent.disconnected = l ++ .received data :: m → False := by
    intro l m heq
    have hmem : LinkEvent.received data ∈ List.replicate call.endings LinkEvent.disconnected := by
      rw [heq]
      exact List.mem_append_right _ List.mem_cons_self
    cases List.eq_of_mem_replicate hmem
  cases before with
  | nil => cases h
  | cons e before =>
    obtain ⟨rfl, htail⟩ := List.cons.inj h
    rcases List.append_eq_append_iff.1 htail with ⟨l, -, hrest⟩ | ⟨l, hmessages, hrest⟩
    · exact absurd hrest hendings
    · cases l with
      | nil => exact absurd hrest.symm fun heq => hendings (l := []) heq
      | cons e l =>
        obtain ⟨rfl, rfl⟩ := List.cons.inj hrest
        obtain ⟨messages, rest, hcall, rfl, hmap⟩ := List.map_eq_append_iff.1 hmessages
        obtain ⟨data', later, rfl, heq, rfl⟩ := List.map_eq_cons_iff.1 hmap
        cases heq
        exact ⟨messages, later, hcall, rfl, rfl⟩

/-- Where a message stands among the events of some calls. -/
theorem split (h : calls.flatMap events = before ++ .received data :: after) :
    ∃ earlier call later, calls = earlier ++ call :: later ∧ data ∈ call.messages ∧
      before.count .connected = earlier.length + 1 ∧
      ∃ messages : List Bytes, after = messages.map .received ++
        List.replicate call.endings .disconnected ++ later.flatMap events := by
  induction calls generalizing before with
  | nil => simp at h
  | cons call calls ih =>
    rw [List.flatMap_cons] at h
    rcases List.append_eq_append_iff.1 h with ⟨l, rfl, hcalls⟩ | ⟨l, hcall, hrest⟩
    · obtain ⟨earlier, call', later, rfl, hdata, hcount, hafter⟩ := ih hcalls
      refine ⟨call :: earlier, call', later, rfl, hdata, ?_, hafter⟩
      rw [List.count_append, hcount, count_connected, List.length_cons]
      omega
    · cases l with
      | nil =>
        -- the next call begins with its connection, and not with a message
        obtain ⟨earlier, -, -, -, -, hcount, -⟩ := ih (show _ = [] ++ _ from hrest.symm)
        cases hcount
      | cons e l =>
        obtain ⟨rfl, rfl⟩ := List.cons.inj hrest
        obtain ⟨messages, later, hmessages, rfl, rfl⟩ := split_events hcall
        refine ⟨[], call, calls, rfl, ?_, ?_, later, rfl⟩
        · rw [hmessages]
          exact List.mem_append_right _ List.mem_cons_self
        · have hnone : (messages.map LinkEvent.received).count .connected = 0 :=
            List.count_eq_zero.2 (by simp)
          rw [List.count_cons_self, hnone]
          rfl

/-- A call among some calls is the last, or the last is another one. -/
theorem last_or_mem {past earlier later : List Call} {last call : Call}
    (h : past ++ [last] = earlier ++ call :: later) : call = last ∧ later = [] ∨ call ∈ past := by
  rcases later.eq_nil_or_concat with rfl | ⟨later, last', rfl⟩
  · exact .inl ⟨(List.cons.inj (List.append_inj' h rfl).2).1.symm, rfl⟩
  · rw [List.concat_eq_append, ← List.cons_append, ← List.append_assoc] at h
    obtain ⟨rfl, -⟩ := List.append_inj' h rfl
    exact .inr (List.mem_append_right _ List.mem_cons_self)

end Call

namespace Journal

variable {j : Journal} {c : ClientKey} {s : ServerKey} {id : ConnectionId} {data : Bytes}

/-- A client end has received a message over a connection: it was told of the message after it was
told that the connection was opened, and before the next. -/
def Received (j : Journal) (c : ClientKey) (id : ConnectionId) (data : Bytes) : Prop :=
  ∃ before after earlier later, j.told c = before ++ .received data :: after ∧
    j.opened c = earlier ++ id :: later ∧ before.count .connected = earlier.length + 1

/-- A message that was received over a connection is one of its call; what waits to be told is the
rest of that call, and the later ones. -/
theorem Received.split (hr : j.Received c id data) {calls : List Call}
    (hevents : j.queued c = calls.flatMap Call.events)
    (hopened : calls.map (·.connection) = j.opened c) :
    ∃ earlier call later, calls = earlier ++ call :: later ∧ call.connection = id ∧
      data ∈ call.messages ∧
      ∀ e ∈ j.network.news c, ∃ messages : List Bytes, e ∈ messages.map .received ++
        List.replicate call.endings .disconnected ++ later.flatMap Call.events := by
  obtain ⟨before, after, ids, ids', htold, hids, hcount⟩ := hr
  rw [queued, htold, List.append_assoc, List.cons_append] at hevents
  obtain ⟨earlier, call, later, rfl, hdata, hcount', messages, hafter⟩ := Call.split hevents.symm
  rw [hids, List.map_append, List.map_cons] at hopened
  have hlength : (earlier.map (·.connection)).length = ids.length := by
    rw [List.length_map]
    exact Nat.succ.inj (hcount'.symm.trans hcount)
  obtain ⟨-, htail⟩ := List.append_inj hopened hlength
  refine ⟨earlier, call, later, rfl, (List.cons.inj htail).1, hdata, fun e he => ⟨messages, ?_⟩⟩
  rw [← hafter]
  exact List.mem_append_right _ he

namespace Sound

/-- A message that was received over a connection was addressed to it. -/
theorem addressed (h : j.Sound) (hr : j.Received c id data) : data ∈ j.addressed id := by
  obtain ⟨past, now, ht⟩ := h.transcribed c
  obtain ⟨earlier, call, later, hcalls, rfl, hdata, -⟩ := hr.split ht.events ht.opened
  have hmem : call ∈ past ++ now.toList := by
    rw [hcalls]
    exact List.mem_append_right _ List.mem_cons_self
  rwa [← ht.messages call hmem]

/-- What a client end was told, and since then of the end of no connection, it was told over the
connection that is open, exactly if it has not to be told of the end of another one. -/
theorem received_iff (h : j.Sound) (hwired : Wired j.network c s id) {P : Bytes → Prop}
    (hheard : ∃ before data after, j.told c = before ++ .received data :: after ∧
      .disconnected ∉ after ∧ P data) :
    (∃ data, j.Received c id data ∧ P data) ↔ .disconnected ∉ j.network.news c := by
  obtain ⟨past, now, ht⟩ := h.transcribed c
  rw [hwired.map_link?] at ht
  obtain ⟨last, rfl, rfl⟩ := ht.exists_now
  have hopen : last.endings = 0 := (ht.now last rfl).2 hwired.isConnected
  constructor
  · rintro ⟨data, hr, -⟩ hmem
    obtain ⟨earlier, call, later, hcalls, hid, -, hnews⟩ := hr.split ht.events ht.opened
    rcases Call.last_or_mem hcalls with ⟨rfl, rfl⟩ | hpast
    · -- what waits is the rest of a call that is open
      obtain ⟨messages, hrest⟩ := hnews _ hmem
      simp [hopen] at hrest
    · -- the connections of two calls are not the same
      have hnodup := h.nodup c
      rw [← ht.opened, Option.toList_some, List.map_append, List.nodup_append] at hnodup
      exact hnodup.2.2 _ (List.mem_map_of_mem hpast) _ (List.mem_singleton.2 rfl) hid
  · intro hnews
    obtain ⟨before, data, after, htold, hafter, hdata⟩ := hheard
    have hevents := ht.events
    rw [queued, htold, List.append_assoc, List.cons_append] at hevents
    obtain ⟨earlier, call, later, hcalls, -, hcount, messages, hrest⟩ := Call.split hevents.symm
    rcases Call.last_or_mem hcalls with ⟨rfl, rfl⟩ | hpast
    · refine ⟨data, ⟨before, after, earlier.map (·.connection), [], htold, ?_, ?_⟩, hdata⟩
      · rw [← ht.opened, hcalls, List.map_append]
        rfl
      · rw [List.length_map, hcount]
    · -- a call before the last was closed, so its end was told after the message or waits
      have hended : LinkEvent.disconnected ∈ after ++ j.network.news c := by
        rw [hrest]
        refine List.mem_append_left _ (List.mem_append_right _ ?_)
        exact List.mem_replicate.2 ⟨Nat.ne_of_gt (ht.past call hpast), rfl⟩
      exact absurd hended (by simp [hafter, hnews])

end Sound
end Journal
end ParamSync
