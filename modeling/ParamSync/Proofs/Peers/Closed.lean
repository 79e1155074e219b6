import ParamSync.Proofs.Peers.Afresh
import ParamSync.Proofs.Peers.Moves

/-!
# After a client disconnects

A client that disconnects forgets its copy at once. The messages that it has not handled by then
still wait, ahead of the news that the connection is closed, and the next poll handles them as if
nothing had happened: parameters are entered into the empty copy, reported, and forgotten with the
last event. Nothing else can come in, as an end without a connection is told nothing, so that poll
is the only one that reports anything.

Results:
* `Coherent.alone_perform`: a client end without a link is left alone by all others.
* `Client.poll_hears`: a poll hears what waits, in order.
* `Caller.Closed.playAll`: what a client that has disconnected is told, whatever happens.
* `Caller.told_after_disconnect_iff`: when that tells of parameters.
* `Caller.late_flag`: a flag that is reported after its client has disconnected.
-/

namespace ParamSync

open Registry (Op Reachable)

/-! ## Ends without a link -/

namespace Network

variable {n : Network} {c d : ClientKey}

theorem not_wired (hlink : n.link? c = none) (s : ServerKey) (id : ConnectionId) :
    ¬ Wired n c s id := fun hwired => hwired.link?_ne_none hlink

/-- The second network shows a client end without a link what the first does. -/
def Alone (c : ClientKey) (n n' : Network) : Prop :=
  n.link? c = none → n'.link? c = none ∧ n'.news c = n.news c

namespace Alone

variable {n' n'' : Network}

theorem refl (n : Network) : Alone c n n := fun hlink => ⟨hlink, rfl⟩

theorem trans (h : Alone c n n') (h' : Alone c n' n'') : Alone c n n'' := fun hlink => by
  obtain ⟨hlink', hnews⟩ := h hlink
  obtain ⟨hlink'', hnews'⟩ := h' hlink'
  exact ⟨hlink'', hnews'.trans hnews⟩

theorem of_queued {added : ClientKey → List LinkEvent} (h : Queued n n' added)
    (hnil : n.link? c = none → added c = []) : Alone c n n' := fun hlink =>
  ⟨(h.samePorts.link c).trans hlink, h.news_of_nil (hnil hlink)⟩

theorem of_moved {inbox : ServerKey → List (ConnectionId × Bytes)}
    (h : Moved n n' inbox n.news) : Alone c n n' := fun hlink =>
  ⟨(h.link c).trans hlink, h.news c⟩

theorem send (n : Network) (d : ClientKey) (data : Bytes) : Alone c n (n.send d data).1 :=
  fun hlink => ⟨((n.samePorts_send d data).link c).trans hlink, n.news_send d data c⟩

theorem disconnect (n : Network) (hd : d ≠ c) : Alone c n (n.disconnect d) := fun hlink => by
  cases hl : n.link? d with
  | none =>
    rw [disconnect_of_none hl]
    exact ⟨hlink, rfl⟩
  | some l =>
    rw [link?_disconnect hl, news_disconnect hl, if_neg hd.symm, if_neg hd.symm]
    exact ⟨hlink, rfl⟩

theorem opened (hthere : n.client? d ≠ none) (hd : d ≠ c) (l : ListenerKey) :
    Alone c n (n.opened d l) := fun hlink => by
  rw [link?_opened hthere, news_opened hthere, if_neg hd.symm, if_neg hd.symm]
  exact ⟨hlink, rfl⟩

end Alone

namespace Coherent

theorem alone_unbind (h : Coherent n) (s : ServerKey) : Alone c n (n.unbind s) := fun hlink =>
  ⟨(h.link?_unbind s c).trans hlink, h.news_unbind_of_not (not_wired hlink s)⟩

/-- Whatever the other ends do, a client end without a link has none afterwards, and nothing new
waits for it. -/
theorem alone_perform (h : Coherent n) {op : Network.Op} (hlive : op.Live n)
    (hop : op.client? ≠ some c) : Alone c n (n.perform op) := by
  -- the client end that does it is another one
  have hother : ∀ {d}, op.client? = some d → d ≠ c := fun hd heq => hop (hd.trans (heq ▸ rfl))
  cases op with
  | addServer => exact fun hlink => ⟨hlink, rfl⟩
  | addClient =>
    obtain ⟨-, hlinks, hnews⟩ := h.views_addClient
    exact fun hlink => ⟨(congrFun hlinks c).trans hlink, congrFun hnews c⟩
  | bind s p =>
    show Alone c n (n.bind s p).1
    rw [h.bind_eq]
    split
    · exact h.alone_unbind s
    · exact (h.alone_unbind s).trans fun hlink => ⟨hlink, rfl⟩
  | unbind s => exact h.alone_unbind s
  | connect d p =>
    show Alone c n (n.connect d p).1
    rw [connect_eq]
    obtain ⟨hthere, -⟩ := gone_disconnect h hlive
    split
    · exact .disconnect n (hother rfl)
    · exact (Alone.disconnect n (hother rfl)).trans (.opened hthere (hother rfl) _)
  | disconnect d => exact .disconnect n (hother rfl)
  | send d data => exact .send n d data
  | sendToOne s data id =>
    show Alone c n (n.sendToOne s data id).1
    rcases h.sendToOne_cases s data id with ⟨d, hwired, heq⟩ | ⟨-, heq⟩
    · rw [heq]
      refine .of_queued (n.queued_tell d _) fun hlink => if_neg ?_
      rintro rfl
      exact not_wired hlink s id hwired
    · rw [heq]
      exact .refl n
  | sendToAll s data exclude =>
    show Alone c n (n.sendToAll s data exclude)
    rw [sendToAll_reached]
    refine .of_queued (n.queued_tellAll _ _) fun hlink => ?_
    rw [h.count_reached_of_not (not_wired hlink s)]
    rfl
  | takeMessage s =>
    show Alone c n (((n.takeMessage? s).map (·.2)).getD n)
    cases ht : n.takeMessage? s with
    | none => exact .refl n
    | some taken =>
      obtain ⟨rest, -, hmoved⟩ := moved_takeMessage? ht
      exact .of_moved hmoved
  | takeEvent d =>
    show Alone c n (((n.takeEvent? d).map (·.2)).getD n)
    cases ht : n.takeEvent? d with
    | none => exact .refl n
    | some taken =>
      refine fun hlink => ⟨?_, news_takeEvent?_of_ne ht (hother rfl).symm⟩
      show taken.2.link? c = none
      rw [link?_takeEvent? ht, if_neg fun hboth => hother rfl hboth.1.symm, hlink]

end Coherent
end Network

/-! ## What is heard -/

namespace ClientNotice

/-- The parameter that is said to have come into the copy, to have changed or to have left. -/
def parameter? : ClientNotice → Option ParamId
  | added p | updated p | removed p => some p.id
  | _ => none

end ClientNotice

open ClientNotice (parameter?)

namespace Client

/-- What events do to a client, one after the other. -/
def hearAll (c : Client) : List LinkEvent → Client × List ClientNotice
  | [] => (c, [])
  | e :: events =>
    let (c', notices) := c.hear e
    let (c'', more) := hearAll c' events
    (c'', notices ++ more)

theorem hearAll_concat (c : Client) (events : List LinkEvent) (e : LinkEvent) :
    (c.hearAll (events ++ [e])).1 = ((c.hearAll events).1.hear e).1 := by
  induction events generalizing c with
  | nil => rfl
  | cons e' events ih => exact ih (c.hear e').1

theorem childless_hearAll {c : Client} (h : Reachable (fun _ => Op.Childless) c.registry)
    (events : List LinkEvent) :
    Reachable (fun _ => Op.Childless) (c.hearAll events).1.registry := by
  induction events generalizing c with
  | nil => exact h
  | cons e events ih => exact ih (childless_hear h e)

/-- A client that polls hears what waits at its end, in order. -/
theorem poll_hears (client : Client) (n : Network) (c : ClientKey) :
    (client.poll (.ofNetwork c) n).1 = (client.hearAll (n.news c)).1 ∧
      (client.poll (.ofNetwork c) n).2.2.2 = (client.hearAll (n.news c)).2 := by
  have hdrain : ∀ events (client : Client) (n : Network) (handled : Nat)
      (notices : List ClientNotice), n.news c = events →
        (drain (.ofNetwork c) events.length (client, n, handled, notices)).1 =
            (client.hearAll events).1 ∧
          (drain (.ofNetwork c) events.length (client, n, handled, notices)).2.2.2 =
            (client.hearAll events).2.reverse ++ notices := by
    intro events
    induction events with
    | nil => exact fun _ _ _ _ _ => ⟨rfl, rfl⟩
    | cons e events ih =>
      intro client n handled notices hnews
      rw [List.length_cons, drain]
      split
      · next htake =>
        cases hnews.symm.trans (Network.news_of_takeEvent?_eq_none htake)
      · next e' n' htake =>
        have htaken : n.takeEvent? c = some (e', n') := htake
        obtain ⟨rfl, hrest⟩ := List.cons.inj (hnews.symm.trans (Network.news_takeEvent? htaken))
        obtain ⟨hclient, hnotices⟩ := client.handle_hears (t := .ofNetwork c) n' e
        obtain ⟨hlast, hmore⟩ := ih (handle (.ofNetwork c) client n' e).1 _ (handled + 1)
          ((handle (.ofNetwork c) client n' e).2.2.reverse ++ notices)
          ((client.news_handle n' c e).trans hrest.symm)
        refine ⟨hlast.trans (by rw [hclient]; rfl), hmore.trans ?_⟩
        rw [hclient, hnotices, ← List.append_assoc, ← List.reverse_append]
        rfl
  obtain ⟨hclient, hnotices⟩ := hdrain _ client n 0 [] rfl
  rw [n.length_news] at hclient hnotices
  refine ⟨hclient, (congrArg List.reverse hnotices).trans ?_⟩
  rw [List.append_nil, List.reverse_reverse]

/-- A poll does not give a client end a link. -/
theorem link?_poll (client : Client) {n : Network} {c : ClientKey} (hlink : n.link? c = none) :
    (client.poll (.ofNetwork c) n).2.1.link? c = none := by
  refine poll_induction (t := .ofNetwork c) (P := fun _ n => n.link? c = none) ?_ hlink
  intro client n e n' hlink htake
  have htaken : n'.link? c = none := by
    rw [Network.link?_takeEvent? htake, hlink, ite_self]
  cases e with
  | connected =>
    have hsend : ∀ data, (n'.send c data).1 = n' := fun data => by
      rw [Network.send_of_not_isConnected (Network.isConnected_of_link?_eq_none htaken)]
    show ((n'.send c _).1.send c _).1.link? c = none
    rw [hsend, hsend, htaken]
  | disconnected => exact htaken
  | received data => exact htaken

/-! ### Messages to a client that knows nobody -/

section New

variable {c : Client} (hc : c.registry = .new)
include hc

/-- Whoever is sent is added, unless it is the root. -/
theorem receiveParameter_of_new (p : Parameter) :
    if p.id = .root then c.receiveParameter p = (c, [])
    else ∃ q, (c.receiveParameter p).2 = [.added q] := by
  rw [receiveParameter, hc]
  split
  · next hroot =>
    have hrefused : Registry.new.merge p = .error .rootImmutable := by
      rw [Registry.merge, if_pos (by simp [hroot])]
    rw [hrefused]
  · next hroot =>
    have hnew : Registry.new.get? p.id = none := by rw [Registry.get?_new, if_neg hroot]
    rw [Registry.merge_of_unknown hroot hnew]
    refine ⟨Registry.new.entered p, ?_⟩
    show [] ++ ((Registry.new.attach p).get? p.id).toList.map ClientNotice.added = _
    rw [Registry.get?_attach hroot hnew, if_pos rfl]
    rfl

/-- Nobody is there to be removed. -/
theorem receiveRemoval_of_new (id : ParamId) : c.receiveRemoval id = (c, []) := by
  rw [receiveRemoval, hc, if_neg]
  rw [Registry.contains_iff_ne_root, Registry.get?_new]
  rintro ⟨hroot, halive⟩
  exact halive (if_neg hroot)

/-- Nobody is there to be given a value but the root, which takes none. -/
theorem receiveValue_of_new (u : ValueUpdate) : c.receiveValue u = (c, []) := by
  have hnobody : (Registry.new.get? u.id).filter (!·.id.isRoot) = none := by
    rw [Registry.get?_new]
    split <;> rfl
  rw [receiveValue, hc, Registry.applyValue, hnobody]

/-- A message that is an update has its parameter added, unless that is the root. Any other leaves
the copy as it is, and no parameter is reported. -/
theorem receive_of_new (data : Bytes) :
    (∃ p q, Packet.update? data = some p ∧ p.id ≠ .root ∧ (c.receive data).2 = [.added q]) ∨
      (∀ p, Packet.update? data = some p → p.id = .root) ∧
        (c.receive data).1.registry = .new ∧ ∀ n ∈ (c.receive data).2, n.parameter? = none := by
  -- any other message leaves the copy as it is, and reports nobody
  have hother {result : Client × List ClientNotice} (hnone : Packet.update? data = none)
      (hsame : result.1.registry = .new) (hquiet : ∀ n ∈ result.2, n.parameter? = none) :
      (∃ p q, Packet.update? data = some p ∧ p.id ≠ .root ∧ result.2 = [.added q]) ∨
        (∀ p, Packet.update? data = some p → p.id = .root) ∧
          result.1.registry = .new ∧ ∀ n ∈ result.2, n.parameter? = none :=
    .inr ⟨fun p hp => absurd (hnone.symm.trans hp) (Option.some_ne_none p).symm, hsame, hquiet⟩
  have hreceives := c.receives data
  generalize c.receive data = result at hreceives ⊢
  cases hreceives with
  | @parameter p hupdate =>
    have hcases := receiveParameter_of_new hc p
    split at hcases
    · next hroot =>
      rw [hcases]
      refine .inr ⟨fun q hq => ?_, hc, List.forall_mem_nil _⟩
      obtain rfl := Option.some.inj (hupdate.symm.trans hq)
      exact hroot
    · next hroot =>
      obtain ⟨q, hq⟩ := hcases
      exact .inl ⟨p, q, hupdate, hroot, hq⟩
  | removal hnone id =>
    rw [receiveRemoval_of_new hc]
    exact hother hnone hc (List.forall_mem_nil _)
  | value hnone u =>
    rw [receiveValue_of_new hc]
    exact hother hnone hc (List.forall_mem_nil _)
  | info hnone info =>
    exact hother hnone hc (List.forall_mem_cons.2 ⟨rfl, List.forall_mem_nil _⟩)
  | nothing hnone => exact hother hnone hc (List.forall_mem_nil _)

/-- Of all that a client hears that knows nobody, nothing reports a parameter exactly if no update
is among it but of the root. -/
theorem hearAll_of_new_iff (events : List LinkEvent) :
    (∀ n ∈ (c.hearAll events).2, n.parameter? = none) ↔
      ∀ data, .received data ∈ events → ∀ p, Packet.update? data = some p → p.id = .root := by
  induction events generalizing c with
  | nil => exact iff_of_true (List.forall_mem_nil _) nofun
  | cons e events ih =>
    have hcons : (∀ n ∈ (c.hearAll (e :: events)).2, n.parameter? = none) ↔
        (∀ n ∈ (c.hear e).2, n.parameter? = none) ∧
          ∀ n ∈ ((c.hear e).1.hearAll events).2, n.parameter? = none :=
      List.forall_mem_append
    cases e with
    | connected =>
      rw [hcons, show c.hear .connected = (c, [.connected]) from rfl, ih hc]
      simp [parameter?]
    | disconnected =>
      have hreset : c.reset.registry = .new := by
        show c.registry.clear = .new
        rw [hc]
        exact Reachable.new.clear_eq_new
      rw [hcons, show c.hear .disconnected = (c.reset, [.disconnected]) from rfl, ih hreset]
      simp [parameter?]
    | received data =>
      rw [hcons, show c.hear (.received data) = c.receive data from rfl]
      rcases receive_of_new hc data with ⟨p, q, hp, hroot, hadded⟩ | ⟨hroots, hsame, hnone⟩
      · refine iff_of_false (fun hall => ?_) fun hall => hroot (hall data List.mem_cons_self p hp)
        rw [hadded] at hall
        exact Option.some_ne_none _ (hall.1 _ List.mem_cons_self)
      · rw [ih hsame]
        constructor
        · rintro ⟨-, hrest⟩ data' hdata'
          rcases List.mem_cons.1 hdata' with heq | hdata'
          · cases heq
            exact hroots
          · exact hrest data' hdata'
        · exact fun hall => ⟨hnone, fun data' hdata' => hall data' (List.mem_cons_of_mem _ hdata')⟩

end New

end Client

/-! ## Who is alone hears of the end last -/

/-- What is heard last of calls that were closed is that one was. -/
theorem Call.last_of_closed {calls : List Call} (hclosed : ∀ call ∈ calls, 0 < call.endings)
    {events : List LinkEvent} {e : LinkEvent} (h : calls.flatMap Call.events = events ++ [e]) :
    e = .disconnected := by
  have hlast : (calls.flatMap Call.events).getLast? = some e := by
    rw [h, List.getLast?_concat]
  rcases List.eq_nil_or_concat calls with rfl | ⟨earlier, call, rfl⟩
  · cases hlast
  · have hcall := hclosed call (by simp)
    have hend : call.events.getLast? = some .disconnected := by
      rw [Call.events, List.getLast?_append, List.getLast?_replicate,
        if_neg (Nat.ne_of_gt hcall), Option.some_or]
    rw [List.concat_eq_append, List.flatMap_append, List.flatMap_singleton, List.getLast?_append,
      hend, Option.some_or] at hlast
    exact (Option.some.inj hlast).symm

namespace Journal

variable {j : Journal} {c : ClientKey}

/-- Whatever another end does, a client end without a link is left alone. -/
theorem Sound.alone_play (h : j.Sound) {op : Network.Op} (hop : op.client? ≠ some c) :
    Network.Alone c j.network (j.play op).network := by
  rw [Journal.play]
  split
  · next hlive =>
    rw [network_record]
    exact h.coherent.alone_perform hlive hop
  · exact .refl _

/-- If anything waits at a client end without a link, the last of it is that a connection was
closed. -/
theorem Sound.news_of_not_linked (h : j.Sound) (hlink : j.network.link? c = none) :
    j.network.news c = [] ∨ ∃ events, j.network.news c = events ++ [.disconnected] := by
  obtain ⟨past, now, ht⟩ := h.transcribed c
  rw [hlink] at ht
  obtain rfl : now = none := by simpa using ht.link
  have hevents : past.flatMap Call.events = j.told c ++ j.network.news c := by
    simpa [queued] using ht.events.symm
  rcases List.eq_nil_or_concat (j.network.news c) with hnil | ⟨events, e, hnews⟩
  · exact .inl hnil
  · rw [List.concat_eq_append] at hnews
    rw [hnews, ← List.append_assoc] at hevents
    rw [hnews, Call.last_of_closed ht.past hevents]
    exact .inr ⟨events, rfl⟩

end Journal

/-! ## Callers that have disconnected -/

namespace Caller

variable {c : ClientKey} {w : Caller}

/-- What the listeners of the client are told. -/
def told (w : Caller) : Turn c → List ClientNotice
  | .act .poll => (w.client.poll (.ofJournal c) w.journal).2.2.2
  | _ => []

/-- What they are told over a whole run. -/
def toldAll (w : Caller) : List (Turn c) → List ClientNotice
  | [] => []
  | turn :: turns => w.told turn ++ (w.play turn).toldAll turns

/-- The client end has no link, and the client knows nobody. -/
structure Closed (c : ClientKey) (w : Caller) : Prop where
  sound : Sound c w
  link : w.journal.network.link? c = none
  client : w.client = {}

namespace Closed

/-- A client that disconnects has no link, and forgets its copy. -/
theorem disconnect (h : Sound c w) : Closed c (w.act c .disconnect) where
  sound := h.act .disconnect
  link := by
    have hnetwork : (w.act c .disconnect).journal.network = w.journal.network.disconnect c :=
      w.journal.network_play (.disconnect c) not_false
    rw [hnetwork]
    cases hl : w.journal.network.link? c with
    | none => rw [Network.disconnect_of_none hl, hl]
    | some l => rw [Network.link?_disconnect hl, if_pos rfl]
  client := Client.reset_eq_new h.reachable

/-- A client that polls hears what waits, and knows nobody afterwards. -/
theorem poll (h : Closed c w) :
    Closed c (w.act c .poll) ∧ (w.act c .poll).journal.network.news c = [] ∧
      w.told (c := c) (.act .poll) = (Client.hearAll {} (w.journal.network.news c)).2 := by
  have hshows := Client.poll_of_shows (Journal.shows_network c) w.client w.journal
  obtain ⟨hclient, hnotices⟩ := w.client.poll_hears w.journal.network c
  have hnetwork : (w.act c .poll).journal.network =
      (w.client.poll (.ofNetwork c) w.journal.network).2.1 := by
    rw [hshows]
    rfl
  refine ⟨⟨h.sound.act .poll, ?_, ?_⟩, ?_, ?_⟩
  · rw [hnetwork]
    exact w.client.link?_poll h.link
  · have hheard : (w.act c .poll).client = (w.client.hearAll (w.journal.network.news c)).1 := by
      rw [← hclient, hshows]
      rfl
    rw [hheard]
    rcases h.sound.journal.news_of_not_linked h.link with hnil | ⟨events, hevents⟩
    · rw [hnil]
      exact h.client
    · rw [hevents, Client.hearAll_concat]
      exact Client.reset_eq_new (Client.childless_hearAll h.sound.reachable events)
  · rw [hnetwork]
    exact w.client.news_poll _ c
  · rw [← h.client, ← hnotices, hshows]
    rfl

/-- Nothing but a new connection or a poll changes what a client that has disconnected is and has
to hear. -/
theorem play (h : Closed c w) {turn : Turn c} (hconnect : ∀ p, turn ≠ .act (.connect p))
    (hpoll : turn ≠ .act .poll) :
    Closed c (w.play turn) ∧
      (w.play turn).journal.network.news c = w.journal.network.news c ∧ w.told turn = [] := by
  have hsound := h.sound.play turn
  cases turn with
  | other op hop =>
    obtain ⟨hlink, hnews⟩ := h.sound.journal.alone_play hop h.link
    exact ⟨⟨hsound, hlink, h.client⟩, hnews, rfl⟩
  | act a =>
    cases a with
    | connect p => exact absurd rfl (hconnect p)
    | poll => exact absurd rfl hpoll
    | disconnect =>
      have hnetwork : (w.act c .disconnect).journal.network = w.journal.network :=
        (w.journal.network_play (.disconnect c) not_false).trans
          (Network.disconnect_of_none h.link)
      exact ⟨.disconnect h.sound, congrArg (·.news c) hnetwork, rfl⟩
    | edit id accesses =>
      refine ⟨⟨hsound, h.link, ?_⟩, rfl, rfl⟩
      show w.client.perform (.edit id accesses) = {}
      rw [h.client, Client.perform_edit_new]
    | update =>
      have hsame : w.act c .update = w := by
        rcases h.sound.update_cases with ⟨hact, -⟩ | ⟨s, id, hwired, -⟩
        · exact hact
        · exact absurd hwired (Network.not_wired h.link s id)
      show Closed c (w.act c .update) ∧ (w.act c .update).journal.network.news c = _ ∧ _
      rw [hsame]
      exact ⟨h, rfl, rfl⟩

/-- A client that has disconnected and does not connect again knows nobody at any time, and its
listeners are told, at its next poll, what a client is told that hears all that waits, and nothing
else. -/
theorem playAll (h : Closed c w) {turns : List (Turn c)}
    (hconnect : ∀ turn ∈ turns, ∀ p, turn ≠ .act (.connect p)) :
    Closed c (w.playAll turns) ∧
      (.act .poll ∉ turns → w.toldAll turns = []) ∧
      (.act .poll ∈ turns →
        w.toldAll turns = (Client.hearAll {} (w.journal.network.news c)).2) := by
  induction turns generalizing w with
  | nil => exact ⟨h, fun _ => rfl, nofun⟩
  | cons turn turns ih =>
    obtain ⟨hturn, hturns⟩ := List.forall_mem_cons.1 hconnect
    by_cases hpoll : turn = .act .poll
    · subst hpoll
      obtain ⟨hclosed, hnews, htold⟩ := h.poll
      obtain ⟨hlast, hnone, hall⟩ := ih hclosed hturns
      refine ⟨hlast, fun hnot => absurd List.mem_cons_self hnot, fun _ => ?_⟩
      -- nothing is left for another poll to report
      have hrest : (w.act c .poll).toldAll turns = [] := by
        by_cases hmem : .act .poll ∈ turns
        · rw [hall hmem, hnews]
          rfl
        · exact hnone hmem
      exact (congrArg₂ (· ++ ·) htold hrest).trans (List.append_nil _)
    · obtain ⟨hclosed, hnews, htold⟩ := h.play hturn hpoll
      obtain ⟨hlast, hnone, hall⟩ := ih hclosed hturns
      have hrest : w.toldAll (turn :: turns) = (w.play turn).toldAll turns := by
        rw [toldAll, htold, List.nil_append]
      rw [hrest, ← hnews]
      refine ⟨hlast, fun hnot => hnone fun hmem => hnot (List.mem_cons_of_mem _ hmem),
        fun hmem => hall ((List.mem_cons.1 hmem).resolve_left (Ne.symm hpoll))⟩

end Closed

/-- Whatever a client and the other ends of its network have done before it disconnects, and
whatever they do afterwards, as long as it does not connect again: its copy is empty, and its
listeners are told of no parameter exactly if it does not poll, or no update waits at its end when
it disconnects but of the root. -/
theorem told_after_disconnect_iff (c : ClientKey) (turns later : List (Turn c))
    (hlater : ∀ turn ∈ later, ∀ p, turn ≠ .act (.connect p)) :
    let w := (playAll {} turns).act c .disconnect
    (w.playAll later).client.registry = .new ∧
      ((∀ n ∈ w.toldAll later, n.parameter? = none) ↔
        .act .poll ∉ later ∨ ∀ data, .received data ∈ w.journal.network.news c →
          ∀ p, Packet.update? data = some p → p.id = .root) := by
  intro w
  have hclosed : Closed c w := .disconnect ((Sound.new c).playAll turns)
  obtain ⟨hlast, hnone, hall⟩ := hclosed.playAll hlater
  refine ⟨by rw [hlast.client], ?_⟩
  by_cases hpoll : .act .poll ∈ later
  · rw [hall hpoll, Client.hearAll_of_new_iff rfl, or_iff_right (not_not.2 hpoll)]
  · rw [hnone hpoll]
    exact iff_of_true (List.forall_mem_nil _) (.inl hpoll)

/-! ### A flag that comes late -/

/-- The first of the rounds: a client end connects to a server end, and polls; then it is sent a
flag. -/
def greeting : List (Turn ⟨0⟩) := rounds.take 8

theorem told_after_disconnect_greeting :
    (∀ turn ∈ ([.act .poll] : List (Turn ⟨0⟩)), ∀ p, turn ≠ .act (.connect p)) ∧
      let w := (playAll {} greeting).act ⟨0⟩ .disconnect
      (w.playAll (c := ⟨0⟩) [.act .poll]).client.registry = .new ∧
        ((∀ n ∈ w.toldAll (c := ⟨0⟩) [.act .poll], n.parameter? = none) ↔
          .act .poll ∉ ([.act .poll] : List (Turn ⟨0⟩)) ∨
            ∀ data, .received data ∈ w.journal.network.news ⟨0⟩ →
              ∀ p, Packet.update? data = some p → p.id = .root) := by
  have hlater : ∀ turn ∈ ([.act .poll] : List (Turn ⟨0⟩)), ∀ p, turn ≠ .act (.connect p) :=
    List.forall_mem_cons.2 ⟨nofun, List.forall_mem_nil _⟩
  exact ⟨hlater, told_after_disconnect_iff ⟨0⟩ greeting [.act .poll] hlater⟩

/-- The client disconnects before it polls again. Its copy is empty, and at the next poll its
listeners are told of the flag all the same. -/
theorem late_flag :
    let w := (playAll {} greeting).act ⟨0⟩ .disconnect
    w.client.registry.ids = [] ∧
      (w.toldAll (c := ⟨0⟩) [.act .poll]).filterMap parameter? = [⟨1⟩] ∧
      (w.act ⟨0⟩ .poll).client.registry.ids = [] := by
  decide +kernel

end Caller
end ParamSync
