import Mathlib.Logic.Function.Basic
import ParamSync.Proofs.Peers.Opening

/-!
# Sessions

A client end has one queue for all its connections, and the events in it do not say which connection
they are of. They need not: whatever the ends of the network do, in any order, the events fall into
sessions, one for each connection in the order in which they were made. A session is opened, brings
what was addressed to its connection, and is closed, perhaps more than once, before the next begins.

A `Journal` is a network with what has been done on it: which connections each client end has made,
what was addressed to each, what was posted to each server end, and what was taken.

Results:
* `Transcript.hear`, `Transcript.close`, `Transcript.forget`, `Transcript.begin`: what an event
  adds.
* `Journal.Sound.play`: every operation of an end that is there keeps the journal sound.
* `Journal.falls_into_sessions`: what the ends hear and whether they are connected, along every run.
-/

namespace ParamSync

/-! ## Transcripts -/

/-- A connection as its client end hears of it. -/
structure Call where
  connection : ConnectionId
  messages : List Bytes := []
  endings : Nat := 0

/-- That it is open, its messages, and that it is closed, if it is. -/
def Call.events (call : Call) : List LinkEvent :=
  .connected :: call.messages.map .received ++ List.replicate call.endings .disconnected

/-- The events of a client end as those of calls: the `past` ones, which were closed, and the one
`now` that the end has as its link. -/
structure Transcript (events : List LinkEvent) (opened : List ConnectionId)
    (addressed : ConnectionId → List Bytes) (link : Option ConnectionId) (connected : Prop)
    (past : List Call) (now : Option Call) : Prop where
  events : events = (past ++ now.toList).flatMap Call.events
  opened : (past ++ now.toList).map (·.connection) = opened
  messages : ∀ call ∈ past ++ now.toList, call.messages = addressed call.connection
  past : ∀ call ∈ past, 0 < call.endings
  link : now.map (·.connection) = link
  now : ∀ call, now = some call → (call.endings = 0 ↔ connected)

namespace Transcript

variable {events : List LinkEvent} {opened : List ConnectionId}
  {addressed addressed' : ConnectionId → List Bytes} {link : Option ConnectionId}
  {connected : Prop} {past : List Call} {now : Option Call} {id : ConnectionId} {data : Bytes}

/-- Only what was addressed to its own connections matters. -/
theorem congr (h : Transcript events opened addressed link connected past now)
    (heq : ∀ id ∈ opened, addressed' id = addressed id) :
    Transcript events opened addressed' link connected past now where
  events := h.events
  opened := h.opened
  messages call hcall := by
    have hmem : call.connection ∈ opened := h.opened ▸ List.mem_map_of_mem hcall
    rw [heq _ hmem, h.messages call hcall]
  past := h.past
  link := h.link
  now := h.now

theorem of_iff {connected' : Prop} (h : Transcript events opened addressed link connected past now)
    (heq : connected ↔ connected') : Transcript events opened addressed link connected' past now :=
  propext heq ▸ h

/-- The call of the link is the last. -/
theorem exists_now (h : Transcript events opened addressed (some id) connected past now) :
    ∃ call, now = some call ∧ call.connection = id := by
  simpa using h.link

/-- A message of an open connection is the last of its call. -/
theorem hear (h : Transcript events opened addressed (some id) connected past now)
    (hconnected : connected) (hnodup : opened.Nodup)
    (hid : addressed' id = addressed id ++ [data])
    (hothers : ∀ id' ∈ opened, id' ≠ id → addressed' id' = addressed id') :
    ∃ now', Transcript (events ++ [.received data]) opened addressed' (some id) connected past
      now' := by
  obtain ⟨call, rfl, rfl⟩ := h.exists_now
  have hopen : call.endings = 0 := (h.now call rfl).2 hconnected
  have hopened : past.map (·.connection) ++ [call.connection] = opened := by
    simpa using h.opened
  refine ⟨some { call with messages := call.messages ++ [data] }, ?_, ?_, ?_, h.past, rfl, ?_⟩
  · rw [h.events]
    simp [Call.events, hopen]
  · simpa using hopened
  · intro other hother
    rcases List.mem_append.1 hother with hpast | hnow
    · -- a past call is of another connection
      have hne : other.connection ≠ call.connection := fun heq => by
        rw [← hopened, List.nodup_append] at hnodup
        exact hnodup.2.2 _ (List.mem_map_of_mem hpast) _ (List.mem_singleton.2 rfl) heq
      have hmem : other.connection ∈ opened :=
        hopened ▸ List.mem_append_left _ (List.mem_map_of_mem hpast)
      rw [hothers _ hmem hne]
      exact h.messages other (List.mem_append_left _ hpast)
    · obtain rfl : other = { call with messages := call.messages ++ [data] } := by
        simpa using hnow
      show call.messages ++ [data] = addressed' call.connection
      rw [hid, h.messages call (by simp)]
  · rintro _ ⟨⟩
    exact h.now call rfl

/-- That its connection is closed is the last of a call. -/
theorem close (h : Transcript events opened addressed (some id) connected past now) :
    ∃ now', Transcript (events ++ [.disconnected]) opened addressed (some id) False past now' := by
  obtain ⟨call, rfl, rfl⟩ := h.exists_now
  refine ⟨some { call with endings := call.endings + 1 }, ?_, ?_, ?_, h.past, rfl, ?_⟩
  · rw [h.events]
    simp [Call.events, List.replicate_succ']
  · simpa using h.opened
  · intro other hother
    rcases List.mem_append.1 hother with hpast | hnow
    · exact h.messages other (List.mem_append_left _ hpast)
    · obtain rfl : other = { call with endings := call.endings + 1 } := by simpa using hnow
      exact h.messages call (by simp)
  · rintro _ ⟨⟩
    exact iff_of_false (Nat.succ_ne_zero _) not_false

/-- A link to a connection that is closed can be forgotten. -/
theorem forget (h : Transcript events opened addressed link False past now) :
    Transcript events opened addressed none False (past ++ now.toList) none := by
  refine ⟨?_, ?_, ?_, ?_, rfl, ?_⟩
  · simpa using h.events
  · simpa using h.opened
  · simpa using h.messages
  · intro call hcall
    rcases List.mem_append.1 hcall with hpast | hnow
    · exact h.past call hpast
    · exact Nat.pos_of_ne_zero fun hzero => (h.now call (Option.mem_toList.1 hnow)).1 hzero
  · rintro _ ⟨⟩

/-- A connection that is opened begins a call. -/
theorem begin (h : Transcript events opened addressed none connected past now)
    (hid : addressed id = []) :
    Transcript (events ++ [.connected]) (opened ++ [id]) addressed (some id) True past
      (some { connection := id }) := by
  obtain rfl : now = none := by simpa using h.link
  refine ⟨?_, ?_, ?_, h.past, rfl, ?_⟩
  · rw [h.events]
    simp [Call.events]
  · rw [← h.opened]
    simp
  · intro call hcall
    rcases List.mem_append.1 hcall with hpast | hnow
    · exact h.messages call (List.mem_append_left _ hpast)
    · obtain rfl : call = { connection := id } := by simpa using hnow
      exact hid.symm
  · rintro _ ⟨⟩
    exact iff_of_true rfl trivial

/-- All calls but the last were closed. -/
theorem closed_dropLast (h : Transcript events opened addressed link connected past now) :
    ∀ call ∈ (past ++ now.toList).dropLast, 0 < call.endings := by
  intro call hcall
  refine h.past call ?_
  cases now with
  | none => exact List.dropLast_subset _ (by simpa using hcall)
  | some last => simpa using hcall

/-- An end is connected exactly if its last call was not closed. -/
theorem connected_iff (h : Transcript events opened addressed link connected past now)
    (hlink : connected → link ≠ none) :
    connected ↔ ∃ call, (past ++ now.toList).getLast? = some call ∧ call.endings = 0 := by
  cases now with
  | none =>
    refine iff_of_false (fun hconnected => hlink hconnected h.link.symm) ?_
    rintro ⟨call, hlast, hzero⟩
    have hmem : call ∈ past := List.mem_of_getLast? (by simpa using hlast)
    exact absurd hzero (Nat.ne_of_gt (h.past call hmem))
  | some last =>
    refine (h.now last rfl).symm.trans ⟨fun hzero => ⟨last, by simp, hzero⟩, ?_⟩
    rintro ⟨call, hlast, hzero⟩
    obtain rfl : last = call := by simpa using hlast
    exact hzero

end Transcript

/-! ## Journals -/

open Network (Wired Coherent SamePorts Queued)

instance (n : Network) (op : Network.Op) : Decidable (op.Live n) :=
  match op with
  | .addServer | .addClient => inferInstanceAs (Decidable True)
  | .bind s _ | .unbind s | .sendToOne s _ _ | .sendToAll s _ _ | .takeMessage s =>
    inferInstanceAs (Decidable (n.server? s ≠ none))
  | .connect c _ | .disconnect c | .send c _ | .takeEvent c =>
    inferInstanceAs (Decidable (n.client? c ≠ none))

/-- A network and what has been done on it. -/
structure Journal where
  network : Network := {}
  /-- The connections that a client end has made. -/
  opened : ClientKey → List ConnectionId := fun _ => []
  /-- The messages that a server end addressed to a connection while it had it. -/
  addressed : ConnectionId → List Bytes := fun _ => []
  /-- The events that a client end has taken. -/
  told : ClientKey → List LinkEvent := fun _ => []
  /-- The messages that were sent to a server end on open connections, and those that it has taken,
  since it was last bound or unbound. -/
  posted : ServerKey → List (ConnectionId × Bytes) := fun _ => []
  taken : ServerKey → List (ConnectionId × Bytes) := fun _ => []

namespace Journal

/-- An operation is done, and what comes of it is written down. -/
def record (j : Journal) (op : Network.Op) : Journal :=
  let n := j.network
  let next := { j with network := n.perform op }
  match op with
  | .connect c _ =>
    let made := (next.network.link? c).map (·.connection)
    { next with opened := Function.update j.opened c (j.opened c ++ made.toList) }
  | .sendToOne s data id =>
    if (n.connections s).contains id then
      { next with addressed := Function.update j.addressed id (j.addressed id ++ [data]) }
    else next
  | .sendToAll s data exclude =>
    { next with
      addressed := fun id =>
        if (n.connections s).contains id ∧ some id ≠ exclude then j.addressed id ++ [data]
        else j.addressed id }
  | .send c data =>
    match n.link? c, n.isConnected c with
    | some link, true =>
      let server := link.listener.server
      let sent := j.posted server ++ [(link.connection, data)]
      { next with posted := Function.update j.posted server sent }
    | _, _ => next
  | .takeEvent c =>
    let event := (n.takeEvent? c).map (·.1)
    { next with told := Function.update j.told c (j.told c ++ event.toList) }
  | .takeMessage s =>
    let message := (n.takeMessage? s).map (·.1)
    { next with taken := Function.update j.taken s (j.taken s ++ message.toList) }
  | .bind s _ | .unbind s =>
    { next with
      posted := Function.update j.posted s []
      taken := Function.update j.taken s [] }
  | .addServer | .addClient | .disconnect _ => next

/-- An operation of an end that is not there is none. -/
def play (j : Journal) (op : Network.Op) : Journal :=
  if op.Live j.network then j.record op else j

def playAll (j : Journal) (ops : List Network.Op) : Journal := ops.foldl play j

/-- All events that were ever queued for a client end. -/
def queued (j : Journal) (c : ClientKey) : List LinkEvent := j.told c ++ j.network.news c

/-- What a client end has heard is a transcript. -/
def Transcribed (j : Journal) (c : ClientKey) : Prop :=
  ∃ past now, Transcript (j.queued c) (j.opened c) j.addressed
    ((j.network.link? c).map (·.connection)) (j.network.isConnected c = true) past now

variable {j j' : Journal} {c x : ClientKey} {s : ServerKey} {l : ListenerKey}
  {id : ConnectionId} {n' : Network}

/-- A message over an open connection is posted to its server end. -/
theorem record_send (h : Wired j.network c s id) (data : Bytes) :
    j.record (.send c data) = { j with
      network := (j.network.send c data).1
      posted := Function.update j.posted s (j.posted s ++ [(id, data)]) } := by
  obtain ⟨l, hlink, hsocket⟩ := h.link
  obtain rfl := Network.server_of_socket? hsocket
  simp only [record, hlink, h.isConnected]
  rfl

/-- What a client end has heard stays a transcript where nothing is seen of what happened. -/
theorem Transcribed.congr (h : j.Transcribed x) (hqueued : j'.queued x = j.queued x)
    (hopened : j'.opened x = j.opened x)
    (haddressed : ∀ id ∈ j.opened x, j'.addressed id = j.addressed id)
    (hlink : j'.network.link? x = j.network.link? x)
    (hconnected : j'.network.isConnected x = j.network.isConnected x) : j'.Transcribed x := by
  obtain ⟨past, now, ht⟩ := h
  refine ⟨past, now, ?_⟩
  rw [hqueued, hopened, hlink, hconnected]
  exact ht.congr haddressed

/-- The tables fit together, no number is used twice, what the client ends have heard are
transcripts, and what was taken and what waits is what was sent. -/
structure Sound (j : Journal) : Prop where
  coherent : j.network.Coherent
  number : ∀ c, ∀ id ∈ j.opened c, id.val ≤ j.network.connectionCount
  nodup : ∀ c, (j.opened c).Nodup
  sole : ∀ {c d id}, id ∈ j.opened c → id ∈ j.opened d → c = d
  made : ∀ {c link}, j.network.link? c = some link → link.connection ∈ j.opened c
  silent : ∀ id, j.network.connectionCount < id.val → j.addressed id = []
  transcribed : ∀ c, j.Transcribed c
  backlog : ∀ s, j.taken s ++ j.network.inbox s = j.posted s

namespace Sound

theorem new : Sound {} := by
  refine ⟨Network.coherent_empty, ?_, ?_, ?_, ?_, fun _ _ => rfl, fun c => ?_, fun s => rfl⟩
  · simp
  · simp
  · simp
  · simp [Network.link?, Network.client?]
  · refine ⟨[], none, rfl, rfl, ?_, ?_, rfl, ?_⟩ <;> simp

/-- Where no connection is opened and none is addressed, only what is queued and what waits is
left to see to. -/
theorem of_links (h : j.Sound) {j' : Journal} (hcoherent : j'.network.Coherent)
    (hcount : j'.network.connectionCount = j.network.connectionCount)
    (hlink : ∀ {c link}, j'.network.link? c = some link → j.network.link? c = some link)
    (hopened : j'.opened = j.opened) (haddressed : j'.addressed = j.addressed)
    (htranscribed : ∀ c, j'.Transcribed c)
    (hbacklog : ∀ s, j'.taken s ++ j'.network.inbox s = j'.posted s) : j'.Sound where
  coherent := hcoherent
  number c id hid := by
    rw [hopened] at hid
    exact hcount ▸ h.number c id hid
  nodup c := hopened ▸ h.nodup c
  sole hc hd := by
    rw [hopened] at hc hd
    exact h.sole hc hd
  made hl := hopened ▸ h.made (hlink hl)
  silent id hid := haddressed ▸ h.silent id (hcount ▸ hid)
  transcribed := htranscribed
  backlog := hbacklog

/-- Where the network is seen as it was, the journal stays sound. -/
theorem of_network (h : j.Sound) (hcoherent : n'.Coherent)
    (hcount : n'.connectionCount = j.network.connectionCount)
    (hlink : n'.link? = j.network.link?) (hroster : n'.roster = j.network.roster)
    (hnews : n'.news = j.network.news) (hinbox : n'.inbox = j.network.inbox) :
    Sound { j with network := n' } := by
  refine h.of_links hcoherent hcount (fun hl => hlink ▸ hl) rfl rfl (fun c => ?_) fun s => ?_
  · refine (h.transcribed c).congr ?_ rfl (fun _ _ => rfl) (congrFun hlink c)
      (Network.isConnected_congr (congrFun hlink c) (congrFun hroster))
    rw [queued, queued, hnews]
  · rw [hinbox, h.backlog]

/-! ### What goes over open connections -/

/-- A connection that is open is one of its client end, and of no other. -/
theorem mem_opened (h : j.Sound) (hwired : Wired j.network c s id) : id ∈ j.opened c := by
  obtain ⟨l, hlink, -⟩ := hwired.link
  exact h.made hlink

theorem send (h : j.Sound) (c : ClientKey) (data : Bytes) : Sound (j.record (.send c data)) := by
  by_cases hconnected : j.network.isConnected c = true
  · obtain ⟨s, id, hwired⟩ := h.coherent.isConnected_iff.1 hconnected
    have hports := j.network.samePorts_send c data
    have hmoved := (hwired.moved_send data).2
    rw [record_send hwired]
    refine h.of_links (h.coherent.send c data) hports.counts.2.2 (fun hl => hports.link _ ▸ hl)
      rfl rfl (fun x => ?_) fun k => ?_
    · refine (h.transcribed x).congr ?_ rfl (fun _ _ => rfl) (hports.link x)
        (hports.isConnected x)
      rw [queued, queued, hmoved.news]
    · show j.taken k ++ (j.network.send c data).1.inbox k = Function.update j.posted s _ k
      rw [hmoved.inbox, Function.update_apply]
      split
      · next hk => rw [hk, ← List.append_assoc, h.backlog]
      · exact h.backlog k
  · rw [Bool.not_eq_true] at hconnected
    have hrecord : j.record (.send c data) = j := by
      simp only [record, Network.perform, Network.send_of_not_isConnected hconnected, hconnected]
      cases j.network.link? c <;> rfl
    rwa [hrecord]

/-- Messages are heard at the ends of the open connections that they are addressed to. -/
theorem hear (h : j.Sound) (data : Bytes) {added : ClientKey → List LinkEvent}
    (hqueued : Queued j.network n' added) {addressed' : ConnectionId → List Bytes}
    (hheard : ∀ {x s id}, Wired j.network x s id →
      added x = [.received data] ∧ addressed' id = j.addressed id ++ [data] ∨
        added x = [] ∧ addressed' id = j.addressed id)
    (hapart : ∀ {x}, (∀ s id, ¬ Wired j.network x s id) → added x = [])
    (hclosed : ∀ {id}, (∀ x s, ¬ Wired j.network x s id) → addressed' id = j.addressed id) :
    Sound { j with network := n', addressed := addressed' } := by
  have hports := hqueued.samePorts
  refine ⟨h.coherent.queued hqueued, ?_, h.nodup, h.sole, ?_, fun id hid => ?_, fun x => ?_,
    fun s => ?_⟩
  · exact fun x id hid => hports.counts.2.2 ▸ h.number x id hid
  · exact fun hl => h.made (hports.link _ ▸ hl)
  · have hid : j.network.connectionCount < id.val := hports.counts.2.2 ▸ hid
    refine (hclosed fun x s hwired => ?_).trans (h.silent id hid)
    exact Nat.not_le.2 hid (h.number x id (h.mem_opened hwired))
  · by_cases hconnected : j.network.isConnected x = true
    · obtain ⟨s, id, hwired⟩ := h.coherent.isConnected_iff.1 hconnected
      have hnews : n'.news x = j.network.news x ++ added x := by
        obtain ⟨d, hd⟩ := hwired.client
        exact hqueued.news (by rw [hd]; simp)
      -- no other connection that this end has made is open
      have hothers : ∀ id' ∈ j.opened x, id' ≠ id → addressed' id' = j.addressed id' := by
        refine fun id' hid' hne => hclosed fun y s' hother => hne ?_
        obtain rfl := h.sole hid' (h.mem_opened hother)
        exact ((h.coherent.wired_unique hother hwired).1 rfl)
      obtain ⟨past, now, ht⟩ := h.transcribed x
      rw [hwired.map_link?] at ht
      rcases hheard hwired with ⟨hadded, haddressed⟩ | ⟨hadded, haddressed⟩
      · obtain ⟨now', ht'⟩ := ht.hear hconnected (h.nodup x) haddressed hothers
        refine ⟨past, now', ?_⟩
        rw [queued, hnews, hadded, ← List.append_assoc, hports.link, hwired.map_link?,
          hports.isConnected]
        exact ht'
      · refine (h.transcribed x).congr ?_ rfl (fun id' hid' => ?_) (hports.link x)
          (hports.isConnected x)
        · rw [queued, hnews, hadded, List.append_nil, queued]
        · by_cases hne : id' = id
          · exact hne ▸ haddressed
          · exact hothers id' hid' hne
    · have hnot : ∀ s id, ¬ Wired j.network x s id := fun s id hwired =>
        hconnected hwired.isConnected
      refine (h.transcribed x).congr ?_ rfl (fun id' hid' => hclosed fun y s' hother => ?_)
        (hports.link x) (hports.isConnected x)
      · rw [queued, hqueued.news_of_nil (hapart hnot), queued]
      · obtain rfl := h.sole hid' (h.mem_opened hother)
        exact hnot _ _ hother
  · rw [hqueued.inbox, h.backlog]

theorem sendToOne (h : j.Sound) (s : ServerKey) (data : Bytes) (id : ConnectionId) :
    Sound (j.record (.sendToOne s data id)) := by
  rcases h.coherent.sendToOne_cases s data id with ⟨c, hwired, heq⟩ | ⟨hnone, hnetwork⟩
  · have hrecord : j.record (.sendToOne s data id) = { j with
        network := j.network.tell c (.received data)
        addressed := Function.update j.addressed id (j.addressed id ++ [data]) } := by
      have hid : (j.network.connections s).contains id = true := by
        rw [Std.ExtTreeMap.contains_eq_isSome_getElem?, hwired.connection]
        rfl
      simp only [record, Network.perform, heq, if_pos hid]
    rw [hrecord]
    refine h.hear data (j.network.queued_tell c (.received data)) (fun {x s' id'} hother => ?_)
      (fun {x} hnot => if_neg ?_) fun {id'} hnot => ?_
    · have hiff := h.coherent.wired_unique hwired hother
      by_cases hid : id' = id
      · exact .inl ⟨if_pos (hiff.2 hid.symm), by rw [hid, Function.update_self]⟩
      · exact .inr ⟨if_neg fun hx => hid (hiff.1 hx).symm, Function.update_of_ne hid _ _⟩
    · rintro rfl
      exact hnot _ _ hwired
    · refine Function.update_of_ne ?_ _ _
      rintro rfl
      exact hnot _ _ hwired
  · have hrecord : j.record (.sendToOne s data id) = j := by
      simp only [record, Network.perform, hnetwork, hnone, Bool.false_eq_true, if_false]
    rwa [hrecord]

theorem sendToAll (h : j.Sound) (s : ServerKey) (data : Bytes) (exclude : Option ConnectionId) :
    Sound (j.record (.sendToAll s data exclude)) := by
  have hcontains : ∀ id, (j.network.connections s).contains id = true ↔
      ∃ x, Wired j.network x s id := by
    intro id
    rw [Std.ExtTreeMap.contains_eq_isSome_getElem?, Option.isSome_iff_exists]
    exact ⟨fun ⟨x, hx⟩ => ⟨x, h.coherent.wired hx⟩, fun ⟨x, hx⟩ => ⟨x, hx.connection⟩⟩
  have htold := j.network.queued_tellAll (j.network.reached s exclude) (.received data)
  rw [← Network.sendToAll_reached] at htold
  refine h.hear data htold (fun {x s' id} hwired => ?_) (fun {x} hnot => ?_)
    fun {id} hnot => if_neg ?_
  · by_cases hs : s' = s
    · subst hs
      rw [h.coherent.count_reached hwired]
      by_cases hexclude : some id = exclude
      · exact .inr ⟨by rw [if_pos hexclude]; rfl, if_neg fun hboth => hboth.2 hexclude⟩
      · exact .inl ⟨by rw [if_neg hexclude]; rfl, if_pos ⟨(hcontains id).2 ⟨x, hwired⟩, hexclude⟩⟩
    · -- the connection is another end's
      have hnot : ∀ {y id'}, Wired j.network y s id' → y = x ∨ id' = id → False := by
        intro y id' hother hsame
        have hx : y = x := hsame.elim (fun hx => hx) (h.coherent.wired_unique hother hwired).2
        exact hs (hwired.unique (hx ▸ hother)).1
      refine .inr ⟨?_, if_neg fun hboth => ?_⟩
      · rw [h.coherent.count_reached_of_not fun id' hother => hnot hother (.inl rfl)]
        rfl
      · obtain ⟨y, hother⟩ := (hcontains id).1 hboth.1
        exact hnot hother (.inr rfl)
  · rw [h.coherent.count_reached_of_not (hnot s)]
    rfl
  · rintro ⟨hmem, -⟩
    obtain ⟨x, hwired⟩ := (hcontains id).1 hmem
    exact hnot x s hwired

/-! ### What is taken -/

theorem takeMessage (h : j.Sound) (s : ServerKey) : Sound (j.record (.takeMessage s)) := by
  cases ht : j.network.takeMessage? s with
  | none =>
    have hrecord : j.record (.takeMessage s) = j := by
      simp only [record, Network.perform, ht, Option.map_none, Option.getD_none, Option.toList_none,
        List.append_nil, Function.update_eq_self]
    rwa [hrecord]
  | some taken =>
    obtain ⟨message, n'⟩ := taken
    have hrecord : j.record (.takeMessage s) = { j with
        network := n'
        taken := Function.update j.taken s (j.taken s ++ [message]) } := by
      simp only [record, Network.perform, ht]
      rfl
    obtain ⟨rest, hinbox, hmoved⟩ := Network.moved_takeMessage? ht
    have hports := Network.samePorts_takeMessage? ht
    rw [hrecord]
    refine h.of_links (h.coherent.takeMessage? ht) hports.counts.2.2 (fun hl => hports.link _ ▸ hl)
      rfl rfl (fun x => ?_) fun k => ?_
    · refine (h.transcribed x).congr ?_ rfl (fun _ _ => rfl) (hports.link x)
        (hports.isConnected x)
      rw [queued, queued, hmoved.news]
    · show Function.update j.taken s _ k ++ n'.inbox k = j.posted k
      rw [hmoved.inbox, Function.update_apply]
      split
      · next hk => rw [hk, List.append_assoc, List.singleton_append, ← hinbox, h.backlog]
      · exact h.backlog k

/-- An event that is taken was queued before; a link that is forgotten was to a connection that is
closed. -/
theorem takeEvent (h : j.Sound) (c : ClientKey) : Sound (j.record (.takeEvent c)) := by
  cases ht : j.network.takeEvent? c with
  | none =>
    have hrecord : j.record (.takeEvent c) = j := by
      simp only [record, Network.perform, ht, Option.map_none, Option.getD_none, Option.toList_none,
        List.append_nil, Function.update_eq_self]
    rwa [hrecord]
  | some taken =>
    obtain ⟨e, n'⟩ := taken
    have hrecord : j.record (.takeEvent c) = { j with
        network := n'
        told := Function.update j.told c (j.told c ++ [e]) } := by
      simp only [record, Network.perform, ht]
      rfl
    have hcloses := Network.closes_takeEvent? h.coherent ht
    have hlink := Network.link?_takeEvent? ht
    have hviews := Network.views_takeEvent? ht
    rw [hrecord]
    refine h.of_links (h.coherent.takeEvent? ht) hcloses.counts.2.2 hcloses.link rfl rfl
      (fun x => ?_) fun k => ?_
    · have hqueued : Function.update j.told c (j.told c ++ [e]) x ++ n'.news x = j.queued x := by
        rw [Function.update_apply, queued]
        split
        · next hx =>
          rw [hx, Network.news_takeEvent? ht, List.append_assoc]
          rfl
        · next hx => rw [Network.news_takeEvent?_of_ne ht hx]
      have hlinkx := hlink x
      split at hlinkx
      · next hforgets =>
        obtain ⟨rfl, -, hnot⟩ := hforgets
        obtain ⟨past, now, htranscript⟩ := h.transcribed x
        have hclosed : ¬ j.network.isConnected x = true := by
          rw [hnot]
          exact Bool.false_ne_true
        refine ⟨past ++ now.toList, none, ?_⟩
        rw [queued, hqueued, hlinkx, Network.isConnected_of_link?_eq_none hlinkx]
        exact (htranscript.of_iff (iff_of_false hclosed not_false)).forget.of_iff (by simp)
      · exact (h.transcribed x).congr hqueued rfl (fun _ _ => rfl) hlinkx
          (Network.isConnected_congr hlinkx (congrFun hviews.1))
    · rw [hviews.2, h.backlog]

/-! ### New ends -/

theorem addServer (h : j.Sound) : Sound (j.record .addServer) := by
  obtain ⟨-, -, hinbox⟩ := h.coherent.views_addServer
  exact h.of_network h.coherent.addServer rfl rfl rfl rfl hinbox

theorem addClient (h : j.Sound) : Sound (j.record .addClient) := by
  obtain ⟨-, hlink, hnews⟩ := h.coherent.views_addClient
  exact h.of_network h.coherent.addClient rfl hlink rfl hnews rfl

/-! ### Closing and opening -/

theorem disconnect (h : j.Sound) (c : ClientKey) : Sound (j.record (.disconnect c)) := by
  cases hl : j.network.link? c with
  | none =>
    have hrecord : j.record (.disconnect c) = j := by
      simp only [record, Network.perform, Network.disconnect_of_none hl]
    rwa [hrecord]
  | some link =>
    have hcloses := Network.closes_disconnect hl h.coherent
    have hlink := Network.link?_disconnect hl
    refine h.of_links (h.coherent.disconnect c) hcloses.counts.2.2 hcloses.link rfl rfl
      (fun x => ?_) fun k => ?_
    · have hnews := Network.news_disconnect hl x
      have hlinkx := hlink x
      split at hnews
      · next hx =>
        subst hx
        rw [if_pos rfl] at hlinkx
        obtain ⟨past, now, ht⟩ := h.transcribed x
        rw [hl] at ht
        obtain ⟨now', ht'⟩ := ht.close
        refine ⟨past ++ now'.toList, none, ?_⟩
        have hqueued : (j.record (.disconnect x)).queued x = j.queued x ++ [.disconnected] :=
          (congrArg (j.told x ++ ·) hnews).trans (List.append_assoc _ _ _).symm
        have hlink' : (j.record (.disconnect x)).network.link? x = none := hlinkx
        rw [hqueued, hlink', Network.isConnected_of_link?_eq_none hlink']
        exact ht'.forget.of_iff (by simp)
      · next hx =>
        rw [if_neg hx] at hlinkx
        exact (h.transcribed x).congr (congrArg (j.told x ++ ·) hnews) rfl (fun _ _ => rfl) hlinkx
          (Network.isConnected_disconnect hl h.coherent hx)
    · show j.taken k ++ (j.network.disconnect c).inbox k = j.posted k
      rw [Network.inbox_disconnect hl, h.backlog]

/-- A connection that is opened has a number that no other had. -/
theorem opened (h : j.Sound) (hc : j.network.client? c ≠ none) (hlink : j.network.link? c = none)
    (hl : j.network.receiver? l.server = some l) :
    Sound { j with
      network := j.network.opened c l
      opened := Function.update j.opened c
        (j.opened c ++ [⟨j.network.connectionCount + 1⟩]) } := by
  have hopened := Network.wired_opened hc ((h.coherent.socket?_eq _).trans hl)
  have hold {x : ClientKey} {id : ConnectionId} (hid : id ∈ j.opened x) :
      id ≠ ⟨j.network.connectionCount + 1⟩ := by
    rintro rfl
    exact Nat.not_succ_le_self _ (h.number x _ hid)
  have hmem {x : ClientKey} {id : ConnectionId} :
      id ∈ Function.update j.opened c (j.opened c ++ [⟨j.network.connectionCount + 1⟩]) x ↔
        id ∈ j.opened x ∨ x = c ∧ id = ⟨j.network.connectionCount + 1⟩ := by
    rw [Function.update_apply]
    split
    · next hx => simp [hx]
    · next hx => simp [hx]
  refine ⟨h.coherent.opened hc hlink hl, fun x id hid => ?_, fun x => ?_,
    fun {x y id} hx hy => ?_, fun {x made} hmade => ?_, fun id hid => ?_, fun x => ?_, fun k => ?_⟩
  · show id.val ≤ j.network.connectionCount + 1
    rcases hmem.1 hid with hid | ⟨-, rfl⟩
    · exact Nat.le_succ_of_le (h.number x id hid)
    · exact Nat.le_refl _
  · show (Function.update j.opened c _ x).Nodup
    rw [Function.update_apply]
    split
    · refine List.nodup_append.2 ⟨h.nodup c, by simp, ?_⟩
      intro id hid id' hid'
      rw [List.mem_singleton.1 hid']
      exact hold hid
    · exact h.nodup x
  · rcases hmem.1 hx with hx | ⟨hxc, hx⟩ <;> rcases hmem.1 hy with hy | ⟨hyc, hy⟩
    · exact h.sole hx hy
    · exact absurd hy (hold hx)
    · exact absurd hx (hold hy)
    · rw [hxc, hyc]
  · rw [Network.link?_opened hc] at hmade
    split at hmade
    · next hx =>
      cases hmade
      exact hmem.2 (.inr ⟨hx, rfl⟩)
    · exact hmem.2 (.inl (h.made hmade))
  · exact h.silent id (Nat.lt_of_succ_lt hid)
  · have hnews := Network.news_opened hc l x
    have hlinkx := Network.link?_opened hc l x
    split at hnews
    · next hx =>
      subst hx
      rw [if_pos rfl] at hlinkx
      obtain ⟨past, now, ht⟩ := h.transcribed x
      rw [hlink] at ht
      have hnew := ht.begin (h.silent ⟨j.network.connectionCount + 1⟩ (Nat.lt_succ_self _))
      refine ⟨past, some { connection := ⟨j.network.connectionCount + 1⟩ }, ?_⟩
      rw [queued, hnews, hlinkx, ← List.append_assoc]
      show Transcript _ (Function.update j.opened x _ x) _ _ _ _ _
      rw [Function.update_self]
      exact hnew.of_iff (iff_of_true trivial hopened.isConnected)
    · next hx =>
      rw [if_neg hx] at hlinkx
      exact (h.transcribed x).congr (congrArg (j.told x ++ ·) hnews)
        (Function.update_of_ne hx _ _) (fun _ _ => rfl) hlinkx
        (Network.isConnected_opened h.coherent hc (h.coherent.mailbox hl) hx)
  · show j.taken k ++ (j.network.opened c l).inbox k = j.posted k
    rw [Network.inbox_opened, h.backlog]

theorem connect (h : j.Sound) (hc : j.network.client? c ≠ none) (p : Endpoint) :
    Sound (j.record (.connect c p)) := by
  have hclosed := h.disconnect c
  obtain ⟨hc', hlink⟩ := Network.gone_disconnect h.coherent hc
  cases hp : (j.network.disconnect c).endpoints[p]? with
  | none =>
    have hrecord : j.record (.connect c p) = j.record (.disconnect c) := by
      simp only [record, Network.perform, Network.connect_eq, hp, hlink, Option.map_none,
        Option.toList_none, List.append_nil, Function.update_eq_self]
    rwa [hrecord]
  | some l =>
    have hmade : ((j.network.disconnect c).opened c l).link? c = _ :=
      (Network.link?_opened hc' l c).trans (if_pos rfl)
    have hrecord : j.record (.connect c p) = { j.record (.disconnect c) with
        network := (j.network.disconnect c).opened c l
        opened := Function.update j.opened c
          (j.opened c ++ [⟨(j.network.disconnect c).connectionCount + 1⟩]) } := by
      simp only [record, Network.perform, Network.connect_eq, hp, hmade]
      rfl
    rw [hrecord]
    exact hclosed.opened hc' hlink (hclosed.coherent.receiver_of_endpoint hp)

/-- The call of a connection to a server end that is unbound is closed. -/
theorem transcribed_unbind (h : j.Sound) (hwired : Wired j.network x s id) :
    (j.record (.unbind s)).Transcribed x := by
  obtain ⟨past, now, ht⟩ := h.transcribed x
  rw [hwired.map_link?] at ht
  obtain ⟨now', ht'⟩ := ht.close
  refine ⟨past, now', ?_⟩
  have hclosed : (j.network.unbind s).isConnected x ≠ true := by
    rw [ne_eq, (h.coherent.unbind s).isConnected_iff]
    rintro ⟨k, id', hopen⟩
    obtain ⟨hold, hk⟩ := h.coherent.wired_unbind_iff.1 hopen
    exact hk (hold.unique hwired).1
  have hqueued : (j.record (.unbind s)).queued x = j.queued x ++ [.disconnected] :=
    (congrArg (j.told x ++ ·) (h.coherent.news_unbind hwired)).trans
      (List.append_assoc _ _ _).symm
  have hlink : ((j.record (.unbind s)).network.link? x).map (·.connection) = some id :=
    (congrArg _ (h.coherent.link?_unbind s x)).trans hwired.map_link?
  rw [hqueued, hlink]
  exact ht'.of_iff (iff_of_false not_false hclosed)

/-- Nobody else hears of it. -/
theorem transcribed_unbind_of_not (h : j.Sound) (hnot : ∀ id, ¬ Wired j.network x s id) :
    (j.record (.unbind s)).Transcribed x := by
  refine (h.transcribed x).congr
    (congrArg (j.told x ++ ·) (h.coherent.news_unbind_of_not hnot)) rfl (fun _ _ => rfl)
    (h.coherent.link?_unbind s x) (Bool.eq_iff_iff.2 ?_)
  refine (h.coherent.unbind s).isConnected_iff.trans (.trans ?_ h.coherent.isConnected_iff.symm)
  refine exists_congr fun k => exists_congr fun id =>
    h.coherent.wired_unbind_iff.trans (and_iff_left_of_imp ?_)
  rintro hwired rfl
  exact hnot id hwired

/-- A server end that is unbound closes its connections, and begins anew. -/
theorem unbind (h : j.Sound) (s : ServerKey) : Sound (j.record (.unbind s)) := by
  refine h.of_links (h.coherent.unbind s) (h.coherent.connectionCount_unbind s)
    (fun hl => (h.coherent.link?_unbind s _).symm.trans hl) rfl rfl (fun x => ?_)
    fun k => ?_
  · by_cases hx : ∃ id, Wired j.network x s id
    · obtain ⟨id, hwired⟩ := hx
      exact h.transcribed_unbind hwired
    · exact h.transcribed_unbind_of_not fun id hwired => hx ⟨id, hwired⟩
  · show Function.update j.taken s [] k ++ (j.network.unbind s).inbox k =
      Function.update j.posted s [] k
    rw [h.coherent.inbox_unbind, Function.update_apply, Function.update_apply]
    split
    · rfl
    · exact h.backlog k

theorem bind (h : j.Sound) (hs : j.network.server? s ≠ none) (p : Endpoint) :
    Sound (j.record (.bind s p)) := by
  have hclosed := h.unbind s
  by_cases hp : (j.network.unbind s).endpoints.contains p = true
  · have hrecord : j.record (.bind s p) = j.record (.unbind s) := by
      simp only [record, Network.perform, h.coherent.bind_eq, if_pos hp]
    rwa [hrecord]
  · have hrecord : j.record (.bind s p) = { j.record (.unbind s) with
        network := (j.network.unbind s).listen s p } := by
      simp only [record, Network.perform, h.coherent.bind_eq, if_neg hp]
    have hnone : (j.network.unbind s).bound? s = none := by
      rw [h.coherent.bound?_unbind, if_pos rfl]
    rw [Std.ExtTreeMap.contains_eq_isSome_getElem?] at hp
    obtain ⟨hroster, hinbox⟩ := hclosed.coherent.views_listen (p := p) hnone
    rw [hrecord]
    exact hclosed.of_network (hclosed.coherent.listen
      (mt h.coherent.server?_unbind_eq_none_iff.1 hs) hnone
      (Option.not_isSome_iff_eq_none.1 hp)) rfl rfl hroster rfl hinbox

/-- Every operation of an end that is there keeps the journal sound. -/
theorem play (h : j.Sound) (op : Network.Op) : (j.play op).Sound := by
  unfold Journal.play
  split
  · next hlive =>
    cases op with
    | addServer => exact h.addServer
    | addClient => exact h.addClient
    | bind s p => exact h.bind hlive p
    | unbind s => exact h.unbind s
    | connect c p => exact h.connect hlive p
    | disconnect c => exact h.disconnect c
    | send c data => exact h.send c data
    | sendToOne s data id => exact h.sendToOne s data id
    | sendToAll s data exclude => exact h.sendToAll s data exclude
    | takeMessage s => exact h.takeMessage s
    | takeEvent c => exact h.takeEvent c
  · exact h

theorem playAll (h : j.Sound) (ops : List Network.Op) : (j.playAll ops).Sound :=
  List.foldlRecOn (motive := Sound) ops Journal.play h fun _ h op _ => h.play op

end Sound

/-- Whatever the ends of a network do, in any order: the events that were ever queued for a client
end are those of calls, one for each connection that it has made, with the messages that were
addressed to it, and all but the last are closed. It is connected exactly if the last is not. What
it sends is accepted while it is connected and refused as not connected otherwise; that nobody is
there to take it is never the reason. A server end has taken, in order, what was sent to it on open
connections since it was last bound or unbound, but for what waits; and what waits first is taken
next. An endpoint is in the table exactly if one server end has bound it. -/
theorem falls_into_sessions (ops : List Network.Op) :
    let j := playAll {} ops
    (∀ c, ∃ calls : List Call, j.told c ++ j.network.news c = calls.flatMap Call.events ∧
      calls.map (·.connection) = j.opened c ∧
      (∀ call ∈ calls, call.messages = j.addressed call.connection) ∧
      (∀ call ∈ calls.dropLast, 0 < call.endings) ∧
      (j.network.isConnected c = true ↔
        ∃ call, calls.getLast? = some call ∧ call.endings = 0)) ∧
    (∀ c data, (j.network.send c data).2 =
      if j.network.isConnected c then .ok () else .error .notConnected) ∧
    (∀ s, j.taken s ++ j.network.inbox s = j.posted s ∧
      (j.network.takeMessage? s).map (·.1) = (j.network.inbox s).head?) ∧
    (∀ p l, j.network.endpoints[p]? = some l ↔ j.network.bound? l.server = some (p, l)) ∧
    ∀ p, p ∈ j.network.endpoints ↔ ∃! s, j.network.endpoint? s = some p := by
  intro j
  have h : j.Sound := Sound.new.playAll ops
  refine ⟨fun c => ?_, h.coherent.send_eq,
    fun s => ⟨h.backlog s, j.network.map_fst_takeMessage? s⟩, h.coherent.endpoint,
    fun p => h.coherent.mem_endpoints_iff⟩
  obtain ⟨past, now, ht⟩ := h.transcribed c
  refine ⟨past ++ now.toList, ht.events, ht.opened, ht.messages, ht.closed_dropLast, ?_⟩
  refine ht.connected_iff fun hconnected => ?_
  obtain ⟨s, id, hwired⟩ := h.coherent.isConnected_iff.1 hconnected
  rw [hwired.map_link?]
  exact Option.some_ne_none id

end Journal
end ParamSync
