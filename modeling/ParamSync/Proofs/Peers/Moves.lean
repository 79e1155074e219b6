import ParamSync.Proofs.Peers.Records
import ParamSync.Proofs.Registry.Ledger

/-!
# A client that moves on

A client end that connects anew has its new connection at once. Its client still has the copy of what
it heard before: it forgets that when it handles the event that the old connection was closed. Until
then what is changed in the old copy is sent over the new connection.

A `Caller` is a client with the journal of the network that it has one end of. The other ends, those
of servers among them, may do anything at any time.

Results:
* `Server.serves_poll`, `Server.serves_tick`, `Caller.exists_served`: what a server does is done by
  other ends.
* `Caller.network_act`: what the client does it does on the network.
* `Caller.Sound.act`: the client knows only parameters that it has heard of.
* `Caller.updates_in_call_iff`: an update that is sent is of a parameter that was received over the
  same connection exactly if no end of an older one waits to be told.
* `Caller.flag_crosses`: a flag of one server is set at another.
-/

namespace ParamSync

open Network (Wired)

/-! ## What a client knows -/

/-- A message that is an update of the parameter. -/
def Packet.IsUpdateOf (x : ParamId) (data : Bytes) : Prop := ∃ p, update? data = some p ∧ p.id = x

/-- A client end was told of an update of the parameter, and since then of the end of no
connection. -/
def Heard (told : List LinkEvent) (x : ParamId) : Prop :=
  ∃ before data after, told = before ++ .received data :: after ∧ .disconnected ∉ after ∧
    Packet.IsUpdateOf x data

theorem Heard.append {told : List LinkEvent} {x : ParamId} (h : Heard told x) {e : LinkEvent}
    (he : e ≠ .disconnected) : Heard (told ++ [e]) x := by
  obtain ⟨before, data, after, rfl, hafter, hdata⟩ := h
  refine ⟨before, data, after ++ [e], by rw [List.append_assoc, List.cons_append], ?_, hdata⟩
  simpa [hafter] using he.symm

theorem heard_last (told : List LinkEvent) {data : Bytes} {x : ParamId}
    (h : Packet.IsUpdateOf x data) : Heard (told ++ [.received data]) x :=
  ⟨told, data, [], rfl, List.not_mem_nil, h⟩

namespace Client

/-- A message enters nobody into the copy but the parameter of which it is an update. -/
theorem contains_receive {c : Client} {data : Bytes} {x : ParamId}
    (h : (c.receive data).1.registry.contains x = true) :
    c.registry.contains x = true ∨ Packet.IsUpdateOf x data := by
  obtain ⟨hx, halive⟩ := Registry.contains_iff_ne_root.1 h
  rw [Registry.contains_iff_ne_root]
  cases hupdate : Packet.update? data with
  | some p =>
    rw [c.receive_parameter hupdate] at halive
    exact ((Registry.alive_merge_iff hx).1 halive).imp (⟨hx, ·⟩) (⟨p, hupdate, ·⟩)
  | none =>
    -- no other message asks for a merge
    suffices hnarrows : Registry.Narrows c.registry (c.receive data).1.registry from
      .inl ⟨hx, mt (hnarrows.gone x hx) halive⟩
    have hreceives := c.receives data
    generalize c.receive data = result at hreceives ⊢
    cases hreceives with
    | parameter hp => cases hupdate.symm.trans hp
    | removal _ id =>
      unfold receiveRemoval
      split
      · exact c.registry.narrows_removeDirect id
      · exact .refl _
    | value _ u =>
      unfold receiveValue
      split
      · exact .refl _
      · next hu =>
        obtain ⟨p, p', -, -, -, hr⟩ := Registry.applyValue_ok hu
        exact .of_sameLinks (Registry.sameLinks_applyValue hu) (by rw [hr])
    | info _ _ => exact .refl _
    | nothing _ => exact .refl _

end Client

/-! ## What servers do -/

namespace Network

/-- The client end that does it, if it is one. -/
def Op.client? : Op → Option ClientKey
  | connect c _ | disconnect c | send c _ | takeEvent c => some c
  | _ => none

/-- What ends that are not client ends do, and no endpoint is asked for, makes one network of the
other. -/
def Serves (n n' : Network) : Prop :=
  ∃ ops : List Op, (∀ op ∈ ops, op.client? = none ∧ ¬ op.Opens) ∧ ops.foldl perform n = n'

namespace Serves

variable {n n' n'' : Network}

theorem refl (n : Network) : Serves n n := ⟨[], List.forall_mem_nil _, rfl⟩

theorem trans (h : Serves n n') (h' : Serves n' n'') : Serves n n'' := by
  obtain ⟨ops, hops, rfl⟩ := h
  obtain ⟨ops', hops', rfl⟩ := h'
  exact ⟨ops ++ ops', List.forall_mem_append.2 ⟨hops, hops'⟩, List.foldl_append⟩

theorem perform (n : Network) (op : Op) (hclient : op.client? = none) (hopens : ¬ op.Opens) :
    Serves n (n.perform op) :=
  ⟨[op], List.forall_mem_cons.2 ⟨⟨hclient, hopens⟩, List.forall_mem_nil _⟩, rfl⟩

theorem deliver (n : Network) (o : Outgoing) : Serves n (n.deliver o) := by
  cases o with
  | toOne s id messages =>
    rw [Network.deliver]
    induction messages generalizing n with
    | nil => exact refl n
    | cons data messages ih =>
      have hone : Serves n (n.sendToOne s data id).1 :=
        perform n (.sendToOne s data id) rfl not_false
      rw [sendEach]
      split
      · next n' hsent =>
        rw [hsent] at hone
        exact hone.trans (ih n')
      · next n' e hsent =>
        rw [hsent] at hone
        exact hone
  | toAll s data exclude => exact perform n (.sendToAll s data exclude) rfl not_false

theorem deliverAll (n : Network) (os : List Outgoing) : Serves n (os.foldl Network.deliver n) :=
  List.foldlRecOn (motive := Serves n) os Network.deliver (refl n) fun n' h o _ =>
    h.trans (deliver n' o)

end Serves
end Network

namespace Server

open Network (Serves)

/-- A server that polls does what its ends do. -/
theorem serves_poll (w : OnNetwork) : Serves w.network (poll w).1.network := by
  refine poll_induction (P := fun w' => Serves w.network w'.network) ?_ (.refl _)
  intro w' origin key sender data n _ hserves htake
  have htaken : Serves w'.network (w'.network.perform (.takeMessage key)) :=
    .perform w'.network (.takeMessage key) rfl not_false
  rw [Network.perform, htake] at htaken
  exact hserves.trans (htaken.trans (.deliverAll n _))

theorem serves_tick (w : OnNetwork) : Serves w.network (tick w).1.network :=
  .deliverAll w.network _

end Server

/-! ## Callers -/

/-- A client and the journal of the network that it has an end of. -/
structure Caller where
  client : Client := {}
  journal : Journal := {}

namespace Caller

/-- What the client does. -/
inductive Act
  | connect (endpoint : Endpoint)
  | disconnect
  | poll
  | edit (id : ParamId) (accesses : List Parameter.Access)
  | update

/-- What happens next: the client does something, or another end does, or there is a new one. -/
inductive Turn (c : ClientKey)
  | act (a : Act)
  | other (op : Network.Op) (h : op.client? ≠ some c)

variable (c : ClientKey)

def act (w : Caller) : Act → Caller
  | .connect endpoint =>
    { w with journal := ((ClientTransport.ofJournal c).connect endpoint w.journal).1 }
  | .disconnect =>
    let (client, journal) := w.client.disconnect (.ofJournal c) w.journal
    { client, journal }
  | .poll =>
    let (client, journal, _) := w.client.poll (.ofJournal c) w.journal
    { client, journal }
  | .edit id accesses => { w with client := w.client.perform (.edit id accesses) }
  | .update =>
    let (client, journal, _) := w.client.update (.ofJournal c) w.journal
    { client, journal }

variable {c}

def play (w : Caller) : Turn c → Caller
  | .act a => w.act c a
  | .other op _ => { w with journal := w.journal.play op }

def playAll (w : Caller) (turns : List (Turn c)) : Caller := turns.foldl play w

/-- What a server does is a run in which the client does nothing. -/
theorem exists_served (w : Caller) {n' : Network} (h : Network.Serves w.journal.network n') :
    ∃ turns : List (Turn c), (w.playAll turns).client = w.client ∧
      (w.playAll turns).journal.network = n' := by
  obtain ⟨ops, hops, rfl⟩ := h
  induction ops generalizing w with
  | nil => exact ⟨[], rfl, rfl⟩
  | cons op ops ih =>
    obtain ⟨⟨hclient, hopens⟩, hrest⟩ := List.forall_mem_cons.1 hops
    have hother : op.client? ≠ some c := by
      rw [hclient]
      exact nofun
    obtain ⟨turns, hsame, hnetwork⟩ := ih { w with journal := w.journal.play op } hrest
    refine ⟨.other op hother :: turns, hsame, hnetwork.trans ?_⟩
    rw [List.foldl_cons, w.journal.network_play op hopens]

/-- A client does what it does at an end of which no journal is kept. -/
theorem network_act (w : Caller) :
    ((w.act c .poll).client, (w.act c .poll).journal.network) =
        ((w.client.poll (.ofNetwork c) w.journal.network).1,
          (w.client.poll (.ofNetwork c) w.journal.network).2.1) ∧
      ((w.act c .update).client, (w.act c .update).journal.network) =
        ((w.client.update (.ofNetwork c) w.journal.network).1,
          (w.client.update (.ofNetwork c) w.journal.network).2.1) ∧
      ((w.act c .disconnect).client, (w.act c .disconnect).journal.network) =
        w.client.disconnect (.ofNetwork c) w.journal.network := by
  have hshows := Journal.shows_network c
  refine ⟨?_, ?_, ?_⟩
  · rw [Client.poll_of_shows hshows]
    rfl
  · rw [Client.update_of_shows hshows]
    rfl
  · exact congrArg (w.client.reset, ·) (hshows.disconnect w.journal).symm

/-! ### What is kept -/

/-- The journal is sound, the registry is one that a run of operations makes, nothing waits in the
outbox, and the client end has heard of every parameter of the copy. -/
structure Sound (c : ClientKey) (w : Caller) : Prop where
  journal : w.journal.Sound
  reachable : Registry.Reachable (fun _ => Registry.Op.Childless) w.client.registry
  outbox : w.client.outbox = []
  heard : ∀ x, w.client.registry.contains x = true → Heard (w.journal.told c) x

namespace Sound

variable {w : Caller}

theorem new (c : ClientKey) : Sound c {} where
  journal := .new
  reachable := .new
  outbox := rfl
  heard x hx := by
    obtain ⟨hroot, halive⟩ := Registry.contains_iff_ne_root.1 hx
    exact absurd ((Registry.get?_new x).trans (if_neg hroot)) halive

/-- A client that has forgotten its copy need not have heard of anything. -/
theorem reset (h : Sound c w) {journal : Journal} (hjournal : journal.Sound) :
    Sound c { client := w.client.reset, journal } where
  journal := hjournal
  reachable := h.reachable.step .clear trivial
  outbox := rfl
  heard x hx := by
    obtain ⟨hroot, halive⟩ := Registry.contains_iff_ne_root.1 hx
    exact absurd ((Registry.get?_clear _ x).trans (if_neg hroot)) halive

/-- Nothing is heard where nothing is told. -/
theorem of_told (h : Sound c w) {journal : Journal} (hjournal : journal.Sound)
    (htold : journal.told c = w.journal.told c) : Sound c { w with journal } where
  journal := hjournal
  reachable := h.reachable
  outbox := h.outbox
  heard x hx := htold ▸ h.heard x hx

/-- Whatever is done to a borrowed parameter, nobody is entered. -/
theorem edit (h : Sound c w) (id : ParamId) (accesses : List Parameter.Access) :
    Sound c (w.act c (.edit id accesses)) where
  journal := h.journal
  reachable := h.reachable.step (.edit id accesses) trivial
  outbox := h.outbox
  heard x hx := by
    have hnarrows : Registry.Narrows w.client.registry
        (w.client.registry.perform (.edit id accesses)) :=
      Registry.of_orSame (.refl _) fun _ hok => Registry.narrows_edit hok
    obtain ⟨hroot, halive⟩ := Registry.contains_iff_ne_root.1 hx
    refine h.heard x (Registry.contains_iff_ne_root.2 ⟨hroot, ?_⟩)
    exact mt (hnarrows.gone x hroot) halive

/-- A message that is received is heard. -/
theorem receive (h : Sound c w) {data : Bytes} {journal : Journal} (hjournal : journal.Sound)
    (htold : journal.told c = w.journal.told c ++ [.received data]) :
    Sound c { client := (w.client.receive data).1, journal } where
  journal := hjournal
  reachable := by
    rcases w.client.receive_cases data with ⟨info, heq⟩ | ⟨op, hop, heq⟩
    · rw [heq]
      exact h.reachable
    · rw [heq]
      exact h.reachable.step op hop.legal.childless
  outbox := (w.client.tellsNoMore_receive data).1.trans h.outbox
  heard x hx := by
    dsimp only
    rw [htold]
    rcases Client.contains_receive hx with hold | hupdate
    · exact (h.heard x hold).append nofun
    · exact heard_last _ hupdate

/-- An event that is taken is handled. Only requests are sent. -/
theorem handle (h : Sound c w) {e : LinkEvent} {j : Journal}
    (ht : (ClientTransport.ofJournal c).takeEvent? w.journal = some (e, j)) :
    Sound c ⟨(Client.handle (.ofJournal c) w.client j e).1,
        (Client.handle (.ofJournal c) w.client j e).2.1⟩ ∧
      ∀ s, ∃ added, (Client.handle (.ofJournal c) w.client j e).2.1.posted s =
          w.journal.posted s ++ added ∧
        ∀ m ∈ added, m.2 ∈ Client.requests := by
  obtain ⟨rfl, htold, hposted⟩ := Journal.takeEvent?_ok ht
  have hjournal := h.journal.play (.takeEvent c)
  have hnothing : ∀ s, ∃ added, (w.journal.play (.takeEvent c)).posted s =
      w.journal.posted s ++ added ∧ ∀ m ∈ added, m.2 ∈ Client.requests := fun s =>
    ⟨[], by rw [hposted, List.append_nil], List.forall_mem_nil _⟩
  cases e with
  | connected =>
    obtain ⟨hsent, hsame⟩ := hjournal.foldl_send c Client.requests
    refine ⟨⟨hsent, h.reachable, h.outbox, fun x hx => ?_⟩, fun s => ?_⟩
    · have hheard := (h.heard x hx).append (e := .connected) nofun
      rw [← htold, ← hsame] at hheard
      exact hheard
    · rw [← hposted]
      exact Journal.exists_posted_foldl _ c Client.requests s
  | disconnected => exact ⟨h.reset hjournal, hnothing⟩
  | received data => exact ⟨h.receive hjournal htold, hnothing⟩

/-- A poll sends requests only. -/
theorem poll (h : Sound c w) :
    Sound c (w.act c .poll) ∧ ∀ s, ∃ added,
      (w.act c .poll).journal.posted s = w.journal.posted s ++ added ∧
        ∀ m ∈ added, m.2 ∈ Client.requests := by
  refine Client.poll_induction (t := .ofJournal c)
    (P := fun client j => Sound c ⟨client, j⟩ ∧ ∀ s, ∃ added,
      j.posted s = w.journal.posted s ++ added ∧ ∀ m ∈ added, m.2 ∈ Client.requests) ?_
    ⟨h, fun s => ⟨[], (List.append_nil _).symm, List.forall_mem_nil _⟩⟩
  rintro client j e j' ⟨hsound, hposted⟩ ht
  obtain ⟨hnext, hmore⟩ := hsound.handle ht
  refine ⟨hnext, fun s => ?_⟩
  obtain ⟨added, hadded, hrequests⟩ := hposted s
  obtain ⟨more, hposted', hrequests'⟩ := hmore s
  refine ⟨added ++ more, ?_, List.forall_mem_append.2 ⟨hrequests, hrequests'⟩⟩
  rw [hposted', hadded, List.append_assoc]

/-- A client that updates sends a packet for each parameter that it has changed over its connection,
or does nothing, if it has none of one or the other. -/
theorem update_cases (h : Sound c w) :
    w.act c .update = w ∧
        (w.journal.network.isConnected c = false ∨ w.client.registry.unsent = []) ∨
      ∃ s id, Wired w.journal.network c s id ∧
        w.act c .update =
          ⟨{ w.client with
              registry := w.client.registry.encodeRemoved.2.encodeDirty.2
              outbox := [] },
            (w.client.registry.unsent.map (Packet.encodeUpdate · false)).foldl
              (fun j data => j.play (.send c data)) w.journal⟩ := by
  have hact : w.act c .update = ⟨(w.client.update (.ofJournal c) w.journal).1,
      (w.client.update (.ofJournal c) w.journal).2.1⟩ := rfl
  have hconnected : (ClientTransport.ofJournal c).isConnected w.journal =
      w.journal.network.isConnected c := rfl
  rw [Client.update_eq, hconnected] at hact
  cases hdrains : w.journal.network.isConnected c && w.client.hasPending with
  | false =>
    rw [hdrains] at hact
    refine .inl ⟨hact, (Bool.and_eq_false_iff.1 hdrains).imp_right fun hquiet => ?_⟩
    rw [Registry.unsent, (Client.hasPending_eq_false_iff.1 hquiet).2.1]
    rfl
  | true =>
    obtain ⟨s, id, hwired⟩ :=
      h.journal.coherent.isConnected_iff.1 (Bool.and_eq_true_iff.1 hdrains).1
    have hdrained : w.client.drained (.ofJournal c) w.journal =
        w.client.registry.unsent.map (Packet.encodeUpdate · false) := by
      rw [Client.drained, hconnected, if_pos hdrains, Registry.encodeDirty_eq_map]
      rfl
    rw [if_pos hdrains, h.outbox, List.nil_append, hdrained,
      (Journal.flush_eq hwired 0 _).1] at hact
    exact .inr ⟨s, id, hwired, hact⟩

theorem update (h : Sound c w) : Sound c (w.act c .update) := by
  rcases h.update_cases with ⟨hact, -⟩ | ⟨s, id, -, hact⟩
  · rwa [hact]
  · rw [hact]
    obtain ⟨hjournal, htold⟩ := h.journal.foldl_send c
      (w.client.registry.unsent.map (Packet.encodeUpdate · false))
    refine ⟨hjournal, ?_, rfl, fun x hx => ?_⟩
    · exact (h.reachable.step .encodeRemoved trivial).step .encodeDirty trivial
    · dsimp only
      rw [htold]
      obtain ⟨hroot, halive⟩ := Registry.contains_iff_ne_root.1 hx
      have hsame := w.client.registry.encodeRemoved.2.sameLinks_encodeDirty.get?_eq_none_iff x
      exact h.heard x (Registry.contains_iff_ne_root.2 ⟨hroot, mt hsame.2 halive⟩)

/-- What an update sends is posted at the server end of the connection, and nowhere else. -/
theorem posted_update (h : Sound c w) (s : ServerKey) :
    (∃ id, Wired w.journal.network c s id ∧
        (w.act c .update).journal.posted s = w.journal.posted s ++
          w.client.registry.unsent.map fun p => (id, Packet.encodeUpdate p false)) ∨
      (∀ id, ¬ Wired w.journal.network c s id) ∧
        (w.act c .update).journal.posted s = w.journal.posted s := by
  by_cases hopen : ∃ id, Wired w.journal.network c s id
  · obtain ⟨id, hwired⟩ := hopen
    refine .inl ⟨id, hwired, ?_⟩
    rcases h.update_cases with ⟨hact, hclosed | hquiet⟩ | ⟨k, id', hwired', hact⟩
    · rw [hwired.isConnected] at hclosed
      cases hclosed
    · rw [hact, hquiet]
      exact (List.append_nil _).symm
    · obtain ⟨rfl, rfl⟩ := hwired.unique hwired'
      rw [hact, (Journal.flush_eq hwired 0 _).2 s, if_pos rfl, List.map_map]
      rfl
  · refine .inr ⟨fun id hwired => hopen ⟨id, hwired⟩, ?_⟩
    rcases h.update_cases with ⟨hact, -⟩ | ⟨k, id, hwired, hact⟩
    · rw [hact]
    · rw [hact, (Journal.flush_eq hwired 0 _).2 s, if_neg, List.append_nil]
      rintro rfl
      exact hopen ⟨id, hwired⟩

/-- All that is sent when the client does not update are requests. -/
theorem exists_requests (h : Sound c w) {a : Act} (ha : a ≠ .update) (s : ServerKey) :
    ∃ added, (w.act c a).journal.posted s = w.journal.posted s ++ added ∧
      ∀ m ∈ added, m.2 ∈ Client.requests := by
  have hnothing (heq : (w.act c a).journal.posted s = w.journal.posted s) :
      ∃ added, (w.act c a).journal.posted s = w.journal.posted s ++ added ∧
        ∀ m ∈ added, m.2 ∈ Client.requests :=
    ⟨[], heq.trans (List.append_nil _).symm, List.forall_mem_nil _⟩
  cases a with
  | connect endpoint => exact hnothing (congrFun (w.journal.posted_connect c endpoint) s)
  | disconnect => exact hnothing (congrFun (w.journal.posted_disconnect c) s)
  | poll => exact h.poll.2 s
  | edit id accesses => exact hnothing rfl
  | update => exact absurd rfl ha

theorem act (h : Sound c w) (a : Act) : Sound c (w.act c a) := by
  cases a with
  | connect endpoint =>
    exact h.of_told (h.journal.play _) (w.journal.told_play (.connect c endpoint) nofun)
  | disconnect => exact h.reset (h.journal.play _)
  | poll => exact h.poll.1
  | edit id accesses => exact h.edit id accesses
  | update => exact h.update

theorem play (h : Sound c w) (turn : Turn c) : Sound c (w.play turn) := by
  cases turn with
  | act a => exact h.act a
  | other op hother =>
    refine h.of_told (h.journal.play op) (w.journal.told_play op ?_)
    rintro rfl
    exact hother rfl

theorem playAll (h : Sound c w) (turns : List (Turn c)) : Sound c (w.playAll turns) :=
  List.foldlRecOn (motive := Sound c) turns Caller.play h fun _ h turn _ => h.play turn

end Sound

/-- Whatever a client and the other ends of its network do, in any order: each update that the client
sends next is of a parameter that it has changed, and it has received an update of that parameter
over the same connection exactly if it has not still to be told of the end of another. If it updates
while it is connected, it does send one for each parameter that it has changed. -/
theorem updates_in_call_iff (c : ClientKey) (turns : List (Turn c)) (a : Act) :
    let w := playAll {} turns
    ∀ s, ∃ added, (w.act c a).journal.posted s = w.journal.posted s ++ added ∧
      (∀ m ∈ added, Packet.command? m.2 = some .update →
        ∃ p ∈ w.client.registry.unsent, m.2 = Packet.encodeUpdate p false ∧
          ((∃ data, w.journal.Received c m.1 data ∧ Packet.IsUpdateOf p.id data) ↔
            .disconnected ∉ w.journal.network.news c)) ∧
      (a = .update → ∀ id, Wired w.journal.network c s id →
        ∀ p ∈ w.client.registry.unsent, (id, Packet.encodeUpdate p false) ∈ added) := by
  intro w s
  have h : Sound c w := (Sound.new c).playAll turns
  by_cases ha : a = .update
  · subst ha
    rcases h.posted_update s with ⟨id, hwired, hposted⟩ | ⟨hnone, hposted⟩
    · refine ⟨_, hposted, fun m hm _ => ?_, fun _ id' hwired' p hp => ?_⟩
      · obtain ⟨p, hp, rfl⟩ := List.mem_map.1 hm
        have hkeyed := (h.reachable.forest fun _ _ hop => hop).keyed
        have hledger := h.reachable.ledger fun _ _ hop => hop
        -- who is noted is in the copy, and so the client end has heard of it
        have hheard := h.heard p.id (hledger.dirty _ (Registry.mem_unsent hkeyed hp).1)
        exact ⟨p, hp, rfl, h.journal.received_iff hwired hheard⟩
      · obtain ⟨-, rfl⟩ := hwired.unique hwired'
        exact List.mem_map_of_mem hp
    · refine ⟨[], hposted.trans (List.append_nil _).symm, List.forall_mem_nil _, ?_⟩
      exact fun _ id hwired => absurd hwired (hnone id)
  · obtain ⟨added, hposted, hadded⟩ := h.exists_requests ha s
    refine ⟨added, hposted, fun m hm hupdate => ?_, fun heq => absurd heq ha⟩
    exact absurd hupdate (Client.command?_requests _ (hadded m hm))

/-! ### An update at another server -/

/-- Two server ends are bound. The client end connects to the first, which sends a flag; the client
sets it and connects to the second. -/
def rounds : List (Turn ⟨0⟩) :=
  [.other .addServer nofun, .other (.bind ⟨0⟩ 7) nofun, .other .addServer nofun,
    .other (.bind ⟨1⟩ 8) nofun, .other .addClient nofun, .act (.connect 7), .act .poll,
    .other (.sendToOne ⟨0⟩ (Packet.encodeUpdate Registry.flag true) ⟨1⟩) nofun, .act .poll,
    .act (.edit ⟨1⟩ [.edit (.value (some (.boolean true)))]), .act (.connect 8)]

/-- The flag as the client has set it. -/
def setFlag : Parameter :=
  Parameter.accessAll Registry.flag [.edit (.value (some (.boolean true)))]

/-- The client then sends the second server an update of the flag, over a connection on which it has
received nothing. -/
theorem flag_crosses :
    let w := playAll {} rounds
    (w.act ⟨0⟩ .update).journal.posted ⟨1⟩ = [(⟨2⟩, Packet.encodeUpdate setFlag false)] ∧
      setFlag.id = ⟨1⟩ ∧ ∀ data, ¬ w.journal.Received ⟨0⟩ ⟨2⟩ data := by
  refine ⟨by decide +kernel, rfl, ?_⟩
  have hopened : (playAll {} rounds).journal.opened ⟨0⟩ = [⟨1⟩, ⟨2⟩] := by decide +kernel
  have htold : ((playAll {} rounds).journal.told ⟨0⟩).count .connected = 1 := by decide +kernel
  rintro data ⟨before, after, earlier, later, hevents, hids, hcount⟩
  have hearlier : earlier ≠ [] := by
    rintro rfl
    rw [hopened] at hids
    cases hids
  have hbefore : before.count .connected ≤ 1 := by
    rw [← htold, hevents, List.count_append]
    exact Nat.le_add_right _ _
  rw [hcount] at hbefore
  exact hearlier (List.length_eq_zero_iff.1 (Nat.le_zero.1 (Nat.le_of_succ_le_succ hbefore)))

end Caller
end ParamSync
