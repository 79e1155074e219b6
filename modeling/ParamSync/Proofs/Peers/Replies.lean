import ParamSync.Proofs.Peers.Wires

/-!
# What is sent in reply

A message makes a server send messages to some client ends, and nothing else happens on the
network. Which messages these are hangs on the command that the message begins with: an update goes
to others as it came, a request for everything is answered with a dump and one for the version with
the record. What a client sends on its own when it is connected are the two requests.

Results:
* `Network.told_foldl_deliver`: what is sent is told, and nothing is opened or closed.
* `Server.messages_receive`: what a server sends on a message.
* `Server.told_handle`: updates among that only if it is an update, or asks for everything.
-/

namespace ParamSync

open Network (SameWires)

/-! ## Commands -/

namespace Packet

/-- The command that a message begins with. -/
def command? (data : Bytes) : Option Command := data.head?.bind Command.ofCode?

theorem command?_of_ofBytes {data : Bytes} {p : Packet} (h : ofBytes data = .ok (some p)) :
    command? data = some p.command := by
  cases data with
  | nil => cases h
  | cons code bs => exact command_of_ofBytes h

theorem command?_encodeFramed (p : Packet) (all : Bool) :
    command? (p.encodeFramed all) = some p.command :=
  Command.ofCode?_eq_some_iff.2 rfl

end Packet

/-! ## What client ends are told -/

/-- The messages that a server wants sent. -/
def Outgoing.messages : Outgoing → List Bytes
  | .toOne _ _ messages => messages
  | .toAll _ message _ => [message]

namespace Network

variable {n n' n'' : Network} {P : Bytes → Prop}

/-- Client ends were told some messages with the property, and nothing was opened or closed. -/
structure Told (P : Bytes → Prop) (n n' : Network) : Prop extends SameWires n n' where
  news : ∀ c, ∃ added : List Bytes, n'.news c = n.news c ++ added.map .received ∧ ∀ d ∈ added, P d

theorem Told.refl (n : Network) : Told P n n :=
  ⟨.refl n, fun _ => ⟨[], (List.append_nil _).symm, List.forall_mem_nil _⟩⟩

theorem Told.trans (h : Told P n n') (h' : Told P n' n'') : Told P n n'' := by
  refine ⟨h.toSameWires.trans h'.toSameWires, fun c => ?_⟩
  obtain ⟨added, hnews, hadded⟩ := h.news c
  obtain ⟨added', hnews', hadded'⟩ := h'.news c
  refine ⟨added ++ added', ?_, fun d hd => (List.mem_append.1 hd).elim (hadded d) (hadded' d)⟩
  rw [hnews', hnews, List.append_assoc, List.map_append]

theorem told_tell (n : Network) (c : ClientKey) {data : Bytes} (hdata : P data) :
    Told P n (n.tell c (.received data)) := by
  refine ⟨n.sameWires_tell c _, fun x => ?_⟩
  rw [news, client?_tell, news]
  by_cases hx : x = c
  · rw [if_pos hx]
    cases n.client? x with
    | none => exact ⟨[], rfl, List.forall_mem_nil _⟩
    | some d =>
      exact ⟨[data], Queue.toList_push _ _, fun d hd => List.mem_singleton.1 hd ▸ hdata⟩
  · rw [if_neg hx]
    exact ⟨[], (List.append_nil _).symm, List.forall_mem_nil _⟩

theorem told_tellAll (n : Network) (cs : List ClientKey) {data : Bytes} (hdata : P data) :
    Told P n (n.tellAll cs (.received data)) := by
  induction cs generalizing n with
  | nil => exact .refl n
  | cons c cs ih => exact (n.told_tell c hdata).trans (ih (n.tell c (.received data)))

theorem told_sendEach (n : Network) (k : ServerKey) (id : ConnectionId) {messages : List Bytes}
    (h : ∀ d ∈ messages, P d) : Told P n (n.sendEach k id messages) := by
  induction messages generalizing n with
  | nil => exact .refl n
  | cons data messages ih =>
    obtain ⟨hdata, hrest⟩ := List.forall_mem_cons.1 h
    have hone : Told P n (n.sendToOne k data id).1 := by
      unfold sendToOne
      split
      · exact .refl n
      · split
        · exact .refl n
        · split
          · exact n.told_tell _ hdata
          · exact .refl n
    rw [sendEach]
    split
    · next hsent =>
      rw [hsent] at hone
      exact hone.trans (ih _ hrest)
    · next hsent =>
      rw [hsent] at hone
      exact hone

theorem told_foldl_deliver (n : Network) {os : List Outgoing}
    (h : ∀ o ∈ os, ∀ d ∈ o.messages, P d) : Told P n (os.foldl deliver n) := by
  induction os generalizing n with
  | nil => exact .refl n
  | cons o os ih =>
    obtain ⟨ho, hos⟩ := List.forall_mem_cons.1 h
    refine .trans ?_ (ih (n.deliver o) hos)
    cases o with
    | toOne k id messages => exact n.told_sendEach k id ho
    | toAll k data exclude =>
      rw [deliver]
      cases exclude with
      | none => exact n.sendToAll_eq k data ▸ n.told_tellAll _ (ho data List.mem_cons_self)
      | some id => exact n.sendToAll_but k data id ▸ n.told_tellAll _ (ho data List.mem_cons_self)

/-- What a client sends waits at a server end, if it gets there. -/
theorem inbox_send (n : Network) (c : ClientKey) (data : Bytes) (k : ServerKey) :
    (n.send c data).1.inbox k = n.inbox k ∨
      ∃ id, (n.send c data).1.inbox k = n.inbox k ++ [(id, data)] := by
  rcases n.send_cases c data with heq | ⟨link, waiting, -, hwaiting, heq⟩
  · exact .inl (by rw [heq])
  · rw [heq]
    have hthere : n.mailbox? link.listener ≠ none := hwaiting ▸ Option.some_ne_none _
    by_cases hk : n.receiver? k = some link.listener
    · obtain rfl := server_of_receiver? hk
      refine .inr ⟨link.connection, ?_⟩
      rw [inbox_setMailbox hk hthere, if_pos rfl, inbox_of_receiver? hk, hwaiting]
      exact Queue.toList_push _ _
    · exact .inl (inbox_setMailbox_of_ne hk hthere _)

theorem inbox_takeEvent? {c : ClientKey} {e : LinkEvent} (h : n.takeEvent? c = some (e, n'))
    (k : ServerKey) : n'.inbox k = n.inbox k := by
  obtain ⟨d, events, -, -, rfl⟩ := takeEvent?_ok h
  rfl

end Network

/-! ## What peers send -/

open Packet (command?)

namespace Server

theorem messages_reply {s : Server} {origin : TransporterId} {sender : ConnectionId}
    {messages : List Bytes} {o : Outgoing} (ho : o ∈ s.reply origin sender messages) :
    o.messages = messages := by
  unfold reply at ho
  split at ho
  · rw [List.mem_singleton.1 ho]
    rfl
  · cases ho

/-- A server that receives a message sends that, if it is an update, or a dump, if it asks for one,
or its record. -/
theorem messages_receive {s : Server} {origin : TransporterId} {sender : ConnectionId}
    {data d : Bytes} {o : Outgoing} (ho : o ∈ (s.receive origin sender data).2.1)
    (hd : d ∈ o.messages) :
    (d = data ∧ command? data = some .update) ∨
      (d ∈ s.registry.encodeAll ∧ command? data = some .dump) ∨ d ∈ s.infoMessages := by
  unfold receive at ho
  split at ho
  · cases ho
  · cases ho
  · next packet hpacket =>
    have hcommand := Packet.command?_of_ofBytes hpacket
    split at ho
    · next hdump =>
      have hall : o.messages = s.registry.encodeAll := messages_reply ho
      exact .inr (.inl ⟨hall ▸ hd, hdump ▸ hcommand⟩)
    · next hupdate =>
      split at ho
      · cases ho
      · split at ho
        · cases ho
        · obtain ⟨t, -, rfl⟩ := List.mem_map.1 ho
          exact .inl ⟨List.mem_singleton.1 hd, hupdate ▸ hcommand⟩
    · exact .inr (.inr (messages_reply ho ▸ hd))
    · exact .inr (.inr (messages_reply ho ▸ hd))
    all_goals cases ho

/-- So it sends updates only on an update, and to who asks for everything. -/
theorem told_handle (w : OnNetwork) (origin : TransporterId) (sender : ConnectionId)
    (data : Bytes) :
    Network.Told (fun d => command? d = some .update →
        command? data = some .update ∨ command? data = some .dump)
      w.network (handle w origin sender data).1.network := by
  refine w.network.told_foldl_deliver fun o ho d hd hupdate => ?_
  rcases messages_receive ho hd with ⟨-, hdata⟩ | ⟨-, hdata⟩ | hinfo
  · exact .inl hdata
  · exact .inr hdata
  · rw [infoMessages_eq, List.mem_singleton] at hinfo
    rw [hinfo, Packet.command?_encodeFramed] at hupdate
    cases hupdate

end Server

/-- A client that is connected asks for something, and sends no update. -/
theorem Client.command?_requests : ∀ d ∈ requests, command? d ≠ some .update := by
  intro d hd
  obtain ⟨p, hp, rfl⟩ := List.mem_map.1 hd
  rw [Packet.command?_encodeFramed]
  rcases List.mem_pair.1 hp with rfl | rfl <;> nofun

end ParamSync
