import Mathlib.Data.List.Perm.Basic
import ParamSync.Proofs.Peers.Broadcast
import ParamSync.Proofs.Peers.Runs

/-!
# Any number of connections

`Linked` follows one connection, on which one peer acts at a time. Where several clients talk to a
server in any order, what is under way is read off the network instead. What a server sends is told
to whomever its connections lead to, and a poll takes all that waits.

Results:
* `Server.foldl_deliver_relay`: a message for everyone but its sender is told to the others.
* `Server.count_others`: the others are the audience, once without the sender.
* `Server.inbox_poll`, `Client.news_poll`: who polls leaves nothing at its ends.
-/

namespace ParamSync

namespace Network

variable {n n' n'' : Network} {c : ClientKey} {k : ServerKey} {id : ConnectionId}

/-! ## Telling -/

theorem sameWires_tellAll (n : Network) (cs : List ClientKey) (e : LinkEvent) :
    SameWires n (n.tellAll cs e) := by
  induction cs generalizing n with
  | nil => exact .refl n
  | cons c cs ih => exact (n.sameWires_tell c e).trans (ih (n.tell c e))

theorem inbox_tellAll (n : Network) (cs : List ClientKey) (e : LinkEvent) (k : ServerKey) :
    (n.tellAll cs e).inbox k = n.inbox k := by
  induction cs generalizing n with
  | nil => rfl
  | cons c cs ih => exact ih (n.tell c e)

/-- Whoever is told something several times hears it as often. -/
theorem Wired.news_tellAll (h : Wired n c k id) (cs : List ClientKey) (e : LinkEvent) :
    (n.tellAll cs e).news c = n.news c ++ List.replicate (cs.count c) e := by
  induction cs generalizing n with
  | nil => rw [List.count_nil, List.replicate_zero, List.append_nil]; rfl
  | cons c' cs ih =>
    have hrest := ih (h.of_same (n.sameWires_tell c' e))
    obtain ⟨d, hd⟩ := h.client
    rw [tellAll, List.foldl_cons, ← tellAll, hrest]
    by_cases hc : c = c'
    · subst hc
      rw [news_tell (hd ▸ Option.some_ne_none d), List.append_assoc, List.count_cons_self,
        List.replicate_succ, List.singleton_append]
    · rw [news_tell_of_ne hc, List.count_cons_of_ne (Ne.symm hc)]

/-! ## Everyone but one -/

/-- Whom the connections of a server end lead to, one connection apart. -/
def listenersBut (n : Network) (k : ServerKey) (id : ConnectionId) : List ClientKey :=
  ((n.connections k).toList.filter (·.1 ≠ id)).map (·.2)

theorem sendToAll_but (n : Network) (k : ServerKey) (data : Bytes) (id : ConnectionId) :
    n.sendToAll k data (some id) = n.tellAll (n.listenersBut k id) (.received data) := by
  have hskip : ∀ (l : List (ConnectionId × ClientKey)) (m : Network),
      l.foldl (fun m p => if some p.1 = some id then m else m.tell p.2 (.received data)) m =
        (l.filter (·.1 ≠ id)).foldl (fun m p => m.tell p.2 (.received data)) m := by
    intro l
    induction l with
    | nil => exact fun _ => rfl
    | cons p l ih =>
      intro m
      rw [List.foldl_cons, ih]
      by_cases hp : p.1 = id
      · rw [if_pos (congrArg some hp), List.filter_cons_of_neg (by simpa using hp)]
      · rw [if_neg (mt Option.some.inj hp), List.filter_cons_of_pos (by simpa using hp),
          List.foldl_cons]
  rw [sendToAll, listenersBut, tellAll, List.foldl_map, Std.ExtTreeMap.foldl_eq_foldl_toList]
  exact hskip _ n

end Network

/-- A list with one entry for each key is one of them and the others. -/
theorem perm_cons_filter {α β : Type} [DecidableEq α] {l : List (α × β)}
    (hl : l.Pairwise fun p q => p.1 ≠ q.1) {p : α × β} (hp : p ∈ l) :
    l.Perm (p :: l.filter (·.1 ≠ p.1)) := by
  induction l with
  | nil => cases hp
  | cons q l ih =>
    obtain ⟨hq, hl⟩ := List.pairwise_cons.1 hl
    rcases List.mem_cons.1 hp with rfl | hp
    · have hothers : l.filter (·.1 ≠ p.1) = l :=
        List.filter_eq_self.2 fun r hr => by simpa using (hq r hr).symm
      rw [List.filter_cons_of_neg (by simp), hothers]
    · rw [List.filter_cons_of_pos (by simpa using hq p hp)]
      exact ((ih hl hp).cons q).trans (.swap p q _)

theorem pairwise_toList {κ β : Type} [Ord κ] [Std.TransOrd κ] [Std.LawfulEqOrd κ]
    (m : Std.ExtTreeMap κ β) : m.toList.Pairwise fun p q => p.1 ≠ q.1 :=
  Std.ExtTreeMap.distinct_keys_toList.imp fun h heq =>
    h (by rw [heq]; exact Std.ReflCmp.compare_self)

theorem values_eq_map_toList {κ β : Type} [Ord κ] [Std.TransOrd κ] (m : Std.ExtTreeMap κ β) :
    m.values = m.toList.map (·.2) := by
  obtain ⟨m⟩ := m
  induction m using Std.ExtDTreeMap.inductionOn with
  | mk t =>
    show t.inner.values = (Std.DTreeMap.Internal.Impl.Const.toList t.inner).map (·.2)
    rw [Std.DTreeMap.Internal.Impl.values_eq_map_snd,
      Std.DTreeMap.Internal.Impl.Const.toList_eq_toListModel_map, List.map_map]
    rfl

open Network (Wired SameWires Moved)

namespace Server

variable {c : ClientKey} {k : ServerKey} {id : ConnectionId} {origin : TransporterId}

/-- Whom a message for everyone but its sender reaches, once for each connection. -/
def others (s : Server) (n : Network) (origin : TransporterId) (sender : ConnectionId) :
    List ClientKey :=
  s.transporters.toList.flatMap fun t =>
    if t.1 = origin then n.listenersBut t.2 sender else n.listeners t.2

/-- A message for everyone but its sender is told to the others. -/
theorem foldl_deliver_relay (s : Server) (n : Network) (origin : TransporterId)
    (sender : ConnectionId) (data : Bytes) :
    (s.relay origin sender data).foldl Network.deliver n =
      n.tellAll (s.others n origin sender) (.received data) := by
  rw [relay, others, List.foldl_map]
  induction s.transporters.toList generalizing n with
  | nil => rfl
  | cons t ts ih =>
    have hone : n.deliver (.toAll t.2 data (if t.1 = origin then some sender else none)) =
        n.tellAll (if t.1 = origin then n.listenersBut t.2 sender else n.listeners t.2)
          (.received data) := by
      rw [Network.deliver]
      split
      · exact n.sendToAll_but t.2 data sender
      · exact n.sendToAll_eq t.2 data
    -- telling some changes nothing about whom the connections lead to
    have hlisteners : ∀ cs, (n.tellAll cs (.received data)).listeners = n.listeners := fun cs => by
      funext k
      rw [Network.listeners, (n.sameWires_tellAll cs _).connections, Network.listeners]
    have hbut : ∀ cs, (n.tellAll cs (.received data)).listenersBut = n.listenersBut := fun cs => by
      funext k id
      rw [Network.listenersBut, (n.sameWires_tellAll cs _).connections, Network.listenersBut]
    rw [List.foldl_cons, hone, ih, hlisteners, hbut, List.flatMap_cons, Network.tellAll,
      Network.tellAll, Network.tellAll, List.foldl_append]

/-- The audience of a server is the sender of a message and the others. -/
theorem perm_audience {s : Server} {n : Network} (horigin : s.transporters[origin]? = some k)
    (hid : (n.connections k)[id]? = some c) :
    (s.audience n).Perm (c :: s.others n origin id) := by
  have hmem : (origin, k) ∈ s.transporters.toList :=
    Std.ExtTreeMap.mem_toList_iff_getElem?_eq_some.2 horigin
  have hends := perm_cons_filter (pairwise_toList s.transporters) hmem
  have hconnection := perm_cons_filter (pairwise_toList (n.connections k))
    (Std.ExtTreeMap.mem_toList_iff_getElem?_eq_some.2 hid)
  -- at the end where the message came in, all but the sender; at the other ends, all
  have haudience : (s.audience n).Perm (n.listeners k ++
      (s.transporters.toList.filter (·.1 ≠ origin)).flatMap fun t => n.listeners t.2) := by
    rw [audience, values_eq_map_toList, List.flatMap_map]
    exact hends.flatMap_right _
  have hothers : (s.others n origin id).Perm (n.listenersBut k id ++
      (s.transporters.toList.filter (·.1 ≠ origin)).flatMap fun t => n.listeners t.2) := by
    refine (hends.flatMap_right _).trans ?_
    rw [List.flatMap_cons, if_pos rfl]
    refine .append_left _ (.of_eq (List.flatMap_congr fun t ht => ?_))
    rw [if_neg (by simpa using (List.mem_filter.1 ht).2)]
  refine haudience.trans (.trans ?_ (hothers.symm.cons c))
  exact (hconnection.map (·.2)).append_right _

/-- The others are the audience, once without the sender. -/
theorem count_others {s : Server} {n : Network} (horigin : s.transporters[origin]? = some k)
    (hid : (n.connections k)[id]? = some c) (c' : ClientKey) :
    (s.audience n).count c' = (s.others n origin id).count c' + if c = c' then 1 else 0 := by
  rw [(perm_audience horigin hid).count_eq, List.count_cons]
  simp

/-- Messages for everyone are heard by whoever is reached once, each once and in order. -/
theorem news_broadcast (s : Server) {n : Network} (h : Wired n c k id)
    (hone : (s.audience n).count c = 1) (packets : List Bytes) :
    ((packets.flatMap s.broadcast).foldl Network.deliver n).news c =
      n.news c ++ packets.map .received := by
  induction packets generalizing n with
  | nil => exact (List.append_nil _).symm
  | cons data packets ih =>
    have hsame := n.sameWires_tellAll (s.audience n) (.received data)
    rw [← s.audience_congr hsame.connections] at hone
    rw [List.flatMap_cons, List.foldl_append, s.foldl_deliver_broadcast,
      ih (h.of_same hsame) hone, h.news_tellAll, ← s.audience_congr hsame.connections, hone,
      List.append_assoc]
    rfl

theorem sameWires_broadcast (s : Server) (n : Network) (packets : List Bytes) :
    SameWires n ((packets.flatMap s.broadcast).foldl Network.deliver n) := by
  induction packets generalizing n with
  | nil => exact .refl n
  | cons data packets ih =>
    rw [List.flatMap_cons, List.foldl_append, s.foldl_deliver_broadcast]
    exact (n.sameWires_tellAll _ _).trans (ih _)

/-- What a server does with an update: what it can merge is told to the others. -/
theorem handle_update (w : OnNetwork) (origin : TransporterId) (sender : ConnectionId)
    {data : Bytes} {p : Parameter} (h : Packet.update? data = some p) :
    (handle w origin sender data).1 =
      match w.server.registry.merge p with
      | .error _ => w
      | .ok (_, registry, _) => ⟨{ w.server with registry },
          w.network.tellAll (w.server.others w.network origin sender) (.received data)⟩ := by
  obtain ⟨packet, hpacket, hcommand, hp⟩ := Packet.exists_of_update? h
  rw [handle, receive, hpacket]
  dsimp only
  rw [hcommand, hp]
  dsimp only
  cases w.server.registry.merge p with
  | error e => rfl
  | ok result =>
    obtain ⟨outcome, registry, notices⟩ := result
    show (⟨_, (w.server.relay origin sender data).foldl Network.deliver w.network⟩ : OnNetwork) = _
    rw [foldl_deliver_relay]

theorem server_handle (w : OnNetwork) (origin : TransporterId) (sender : ConnectionId)
    {data : Bytes} {p : Parameter} (h : Packet.update? data = some p) :
    (handle w origin sender data).1.server =
      { w.server with registry := w.server.registry.perform (.merge p) } := by
  rw [handle_update w origin sender h, Registry.perform]
  cases w.server.registry.merge p with
  | error e => rfl
  | ok result => rfl

theorem sameWires_handle (w : OnNetwork) (origin : TransporterId) (sender : ConnectionId)
    {data : Bytes} {p : Parameter} (h : Packet.update? data = some p) :
    SameWires w.network (handle w origin sender data).1.network := by
  rw [handle_update w origin sender h]
  split
  · exact .refl _
  · exact w.network.sameWires_tellAll _ _

/-- An update that brings nothing is passed over. -/
theorem handle_nothing (w : OnNetwork) (origin : TransporterId) (sender : ConnectionId)
    {data : Bytes} (hupdate : Packet.IsUpdate data) (h : Packet.update? data = none) :
    (handle w origin sender data).1 = w := by
  have hreceive : w.server.receive origin sender data = (w.server, [], []) := by
    unfold receive
    split
    · rfl
    · rfl
    · next packet hpacket =>
      have hcommand := hupdate packet hpacket
      have hp : packet.parameter? = none := by
        rw [Packet.update?, hpacket] at h
        dsimp only at h
        rwa [if_pos hcommand] at h
      rw [hcommand, hp]
  rw [handle, hreceive]
  rfl

/-! ## A poll -/

theorem inbox_deliver (n : Network) (o : Outgoing) (k : ServerKey) :
    (n.deliver o).inbox k = n.inbox k := by
  cases o with
  | toOne s id messages =>
    rw [Network.deliver]
    induction messages generalizing n with
    | nil => rfl
    | cons data messages ih =>
      rw [Network.sendEach]
      have hone : (n.sendToOne s data id).1.inbox k = n.inbox k := by
        unfold Network.sendToOne
        split
        · rfl
        · split
          · rfl
          · split <;> rfl
      split
      · next hsent => rw [ih, ← hone, hsent]
      · next hsent => rw [← hone, hsent]
  | toAll s data exclude =>
    rw [Network.deliver]
    cases exclude with
    | none => rw [Network.sendToAll_eq, Network.inbox_tellAll]
    | some id => rw [Network.sendToAll_but, Network.inbox_tellAll]

/-- What a server sends brings no message to its ends. -/
theorem inbox_foldl_deliver (n : Network) (os : List Outgoing) (k : ServerKey) :
    (os.foldl Network.deliver n).inbox k = n.inbox k := by
  induction os generalizing n with
  | nil => rfl
  | cons o os ih => rw [List.foldl_cons, ih, inbox_deliver]

theorem inbox_handle (w : OnNetwork) (origin : TransporterId) (sender : ConnectionId) (data : Bytes)
    (k : ServerKey) : (handle w origin sender data).1.network.inbox k = w.network.inbox k :=
  inbox_foldl_deliver _ _ k

theorem drain_of_taken {w : OnNetwork} {n : Network} {sender : ConnectionId} {data : Bytes}
    (h : w.network.takeMessage? k = some ((sender, data), n)) (count handled : Nat)
    (notices : List Notice) :
    drain origin k (count + 1) (w, handled, notices) =
      drain origin k count ((handle ⟨w.server, n⟩ origin sender data).1, handled + 1,
        (handle ⟨w.server, n⟩ origin sender data).2.reverse ++ notices) := by
  rw [drain, h]

theorem drain_of_none {w : OnNetwork} (h : w.network.takeMessage? k = none) (count handled : Nat)
    (notices : List Notice) :
    drain origin k count (w, handled, notices) = (w, handled, notices) := by
  cases count with
  | zero => rfl
  | succ count => rw [drain, h]

/-- An end stays empty while messages are taken from the ends. -/
theorem inbox_drain_of_nil {state : OnNetwork × Nat × List Notice}
    (h : state.1.network.inbox k = []) (origin : TransporterId) (s : ServerKey) (count : Nat) :
    (drain origin s count state).1.network.inbox k = [] := by
  induction count generalizing state with
  | zero => exact h
  | succ count ih =>
    obtain ⟨w, handled, notices⟩ := state
    cases htake : w.network.takeMessage? s with
    | none =>
      rw [drain_of_none htake]
      exact h
    | some taken =>
      obtain ⟨⟨sender, data⟩, n⟩ := taken
      obtain ⟨rest, hrest, hmoved⟩ := Network.moved_takeMessage? htake
      rw [drain_of_taken htake]
      refine ih ?_
      rw [inbox_handle, hmoved.inbox]
      split
      · next hs => rw [← hs, h] at hrest; cases hrest
      · exact h

/-- An end from which as many messages are taken as wait there is empty. -/
theorem inbox_drain {state : OnNetwork × Nat × List Notice} (origin : TransporterId)
    {count : Nat} (h : (state.1.network.inbox k).length = count) :
    (drain origin k count state).1.network.inbox k = [] := by
  induction count generalizing state with
  | zero => exact List.length_eq_zero_iff.1 h
  | succ count ih =>
    obtain ⟨w, handled, notices⟩ := state
    cases htake : w.network.takeMessage? k with
    | none =>
      rw [drain_of_none htake]
      exact Network.inbox_of_takeMessage?_eq_none htake
    | some taken =>
      obtain ⟨⟨sender, data⟩, n⟩ := taken
      obtain ⟨rest, hrest, hmoved⟩ := Network.moved_takeMessage? htake
      rw [drain_of_taken htake]
      refine ih ?_
      rw [inbox_handle, hmoved.inbox, if_pos rfl]
      rw [hrest, List.length_cons] at h
      exact Nat.succ.inj h

/-- A server that polls leaves nothing at its ends. -/
theorem inbox_poll (w : OnNetwork) (h : w.server.transporters[origin]? = some k) :
    (poll w).1.network.inbox k = [] := by
  have hmem : (origin, k) ∈ w.server.transporters.toList :=
    Std.ExtTreeMap.mem_toList_iff_getElem?_eq_some.2 h
  have hempty : ∀ (ts : List (TransporterId × ServerKey)) (state : OnNetwork × Nat × List Notice),
      (origin, k) ∈ ts ∨ state.1.network.inbox k = [] →
        (ts.foldl pollEnd state).1.network.inbox k = [] := by
    intro ts
    induction ts with
    | nil => exact fun state hstate => hstate.resolve_left List.not_mem_nil
    | cons t ts ih =>
      intro state hstate
      rw [List.foldl_cons]
      refine ih _ ?_
      by_cases ht : (origin, k) ∈ ts
      · exact .inl ht
      · refine .inr ?_
        rcases hstate with hmem | hnil
        · obtain rfl := (List.mem_cons.1 hmem).resolve_right ht
          exact inbox_drain origin (Network.length_inbox _ _)
        · exact inbox_drain_of_nil hnil t.1 t.2 _
  exact hempty _ (w, 0, []) (.inl hmem)

end Server

/-- A client that handles an event is told nothing by that. -/
theorem Client.news_handle (client : Client) (n : Network) (c : ClientKey) (e : LinkEvent) :
    (handle (.ofNetwork c) client n e).2.1.news c = n.news c := by
  cases e with
  | connected => exact (Network.news_send _ c _ c).trans (Network.news_send _ c _ c)
  | disconnected => rfl
  | received data => rfl

/-- A client that polls leaves nothing at its end. -/
theorem Client.news_poll (client : Client) (n : Network) (c : ClientKey) :
    (client.poll (.ofNetwork c) n).2.1.news c = [] := by
  have hdrain : ∀ count (state : Client × Network × Nat × List ClientNotice),
      (state.2.1.news c).length = count →
        (drain (.ofNetwork c) count state).2.1.news c = [] := by
    intro count
    induction count with
    | zero => exact fun state h => List.length_eq_zero_iff.1 h
    | succ count ih =>
      rintro ⟨client, n, handled, notices⟩ h
      rw [drain]
      split
      · next htake => exact Network.news_of_takeEvent?_eq_none htake
      · next e n' htake =>
        have htaken : n.takeEvent? c = some (e, n') := htake
        rw [Network.news_takeEvent? htaken, List.length_cons] at h
        exact ih _ ((congrArg List.length (news_handle client n' c e)).trans (Nat.succ.inj h))
  exact hdrain _ (client, n, 0, []) (n.length_news c)

end ParamSync
