import ParamSync.Proofs.Peers.Receive
import ParamSync.Proofs.Peers.Link
import ParamSync.Proofs.Registry.Removal

/-!
# A tick on the network

What a server tells everyone goes over every connection of each of its ends. A client that is
reached once gets every packet of a tick, once and in order; what it then makes of them is a matter
of its copy alone.

Results:
* `Server.foldl_deliver_broadcast`: a message for everyone is told to the audience.
* `Linked.broadcast`: a client that is reached once is told once.
* `Server.poll_tick`: what a client has that polls after a tick.
-/

namespace ParamSync

open Network (Linked)

/-! ## The audience -/

namespace Network

/-- Tells some client ends something, one after the other. -/
def tellAll (n : Network) (cs : List ClientKey) (e : LinkEvent) : Network :=
  cs.foldl (fun n c => n.tell c e) n

theorem connections_tellAll (n : Network) (cs : List ClientKey) (e : LinkEvent) (k : ServerKey) :
    (n.tellAll cs e).connections k = n.connections k := by
  induction cs generalizing n with
  | nil => rfl
  | cons c cs ih => exact ih (n.tell c e)

/-- Whom the connections of a server end lead to. -/
def listeners (n : Network) (k : ServerKey) : List ClientKey :=
  (n.connections k).toList.map (·.2)

/-- What goes over every connection of a server end is told to whomever they lead to. -/
theorem sendToAll_eq (n : Network) (k : ServerKey) (data : Bytes) :
    n.sendToAll k data none = n.tellAll (n.listeners k) (.received data) := by
  rw [sendToAll, listeners, tellAll, List.foldl_map]
  simp only [reduceCtorEq, if_false]
  exact Std.ExtTreeMap.foldl_eq_foldl_toList

theorem Linked.tellAll {n base : Network} {c : ClientKey} {key : ServerKey} {id : ConnectionId}
    {inbox : List (ConnectionId × Bytes)} {events : List LinkEvent}
    (h : Linked base c key id inbox events n) (cs : List ClientKey) (e : LinkEvent) :
    Linked base c key id inbox (events ++ List.replicate (cs.count c) e) (n.tellAll cs e) := by
  induction cs generalizing n events with
  | nil =>
    rw [List.count_nil, List.replicate_zero, List.append_nil]
    exact h
  | cons c' cs ih =>
    by_cases hc : c' = c
    · subst hc
      have := ih (h.tell e)
      rw [List.count_cons_self, List.replicate_succ]
      rwa [List.append_assoc] at this
    · rw [List.count_cons_of_ne hc]
      exact ih (h.tell_other hc e)

end Network

namespace Server

/-- Whom a message for everyone reaches, once for each connection. -/
def audience (s : Server) (n : Network) : List ClientKey :=
  s.transporters.values.flatMap n.listeners

theorem audience_congr (s : Server) {n n' : Network}
    (h : ∀ k, n'.connections k = n.connections k) : s.audience n' = s.audience n := by
  unfold audience Network.listeners
  simp only [h]

/-- A message for everyone is told to the audience. -/
theorem foldl_deliver_broadcast (s : Server) (n : Network) (data : Bytes) :
    (s.broadcast data).foldl Network.deliver n = n.tellAll (s.audience n) (.received data) := by
  rw [broadcast, audience]
  induction s.transporters.values generalizing n with
  | nil => rfl
  | cons key keys ih =>
    have hlisteners : (n.sendToAll key data none).listeners = n.listeners := by
      funext k
      rw [Network.listeners, Network.sendToAll_eq, Network.connections_tellAll, Network.listeners]
    rw [List.map_cons, List.foldl_cons, Network.deliver, ih, hlisteners, Network.sendToAll_eq,
      List.flatMap_cons, Network.tellAll, Network.tellAll, Network.tellAll, List.foldl_append]

end Server

/-! ## A tick -/

namespace Network.Linked

variable {w : Server.OnNetwork} {base : Network} {c : ClientKey} {key : ServerKey}
  {id : ConnectionId} {inbox : List (ConnectionId × Bytes)} {events : List LinkEvent}

/-- A client that is reached once gets every message once. -/
theorem broadcast {n : Network} (s : Server) (h : Linked base c key id inbox events n)
    (hone : (s.audience base).count c = 1) (packets : List Bytes) :
    Linked base c key id inbox (events ++ packets.map .received)
      ((packets.flatMap s.broadcast).foldl Network.deliver n) := by
  induction packets generalizing n events with
  | nil => simpa using h
  | cons data packets ih =>
    have htold := h.tellAll (s.audience n) (.received data)
    rw [s.audience_congr h.connections, hone] at htold
    rw [List.flatMap_cons, List.foldl_append, s.foldl_deliver_broadcast,
      s.audience_congr h.connections]
    have hrest := ih htold
    rwa [List.append_assoc] at hrest

end Network.Linked

namespace Server

variable {w : OnNetwork} {base : Network} {c : ClientKey} {key : ServerKey}
  {id : ConnectionId} {inbox : List (ConnectionId × Bytes)}

/-- Whoever is reached is reached over a server end. -/
theorem not_isEmpty_of_mem_audience {s : Server} {n : Network} (h : c ∈ s.audience n) :
    s.transporters.isEmpty = false := by
  cases hempty : s.transporters.isEmpty with
  | false => rfl
  | true =>
    have hvalues : s.transporters.values = [] := by
      rw [Std.ExtTreeMap.isEmpty_iff.1 hempty]
      rfl
    rw [audience, hvalues] at h
    cases h

theorem not_isEmpty_of_count_audience {s : Server} {n : Network} (h : (s.audience n).count c = 1) :
    s.transporters.isEmpty = false :=
  not_isEmpty_of_mem_audience (List.count_pos_iff.1 (h ▸ Nat.one_pos : 0 < (s.audience n).count c))

/-- A server with ends tells of the removals and then of the changes, and these are then not to be
told any more. -/
theorem update_eq {s : Server} (h : s.transporters.isEmpty = false) :
    s.update = ({ s with registry := s.registry.encodeRemoved.2.encodeDirty.2 },
      s.registry.encodeRemoved.1 ++ s.registry.encodeDirty.1) := by
  unfold update
  rw [h, Bool.false_or]
  cases hpending : s.registry.hasPending with
  | true => rfl
  | false =>
    obtain ⟨hremoved, hdirty⟩ := Registry.encode_of_quiet hpending
    rw [hremoved, hdirty]
    rfl

/-- After that whoever was dirty has no flags, and everybody is as before otherwise. -/
theorem get?_update {s : Server} (h : s.transporters.isEmpty = false) (x : ParamId) :
    s.update.1.registry.get? x =
      if x ∈ s.registry.dirty then (s.registry.get? x).map Parameter.sent
      else s.registry.get? x := by
  rw [update_eq h]
  exact s.registry.encodeRemoved.2.get?_encodeDirty x

theorem transporters_update (s : Server) : s.update.1.transporters = s.transporters := by
  unfold update
  split <;> rfl

/-- A client that polls after a tick has taken out what was removed and merged what changed. -/
theorem poll_tick (client : Client) (h : Linked base c key id inbox [] w.network)
    (hone : (w.server.audience base).count c = 1)
    (hlegible : ∀ p ∈ w.server.registry.unsent, p.Legible false) :
    (client.poll (.ofNetwork c) (tick w).1.network).1 =
      { client with registry := client.registry.afterTick w.server.registry } := by
  have hempty := not_isEmpty_of_count_audience hone
  have haudience : w.server.update.1.audience base = w.server.audience base := by
    rw [audience, transporters_update, ← audience]
  have htold := h.broadcast w.server.update.1 (haudience ▸ hone) w.server.update.2
  rw [List.nil_append] at htold
  refine (htold.poll client).1.trans ?_
  rw [update_eq hempty]
  dsimp only
  rw [List.foldl_append, Registry.encodeRemoved, Registry.encodeDirty_eq_map,
    Client.foldl_receive_encodeRemoval, Client.foldl_receive_encodeUpdate hlegible]
  rfl

end Server
end ParamSync
