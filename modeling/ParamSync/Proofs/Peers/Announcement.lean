import ParamSync.Proofs.Codec.Announced
import ParamSync.Proofs.Peers.Removal
import ParamSync.Proofs.Registry.Ledger

/-!
# A new parameter is announced

A server creates a parameter and ticks; a client polls, and another one connects later. The first is
told of the parameter by a delta, the second by a dump. So the second has the whole definition, and
the first has it exactly if what is there of it is flagged as changed and the rest is not.

Results:
* `Registry.create_root`: what a creation at the root leaves.
* `Server.OnNetwork.handshake_definition`: who connects has every definition.
* `Server.OnNetwork.announced_iff`: what both clients have of a new parameter.
* `Server.OnNetwork.clone_is_stripped`: a definition with a default that is not flagged loses it.
-/

namespace ParamSync

open Network (Linked)
open Registry (Op Reachable)

/-! ## What a creation leaves -/

/-- A full write does not look at the flags. -/
theorem TypeDef.heard_true_sent {d : TypeDef} (hd : d.WellFormed) :
    d.sent.heard true = d.heard true := by
  cases d with
  | range element default =>
    obtain ⟨k, e, rfl⟩ := eq_number_of_isNumber hd
    simp [sent, heard, NumberDef.sent, NumberDef.heard, Field.heard_true, heardValue]
  | _ =>
    simp [sent, heard, PlainDef.sent, PlainDef.heard, NumberDef.sent, NumberDef.heard,
      StringDef.sent, StringDef.heard, EnumDef.sent, EnumDef.heard, UriDef.sent, UriDef.heard,
      CustomDef.sent, CustomDef.heard, Field.heard_true]

/-- Of a parameter that has nothing but its definition only that is flagged. -/
theorem Parameter.sent_bare (x : ParamId) (d : TypeDef) :
    Parameter.sent { id := x, definition := d } = { id := x, definition := d.sent } := by
  unfold Parameter.sent
  split <;> rfl

namespace Registry

variable {r r' : Registry} {x : ParamId} {d : TypeDef}

/-- A parameter that was created at the root is there, with nothing but its definition, and it is
what there is to tell. -/
theorem create_root (hr : Ledger r) (hpending : r.hasPending = false)
    (h : r.create d none = .ok (x, r')) :
    x ≠ .root ∧ r.get? x = none ∧ r'.get? x = some { id := x, definition := d } ∧
      (∀ y, y ≠ .root → y ≠ x → r'.get? y = r.get? y) ∧
      r'.dirty = (∅ : IdSet).insert x ∧ r'.removed = ∅ := by
  obtain ⟨hdirty, hremoved⟩ := hasPending_eq_false_iff.1 hpending
  obtain ⟨target, htarget, hnext, rfl⟩ := create_ok h
  obtain ⟨hroot, hnew, -⟩ := hr.fresh_nextId? hnext
  obtain rfl : target = none := by cases htarget; rfl
  have hget : ∀ y, (r.attach { id := x, definition := d }).get? y =
      if y = x then some { id := x, definition := d }
      else if y = .root then (r.get? y).map (·.insertChild x) else r.get? y :=
    get?_attach hroot hnew
  refine ⟨hroot, hnew, (hget x).trans (if_pos rfl), fun y hy hyx => ?_, ?_, ?_⟩
  · exact (hget y).trans (by rw [if_neg hyx, if_neg hy])
  · rw [dirty_attach, hdirty]
  · exact (removed_attach _ _).trans hremoved

end Registry

/-! ## Who connects later -/

namespace Server.OnNetwork

variable {w : OnNetwork} {client : Client} {base : Network} {c : ClientKey} {key : ServerKey}
  {origin : TransporterId} {endpoint : Endpoint} {id : ConnectionId}
  {inbox : List (ConnectionId × Bytes)} {x : ParamId} {d : TypeDef} {r : Registry}

/-- A client can connect to an end of the server at this endpoint, and nothing waits at any end. -/
structure IsOpen (w : OnNetwork) (endpoint : Endpoint) : Prop where
  end_bound : ∃ origin key l, w.server.transporters[(origin : TransporterId)]? = some key ∧
    w.network.endpoints[endpoint]? = some l ∧ w.network.socket? key = some l
  quiet : ∀ (t : TransporterId) (k : ServerKey), w.server.transporters[t]? = some k →
    w.network.waitingMessages k = 0

/-- Who connects has every definition as a full write gives it. -/
theorem IsOpen.handshake_definition (h : w.IsOpen endpoint)
    (hs : Reachable (fun _ => Op.Legal) w.server.registry)
    (hlegible : ∀ y p, y ≠ .root → w.server.registry.get? y = some p → p.Legible true)
    {p : Parameter} (hx : x ≠ .root) (hp : w.server.registry.get? x = some p) :
    ∃ q, (w.handshake endpoint).1.registry.get? x = some q ∧
      q.definition = p.definition.heard true := by
  obtain ⟨origin, key, l, horigin, hbound, hend⟩ := h.end_bound
  obtain ⟨hforest, -⟩ := hs.orderly
  obtain rfl := hforest.keyed hp
  have hdumped : ∀ q ∈ w.server.registry.dumped, q.Legible true := by
    intro q hq
    obtain ⟨hroot, hget⟩ := hforest.mem_dumped_iff.1 hq
    exact hlegible q.id q hroot hget
  have hnew : Registry.new.get? p.id = none := by rw [Registry.get?_new, if_neg hx]
  have hmerged := Registry.content_mergeAll (r := .new) (f := (·.heard true)) (fun _ => rfl)
    hforest.nodup_dumped (hforest.mem_dumped_iff.2 ⟨hx, hp⟩) hx fun q hq => by
      simp [hnew] at hq
  rw [hnew] at hmerged
  obtain ⟨q, hq, hcontent⟩ := Option.map_eq_some_iff.1 hmerged
  rw [handshake_heard horigin hbound hend h.quiet hdumped]
  refine ⟨q, hq, ?_⟩
  have := congrArg Parameter.definition hcontent
  exact this

/-! ## Who is there -/

theorem registry_afterAll_create (hcreate : w.server.registry.create d none = .ok (x, r)) :
    (w.afterAll [.create d none]).server.registry = r := by
  show w.server.registry.perform (.create d none) = r
  rw [Registry.perform, hcreate]
  rfl

section Announced

variable (hs : Reachable (fun _ => Op.Legal) w.server.registry)
  (hpending : w.server.registry.hasPending = false)
  (hcreate : w.server.registry.create d none = .ok (x, r))
  (hone : (w.server.audience base).count c = 1)
include hs hpending hcreate hone

/-- After the tick the server has the new parameter with no flags, and all others as they were. -/
theorem get?_tick_create :
    (tick (w.afterAll [.create d none])).1.server.registry.get? x =
        some { id := x, definition := d.sent } ∧
      ∀ y, y ≠ .root → y ≠ x →
        (tick (w.afterAll [.create d none])).1.server.registry.get? y =
          w.server.registry.get? y := by
  have hledger := hs.ledger fun _ _ hop => hop.childless
  obtain ⟨-, -, hget, hothers, hdirty, -⟩ := Registry.create_root hledger hpending hcreate
  have htick : ∀ y, (tick (w.afterAll [.create d none])).1.server.registry.get? y =
      if y ∈ r.dirty then (r.get? y).map Parameter.sent else r.get? y := by
    intro y
    rw [← registry_afterAll_create hcreate]
    exact get?_update (s := (w.afterAll [.create d none]).server)
      (not_isEmpty_of_count_audience hone) y
  refine ⟨?_, fun y hy hyx => ?_⟩
  · rw [htick, hdirty, if_pos Std.ExtTreeSet.mem_insert_self, hget, Option.map_some,
      Parameter.sent_bare]
  · have hnot : y ∉ (∅ : IdSet).insert x := by simpa using Ne.symm hyx
    rw [htick, hdirty, if_neg hnot, hothers y hy hyx]

/-- A client that polls after the tick has what a delta write tells of the definition. -/
theorem definition_poll_tick_create (hd : d.WellFormed)
    (hknows : client.registry.contains x = w.server.registry.contains x)
    (hlinked : Linked base c key id inbox [] w.network) :
    ∃ q, (client.poll (.ofNetwork c) (tick (w.afterAll [.create d none])).1.network).1.registry.get?
        x = some q ∧ q.definition = d.heard false := by
  have hledger := hs.ledger fun _ _ hop => hop.childless
  obtain ⟨hx, hnew, hget, -, hdirty, hremoved⟩ := Registry.create_root hledger hpending hcreate
  have hunsent : r.unsent = [{ id := x, definition := d }] := by
    have hlist : r.dirty.toList = [x] := by rw [hdirty]; rfl
    rw [Registry.unsent, hlist, List.filterMap_cons_some hget]
    rfl
  have hlegible : Parameter.Legible { id := x, definition := d } false := by
    refine ⟨hd, ?_, ?_⟩ <;> rintro ⟨⟩
  have hunknown : client.registry.get? x = none := by
    have hserver : w.server.registry.contains x = false := by
      simp [Registry.contains, Registry.contains_eq_isSome, hnew]
    rw [hserver, Registry.contains, Registry.contains_eq_isSome] at hknows
    simpa [ParamId.isRoot_eq_false_iff.2 hx] using hknows
  have hafter := registry_afterAll_create hcreate
  have hpoll := poll_tick (w := w.afterAll [.create d none]) client hlinked hone
    (by rw [hafter, hunsent]; simpa using hlegible)
  have hnodup : ([{ id := x, definition := d }].map fun p : Parameter => p.id).Nodup :=
    List.nodup_singleton x
  have hmerged := Registry.content_mergeAll (r := client.registry) (f := (·.heard false))
    (fun _ => rfl) hnodup List.mem_cons_self hx fun q hq => by simp [hunknown] at hq
  rw [hunknown] at hmerged
  obtain ⟨q, hq, hcontent⟩ := Option.map_eq_some_iff.1 hmerged
  refine ⟨q, ?_, ?_⟩
  · rw [hpoll, hafter, Registry.afterTick, hremoved, hunsent]
    exact hq
  · have := congrArg Parameter.definition hcontent
    exact this

/-- Of a new parameter a client that is there has the definition of the server if and only if all
that is there of it is flagged and the rest is not; a client that connects later has it anyway. -/
theorem announced_iff (hd : d.WellFormed) (hl : d.Lossless)
    (hlegible : ∀ y p, y ≠ .root → w.server.registry.get? y = some p → p.Legible true)
    (hknows : client.registry.contains x = w.server.registry.contains x)
    (hlinked : Linked base c key id inbox [] w.network) :
    let after := (tick (w.afterAll [.create d none])).1
    ∃ p q, after.server.registry.get? x = some p ∧
      (client.poll (.ofNetwork c) after.network).1.registry.get? x = some q ∧
      (q.definition = p.definition ↔ d.Announced) ∧
      ∀ (late : OnNetwork) (endpoint : Endpoint), late.server = after.server →
        late.IsOpen endpoint →
        ∃ q', (late.handshake endpoint).1.registry.get? x = some q' ∧
          q'.definition = p.definition := by
  have hledger := hs.ledger fun _ _ hop => hop.childless
  obtain ⟨hx, -⟩ := Registry.create_root hledger hpending hcreate
  obtain ⟨hserver, hothers⟩ := get?_tick_create hs hpending hcreate hone
  obtain ⟨q, hq, hdefinition⟩ :=
    definition_poll_tick_create hs hpending hcreate hone hd hknows hlinked
  refine ⟨_, q, hserver, hq, ?_, fun late endpoint hlate hopen => ?_⟩
  · rw [hdefinition]
    exact TypeDef.heard_false_eq_sent_iff hd hl
  · have hs' : Reachable (fun _ => Op.Legal) late.server.registry := by
      rw [hlate]
      refine reachable_update (hs.performAll fun op hop _ => ?_)
      rw [List.mem_singleton.1 hop]
      exact ⟨trivial, hd⟩
    have hlegible' : ∀ y p, y ≠ .root → late.server.registry.get? y = some p →
        p.Legible true := by
      intro y p hy hp
      rw [hlate] at hp
      by_cases hyx : y = x
      · rw [hyx, hserver, Option.some.injEq] at hp
        subst hp
        exact ⟨hd.sent, nofun, nofun⟩
      · rw [hothers y hy hyx] at hp
        exact hlegible y p hy hp
    obtain ⟨q', hq', hdefinition'⟩ :=
      hopen.handshake_definition hs' hlegible' hx (hlate ▸ hserver)
    exact ⟨q', hq', by rw [hdefinition', TypeDef.heard_true_sent hd, TypeDef.heard_true hd hl]⟩

end Announced

/-! ## A dimmer beside the lamp -/

/-- A number with a default that may be flagged. -/
def dimmer (changed : Bool) : TypeDef :=
  .number .int32 { default := ⟨some (Number.ofNat .int32 5), changed⟩ }

theorem lossless_dimmer (changed : Bool) :
    (dimmer changed).WellFormed ∧ (dimmer changed).Lossless :=
  ⟨trivial, nofun⟩

/-- A client that has connected to the lamp, and its server, when a dimmer is created. -/
theorem ready_lamp (changed : Bool) :
    Reachable (fun _ => Op.Legal) (lamp.handshake 7).2.server.registry ∧
      (lamp.handshake 7).2.server.registry.hasPending = false ∧
      (lamp.handshake 7).2.server.registry.create (dimmer changed) none =
        .ok (⟨3⟩, lamp.server.registry.perform (.create (dimmer changed) none)) ∧
      ((lamp.handshake 7).2.server.audience (lamp.network.joined 7)).count
        lamp.network.addClient.1 = 1 ∧
      (lamp.handshake 7).1.registry.contains ⟨3⟩ =
        (lamp.handshake 7).2.server.registry.contains ⟨3⟩ ∧
      Linked (lamp.network.joined 7) lamp.network.addClient.1 ⟨0⟩ ⟨1⟩ [] []
        (lamp.handshake 7).2.network := by
  obtain ⟨-, hagrees, hserver, hlinked⟩ := agrees_lamp
  rw [hserver]
  refine ⟨reachable_lamp, rfl, rfl, rfl, ?_, hlinked⟩
  have hnone : lamp.server.registry.get? ⟨3⟩ = none := rfl
  have hclient := hagrees ⟨3⟩
  rw [hnone, Option.map_none, Option.map_eq_none_iff] at hclient
  rw [Registry.contains, Registry.contains, Registry.contains_eq_isSome,
    Registry.contains_eq_isSome, hclient, hnone]

/-- The server after it has created a dimmer and ticked, on a network on which nobody else is. -/
def lampLater (changed : Bool) : OnNetwork where
  server := (tick ((lamp.handshake 7).2.afterAll [.create (dimmer changed) none])).1.server
  network := lamp.network

theorem isOpen_lampLater (changed : Bool) : (lampLater changed).IsOpen 7 := by
  have htransporters : (lampLater changed).server.transporters = lamp.server.transporters := by
    obtain ⟨-, -, hserver, -⟩ := agrees_lamp
    have hends := congrArg Server.transporters hserver
    exact (transporters_update _).trans hends
  constructor
  · refine ⟨⟨1⟩, ⟨0⟩, ⟨⟨0⟩, 0⟩, ?_, rfl, rfl⟩
    rw [htransporters]
    rfl
  · intro t k hk
    rw [htransporters] at hk
    exact quiet_lamp hk

/-- A default that was set is flagged, so everybody has it. -/
theorem announced_iff_dimmer :
    (dimmer true).Announced ∧
    ∃ p q, (lampLater true).server.registry.get? ⟨3⟩ = some p ∧
      ((lamp.handshake 7).1.poll (.ofNetwork lamp.network.addClient.1)
        (tick ((lamp.handshake 7).2.afterAll [.create (dimmer true) none])).1.network).1.registry.get?
          ⟨3⟩ = some q ∧
      q.definition = p.definition ∧
      ∃ q', ((lampLater true).handshake 7).1.registry.get? ⟨3⟩ = some q' ∧
        q'.definition = p.definition := by
  have hannounced : (dimmer true).Announced := ⟨rfl, rfl, rfl, rfl, rfl, rfl⟩
  obtain ⟨hs, hpending, hcreate, hone, hknows, hlinked⟩ := ready_lamp true
  obtain ⟨hd, hl⟩ := lossless_dimmer true
  have hlegible : ∀ y p, y ≠ .root → (lamp.handshake 7).2.server.registry.get? y = some p →
      p.Legible true := by
    obtain ⟨-, -, hserver, -⟩ := agrees_lamp
    intro y p hy hp
    rw [hserver] at hp
    exact (lossless_lamp hy hp).legible (reachable_lamp.orderly.2.settled hy hp).wellFormed
  obtain ⟨p, q, hp, hq, hiff, hlate⟩ :=
    announced_iff hs hpending hcreate hone hd hl hlegible hknows hlinked
  exact ⟨hannounced, p, q, hp, hq, hiff.2 hannounced,
    hlate (lampLater true) 7 rfl (isOpen_lampLater true)⟩

/-- A default that came with a definition that was read is not flagged, so who is there does not
have it. -/
theorem clone_is_stripped :
    TypeDef.read.run [0x15, 0x30, 0x00, 0x00, 0x00, 0x05, 0x00] = .ok (dimmer false, []) ∧
    (dimmer false).Lossless ∧
    Registry.Agrees (lamp.handshake 7).2.server.registry (lamp.handshake 7).1.registry ∧
    (lamp.handshake 7).2.server.registry.hasPending = false ∧
    ∃ p q, (lampLater false).server.registry.get? ⟨3⟩ = some p ∧
      ((lamp.handshake 7).1.poll (.ofNetwork lamp.network.addClient.1)
        (tick ((lamp.handshake 7).2.afterAll [.create (dimmer false) none])).1.network).1.registry.get?
          ⟨3⟩ = some q ∧
      p.definition = dimmer false ∧ q.definition = .number .int32 {} := by
  obtain ⟨hs, hpending, hcreate, hone, hknows, hlinked⟩ := ready_lamp false
  obtain ⟨hd, hl⟩ := lossless_dimmer false
  obtain ⟨-, hagrees, hserver, -⟩ := agrees_lamp
  obtain ⟨hp, -⟩ := get?_tick_create hs hpending hcreate hone
  obtain ⟨q, hq, hdefinition⟩ :=
    definition_poll_tick_create hs hpending hcreate hone hd hknows hlinked
  exact ⟨TypeDef.run_read hd true [], hl, hserver ▸ hagrees, hpending, _, q, hp, hq, rfl,
    hdefinition⟩

end Server.OnNetwork
end ParamSync
