import ParamSync.Proofs.Peers.Broadcast
import ParamSync.Proofs.Peers.Handshake

/-!
# Removals reach a client

A server moves and removes parameters, and ticks; a client polls. The client then shows what the
server shows, identifiers, values and labels, exactly if nobody was moved into or out of what was
removed with anything to show for it.

Results:
* `Server.OnNetwork.tick_shows_iff`: when a client shows what the server shows.
* `Server.OnNetwork.tick_empties_rescued`: a parameter that is moved out of a group before the group
  is removed loses its value and its label.
-/

namespace ParamSync

open Network (Linked)
open Registry (Agrees Op Reachable WasBelow)

namespace Registry

variable {s m : Registry}

/-- A mirror agrees with what it is a mirror of. -/
theorem agrees_of_mirrored (h : ∀ x, m.get? x = (s.get? x).map Parameter.mirrored) :
    Agrees s m := by
  intro x
  rw [h, Option.map_map]
  congr 1
  funext p
  exact congrArg (·, p.home, p.shown) p.definition.datatype_sent

theorem shown_encodeDirty (r : Registry) (x : ParamId) :
    (r.encodeDirty.2.get? x).map Parameter.shown = (r.get? x).map Parameter.shown := by
  have hsent : Parameter.shown ∘ Parameter.sent = Parameter.shown := by
    funext p
    simp only [Function.comp_apply, Parameter.shown, Parameter.sent]
    split <;> rfl
  rw [get?_encodeDirty]
  split
  · rw [Option.map_map, hsent]
  · rfl

end Registry

namespace Server

/-- A tick changes nothing that people see. -/
theorem shown_update (s : Server) (x : ParamId) :
    (s.update.1.registry.get? x).map Parameter.shown =
      (s.registry.get? x).map Parameter.shown := by
  unfold update
  split
  · rfl
  · exact s.registry.encodeRemoved.2.shown_encodeDirty x

namespace OnNetwork

variable {w : OnNetwork} {client : Client} {base : Network} {c : ClientKey} {key : ServerKey}
  {id : ConnectionId} {inbox : List (ConnectionId × Bytes)} {ops : List Op}

/-- The server once it has changed its parameters. -/
def afterAll (w : OnNetwork) (ops : List Op) : OnNetwork :=
  { w with server := { w.server with registry := w.server.registry.performAll ops } }

section Tick

variable (hs : Reachable (fun _ => Op.Legal) w.server.registry)
  (hdirty : w.server.registry.dirty = ∅) (hops : ∀ op ∈ ops, op.Trims)
include hs hdirty hops

/-- Moves and removals leave a tree, of parameters that were there. -/
theorem trims_afterAll : Registry.Forest (w.afterAll ops).server.registry ∧
    Registry.Trims w.server.registry (w.afterAll ops).server.registry := by
  have hs' : Reachable (fun _ => Op.Legal) (w.afterAll ops).server.registry :=
    hs.performAll fun op hop _ => (hops op hop).legal
  exact ⟨(hs'.orderly).1,
    (Registry.Trims.refl hdirty).performAll (hs.orderly).1 hops⟩

/-- After moves and removals and a tick a client has taken out what was removed, and merged what was
moved. -/
theorem registry_poll_tick (client : Client)
    (hclean : ∀ x p, w.server.registry.get? x = some p → p.hasChanges = false)
    (hlinked : Linked base c key id inbox [] w.network)
    (hone : (w.server.audience base).count c = 1) :
    (client.poll (.ofNetwork c) (tick (w.afterAll ops)).1.network).1.registry =
      client.registry.afterTick (w.afterAll ops).server.registry := by
  obtain ⟨hforest, ht⟩ := trims_afterAll hs hdirty hops
  have hs' : Reachable (fun _ => Op.Legal) (w.afterAll ops).server.registry :=
    hs.performAll fun op hop _ => (hops op hop).legal
  obtain ⟨-, horderly⟩ := hs'.orderly
  have hlegible : ∀ p ∈ (w.afterAll ops).server.registry.unsent, p.Legible false := by
    intro p hp
    obtain ⟨hroot, hquiet⟩ := Registry.quiet_unsent hforest ht hclean hp
    obtain ⟨-, hget⟩ := Registry.mem_unsent hforest.keyed hp
    exact Parameter.legible_of_quiet hquiet (horderly.settled hroot hget).wellFormed
  rw [poll_tick (w := w.afterAll ops) client hlinked hone hlegible]

/-- After moves and removals and a tick a client shows what the server shows exactly if whoever is
gone was below somebody that was removed, and whoever was there and is not gone was moved and has
neither value nor label. -/
theorem tick_shows_iff
    (hc : Reachable (fun _ => Op.Legal) client.registry)
    (hagrees : Agrees w.server.registry client.registry)
    (hclean : ∀ x p, w.server.registry.get? x = some p → p.hasChanges = false)
    (hlinked : Linked base c key id inbox [] w.network)
    (hone : (w.server.audience base).count c = 1) :
    (∀ x, ((client.poll (.ofNetwork c) (tick (w.afterAll ops)).1.network).1.registry.get? x).map
          Parameter.shown =
        ((tick (w.afterAll ops)).1.server.registry.get? x).map Parameter.shown) ↔
      (∀ x p, w.server.registry.get? x = some p →
        (w.afterAll ops).server.registry.get? x = none →
          WasBelow w.server.registry (w.afterAll ops).server.registry x) ∧
      ∀ x p, (w.afterAll ops).server.registry.get? x = some p →
        WasBelow w.server.registry (w.afterAll ops).server.registry x →
          x ∈ (w.afterAll ops).server.registry.dirty ∧ p.shown = Parameter.blank := by
  obtain ⟨hforest, ht⟩ := trims_afterAll hs hdirty hops
  rw [registry_poll_tick hs hdirty hops client hclean hlinked hone]
  have hserver : ∀ x, ((tick (w.afterAll ops)).1.server.registry.get? x).map Parameter.shown =
      ((w.afterAll ops).server.registry.get? x).map Parameter.shown :=
    (w.afterAll ops).server.shown_update
  simp only [hserver]
  exact Registry.mirror_shows_iff (hc.orderly).1 hforest hagrees ht hclean

end Tick

/-! ## A group with a lamp in it -/

/-- A client that has connected to the lamp agrees with its server. -/
theorem agrees_lamp :
    Reachable (fun _ => Op.Legal)
        (lamp.handshake 7).1.registry ∧
      Agrees lamp.server.registry (lamp.handshake 7).1.registry ∧
      (lamp.handshake 7).2.server = lamp.server ∧
      Linked (lamp.network.joined 7) lamp.network.addClient.1 ⟨0⟩ ⟨1⟩ [] []
        (lamp.handshake 7).2.network := by
  have horigin : lamp.server.transporters[(⟨1⟩ : TransporterId)]? = some ⟨0⟩ := rfl
  have hbound : lamp.network.endpoints[(7 : Endpoint)]? = some ⟨⟨0⟩, 0⟩ := rfl
  have hend : lamp.network.socket? ⟨0⟩ = some ⟨⟨0⟩, 0⟩ := rfl
  obtain ⟨hforest, horderly⟩ := reachable_lamp.orderly
  obtain ⟨-, hserver, hlinked⟩ := handshake_eq horigin hbound hend fun _ _ => quiet_lamp
  refine ⟨reachable_handshake _ _, ?_, hserver, hlinked⟩
  rw [client_lamp]
  exact Registry.agrees_of_mirrored (hforest.mirror_dump horderly).1

theorem clean_lamp (x : ParamId) (p : Parameter) (hp : lamp.server.registry.get? x = some p) :
    p.hasChanges = false := by
  have hall : lamp.server.registry.parameters.toList.all (fun e => !e.2.hasChanges) = true := rfl
  have hmem := Std.ExtTreeMap.mem_toList_iff_getElem?_eq_some.2 hp
  simpa using List.all_eq_true.1 hall _ hmem

/-- The client and the server after a handshake, some changes, a tick and a poll. -/
def lampAfter (ops : List Op) : Client × OnNetwork :=
  let (client, w) := lamp.handshake 7
  let (w, _) := tick (w.afterAll ops)
  ((client.poll (.ofNetwork lamp.network.addClient.1) w.network).1, w)

/-- The group is removed. -/
def dismissal : List Op := [.remove ⟨1⟩]

/-- The lamp is moved out of the group, and then the group is removed. -/
def rescue : List Op := [.move ⟨2⟩ none, .remove ⟨1⟩]

theorem tick_shows_dismissal :
    (∀ x, ((lampAfter dismissal).1.registry.get? x).map Parameter.shown =
        ((lampAfter dismissal).2.server.registry.get? x).map Parameter.shown) ∧
      (lamp.handshake 7).2.server.registry.contains ⟨1⟩ = true := by
  obtain ⟨hc, hagrees, hserver, hlinked⟩ := agrees_lamp
  obtain ⟨hforest, -⟩ := reachable_lamp.orderly
  have hgroup : ∃ p, lamp.server.registry.get? ⟨1⟩ = some p := ⟨_, rfl⟩
  obtain ⟨p, hp⟩ := hgroup
  have hid : (⟨1⟩ : ParamId) ≠ .root := by decide
  have hr : ((lamp.handshake 7).2.afterAll dismissal).server.registry =
      { (lamp.server.registry.evict ⟨1⟩).1 with
        removed := lamp.server.registry.removed.insert ⟨1⟩ } := by
    rw [afterAll, hserver]
    exact Registry.perform_remove hid hp
  refine ⟨(tick_shows_iff (hserver ▸ reachable_lamp) (by rw [hserver]; rfl)
    (by simp [dismissal, Op.Trims]) hc (hserver ▸ hagrees) (hserver ▸ clean_lamp) hlinked
    (by rw [hserver]; rfl)).2 ⟨?_, ?_⟩, by rw [hserver]; rfl⟩
  · rw [hserver, hr]
    intro x q hq hx
    have hbelow := ((hforest.evicted_iff hid hp).1 hx).resolve_left (by rw [hq]; nofun)
    exact ⟨⟨1⟩, Std.ExtTreeSet.mem_insert_self, hbelow⟩
  · rw [hserver, hr]
    rintro x q hq ⟨i, hi, hbelow⟩
    have hremoved : lamp.server.registry.removed = ∅ := rfl
    rw [hremoved, IdSet.mem_insert_iff] at hi
    obtain rfl := hi.resolve_right (by simp)
    have hgone : (lamp.server.registry.evict ⟨1⟩).1.get? x = none :=
      hforest.get?_evict_of_above hid hp hbelow
    cases hgone.symm.trans hq

/-- The client is told of the group first, so it takes the lamp out as well; and of the lamp it is
told no more than that it was moved. -/
theorem tick_empties_rescued :
    Agrees (lamp.handshake 7).2.server.registry (lamp.handshake 7).1.registry ∧
      (lamp.handshake 7).2.server.registry.hasPending = false ∧
      (∀ op ∈ rescue, op.Trims) ∧
      ((lampAfter rescue).2.server.registry.get? ⟨2⟩).map Parameter.shown =
        some (some (.boolean true), some "lamp", ∅) ∧
      ((lampAfter rescue).1.registry.get? ⟨2⟩).map Parameter.shown = some Parameter.blank := by
  obtain ⟨hc, hagrees, hserver, hlinked⟩ := agrees_lamp
  have hops : ∀ op ∈ rescue, op.Trims := by simp [rescue, Op.Trims]
  have hdirty : (lamp.handshake 7).2.server.registry.dirty = ∅ := by rw [hserver]; rfl
  have hs := hserver ▸ reachable_lamp
  obtain ⟨hforest, ht⟩ := trims_afterAll hs hdirty hops
  -- the lamp is not in the group any more when the group is removed
  let moved := lamp.server.registry.perform (.move ⟨2⟩ none)
  have hmoved : Registry.Forest moved := reachable_lamp.orderly.1.perform (.move ⟨2⟩ none) trivial
  have hgroup : ∃ p, moved.get? ⟨1⟩ = some p ∧ p.home = .root := ⟨_, rfl, rfl⟩
  obtain ⟨p, hp, hhome⟩ := hgroup
  have hid : (⟨1⟩ : ParamId) ≠ .root := by decide
  have hr : ((lamp.handshake 7).2.afterAll rescue).server.registry =
      { (moved.evict ⟨1⟩).1 with removed := moved.removed.insert ⟨1⟩ } := by
    rw [afterAll, hserver]
    exact Registry.perform_remove hid hp
  have hnot : ¬ Registry.Above moved ⟨1⟩ ⟨2⟩ := by
    rintro ⟨l, hl, hmem⟩
    obtain rfl := hl.unique (.member (by decide) rfl .root)
    exact absurd hmem (by decide)
  refine ⟨hserver ▸ hagrees, by rw [hserver]; rfl, hops, ?_, ?_⟩
  · refine (((lamp.handshake 7).2.afterAll rescue).server.shown_update ⟨2⟩).trans ?_
    rw [hr]
    have hget := hmoved.get?_evict_of_not_above hid hp hnot
    rw [hhome, if_neg (by decide)] at hget
    exact congrArg (Option.map Parameter.shown) hget
  · have hpoll := registry_poll_tick hs hdirty hops (lamp.handshake 7).1
      (hserver ▸ clean_lamp) hlinked (by rw [hserver]; rfl)
    have hbelow : WasBelow (lamp.handshake 7).2.server.registry
        ((lamp.handshake 7).2.afterAll rescue).server.registry ⟨2⟩ := by
      rw [hserver, hr]
      exact ⟨⟨1⟩, Std.ExtTreeSet.mem_insert_self, _,
        .member (by decide) rfl (.member hid rfl .root), by decide⟩
    have hdirty' : (⟨2⟩ : ParamId) ∈
        ((lamp.handshake 7).2.afterAll rescue).server.registry.dirty := by
      rw [hr]
      exact (hmoved.mem_dirty_evict hid hp).2 ⟨rfl, hnot⟩
    have hshown := (Registry.shown_afterTick hc.orderly.1 hforest (hserver ▸ hagrees) ht
      (hserver ▸ clean_lamp) ⟨2⟩).1 hbelow
    rw [if_pos hdirty', ← hpoll] at hshown
    exact hshown

end OnNetwork
end Server
end ParamSync
