import ParamSync.Proofs.Peers.Removal
import ParamSync.Proofs.Peers.Session
import ParamSync.Proofs.Registry.Backlog

/-!
# A removal against changes

A server removes a parameter while a client that has it changes its copy, and both tell and handle
in any order. The client loses the parameter for good: once the removal is under way nothing brings
it back. The server gets it back from an update that it handles after the removal, as it registers
whoever it does not know, and the client is not told of its own update.

Results:
* `parting_playAll_iff`: the client has lost the parameter, or will, exactly if it was removed.
* `kept_playAll_iff`: the server has it exactly if it was not removed, or came back in an update.
* `contains_iff_contains_iff`: when all is quiet both have it or both have not, exactly if no update
  of it was handled after its removal had been told.
* `lamp_comes_back`: a removed lamp comes back to the server and not to the client.
-/

namespace ParamSync
namespace Withdrawal

open Network (Wired SameWires Moved)

/-! ## Turns -/

/-- What happens next: the client changes a parameter, tells of its changes or handles what it was
told; the server removes the parameter, tells of that or handles what it was sent. -/
inductive Turn
  | edit (y : ParamId) (accesses : List Parameter.Access)
  | update
  | poll
  | remove
  | tick
  | serve

variable (seat : Seat) (x : ParamId)

/-- The session after a turn. -/
def play (s : Session Unit) : Turn → Session Unit
  | .edit y accesses => s.edit () y accesses
  | .update => s.update (fun _ => seat) ()
  | .poll => s.poll (fun _ => seat) ()
  | .remove => s.perform (.remove x)
  | .tick => s.tick
  | .serve => s.serve

def playAll (s : Session Unit) (turns : List Turn) : Session Unit := turns.foldl (play seat x) s

/-- The server has the parameter. -/
def Kept (s : Session Unit) : Prop := s.world.server.registry.get? x ≠ none

/-- The client has lost the parameter, or hears of its removal, or will hear of it. -/
def Parting (s : Session Unit) : Prop :=
  x ∈ s.world.server.registry.removed ∨ s.news seat ≠ [] ∨ (s.clients ()).registry.get? x = none

/-- An update of the parameter waits at the server. -/
def Crossing (s : Session Unit) : Prop :=
  ∃ m ∈ s.inbox seat, ∃ p, Packet.update? m.2 = some p ∧ p.id = x

/-- The server has nothing to tell but that the parameter is removed, the client is told nothing
else, and what the server is sent are updates of the client. -/
structure Fair (s : Session Unit) : Prop where
  taken : seat.Taken s.world
  dirty : s.world.server.registry.dirty = ∅
  removed : ∀ y ∈ s.world.server.registry.removed, y = x
  outbox : (s.clients ()).outbox = []
  unremoved : (s.clients ()).registry.removed = ∅
  inbox : ∀ (t : TransporterId) (k : ServerKey), s.world.server.transporters[t]? = some k →
    ∀ m ∈ s.world.network.inbox k, k = seat.server ∧ m.1 = seat.connection ∧ Packet.IsUpdate m.2
  news : ∀ e ∈ s.news seat, e = .received (Packet.encodeRemoval x)

/-- All is fair after a turn, and the turn has not brought the client to part. -/
structure Effect (s s' : Session Unit) : Prop where
  fair : Fair seat x s'
  parting : Parting seat x s' ↔ Parting seat x s

variable {seat x} {s s' s'' : Session Unit}

theorem Effect.refl (h : Fair seat x s) : Effect seat x s s := ⟨h, Iff.rfl⟩

theorem Effect.trans (h : Effect seat x s s') (h' : Effect seat x s' s'') : Effect seat x s s'' :=
  ⟨h'.fair, h'.parting.trans h.parting⟩

/-! ## Turns of the client -/

/-- Whatever the client changes, it does not lose the parameter. -/
theorem effect_edit (h : Fair seat x s) (y : ParamId) (accesses : List Parameter.Access) :
    Effect seat x s (s.edit () y accesses) where
  fair := { h with
    outbox := h.outbox
    unremoved := (Registry.removed_edit accesses).trans h.unremoved }
  parting := by
    have hlinks := Registry.sameLinks_perform_edit (s.clients ()).registry y accesses
    exact or_congr_right (or_congr_right (hlinks.get?_eq_none_iff x))

/-- What a client tells is updates. -/
theorem isUpdate_of_mem_encodeDirty {r : Registry} {data : Bytes} (h : data ∈ r.encodeDirty.1) :
    Packet.IsUpdate data := by
  rw [Registry.encodeDirty_eq_map] at h
  obtain ⟨p, -, rfl⟩ := List.mem_map.1 h
  exact Packet.isUpdate_encodeUpdate p false

theorem effect_update (h : Fair seat x s) : Effect seat x s (s.update (fun _ => seat) ()) := by
  cases hpending : (s.clients ()).hasPending with
  | false =>
    rw [Session.update_quiet hpending]
    exact .refl h
  | true =>
    obtain ⟨n, hupdate, hmoved⟩ :=
      Session.exists_update (fun _ => seat) () h.taken hpending h.outbox
    rw [hupdate]
    refine ⟨⟨h.taken.of_same rfl hmoved.toSameWires, h.dirty, h.removed, h.outbox, rfl, ?_, ?_⟩, ?_⟩
    · intro t k hk m hm
      rw [hmoved.inbox] at hm
      split at hm
      · next hserver =>
        rcases List.mem_append.1 hm with hm | hm
        · exact h.inbox t k hk m hm
        · obtain ⟨data, hdata, rfl⟩ := List.mem_map.1 hm
          exact ⟨hserver, rfl, isUpdate_of_mem_encodeDirty hdata⟩
      · exact h.inbox t k hk m hm
    · intro e he
      rw [Session.news, hmoved.news] at he
      exact h.news e he
    · have hlinks := (s.clients ()).registry.encodeRemoved.2.sameLinks_encodeDirty
      have hnews : n.news seat.client = s.world.network.news seat.client := hmoved.news seat.client
      refine or_congr_right (or_congr ?_ (hlinks.get?_eq_none_iff x))
      rw [Session.news, hnews, Session.news]

/-- What the client hears takes the parameter out. -/
theorem effect_hear (hx : x ≠ .root) (h : Fair seat x s) {e : LinkEvent} {n : Network}
    (htake : s.world.network.takeEvent? seat.client = some (e, n)) :
    ∃ data, e = .received data ∧ Effect seat x s ⟨⟨s.world.server, n⟩,
      Function.update s.clients () ((s.clients ()).receive data).1⟩ ∧
      n.inbox seat.server = s.inbox seat ∧
      ∀ y ∈ ((s.clients ()).receive data).1.registry.dirty, y ∈ (s.clients ()).registry.dirty := by
  have hnews : s.news seat = e :: n.news seat.client := Network.news_takeEvent? htake
  have hmem : e ∈ s.news seat := by
    rw [hnews]
    exact List.mem_cons_self
  obtain rfl := h.news e hmem
  have hmoved := Network.moved_takeEvent? htake (by nofun)
  have hgone : ((s.clients ()).registry.perform (.removeDirect x)).get? x = none :=
    Registry.gone_removeDirect hx
  refine ⟨_, rfl, ?_, hmoved.inbox _, ?_⟩
  · rw [Client.receive_encodeRemoval]
    refine ⟨⟨h.taken.of_same rfl hmoved.toSameWires, h.dirty, h.removed, h.outbox,
      Registry.removed_removeDirect.trans h.unremoved, ?_, ?_⟩, ?_⟩
    · intro t k hk m hm
      exact h.inbox t k hk m (hmoved.inbox k ▸ hm)
    · intro e' he'
      exact h.news e' (by rw [hnews]; exact List.mem_cons_of_mem _ he')
    · exact ⟨fun _ => .inr (.inl (List.ne_nil_of_mem hmem)), fun _ => .inr (.inr hgone)⟩
  · rw [Client.receive_encodeRemoval]
    exact fun y hy => Registry.mem_dirty_removeDirect hy

/-- A client that handles what it was told has nothing more to tell, and sends nothing. -/
theorem effect_poll (hx : x ≠ .root) (h : Fair seat x s) :
    let s' := s.poll (fun _ => seat) ()
    Effect seat x s s' ∧ s'.inbox seat = s.inbox seat ∧
      ∀ y ∈ (s'.clients ()).registry.dirty, y ∈ (s.clients ()).registry.dirty := by
  refine Session.poll_induction (P := fun s' => Effect seat x s s' ∧ s'.inbox seat = s.inbox seat ∧
    ∀ y ∈ (s'.clients ()).registry.dirty, y ∈ (s.clients ()).registry.dirty) ?_
    ⟨.refl h, rfl, fun _ hy => hy⟩
  intro s' e n ⟨heffect, hinbox, hdirty⟩ htake
  obtain ⟨data, he, hstep, hinbox', hdirty'⟩ := effect_hear hx heffect.fair htake
  exact ⟨data, he, heffect.trans hstep, hinbox'.trans hinbox, fun y hy => hdirty y (hdirty' y hy)⟩

/-! ## Turns of the server -/

/-- A removal is to be told, unless the parameter was gone already. -/
theorem fair_remove (hx : x ≠ .root) (h : Fair seat x s) (hearlier : Parting seat x s ∨ Kept x s) :
    Fair seat x (s.perform (.remove x)) ∧ Parting seat x (s.perform (.remove x)) ∧
      ¬ Kept x (s.perform (.remove x)) := by
  have hremoved : ∀ y, y ∈ (s.perform (.remove x)).world.server.registry.removed ↔
      (y = x ∧ Kept x s) ∨ y ∈ s.world.server.registry.removed :=
    fun y => Registry.mem_removed_remove hx
  have hparting : Parting seat x (s.perform (.remove x)) := by
    rcases hearlier with (htold | hrest) | hkept
    · exact .inl ((hremoved x).2 (.inr htold))
    · exact .inr hrest
    · exact .inl ((hremoved x).2 (.inl ⟨rfl, hkept⟩))
  refine ⟨⟨h.taken.of_same rfl (.refl _), ?_, ?_, h.outbox, h.unremoved, h.inbox, h.news⟩,
    hparting, not_not.2 (Registry.gone_remove hx)⟩
  · refine Std.ExtTreeSet.eq_empty_iff_forall_not_mem.2 fun y hy => ?_
    have hdirty := Registry.mem_dirty_remove hy
    rw [h.dirty] at hdirty
    exact Std.ExtTreeSet.not_mem_empty hdirty
  · intro y hy
    exact ((hremoved y).1 hy).elim And.left (h.removed y)

/-- A tick tells the client of the removal, if it is to be told. -/
theorem effect_tick (h : Fair seat x s) :
    Effect seat x s s.tick ∧ (Kept x s.tick ↔ Kept x s) := by
  obtain ⟨hserver, hnews⟩ := Session.tick_taken h.taken
  have hlinks := s.world.server.registry.encodeRemoved.2.sameLinks_encodeDirty
  have hupdates : s.world.server.registry.encodeDirty.1 = [] := by
    rw [Registry.encodeDirty, h.dirty]
    rfl
  rw [hupdates, List.append_nil, Registry.encodeRemoved, List.map_map] at hnews
  have hnone : s.world.server.registry.removed.toList = [] ↔
      x ∉ s.world.server.registry.removed := by
    rw [List.eq_nil_iff_forall_not_mem]
    simp only [Std.ExtTreeSet.mem_toList]
    exact ⟨fun hall => hall x, fun hnot y hy => hnot (h.removed y hy ▸ hy)⟩
  refine ⟨⟨⟨h.taken.of_same (by rw [hserver]) s.sameWires_tick, by rw [hserver]; rfl, ?_,
    h.outbox, h.unremoved, ?_, ?_⟩, ?_⟩, ?_⟩
  · rw [hserver]
    exact fun y hy => absurd hy Std.ExtTreeSet.not_mem_empty
  · intro t k hk m hm
    rw [hserver] at hk
    rw [s.inbox_tick] at hm
    exact h.inbox t k hk m hm
  · intro e he
    rw [hnews, List.mem_append, List.mem_map] at he
    rcases he with he | ⟨y, hy, rfl⟩
    · exact h.news e he
    · rw [h.removed y (Std.ExtTreeSet.mem_toList.1 hy)]
      rfl
  · have hnews' : s.tick.news seat ≠ [] ↔
        x ∈ s.world.server.registry.removed ∨ s.news seat ≠ [] := by
      rw [hnews, ne_eq, List.append_eq_nil_iff, List.map_eq_nil_iff, hnone, not_and_or, not_not,
        or_comm]
    have htold : x ∉ s.tick.world.server.registry.removed := by
      rw [hserver]
      exact Std.ExtTreeSet.not_mem_empty
    rw [Parting, or_iff_right htold, hnews', or_assoc]
    rfl
  · rw [Kept, hserver, ne_eq, hlinks.get?_eq_none_iff]
    rfl

/-- The server merges what an update of the client brings, and tells the client nothing. -/
theorem exists_handle {w : Server.OnNetwork} {origin : TransporterId} {data : Bytes}
    (hx : x ≠ .root) (htaken : seat.Taken w)
    (horigin : w.server.transporters[origin]? = some seat.server) (hupdate : Packet.IsUpdate data) :
    ∃ r n, (Server.handle w origin seat.connection data).1 = ⟨{ w.server with registry := r }, n⟩ ∧
      r.dirty = w.server.registry.dirty ∧ r.removed = w.server.registry.removed ∧
      (r.get? x ≠ none ↔ w.server.registry.get? x ≠ none ∨
        ∃ p, Packet.update? data = some p ∧ p.id = x) ∧
      SameWires w.network n ∧ (∀ k, n.inbox k = w.network.inbox k) ∧
      n.news seat.client = w.network.news seat.client := by
  cases hp : Packet.update? data with
  | none =>
    refine ⟨w.server.registry, w.network, Server.handle_nothing w origin _ hupdate hp, rfl, rfl,
      by simp, .refl _, fun _ => rfl, rfl⟩
  | some p =>
    obtain ⟨hdirty, hremoved⟩ := w.server.registry.backlog_merge p
    have hserver := Server.server_handle w origin seat.connection hp
    refine ⟨w.server.registry.perform (.merge p), _, ?_, hdirty, hremoved, ?_,
      Server.sameWires_handle w origin seat.connection hp, Server.inbox_handle w origin _ data,
      htaken.news_handle_self horigin hp⟩
    · rw [← hserver]
    · rw [Registry.alive_merge_iff hx]
      simp

/-- A message that the server handles brings the parameter back if it is an update of it. -/
theorem effect_handle (hx : x ≠ .root) (h : Fair seat x s) {origin : TransporterId}
    {key : ServerKey} {sender : ConnectionId} {data : Bytes} {n : Network}
    (horigin : s.world.server.transporters[origin]? = some key)
    (htake : s.world.network.takeMessage? key = some ((sender, data), n)) :
    let s' := { s with world := (Server.handle ⟨s.world.server, n⟩ origin sender data).1 }
    Effect seat x s s' ∧ s'.world.server.transporters = s.world.server.transporters ∧
      s'.world.server.registry.removed = s.world.server.registry.removed ∧
      (Kept x s' ∨ Crossing seat x s' ↔ Kept x s ∨ Crossing seat x s) := by
  obtain ⟨rest, hrest, hmoved⟩ := Network.moved_takeMessage? htake
  have hmem : (sender, data) ∈ s.world.network.inbox key := by
    rw [hrest]
    exact List.mem_cons_self
  obtain ⟨rfl, rfl, hupdate⟩ := h.inbox origin key horigin _ hmem
  have htaken : seat.Taken ⟨s.world.server, n⟩ := h.taken.of_same rfl hmoved.toSameWires
  obtain ⟨r, n', hhandle, hdirty, hremoved, halive, hsame, hinbox, hnews⟩ :=
    exists_handle hx htaken horigin hupdate
  have hunheard : n'.news seat.client = s.world.network.news seat.client :=
    hnews.trans (hmoved.news seat.client)
  have hwaits : n'.inbox seat.server = rest := by
    rw [hinbox, hmoved.inbox, if_pos rfl]
  dsimp only
  rw [hhandle]
  refine ⟨⟨⟨htaken.of_same rfl hsame, hdirty.trans h.dirty, ?_, h.outbox, h.unremoved, ?_, ?_⟩, ?_⟩,
    rfl, hremoved, ?_⟩
  · rw [hremoved]
    exact h.removed
  · intro t k hk m hm
    rw [hinbox, hmoved.inbox] at hm
    split at hm
    · next hserver =>
      subst hserver
      exact h.inbox t _ hk m (hrest ▸ List.mem_cons_of_mem _ hm)
    · exact h.inbox t k hk m hm
  · intro e he
    rw [Session.news, hunheard] at he
    exact h.news e he
  · rw [Parting, Session.news, hunheard, hremoved]
    rfl
  · rw [Kept, halive, Crossing, Session.inbox, hwaits, Kept, Crossing, Session.inbox, hrest,
      List.exists_mem_cons_iff, or_assoc]

/-- A server that handles what it was sent has the parameter if it had it or is sent an update of
it, and nothing waits to be handled any more. -/
theorem effect_serve (hx : x ≠ .root) (h : Fair seat x s) :
    Effect seat x s s.serve ∧ s.serve.inbox seat = [] ∧
      s.serve.world.server.registry.removed = s.world.server.registry.removed ∧
      (Kept x s.serve ↔ Kept x s ∨ Crossing seat x s) := by
  have hempty := Session.inbox_serve h.taken
  have hnone : ¬ Crossing seat x s.serve := by
    rw [Crossing, hempty]
    simp
  have hserve := Session.serve_induction (s := s)
    (P := fun s' => Effect seat x s s' ∧
      s'.world.server.transporters = s.world.server.transporters ∧
      s'.world.server.registry.removed = s.world.server.registry.removed ∧
      (Kept x s' ∨ Crossing seat x s' ↔ Kept x s ∨ Crossing seat x s)) ?_
    ⟨.refl h, rfl, rfl, Iff.rfl⟩
  · obtain ⟨heffect, -, hremoved, hkept⟩ := hserve
    rw [or_iff_left hnone] at hkept
    exact ⟨heffect, hempty, hremoved, hkept⟩
  · intro s' origin key sender data n horigin ⟨heffect, htransporters, hremoved, hkept⟩ htake
    obtain ⟨heffect', htransporters', hremoved', hkept'⟩ :=
      effect_handle hx heffect.fair (htransporters ▸ horigin) htake
    exact ⟨heffect.trans heffect', htransporters'.trans htransporters, hremoved'.trans hremoved,
      hkept'.trans hkept⟩

/-! ## Runs -/

variable (seat x) in
/-- All is fair, and the server has the parameter if the client does not part with it. -/
structure Sound (s : Session Unit) : Prop extends Fair seat x s where
  earlier : Parting seat x s ∨ Kept x s

/-- A turn brings the client to part if it is a removal, and the server to have the parameter if it
handles an update of it. -/
theorem sound_play (hx : x ≠ .root) (h : Sound seat x s) (t : Turn) :
    Sound seat x (play seat x s t) ∧
      (Parting seat x (play seat x s t) ↔ Parting seat x s ∨ t = .remove) ∧
      (Kept x (play seat x s t) ↔
        (Kept x s ∧ t ≠ .remove) ∨ (t = .serve ∧ Crossing seat x s)) := by
  have hkeep : ∀ {s'}, Effect seat x s s' → (Kept x s → Kept x s') → Sound seat x s' :=
    fun heffect hkept => ⟨heffect.fair, h.earlier.imp heffect.parting.2 hkept⟩
  cases t with
  | edit y accesses =>
    have heffect := effect_edit h.toFair y accesses
    exact ⟨hkeep heffect id, by simpa [play] using heffect.parting,
      by simp [play, Kept, Session.edit]⟩
  | update =>
    have heffect := effect_update h.toFair
    exact ⟨hkeep heffect id, by simpa [play] using heffect.parting,
      by simp [play, Kept, Session.update]⟩
  | poll =>
    have heffect := (effect_poll hx h.toFair).1
    exact ⟨hkeep heffect id, by simpa [play] using heffect.parting,
      by simp [play, Kept, Session.poll]⟩
  | remove =>
    obtain ⟨hfair, hparting, hkept⟩ := fair_remove hx h.toFair h.earlier
    exact ⟨⟨hfair, .inl hparting⟩, by simpa [play] using hparting, by simpa [play] using hkept⟩
  | tick =>
    obtain ⟨heffect, hkept⟩ := effect_tick h.toFair
    exact ⟨hkeep heffect hkept.2, by simpa [play] using heffect.parting,
      by simpa [play] using hkept⟩
  | serve =>
    obtain ⟨heffect, -, -, hkept⟩ := effect_serve hx h.toFair
    exact ⟨hkeep heffect fun hs => hkept.2 (.inl hs), by simpa [play] using heffect.parting,
      by simpa [play] using hkept⟩

theorem sound_playAll (hx : x ≠ .root) (h : Sound seat x s) (turns : List Turn) :
    Sound seat x (playAll seat x s turns) := by
  induction turns generalizing s with
  | nil => exact h
  | cons t rest ih => exact ih (sound_play hx h t).1

/-- The client parts with the parameter if it is removed, and not otherwise. -/
theorem parting_playAll_iff (hx : x ≠ .root) (h : Sound seat x s) (turns : List Turn) :
    Parting seat x (playAll seat x s turns) ↔ Parting seat x s ∨ .remove ∈ turns := by
  induction turns generalizing s with
  | nil => simp [playAll]
  | cons t rest ih =>
    obtain ⟨hsound, hparting, -⟩ := sound_play hx h t
    rw [playAll, List.foldl_cons, ← playAll, ih hsound, hparting, List.mem_cons, or_assoc,
      eq_comm (a := t)]

variable (seat x) in
/-- An update of the parameter is handled after the last removal. -/
def ComesBack (s : Session Unit) (turns : List Turn) : Prop :=
  ∃ pre post, turns = pre ++ .serve :: post ∧ .remove ∉ post ∧
    Crossing seat x (playAll seat x s pre)

theorem comesBack_cons {t : Turn} {rest : List Turn} :
    ComesBack seat x s (t :: rest) ↔
      (t = .serve ∧ .remove ∉ rest ∧ Crossing seat x s) ∨
        ComesBack seat x (play seat x s t) rest :=
  exists_eq_append_cons

/-- The server has the parameter if it was not removed, or if it came back. -/
theorem kept_playAll_iff (hx : x ≠ .root) (h : Sound seat x s) (turns : List Turn) :
    Kept x (playAll seat x s turns) ↔
      (Kept x s ∧ .remove ∉ turns) ∨ ComesBack seat x s turns := by
  induction turns generalizing s with
  | nil => simp [playAll, ComesBack]
  | cons t rest ih =>
    obtain ⟨hsound, -, hkept⟩ := sound_play hx h t
    rw [playAll, List.foldl_cons, ← playAll, ih hsound, hkept, comesBack_cons, List.mem_cons]
    by_cases ht : t = .remove
    · simp [ht]
    · simp only [ne_eq, ht, not_false_eq_true, and_true, eq_comm (a := Turn.remove), false_or]
      rw [or_and_right, or_assoc, and_assoc, and_comm (a := Crossing seat x s)]

/-! ## All is quiet -/

variable (seat x) in
/-- Both have the parameter, and nothing is under way. -/
structure Start (s : Session Unit) : Prop where
  taken : seat.Taken s.world
  quiet : Session.Quiet (fun _ => seat) s
  server : s.world.server.registry.contains x = true
  client : (s.clients ()).registry.contains x = true

theorem contains_iff {r : Registry} (hx : x ≠ .root) : r.contains x = true ↔ r.get? x ≠ none :=
  Registry.contains_iff_ne_root.trans (and_iff_right hx)

theorem Start.sound (h : Start seat x s) :
    x ≠ .root ∧ Sound seat x s ∧ ¬ Parting seat x s ∧ Kept x s := by
  have hx : x ≠ .root := by
    rintro rfl
    exact absurd h.server (by simp [Registry.contains])
  obtain ⟨hdirty, hremoved⟩ := Registry.hasPending_eq_false_iff.1 h.quiet.server
  obtain ⟨houtbox, -, hunremoved⟩ := Client.hasPending_eq_false_iff.1 (h.quiet.clients ())
  have hkept : Kept x s := (contains_iff hx).1 h.server
  refine ⟨hx, ⟨⟨h.taken, hdirty, ?_, houtbox, hunremoved, ?_, ?_⟩, .inr hkept⟩, ?_, hkept⟩
  · rw [hremoved]
    exact fun y hy => absurd hy Std.ExtTreeSet.not_mem_empty
  · intro t k hk m hm
    rw [h.quiet.inbox t k hk] at hm
    cases hm
  · intro e he
    rw [h.quiet.news ()] at he
    cases he
  · rintro (htold | hnews | hgone)
    · rw [hremoved] at htold
      exact Std.ExtTreeSet.not_mem_empty htold
    · exact hnews (h.quiet.news ())
    · exact (contains_iff hx).1 h.client hgone

/-- Where all is quiet, whoever parts with the parameter has lost it. -/
theorem parting_iff_of_quiet (h : Session.Quiet (fun _ => seat) s) :
    Parting seat x s ↔ (s.clients ()).registry.get? x = none := by
  rw [Parting, (Registry.hasPending_eq_false_iff.1 h.server).2, h.news ()]
  simp

variable (seat x) in
/-- An update of the parameter is handled after the last removal, which has been told by then. -/
def Late (s : Session Unit) (turns : List Turn) : Prop :=
  ∃ pre post, turns = pre ++ .serve :: post ∧ .remove ∈ pre ∧ .remove ∉ post ∧
    x ∉ (playAll seat x s pre).world.server.registry.removed ∧
    Crossing seat x (playAll seat x s pre)

/-- However a client and a server take their turns, if no update of the parameter is handled while
its removal waits to be told, then in the end both have the parameter or both have not, exactly if
no update of it was handled after that. -/
theorem contains_iff_contains_iff (hstart : Start seat x s) {turns : List Turn}
    (hwaits : ∀ pre post, turns = pre ++ .serve :: post →
      x ∈ (playAll seat x s pre).world.server.registry.removed →
        ¬ Crossing seat x (playAll seat x s pre))
    (hquiet : Session.Quiet (fun _ => seat) (playAll seat x s turns)) :
    ((playAll seat x s turns).world.server.registry.contains x = true ↔
        ((playAll seat x s turns).clients ()).registry.contains x = true) ↔
      ¬ Late seat x s turns := by
  obtain ⟨hx, hsound, hstays, hkept⟩ := hstart.sound
  have hserver := kept_playAll_iff hx hsound turns
  rw [and_iff_right hkept] at hserver
  have hclient := parting_playAll_iff hx hsound turns
  rw [or_iff_right hstays] at hclient
  have hlate : Late seat x s turns ↔ .remove ∈ turns ∧ ComesBack seat x s turns := by
    constructor
    · rintro ⟨pre, post, rfl, hpre, hpost, -, hcrossing⟩
      exact ⟨List.mem_append_left _ hpre, pre, post, rfl, hpost, hcrossing⟩
    · rintro ⟨hmem, pre, post, rfl, hpost, hcrossing⟩
      have hpre : .remove ∈ pre := (List.mem_append.1 hmem).resolve_right fun h =>
        hpost ((List.mem_cons.1 h).resolve_left nofun)
      exact ⟨pre, post, rfl, hpre, hpost, fun htold => hwaits pre post rfl htold hcrossing,
        hcrossing⟩
  have hleft : ((playAll seat x s turns).clients ()).registry.get? x ≠ none ↔ .remove ∉ turns :=
    not_congr ((parting_iff_of_quiet hquiet).symm.trans hclient)
  rw [contains_iff hx, contains_iff hx, hleft, hlate]
  show (Kept x (playAll seat x s turns) ↔ _) ↔ _
  rw [hserver]
  by_cases hmem : .remove ∈ turns <;> simp [hmem]

/-! ## A lamp that is switched off -/

/-- A client that has told of its changes has nothing to tell. -/
theorem quiet_update (h : Fair seat x s) :
    ((s.update (fun _ => seat) ()).clients ()).hasPending = false := by
  cases hpending : (s.clients ()).hasPending with
  | false => rw [Session.update_quiet hpending, hpending]
  | true =>
    obtain ⟨n, hupdate, -⟩ := Session.exists_update (fun _ => seat) () h.taken hpending h.outbox
    rw [hupdate]
    exact Client.hasPending_eq_false_iff.2 ⟨h.outbox, rfl, rfl⟩

/-- Once everybody has told and the server has handled it all, a poll of the client is the last
thing to happen. -/
theorem quiet_poll (hx : x ≠ .root) (h : Fair seat x s)
    (hremoved : s.world.server.registry.removed = ∅) (hclient : (s.clients ()).hasPending = false)
    (hinbox : s.inbox seat = []) : Session.Quiet (fun _ => seat) (s.poll (fun _ => seat) ()) := by
  obtain ⟨heffect, hwaits, hdirty⟩ := effect_poll hx h
  obtain ⟨-, hclean, -⟩ := Client.hasPending_eq_false_iff.1 hclient
  refine ⟨Registry.hasPending_eq_false_iff.2 ⟨h.dirty, hremoved⟩, fun _ => ?_, fun t k hk => ?_,
    fun _ => Session.news_poll s ()⟩
  · refine Client.hasPending_eq_false_iff.2 ⟨heffect.fair.outbox, ?_, heffect.fair.unremoved⟩
    rw [hclean] at hdirty
    exact Std.ExtTreeSet.eq_empty_iff_forall_not_mem.2 fun y hy =>
      Std.ExtTreeSet.not_mem_empty (hdirty y hy)
  · refine List.eq_nil_iff_forall_not_mem.2 fun m hm => ?_
    obtain ⟨rfl, -, -⟩ := heffect.fair.inbox t k hk m hm
    rw [← Session.inbox, hwaits, hinbox] at hm
    cases hm

/-- A client that tells of a change of the parameter sends an update of it. -/
theorem crossing_update (h : Fair seat x s) {p : Parameter}
    (hp : (s.clients ()).registry.get? x = some p) (hid : p.id = x)
    (hdirty : x ∈ (s.clients ()).registry.dirty) (hlegible : p.Legible false) :
    Crossing seat x (s.update (fun _ => seat) ()) := by
  have hpending : (s.clients ()).hasPending = true := by
    refine eq_true_of_ne_false fun hquiet => ?_
    rw [(Client.hasPending_eq_false_iff.1 hquiet).2.1] at hdirty
    exact Std.ExtTreeSet.not_mem_empty hdirty
  obtain ⟨n, hupdate, hmoved⟩ := Session.exists_update (fun _ => seat) () h.taken hpending h.outbox
  have hsent : Packet.encodeUpdate p false ∈ (s.clients ()).registry.encodeDirty.1 := by
    rw [Registry.encodeDirty_eq_map]
    exact List.mem_map_of_mem
      (List.mem_filterMap.2 ⟨x, Std.ExtTreeSet.mem_toList.2 hdirty, hp⟩)
  rw [hupdate]
  refine ⟨(seat.connection, Packet.encodeUpdate p false), ?_, _,
    Packet.update?_encodeUpdate hlegible, hid⟩
  rw [Session.inbox, hmoved.inbox, if_pos rfl]
  exact List.mem_append_right _ (List.mem_map_of_mem hsent)

open Server.OnNetwork (lamp agrees_lamp client_lamp reachable_lamp end_lamp)

/-- The client that has connected to the lamp. -/
def lampSeat : Seat := ⟨lamp.network.addClient.1, ⟨0⟩, ⟨1⟩⟩

def lampSession : Session Unit := ⟨(lamp.handshake 7).2, fun _ => (lamp.handshake 7).1⟩

theorem start_lamp : Start lampSeat ⟨2⟩ lampSession := by
  obtain ⟨-, hagrees, hserver, hlinked⟩ := agrees_lamp
  obtain ⟨-, hdirty, hremoved⟩ := reachable_lamp.orderly.1.mirror_dump reachable_lamp.orderly.2
  have hpending : (lamp.handshake 7).1.hasPending = false := by
    rw [client_lamp]
    exact Client.hasPending_eq_false_iff.2 ⟨rfl, hdirty, hremoved⟩
  have hid : (⟨2⟩ : ParamId) ≠ .root := by decide
  have halive : (lamp.server.registry.get? ⟨2⟩).isSome = true := rfl
  refine ⟨⟨hlinked.wired, ⟨⟨1⟩, ?_⟩, ?_⟩, ⟨?_, fun _ => hpending, fun t k hk => ?_,
    fun _ => hlinked.news⟩, ?_, ?_⟩
  · rw [lampSession, hserver]
    rfl
  · rw [lampSession, hserver, Server.audience_congr _ hlinked.connections]
    rfl
  · rw [lampSession, hserver]
    rfl
  · rw [lampSession, hserver] at hk
    rw [lampSession, hlinked.inbox, if_pos (end_lamp hk)]
  · rw [lampSession, hserver, contains_iff hid]
    exact Option.isSome_iff_ne_none.1 halive
  · have hclient := congrArg Option.isSome (hagrees ⟨2⟩)
    rw [Option.isSome_map, Option.isSome_map, halive] at hclient
    exact (contains_iff hid).2 (Option.isSome_iff_ne_none.1 hclient)

/-- The client switches the lamp off. -/
def off : Turn := .edit ⟨2⟩ [.edit (.value (some (.boolean false)))]

/-- The client makes a change and tells of it, and then the server removes the parameter. -/
def inTime (change : Turn) : List Turn := [change, .update, .serve, .remove, .tick, .poll]

/-- The server removes the parameter and tells of it, and before it hears of that the client makes a
change. -/
def tooLate (change : Turn) : List Turn := [.remove, .tick, change, .update, .serve, .poll]

theorem quiet_inTime (hstart : Start seat x s) (y : ParamId) (accesses : List Parameter.Access) :
    Session.Quiet (fun _ => seat) (playAll seat x s (inTime (.edit y accesses))) := by
  obtain ⟨hx, hsound, -, -⟩ := hstart.sound
  have hfair := fun turns => (sound_playAll hx hsound turns).toFair
  obtain ⟨-, hinbox, -, -⟩ := effect_serve hx (hfair [.edit y accesses, .update])
  obtain ⟨hserver, -⟩ :=
    Session.tick_taken (hfair [.edit y accesses, .update, .serve, .remove]).taken
  refine quiet_poll hx (hfair [.edit y accesses, .update, .serve, .remove, .tick]) ?_
    (quiet_update (hfair [.edit y accesses])) ((Session.inbox_tick _ _).trans hinbox)
  exact congrArg (·.registry.removed) hserver

theorem quiet_tooLate (hstart : Start seat x s) (y : ParamId) (accesses : List Parameter.Access) :
    Session.Quiet (fun _ => seat) (playAll seat x s (tooLate (.edit y accesses))) := by
  obtain ⟨hx, hsound, -, -⟩ := hstart.sound
  have hfair := fun turns => (sound_playAll hx hsound turns).toFair
  obtain ⟨hserver, -⟩ := Session.tick_taken (hfair [.remove]).taken
  obtain ⟨-, hinbox, hremoved, -⟩ :=
    effect_serve hx (hfair [.remove, .tick, .edit y accesses, .update])
  refine quiet_poll hx (hfair [.remove, .tick, .edit y accesses, .update, .serve]) ?_
    (quiet_update (hfair [.remove, .tick, .edit y accesses])) hinbox
  exact hremoved.trans (congrArg (·.registry.removed) hserver)

theorem contains_iff_contains_iff_inTime :
    Start lampSeat ⟨2⟩ lampSession ∧
      Session.Quiet (fun _ => lampSeat) (playAll lampSeat ⟨2⟩ lampSession (inTime off)) ∧
      (((playAll lampSeat ⟨2⟩ lampSession (inTime off)).world.server.registry.contains ⟨2⟩ = true ↔
          ((playAll lampSeat ⟨2⟩ lampSession (inTime off)).clients ()).registry.contains ⟨2⟩ =
            true) ↔
        ¬ Late lampSeat ⟨2⟩ lampSession (inTime off)) := by
  have hquiet := quiet_inTime start_lamp ⟨2⟩ [.edit (.value (some (.boolean false)))]
  refine ⟨start_lamp, hquiet, contains_iff_contains_iff start_lamp ?_ hquiet⟩
  obtain ⟨hx, hsound, hstays, -⟩ := start_lamp.sound
  intro pre post hturns htold
  -- the removal comes after all that the server handles
  have hpre : .remove ∈ pre := by
    have hparting := (parting_playAll_iff hx hsound pre).1 (.inl htold)
    exact hparting.resolve_left hstays
  rcases pre with _ | ⟨_, _ | ⟨_, _ | ⟨_, pre⟩⟩⟩ <;> simp [inTime, off] at hturns
  · obtain ⟨rfl, rfl, -⟩ := hturns
    simp at hpre
  · have hmem : Turn.serve ∈ [Turn.remove, .tick, .poll] := by
      rw [hturns.2.2.2]
      simp
    simp at hmem

/-- What the client makes of the lamp when it switches it off. -/
theorem exists_lamp_off : ∃ p,
    (lamp.handshake 7).1.registry.get? ⟨2⟩ = some p ∧ p.id = ⟨2⟩ ∧
      (p.accessAll [.edit (.value (some (.boolean false)))]).hasChanges = true ∧
      (p.accessAll [.edit (.value (some (.boolean false)))]).Legible false := by
  have hmirror := (reachable_lamp.orderly.1.mirror_dump reachable_lamp.orderly.2).1 ⟨2⟩
  have hlamp : ∃ p, lamp.server.registry.get? ⟨2⟩ = some p ∧ p.mirrored.id = ⟨2⟩ ∧
      (p.mirrored.accessAll [.edit (.value (some (.boolean false)))]).hasChanges = true ∧
      (p.mirrored.accessAll [.edit (.value (some (.boolean false)))]).Legible false :=
    ⟨_, rfl, rfl, rfl, trivial, by rintro ⟨⟩, by rintro ⟨⟩⟩
  obtain ⟨p, hp, hrest⟩ := hlamp
  refine ⟨p.mirrored, ?_, hrest⟩
  rw [client_lamp, hmirror, hp]
  rfl

/-- The server has the lamp again, which the client has lost. -/
theorem lamp_comes_back :
    Start lampSeat ⟨2⟩ lampSession ∧
      Session.Quiet (fun _ => lampSeat) (playAll lampSeat ⟨2⟩ lampSession (tooLate off)) ∧
      (playAll lampSeat ⟨2⟩ lampSession (tooLate off)).world.server.registry.contains ⟨2⟩ = true ∧
      ((playAll lampSeat ⟨2⟩ lampSession (tooLate off)).clients ()).registry.contains ⟨2⟩ =
        false := by
  have hquiet := quiet_tooLate start_lamp ⟨2⟩ [.edit (.value (some (.boolean false)))]
  obtain ⟨hx, hsound, -, -⟩ := start_lamp.sound
  refine ⟨start_lamp, hquiet, ?_, ?_⟩
  · obtain ⟨p, hp, hid, hchanges, hlegible⟩ := exists_lamp_off
    have hunremoved : (lamp.handshake 7).1.registry.removed = ∅ := hsound.unremoved
    have hedited := (Registry.get?_edit [.edit (.value (some (.boolean false)))] hx).trans
      (congrArg _ hp)
    have hcrossing := crossing_update
      (sound_playAll hx hsound [.remove, .tick, off]).toFair hedited
      ((congrArg (·.1) (p.links_accessAll _)).trans hid)
      (Registry.mem_dirty_of_edit hx hp hid hunremoved hchanges) hlegible
    refine (contains_iff hx).2 ((kept_playAll_iff hx hsound _).2 (.inr ?_))
    exact ⟨[.remove, .tick, off, .update], [.poll], rfl, by simp, hcrossing⟩
  · have hparting := (parting_playAll_iff hx hsound (tooLate off)).2 (.inr (by simp [tooLate]))
    have hlost := (parting_iff_of_quiet hquiet).1 hparting
    exact Bool.eq_false_iff.2 (mt (contains_iff hx).1 (not_not.2 hlost))

end Withdrawal
end ParamSync
