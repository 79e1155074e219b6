import ParamSync.Proofs.Peers.Copies
import ParamSync.Proofs.Peers.Exchange
import ParamSync.Proofs.Peers.Handshake
import ParamSync.Proofs.Peers.Session

/-!
# Two clients that change a number

Two clients have a copy of a number of a server, and each sets it once. Both and the server tell of
their changes and handle what they were told in any order. What becomes of the number is an
exchange: a turn of the session is some steps of it, one for each message that is handled.

Results:
* `Tuned.edit`, `Tuned.update`, `Tuned.hear`, `Tuned.handle`: the session goes as the exchange goes.
* `exists_clear_or_crossed`: along every run changes stay clear of each other, or have crossed.
* `agree_iff`: when all is quiet all three hold the same value, exactly if no changes have crossed
  or both clients have set the same.
* `dial_swaps`: two clients that set 1 and 2 at a time end up with each other's.
-/

namespace ParamSync

open Network (SameWires Moved)

/-- Functions that are related stay so if they are changed at one place. -/
theorem rel_update {ι α β : Type} [DecidableEq ι] {P : α → β → Prop} {f : ι → α} {g : ι → β}
    (h : ∀ j, P (f j) (g j)) {i : ι} {a : α} {b : β} (hab : P a b) (j : ι) :
    P (Function.update f i a j) (Function.update g i b j) := by
  by_cases hj : j = i
  · subst hj
    rwa [Function.update_self, Function.update_self]
  · rw [Function.update_of_ne hj, Function.update_of_ne hj]
    exact h j

/-! ## What a client has sent -/

namespace Seat

variable {seat seat' : Seat} {n n' : Network} {key : ServerKey}

/-- What the client has sent and the server has not handled, the oldest first. -/
def sent (seat : Seat) (n : Network) : List Bytes :=
  (n.inbox seat.server).filterMap fun m => if m.1 = seat.connection then some m.2 else none

theorem sent_congr (h : ∀ k, n'.inbox k = n.inbox k) : seat.sent n' = seat.sent n := by
  rw [sent, h, sent]

/-- Two clients do not share a connection. -/
theorem Taken.connection_ne {w : Server.OnNetwork} (h : seat.Taken w) (h' : seat'.Taken w)
    (hne : seat.client ≠ seat'.client) (hserver : seat'.server = seat.server) :
    seat.connection ≠ seat'.connection := by
  intro hconnection
  have hother := h'.wired.connection
  rw [hserver, ← hconnection, h.wired.connection] at hother
  exact hne (Option.some.inj hother)

variable {id : ConnectionId} {data : Bytes} {rest : List (ConnectionId × Bytes)}

/-- A message that is sent over the connection of a client is sent by it. -/
theorem sent_push (h : ∀ k, n'.inbox k = if k = key then n.inbox k ++ [(id, data)] else n.inbox k) :
    seat.sent n' = if seat.server = key ∧ id = seat.connection then seat.sent n ++ [data]
      else seat.sent n := by
  rw [sent, h, sent]
  by_cases hserver : seat.server = key
  · by_cases hid : id = seat.connection <;> simp [hserver, hid]
  · simp [hserver]

/-- A message that is taken was sent by the client whose connection it came over. -/
theorem sent_take (hrest : n.inbox key = (id, data) :: rest)
    (h : ∀ k, n'.inbox k = if k = key then rest else n.inbox k) :
    seat.sent n = if seat.server = key ∧ id = seat.connection then data :: seat.sent n'
      else seat.sent n' := by
  rw [sent, sent, h]
  by_cases hserver : seat.server = key
  · by_cases hid : id = seat.connection <;> simp [hserver, hid, hrest]
  · simp [hserver]

end Seat

namespace Concurrent

/-! ## Turns -/

/-- What happens next: a client sets the number, tells of that or handles what it was told, or the
server handles what it was sent or tells of its changes. -/
inductive Turn
  | set (i : Bool)
  | update (i : Bool)
  | poll (i : Bool)
  | serve
  | tick
deriving DecidableEq

variable (seats : Bool → Seat) (x : ParamId) (k : NumberKind) (a : Bool → Number k)

/-- The session after a turn, where `a` is what the clients set the number to. -/
def play (s : Session Bool) : Turn → Session Bool
  | .set i => s.edit i x [.edit (.value (some (.number k (a i))))]
  | .update i => s.update seats i
  | .poll i => s.poll seats i
  | .serve => s.serve
  | .tick => s.tick

def playAll (s : Session Bool) (turns : List Turn) : Session Bool :=
  turns.foldl (play seats x k a) s

/-- A client has a change to tell, and a change of the other one is on its way to it. -/
def Crossing (s : Session Bool) (i : Bool) : Prop :=
  x ∈ (s.clients i).registry.dirty ∧
    (s.news (seats i) ≠ [] ∨ (seats (!i)).sent s.world.network ≠ [])

/-- A client tells of its change while a change of the other one is on its way to it. -/
def Crosses (s : Session Bool) (turns : List Turn) : Prop :=
  ∃ i pre post, turns = pre ++ .update i :: post ∧ Crossing seats x (playAll seats x k a s pre) i

/-! ## The session as an exchange -/

/-- A client is told a value of the number. -/
def Tells (e : LinkEvent) (v : Value) : Prop :=
  ∃ data q, e = .received data ∧ Packet.Brings x k data v q

/-- A client has a copy of the number, and has sent all that it has told. -/
structure Carries (client : Client) (f : Field Value) : Prop where
  outbox : client.outbox = []
  copy : client.registry.Copy x k f

/-- The session goes as the exchange goes: the server and the clients hold what it says, and what is
under way are updates that bring the values that it says. -/
structure Tuned (s : Session Bool) (e : Exchange Value) : Prop where
  taken : ∀ i, (seats i).Taken s.world
  differ : ∀ i, (seats i).client ≠ (seats (!i)).client
  idle : s.world.server.registry.hasPending = false
  server : s.world.server.registry.Holds x k e.server
  held : ∀ i, Carries x k (s.clients i) (e.held i)
  inbox : ∀ (t : TransporterId) (key : ServerKey), s.world.server.transporters[t]? = some key →
    ∀ m ∈ s.world.network.inbox key, ∃ i, (seats i).server = key ∧ m.1 = (seats i).connection
  waiting : ∀ i, List.Forall₂ (fun data v => ∃ q, Packet.Brings x k data v q)
    ((seats i).sent s.world.network) (e.waiting i)
  news : ∀ i, List.Forall₂ (Tells x k) (s.news (seats i)) (e.news i)

variable {seats x k a} {s : Session Bool} {e : Exchange Value} {i : Bool}

namespace Tuned

theorem connection_ne (h : Tuned seats x k s e) {i j : Bool} (hne : j ≠ i) :
    ¬ ((seats j).server = (seats i).server ∧ (seats i).connection = (seats j).connection) := by
  rintro ⟨hserver, hconnection⟩
  obtain rfl := Bool.eq_not_of_ne hne
  exact (h.taken i).connection_ne (h.taken !i) (h.differ i) hserver hconnection

theorem hasPending_eq (h : Tuned seats x k s e) (i : Bool) :
    (s.clients i).hasPending = (e.held i).changed := by
  rw [Client.hasPending, (h.held i).outbox, (h.held i).copy.hasPending_eq]
  rfl

/-! ### One message -/

/-- A client that sets the number changes its copy. -/
theorem edit (hx : x ≠ .root) (h : Tuned seats x k s e) (i : Bool) (n : Number k) :
    Tuned seats x k (s.edit i x [.edit (.value (some (.number k n)))])
      (e.set i (.number k n)) where
  taken := h.taken
  differ := h.differ
  idle := h.idle
  server := h.server
  held := rel_update h.held ⟨(h.held i).outbox, (h.held i).copy.edit hx n⟩
  inbox := h.inbox
  waiting := h.waiting
  news := h.news

/-- A client that tells of its changes sends its change, if it has one. -/
theorem update (h : Tuned seats x k s e) (i : Bool) :
    Tuned seats x k (s.update seats i) (e.send i) := by
  have hpending := h.hasPending_eq i
  cases hchanged : (e.held i).changed with
  | false =>
    rw [Session.update_quiet (hpending.trans hchanged), Exchange.send_of_unchanged hchanged]
    exact h
  | true =>
    obtain ⟨data, v, q, hpackets, hv, hq, hcopy⟩ := (h.held i).copy.exists_encode hchanged
    obtain ⟨n, hupdate, hmoved⟩ :=
      Session.exists_update seats i (h.taken i) (hpending.trans hchanged) (h.held i).outbox
    rw [hpackets, List.map_singleton] at hmoved
    rw [hupdate, Exchange.send_of_changed hchanged, hv]
    refine ⟨fun j => (h.taken j).of_same rfl hmoved.toSameWires, h.differ, h.idle, h.server,
      rel_update h.held ⟨(h.held i).outbox, hcopy⟩, fun t key hkey m hm => ?_, fun j => ?_,
      fun j => ?_⟩
    · rw [hmoved.inbox] at hm
      split at hm
      · next hserver =>
        rcases List.mem_append.1 hm with hm | hm
        · exact h.inbox t key hkey m hm
        · rw [List.mem_singleton.1 hm]
          exact ⟨i, hserver.symm, rfl⟩
      · exact h.inbox t key hkey m hm
    · rw [Seat.sent_push hmoved.inbox]
      dsimp only
      by_cases hj : j = i
      · rw [hj, if_pos ⟨rfl, rfl⟩, Function.update_self]
        exact List.rel_append (h.waiting i) (.cons ⟨q, hq⟩ .nil)
      · rw [if_neg (h.connection_ne hj), Function.update_of_ne hj]
        exact h.waiting j
    · rw [Session.news, hmoved.news]
      exact h.news j

/-- A client that handles a message takes over the change that it was told. -/
theorem hear (hx : x ≠ .root) (h : Tuned seats x k s e) {event : LinkEvent} {n : Network}
    (htake : s.world.network.takeEvent? (seats i).client = some (event, n)) :
    ∃ data, event = .received data ∧ Tuned seats x k ⟨⟨s.world.server, n⟩,
      Function.update s.clients i ((s.clients i).receive data).1⟩ (e.hear i) := by
  have hnews := h.news i
  rw [Session.news, Network.news_takeEvent? htake] at hnews
  obtain ⟨v, rest, ⟨data, q, rfl, hq⟩, hrest, heq⟩ := List.forall₂_cons_left_iff.1 hnews
  have hmoved := Network.moved_takeEvent? htake LinkEvent.noConfusion
  have hclient := (s.clients i).receive_parameter hq.read
  rw [Exchange.hear_of_news heq]
  refine ⟨data, rfl, fun j => (h.taken j).of_same rfl hmoved.toSameWires, h.differ, h.idle,
    h.server, ?_, fun t key hkey m hm => h.inbox t key hkey m (hmoved.inbox key ▸ hm),
    fun j => ?_, fun j => ?_⟩
  · rw [hclient]
    exact rel_update h.held ⟨(h.held i).outbox, (h.held i).copy.merge hx hq⟩
  · rw [Seat.sent_congr hmoved.inbox]
    exact h.waiting j
  · rw [Session.news, hmoved.news]
    dsimp only
    by_cases hj : j = i
    · rw [hj, if_pos rfl, Function.update_self]
      exact hrest
    · have hclient : (seats j).client ≠ (seats i).client := by
        rw [Bool.eq_not_of_ne hj]
        exact (h.differ i).symm
      rw [if_neg hclient, Function.update_of_ne hj]
      exact h.news j

/-- The oldest message at an end of the server is the oldest that a client has sent. -/
theorem exists_sent (h : Tuned seats x k s e) {origin : TransporterId} {key : ServerKey}
    {sender : ConnectionId} {data : Bytes} {n : Network} {rest : List (ConnectionId × Bytes)}
    (horigin : s.world.server.transporters[origin]? = some key)
    (hrest : s.world.network.inbox key = (sender, data) :: rest)
    (hinbox : ∀ s', n.inbox s' = if s' = key then rest else s.world.network.inbox s') :
    ∃ i v q waiting, (seats i).server = key ∧ sender = (seats i).connection ∧
      Packet.Brings x k data v q ∧ e.waiting i = v :: waiting ∧
      ∀ j, List.Forall₂ (fun data v => ∃ q, Packet.Brings x k data v q) ((seats j).sent n)
        (Function.update e.waiting i waiting j) := by
  obtain ⟨i, rfl, rfl⟩ := h.inbox origin key horigin (sender, data) (by
    rw [hrest]
    exact List.mem_cons_self)
  have hsent : ∀ j, (seats j).sent s.world.network =
      if j = i then data :: (seats j).sent n else (seats j).sent n := fun j => by
    rw [Seat.sent_take hrest hinbox]
    by_cases hj : j = i
    · rw [hj, if_pos ⟨rfl, rfl⟩, if_pos rfl]
    · rw [if_neg (h.connection_ne hj), if_neg hj]
  have hwaits := h.waiting i
  rw [hsent, if_pos rfl] at hwaits
  obtain ⟨v, waiting, ⟨q, hq⟩, hwaiting, heq⟩ := List.forall₂_cons_left_iff.1 hwaits
  refine ⟨i, v, q, waiting, rfl, rfl, hq, heq, fun j => ?_⟩
  by_cases hj : j = i
  · rw [hj, Function.update_self]
    exact hwaiting
  · have hother := h.waiting j
    rw [hsent, if_neg hj] at hother
    rw [Function.update_of_ne hj]
    exact hother

/-- A server that handles a message takes over the change of a client and passes it on. -/
theorem handle (hx : x ≠ .root) (h : Tuned seats x k s e) {origin : TransporterId}
    {key : ServerKey} {sender : ConnectionId} {data : Bytes} {n : Network}
    (horigin : s.world.server.transporters[origin]? = some key)
    (htake : s.world.network.takeMessage? key = some ((sender, data), n)) :
    let s' := { s with world := (Server.handle ⟨s.world.server, n⟩ origin sender data).1 }
    s'.world.server.transporters = s.world.server.transporters ∧
      ∃ i, Tuned seats x k s' (e.handle i) := by
  obtain ⟨rest, hrest, hmoved⟩ := Network.moved_takeMessage? htake
  obtain ⟨i, v, q, waiting, rfl, rfl, hq, heq, hwaiting⟩ :=
    h.exists_sent horigin hrest hmoved.inbox
  have htaken : ∀ j, (seats j).Taken ⟨s.world.server, n⟩ := fun j =>
    (h.taken j).of_same rfl hmoved.toSameWires
  obtain ⟨⟨result, hmerge⟩, hholds⟩ := h.server.merge hx hq
  have hserver := Server.server_handle ⟨s.world.server, n⟩ origin (seats i).connection hq.read
  have hsame := Server.sameWires_handle ⟨s.world.server, n⟩ origin (seats i).connection hq.read
  have hinbox := Server.inbox_handle ⟨s.world.server, n⟩ origin (seats i).connection data
  obtain ⟨hdirty, hremoved⟩ := s.world.server.registry.backlog_merge q
  dsimp only
  refine ⟨by rw [hserver], i, ?_⟩
  rw [Exchange.handle_of_waiting heq]
  refine ⟨fun j => (htaken j).of_same (by rw [hserver]) hsame, h.differ, ?_, ?_, h.held,
    fun t key hkey m hm => ?_, fun j => ?_, fun j => ?_⟩
  · rw [hserver, Registry.hasPending_eq_false_iff, hdirty, hremoved]
    exact Registry.hasPending_eq_false_iff.1 h.idle
  · rw [hserver]
    exact hholds
  · rw [hserver] at hkey
    rw [hinbox, hmoved.inbox] at hm
    split at hm
    · next hserver =>
      refine h.inbox t key hkey m ?_
      rw [hserver, hrest]
      exact List.mem_cons_of_mem _ hm
    · exact h.inbox t key hkey m hm
  · rw [Seat.sent_congr hinbox]
    exact hwaiting j
  · have hunheard : n.news (seats j).client = s.news (seats j) := hmoved.news _
    rw [Session.news]
    dsimp only
    by_cases hj : j = i
    · rw [hj, (htaken i).news_handle_self horigin hq.read, ← hj, hunheard,
        Function.update_of_ne (hj ▸ (Bool.not_ne_self i).symm)]
      exact h.news j
    · obtain rfl := Bool.eq_not_of_ne hj
      rw [(htaken i).news_handle_other (htaken !i) horigin (h.differ i) hq.read hmerge, hunheard,
        Function.update_self]
      exact List.rel_append (h.news !i) (.cons ⟨data, q, rfl, hq⟩ .nil)

/-! ### One turn -/

/-- A server that has nothing to tell tells nothing. -/
theorem tick (h : Tuned seats x k s e) : Tuned seats x k s.tick e := by
  have hserver : s.tick.world.server = s.world.server := by
    rw [(Session.tick_taken (h.taken true)).1, (Registry.encode_of_quiet h.idle).1,
      (Registry.encode_of_quiet h.idle).2]
  refine ⟨fun j => (h.taken j).of_same (by rw [hserver]) s.sameWires_tick, h.differ,
    by rw [hserver]; exact h.idle, by rw [hserver]; exact h.server, h.held,
    fun t key hkey m hm => ?_, fun j => ?_, fun j => ?_⟩
  · rw [hserver] at hkey
    exact h.inbox t key hkey m (s.inbox_tick key ▸ hm)
  · rw [Seat.sent_congr s.inbox_tick]
    exact h.waiting j
  · rw [(Session.tick_taken (h.taken j)).2, (Registry.encode_of_quiet h.idle).1,
      (Registry.encode_of_quiet h.idle).2]
    simpa using h.news j

/-- What a client keeps that hears of one change, it keeps when it polls. -/
theorem poll {Q : Exchange Value → Prop} (hx : x ≠ .root) (i : Bool)
    (hstep : ∀ e, Q e → Q (e.hear i)) (h : ∃ e, Tuned seats x k s e ∧ Q e) :
    ∃ e, Tuned seats x k (s.poll seats i) e ∧ Q e := by
  refine Session.poll_induction (P := fun s => ∃ e, Tuned seats x k s e ∧ Q e) ?_ h
  intro s event n ⟨e, htuned, hQ⟩ htake
  obtain ⟨data, hevent, htuned'⟩ := htuned.hear hx htake
  exact ⟨data, hevent, _, htuned', hstep e hQ⟩

/-- What a server keeps that takes over one change, it keeps when it polls. -/
theorem serve {Q : Exchange Value → Prop} (hx : x ≠ .root) (hstep : ∀ e i, Q e → Q (e.handle i))
    (h : ∃ e, Tuned seats x k s e ∧ Q e) : ∃ e, Tuned seats x k s.serve e ∧ Q e := by
  refine (Session.serve_induction (s := s)
    (P := fun s' => s'.world.server.transporters = s.world.server.transporters ∧
      ∃ e, Tuned seats x k s' e ∧ Q e) ?_ ⟨rfl, h⟩).2
  rintro s' origin key sender data n horigin ⟨hsame, e, htuned, hQ⟩ htake
  rw [← hsame] at horigin
  obtain ⟨hsame', i, htuned'⟩ := htuned.handle hx horigin htake
  exact ⟨hsame'.trans hsame, _, htuned', hstep e i hQ⟩

/-! ### What is under way -/

theorem news_eq_nil_iff (h : Tuned seats x k s e) (i : Bool) :
    s.news (seats i) = [] ↔ e.news i = [] := by
  rw [← List.length_eq_zero_iff, (h.news i).length_eq, List.length_eq_zero_iff]

theorem sent_eq_nil_iff (h : Tuned seats x k s e) (i : Bool) :
    (seats i).sent s.world.network = [] ↔ e.waiting i = [] := by
  rw [← List.length_eq_zero_iff, (h.waiting i).length_eq, List.length_eq_zero_iff]

theorem crossing_iff (h : Tuned seats x k s e) :
    Crossing seats x s i ↔ (e.held i).changed = true ∧ e.flow (!i) ≠ [] := by
  rw [Crossing, (h.held i).copy.dirty, and_iff_right rfl, ne_eq, h.news_eq_nil_iff, ne_eq,
    h.sent_eq_nil_iff, Exchange.flow, Bool.not_not, ne_eq, List.append_eq_nil_iff, not_and_or]

/-- Nobody has anything to tell or to handle. -/
theorem quiet_iff (h : Tuned seats x k s e) : Session.Quiet seats s ↔
    ((∀ i, (e.held i).changed = false) ∧ ∀ i, e.waiting i = []) ∧ ∀ i, e.news i = [] := by
  constructor
  · intro hquiet
    refine ⟨⟨fun i => (h.hasPending_eq i).symm.trans (hquiet.clients i), fun i => ?_⟩,
      fun i => (h.news_eq_nil_iff i).1 (hquiet.news i)⟩
    obtain ⟨origin, horigin⟩ := (h.taken i).attached
    rw [← h.sent_eq_nil_iff, Seat.sent, hquiet.inbox _ _ horigin, List.filterMap_nil]
  · rintro ⟨⟨hsent, hwaits⟩, hnews⟩
    refine ⟨h.idle, fun i => (h.hasPending_eq i).trans (hsent i), fun t key hkey => ?_,
      fun i => (h.news_eq_nil_iff i).2 (hnews i)⟩
    refine List.eq_nil_iff_forall_not_mem.2 fun m hm => ?_
    obtain ⟨i, rfl, hconnection⟩ := h.inbox t key hkey m hm
    have hmem : m.2 ∈ (seats i).sent s.world.network :=
      List.mem_filterMap.2 ⟨m, hm, if_pos hconnection⟩
    rw [(h.sent_eq_nil_iff i).2 (hwaits i)] at hmem
    cases hmem

end Tuned

/-! ## Runs -/

theorem not_crosses_nil : ¬ Crosses seats x k a s [] := by
  rintro ⟨i, pre, post, hturns, -⟩
  simp at hturns

theorem crosses_cons (t : Turn) (rest : List Turn) : Crosses seats x k a s (t :: rest) ↔
    (∃ i, t = .update i ∧ Crossing seats x s i) ∨
      Crosses seats x k a (play seats x k a s t) rest := by
  rw [Crosses, Crosses, ← exists_or]
  exact exists_congr fun i => exists_eq_append_cons

variable (seats x k a) in
/-- No changes have crossed, where `spent` tells who has set the number. -/
def IsClear (spent : Bool → Prop) (s : Session Bool) : Prop :=
  ∃ e, Tuned seats x k s e ∧ Exchange.Clear (fun i => .number k (a i)) spent e

variable (seats x k a) in
/-- Two changes have crossed. -/
def HasCrossed (s : Session Bool) : Prop :=
  ∃ e, Tuned seats x k s e ∧ Exchange.Crossed (fun i => .number k (a i)) e

/-- A turn in which no changes cross. -/
theorem IsClear.play {spent : Bool → Prop} (hx : x ≠ .root) (h : IsClear seats x k a spent s)
    (t : Turn) (hset : ∀ i, t = .set i → ¬ spent i)
    (hcross : ∀ i, t = .update i → ¬ Crossing seats x s i) :
    IsClear seats x k a (fun i => spent i ∨ t = .set i) (play seats x k a s t) := by
  obtain ⟨e, htuned, hclear⟩ := h
  cases t with
  | set i =>
    refine ⟨_, htuned.edit hx i (a i), ?_⟩
    have hspent : (fun j => spent j ∨ Turn.set i = .set j) = fun j => spent j ∨ j = i := by
      funext j
      rw [Turn.set.injEq, eq_comm (a := i)]
    rw [hspent]
    exact hclear.set (hset i rfl)
  | update i =>
    refine ⟨_, htuned.update i, ?_⟩
    simp only [reduceCtorEq, or_false]
    exact hclear.send fun hchanged => not_not.1 fun hflow =>
      hcross i rfl (htuned.crossing_iff.2 ⟨hchanged, hflow⟩)
  | poll i =>
    simp only [reduceCtorEq, or_false]
    exact Tuned.poll hx i (fun _ h => h.hear i) ⟨e, htuned, hclear⟩
  | serve =>
    simp only [reduceCtorEq, or_false]
    exact Tuned.serve hx (fun _ j h => h.handle j) ⟨e, htuned, hclear⟩
  | tick =>
    simp only [reduceCtorEq, or_false]
    exact ⟨e, htuned.tick, hclear⟩

/-- A turn in which two changes cross, after which nobody sets the number any more. -/
theorem IsClear.cross {spent : Bool → Prop} (h : IsClear seats x k a spent s)
    (hcrossing : Crossing seats x s i) :
    HasCrossed seats x k a (s.update seats i) ∧ ∀ j, spent j := by
  obtain ⟨e, htuned, hclear⟩ := h
  obtain ⟨hchanged, hflow⟩ := htuned.crossing_iff.1 hcrossing
  obtain ⟨hcrossed, hspent⟩ := hclear.cross hchanged hflow
  exact ⟨⟨_, htuned.update i, hcrossed⟩, hspent⟩

theorem HasCrossed.play (hx : x ≠ .root) (h : HasCrossed seats x k a s) {t : Turn}
    (ht : ∀ i, t ≠ .set i) : HasCrossed seats x k a (play seats x k a s t) := by
  obtain ⟨e, htuned, hcrossed⟩ := h
  cases t with
  | set i => exact absurd rfl (ht i)
  | update i => exact ⟨_, htuned.update i, hcrossed.send i⟩
  | poll i => exact Tuned.poll hx i (fun _ h => h.hear i) ⟨e, htuned, hcrossed⟩
  | serve => exact Tuned.serve hx (fun _ j h => h.handle j) ⟨e, htuned, hcrossed⟩
  | tick => exact ⟨e, htuned.tick, hcrossed⟩

theorem HasCrossed.playAll (hx : x ≠ .root) (h : HasCrossed seats x k a s) {turns : List Turn}
    (hset : ∀ i, .set i ∉ turns) : HasCrossed seats x k a (playAll seats x k a s turns) := by
  induction turns generalizing s with
  | nil => exact h
  | cons t rest ih =>
    refine ih (h.play hx fun i ht => hset i ?_) fun i hi => hset i (List.mem_cons_of_mem t hi)
    exact List.mem_cons.2 (.inl ht.symm)

/-- Along every run in which each client sets the number once, changes stay clear of each other, or
they have crossed. -/
theorem exists_clear_or_crossed {spent : Bool → Prop} {turns : List Turn} (hx : x ≠ .root)
    (h : IsClear seats x k a spent s) (hone : ∀ i, turns.count (.set i) ≤ 1)
    (hset : ∀ i, .set i ∈ turns → ¬ spent i) :
    (¬ Crosses seats x k a s turns ∧
        ∃ spent, IsClear seats x k a spent (playAll seats x k a s turns)) ∨
      (Crosses seats x k a s turns ∧ HasCrossed seats x k a (playAll seats x k a s turns)) := by
  induction turns generalizing s spent with
  | nil => exact .inl ⟨not_crosses_nil, spent, h⟩
  | cons t rest ih =>
    rw [crosses_cons]
    by_cases hcross : ∃ i, t = .update i ∧ Crossing seats x s i
    · obtain ⟨i, rfl, hcrossing⟩ := hcross
      obtain ⟨hcrossed, hspent⟩ := h.cross hcrossing
      exact .inr ⟨.inl ⟨i, rfl, hcrossing⟩, hcrossed.playAll hx fun j hj =>
        hset j (List.mem_cons_of_mem _ hj) (hspent j)⟩
    · have hclear := h.play hx t (fun i ht => hset i (List.mem_cons.2 (.inl ht.symm)))
        fun i ht hcrossing => hcross ⟨i, ht, hcrossing⟩
      rw [or_iff_right hcross]
      refine ih hclear (fun i => Nat.le_trans List.count_le_count_cons (hone i)) fun i hi => ?_
      rintro (hspent | rfl)
      · exact hset i (List.mem_cons_of_mem t hi) hspent
      · have htwice := hone i
        rw [List.count_cons_self] at htwice
        exact absurd (List.count_pos_iff.2 hi) (by omega)

/-! ## When all is quiet -/

variable (seats x k) in
/-- The clients and the server agree on the number, and nothing is under way. -/
structure Start (s : Session Bool) : Prop where
  ne_root : x ≠ .root
  taken : ∀ i, (seats i).Taken s.world
  differ : ∀ i, (seats i).client ≠ (seats (!i)).client
  quiet : Session.Quiet seats s
  server : ∃ p, s.world.server.registry.get? x = some p ∧ p.datatype = .number k
  client : ∀ i, ∃ p, (s.clients i).registry.get? x = some p ∧ p.id = x ∧
    p.datatype = .number k ∧ p.hasChanges = false
  agree : ∀ i, Same ((s.clients i).registry.value? x) (s.world.server.registry.value? x)

theorem Start.isClear (h : Start seats x k s) : IsClear seats x k a (fun _ => False) s := by
  obtain ⟨p, hp, hd⟩ := h.server
  choose q hq hid hdatatype hunchanged using h.client
  have hcalm := fun i => Parameter.calm_of_not_hasChanges (hunchanged i)
  have hquiet := fun i => Client.hasPending_eq_false_iff.1 (h.quiet.clients i)
  let e : Exchange Value := ⟨p.value, fun i => (q i).value, fun _ => [], fun _ => []⟩
  have htuned : Tuned seats x k s e := by
    refine ⟨h.taken, h.differ, h.quiet.server, ⟨p, hp, hd, rfl⟩, fun i => ⟨(hquiet i).1,
      ⟨q i, hq i, hid i, hdatatype i, rfl, (hcalm i).1⟩, fun y => ?_, (hquiet i).2.2, ?_⟩,
      fun t key hkey m hm => ?_, fun i => ?_, fun i => ?_⟩
    · rw [(hquiet i).2.1]
      exact ⟨fun hy => absurd hy Std.ExtTreeSet.not_mem_empty,
        fun hy => absurd ((hcalm i).2.symm.trans hy.2) nofun⟩
    · exact fun hchanged => absurd ((hcalm i).2.symm.trans hchanged) nofun
    · rw [h.quiet.inbox t key hkey] at hm
      cases hm
    · obtain ⟨origin, horigin⟩ := (h.taken i).attached
      rw [Seat.sent, h.quiet.inbox _ _ horigin]
      exact .nil
    · rw [h.quiet.news i]
      exact .nil
  refine ⟨e, htuned, fun i hi => absurd ((hcalm i).2.symm.trans hi) nofun, fun i hi => hi.elim,
    .inl ⟨fun _ => rfl, fun i _ => ?_⟩⟩
  rw [← (htuned.held i).copy.value?_eq, ← htuned.server.value?_eq]
  exact h.agree i

section Quiet

variable {turns : List Turn} (hstart : Start seats x k s)
  (hone : ∀ i, turns.count (.set i) ≤ 1)
  (hquiet : Session.Quiet seats (playAll seats x k a s turns))
include hstart hone hquiet

/-- If no changes have crossed, all three hold the same value. -/
theorem agree_of_not_crosses (hclear : ¬ Crosses seats x k a s turns) (i : Bool) :
    Same (((playAll seats x k a s turns).clients i).registry.value? x)
      ((playAll seats x k a s turns).world.server.registry.value? x) := by
  obtain ⟨-, spent, e, htuned, hclear⟩ :=
    (exists_clear_or_crossed hstart.ne_root hstart.isClear hone fun _ _ => id).resolve_right
      fun h => hclear h.1
  obtain ⟨⟨hsent, hwaits⟩, hnews⟩ := htuned.quiet_iff.1 hquiet
  rw [(htuned.held i).copy.value?_eq, htuned.server.value?_eq]
  exact hclear.agree (fun j => by rw [Exchange.flow, hnews, hwaits, List.append_nil]) hsent i

/-- If changes have crossed, each client holds what the other one has set, and the server holds one
of both. -/
theorem swapped_of_crosses (hcrosses : Crosses seats x k a s turns) :
    (∀ i, Same (((playAll seats x k a s turns).clients i).registry.value? x)
        (some (.number k (a (!i))))) ∧
      ∃ j, Same ((playAll seats x k a s turns).world.server.registry.value? x)
        (some (.number k (a j))) := by
  obtain ⟨-, e, htuned, hcrossed⟩ :=
    (exists_clear_or_crossed hstart.ne_root hstart.isClear hone fun _ _ => id).resolve_left
      fun h => h.1 hcrosses
  obtain ⟨⟨-, hwaits⟩, hnews⟩ := htuned.quiet_iff.1 hquiet
  have hflow : ∀ j, e.flow j = [] := fun j => by
    rw [Exchange.flow, hnews, hwaits, List.append_nil]
  obtain ⟨hheld, hserver⟩ := hcrossed.exchanged hflow
  rw [htuned.server.value?_eq]
  exact ⟨fun i => (htuned.held i).copy.value?_eq ▸ hheld i, hserver⟩

end Quiet

theorem same_number {m n : Number k} :
    Same (some (Value.number k m)) (some (.number k n)) ↔ Same m n := by
  have halike : alike (some (Value.number k m)) (some (.number k n)) = alike m n :=
    Value.equal_number m n
  rw [Same, halike, Same, Option.some.injEq]
  simp

/-- However two clients that set a number, and their server, take their turns: in the end all three
hold the same value, exactly if no client told of its change while the change of the other one was
on its way to it, or both have set the same. -/
theorem agree_iff {turns : List Turn} (hstart : Start seats x k s)
    (hone : ∀ i, turns.count (.set i) ≤ 1)
    (hquiet : Session.Quiet seats (playAll seats x k a s turns)) :
    (∀ i, Same (((playAll seats x k a s turns).clients i).registry.value? x)
        ((playAll seats x k a s turns).world.server.registry.value? x)) ↔
      ¬ Crosses seats x k a s turns ∨ Same (a false) (a true) := by
  by_cases hcrosses : Crosses seats x k a s turns
  · obtain ⟨hheld, j, hserver⟩ := swapped_of_crosses hstart hone hquiet hcrosses
    rw [or_iff_right (not_not.2 hcrosses), ← same_number]
    constructor
    · intro hagree
      exact ((hheld true).symm.trans (hagree true)).trans ((hagree false).symm.trans (hheld false))
    · intro hsame
      have hall : ∀ i j, Same (some (Value.number k (a i))) (some (.number k (a j))) := by
        rintro (_ | _) (_ | _)
        · exact .refl _
        · exact hsame
        · exact hsame.symm
        · exact .refl _
      exact fun i => ((hheld i).trans (hall _ _)).trans hserver.symm
  · exact iff_of_true (agree_of_not_crosses hstart hone hquiet hcrosses) (.inl hcrosses)

/-! ## A dial that two clients turn -/

/-- Everybody tells of its changes and handles what it is told. -/
def round : List Turn := [.update false, .update true, .serve, .poll false, .poll true]

/-- Then nothing is left to tell or to handle. -/
theorem quiet_round (hx : x ≠ .root) (h : Tuned seats x k s e) :
    Session.Quiet seats (playAll seats x k a s round) := by
  simp only [round, playAll, List.foldl_cons, List.foldl_nil, play]
  have htold := (h.update false).update true
  have hsent : ∀ j, ((((e.send false).send true)).held j).changed = false := by
    rintro (_ | _) <;> simp [Exchange.held_send]
  obtain ⟨e₁, hserved, hsent₁⟩ :=
    Tuned.serve (Q := fun e => ∀ j, (e.held j).changed = false) hx
      (fun e j hsent => by rwa [e.held_handle]) ⟨_, htold, hsent⟩
  have hwaits : ∀ j, e₁.waiting j = [] := by
    intro j
    have hinbox := Session.inbox_serve (htold.taken j)
    rw [Session.inbox] at hinbox
    rw [← hserved.sent_eq_nil_iff, Seat.sent, hinbox, List.filterMap_nil]
  obtain ⟨e₂, hfirst, hquiet₂⟩ :=
    Tuned.poll (Q := fun e => (∀ j, (e.held j).changed = false) ∧ ∀ j, e.waiting j = []) hx false
      (fun e hquiet => ⟨fun j => (e.changed_hear false j).trans (hquiet.1 j), fun j => by
        rw [e.waiting_hear, hquiet.2]⟩) ⟨e₁, hserved, hsent₁, hwaits⟩
  have hheard : e₂.news false = [] :=
    (hfirst.news_eq_nil_iff false).1 (Session.news_poll _ false)
  obtain ⟨e₃, hsecond, hquiet₃, hheard₃⟩ :=
    Tuned.poll (Q := fun e => ((∀ j, (e.held j).changed = false) ∧ ∀ j, e.waiting j = []) ∧
      e.news false = []) hx true
      (fun e hquiet => ⟨⟨fun j => (e.changed_hear true j).trans (hquiet.1.1 j), fun j => by
        rw [e.waiting_hear, hquiet.1.2]⟩, by
        rw [e.news_hear (i := true) (j := false) nofun, hquiet.2]⟩)
      ⟨e₂, hfirst, hquiet₂, hheard⟩
  refine hsecond.quiet_iff.2 ⟨hquiet₃, ?_⟩
  rintro (_ | _)
  · exact hheard₃
  · exact (hsecond.news_eq_nil_iff true).1 (Session.news_poll _ true)

theorem quiet_append_round (hstart : Start seats x k s) (turns : List Turn)
    (hone : ∀ i, turns.count (.set i) ≤ 1) :
    Session.Quiet seats (playAll seats x k a s (turns ++ round)) := by
  have htuned : ∃ e, Tuned seats x k (playAll seats x k a s turns) e := by
    rcases exists_clear_or_crossed (a := a) hstart.ne_root hstart.isClear hone fun _ _ => id with
      ⟨-, spent, e, htuned, -⟩ | ⟨-, e, htuned, -⟩ <;> exact ⟨e, htuned⟩
  obtain ⟨e, htuned⟩ := htuned
  rw [playAll, List.foldl_append]
  exact quiet_round hstart.ne_root htuned

/-- The first client sets the number, and the second one sets it when it has heard of that. -/
def inTurn : List Turn := [.set false, .update false, .serve, .poll true, .set true] ++ round

/-- Both clients set the number at a time. -/
def atATime : List Turn := [.set false, .set true] ++ round

/-- If that changes what they hold, the changes cross. -/
theorem crosses_atATime (hstart : Start seats x k s)
    (hdiffers : ∀ i, ¬ Same ((s.clients i).registry.value? x) (some (.number k (a i)))) :
    Crosses seats x k a s atATime := by
  refine ⟨true, [.set false, .set true, .update false], [.serve, .poll false, .poll true], rfl, ?_⟩
  obtain ⟨e, htuned, hclear⟩ := hstart.isClear (a := a)
  have hset : ∀ i, (e.held i).set (.number k (a i)) = ⟨some (.number k (a i)), true⟩ := by
    intro i
    refine ((e.held i).set_cases _).resolve_right fun hset => hdiffers i ?_
    rw [(htuned.held i).copy.value?_eq, ← hset]
    exact (e.held i).same_set _
  have hplayed := ((htuned.edit hstart.ne_root false (a false)).edit hstart.ne_root true
    (a true)).update false
  refine hplayed.crossing_iff.2 ⟨?_, ?_⟩
  · simp [Exchange.held_send, Exchange.set, hset]
  · have hsets : ((e.set false (.number k (a false))).set true (.number k (a true))).held false =
        ⟨some (.number k (a false)), true⟩ := by
      simp [Exchange.set, hset]
    rw [Exchange.flow_send (congrArg (·.changed) hsets) (congrArg (·.value) hsets)]
    simp

/-- A dial that is at 0, of which everybody has been told. -/
def dialRun : List Registry.Op :=
  [.create (.number .int32 {}) none,
    .edit ⟨1⟩ [.edit (.value (some (.number .int32 (.ofNat .int32 0))))],
    .encodeDirty]

def dial : Registry := Registry.new.performAll dialRun

/-- A network with a server end to which two clients are connected, both of which know it. -/
def dialNetwork : Network where
  clientCount := 2
  serverCount := 1
  connectionCount := 2
  endpoints := (∅ : Std.ExtTreeMap Endpoint ListenerKey).insert 7 ⟨⟨0⟩, 0⟩
  listening := (∅ : Std.ExtTreeMap ListenerKey Listener).insert ⟨⟨0⟩, 0⟩
    { connections := ((∅ : Std.ExtTreeMap ConnectionId ClientKey).insert ⟨1⟩ ⟨0⟩).insert ⟨2⟩ ⟨1⟩ }
  servers := (∅ : Std.ExtTreeMap ServerKey ServerEnd).insert ⟨0⟩
    { bound := some (7, 0), inbound := some 0, listenerCount := 1 }
  clients := ((∅ : Std.ExtTreeMap ClientKey ClientEnd).insert ⟨0⟩
    ⟨some ⟨⟨1⟩, ⟨0⟩, 0⟩, {}⟩).insert ⟨1⟩ ⟨some ⟨⟨2⟩, ⟨0⟩, 0⟩, {}⟩

/-- The server of the dial and the two clients, each with what it has made of a dump. -/
def dialSession : Session Bool where
  world := ⟨{ Server.build {} [⟨0⟩] with registry := dial }, dialNetwork⟩
  clients _ := { registry := Registry.new.performAll (dial.dumped.map fun p => .merge p.copy) }

def dialSeats : Bool → Seat
  | false => ⟨⟨0⟩, ⟨0⟩, ⟨1⟩⟩
  | true => ⟨⟨1⟩, ⟨0⟩, ⟨2⟩⟩

/-- The first client turns the dial to 1 and the second one to 2. -/
def dialed (i : Bool) : Number .int32 := .ofNat .int32 (if i then 2 else 1)

theorem start_dial : Start dialSeats ⟨1⟩ .int32 dialSession := by
  have hserver : ∃ p, dial.get? ⟨1⟩ = some p ∧ p.datatype = .number .int32 := ⟨_, rfl, rfl⟩
  have hclient : ∃ p, (dialSession.clients true).registry.get? ⟨1⟩ = some p ∧ p.id = ⟨1⟩ ∧
      p.datatype = .number .int32 ∧ p.hasChanges = false := ⟨_, rfl, rfl, rfl, rfl⟩
  refine ⟨by decide, ?_, by decide, ⟨rfl, fun _ => rfl, fun t key hkey => ?_, ?_⟩, hserver,
    fun _ => hclient, fun _ => ?_⟩
  · rintro (_ | _)
    · exact ⟨⟨⟨⟨⟨0⟩, 0⟩, rfl, rfl⟩, rfl⟩, ⟨⟨1⟩, rfl⟩, rfl⟩
    · exact ⟨⟨⟨⟨⟨0⟩, 0⟩, rfl, rfl⟩, rfl⟩, ⟨⟨1⟩, rfl⟩, rfl⟩
  · have hbuild : (Server.build {} [⟨0⟩]).transporters[t]? = some key := hkey
    rw [Server.OnNetwork.end_of_build hbuild]
    rfl
  · rintro (_ | _) <;> rfl
  · exact .inl rfl

theorem one_dial (i : Bool) : inTurn.count (.set i) ≤ 1 ∧ atATime.count (.set i) ≤ 1 := by
  revert i
  decide

theorem agree_iff_inTurn :
    Start dialSeats ⟨1⟩ .int32 dialSession ∧ (∀ i, inTurn.count (.set i) ≤ 1) ∧
      Session.Quiet dialSeats (playAll dialSeats ⟨1⟩ .int32 dialed dialSession inTurn) ∧
      ((∀ i, Same
          (((playAll dialSeats ⟨1⟩ .int32 dialed dialSession inTurn).clients i).registry.value? ⟨1⟩)
          ((playAll dialSeats ⟨1⟩ .int32 dialed dialSession inTurn).world.server.registry.value?
            ⟨1⟩)) ↔
        ¬ Crosses dialSeats ⟨1⟩ .int32 dialed dialSession inTurn ∨
          Same (dialed false) (dialed true)) := by
  have hquiet := quiet_append_round (a := dialed) start_dial
    [.set false, .update false, .serve, .poll true, .set true] (by decide)
  exact ⟨start_dial, fun i => (one_dial i).1, hquiet,
    agree_iff start_dial (fun i => (one_dial i).1) hquiet⟩

/-- Each client is left with what the other one has turned the dial to. -/
theorem dial_swaps :
    Start dialSeats ⟨1⟩ .int32 dialSession ∧ (∀ i, atATime.count (.set i) ≤ 1) ∧
      Session.Quiet dialSeats (playAll dialSeats ⟨1⟩ .int32 dialed dialSession atATime) ∧
      ¬ ∀ i, Same
        (((playAll dialSeats ⟨1⟩ .int32 dialed dialSession atATime).clients i).registry.value? ⟨1⟩)
        ((playAll dialSeats ⟨1⟩ .int32 dialed dialSession atATime).world.server.registry.value?
          ⟨1⟩) := by
  have hquiet := quiet_append_round (a := dialed) start_dial [.set false, .set true] (by decide)
  have hcrosses : Crosses dialSeats ⟨1⟩ .int32 dialed dialSession atATime := by
    refine crosses_atATime start_dial fun i hsame => ?_
    have hzero : (dialSession.clients i).registry.value? ⟨1⟩ =
        some (.number .int32 (.ofNat .int32 0)) := rfl
    rw [hzero, same_number] at hsame
    revert i
    decide
  refine ⟨start_dial, fun i => (one_dial i).2, hquiet, fun hagree => ?_⟩
  obtain ⟨hheld, -⟩ := swapped_of_crosses start_dial (fun i => (one_dial i).2) hquiet hcrosses
  have hsame := (hheld false).symm.trans ((hagree false).trans
    ((hagree true).symm.trans (hheld true)))
  rw [same_number] at hsame
  exact absurd hsame (by decide)

end Concurrent
end ParamSync
