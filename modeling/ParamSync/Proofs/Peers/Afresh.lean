import ParamSync.Proofs.Peers.Records
import ParamSync.Proofs.Registry.Root

/-!
# A closed session leaves no trace

A client that handles the end of its connection forgets its copy, and what is left is a new client:
the root is as it was made, no identifier is taken, nothing is noted or waits to be sent, and
nothing is known of the server. So whatever it went through before, from then on it does what a
client does that was just made.

Two clients are compared here, at two connections that behave alike: both are what is seen of a
third. `Diary` notes what a client sends and what its listeners are told.

Results:
* `Client.reset_eq_new`: a client that forgets its copy is new.
* `Diary.exists_poll`: a poll is a run of events.
* `Diary.playAll_of_shows`: what a client does over a whole run goes by what it sees.
* `Diary.leaves_no_trace`: after the end of a session a client does what a new one does.
-/

namespace ParamSync

open Registry (Op Reachable)

variable {ρ σ τ : Type}

namespace ClientTransport.Shows

variable {t : ClientTransport σ} {u : ClientTransport τ} {f : σ → τ}

theorem refl (t : ClientTransport σ) : t.Shows id t where
  disconnect _ := rfl
  isConnected _ := rfl
  send _ _ := rfl
  waiting _ := rfl
  takeEvent? _ := Option.map_id_apply.symm

/-- The notes of what is taken are the same. -/
theorem recorded (h : t.Shows f u) : t.recorded.Shows (Prod.map f id) u.recorded where
  disconnect s := congrArg (·, s.2) (h.disconnect s.1)
  isConnected s := h.isConnected s.1
  send data s := by
    simp only [ClientTransport.recorded, Prod.map, h.send]
    rcases t.send data s.1 with ⟨s', _ | _⟩ <;> rfl
  waiting s := h.waiting s.1
  takeEvent? s := by
    simp only [ClientTransport.recorded, Prod.map, h.takeEvent?]
    cases t.takeEvent? s.1 <;> rfl

end ClientTransport.Shows

/-! ## New clients -/

namespace Client

variable {c : Client} {t : ClientTransport σ}

/-- A client that forgets its copy is a new client. -/
theorem reset_eq_new (h : Reachable (fun _ => Op.Childless) c.registry) : c.reset = {} := by
  rw [reset, h.clear_eq_new]

theorem hasPending_new : ({} : Client).hasPending = false :=
  hasPending_eq_false_iff.2 ⟨rfl, rfl, rfl⟩

/-- There is nothing that a new client could borrow. -/
theorem perform_edit_new (id : ParamId) (accesses : List Parameter.Access) :
    ({} : Client).perform (.edit id accesses) = {} := by
  have hsame : Registry.new.perform (.edit id accesses) = .new := by
    by_cases hid : id = .root
    · subst hid
      rfl
    · exact Registry.edit_of_dead ((Registry.get?_new id).trans (if_neg hid))
  rw [perform, hsame]

theorem update_new (s : σ) : (({} : Client).update t s).1 = {} := by
  rw [update_eq, hasPending_new, Bool.and_false]
  rfl

/-- What an event does to a client, whatever its connection. -/
def hear (c : Client) : LinkEvent → Client × List ClientNotice
  | .connected => (c, [.connected])
  | .disconnected => (c.reset, [.disconnected])
  | .received data => c.receive data

theorem handle_hears (c : Client) (s : σ) (e : LinkEvent) :
    (handle t c s e).1 = (c.hear e).1 ∧ (handle t c s e).2.2 = (c.hear e).2 := by
  cases e <;> exact ⟨rfl, rfl⟩

theorem childless_hear (h : Reachable (fun _ => Op.Childless) c.registry) (e : LinkEvent) :
    Reachable (fun _ => Op.Childless) (c.hear e).1.registry := by
  cases e with
  | connected => exact h
  | disconnected => exact h.step .clear trivial
  | received data =>
    show Reachable (fun _ => Op.Childless) (c.receive data).1.registry
    rcases c.receive_cases data with ⟨info, heq⟩ | ⟨op, hop, heq⟩
    · rw [heq]
      exact h
    · rw [heq]
      exact h.step op hop.legal.childless

theorem childless_update (h : Reachable (fun _ => Op.Childless) c.registry) (s : σ) :
    Reachable (fun _ => Op.Childless) (c.update t s).1.registry := by
  rw [update_eq]
  split
  · exact (h.step .encodeRemoved trivial).step .encodeDirty trivial
  · exact h

end Client

/-! ## Diaries -/

/-- A client and its connection, with the messages that the connection took and what the listeners
were told. -/
structure Diary (σ : Type) where
  client : Client := {}
  connection : σ
  sent : List Bytes := []
  told : List ClientNotice := []

namespace Diary

/-- What happens next: the client handles an event of its connection, changes a parameter of its
copy, sends its changes or closes the connection; or something becomes of the connection. -/
inductive Turn (σ : Type)
  | handle (e : LinkEvent)
  | edit (id : ParamId) (accesses : List Parameter.Access)
  | update
  | disconnect
  | become (connection : σ)

namespace Turn

/-- The event that is handled. -/
def event? : Turn σ → Option LinkEvent
  | handle e => some e
  | _ => none

/-- What happens to the client, and what is seen of what becomes of its connection. -/
def map (f : σ → τ) : Turn σ → Turn τ
  | handle e => handle e
  | edit id accesses => edit id accesses
  | update => update
  | disconnect => disconnect
  | become connection => become (f connection)

end Turn

/-- What is seen of the connection in place of it. -/
def map (f : σ → τ) (d : Diary σ) : Diary τ where
  client := d.client
  connection := f d.connection
  sent := d.sent
  told := d.told

variable (t : ClientTransport σ)

def play (d : Diary σ) : Turn σ → Diary σ
  | .handle e =>
    let (client, (connection, sent), notices) :=
      Client.handle t.recorded d.client (d.connection, d.sent) e
    { client, connection, sent, told := d.told ++ notices }
  | .edit id accesses => { d with client := d.client.perform (.edit id accesses) }
  | .update =>
    let (client, (connection, sent), _) := d.client.update t.recorded (d.connection, d.sent)
    { d with client, connection, sent }
  | .disconnect =>
    let (client, connection) := d.client.disconnect t d.connection
    { d with client, connection }
  | .become connection => { d with connection }

def playAll (d : Diary σ) (turns : List (Turn σ)) : Diary σ := turns.foldl (play t) d

/-! ### Polls -/

/-- Events that are taken one after the other make a run. -/
theorem exists_drain (n : Nat) (d : Diary σ) (handled : Nat) (notices : List ClientNotice) :
    ∃ (turns : List (Turn σ)) (told : List ClientNotice),
      let drained := Client.drain t.recorded n (d.client, (d.connection, d.sent), handled, notices)
      (∀ turn ∈ turns, (∃ e, turn = .handle e) ∨ ∃ s, turn = .become s) ∧
      drained.2.2.2 = told.reverse ++ notices ∧
      d.playAll t turns = ⟨drained.1, drained.2.1.1, drained.2.1.2, d.told ++ told⟩ := by
  induction n generalizing d handled notices with
  | zero => exact ⟨[], [], List.forall_mem_nil _, rfl, by rw [List.append_nil]; rfl⟩
  | succ n ih =>
    cases htake : t.takeEvent? d.connection with
    | none =>
      refine ⟨[], [], List.forall_mem_nil _, ?_⟩
      simp only [Client.drain, ClientTransport.recorded, htake, Option.map_none, List.append_nil]
      exact ⟨rfl, rfl⟩
    | some taken =>
      obtain ⟨e, s⟩ := taken
      obtain ⟨d', hd'⟩ : ∃ d', (d.play t (.become s)).play t (.handle e) = d' := ⟨_, rfl⟩
      obtain ⟨turns, told, hturns, hnotices, hplay⟩ := ih d' (handled + 1)
        ((Client.handle t.recorded d.client (s, d.sent) e).2.2.reverse ++ notices)
      have hstep : Client.drain t.recorded (n + 1) (d.client, (d.connection, d.sent), handled,
          notices) = Client.drain t.recorded n (d'.client, (d'.connection, d'.sent), handled + 1,
          (Client.handle t.recorded d.client (s, d.sent) e).2.2.reverse ++ notices) := by
        have htaken : t.recorded.takeEvent? (d.connection, d.sent) = some (e, (s, d.sent)) :=
          congrArg (Option.map _) htake
        rw [Client.drain, htaken, ← hd']
        rfl
      refine ⟨.become s :: .handle e :: turns,
        (Client.handle t.recorded d.client (s, d.sent) e).2.2 ++ told, ?_, ?_, ?_⟩
      · exact List.forall_mem_cons.2 ⟨.inr ⟨s, rfl⟩, List.forall_mem_cons.2 ⟨.inl ⟨e, rfl⟩, hturns⟩⟩
      · rw [hstep, hnotices, List.reverse_append, List.append_assoc]
      · rw [hstep, ← List.append_assoc]
        have htold : d'.told = d.told ++ (Client.handle t.recorded d.client (s, d.sent) e).2.2 := by
          rw [← hd']
          rfl
        rw [← htold, ← hplay, ← hd']
        rfl

/-- A poll is a run in which the connection changes by itself and events are handled. -/
theorem exists_poll (d : Diary σ) :
    ∃ turns : List (Turn σ),
      let polled := d.client.poll t.recorded (d.connection, d.sent)
      (∀ turn ∈ turns, (∃ e, turn = .handle e) ∨ ∃ s, turn = .become s) ∧
      d.playAll t turns = ⟨polled.1, polled.2.1.1, polled.2.1.2, d.told ++ polled.2.2.2⟩ := by
  obtain ⟨turns, told, hturns, hnotices, hplay⟩ :=
    d.exists_drain t (t.waiting d.connection) 0 []
  refine ⟨turns, hturns, hplay.trans ?_⟩
  have htold : told = (d.client.poll t.recorded (d.connection, d.sent)).2.2.2 := by
    rw [List.append_nil] at hnotices
    rw [← List.reverse_reverse told, ← hnotices]
    rfl
  rw [htold]
  rfl

/-! ### Connections that behave alike -/

section Shows

variable {t} {u : ClientTransport τ} {f : σ → τ} (h : t.Shows f u)
include h

/-- What a client does goes by what it sees. -/
theorem play_of_shows (d : Diary σ) (turn : Turn σ) :
    (d.map f).play u (turn.map f) = (d.play t turn).map f := by
  cases turn with
  | handle e =>
    have hhandle := Client.handle_of_shows h.recorded d.client (d.connection, d.sent) e
    simp only [Prod.map, id] at hhandle
    simp only [play, map, Turn.map, hhandle]
  | edit id accesses => rfl
  | update =>
    have hupdate := Client.update_of_shows h.recorded d.client (d.connection, d.sent)
    simp only [Prod.map, id] at hupdate
    simp only [play, map, Turn.map, hupdate]
  | disconnect =>
    simp only [play, map, Turn.map, Client.disconnect, h.disconnect]
  | become connection => rfl

/-- So it does over a whole run. -/
theorem playAll_of_shows (d : Diary σ) (turns : List (Turn σ)) :
    (d.map f).playAll u (turns.map (.map f)) = (d.playAll t turns).map f := by
  induction turns generalizing d with
  | nil => rfl
  | cons turn turns ih =>
    rw [List.map_cons, playAll, List.foldl_cons, play_of_shows h]
    exact ih (d.play t turn)

end Shows

/-! ### The end of a session -/

variable {t} {d : Diary σ}

theorem childless_play (h : Reachable (fun _ => Op.Childless) d.client.registry) (turn : Turn σ) :
    Reachable (fun _ => Op.Childless) (d.play t turn).client.registry := by
  cases turn with
  | handle e =>
    show Reachable (fun _ => Op.Childless)
      (Client.handle t.recorded d.client (d.connection, d.sent) e).1.registry
    rw [(Client.handle_hears d.client (d.connection, d.sent) e).1]
    exact Client.childless_hear h e
  | edit id accesses => exact h.step (.edit id accesses) trivial
  | update => exact Client.childless_update h (d.connection, d.sent)
  | disconnect => exact h.step .clear trivial
  | become connection => exact h

/-- Whatever happens, the registry is one that a run of operations makes. -/
theorem childless_playAll (connection : σ) (turns : List (Turn σ)) :
    Reachable (fun _ => Op.Childless)
      (playAll t { connection } turns).client.registry :=
  List.foldlRecOn (motive := fun d => Reachable (fun _ => Op.Childless) d.client.registry) turns
    (play t) .new fun _ h turn _ => childless_play h turn

/-- A new client that handles no event stays new. -/
theorem play_new (h : d.client = {}) {turn : Turn σ} (hturn : turn.event? = none) :
    (d.play t turn).client = {} := by
  cases turn with
  | handle e => cases hturn
  | edit id accesses =>
    show d.client.perform (.edit id accesses) = {}
    rw [h, Client.perform_edit_new]
  | update =>
    show (d.client.update t.recorded (d.connection, d.sent)).1 = {}
    rw [h, Client.update_new]
  | disconnect =>
    show d.client.reset = {}
    rw [h]
    exact Client.reset_eq_new .new
  | become connection => exact h

/-- A client that has handled no event since the end of its connection is new. -/
theorem new_of_disconnected (connection : σ) (turns : List (Turn σ))
    (hlast : (turns.filterMap Turn.event?).getLast? = some .disconnected) :
    (playAll t { connection } turns).client = {} := by
  induction turns using List.reverseRecOn with
  | nil => cases hlast
  | append_singleton turns turn ih =>
    have hplay : playAll t { connection } (turns ++ [turn]) =
        (playAll t { connection } turns).play t turn := List.foldl_concat _ _ _ _
    have hevents : (turns ++ [turn]).filterMap Turn.event? =
        turns.filterMap Turn.event? ++ turn.event?.toList := by
      rw [List.filterMap_append]
      cases turn <;> rfl
    rw [hevents] at hlast
    rw [hplay]
    cases hevent : turn.event? with
    | none =>
      rw [hevent, Option.toList_none, List.append_nil] at hlast
      exact play_new (ih hlast) hevent
    | some e =>
      rw [hevent, Option.toList_some, List.getLast?_concat, Option.some.injEq] at hlast
      subst hlast
      cases turn with
      | handle e =>
        cases hevent
        exact Client.reset_eq_new (childless_playAll connection turns)
      | _ => cases hevent

/-- Whatever is done to a registry, as long as parameters of peers come without members, once it
forgets everything it is the new one. So after the end of a session, at connections that behave
alike, a client sends the same messages, has the same copy and gives its listeners the same notices
as a new client, whatever happens to both. -/
theorem leaves_no_trace {p : ClientTransport ρ} {t : ClientTransport σ} {u : ClientTransport τ}
    {f : ρ → σ} {g : ρ → τ} (ht : p.Shows f t) (hu : p.Shows g u) (start : σ)
    (history : List (Turn σ))
    (hlast : (history.filterMap Turn.event?).getLast? = some .disconnected) (s : ρ)
    (hs : (playAll t { connection := start } history).connection = f s) (later : List (Turn ρ)) :
    let past := playAll t { connection := start } history
    let old := playAll t { past with sent := [], told := [] } (later.map (.map f))
    let new := playAll u { connection := g s } (later.map (.map g))
    (∀ r, Reachable (fun _ => Op.Childless) r → r.clear = .new) ∧
      old.sent = new.sent ∧ old.client = new.client ∧ old.told = new.told := by
  intro past old new
  have hold : old = (playAll p { connection := s } later).map f := by
    rw [← playAll_of_shows ht]
    show playAll t ⟨past.client, past.connection, [], []⟩ _ = playAll t ⟨{}, f s, [], []⟩ _
    rw [new_of_disconnected start history hlast, hs]
  have hnew : new = (playAll p { connection := s } later).map g :=
    playAll_of_shows hu { connection := s } later
  refine ⟨fun r hr => hr.clear_eq_new, ?_⟩
  rw [hold, hnew]
  exact ⟨rfl, rfl, rfl⟩

/-- A client end that is connected to a server end. -/
def linkedUp : Journal := .playAll {} [.addServer, .bind ⟨0⟩ 7, .addClient, .connect ⟨0⟩ 7]

/-- The client asks for the parameters, hears of a flag, and sets it. -/
def visit : List (Turn Journal) :=
  [.handle .connected, .handle (.received (Packet.encodeUpdate Registry.flag true)),
    .edit ⟨1⟩ [.edit (.value (some (.boolean true)))]]

/-- It sends that, too. -/
def fullVisit : List (Turn Journal) := visit ++ [.update]

/-- After a visit that ends without an update, a second one with an update is as if it were the
first, of which the two requests and the update are sent. -/
theorem leaves_no_trace_visit :
    let past := playAll (.ofJournal ⟨0⟩) { connection := linkedUp }
      (visit ++ [.handle .disconnected])
    let old := playAll (.ofJournal ⟨0⟩) { past with sent := [], told := [] }
      (fullVisit.map (.map id))
    let new := playAll (.ofNetwork ⟨0⟩) { connection := past.connection.network }
      (fullVisit.map (.map Journal.network))
    (∀ r, Reachable (fun _ => Op.Childless) r → r.clear = .new) ∧
      (old.sent = new.sent ∧ old.client = new.client ∧ old.told = new.told) ∧
      new.sent.length = 3 := by
  intro past old new
  have hlast : ((visit ++ [Turn.handle .disconnected]).filterMap Turn.event?).getLast? =
      some .disconnected := rfl
  obtain ⟨hclear, hsame⟩ := leaves_no_trace (.refl (.ofJournal ⟨0⟩)) (Journal.shows_network ⟨0⟩)
    linkedUp _ hlast past.connection rfl fullVisit
  exact ⟨hclear, hsame, by decide +kernel⟩

end Diary
end ParamSync
