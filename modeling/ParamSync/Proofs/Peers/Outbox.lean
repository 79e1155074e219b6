import ParamSync.Proofs.Peers.Echo

/-!
# The outbox

Once the changes of a client are drained into packets they cannot be drained again, so what the
connection does not take has to be kept. The connection may be anything here: it may be lost, come
back or refuse a message at every moment. `recorded` notes the messages that it takes, and `Desk`
puts beside a client what was taken and what was drained since the client last forgot its copy;
nothing that happens to the client then loses, repeats or reorders a packet.

Results:
* `Client.flush_recorded`: a flush splits the outbox into what is taken and what is kept.
* `Client.update_recorded`: an update does so with the outbox and what it drains.
* `Desk.exists_poll`: a poll is a run of events.
* `Desk.delivers_in_order`: what was taken and what is kept is what was drained, in order.
-/

namespace ParamSync

variable {σ : Type}

/-! ## What a connection takes -/

/-- A connection that notes the messages it takes, the oldest first. -/
def ClientTransport.recorded (t : ClientTransport σ) : ClientTransport (σ × List Bytes) where
  connect endpoint s :=
    let (s', result) := t.connect endpoint s.1
    ((s', s.2), result)
  disconnect s := (t.disconnect s.1, s.2)
  isConnected s := t.isConnected s.1
  send data s :=
    match t.send data s.1 with
    | (s', .ok ()) => ((s', s.2 ++ [data]), .ok ())
    | (s', .error e) => ((s', s.2), .error e)
  waiting s := t.waiting s.1
  takeEvent? s := (t.takeEvent? s.1).map fun (e, s') => (e, (s', s.2))

namespace Client

variable (t : ClientTransport σ)

/-- A flush does what it does without the notes, and splits the outbox into what it notes and what
it leaves. -/
theorem flush_recorded (sent : Nat) (outbox : List Bytes) (s : σ) (noted : List Bytes) :
    ∃ taken, flush t.recorded sent outbox (s, noted) =
        ((flush t sent outbox s).1, ((flush t sent outbox s).2.1, noted ++ taken),
          (flush t sent outbox s).2.2) ∧
      taken ++ (flush t sent outbox s).1 = outbox := by
  induction outbox generalizing sent s noted with
  | nil => exact ⟨[], by rw [List.append_nil]; rfl, rfl⟩
  | cons data rest ih =>
    obtain ⟨s', result, hsend⟩ : ∃ s' result, t.send data s = (s', result) := ⟨_, _, rfl⟩
    cases result with
    | error e =>
      refine ⟨[], ?_, ?_⟩
      · simp only [flush, ClientTransport.recorded, hsend, List.append_nil]
      · simp only [flush, hsend, List.nil_append]
    | ok u =>
      obtain ⟨taken, hflush, htaken⟩ := ih (sent + 1) s' (noted ++ [data])
      have hstep : flush t sent (data :: rest) s = flush t (sent + 1) rest s' := by
        simp only [flush, hsend]
      have hstep' : flush t.recorded sent (data :: rest) (s, noted) =
          flush t.recorded (sent + 1) rest (s', noted ++ [data]) := by
        simp only [flush, ClientTransport.recorded, hsend]
      refine ⟨data :: taken, ?_, ?_⟩
      · rw [hstep', hflush, hstep, List.append_assoc]
        rfl
      · rw [hstep, List.cons_append, htaken]

/-- A flush that succeeds has sent everything. -/
theorem flush_ok {sent n : Nat} {outbox : List Bytes} {s : σ}
    (h : (flush t sent outbox s).2.2 = .ok n) : (flush t sent outbox s).1 = [] := by
  induction outbox generalizing sent s with
  | nil => rfl
  | cons data rest ih =>
    rw [flush] at h ⊢
    split at h
    · exact ih h
    · cases h

/-! ## What an update drains -/

/-- The packets that an update drains: none while there is no connection, and none if nothing waits
to be sent. -/
def drained (c : Client) (s : σ) : List Bytes :=
  if t.isConnected s && c.hasPending then c.registry.encodeRemoved.2.encodeDirty.1 else []

/-- An update is a flush of the outbox and what is drained. -/
theorem update_eq (c : Client) (s : σ) :
    c.update t s =
      if t.isConnected s && c.hasPending then
        let (outbox, s', result) := flush t 0 (c.outbox ++ c.drained t s) s
        ({ c with registry := c.registry.encodeRemoved.2.encodeDirty.2, outbox }, s', result)
      else (c, s, .ok 0) := by
  unfold update drained
  cases t.isConnected s <;> cases c.hasPending <;> rfl

/-- An update does what it does without the notes. What it notes and what stays in the outbox is
what was in the outbox and what was drained. -/
theorem update_recorded (c : Client) (s : σ) (noted : List Bytes) :
    ∃ taken, c.update t.recorded (s, noted) =
        ((c.update t s).1, ((c.update t s).2.1, noted ++ taken), (c.update t s).2.2) ∧
      taken ++ (c.update t s).1.outbox = c.outbox ++ c.drained t s := by
  have hdrained : c.drained t.recorded (s, noted) = c.drained t s := rfl
  have hconnected : t.recorded.isConnected (s, noted) = t.isConnected s := rfl
  rw [update_eq, update_eq, hdrained, hconnected]
  cases hdrains : t.isConnected s && c.hasPending with
  | true =>
    obtain ⟨taken, hflush, htaken⟩ := flush_recorded t 0 (c.outbox ++ c.drained t s) s noted
    simp only [if_true, hflush]
    exact ⟨taken, rfl, htaken⟩
  | false =>
    refine ⟨[], by simp, ?_⟩
    simp [drained, hdrains]

/-- An update that succeeds leaves nothing in the outbox, unless there is no connection. -/
theorem outbox_update_of_ok {c : Client} {s : σ} {n : Nat} (h : (c.update t s).2.2 = .ok n) :
    (c.update t s).1.outbox = [] ∨ t.isConnected s = false := by
  rw [update_eq] at h ⊢
  split at h
  · next hdrains =>
    rw [if_pos hdrains]
    exact .inl (flush_ok t h)
  · next hdrains =>
    rw [if_neg hdrains]
    cases hconnected : t.isConnected s with
    | false => exact .inr rfl
    | true =>
      have hpending : c.hasPending = false := by simpa [hconnected] using hdrains
      exact .inl (hasPending_eq_false_iff.1 hpending).1

theorem removed_update {c : Client} (h : c.registry.removed = ∅) (s : σ) :
    (c.update t s).1.registry.removed = ∅ := by
  rw [update_eq]
  split
  · rfl
  · exact h

end Client

/-! ## A client at work -/

/-- A client and its connection, with the packets that the connection took from updates and those
that the updates drained, since the client last forgot its copy. -/
structure Desk (σ : Type) where
  client : Client := {}
  connection : σ
  taken : List Bytes := []
  drained : List Bytes := []

namespace Desk

/-- What happens next: the client changes a parameter of its copy in whatever way, handles an event
of its connection, sends its changes or closes the connection; or something becomes of the
connection. -/
inductive Turn (σ : Type)
  | edit (id : ParamId) (f : Parameter → Parameter)
  | handle (e : LinkEvent)
  | update
  | disconnect
  | become (connection : σ)

variable (t : ClientTransport σ)

def play (d : Desk σ) : Turn σ → Desk σ
  | .edit id f =>
    { d with client := { d.client with
        registry := d.client.registry.orSame (·.1) (d.client.registry.edit id fun p => (f p, ())) } }
  | .handle e =>
    let (client, connection, _) := Client.handle t d.client d.connection e
    if e = .disconnected then { client, connection } else { d with client, connection }
  | .update =>
    let (client, (connection, taken), _) :=
      d.client.update t.recorded (d.connection, d.taken)
    { client, connection, taken, drained := d.drained ++ d.client.drained t d.connection }
  | .disconnect =>
    let (client, connection) := d.client.disconnect t d.connection
    { client, connection }
  | .become connection => { d with connection }

def playAll (d : Desk σ) (turns : List (Turn σ)) : Desk σ := turns.foldl (play t) d

/-- A poll is a run in which the connection changes by itself and events are handled. -/
theorem exists_poll (d : Desk σ) :
    ∃ turns : List (Turn σ),
      (∀ turn ∈ turns, (∃ e, turn = .handle e) ∨ ∃ s, turn = .become s) ∧
      (d.playAll t turns).client = (d.client.poll t d.connection).1 ∧
      (d.playAll t turns).connection = (d.client.poll t d.connection).2.1 := by
  refine Client.poll_induction (t := t) (c := d.client) (s := d.connection)
    (P := fun client s => ∃ turns : List (Turn σ),
      (∀ turn ∈ turns, (∃ e, turn = .handle e) ∨ ∃ s, turn = .become s) ∧
      (d.playAll t turns).client = client ∧ (d.playAll t turns).connection = s) ?_
    ⟨[], List.forall_mem_nil _, rfl, rfl⟩
  rintro client s e s' ⟨turns, hturns, rfl, rfl⟩ -
  have hevent : ((d.playAll t turns).play t (.become s') |>.play t (.handle e)).client =
        (Client.handle t (d.playAll t turns).client s' e).1 ∧
      ((d.playAll t turns).play t (.become s') |>.play t (.handle e)).connection =
        (Client.handle t (d.playAll t turns).client s' e).2.1 := by
    simp only [play]
    split <;> exact ⟨rfl, rfl⟩
  refine ⟨turns ++ [.become s', .handle e], ?_, ?_⟩
  · exact List.forall_mem_append.2 ⟨hturns, List.forall_mem_cons.2 ⟨.inr ⟨s', rfl⟩,
      List.forall_mem_cons.2 ⟨.inl ⟨e, rfl⟩, List.forall_mem_nil _⟩⟩⟩
  · rw [playAll, List.foldl_append]
    exact hevent

/-- What was taken and what is kept is what was drained, and the client has no removal to tell. -/
structure Sound (d : Desk σ) : Prop where
  order : d.taken ++ d.client.outbox = d.drained
  removed : d.client.registry.removed = ∅

namespace Sound

variable {d : Desk σ}

theorem forgotten (client : Client) (connection : σ) :
    Sound { client := client.reset, connection : Desk σ } := ⟨rfl, rfl⟩

theorem edit (h : d.Sound) (id : ParamId) (f : Parameter → Parameter) :
    (d.play t (.edit id f)).Sound := by
  refine ⟨h.order, Registry.of_orSame (P := fun r => r.removed = ∅) h.removed ?_⟩
  rintro ⟨r, ⟨⟩⟩ hok
  obtain ⟨-, p, -, -, rfl⟩ := Registry.edit_ok hok
  exact h.removed

/-- A message changes nothing of what is to be sent. -/
theorem receive (h : d.Sound) (data : Bytes) :
    Sound { d with client := (d.client.receive data).1 } := by
  obtain ⟨houtbox, htells⟩ := d.client.tellsNoMore_receive data
  refine ⟨houtbox ▸ h.order, Std.ExtTreeSet.eq_empty_iff_forall_not_mem.2 fun x hx => ?_⟩
  exact Std.ExtTreeSet.not_mem_empty (h.removed ▸ htells.removed x hx)

theorem handle (h : d.Sound) (e : LinkEvent) : (d.play t (.handle e)).Sound := by
  cases e with
  | connected => exact ⟨h.order, h.removed⟩
  | disconnected => exact forgotten d.client d.connection
  | received data => exact ⟨(h.receive data).order, (h.receive data).removed⟩

/-- What is drained joins the outbox at its end, and what is taken leaves it at its front. -/
theorem update (h : d.Sound) : (d.play t .update).Sound := by
  obtain ⟨taken, hupdate, htaken⟩ := d.client.update_recorded t d.connection d.taken
  rw [play, hupdate]
  refine ⟨?_, d.client.removed_update t h.removed d.connection⟩
  show d.taken ++ taken ++ (d.client.update t d.connection).1.outbox =
    d.drained ++ d.client.drained t d.connection
  rw [List.append_assoc, htaken, ← List.append_assoc, h.order]

theorem play (h : d.Sound) (turn : Turn σ) : (d.play t turn).Sound := by
  cases turn with
  | edit id f => exact h.edit t id f
  | handle e => exact h.handle t e
  | update => exact h.update t
  | disconnect => exact forgotten d.client (t.disconnect d.connection)
  | become connection => exact ⟨h.order, h.removed⟩

theorem playAll (h : d.Sound) (turns : List (Turn σ)) : (d.playAll t turns).Sound :=
  List.foldlRecOn (motive := Sound) turns (Desk.play t) h fun _ h turn _ => h.play t turn

end Sound

/-- Whatever becomes of the connection, the packets that it took from updates and those that wait in
the outbox are the packets that were drained since the client last forgot its copy, each once and in
the order in which they were drained. An update succeeds only if it leaves nothing in the outbox or
there is no connection, and the client has something to send exactly if something waits in the outbox
or is to be drained. -/
theorem delivers_in_order (connection : σ) (turns : List (Turn σ)) :
    let d := playAll t { connection } turns
    d.taken ++ d.client.outbox = d.drained ∧
      (∀ n, (d.client.update t d.connection).2.2 = .ok n →
        (d.client.update t d.connection).1.outbox = [] ∨ t.isConnected d.connection = false) ∧
      (d.client.hasPending = true ↔ d.client.outbox ≠ [] ∨ d.client.registry.dirty ≠ ∅) := by
  intro d
  have hsound : d.Sound := Sound.playAll t ⟨rfl, rfl⟩ turns
  refine ⟨hsound.order, fun n hn => Client.outbox_update_of_ok t hn, ?_⟩
  rw [← Bool.not_eq_false, Client.hasPending_eq_false_iff, and_iff_left hsound.removed,
    not_and_or]

end Desk
end ParamSync
