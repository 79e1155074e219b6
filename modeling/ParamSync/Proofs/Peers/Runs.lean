import ParamSync.Proofs.Codec.Incoming
import ParamSync.Proofs.Peers.Receive
import ParamSync.Proofs.Registry.Orderly

/-!
# Peers do what can be done

Whatever messages come in, what a peer does to its registry is a run of legal operations. So what is
known of such runs is known of every server and of every client, whomever they talk to.

Results:
* `Client.receive_cases`, `Server.receive_cases`: what a message can have a peer do.
* `Client.reachable_receive`, `Server.reachable_receive`: so it is with one message.
* `Client.poll_induction`, `Server.poll_induction`: what each event or message keeps, a poll keeps.
* `Client.reachable_poll`, `Server.reachable_poll`: so it is with all that waits.
* `Client.reachable_update`, `Server.reachable_update`: so it is when changes are told.
-/

namespace ParamSync

open Registry (Op Reachable)

namespace Registry

variable {r r' : Registry}

/-- What a message can have a peer do to its registry. -/
inductive Op.Remote : Op → Prop
  | merge {p : Parameter} (hp : p.Read) : Remote (.merge p)
  | applyValue (u : ValueUpdate) : Remote (.applyValue u)
  | removeDirect (id : ParamId) : Remote (.removeDirect id)

theorem Op.Remote.legal {op : Op} (h : op.Remote) : op.Legal := by
  cases h with
  | merge hp => exact ⟨hp.fresh.acceptable.childless, hp.fresh.acceptable.wellFormed⟩
  | applyValue u => exact ⟨trivial, trivial⟩
  | removeDirect id => exact ⟨trivial, trivial⟩

theorem Reachable.encode (h : Reachable (fun _ => Op.Legal) r) :
    Reachable (fun _ => Op.Legal) r.encodeRemoved.2.encodeDirty.2 :=
  (h.step .encodeRemoved ⟨trivial, trivial⟩).step .encodeDirty ⟨trivial, trivial⟩

end Registry

/-- The parameter of an update was read. -/
theorem Packet.read_of_update? {data : Bytes} {p : Parameter} (h : update? data = some p) :
    p.Read := by
  obtain ⟨packet, hpacket, -, hp⟩ := exists_of_update? h
  exact read_of_ofBytes hpacket hp

/-! ## Clients -/

namespace Client

variable {c : Client} {σ : Type} {t : ClientTransport σ}

theorem reachable_reset : Reachable (fun _ => Op.Legal) c.registry →
    Reachable (fun _ => Op.Legal) c.reset.registry :=
  fun h => h.step .clear ⟨trivial, trivial⟩

/-- A client that receives a message notes what it is told about the server, or performs one
operation on its copy. -/
theorem receive_cases (c : Client) (data : Bytes) :
    (∃ info, (c.receive data).1 = { c with info }) ∨ ∃ op : Op, op.Remote ∧
      (c.receive data).1 = { c with registry := c.registry.perform op } := by
  have hsame : (∃ info, c = { c with info }) ∨ ∃ op : Op, op.Remote ∧
      c = { c with registry := c.registry.perform op } := .inl ⟨c.info, rfl⟩
  have hreceives := c.receives data
  generalize c.receive data = result at hreceives ⊢
  cases hreceives with
  | @parameter p hupdate =>
    exact .inr ⟨.merge p, .merge (Packet.read_of_update? hupdate), c.receiveParameter_merges p⟩
  | removal _ id =>
    unfold receiveRemoval
    split
    · exact .inr ⟨.removeDirect id, .removeDirect id, rfl⟩
    · exact hsame
  | value _ u =>
    unfold receiveValue
    split
    · exact hsame
    · next hu =>
      refine .inr ⟨.applyValue u, .applyValue u, ?_⟩
      rw [Registry.perform, hu]
      rfl
  | info _ info => exact .inl ⟨some info, rfl⟩
  | nothing _ => exact hsame

theorem reachable_receive (h : Reachable (fun _ => Op.Legal) c.registry) (data : Bytes) :
    Reachable (fun _ => Op.Legal) (c.receive data).1.registry := by
  rcases c.receive_cases data with ⟨info, heq⟩ | ⟨op, hop, heq⟩
  · rw [heq]
    exact h
  · rw [heq]
    exact h.step op hop.legal

/-- What every event that is handled keeps, a poll keeps. -/
theorem poll_induction {P : Client → σ → Prop}
    (hstep : ∀ c s e s', P c s → t.takeEvent? s = some (e, s') →
      P (handle t c s' e).1 (handle t c s' e).2.1)
    {s : σ} (h : P c s) : P (c.poll t s).1 (c.poll t s).2.1 := by
  have hdrain : ∀ n (state : Client × σ × Nat × List ClientNotice), P state.1 state.2.1 →
      P (drain t n state).1 (drain t n state).2.1 := by
    intro n
    induction n with
    | zero => exact fun state h => h
    | succ n ih =>
      rintro ⟨c, s, handled, notices⟩ h
      rw [drain]
      split
      · exact h
      · next htake => exact ih _ (hstep _ _ _ _ h htake)
  exact hdrain _ (c, s, 0, []) h

/-- Whatever a client is told, its registry stays one that a run of operations makes. -/
theorem reachable_poll (h : Reachable (fun _ => Op.Legal) c.registry) (s : σ) :
    Reachable (fun _ => Op.Legal) (c.poll t s).1.registry := by
  refine poll_induction (P := fun c _ => Reachable (fun _ => Op.Legal) c.registry) ?_ h
  intro c s e s' h _
  cases e with
  | connected => exact h
  | disconnected => exact reachable_reset h
  | received data => exact reachable_receive h data

theorem reachable_update (h : Reachable (fun _ => Op.Legal) c.registry) (s : σ) :
    Reachable (fun _ => Op.Legal) (c.update t s).1.registry := by
  unfold update
  split
  · exact h
  · exact h.encode

end Client

/-! ## Servers -/

namespace Server

variable {s : Server} {w : OnNetwork}

/-- A server that receives a message stays as it is, or merges a parameter. -/
theorem receive_cases (s : Server) (origin : TransporterId) (sender : ConnectionId) (data : Bytes) :
    (s.receive origin sender data).1 = s ∨ ∃ p : Parameter, p.Read ∧
      (s.receive origin sender data).1 = { s with registry := s.registry.perform (.merge p) } := by
  unfold receive
  split
  · exact .inl rfl
  · exact .inl rfl
  · next packet hpacket =>
    split
    case h_1 =>
      rw [Registry.dump_eq]
      exact .inl rfl
    case h_2 =>
      split
      · exact .inl rfl
      · next p hp =>
        split
        · exact .inl rfl
        · next hm =>
          refine .inr ⟨p, Packet.read_of_ofBytes hpacket hp, ?_⟩
          rw [Registry.perform, hm]
          rfl
    all_goals exact .inl rfl

theorem reachable_receive (h : Reachable (fun _ => Op.Legal) s.registry) (origin : TransporterId)
    (sender : ConnectionId) (data : Bytes) :
    Reachable (fun _ => Op.Legal) (s.receive origin sender data).1.registry := by
  rcases s.receive_cases origin sender data with heq | ⟨p, hp, heq⟩
  · rw [heq]
    exact h
  · rw [heq]
    exact h.step (.merge p) (Op.Remote.merge hp).legal

/-- What a server does at one of its ends when it polls. -/
def pollEnd (state : OnNetwork × Nat × List Notice) (t : TransporterId × ServerKey) :
    OnNetwork × Nat × List Notice :=
  drain t.1 t.2 (state.1.network.waitingMessages t.2) state

/-- What every message that is handled keeps, a poll keeps. -/
theorem poll_induction {P : OnNetwork → Prop}
    (hstep : ∀ w' origin key sender data n, w.server.transporters[origin]? = some key → P w' →
      w'.network.takeMessage? key = some ((sender, data), n) →
        P (handle ⟨w'.server, n⟩ origin sender data).1)
    (h : P w) : P (poll w).1 := by
  have hdrain : ∀ origin key, w.server.transporters[origin]? = some key →
      ∀ n (state : OnNetwork × Nat × List Notice), P state.1 →
        P (drain origin key n state).1 := by
    intro origin key horigin n
    induction n with
    | zero => exact fun state h => h
    | succ n ih =>
      rintro ⟨w', handled, notices⟩ h
      rw [drain]
      split
      · exact h
      · next htake => exact ih _ (hstep _ _ _ _ _ _ horigin h htake)
  have hends : ∀ (ts : List (TransporterId × ServerKey)),
      (∀ t ∈ ts, w.server.transporters[t.1]? = some t.2) →
        ∀ state : OnNetwork × Nat × List Notice, P state.1 → P (ts.foldl pollEnd state).1 := by
    intro ts
    induction ts with
    | nil => exact fun _ state h => h
    | cons t ts ih =>
      intro hts state h
      obtain ⟨ht, hts⟩ := List.forall_mem_cons.1 hts
      exact ih hts _ (hdrain t.1 t.2 ht _ state h)
  exact hends _ (fun t ht => Std.ExtTreeMap.mem_toList_iff_getElem?_eq_some.1 ht) (w, 0, []) h

/-- Whatever a server receives, its registry stays one that a run of operations makes. -/
theorem reachable_poll (h : Reachable (fun _ => Op.Legal) w.server.registry) :
    Reachable (fun _ => Op.Legal) (poll w).1.server.registry := by
  refine poll_induction (P := fun w => Reachable (fun _ => Op.Legal) w.server.registry) ?_ h
  intro w' origin key sender data n _ h _
  exact reachable_receive h origin sender data

theorem reachable_update (h : Reachable (fun _ => Op.Legal) s.registry) :
    Reachable (fun _ => Op.Legal) s.update.1.registry := by
  unfold update
  split
  · exact h
  · exact h.encode

end Server
end ParamSync
