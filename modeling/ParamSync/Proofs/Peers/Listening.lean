import ParamSync.Proofs.Peers.Runs
import ParamSync.Proofs.Registry.Reports
import ParamSync.Proofs.Registry.Subtree

/-!
# What listeners are told

A listener can keep a list of its own of who is in the copy: it enters whom it is told to be added,
and strikes out whom it is told to be removed. Whatever messages the client receives, that list is
right after each of them, and no notice comes as a surprise: nobody is added who is on the list, and
nobody is updated or removed who is not.

`Replays` says so of some notices. It holds of the notices of one message, on any list that is right
before it, and so of those of all messages.

Results:
* `Replays.append`: notices after notices.
* `Client.replays_receive`: what a listener is told of one message.
* `Client.replays_receiveAll`: so it is with all that a client receives.
* `Client.listeners_replay`: the list, the notices, and who leaves the copy.
-/

namespace ParamSync

/-! ## A listener's own list -/

namespace ClientNotice

/-- The list after a notice. -/
def note (known : IdSet) : ClientNotice → IdSet
  | added p => known.insert p.id
  | removed p => known.erase p.id
  | _ => known

/-- The notice is no surprise to a listener with that list. -/
def Fits (known : IdSet) : ClientNotice → Prop
  | added p => p.id ∉ known
  | updated p | removed p => p.id ∈ known
  | _ => True

/-- The parameter that has left the copy. -/
def removed? : ClientNotice → Option ParamId
  | removed p => some p.id
  | _ => none

/-- Who is told to have left the copy. -/
def leavers (ns : List ClientNotice) : List ParamId := ns.filterMap removed?

@[simp] theorem leavers_append (ns ms : List ClientNotice) :
    leavers (ns ++ ms) = leavers ns ++ leavers ms := List.filterMap_append

@[simp] theorem leavers_watched (notices : List Notice) : leavers (notices.map .watched) = [] :=
  List.filterMap_eq_nil_iff.2 fun n hn => by
    obtain ⟨notice, -, rfl⟩ := List.mem_map.1 hn
    rfl

theorem leavers_removed (ps : List Parameter) : leavers (ps.map .removed) = ps.map (·.id) := by
  induction ps with
  | nil => rfl
  | cons p ps ih => exact congrArg (p.id :: ·) ih

end ClientNotice

open ClientNotice (note Fits leavers leavers_append leavers_watched leavers_removed)

/-- Notices none of which is a surprise, with the list before the first and after the last. -/
inductive Replays : IdSet → List ClientNotice → IdSet → Prop
  | nil (known : IdSet) : Replays known [] known
  | cons {known known' : IdSet} {n : ClientNotice} {ns : List ClientNotice} (hn : n.Fits known)
      (h : Replays (note known n) ns known') : Replays known (n :: ns) known'

namespace Replays

variable {known known' known'' : IdSet} {n : ClientNotice} {ns ms : List ClientNotice}

theorem append (h : Replays known ns known') (h' : Replays known' ms known'') :
    Replays known (ns ++ ms) known'' := by
  induction h with
  | nil => exact h'
  | cons hn _ ih => exact .cons hn (ih h')

/-- The list afterwards is what the notices make of the one before. -/
theorem foldl_eq (h : Replays known ns known') : ns.foldl note known = known' := by
  induction h with
  | nil => rfl
  | cons _ _ ih => exact ih

/-- Each notice fits what the earlier ones have left. -/
theorem fits (h : Replays known ns known') {before after : List ClientNotice}
    (heq : ns = before ++ n :: after) : n.Fits (before.foldl note known) := by
  induction h generalizing before with
  | nil => simp at heq
  | cons hn _ ih =>
    cases before with
    | nil =>
      obtain ⟨rfl, -⟩ := List.cons.inj heq
      exact hn
    | cons m before =>
      obtain ⟨rfl, htail⟩ := List.cons.inj heq
      exact ih htail

/-- What a watcher is told is nothing to a listener. -/
theorem watched (known : IdSet) (notices : List Notice) :
    Replays known (notices.map .watched) known := by
  induction notices with
  | nil => exact .nil known
  | cons notice notices ih => exact .cons trivial ih

theorem single (hn : n.Fits known) : Replays known [n] (note known n) := .cons hn (.nil _)

/-- Whoever is on the list can be struck out, each once. -/
theorem exists_removed {ps : List Parameter} (hnodup : (ps.map (·.id)).Nodup)
    (hknown : ∀ p ∈ ps, p.id ∈ known) :
    ∃ known', Replays known (ps.map .removed) known' ∧
      ∀ x, x ∈ known' ↔ x ∈ known ∧ x ∉ ps.map (·.id) := by
  induction ps generalizing known with
  | nil => exact ⟨known, .nil known, by simp⟩
  | cons p ps ih =>
    obtain ⟨hout, hnodup⟩ := List.nodup_cons.1 hnodup
    obtain ⟨hp, hps⟩ := List.forall_mem_cons.1 hknown
    have herase : ∀ x, x ∈ known.erase p.id ↔ x ∈ known ∧ x ≠ p.id := fun x => by
      rw [Std.ExtTreeSet.mem_erase, Ne, Std.compare_eq_iff_eq, and_comm, eq_comm]
    have hothers : ∀ q ∈ ps, q.id ∈ known.erase p.id := fun q hq => by
      refine (herase _).2 ⟨hps q hq, fun heq => hout ?_⟩
      exact List.mem_map.2 ⟨q, hq, heq⟩
    obtain ⟨known', hreplays, hmem⟩ := ih hnodup hothers
    refine ⟨known', .cons hp hreplays, fun x => ?_⟩
    rw [hmem, herase, List.map_cons, List.mem_cons, not_or, and_assoc]

end Replays

/-! ## Who is in the copy -/

namespace Registry

variable {r r' : Registry} {incoming p : Parameter} {outcome : Merge} {notices : List Notice}
  {id x : ParamId}

theorem SameLinks.contains_eq (h : SameLinks r r') (x : ParamId) :
    r'.contains x = r.contains x := by
  rw [Bool.eq_iff_iff, contains_iff_ne_root, contains_iff_ne_root, Ne, Ne, h.get?_eq_none_iff]

/-- Whoever is in the copy is there under its own identifier. -/
theorem Forest.contains_of_get? (h : Forest r) (hid : id ≠ .root) (hp : r.get? id = some p) :
    p.id = id ∧ r.contains id = true :=
  ⟨h.keyed hp, contains_eq_true_iff.2 ⟨hid, p, hp⟩⟩

/-- A merge enters whom it brings, and nobody else. -/
theorem contains_merge_iff (h : r.merge incoming = .ok (outcome, r', notices)) :
    r'.contains x = true ↔ r.contains x = true ∨ incoming.id = x := by
  have hperform : r.perform (.merge incoming) = r' := by
    rw [perform, h]
    rfl
  obtain ⟨hid, -⟩ := merge_ok h
  by_cases hx : x = .root
  · simp [contains, hx, hid]
  · have halive : r'.get? x ≠ none ↔ r.get? x ≠ none ∨ incoming.id = x :=
      hperform ▸ alive_merge_iff hx
    simp only [contains_iff_ne_root, hx, not_false_eq_true, true_and, ne_eq] at halive ⊢
    exact halive

/-- It reports a parameter as added exactly if it was not there. -/
theorem added_iff_of_merge (h : r.merge incoming = .ok (outcome, r', notices)) :
    outcome = .added ↔ r.contains incoming.id = false := by
  obtain ⟨hid, ⟨hnew, -⟩ | ⟨p, hp, hd, -⟩⟩ := merge_ok h
  · rw [merge_of_unknown hid hnew] at h
    cases h
    simp [contains, contains_eq_isSome, hnew]
  · have hmerge := merge_of_known hid hp hd rfl
    rw [h] at hmerge
    have hcontains := contains_eq_true_iff.2 ⟨hid, p, hp⟩
    split at hmerge <;> cases hmerge <;> simp [hcontains]

/-- A removal takes out those whom it hands out. -/
theorem Forest.contains_evict_iff (h : Forest r) (hid : id ≠ .root) (hp : r.get? id = some p) :
    (r.evict id).1.contains x = true ↔
      r.contains x = true ∧ x ∉ (r.evict id).2.map (·.id) := by
  have hall := (h.handsOut hid hp).all x
  have hevicts := h.evicts hid hp
  rw [contains_iff_ne_root, contains_iff_ne_root, hall, and_assoc]
  refine and_congr_right fun _ => ?_
  by_cases hsub : r.InSubtree id x
  · simp [hsub, (hevicts.gone x hsub).1]
  · simp [hsub, hevicts.kept x hsub]

end Registry

namespace Client

open Registry (Reachable Op Forest)

variable {c : Client} {known : IdSet}

/-- The list is right. -/
def Shows (c : Client) (known : IdSet) : Prop := ∀ x, x ∈ known ↔ c.registry.contains x = true

theorem shows_new : Shows {} ∅ := by
  intro x
  rw [Registry.contains_iff_ne_root, Registry.get?_new]
  by_cases hx : x = .root <;> simp [hx]

/-! ## One message -/

/-- What one kind of message makes of a client, and what listeners are told of it: the list is right
afterwards, and each who has left the copy was told to be removed once. -/
structure Tells (c : Client) (known : IdSet) (result : Client × List ClientNotice) : Prop where
  replays : ∃ known', Replays known result.2 known' ∧ result.1.Shows known'
  once : (leavers result.2).Nodup
  gone : ∀ x, x ∈ leavers result.2 ↔
    c.registry.contains x = true ∧ result.1.registry.contains x = false

namespace Tells

/-- Listeners are told nothing of who comes or goes if nobody does. -/
theorem of_same (h : c.Shows known) {c' : Client} {ns : List ClientNotice}
    (hcontains : ∀ x, c'.registry.contains x = c.registry.contains x)
    (hreplays : Replays known ns known) (hremoved : leavers ns = []) :
    Tells c known (c', ns) where
  replays := ⟨known, hreplays, fun x => by rw [hcontains, h x]⟩
  once := by rw [hremoved]; exact List.nodup_nil
  gone x := by simp [hremoved, hcontains]

theorem nothing (h : c.Shows known) : Tells c known (c, []) :=
  of_same h (fun _ => rfl) (.nil known) rfl

/-- Listeners are told of one who comes, and of nobody who goes. -/
theorem of_added (h : c.Shows known) {c' : Client} {q : Parameter}
    (hcontains : ∀ x, c'.registry.contains x = true ↔ c.registry.contains x = true ∨ q.id = x)
    (hnew : c.registry.contains q.id = false) (notices : List Notice) :
    Tells c known (c', notices.map .watched ++ [.added q]) := by
  have hnobody : leavers (notices.map .watched ++ [.added q]) = [] := by
    rw [leavers_append, leavers_watched]
    rfl
  have hunknown : q.id ∉ known := by
    rw [h, hnew]
    exact Bool.false_ne_true
  refine ⟨⟨_, (Replays.watched known notices).append (.single (n := .added q) hunknown), ?_⟩, ?_,
    fun x => ?_⟩
  · intro x
    rw [note, IdSet.mem_insert_iff, hcontains, h x, or_comm, eq_comm (a := x)]
  · exact hnobody ▸ List.nodup_nil
  · rw [hnobody]
    refine iff_of_false List.not_mem_nil fun ⟨hold, hgone⟩ => ?_
    exact Bool.false_ne_true (hgone.symm.trans ((hcontains x).2 (.inl hold)))

end Tells

/-- Whoever is in the copy can be told to be updated. -/
theorem replays_updatedNotice (h : c.Shows known) (hf : Forest c.registry) {id : ParamId}
    (hid : id ≠ .root) :
    Replays known (c.updatedNotice id) known ∧ leavers (c.updatedNotice id) = [] := by
  unfold updatedNotice
  cases hp : c.registry.get? id with
  | none => exact ⟨.nil known, rfl⟩
  | some p =>
    obtain ⟨hpid, hcontains⟩ := hf.contains_of_get? hid hp
    exact ⟨.single (n := .updated p) ((h _).2 (hpid ▸ hcontains)), rfl⟩

variable (h : c.Shows known) (hf : Forest c.registry)
include h hf

theorem tells_receiveParameter {p : Parameter} (hp : p.children = ∅) :
    Tells c known (c.receiveParameter p) := by
  unfold receiveParameter
  split
  · exact .nothing h
  · next outcome r' notices hm =>
    have hid := (Registry.merge_ok hm).1
    have hf' : Forest r' := hf.merge hp hm
    have hcontains (x : ParamId) := Registry.contains_merge_iff (x := x) hm
    have hadded := Registry.added_iff_of_merge hm
    have hsame (hne : outcome ≠ .added) (x : ParamId) :
        r'.contains x = c.registry.contains x := by
      have hold : c.registry.contains p.id = true := by
        rwa [← Bool.not_eq_false, ← hadded]
      rw [Bool.eq_iff_iff, hcontains]
      exact or_iff_left_of_imp fun hx => hx ▸ hold
    cases outcome with
    | added =>
      obtain ⟨-, q, hq⟩ := Registry.contains_eq_true_iff.1 ((hcontains p.id).2 (.inr rfl))
      have hqid : q.id = p.id := (hf'.contains_of_get? hid hq).1
      dsimp only
      rw [hq]
      exact .of_added h (by rwa [hqid]) (by rw [hqid]; exact hadded.1 rfl) notices
    | updated =>
      have hshows : Shows { c with registry := r' } known := fun x => by
        rw [h x, hsame nofun]
      obtain ⟨hreplays, hremoved⟩ := replays_updatedNotice hshows hf' hid
      refine .of_same h (hsame nofun) ((Replays.watched known notices).append hreplays) ?_
      rw [leavers_append, leavers_watched, hremoved, List.nil_append]
    | unchanged =>
      refine .of_same h (hsame nofun) ((Replays.watched known notices).append (.nil known)) ?_
      rw [List.append_nil, leavers_watched]

theorem tells_receiveRemoval (id : ParamId) : Tells c known (c.receiveRemoval id) := by
  unfold receiveRemoval
  split
  · next hcontains =>
    obtain ⟨hid, p, hp⟩ := Registry.contains_eq_true_iff.1 hcontains
    have hdirect : c.registry.removeDirect id = c.registry.evict id := by
      rw [Registry.removeDirect, if_neg (by simpa using hid)]
    have hout := hf.handsOut hid hp
    have hleft (x : ParamId) := hf.contains_evict_iff (x := x) hid hp
    have hwas : ∀ q ∈ (c.registry.evict id).2, c.registry.contains q.id = true := by
      intro q hq
      obtain ⟨q', hq', -⟩ := hout.same q hq
      have hsub := (hout.all q.id).1 (List.mem_map_of_mem hq)
      have hroot : q.id ≠ .root := fun heq => hf.not_inSubtree_root hid (heq ▸ hsub)
      exact Registry.contains_eq_true_iff.2 ⟨hroot, q', hq'⟩
    have hremoved := leavers_removed (c.registry.evict id).2
    obtain ⟨known', hreplays, hmem⟩ :=
      Replays.exists_removed hout.once fun q hq => (h _).2 (hwas q hq)
    rw [hdirect]
    refine ⟨⟨known', hreplays, fun x => ?_⟩, ?_, fun x => ?_⟩
    · rw [hmem, h x, hleft]
    · rw [hremoved]
      exact hout.once
    · rw [hremoved, ← Bool.not_eq_true, hleft, not_and, not_not]
      refine ⟨fun hx => ?_, fun hx => hx.2 hx.1⟩
      obtain ⟨q, hq, rfl⟩ := List.mem_map.1 hx
      exact ⟨hwas q hq, fun _ => hx⟩
  · exact .nothing h

theorem tells_receiveValue (u : ValueUpdate) : Tells c known (c.receiveValue u) := by
  unfold receiveValue
  split
  · exact .nothing h
  · next applied r' notices hu =>
    have hsame := (Registry.sameLinks_applyValue hu).contains_eq
    have hf' : Forest r' := hf.of_sameLinks (Registry.sameLinks_applyValue hu)
    have hshows : Shows { c with registry := r' } known := fun x => by rw [h x, hsame]
    obtain ⟨p, p', hp, hroot, -, -⟩ := Registry.applyValue_ok hu
    have hid : u.id ≠ .root := hf.keyed hp ▸ hroot
    obtain ⟨hreplays, hremoved⟩ := replays_updatedNotice hshows hf' hid
    cases applied with
    | true =>
      refine .of_same h hsame ((Replays.watched known notices).append hreplays) ?_
      rw [leavers_append, leavers_watched, if_pos rfl, hremoved, List.nil_append]
    | false =>
      refine .of_same h hsame ((Replays.watched known notices).append (.nil known)) ?_
      rw [if_neg Bool.false_ne_true, List.append_nil, leavers_watched]

theorem tells_receive (data : Bytes) : Tells c known (c.receive data) := by
  have hreceives := c.receives data
  generalize c.receive data = result at hreceives ⊢
  cases hreceives with
  | parameter hupdate =>
    exact tells_receiveParameter h hf (Packet.read_of_update? hupdate).fresh.acceptable.childless
  | removal _ id => exact tells_receiveRemoval h hf id
  | value _ u => exact tells_receiveValue h hf u
  | info _ info => exact .of_same h (fun _ => rfl) (.single (n := .info info) trivial) rfl
  | nothing _ => exact .nothing h

omit h hf

/-! ## All that a client receives -/

/-- A client after some messages, with all that listeners were told. -/
def receiveAll (c : Client) (messages : List Bytes) : Client × List ClientNotice :=
  messages.foldl
    (fun (c, notices) data =>
      let (c', more) := c.receive data
      (c', notices ++ more))
    (c, [])

theorem receiveAll_concat (c : Client) (messages : List Bytes) (data : Bytes) :
    c.receiveAll (messages ++ [data]) =
      (((c.receiveAll messages).1.receive data).1,
        (c.receiveAll messages).2 ++ ((c.receiveAll messages).1.receive data).2) := by
  rw [receiveAll, List.foldl_append]
  rfl

variable {c : Client}

theorem receiveAll_induction {P : Client → List ClientNotice → Prop} {messages : List Bytes}
    (h : P c []) (hstep : ∀ c ns data, P c ns → P (c.receive data).1 (ns ++ (c.receive data).2)) :
    P (c.receiveAll messages).1 (c.receiveAll messages).2 := by
  induction messages using List.reverseRecOn with
  | nil => exact h
  | append_singleton messages data ih =>
    rw [receiveAll_concat]
    exact hstep _ _ data ih

/-- Whatever a client receives, a listener's list is right afterwards, and nothing that the listener
was told has come as a surprise. -/
theorem replays_receiveAll (messages : List Bytes) :
    Reachable (fun _ => Op.Legal) (receiveAll {} messages).1.registry ∧
      ∃ known, Replays ∅ (receiveAll {} messages).2 known ∧
        (receiveAll {} messages).1.Shows known := by
  refine receiveAll_induction (P := fun c ns => Reachable (fun _ => Op.Legal) c.registry ∧
    ∃ known, Replays ∅ ns known ∧ c.Shows known) ⟨.new, ∅, .nil ∅, shows_new⟩ ?_
  rintro c ns data ⟨hr, known, hreplays, hshows⟩
  obtain ⟨known', hmore, hshows'⟩ := (tells_receive hshows (hr.orderly).1 data).replays
  exact ⟨reachable_receive hr data, known', hreplays.append hmore, hshows'⟩

/-- Whatever a new client receives, the list that a listener keeps is that of the parameters in the
copy, and each notice fits what the earlier ones have left of it: whoever is added is not on the
list, and whoever is updated or removed is. With each further message, those who leave the copy are
exactly those who are told to be removed, each once. -/
theorem listeners_replay (messages : List Bytes) :
    let c := (receiveAll {} messages).1
    let told := (receiveAll {} messages).2
    (∀ x, x ∈ told.foldl note ∅ ↔ c.registry.contains x = true) ∧
      (∀ before n after, told = before ++ n :: after → n.Fits (before.foldl note ∅)) ∧
      ∀ data, (receiveAll {} (messages ++ [data])).2 = told ++ (c.receive data).2 ∧
        (leavers (c.receive data).2).Nodup ∧
        ∀ x, x ∈ leavers (c.receive data).2 ↔
          c.registry.contains x = true ∧ (c.receive data).1.registry.contains x = false := by
  intro c told
  obtain ⟨hr, known, hreplays, hshows⟩ := replays_receiveAll messages
  refine ⟨fun x => ?_, fun _ _ _ heq => hreplays.fits heq, fun data => ?_⟩
  · rw [hreplays.foldl_eq]
    exact hshows x
  · have htells := tells_receive hshows hr.orderly.1 data
    exact ⟨congrArg Prod.snd (receiveAll_concat {} messages data), htells.once, htells.gone⟩

end Client
end ParamSync
