import ParamSync.Proofs.Codec.Incoming
import ParamSync.Proofs.Codec.RoundTrip
import ParamSync.Proofs.Registry.Ledger
import ParamSync.Proofs.Registry.Tick

/-!
# Changes that wait to be told

What has changed is written down twice: each field of a parameter and of its definition has a flag,
and the registry notes who is dirty. A tick tells of the dirty ones alone, so a flag that is up on a
parameter that is not noted would never be told. `Noted` says that there is none. It also says that
a flag on a value can be told at all: a bang or a group has no value to send, and the flag would
stay up.

What a peer brings raises no flag (`TellsNoMore`), and what we do ourselves ends with a note. The
note is left out for an identifier whose removal is to be told; so nobody who is there may wait for
that, which is why a run may merge nobody whose removal has not been told.

Results:
* `Noted.of_get?`: what keeps the flags and the notes in step, parameter by parameter.
* `Noted.perform`: every operation does.
* `Reachable.noted`: they are in step along every run.
* `Reachable.no_change_lost`: a tick tells of every change, once, and then nothing is left to tell.
-/

namespace ParamSync

/-! ## Of one parameter -/

theorem TypeDef.hasValue_eq_of_datatype_eq {d d' : TypeDef} (h : d'.datatype = d.datatype) :
    d'.hasValue = d.hasValue := by
  cases d <;> cases d' <;> first | rfl | cases h

namespace Parameter

variable {p p' p'' : Parameter}

/-- A change of the value can be sent. -/
def Sendable (p : Parameter) : Prop := p.definition.hasValue = false → p.value.changed = false

/-- The second parameter has nothing to tell that the first has not. -/
structure TellsNoMore (p p' : Parameter) : Prop where
  hasChanges : p'.hasChanges = true → p.hasChanges = true
  sendable : p.Sendable → p'.Sendable

theorem TellsNoMore.refl (p : Parameter) : p.TellsNoMore p := ⟨fun h => h, fun h => h⟩

theorem TellsNoMore.trans (h : p.TellsNoMore p') (h' : p'.TellsNoMore p'') : p.TellsNoMore p'' :=
  ⟨fun hchanges => h.hasChanges (h'.hasChanges hchanges), fun hs => h'.sendable (h.sendable hs)⟩

theorem Sendable.of_not_hasChanges (h : p.hasChanges = false) : p.Sendable :=
  fun _ => (hasChanges_eq_false_iff.1 h).1

theorem sendable_sent (h : p.Sendable) : p.sent.Sendable := by
  have hdatatype : p.sent.definition.datatype = p.definition.datatype := p.definition.datatype_sent
  intro hv
  rw [TypeDef.hasValue_eq_of_datatype_eq hdatatype] at hv
  have hvalue : p.sent.value = p.value := by
    rw [sent, hv]
    rfl
  rw [hvalue]
  exact h hv

/-- What can be sent is sent by a delta write. -/
theorem hasChanges_sent (h : p.Sendable) : p.sent.hasChanges = false := by
  have hvalue : p.sent.value.changed = false := by
    cases hv : p.definition.hasValue with
    | true => rw [sent, hv]; rfl
    | false => rw [sent, hv]; exact h hv
  exact hasChanges_eq_false_iff.2
    ⟨hvalue, rfl, rfl, rfl, rfl, rfl, rfl, rfl, p.definition.hasChanges_sent⟩

/-- A change that keeps the definition changes the value only if there can be one. -/
theorem Edited.sendable {change : Edit} (h : Edited p change p') (hkeep : change.KeepsDefinition)
    (hp : p.Sendable) : p'.Sendable := by
  cases h with
  | setValue hv | clearValue hv => exact fun hv' => absurd (hv.symm.trans hv') (by decide)
  | definition heq =>
    have hkept := TypeDef.hasValue_eq_of_datatype_eq (TypeDef.datatype_edit heq)
    exact fun hv => hp (hkept.symm.trans hv)
  | replaced d => exact hkeep.elim
  | other hvalue hdefinition =>
    intro hv
    rw [hvalue]
    exact hp (hdefinition ▸ hv)

theorem sendable_accessAll {accesses : List Access}
    (h : ∀ change, Access.edit change ∈ accesses → change.KeepsDefinition) (hp : p.Sendable) :
    (p.accessAll accesses).Sendable :=
  accessAll_induction (fun hp hmem he => he.sendable (h _ hmem) hp) sendable_sent hp

/-! ### What raises no flag -/

/-- Changes of what does not travel. -/
theorem tellsNoMore_children (p : Parameter) (children : IdSet) :
    p.TellsNoMore { p with children } := ⟨fun h => h, fun h => h⟩

theorem tellsNoMore_merge (p other : Parameter) : p.TellsNoMore (p.merge other) where
  hasChanges h := by rwa [hasChanges_merge] at h
  sendable h hv := by
    have hdatatype := TypeDef.datatype_merge p.definition other.definition
    rw [changed_value_merge]
    exact h ((TypeDef.hasValue_eq_of_datatype_eq hdatatype).symm.trans hv)

theorem tellsNoMore_applyValue {v : Value} (h : p.applyValue v = .ok p') : p.TellsNoMore p' := by
  unfold applyValue at h
  split at h <;> cases h
  exact ⟨by simp [hasChanges], by simp [Sendable]⟩

/-- A peer that puts a parameter into a group raises no flag. -/
theorem tellsNoMore_applyGroup (p : Parameter) (group : Option ParamId) :
    p.TellsNoMore (p.applyGroup group) := by
  unfold applyGroup
  split
  · exact ⟨by simp [hasChanges], fun h => h⟩
  · split
    · refine ⟨fun h => ?_, fun h => h⟩
      by_contra hp
      rw [Bool.not_eq_true, hasChanges_eq_false_iff] at hp
      simp [hasChanges, hp] at h
    · exact .refl p

end Parameter

namespace Registry

variable {r r' : Registry} {id x : ParamId}

/-! ## Flags and notes -/

/-- Whoever has changes is noted, and all of them can be sent. -/
structure Noted (r : Registry) : Prop where
  dirty : ∀ {x p}, r.get? x = some p → p.hasChanges = true → x ∈ r.dirty
  sendable : ∀ {x p}, r.get? x = some p → p.Sendable

namespace Noted

/-- Each parameter is noted now, or has nothing to tell that it had not before, and no note is
lost. -/
theorem of_get? (h : Noted r)
    (hstep : ∀ x p', r'.get? x = some p' →
      (p'.Sendable ∧ (p'.hasChanges = true → x ∈ r'.dirty)) ∨
        ∃ p, r.get? x = some p ∧ p.TellsNoMore p' ∧ (x ∈ r.dirty → x ∈ r'.dirty)) :
    Noted r' where
  dirty {x p'} hp' hchanges := by
    rcases hstep x p' hp' with ⟨-, hdirty⟩ | ⟨p, hp, htells, hkept⟩
    · exact hdirty hchanges
    · exact hkept (h.dirty hp (htells.hasChanges hchanges))
  sendable {x p'} hp' := by
    rcases hstep x p' hp' with ⟨hsendable, -⟩ | ⟨p, hp, htells, -⟩
    · exact hsendable
    · exact htells.sendable (h.sendable hp)

/-- A parameter takes the place of one that had as much to tell. -/
theorem of_insert (h : Noted r) {p p' : Parameter} (hp : r.get? id = some p)
    (htells : p.TellsNoMore p') : Noted { r with parameters := r.parameters.insert id p' } := by
  refine h.of_get? fun x q hq => .inr ?_
  rw [get?_of_insert rfl] at hq
  split at hq
  · next hx =>
    cases hq
    exact ⟨p, hx ▸ hp, htells, fun hmem => hmem⟩
  · exact ⟨q, hq, .refl q, fun hmem => hmem⟩

/-! ## Entering and moving -/

theorem tellsNoMore_entered (r : Registry) (p : Parameter) : p.TellsNoMore (r.entered p) := by
  unfold entered
  split
  · exact .refl p
  · exact p.tellsNoMore_applyGroup none

/-- A parameter that has nothing to tell is entered without a note. -/
theorem attach (h : Noted r) {p : Parameter} (hid : p.id ≠ .root) (hnew : r.get? p.id = none)
    (hp : p.hasChanges = false) : Noted (r.attach p) := by
  have htells := tellsNoMore_entered r p
  refine h.of_get? fun x p' hp' => ?_
  rcases get?_attach_cases hid hnew hp' with ⟨-, rfl⟩ | ⟨q, children, hq, rfl⟩
  · refine .inl ⟨htells.sendable (.of_not_hasChanges hp), fun hchanges => ?_⟩
    exact absurd (hp.symm.trans (htells.hasChanges hchanges)) Bool.false_ne_true
  · rw [dirty_attach]
    exact .inr ⟨q, hq, q.tellsNoMore_children children, fun hmem => hmem⟩

theorem create (h : Noted r) (hl : Ledger r) {definition : TypeDef} {group : Option ParamId}
    (hc : r.create definition group = .ok (id, r')) : Noted r' := by
  obtain ⟨target, -, hnext, rfl⟩ := create_ok hc
  obtain ⟨hroot, hnew, -⟩ := hl.fresh_nextId? hnext
  obtain ⟨f, hset, -⟩ := Parameter.setGroup_eq { id, definition } target
  obtain ⟨q, hq⟩ : ∃ q, Parameter.setGroup { id, definition } target = q := ⟨_, rfl⟩
  have hid : q.id = id := by rw [← hq, hset]
  have hsendable : q.Sendable := by
    rw [← hq, hset]
    exact fun _ => rfl
  rw [hq]
  refine h.of_get? fun x p' hp' => ?_
  have hp'' : (r.attach q).get? x = some p' := hp'
  rcases get?_attach_cases (hid ▸ hroot) (hid ▸ hnew) hp'' with ⟨rfl, rfl⟩ | ⟨p, children, hp, rfl⟩
  · refine .inl ⟨(tellsNoMore_entered r q).sendable hsendable, fun _ => ?_⟩
    exact IdSet.mem_insert_iff.2 (.inl hid)
  · refine .inr ⟨p, hp, p.tellsNoMore_children children,
      fun hmem => IdSet.mem_insert_iff.2 (.inr ?_)⟩
    rwa [dirty_attach]

/-- A peer that moves a parameter raises no flag. -/
theorem relink_peer (h : Noted r) {group : Option ParamId} {m : Registry}
    (hm : r.relink? id group .peer = some m) : Noted m := by
  have hdirty : m.dirty = r.dirty := by
    obtain ⟨p, -, -, rfl⟩ := relink?_eq_some hm
    rfl
  refine h.of_get? fun x p' hp' => .inr ?_
  obtain ⟨p, children, hp, rfl⟩ := get?_relink_cases hm hp'
  have htells := p.tellsNoMore_children children
  refine ⟨p, hp, ?_, fun hmem => hdirty ▸ hmem⟩
  split
  · exact htells.trans (Parameter.tellsNoMore_applyGroup _ group)
  · exact htells

theorem dirty_setDirty {p : Parameter} (hid : id ≠ .root) (hp : r.get? id = some p)
    (hremoved : id ∉ r.removed) : (r.setDirty id).dirty = r.dirty.insert id := by
  have hcond : ¬ (id.isRoot || r.removed.contains id || !r.parameters.contains id) = true := by
    simp [contains_eq_isSome, hp, hid, hremoved]
  rw [setDirty, if_neg hcond]

/-- A parameter that we move is noted. -/
theorem relink_here (h : Noted r) (ha : Apart r) (hid : id ≠ .root) {group : Option ParamId}
    {m : Registry} (hm : r.relink? id group .here = some m) : Noted (m.setDirty id) := by
  have hdirty : (m.setDirty id).dirty = r.dirty.insert id := by
    obtain ⟨q, hq, -, -⟩ := relink?_eq_some hm
    have hn := Notes.relink hm
    have halive : m.get? id ≠ none :=
      (contains_iff_ne_root.1 ((hn.contains id).trans
        (contains_iff_ne_root.2 ⟨hid, by rw [hq]; nofun⟩))).2
    obtain ⟨q', hq'⟩ := Option.ne_none_iff_exists'.1 halive
    -- who is there does not wait for its removal to be told, so the note is made
    rw [dirty_setDirty hid hq' (fun hmem => ?_)]
    · obtain ⟨p, -, -, rfl⟩ := relink?_eq_some hm
      rfl
    · rw [hn.removed] at hmem
      rw [(ha id hmem).2] at hq
      cases hq
  refine h.of_get? fun x p' hp' => ?_
  rw [get?, parameters_setDirty] at hp'
  obtain ⟨p, children, hp, rfl⟩ := get?_relink_cases hm hp'
  have htells := p.tellsNoMore_children children
  rw [hdirty]
  split
  · next hx =>
    obtain ⟨f, hf, -⟩ := Origin.place_eq group { p with children } .here
    rw [hf]
    exact .inl ⟨htells.sendable (h.sendable hp), fun _ => IdSet.mem_insert_iff.2 (.inl hx)⟩
  · exact .inr ⟨p, hp, htells, fun hmem => IdSet.mem_insert_iff.2 (.inr hmem)⟩

/-! ## Operations -/

theorem edit (h : Noted r) (hf : Forest r) (ha : Apart r) {accesses : List Parameter.Access}
    (hkeep : ∀ change, Parameter.Access.edit change ∈ accesses → change.KeepsDefinition)
    (he : r.edit id (fun p => (p.accessAll accesses, ())) = .ok (r', ())) : Noted r' := by
  obtain ⟨hid, p, hp, -, rfl⟩ := edit_ok he
  have hkey : (p.accessAll accesses).id = id :=
    (congrArg (·.1) (p.links_accessAll accesses)).trans (hf.keyed hp)
  have hremoved : r.removed.contains id = false := by
    rw [Bool.eq_false_iff, Ne, Std.ExtTreeSet.contains_iff_mem]
    intro hmem
    rw [(ha id hmem).2] at hp
    cases hp
  refine h.of_get? fun x q hq => ?_
  rw [get?_of_insert rfl] at hq
  dsimp only
  rw [hkey, hremoved]
  split at hq
  · next hx =>
    cases hq
    refine .inl ⟨Parameter.sendable_accessAll hkeep (h.sendable hp), fun hchanges => ?_⟩
    rw [hchanges]
    exact IdSet.mem_insert_iff.2 (.inl hx)
  · refine .inr ⟨q, hq, .refl q, fun hmem => ?_⟩
    split
    · exact IdSet.mem_insert_iff.2 (.inr hmem)
    · exact hmem

theorem evict (h : Noted r) (hf : Forest r) (hid : id ≠ .root) : Noted (r.evict id).1 := by
  cases hp : r.get? id with
  | none => rwa [evict_of_dead hp]
  | some p =>
    refine h.of_get? fun x p' hp' => .inr ?_
    have habove : ¬ Above r id x := by
      intro habove
      rw [hf.get?_evict_of_above hid hp habove] at hp'
      cases hp'
    have hkept : x ∈ r.dirty → x ∈ (r.evict id).1.dirty := fun hmem =>
      (hf.mem_dirty_evict hid hp).2 ⟨hmem, habove⟩
    rw [hf.get?_evict_of_not_above hid hp habove] at hp'
    split at hp'
    · obtain ⟨q, hq, rfl⟩ := Option.map_eq_some_iff.1 hp'
      exact ⟨q, hq, q.tellsNoMore_children _, hkept⟩
    · exact ⟨p', hp', .refl p', hkept⟩

theorem remove (h : Noted r) (hf : Forest r) {found : Bool}
    (hr : r.remove id = .ok (found, r')) : Noted r' := by
  obtain ⟨hid, ⟨-, -, rfl⟩ | ⟨-, -, -, rfl⟩⟩ := remove_ok hr
  · have hevict := h.evict hf hid
    exact ⟨hevict.dirty, hevict.sendable⟩
  · exact h

theorem merge (h : Noted r) {incoming : Parameter} (hin : incoming.hasChanges = false)
    {outcome : Merge} {notices : List Notice}
    (hm : r.merge incoming = .ok (outcome, r', notices)) : Noted r' := by
  obtain ⟨hid, ⟨hnew, rfl⟩ | ⟨p, hp, -, rfl⟩⟩ := merge_ok hm
  · exact h.attach hid hnew hin
  · have hover : Noted (r.overlay p incoming) := h.of_insert hp (p.tellsNoMore_merge incoming)
    cases hf : (r.overlay p incoming).follow? incoming.id incoming.parent.value with
    | none => exact hover
    | some m =>
      obtain ⟨-, -, hm'⟩ := follow?_eq_some hf
      exact hover.relink_peer hm'

/-- A tick resets every flag of those who are noted, and nobody else has any. -/
theorem encodeDirty (h : Noted r) {p : Parameter} (hp : r.encodeDirty.2.get? x = some p) :
    p.Sendable ∧ p.hasChanges = false := by
  rw [get?_encodeDirty] at hp
  split at hp
  · obtain ⟨q, hq, rfl⟩ := Option.map_eq_some_iff.1 hp
    have hsendable := h.sendable hq
    exact ⟨Parameter.sendable_sent hsendable, Parameter.hasChanges_sent hsendable⟩
  · next hx =>
    refine ⟨h.sendable hp, ?_⟩
    by_contra hchanges
    exact hx (h.dirty hp (Bool.not_eq_false _ ▸ hchanges))

/-- The root, which is never noted, has nothing to tell. -/
theorem clear (h : Noted r) (hf : Forest r) (hl : Ledger r) : Noted r.clear := by
  have hroot := hf.root_eq.1
  have hunchanged : ¬ r.root.hasChanges = true := fun hchanges => by
    have := hl.dirty _ (h.dirty hroot hchanges)
    simp [contains] at this
  constructor
  · intro x p hp hchanges
    rw [get?_clear] at hp
    split at hp <;> cases hp
    exact absurd hchanges hunchanged
  · intro x p hp
    rw [get?_clear] at hp
    split at hp <;> cases hp
    have hsendable : r.root.Sendable := h.sendable hroot
    exact hsendable

theorem new : Noted .new := by
  constructor
  · intro x p hp hchanges
    rw [get?_new] at hp
    split at hp <;> cases hp
    cases hchanges
  · intro x p hp
    rw [get?_new] at hp
    split at hp <;> cases hp
    exact fun _ => rfl

end Noted

namespace Op

/-- An operation that keeps definitions, though they may be made in any way, and by which only
parameters come that were read, and nobody whose removal is to be told. -/
def Heeds (r : Registry) : Op → Prop
  | edit _ accesses => ∀ change, Parameter.Access.edit change ∈ accesses → change.KeepsDefinition
  | merge incoming => incoming.Read ∧ incoming.id ∉ r.removed
  | _ => True

theorem Heeds.childless {op : Op} (h : op.Heeds r) : op.Childless := by
  cases op with
  | merge incoming => exact h.1.fresh.acceptable.childless
  | _ => trivial

end Op

/-- Every operation keeps flags and notes in step. -/
theorem Noted.perform (h : Noted r) (hf : Forest r) (hl : Ledger r) (ha : Apart r) {op : Op}
    (hop : op.Heeds r) : Noted (r.perform op) := by
  cases op with
  | create definition group => exact of_orSame h fun _ hok => h.create hl hok
  | createGroup group => exact of_orSame h fun _ hok => h.create hl hok
  | edit id accesses => exact of_orSame h fun _ hok => h.edit hf ha hop hok
  | setDirty id =>
    refine h.of_get? fun x p hp => .inr ⟨p, ?_, .refl p, fun hmem => ?_⟩
    · replace hp : (r.setDirty id).parameters[x]? = some p := hp
      rwa [parameters_setDirty] at hp
    · show x ∈ (r.setDirty id).dirty
      unfold setDirty
      split
      · exact hmem
      · exact IdSet.mem_insert_iff.2 (.inr hmem)
  | move id group =>
    refine of_orSame h fun _ hok => ?_
    obtain ⟨hid, -, -, ⟨-, rfl⟩ | ⟨m, hm, rfl⟩⟩ := move_ok hok
    · exact h
    · exact h.relink_here ha hid hm
  | remove id => exact of_orSame h fun _ hok => h.remove hf hok
  | removeDirect id =>
    show Noted (r.removeDirect id).1
    unfold removeDirect
    split
    · exact h
    · next hid => exact h.evict hf (by simpa using hid)
  | merge incoming => exact of_orSame h fun _ hok => h.merge hop.1.fresh.unchanged hok
  | applyValue u =>
    refine of_orSame h ?_
    rintro ⟨applied, r', notices⟩ hok
    obtain ⟨p, p', hp, -, hp', rfl⟩ := applyValue_ok hok
    exact h.of_insert hp (Parameter.tellsNoMore_applyValue hp')
  | encodeDirty =>
    refine ⟨fun hp hchanges => ?_, fun hp => (h.encodeDirty hp).1⟩
    rw [(h.encodeDirty hp).2] at hchanges
    cases hchanges
  | encodeRemoved => exact ⟨h.dirty, h.sendable⟩
  | encodeAll => rwa [perform_encodeAll]
  | clear => exact h.clear hf hl

/-! ## Runs -/

theorem Reachable.noted (h : Reachable (fun r op => op.Heeds r) r) :
    Forest r ∧ Ledger r ∧ Noted r := by
  suffices hall : Forest r ∧ Ledger r ∧ Apart r ∧ Noted r from
    ⟨hall.1, hall.2.1, hall.2.2.2⟩
  refine h.invariant (I := fun r => Forest r ∧ Ledger r ∧ Apart r ∧ Noted r)
    ⟨.new, .of_root rfl rfl rfl rfl, apart_new, .new⟩ ?_
  rintro r op ⟨hf, hl, ha, hn⟩ hop
  refine ⟨hf.perform op hop.childless, hl.perform hf op, (apart_perform_iff ha op).2 ?_,
    hn.perform hf hl ha hop⟩
  rintro p rfl
  exact hop.2

/-- Along every run that merges nobody whose removal is to be told, whoever has changes is noted as
dirty. A tick then makes one delta packet for each that is dirty, in ascending order, and afterwards
nobody is dirty and nobody has changes. -/
theorem Reachable.no_change_lost (h : Reachable (fun r op => op.Heeds r) r) :
    (∀ id p, id ≠ .root → r.get? id = some p → p.hasChanges = true → id ∈ r.dirty) ∧
      (∃ ps : List Parameter, r.encodeDirty.1 = ps.map (Packet.encodeUpdate · false) ∧
        (∀ p ∈ ps, r.get? p.id = some p) ∧ ps.map (·.id) = r.dirty.toList ∧
        (ps.map (·.id.val)).Pairwise (· < ·)) ∧
      r.encodeDirty.2.dirty = ∅ ∧
      ∀ id p, r.encodeDirty.2.get? id = some p → p.hasChanges = false := by
  obtain ⟨hf, hl, hn⟩ := h.noted
  have hids : r.unsent.map (·.id) = r.dirty.toList := map_id_unsent hf.keyed fun x hx =>
    Option.ne_none_iff_exists'.1 (contains_iff_ne_root.1 (hl.dirty x hx)).2
  refine ⟨fun id p _ hp => hn.dirty hp, ⟨r.unsent, r.encodeDirty_eq_map, fun p hp => ?_, ?_, ?_⟩,
    rfl, fun id p hp => (hn.encodeDirty hp).2⟩
  · exact (mem_unsent hf.keyed hp).2
  · exact hids
  · have hsorted := pairwise_lt_toList r.dirty
    rw [← hids, List.pairwise_map] at hsorted
    refine List.pairwise_map.2 (hsorted.imp fun {p q} hlt => ?_)
    have hval : compare p.id.val q.id.val = .lt := hlt
    exact Std.compare_eq_lt.1 hval

theorem read_flag : flag.Read := by
  have hlegible : flag.Legible true := ⟨trivial, by simp [flag, LocalizedText.Legible],
    by simp [flag, LocalizedText.Legible]⟩
  exact hlegible.read rfl

/-- A flag comes from a peer; we make another parameter, and set the flag. -/
def answer : List Op :=
  [.merge flag, .create (.number .int32 {}) none, .edit ⟨1⟩ [.edit (.value (some (.boolean true)))]]

theorem no_change_lost_answer :
    (∀ id p, id ≠ .root → (new.performAll answer).get? id = some p → p.hasChanges = true →
        id ∈ (new.performAll answer).dirty) ∧
      (∃ ps : List Parameter,
        (new.performAll answer).encodeDirty.1 = ps.map (Packet.encodeUpdate · false) ∧
        (∀ p ∈ ps, (new.performAll answer).get? p.id = some p) ∧
        ps.map (·.id) = (new.performAll answer).dirty.toList ∧
        (ps.map (·.id.val)).Pairwise (· < ·)) ∧
      (new.performAll answer).encodeDirty.2.dirty = ∅ ∧
      ∀ id p, (new.performAll answer).encodeDirty.2.get? id = some p → p.hasChanges = false := by
  have hmerge : (Op.merge flag).Heeds .new := ⟨read_flag, Std.ExtTreeSet.not_mem_empty⟩
  have hedit : ∀ r, (Op.edit ⟨1⟩ [.edit (.value (some (.boolean true)))]).Heeds r := by
    intro r change hchange
    obtain rfl : change = .value (some (.boolean true)) := by simpa using hchange
    trivial
  have hmade := (Reachable.new.step _ hmerge).step (.create (.number .int32 {}) none) trivial
  exact Reachable.no_change_lost (hmade.step _ (hedit _))

end Registry
end ParamSync
