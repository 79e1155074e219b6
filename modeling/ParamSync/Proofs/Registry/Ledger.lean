import ParamSync.Proofs.Registry.Pending

/-!
# The books that a registry keeps

Beside the parameters a registry keeps three sets: the slots that are taken, the parameters that
have changes to tell, and the identifiers whose removal is to be told. They are written by different
operations, of our own and of peers, and so they could drift apart from the parameters and from each
other. `Ledger` says that they do not.

An operation does one of three things: it changes parameters where they are, it enters one, or it
takes a subtree out. `Notes` is the first of these, where at most somebody is noted who is there and
whose removal is not to be told.

Results:
* `Ledger.of_notes`, `Ledger.attach`, `Ledger.evict`: each of the three keeps the books right.
* `Ledger.perform`: so does every operation.
* `Reachable.ledger`: they are right along every run.
-/

namespace ParamSync
namespace Registry

variable {r r' r'' : Registry} {id x : ParamId}

theorem contains_of_isSome_eq (h : (r'.get? x).isSome = (r.get? x).isSome) :
    r'.contains x = r.contains x := by
  rw [contains, contains, contains_eq_isSome, contains_eq_isSome, h]

/-- The taken slots are those of the parameters that are there, and of nobody else. Whoever is noted
as dirty is there, and its removal is not to be told. The root is in none of the books. -/
structure Ledger (r : Registry) : Prop where
  reserved : ∀ x : ParamId, x.slot ∈ r.reserved ↔ r.contains x = true
  dirty : ∀ x ∈ r.dirty, r.contains x = true
  disjoint : ∀ x ∈ r.dirty, x ∉ r.removed
  root : .root ∉ r.removed

/-! ## Changes in place -/

/-- The same parameters are there, and at most one of them is noted whose removal is not to be
told. -/
structure Notes (r r' : Registry) : Prop where
  contains : ∀ x, r'.contains x = r.contains x
  reserved : r'.reserved = r.reserved
  dirty : ∀ x ∈ r'.dirty, x ∈ r.dirty ∨ r.contains x = true ∧ x ∉ r.removed
  removed : r'.removed = r.removed

namespace Notes

theorem refl (r : Registry) : Notes r r := ⟨fun _ => rfl, rfl, fun _ hx => .inl hx, rfl⟩

theorem trans (h : Notes r r') (h' : Notes r' r'') : Notes r r'' where
  contains x := (h'.contains x).trans (h.contains x)
  reserved := h'.reserved.trans h.reserved
  dirty x hx := by
    rcases h'.dirty x hx with hx | ⟨hc, hr⟩
    · exact h.dirty x hx
    · exact .inr ⟨(h.contains x).symm.trans hc, h.removed ▸ hr⟩
  removed := h'.removed.trans h.removed

/-- A parameter takes the place of another one, and nobody is noted. -/
theorem of_insert {p p' : Parameter} (hp : r.get? id = some p) :
    Notes r { r with parameters := r.parameters.insert id p' } where
  contains x := by
    refine contains_of_isSome_eq ?_
    rw [get?_of_insert rfl]
    split
    · next hx => rw [hx, hp]; rfl
    · rfl
  reserved := rfl
  dirty _ hx := .inl hx
  removed := rfl

theorem setDirty (r : Registry) (id : ParamId) : Notes r (r.setDirty id) := by
  unfold Registry.setDirty
  split
  · exact .refl r
  · next hcond =>
    rw [Bool.or_eq_true, Bool.or_eq_true, not_or, not_or, Bool.not_eq_true, Bool.not_eq_true,
      Bool.not_eq_true', Bool.not_eq_false] at hcond
    obtain ⟨⟨hroot, hremoved⟩, halive⟩ := hcond
    refine ⟨fun _ => rfl, rfl, fun x hx => ?_, rfl⟩
    rcases IdSet.mem_insert_iff.1 hx with rfl | hx
    · refine .inr ⟨?_, fun hmem => ?_⟩
      · rw [Registry.contains, hroot, halive]
        rfl
      · rw [Std.ExtTreeSet.contains_iff_mem.2 hmem] at hremoved
        cases hremoved
    · exact .inl hx

theorem relink {group : Option ParamId} {origin : Origin} {m : Registry}
    (h : r.relink? id group origin = some m) : Notes r m := by
  have hcontains : ∀ x, m.contains x = r.contains x := by
    intro x
    obtain ⟨f, -, hget⟩ := get?_relink h x
    refine contains_of_isSome_eq ?_
    rw [hget]
    split <;> rw [Option.isSome_map]
  obtain ⟨p, -, -, rfl⟩ := relink?_eq_some h
  exact ⟨hcontains, rfl, fun _ hx => .inl hx, rfl⟩

/-- Whoever is borrowed is noted under its own identifier. -/
theorem edit {α : Type} (hkeyed : r.Keyed) {f : Parameter → Parameter × α} {a : α}
    (hf : ∀ p, (f p).1.id = p.id) (h : r.edit id f = .ok (r', a)) : Notes r r' := by
  obtain ⟨hid, p, hp, -, rfl⟩ := edit_ok h
  have hinsert : Notes r { r with parameters := r.parameters.insert id (f p).1 } := of_insert hp
  refine ⟨hinsert.contains, rfl, fun x hx => ?_, rfl⟩
  dsimp only at hx
  rw [hf, hkeyed hp] at hx
  split at hx
  · next hcond =>
    rcases IdSet.mem_insert_iff.1 hx with rfl | hx
    · rw [Bool.and_eq_true, Bool.not_eq_true'] at hcond
      refine .inr ⟨contains_iff_ne_root.2 ⟨hid, by rw [hp]; nofun⟩, fun hmem => ?_⟩
      rw [Std.ExtTreeSet.contains_iff_mem.2 hmem] at hcond
      cases hcond.2
    · exact .inl hx
  · exact .inl hx

end Notes

namespace Ledger

theorem of_notes (h : Ledger r) (hn : Notes r r') : Ledger r' where
  reserved x := by rw [hn.reserved, hn.contains, h.reserved]
  dirty x hx := by
    rw [hn.contains]
    rcases hn.dirty x hx with hx | hx
    · exact h.dirty x hx
    · exact hx.1
  disjoint x hx := by
    rw [hn.removed]
    rcases hn.dirty x hx with hx | hx
    · exact h.disjoint x hx
    · exact hx.2
  root := by
    rw [hn.removed]
    exact h.root

/-! ## Entering a parameter -/

theorem attach (h : Ledger r) {p : Parameter} (hid : p.id ≠ .root) (hnew : r.get? p.id = none) :
    Ledger (r.attach p) := by
  have hcontains : ∀ x, (r.attach p).contains x = true ↔ x = p.id ∨ r.contains x = true := by
    intro x
    rw [contains_iff_ne_root, contains_iff_ne_root, get?_attach hid hnew]
    by_cases hx : x = p.id
    · simp [hx, hid]
    · rw [if_neg hx]
      split <;> simp [hx]
  constructor
  · intro x
    -- the books have slots, of which each is that of one identifier
    have hslot : p.id.slot = x.slot ↔ x = p.id :=
      ⟨fun heq => by rw [← ParamId.ofSlot_slot x, ← heq, ParamId.ofSlot_slot],
        fun heq => by rw [heq]⟩
    rw [reserved_attach hid hnew, Std.ExtTreeSet.mem_insert, Std.compare_eq_iff_eq, hcontains,
      hslot, h.reserved]
  · intro x hx
    rw [dirty_attach] at hx
    exact (hcontains x).2 (.inr (h.dirty x hx))
  · intro x hx
    rw [dirty_attach] at hx
    rw [removed_attach]
    exact h.disjoint x hx
  · rw [removed_attach]
    exact h.root

/-- The identifier that a created parameter gets is nobody's, and no removal of it is to be told. -/
theorem fresh_nextId? (h : Ledger r) (hnext : r.nextId? = some id) :
    id ≠ .root ∧ r.get? id = none ∧ id ∉ r.removed := by
  obtain ⟨⟨hroot, hfree⟩, -⟩ := nextId?_eq_some_iff.1 hnext
  obtain ⟨hreserved, hremoved⟩ := isFree_iff.1 hfree
  refine ⟨hroot, ?_, hremoved⟩
  by_contra hget
  exact hreserved ((h.reserved id).2 (contains_iff_ne_root.2 ⟨hroot, hget⟩))

theorem create (h : Ledger r) {definition : TypeDef} {group : Option ParamId}
    (hc : r.create definition group = .ok (id, r')) : Ledger r' := by
  obtain ⟨target, -, hnext, rfl⟩ := create_ok hc
  obtain ⟨hroot, hnew, hremoved⟩ := h.fresh_nextId? hnext
  obtain ⟨q, hq⟩ : ∃ q, Parameter.setGroup { id, definition } target = q := ⟨_, rfl⟩
  have hid : q.id = id :=
    hq ▸ congrArg (·.1) (Parameter.links_setGroup { id, definition } target)
  rw [hq]
  have hattach := h.attach (hid ▸ hroot) (hid ▸ hnew)
  refine hattach.of_notes ⟨fun _ => rfl, rfl, fun x hx => ?_, rfl⟩
  rcases IdSet.mem_insert_iff.1 hx with rfl | hx
  · refine .inr ⟨contains_iff_ne_root.2 ⟨hroot, ?_⟩, by rwa [removed_attach]⟩
    rw [get?_attach (hid ▸ hroot) (hid ▸ hnew), if_pos hid.symm]
    nofun
  · exact .inl hx

/-! ## Taking a subtree out -/

theorem evict (h : Ledger r) (hf : Forest r) (hid : id ≠ .root) : Ledger (r.evict id).1 := by
  cases hp : r.get? id with
  | none => rwa [evict_of_dead hp]
  | some p =>
    have hcontains : ∀ x, (r.evict id).1.contains x = true ↔
        r.contains x = true ∧ ¬ Above r id x := by
      intro x
      have halive : (r.evict id).1.get? x ≠ none ↔ r.get? x ≠ none ∧ ¬ Above r id x :=
        (not_congr (hf.evicted_iff hid hp)).trans not_or
      rw [contains_iff_ne_root, contains_iff_ne_root, halive, and_assoc]
    constructor
    · intro x
      rw [hf.mem_reserved_evict hid hp, ParamId.ofSlot_slot, h.reserved, hcontains]
    · intro x hx
      obtain ⟨hx, habove⟩ := (hf.mem_dirty_evict hid hp).1 hx
      exact (hcontains x).2 ⟨h.dirty x hx, habove⟩
    · intro x hx
      rw [removed_evict]
      exact h.disjoint x ((hf.mem_dirty_evict hid hp).1 hx).1
    · rw [removed_evict]
      exact h.root

theorem remove (h : Ledger r) (hf : Forest r) {found : Bool}
    (hr : r.remove id = .ok (found, r')) : Ledger r' := by
  obtain ⟨hid, ⟨-, ⟨p, hp⟩, rfl⟩ | ⟨-, -, -, rfl⟩⟩ := remove_ok hr
  · have hevict := h.evict hf hid
    refine ⟨hevict.reserved, hevict.dirty, fun x hx hmem => ?_, fun hmem => ?_⟩
    · -- who is taken out is not noted any more
      obtain ⟨hdirty, habove⟩ := (hf.mem_dirty_evict hid hp).1 hx
      rcases IdSet.mem_insert_iff.1 hmem with rfl | hmem
      · exact habove (hf.above_self hid hp)
      · exact h.disjoint x hdirty hmem
    · rcases IdSet.mem_insert_iff.1 hmem with heq | hmem
      · exact hid heq.symm
      · exact h.root hmem
  · exact h

theorem of_root {p : Parameter} (hparameters : r.parameters = (∅ : IdMap Parameter).insert .root p)
    (hreserved : r.reserved = ∅) (hdirty : r.dirty = ∅) (hremoved : r.removed = ∅) : Ledger r := by
  constructor
  · intro x
    rw [hreserved, contains_iff_ne_root, get?_of_root hparameters]
    by_cases hx : x = .root <;> simp [hx]
  · intro x hx
    rw [hdirty] at hx
    simp at hx
  · intro x hx
    rw [hdirty] at hx
    simp at hx
  · rw [hremoved]
    simp

/-! ## Operations -/

theorem merge (h : Ledger r) {incoming : Parameter} {outcome : Merge} {notices : List Notice}
    (hm : r.merge incoming = .ok (outcome, r', notices)) : Ledger r' := by
  obtain ⟨hid, ⟨hnew, rfl⟩ | ⟨p, hp, -, rfl⟩⟩ := merge_ok hm
  · exact h.attach hid hnew
  · have hover : Notes r (r.overlay p incoming) := .of_insert hp
    cases hf : (r.overlay p incoming).follow? incoming.id incoming.parent.value with
    | none => exact h.of_notes hover
    | some m =>
      obtain ⟨-, -, hm'⟩ := follow?_eq_some hf
      exact h.of_notes (hover.trans (.relink hm'))

theorem perform (h : Ledger r) (hf : Forest r) (op : Op) : Ledger (r.perform op) := by
  cases op with
  | create definition group => exact of_orSame h fun _ hok => h.create hok
  | createGroup group => exact of_orSame h fun _ hok => h.create hok
  | edit id accesses =>
    refine of_orSame h fun _ hok => h.of_notes (.edit hf.keyed (fun p => ?_) hok)
    exact congrArg (·.1) (p.links_accessAll accesses)
  | setDirty id => exact h.of_notes (.setDirty r id)
  | move id group =>
    refine of_orSame h fun _ hok => ?_
    obtain ⟨-, -, -, ⟨-, rfl⟩ | ⟨m, hm, rfl⟩⟩ := move_ok hok
    · exact h
    · exact h.of_notes ((Notes.relink hm).trans (.setDirty m id))
  | remove id => exact of_orSame h fun _ hok => h.remove hf hok
  | removeDirect id =>
    show Ledger (r.removeDirect id).1
    unfold removeDirect
    split
    · exact h
    · next hid => exact h.evict hf (by simpa using hid)
  | merge incoming => exact of_orSame h fun _ hok => h.merge hok
  | applyValue u =>
    refine of_orSame h ?_
    rintro ⟨applied, r', notices⟩ hok
    obtain ⟨p, p', hp, -, -, rfl⟩ := applyValue_ok hok
    exact h.of_notes (.of_insert hp)
  | encodeDirty =>
    refine h.of_notes ⟨fun x => ?_, rfl, fun x hx => absurd hx Std.ExtTreeSet.not_mem_empty, rfl⟩
    refine contains_of_isSome_eq ?_
    show (r.encodeDirty.2.get? x).isSome = _
    rw [get?_encodeDirty]
    split
    · rw [Option.isSome_map]
    · rfl
  | encodeRemoved =>
    exact ⟨h.reserved, h.dirty, fun x _ => Std.ExtTreeSet.not_mem_empty,
      Std.ExtTreeSet.not_mem_empty⟩
  | encodeAll => rwa [perform_encodeAll]
  | clear => exact of_root rfl rfl rfl rfl

end Ledger

/-! ## Runs -/

theorem Reachable.ledger {allowed : Registry → Op → Prop} (h : Reachable allowed r)
    (hc : ∀ r op, allowed r op → op.Childless) : Ledger r := by
  refine (h.invariant (I := fun r => Forest r ∧ Ledger r)
    ⟨.new, .of_root rfl rfl rfl rfl⟩ ?_).2
  rintro r op ⟨hf, hl⟩ hop
  exact ⟨hf.perform op (hc r op hop), hl.perform hf op⟩

/-- Along every run in which parameters of peers come without members, the taken slots are exactly
those of the parameters that are there; whoever is dirty is there and does not wait for its removal
to be told; and the root is always there, and in none of the three sets. -/
theorem Reachable.books_agree (h : Reachable (fun _ => Op.Childless) r) :
    (∀ slot, slot ∈ r.reserved ↔ ∃ id : ParamId, r.contains id = true ∧ id.slot = slot) ∧
      (∀ id ∈ r.dirty, r.contains id = true) ∧
      (∀ id ∈ r.dirty, id ∉ r.removed) ∧
      (ParamId.root.slot ∉ r.reserved ∧ .root ∉ r.dirty ∧ .root ∉ r.removed) ∧
      ∃ p, r.get? .root = some p := by
  have hl := h.ledger fun _ _ hop => hop
  have hroot : r.contains .root ≠ true := by simp [contains]
  have hnowhere : ParamId.root.slot ∉ r.reserved ∧ .root ∉ r.dirty ∧ .root ∉ r.removed :=
    ⟨fun hslot => hroot ((hl.reserved _).1 hslot), fun hmem => hroot (hl.dirty _ hmem), hl.root⟩
  refine ⟨fun slot => ⟨fun hslot => ?_, ?_⟩, hl.dirty, hl.disjoint, hnowhere, ?_⟩
  · rw [← ParamId.slot_ofSlot slot] at hslot
    exact ⟨.ofSlot slot, (hl.reserved _).1 hslot, ParamId.slot_ofSlot slot⟩
  · rintro ⟨id, hid, rfl⟩
    exact (hl.reserved id).2 hid
  · exact ⟨_, (h.forest fun _ _ hop => hop).root_eq.1⟩

/-- A group with a member is removed, and a peer sends a flag with the identifier of the group. -/
def regrowth : List Op :=
  [.createGroup none, .create (.boolean {}) (some ⟨1⟩), .remove ⟨1⟩, .merge flag, .setDirty ⟨1⟩]

theorem books_agree_regrowth :
    (∀ slot, slot ∈ (new.performAll regrowth).reserved ↔
        ∃ id : ParamId, (new.performAll regrowth).contains id = true ∧ id.slot = slot) ∧
      (∀ id ∈ (new.performAll regrowth).dirty, (new.performAll regrowth).contains id = true) ∧
      (∀ id ∈ (new.performAll regrowth).dirty, id ∉ (new.performAll regrowth).removed) ∧
      (ParamId.root.slot ∉ (new.performAll regrowth).reserved ∧
        .root ∉ (new.performAll regrowth).dirty ∧ .root ∉ (new.performAll regrowth).removed) ∧
      ∃ p, (new.performAll regrowth).get? .root = some p :=
  Reachable.books_agree (Reachable.new.performAll fun op hop _ => by
    revert op
    simp [regrowth, Op.Childless, flag])

end Registry
end ParamSync
