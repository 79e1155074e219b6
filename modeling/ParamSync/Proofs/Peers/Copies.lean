import ParamSync.Proofs.Codec.Incoming
import ParamSync.Proofs.Codec.RoundTrip
import ParamSync.Proofs.Peers.Receive
import ParamSync.Proofs.Registry.Backlog
import ParamSync.Proofs.Registry.Likeness

/-!
# A number and its copies

A number of which nothing but the value is changed. What a client does with it comes down to what it
does with one field: it is set by an edit, sent by a tick, and a value that an update brings is
applied to it. There is something to tell exactly if the field has changed.

Results:
* `Copy.edit`, `Copy.exists_encode`, `Copy.merge`: what the operations do to the field.
* `Holds.merge`: what an update does where there is nothing to tell.
-/

namespace ParamSync

/-! ## Changes apart from the value -/

namespace Parameter

variable {p : Parameter}

/-- Nothing but the value has changed. -/
def Calm (p : Parameter) : Prop := ({ p with value := {} } : Parameter).hasChanges = false

theorem calm_iff : p.Calm ↔ p.label.changed = false ∧ p.description.changed = false ∧
    p.tags.changed = false ∧ p.order.changed = false ∧ p.parent.changed = false ∧
    p.userData.changed = false ∧ p.userId.changed = false ∧ p.definition.hasChanges = false := by
  simp [Calm, hasChanges, and_assoc]

theorem calm_of_not_hasChanges (h : p.hasChanges = false) :
    p.Calm ∧ p.value.changed = false := by
  rw [hasChanges] at h
  simp only [Bool.or_eq_false_iff] at h
  simp [calm_iff, h]

theorem Calm.hasChanges (h : p.Calm) : p.hasChanges = p.value.changed := by
  rw [calm_iff] at h
  simp [Parameter.hasChanges, h]

theorem calm_sent (p : Parameter) : p.sent.Calm :=
  calm_iff.2 ⟨rfl, rfl, rfl, rfl, rfl, rfl, rfl, p.definition.hasChanges_sent⟩

theorem Calm.merge (h : p.Calm) (other : Parameter) : (p.merge other).Calm := by
  rw [calm_iff] at h ⊢
  simp only [Parameter.merge, Field.changed_merge, TypeDef.hasChanges_merge]
  exact h

theorem Calm.legible (h : p.Calm) (hd : p.definition.WellFormed) : p.Legible false := by
  obtain ⟨hlabel, hdescription, -⟩ := calm_iff.1 h
  exact ⟨hd, by simp [hlabel], by simp [hdescription]⟩

end Parameter

/-! ## Numbers -/

variable {x : ParamId} {k : NumberKind} {data : Bytes} {v : Value}

/-- A number accepts every number of its kind. -/
theorem TypeDef.accepts_number {d : TypeDef} (h : d.datatype = .number k) (n : Number k) :
    d.accepts (.number k n) = true := by
  obtain ⟨e, rfl⟩ := eq_number h
  simp [accepts, Scalar.accepts, Scalar.ofValue?]

/-- Setting a number changes its value alone. -/
theorem Parameter.accessAll_number {p : Parameter} (h : p.datatype = .number k) (n : Number k) :
    p.accessAll [.edit (.value (some (.number k n)))] =
      { p with value := p.value.set (.number k n) } := by
  have haccepts := TypeDef.accepts_number h n
  obtain ⟨e, hd⟩ := TypeDef.eq_number h
  have hset : p.setValue (.number k n) = .ok { p with value := p.value.set (.number k n) } := by
    rw [setValue, haccepts, hd]
    rfl
  simp only [accessAll, List.foldl_cons, List.foldl_nil, access, edit, hset]

/-- An update that brings a value of the number `x`, and does not move it. -/
structure Packet.Brings (x : ParamId) (k : NumberKind) (data : Bytes) (v : Value) (q : Parameter) :
    Prop where
  read : update? data = some q
  id : q.id = x
  datatype : q.datatype = .number k
  parent : q.parent.value = none
  value : q.value.value = some v
  fits : ∃ n : Number k, v = .number k n

/-- The value that an update brings is applied. -/
theorem Packet.Brings.value_merge {p q : Parameter} (h : Brings x k data v q)
    (hp : p.datatype = .number k) : (p.merge q).value = p.value.apply v := by
  obtain ⟨n, rfl⟩ := h.fits
  have hacceptable : p.acceptable q = some (.number k n) := by
    rw [Parameter.acceptable, h.value, Option.filter_some, if_pos (TypeDef.accepts_number hp n)]
  rw [Parameter.merge, hacceptable]

/-- What is told of a number of which nothing but the value has changed. -/
theorem Parameter.Calm.brings {p : Parameter} {n : Number k} (h : p.Calm)
    (hd : p.datatype = .number k) (hchanged : p.value.changed = true)
    (hn : p.value.value = some (.number k n)) :
    Packet.Brings p.id k (Packet.encodeUpdate p false) (.number k n) (p.heard false) := by
  obtain ⟨e, hnumber⟩ := TypeDef.eq_number hd
  have hwell : p.definition.WellFormed := by rw [hnumber]; exact trivial
  have hparent : (p.heard false).parent.value = none := by
    refine (Field.value_heard_false p.parent .root).trans ?_
    rw [(calm_iff.1 h).2.2.2.2.1]
    rfl
  have hvalue : (p.heard false).value.value = some (.number k n) := by
    have hheard : (TypeDef.number k e).heardValue (.number k n) = .number k n := by
      simp [TypeDef.heardValue, TypeDef.heardScalar, Scalar.ofValue?, Scalar.toValue]
    have hfield := Field.value_heard_false p.value ((TypeDef.number k e).zero?.getD (.bytes []))
    rw [if_pos hchanged, hn, Option.getD_some] at hfield
    rw [heard, hnumber]
    show (Field.value _).map _ = _
    rw [hfield, Option.map_some, hheard]
  exact ⟨Packet.update?_encodeUpdate (h.legible hwell), rfl, (p.datatype_heard false).trans hd,
    hparent, hvalue, n, rfl⟩

namespace Registry

variable {r : Registry} {f : Field Value} {q : Parameter}

/-! ## At the server -/

/-- The number `x` is there and holds `f`. -/
def Holds (r : Registry) (x : ParamId) (k : NumberKind) (f : Field Value) : Prop :=
  ∃ p, r.get? x = some p ∧ p.datatype = .number k ∧ p.value = f

/-- The value of a parameter, if it is there and has one. -/
def value? (r : Registry) (x : ParamId) : Option Value := (r.get? x).bind (·.value.value)

theorem Holds.value?_eq (h : r.Holds x k f) : r.value? x = f.value := by
  obtain ⟨p, hp, -, rfl⟩ := h
  rw [value?, hp]
  rfl

theorem Holds.merge (hx : x ≠ .root) (h : r.Holds x k f) (hq : Packet.Brings x k data v q) :
    (∃ result, r.merge q = .ok result) ∧ (r.perform (.merge q)).Holds x k (f.apply v) := by
  obtain ⟨p, hp, hd, rfl⟩ := h
  obtain rfl := hq.id
  have hdatatype : p.datatype = q.datatype := hd.trans hq.datatype.symm
  obtain ⟨outcome, notices, hmerge⟩ := exists_merge_of_known hx hp hdatatype
  refine ⟨⟨_, hmerge⟩, p.merge q, ?_, (TypeDef.datatype_merge _ _).trans hd, hq.value_merge hd⟩
  rw [perform_merge_silent hx hp hdatatype hq.parent]
  exact (get?_of_insert rfl q.id).trans (if_pos rfl)

/-! ## At a client -/

/-- The number `x` is there and holds `f`, and nothing else was changed here. -/
structure Copy (r : Registry) (x : ParamId) (k : NumberKind) (f : Field Value) : Prop where
  holds : ∃ p, r.get? x = some p ∧ p.id = x ∧ p.datatype = .number k ∧ p.value = f ∧ p.Calm
  dirty : ∀ y, y ∈ r.dirty ↔ y = x ∧ f.changed = true
  removed : r.removed = ∅
  fits : f.changed = true → ∃ n : Number k, f.value = some (.number k n)

namespace Copy

theorem value?_eq (h : r.Copy x k f) : r.value? x = f.value := by
  obtain ⟨p, hp, -, -, rfl, -⟩ := h.holds
  rw [value?, hp]
  rfl

theorem hasPending_eq (h : r.Copy x k f) : r.hasPending = f.changed := by
  cases hf : f.changed with
  | false =>
    refine hasPending_eq_false_iff.2 ⟨Std.ExtTreeSet.eq_empty_iff_forall_not_mem.2 fun y hy => ?_,
      h.removed⟩
    have hchanged := ((h.dirty y).1 hy).2
    rw [hf] at hchanged
    cases hchanged
  | true =>
    refine eq_true_of_ne_false fun hquiet => ?_
    have hmem := (h.dirty x).2 ⟨rfl, hf⟩
    rw [(hasPending_eq_false_iff.1 hquiet).1] at hmem
    exact Std.ExtTreeSet.not_mem_empty hmem

/-- An edit sets the field. -/
theorem edit (hx : x ≠ .root) (h : r.Copy x k f) (n : Number k) :
    (r.perform (.edit x [.edit (.value (some (.number k n)))])).Copy x k
      (f.set (.number k n)) := by
  obtain ⟨p, hp, hid, hd, rfl, hcalm⟩ := h.holds
  have hcalm' : ({ p with value := p.value.set (.number k n) } : Parameter).Calm := hcalm
  have hget : (r.perform (.edit x [.edit (.value (some (.number k n)))])).get? x =
      some { p with value := p.value.set (.number k n) } := by
    rw [get?_edit _ hx, hp, Option.map_some, Parameter.accessAll_number hd]
  have hdirty : (r.perform (.edit x [.edit (.value (some (.number k n)))])).dirty =
      if (p.value.set (.number k n)).changed then r.dirty.insert x else r.dirty := by
    have hkept : r.removed.contains x = false := by
      rw [h.removed]
      exact Std.ExtTreeSet.contains_empty
    rw [edit_of_alive hx hp, Parameter.accessAll_number hd n, hcalm'.hasChanges]
    dsimp only
    rw [hid, hkept, Bool.not_false, Bool.and_true]
  refine ⟨⟨_, hget, hid, hd, rfl, hcalm⟩, fun y => ?_, (removed_edit _).trans h.removed, ?_⟩
  · rw [hdirty]
    rcases p.value.set_cases (.number k n) with hset | hset
    · rw [hset, if_pos rfl, IdSet.mem_insert_iff, h.dirty]
      constructor
      · rintro (rfl | ⟨rfl, -⟩) <;> exact ⟨rfl, rfl⟩
      · rintro ⟨rfl, -⟩
        exact .inl rfl
    · rw [hset]
      split
      · next hchanged =>
        rw [IdSet.mem_insert_iff, h.dirty]
        simp [hchanged]
      · exact h.dirty y
  · rcases p.value.set_cases (.number k n) with hset | hset
    · rw [hset]
      exact fun _ => ⟨n, rfl⟩
    · rw [hset]
      exact h.fits

/-- A tick tells of the value, if the field has changed. -/
theorem exists_encode (h : r.Copy x k f) (hf : f.changed = true) :
    ∃ data v q, r.encodeDirty.1 = [data] ∧ f.value = some v ∧ Packet.Brings x k data v q ∧
      r.encodeRemoved.2.encodeDirty.2.Copy x k f.sent := by
  obtain ⟨p, hp, rfl, hd, rfl, hcalm⟩ := h.holds
  obtain ⟨n, hn⟩ := h.fits hf
  obtain ⟨e, hnumber⟩ := TypeDef.eq_number hd
  have hdirty : r.dirty.toList = [p.id] := by
    refine List.perm_singleton.1 ((List.perm_ext_iff_of_nodup (nodup_toList _)
      (List.nodup_singleton _)).2 fun y => ?_)
    rw [Std.ExtTreeSet.mem_toList, h.dirty, List.mem_singleton]
    exact and_iff_left hf
  have hsent : r.encodeRemoved.2.encodeDirty.2.get? p.id = some p.sent := by
    have hmem : p.id ∈ r.encodeRemoved.2.dirty := (h.dirty p.id).2 ⟨rfl, hf⟩
    rw [get?_encodeDirty, if_pos hmem]
    exact congrArg (Option.map Parameter.sent) hp
  refine ⟨Packet.encodeUpdate p false, .number k n, p.heard false, ?_, hn,
    hcalm.brings hd hf hn, ?_⟩
  · rw [encodeDirty_eq_map, unsent, hdirty, List.filterMap_cons, hp]
    rfl
  · refine ⟨⟨p.sent, hsent, rfl, (TypeDef.datatype_sent _).trans hd, ?_, p.calm_sent⟩, fun y => ?_,
      rfl, fun hchanged => absurd hchanged Bool.false_ne_true⟩
    · rw [Parameter.sent, hnumber]
      rfl
    · exact ⟨fun hy => absurd hy Std.ExtTreeSet.not_mem_empty,
        fun hy => absurd hy.2 Bool.false_ne_true⟩

/-- A value that an update brings is applied. -/
theorem merge (hx : x ≠ .root) (h : r.Copy x k f) (hq : Packet.Brings x k data v q) :
    (r.perform (.merge q)).Copy x k (f.apply v) := by
  obtain ⟨p, hp, hid, hd, rfl, hcalm⟩ := h.holds
  obtain rfl := hq.id
  rw [perform_merge_silent hx hp (hd.trans hq.datatype.symm) hq.parent]
  refine ⟨⟨p.merge q, (get?_of_insert rfl q.id).trans (if_pos rfl), hid,
    (TypeDef.datatype_merge _ _).trans hd, hq.value_merge hd, hcalm.merge q⟩, fun y => ?_,
    h.removed, fun hchanged => ?_⟩
  · rw [Field.changed_apply]
    exact h.dirty y
  · rw [Field.changed_apply] at hchanged
    unfold Field.apply
    split
    · obtain ⟨n, rfl⟩ := hq.fits
      exact ⟨n, rfl⟩
    · exact h.fits hchanged

end Copy
end Registry
end ParamSync
