import ParamSync.Proofs.Registry.Merging
import ParamSync.Proofs.Registry.Schemas
import ParamSync.Proofs.Registry.Unsent

/-!
# Stored values fit their schema

Values and defaults come into a registry by the setters, from the wire, and by merges of what came
from there. The setters and the readers look at what they let in. A merge looks at the value, and at
the size of a custom type, but not at the elements of two ranges: the default of a range fits as
long as no range is merged that clashes with the one that is there, and no longer.

`Yields` lists the ways in: for every operation, what it can leave under an identifier. What each of
these keeps, every operation keeps.

Results:
* `stems_perform`: whoever is there after an operation came in one of these ways.
* `Reachable.valid`: along every run every value is one that its definition accepts.
* `fits_perform_iff`: an operation leaves a default that does not fit exactly if it merges a range
  that clashes with the one that is there.
* `fits_performAll_iff`: so it is along a run.
-/

namespace ParamSync

/-! ## Of one parameter -/

namespace Parameter

variable {p p' : Parameter}

/-- The definition is well formed and accepts the value. -/
structure Valid (p : Parameter) : Prop where
  wellFormed : p.definition.WellFormed
  value : p.value.Holds fun v => p.definition.accepts v = true

namespace Valid

/-- A definition of the same kind, with the value that was there. -/
theorem of_sameKind (h : p.Valid) (hkind : p.definition.SameKind p'.definition)
    (hwell : p'.definition.WellFormed) (hvalue : p'.value.value = p.value.value) : p'.Valid := by
  refine ⟨hwell, fun v hv => ?_⟩
  rw [hkind.accepts_eq h.wellFormed]
  exact h.value v (hvalue ▸ hv)

theorem edited {change : Edit} (h : p.Valid) (he : Edited p change p')
    (hkeep : change.KeepsDefinition) : p'.Valid := by
  cases he with
  | setValue _ haccepts => exact ⟨h.wellFormed, h.value.set haccepts⟩
  | clearValue =>
    refine ⟨h.wellFormed, ?_⟩
    rintro v ⟨⟩
  | definition heq =>
    have hc := hkeep.ne_replaceElement
    exact h.of_sameKind (TypeDef.sameKind_edit heq hc) (h.wellFormed.edit heq hc) rfl
  | replaced d => exact hkeep.elim
  | other hvalue hdefinition =>
    refine ⟨hdefinition ▸ h.wellFormed, ?_⟩
    rw [hdefinition, hvalue]
    exact h.value

theorem sent (h : p.Valid) : p.sent.Valid := by
  refine h.of_sameKind (TypeDef.sameKind_sent _) h.wellFormed.sent ?_
  unfold Parameter.sent
  dsimp only
  split <;> rfl

theorem merge (h : p.Valid) {other : Parameter} (ho : other.definition.WellFormed) :
    (p.merge other).Valid := by
  refine ⟨h.wellFormed.merge ho, ?_⟩
  have haccepts : (p.merge other).definition.accepts = p.definition.accepts :=
    (TypeDef.sameKind_merge p.definition other.definition).accepts_eq h.wellFormed
  rw [haccepts, Parameter.merge]
  dsimp only
  split
  · next v hv => exact h.value.apply (Option.filter_eq_some_iff.1 hv).2
  · exact h.value

theorem applyValue (h : p.Valid) {v : Value} (ha : p.applyValue v = .ok p') : p'.Valid := by
  unfold Parameter.applyValue at ha
  split at ha
  · next haccepts =>
    cases ha
    exact ⟨h.wellFormed, h.value.apply haccepts⟩
  · cases ha

/-- The place in the tree does not matter. -/
theorem of_content_eq (h : p.Valid) (hcontent : p'.content = p.content) : p'.Valid := by
  have hdefinition : p'.definition = p.definition := congrArg (·.definition) hcontent
  have hvalue : p'.value = p.value := congrArg (·.value) hcontent
  refine ⟨hdefinition ▸ h.wellFormed, ?_⟩
  rw [hdefinition, hvalue]
  exact h.value

end Valid

/-- A change that keeps the definition keeps a default that fits. -/
theorem Edited.sound {change : Edit} (he : Edited p change p') (hkeep : change.KeepsDefinition)
    (h : p.definition.Sound) : p'.definition.Sound := by
  cases he with
  | definition heq => exact h.edit heq hkeep.ne_replaceElement
  | replaced d => exact hkeep.elim
  | other _ hdefinition => exact hdefinition ▸ h
  | _ => exact h

theorem definition_applyValue {v : Value} (h : p.applyValue v = .ok p') :
    p'.definition = p.definition := by
  unfold applyValue at h
  split at h <;> cases h
  rfl

/-- A value that the definition accepts, a range of numbers only, and a default of a custom type
that has its size. -/
structure Suits (p : Parameter) : Prop where
  value : p.value.Holds fun v => p.definition.accepts v = true
  element : ∀ element default, p.definition = .range element default →
    element.datatype.isNumber = true
  custom : ∀ d, p.definition = .custom d → d.default.Holds fun bs => bs.length = d.size.toNat

theorem Valid.suits (h : p.Valid) : p.Suits := by
  have hwell := h.wellFormed
  refine ⟨h.value, fun element default heq => ?_, fun d heq => ?_⟩
  · rw [heq] at hwell
    exact hwell
  · rw [heq] at hwell
    exact hwell

end Parameter

namespace Registry

variable {r r' : Registry} {id x : ParamId} {p' : Parameter}

/-! ## Ways in -/

/-- What an operation can leave under an identifier, apart from its place in the tree: what was
there, or what the operation brings or makes of it. -/
inductive Yields (r : Registry) : Op → ParamId → Parameter → Prop
  | kept {op : Op} {x : ParamId} {p : Parameter} (hp : r.get? x = some p) : Yields r op x p
  | created {definition : TypeDef} {group : Option ParamId} (id : ParamId) :
    Yields r (.create definition group) id { id, definition }
  | createdGroup {group : Option ParamId} (id : ParamId) :
    Yields r (.createGroup group) id { id, definition := .group }
  | edited {x : ParamId} {accesses : List Parameter.Access} {p : Parameter}
    (hp : r.get? x = some p) : Yields r (.edit x accesses) x (p.accessAll accesses)
  | entered {incoming : Parameter} (hnew : r.get? incoming.id = none) :
    Yields r (.merge incoming) incoming.id incoming
  | merged {incoming p : Parameter} (hp : r.get? incoming.id = some p) :
    Yields r (.merge incoming) incoming.id (p.merge incoming)
  | applied {u : ValueUpdate} {p p' : Parameter} (hp : r.get? u.id = some p)
    (hp' : p.applyValue u.value = .ok p') : Yields r (.applyValue u) u.id p'
  | sent {x : ParamId} {p : Parameter} (hp : r.get? x = some p) (hx : x ∈ r.dirty) :
    Yields r .encodeDirty x p.sent

/-- Whoever is in the second registry came there by the operation in one of these ways, apart from
its place in the tree. -/
def Stems (op : Op) (r r' : Registry) : Prop :=
  ∀ x p', r'.get? x = some p' → ∃ q, Yields r op x q ∧ p'.content = q.content

namespace Stems

variable {op : Op}

theorem refl (op : Op) (r : Registry) : Stems op r r := fun _ p hp => ⟨p, .kept hp, rfl⟩

theorem of_parameters_eq (h : Stems op r r') {r'' : Registry}
    (hparameters : r''.parameters = r'.parameters) : Stems op r r'' := by
  intro x p' hp'
  rw [get?, hparameters] at hp'
  exact h x p' hp'

/-- Everybody is there as before, apart from its place. -/
theorem of_content_eq
    (hget : ∀ x, (r'.get? x).map Parameter.content = (r.get? x).map Parameter.content) :
    Stems op r r' := by
  intro x p' hp'
  obtain ⟨q, hq, heq⟩ := exists_of_map_eq (hget x).symm hp'
  exact ⟨q, .kept hq, heq.symm⟩

/-- Under one identifier there is now a parameter that came in one of the ways. -/
theorem of_content {p : Parameter}
    (hget : ∀ x, (r'.get? x).map Parameter.content =
      if x = id then some p.content else (r.get? x).map Parameter.content)
    (hp : Yields r op id p) : Stems op r r' := by
  intro x p' hp'
  have hcontent := hget x
  split at hcontent
  · next hx =>
    rw [hp'] at hcontent
    exact ⟨p, hx ▸ hp, Option.some.inj hcontent⟩
  · obtain ⟨q, hq, heq⟩ := exists_of_map_eq hcontent.symm hp'
    exact ⟨q, .kept hq, heq.symm⟩

theorem of_insert {p : Parameter} (hr : r'.parameters = r.parameters.insert id p)
    (hp : Yields r op id p) : Stems op r r' := by
  refine of_content (fun x => ?_) hp
  rw [get?_of_insert hr]
  split <;> rfl

theorem create {definition : TypeDef} {group : Option ParamId}
    (h : r.create definition group = .ok (id, r')) (hnew : Yields r op id { id, definition }) :
    Stems op r r' := by
  obtain ⟨target, -, -, rfl⟩ := create_ok h
  obtain ⟨f, hf, -⟩ := Parameter.setGroup_eq { id, definition } target
  obtain ⟨q, hq⟩ : ∃ q : Parameter, ({ id, definition, parent := f } : Parameter) = q := ⟨_, rfl⟩
  have hid : q.id = id := hq ▸ rfl
  have hcontent : q.content = Parameter.content { id, definition } := hq ▸ rfl
  rw [hf, hq]
  suffices hattach : Stems op r (r.attach q) from hattach.of_parameters_eq rfl
  obtain htaken | ⟨hroot, hfree⟩ := r.attach_eq_or_new q
  · -- along a run the identifier is free, but nothing hangs on it
    rw [htaken]
    exact refl op r
  · refine of_content (fun x => ?_) hnew
    rw [content_attach hroot hfree, hid, hcontent]

theorem move {group : Option ParamId} (h : r.move id group = .ok r') : Stems op r r' := by
  obtain ⟨-, -, -, ⟨-, rfl⟩ | ⟨m, hm, rfl⟩⟩ := move_ok h
  · exact refl op r'
  · exact (of_content_eq (content_relink hm)).of_parameters_eq (parameters_setDirty m id)

/-- Nobody is entered or changed by an eviction. -/
theorem evict (op : Op) (r : Registry) (id : ParamId) : Stems op r (r.evict id).1 := by
  intro x p' h
  cases hp : r.get? id with
  | none =>
    rw [evict_of_dead hp] at h
    exact refl op r x p' h
  | some p =>
    rw [evict_of_alive hp] at h
    have hunlinked : (r.unlinked id p).get? x = some p' := getElem?_of_evictFrom _ _ _ h
    rw [get?_unlinked] at hunlinked
    split at hunlinked
    · obtain ⟨q, hq, rfl⟩ := Option.map_eq_some_iff.1 hunlinked
      exact ⟨q, .kept hq, rfl⟩
    · exact refl op r x p' hunlinked

theorem remove {found : Bool} (h : r.remove id = .ok (found, r')) : Stems op r r' := by
  obtain ⟨-, ⟨-, -, rfl⟩ | ⟨-, -, -, rfl⟩⟩ := remove_ok h
  · exact (evict op r id).of_parameters_eq rfl
  · exact refl op r'

theorem merge {incoming : Parameter} {outcome : Merge} {notices : List Notice}
    (h : r.merge incoming = .ok (outcome, r', notices)) : Stems (.merge incoming) r r' := by
  obtain ⟨hid, ⟨hnew, rfl⟩ | ⟨p, hp, -, rfl⟩⟩ := merge_ok h
  · exact of_content (content_attach hid hnew) (.entered hnew)
  · have hover : (r.overlay p incoming).parameters =
        r.parameters.insert incoming.id (p.merge incoming) := rfl
    refine of_content (fun x => ?_) (.merged hp)
    rw [content_follow, get?_of_insert hover]
    split <;> rfl

theorem encodeDirty (r : Registry) : Stems .encodeDirty r r.encodeDirty.2 := by
  intro x p' hp'
  rw [get?_encodeDirty] at hp'
  split at hp'
  · next hx =>
    obtain ⟨q, hq, rfl⟩ := Option.map_eq_some_iff.1 hp'
    exact ⟨q.sent, .sent hq hx, rfl⟩
  · exact refl _ r x p' hp'

/-- The root is there as before, and nobody else. -/
theorem clear (hf : Forest r) : Stems op r r.clear := by
  intro x p' hp'
  rw [get?_clear] at hp'
  split at hp'
  · next hx =>
    cases hp'
    exact ⟨r.root, hx ▸ .kept hf.root_eq.1, rfl⟩
  · cases hp'

end Stems

/-- Whoever is there after an operation came in one of the ways, apart from its place. -/
theorem stems_perform (hf : Forest r) (op : Op) : Stems op r (r.perform op) := by
  cases op with
  | create definition group =>
    exact of_orSame (.refl _ r) fun _ hok => .create hok (.created _)
  | createGroup group =>
    exact of_orSame (.refl _ r) fun _ hok => .create hok (.createdGroup _)
  | edit id accesses =>
    refine of_orSame (.refl _ r) ?_
    rintro ⟨r', ⟨⟩⟩ hok
    obtain ⟨-, p, hp, -, rfl⟩ := edit_ok hok
    exact .of_insert rfl (.edited hp)
  | setDirty id => exact (Stems.refl _ r).of_parameters_eq (parameters_setDirty r id)
  | move id group => exact of_orSame (.refl _ r) fun _ hok => .move hok
  | remove id => exact of_orSame (.refl _ r) fun _ hok => .remove hok
  | removeDirect id =>
    show Stems _ r (r.removeDirect id).1
    unfold removeDirect
    split
    · exact .refl _ r
    · exact .evict _ r id
  | merge incoming => exact of_orSame (.refl _ r) fun _ hok => .merge hok
  | applyValue u =>
    refine of_orSame (.refl _ r) ?_
    rintro ⟨applied, r', notices⟩ hok
    obtain ⟨p, p', hp, -, hp', rfl⟩ := applyValue_ok hok
    exact .of_insert rfl (.applied hp hp')
  | encodeDirty => exact .encodeDirty r
  | encodeRemoved => exact (Stems.refl _ r).of_parameters_eq rfl
  | encodeAll =>
    rw [perform_encodeAll]
    exact .refl _ r
  | clear => exact .clear hf

/-! ## Values -/

namespace Op

/-- An operation by which only those definitions come in that were made by their own operations,
which changes them by their setters alone, and merges only parameters that were read. -/
def Proper : Op → Prop
  | create definition _ => definition.Made
  | edit _ accesses => ∀ change, Parameter.Access.edit change ∈ accesses → change.KeepsDefinition
  | merge incoming => incoming.Read
  | _ => True

theorem Proper.legal {op : Op} (h : op.Proper) : op.Legal := by
  cases op with
  | create definition group => exact ⟨trivial, h.sound.wellFormed⟩
  | edit id accesses => exact ⟨trivial, h⟩
  | merge incoming => exact ⟨h.fresh.acceptable.childless, h.fresh.acceptable.wellFormed⟩
  | _ => exact ⟨trivial, trivial⟩

end Op

/-- Every parameter has a value that its definition accepts, if it has one. -/
def Valid (r : Registry) : Prop := ∀ {x p}, r.get? x = some p → p.Valid

theorem valid_new : Valid new := by
  intro x p hp
  rw [get?_new] at hp
  split at hp <;> cases hp
  refine ⟨trivial, ?_⟩
  rintro v ⟨⟩

theorem Valid.perform (h : Valid r) (hf : Forest r) {op : Op} (hop : op.Proper) :
    Valid (r.perform op) := by
  intro x p' hp'
  obtain ⟨q, hq, hcontent⟩ := stems_perform hf op x p' hp'
  refine Parameter.Valid.of_content_eq ?_ hcontent
  cases hq with
  | kept hp => exact h hp
  | created id =>
    refine ⟨hop.sound.wellFormed, ?_⟩
    rintro v ⟨⟩
  | createdGroup id =>
    refine ⟨trivial, ?_⟩
    rintro v ⟨⟩
  | edited hp =>
    exact Parameter.accessAll_induction (fun hvalid hmem he => hvalid.edited he (hop _ hmem))
      Parameter.Valid.sent (h hp)
  | entered hnew => exact ⟨hop.fresh.acceptable.wellFormed, hop.fresh.value⟩
  | merged hp => exact (h hp).merge hop.fresh.acceptable.wellFormed
  | applied hp hp' => exact (h hp).applyValue hp'
  | sent hp hx => exact (h hp).sent

/-- Along every run of proper operations the tree is a tree, everybody is settled, and every value
is accepted. -/
theorem Reachable.valid (h : Reachable (fun _ => Op.Proper) r) :
    Forest r ∧ Orderly r ∧ Valid r := by
  refine h.invariant (I := fun r => Forest r ∧ Orderly r ∧ Valid r) ⟨.new, .new, valid_new⟩ ?_
  rintro r op ⟨hf, ho, hv⟩ hop
  exact ⟨hf.perform op hop.legal.childless, ho.perform hf hop.legal.keepsDefinitions,
    hv.perform hf hop⟩

/-! ## Defaults -/

/-- Every default of a range is a pair of values of its element. -/
def Fits (r : Registry) : Prop := ∀ x p, r.get? x = some p → p.definition.DefaultFits

theorem fits_new : Fits new := by
  intro x p hp
  rw [get?_new] at hp
  split at hp <;> cases hp
  trivial

/-- The operation merges a range that clashes with the one that is there. -/
def Op.MergesClash (r : Registry) : Op → Prop
  | merge incoming => ∃ p, r.get? incoming.id = some p ∧ p.definition.Clashes incoming.definition
  | _ => False

theorem Fits.perform (h : Fits r) (hv : Valid r) (hf : Forest r) {op : Op} (hop : op.Proper)
    (hclash : ¬ op.MergesClash r) : Fits (r.perform op) := by
  have hsound : ∀ {x p}, r.get? x = some p → p.definition.Sound := fun hp =>
    ⟨(hv hp).wellFormed, h _ _ hp⟩
  suffices hall : ∀ x q, Yields r op x q → q.definition.Sound by
    intro x p' hp'
    obtain ⟨q, hq, hcontent⟩ := stems_perform hf op x p' hp'
    have hdefinition : p'.definition = q.definition := congrArg (·.definition) hcontent
    exact hdefinition ▸ (hall x q hq).defaultFits
  intro x q hq
  cases hq with
  | kept hp => exact hsound hp
  | created id => exact hop.sound
  | createdGroup id => exact ⟨trivial, trivial⟩
  | edited hp =>
    exact Parameter.accessAll_induction (P := fun p => p.definition.Sound)
      (fun hsound hmem he => he.sound (hop _ hmem) hsound)
      TypeDef.Sound.sent (hsound hp)
  | entered hnew => exact hop.fresh.sound
  | merged hp => exact (hsound hp).merge hop.fresh.sound fun hc => hclash ⟨_, hp, hc⟩
  | applied hp hp' => exact Parameter.definition_applyValue hp' ▸ hsound hp
  | sent hp hx => exact (hsound hp).sent

/-- An operation leaves a default that does not fit exactly if it merges a range that clashes with
the one that is there. -/
theorem fits_perform_iff (h : Fits r) (ho : Orderly r) (hv : Valid r) (hf : Forest r) {op : Op}
    (hop : op.Proper) : Fits (r.perform op) ↔ ¬ op.MergesClash r := by
  refine ⟨fun hfits hclash => ?_, h.perform hv hf hop⟩
  cases op with
  | merge incoming =>
    obtain ⟨p, hp, hclash⟩ := hclash
    have hranges := hclash.ranges
    have hid : incoming.id ≠ .root := by
      intro hroot
      obtain ⟨children, hget⟩ := ho.root
      rw [hroot, hget] at hp
      cases hp
      cases hranges.1
    -- both are ranges, so the merge is not refused
    have hd : ∀ q, r.get? incoming.id = some q → q.datatype = incoming.datatype := by
      intro q hq
      rw [hp, Option.some.injEq] at hq
      exact hq ▸ hranges.1.trans hranges.2.symm
    have hcontent := content_merge incoming hid hd incoming.id
    rw [if_pos rfl, hp, Option.map_eq_some_iff] at hcontent
    obtain ⟨p', hp', hcontent⟩ := hcontent
    have hmerged : p'.definition = p.definition.merge incoming.definition :=
      congrArg (·.definition) hcontent
    have hfit := hfits _ _ hp'
    rw [hmerged, TypeDef.Sound.defaultFits_merge_iff ⟨(hv hp).wellFormed, h _ _ hp⟩
      hop.fresh.sound] at hfit
    exact hfit hclash
  | _ => exact hclash

/-! ## Runs -/

theorem reachable_take {ops : List Op} (hops : ∀ op ∈ ops, op.Proper) (k : Nat) :
    Reachable (fun _ => Op.Proper) (new.performAll (ops.take k)) :=
  .performAll .new fun op hop _ => hops op (List.mem_of_mem_take hop)

/-- Along a run of proper operations every value is one that its definition accepts, every range is
one of numbers, and every default of a custom type has its size. And every default of a range is a
pair of values of its element, exactly if no range is merged that clashes with the one that is
there. -/
theorem fits_performAll_iff {ops : List Op} (hops : ∀ op ∈ ops, op.Proper) :
    (∀ k id p, (new.performAll (ops.take k)).get? id = some p → p.Suits) ∧
      ((∀ k id p, (new.performAll (ops.take k)).get? id = some p → p.definition.DefaultFits) ↔
        ∀ k incoming p, ops[k]? = some (.merge incoming) →
          (new.performAll (ops.take k)).get? incoming.id = some p →
            ¬ p.definition.Clashes incoming.definition) := by
  refine ⟨fun k id p hp => ?_, fun hfits k incoming p hk hp hclash => ?_, fun hclash k => ?_⟩
  · obtain ⟨-, -, hv⟩ := (reachable_take hops k).valid
    exact (hv hp).suits
  · obtain ⟨hf, ho, hv⟩ := (reachable_take hops k).valid
    have hnext : Fits (new.performAll (ops.take (k + 1))) := hfits (k + 1)
    rw [performAll_take_succ, hk] at hnext
    exact (fits_perform_iff (hfits k) ho hv hf (hops _ (List.mem_of_getElem? hk))).1 hnext
      ⟨p, hp, hclash⟩
  · induction k with
    | zero => exact fits_new
    | succ k ih =>
      rw [performAll_take_succ]
      cases hk : ops[k]? with
      | none => exact ih
      | some op =>
        obtain ⟨hf, ho, hv⟩ := (reachable_take hops k).valid
        have hop := hops op (List.mem_of_getElem? hk)
        refine (fits_perform_iff ih ho hv hf hop).2 fun hmerges => ?_
        cases op with
        | merge incoming =>
          obtain ⟨p, hp, hc⟩ := hmerges
          exact hclash k incoming p hk hp hc
        | _ => exact hmerges

theorem made_rangeOf (kind : NumberKind) : (TypeDef.rangeOf kind).Made := by
  have helement : TypeDef.ofDatatype? (.number kind) = some (.number kind {}) := rfl
  exact .range (.ofDatatype helement) rfl

/-- A flag comes from a peer; we make a range of integers, and set its default. -/
def lowToHigh : List Op :=
  [.merge flag, .create (.rangeOf .int32) none,
    .edit ⟨2⟩ [.edit (.definition (.rangeDefault
      (some (.number .int32 (.ofInt _ (-1)), .number .int32 (.ofInt _ 1)))))]]

theorem fits_lowToHigh :
    (∀ op ∈ lowToHigh, op.Proper) ∧
      (∀ k id p, (new.performAll (lowToHigh.take k)).get? id = some p → p.Suits) ∧
      ∀ k id p, (new.performAll (lowToHigh.take k)).get? id = some p →
        p.definition.DefaultFits := by
  have hproper : ∀ op ∈ lowToHigh, op.Proper := by
    intro op hop
    rcases (by simpa [lowToHigh] using hop : op = _ ∨ op = _ ∨ op = _) with rfl | rfl | rfl
    · exact read_flag
    · exact made_rangeOf .int32
    · intro change hchange
      obtain rfl : change = _ := by simpa using hchange
      trivial
  obtain ⟨hsuits, hfits⟩ := fits_performAll_iff hproper
  refine ⟨hproper, hsuits, hfits.2 fun k incoming p hk _ hclash => ?_⟩
  obtain rfl : incoming = flag := by simpa [lowToHigh] using List.mem_of_getElem? hk
  cases hclash.ranges.2

/-- A range of floating-point numbers as a peer sends it, with the default from one to two. -/
def wide : Parameter where
  id := ⟨1⟩
  definition := .range (.number .float32 {})
    ⟨some (.number .float32 (.ofNat _ 0x3f800000), .number .float32 (.ofNat _ 0x40000000)), false⟩

theorem read_wide : wide.Read := by
  have hlegible : wide.Legible true := ⟨rfl, by simp [wide, LocalizedText.Legible],
    by simp [wide, LocalizedText.Legible]⟩
  exact hlegible.read rfl

/-- A range of integers is made, and one of floating-point numbers is merged into it. -/
def widening : List Op := [.create (.rangeOf .int32) none, .merge wide]

/-- The range is still one of integers, and its default one of floating-point numbers. -/
theorem misfit_widening :
    (∀ op ∈ widening, op.Proper) ∧
      ∃ p, (new.performAll widening).get? ⟨1⟩ = some p ∧ ¬ p.definition.DefaultFits := by
  refine ⟨?_, ?_⟩
  · intro op hop
    rcases (by simpa [widening] using hop : op = _ ∨ op = _) with rfl | rfl
    · exact made_rangeOf .int32
    · exact read_wide
  · obtain ⟨p, hp, hmerged⟩ : ∃ p, (new.performAll widening).get? ⟨1⟩ = some p ∧
        p.definition = (TypeDef.rangeOf .int32).merge wide.definition := ⟨_, rfl, rfl⟩
    have hclash : (TypeDef.rangeOf .int32).Clashes wide.definition := ⟨rfl, by decide⟩
    refine ⟨p, hp, fun hfits => ?_⟩
    rw [hmerged, TypeDef.Sound.defaultFits_merge_iff (made_rangeOf .int32).sound
      read_wide.fresh.sound] at hfits
    exact hfits hclash

end Registry
end ParamSync
