import ParamSync.Proofs.Codec.Accepted
import ParamSync.Proofs.Codec.Lossless

/-!
# What comes from a peer

Whatever bytes a parameter is read from, nothing of it is a change of our own, its value is one that
its definition accepts, and so is the default of a range. So a registry that stores it as it is has
nothing to tell of it, and nothing in it that cannot be sent on.

Results:
* `TypeDef.gives_readValue`: a value that is read is accepted.
* `Parameter.gives_takes`: what each option that is read makes of a parameter.
* `Parameter.gives_read_fresh`: all of this for a parameter.
-/

namespace ParamSync

open Reader

/-- A property of what a field holds stays one when a value is stored that has it. -/
theorem Field.Holds.apply {α : Type} [Alike α] {f : Field α} {P : α → Prop} (h : f.Holds P) {a : α}
    (ha : P a) : (f.apply a).Holds P := by
  unfold Field.apply
  split
  · rintro _ ⟨⟩
    exact ha
  · exact h

/-! ## Schemas -/

section Options

variable {α : Type} [Scalar α] {k : NumberKind}

theorem PlainDef.hasChanges_readOption (d : PlainDef α) (code : UInt8) :
    (d.readOption code).Gives fun o => ∀ d', o = some d' → d'.hasChanges = d.hasChanges :=
  gives_guarded (gives_true _) (fun _ _ => by simp [hasChanges]) gives_none

theorem NumberDef.hasChanges_readOption (d : NumberDef k) (code : UInt8) :
    (d.readOption code).Gives fun o => ∀ d', o = some d' → d'.hasChanges = d.hasChanges :=
  gives_guarded (gives_true _) (fun _ _ => by simp [hasChanges])
    (gives_guarded (gives_true _) (fun _ _ => by simp [hasChanges])
      (gives_guarded (gives_true _) (fun _ _ => by simp [hasChanges])
        (gives_guarded (gives_true _) (fun _ _ => by simp [hasChanges])
          (gives_guarded (gives_true _) (fun _ _ => by simp [hasChanges])
            (gives_guarded (gives_true _) (fun _ _ => by simp [hasChanges]) gives_none)))))

theorem StringDef.hasChanges_readOption (d : StringDef) (code : UInt8) :
    (d.readOption code).Gives fun o => ∀ d', o = some d' → d'.hasChanges = d.hasChanges :=
  gives_guarded (gives_true _) (fun _ _ => by simp [hasChanges])
    (gives_guarded (gives_true _) (fun _ _ => by simp [hasChanges]) gives_none)

theorem EnumDef.hasChanges_readOption (d : EnumDef) (code : UInt8) :
    (d.readOption code).Gives fun o => ∀ d', o = some d' → d'.hasChanges = d.hasChanges :=
  gives_guarded (gives_true _) (fun _ _ => by simp [hasChanges])
    (gives_guarded (gives_true _) (fun _ _ => by simp [hasChanges])
      (gives_guarded (gives_true _) (fun _ _ => by simp [hasChanges]) gives_none))

theorem UriDef.hasChanges_readOption (d : UriDef) (code : UInt8) :
    (d.readOption code).Gives fun o => ∀ d', o = some d' → d'.hasChanges = d.hasChanges :=
  gives_guarded (gives_true _) (fun _ _ => by simp [hasChanges])
    (gives_guarded (gives_true _) (fun _ _ => by simp [hasChanges])
      (gives_guarded (gives_true _) (fun _ _ => by simp [hasChanges]) gives_none))

theorem CustomDef.hasChanges_readOption (d : CustomDef) (code : UInt8) :
    (d.readOption code).Gives fun o => ∀ d', o = some d' → d'.hasChanges = d.hasChanges :=
  gives_guarded (gives_true _) (fun _ _ => by simp [hasChanges])
    (gives_guarded (gives_true _) (fun _ _ => by simp [hasChanges])
      (gives_guarded (gives_true _) (fun _ _ => by simp [hasChanges]) gives_none))

end Options

namespace TypeDef

/-- An option that is read is no change of our own. -/
theorem hasChanges_readOption (d : TypeDef) (code : UInt8) :
    (readOption code d).Gives fun o => ∀ d', o = some d' → d'.hasChanges = d.hasChanges := by
  cases d with
  | boolean d => exact gives_map (d.hasChanges_readOption code) fun _ h => h
  | number k d => exact gives_map (d.hasChanges_readOption code) fun _ h => h
  | string d => exact gives_map (d.hasChanges_readOption code) fun _ h => h
  | enum d => exact gives_map (d.hasChanges_readOption code) fun _ h => h
  | uri d => exact gives_map (d.hasChanges_readOption code) fun _ h => h
  | rgb d => exact gives_map (d.hasChanges_readOption code) fun _ h => h
  | rgba d => exact gives_map (d.hasChanges_readOption code) fun _ h => h
  | ipv4 d => exact gives_map (d.hasChanges_readOption code) fun _ h => h
  | ipv6 d => exact gives_map (d.hasChanges_readOption code) fun _ h => h
  | custom d => exact gives_map (d.hasChanges_readOption code) fun _ h => h
  | range element default =>
    rw [readOption]
    split
    · refine Gives.after _ fun lower => gives_some (gives_true _) fun upper _ => ?_
      rw [hasChanges, hasChanges, Field.changed_apply]
    · exact gives_none
  | bang | group => exact gives_none

theorem gives_read_unchanged : read.Gives fun d => d.hasChanges = false := by
  refine gives_read_of (fun d code hd bs o rest hrun d' ho => ?_) (fun datatype d h => ?_)
    (fun _ => rfl) fun k e h => ?_
  · exact (hasChanges_readOption d code hrun d' ho).trans hd
  · unfold ofDatatype? at h
    split at h <;> cases h <;> rfl
  · rw [hasChanges, h]
    rfl

/-! ## Values -/

theorem gives_readScalar {α : Type} [Scalar α] [LawfulScalar α] :
    (Scalar.readValue α).Gives fun v => Scalar.accepts α v = true :=
  Gives.after _ fun a =>
    gives_pure (Option.isSome_iff_exists.2 ⟨a, LawfulScalar.ofValue?_eq_some_iff.2 rfl⟩)

theorem gives_readText (w : Width) : w.readValue.Gives fun v => v.toText?.isSome = true :=
  Gives.after _ fun _ => gives_pure rfl

/-- A value that is read is one that the definition accepts. -/
theorem gives_readValue {d : TypeDef} (hd : d.WellFormed) :
    d.readValue.Gives fun v => d.accepts v = true := by
  cases d with
  | range element default =>
    obtain ⟨k, e, rfl⟩ := eq_number_of_isNumber hd
    refine Gives.bind (gives_readScalar (α := Number k)) fun lower hlower =>
      Gives.bind (gives_readScalar (α := Number k)) fun upper hupper => gives_pure ?_
    exact Bool.and_eq_true_iff.2 ⟨hlower, hupper⟩
  | custom d => exact (gives_take _).bind fun bs hbs => gives_pure (beq_of_eq hbs)
  | string d => exact gives_readText _
  | enum d => exact gives_readText _
  | uri d => exact gives_readText _
  | bang => exact gives_fail _
  | group => exact gives_fail _
  | _ => exact gives_readScalar

/-! ## Defaults of ranges -/

/-- The default of a range, if it has one, is a pair of values of its element. -/
def DefaultFits : TypeDef → Prop
  | range element default => default.Holds fun pair => acceptsPair element pair = true
  | _ => True

theorem defaultFits_of_ne {d : TypeDef} (h : d.datatype ≠ .range) : d.DefaultFits := by
  cases d with
  | range element default => exact absurd rfl h
  | _ => trivial

/-- An option that is read keeps the default of a range one of its element. -/
theorem DefaultFits.gives_readOption {d : TypeDef} (h : d.DefaultFits) (hd : d.WellFormed)
    (code : UInt8) : (readOption code d).Gives fun o => ∀ d', o = some d' → d'.DefaultFits := by
  by_cases hrange : d.datatype = .range
  · cases d with
    | range element default =>
      have helement : element.WellFormed := by
        obtain ⟨k, e, rfl⟩ := eq_number_of_isNumber hd
        trivial
      rw [readOption]
      split
      · refine (gives_readValue helement).bind fun lower hlower =>
          gives_some (gives_readValue helement) fun upper hupper => ?_
        exact Field.Holds.apply h (Bool.and_eq_true_iff.2 ⟨hlower, hupper⟩)
      · exact gives_none
    | _ => cases hrange
  · intro bs o rest hrun d' ho
    refine defaultFits_of_ne fun heq => hrange ?_
    rw [← heq, (TypeDef.gives_readOption hd code hrun d' ho).2]

/-- A definition that is well formed and whose default fits. -/
structure Sound (d : TypeDef) : Prop where
  wellFormed : d.WellFormed
  defaultFits : d.DefaultFits

theorem sound_of_ofDatatype? {datatype : Datatype} {d : TypeDef}
    (h : ofDatatype? datatype = some d) : d.Sound := by
  refine ⟨wellFormed_of_ofDatatype? h, defaultFits_of_ne fun hrange => ?_⟩
  unfold ofDatatype? at h
  split at h <;> cases h <;> cases hrange

theorem sound_ofSize (size : UInt32) : (ofSize size).Sound := by
  refine ⟨?_, trivial⟩
  rintro bs ⟨⟩

theorem sound_range {element : TypeDef} (h : element.datatype.isNumber = true) :
    (range element {}).Sound := by
  refine ⟨h, ?_⟩
  rintro pair ⟨⟩

theorem gives_read_sound : read.Gives Sound := by
  refine gives_read_of (fun d code hd bs o rest hrun d' ho => ?_)
    (fun _ _ => sound_of_ofDatatype?) sound_ofSize fun k e _ => sound_range rfl
  exact ⟨(gives_readOption hd.wellFormed code hrun d' ho).1,
    hd.defaultFits.gives_readOption hd.wellFormed code hrun d' ho⟩

end TypeDef

/-! ## Parameters -/

theorem LocalizedText.gives_read_unchanged (w : Width) :
    (LocalizedText.read w).Gives fun t => t.changed = false := by
  have hentry : ∀ t : LocalizedText, t.changed = false →
      (readEntry w t).Gives fun t' => t'.changed = false := by
    intro t ht
    refine Gives.after _ fun code => Gives.after _ fun s => ?_
    split <;> exact gives_pure ht
  exact gives_items (fun t code bs t' rest ht _ hrun => hentry t ht hrun) rfl

namespace Parameter

theorem hasChanges_eq_false_iff {p : Parameter} :
    p.hasChanges = false ↔ p.value.changed = false ∧ p.label.changed = false ∧
      p.description.changed = false ∧ p.tags.changed = false ∧ p.order.changed = false ∧
      p.parent.changed = false ∧ p.userData.changed = false ∧ p.userId.changed = false ∧
      p.definition.hasChanges = false := by
  simp only [hasChanges, Bool.or_eq_false_iff, and_assoc]

/-- A parameter as it comes from a peer: acceptable, without changes of our own, and with a value
and a default that fit. -/
structure Fresh (p : Parameter) : Prop where
  acceptable : p.Acceptable
  unchanged : p.hasChanges = false
  sound : p.definition.Sound
  value : p.value.Holds fun v => p.definition.accepts v = true

/-- What an option that is read makes of a parameter. -/
inductive Takes (p : Parameter) : Parameter → Prop
  | value {v : Value} (h : p.definition.accepts v = true) :
    Takes p { p with value := p.value.apply v }
  | label {t : LocalizedText} (h : t.changed = false) : Takes p { p with label := t }
  | description {t : LocalizedText} (h : t.changed = false) : Takes p { p with description := t }
  | tags (s : String) : Takes p { p with tags := p.tags.apply s }
  | order (n : Int32) : Takes p { p with order := p.order.apply n }
  | parent (id : ParamId) : Takes p { p with parent := p.parent.apply id }
  | userData (bs : Bytes) : Takes p { p with userData := p.userData.apply bs }
  | userId (s : String) : Takes p { p with userId := p.userId.apply s }

theorem gives_takes {p : Parameter} (hd : p.definition.WellFormed) (code : UInt8) :
    (p.readOption code).Gives fun o => ∀ p', o = some p' → p.Takes p' := by
  unfold readOption
  cases ParameterOption.ofCode? code with
  | none => exact gives_none
  | some option =>
    cases option with
    | value =>
      dsimp only
      split
      · exact gives_some (TypeDef.gives_readValue hd) fun _ hv => .value hv
      · exact gives_none
    | label => exact gives_some (LocalizedText.gives_read_unchanged _) fun _ ht => .label ht
    | description =>
      exact gives_some (LocalizedText.gives_read_unchanged _) fun _ ht => .description ht
    | tags => exact gives_some (gives_true _) fun s _ => .tags s
    | order => exact gives_some (gives_true _) fun n _ => .order n
    | parentId => exact gives_some (gives_true _) fun id _ => .parent id
    | userData => exact gives_some (gives_true _) fun bs _ => .userData bs
    | userId => exact gives_some (gives_true _) fun s _ => .userId s
    | widget => exact gives_none

namespace Takes

variable {p p' : Parameter}

/-- The definition stays what it is while the options are read. -/
theorem definition (h : p.Takes p') : p'.definition = p.definition := by
  cases h <;> rfl

theorem hasChanges (h : p.Takes p') (hp : p.hasChanges = false) : p'.hasChanges = false := by
  rw [hasChanges_eq_false_iff] at hp
  cases h with
  | label h => simp [hasChanges_eq_false_iff, hp, h]
  | description h => simp [hasChanges_eq_false_iff, hp, h]
  | _ => simp [hasChanges_eq_false_iff, hp]

theorem holds_value (h : p.Takes p') (hp : p.value.Holds fun v => p.definition.accepts v = true) :
    p'.value.Holds fun v => p'.definition.accepts v = true := by
  cases h with
  | value hv => exact hp.apply hv
  | _ => exact hp

end Takes

/-- A parameter that is read is fresh. -/
theorem gives_read_fresh : read.Gives Fresh := by
  refine Gives.after _ fun id => ?_
  refine (TypeDef.gives_read_sound.and TypeDef.gives_read_unchanged).bind fun definition hd => ?_
  obtain ⟨hsound, hunchanged⟩ := hd
  -- the options follow the definition, and each is read by what the definition is by then
  refine gives_options (fun p code hp bs o rest hrun p' ho => ?_)
    ⟨⟨hsound.wellFormed, rfl⟩,
      hasChanges_eq_false_iff.2 ⟨rfl, rfl, rfl, rfl, rfl, rfl, rfl, rfl, hunchanged⟩,
      hsound, by rintro v ⟨⟩⟩
  have htakes := gives_takes hp.acceptable.wellFormed code hrun p' ho
  exact ⟨gives_readOption hp.acceptable code hrun p' ho, htakes.hasChanges hp.unchanged,
    htakes.definition ▸ hp.sound, htakes.holds_value hp.value⟩

/-- The parameter was read from some bytes. -/
def Read (p : Parameter) : Prop := ∃ bs rest, read.run bs = .ok (p, rest)

theorem Read.fresh {p : Parameter} (h : p.Read) : p.Fresh := by
  obtain ⟨bs, rest, hrun⟩ := h
  exact gives_read_fresh hrun

/-- A parameter is read if it is legible and comes back as it is. -/
theorem Legible.read {p : Parameter} (h : p.Legible true) (hheard : p.heard true = p) : p.Read := by
  refine ⟨p.encode true, [], ?_⟩
  rw [← List.append_nil (p.encode true), run_read h, hheard]

end Parameter

/-- The parameter of a message was read. -/
theorem Packet.read_of_ofBytes {data : Bytes} {packet : Packet} {p : Parameter}
    (h : ofBytes data = .ok (some packet)) (hp : packet.parameter? = some p) : p.Read := by
  have hread : Parameter.read.Gives Parameter.Read := fun _ _ _ hrun => ⟨_, _, hrun⟩
  exact parameter?_of_ofBytes hread h p hp

/-! ## Merging -/

theorem CustomDef.hasChanges_merge (d e : CustomDef) : (d.merge e).hasChanges = d.hasChanges := by
  rw [merge]
  split
  · simp [hasChanges]
  · rfl

/-- What a peer brings is no change of our own. -/
theorem TypeDef.hasChanges_merge (d e : TypeDef) : (d.merge e).hasChanges = d.hasChanges := by
  fun_induction merge d e with
  | case11 a d b e ih => simp [hasChanges, ih]
  | case12 d e => exact d.hasChanges_merge e
  | _ =>
    simp [hasChanges, PlainDef.hasChanges, PlainDef.merge, NumberDef.hasChanges, NumberDef.merge,
      StringDef.hasChanges, StringDef.merge, EnumDef.hasChanges, EnumDef.merge,
      UriDef.hasChanges, UriDef.merge]

namespace Parameter

theorem changed_value_merge (p other : Parameter) :
    (p.merge other).value.changed = p.value.changed := by
  rw [merge]
  split
  · exact Field.changed_apply _ _
  · rfl

theorem hasChanges_merge (p other : Parameter) : (p.merge other).hasChanges = p.hasChanges := by
  rw [hasChanges, changed_value_merge, hasChanges]
  simp only [merge, LocalizedText.merge, Field.changed_merge, TypeDef.hasChanges_merge]

end Parameter
end ParamSync
