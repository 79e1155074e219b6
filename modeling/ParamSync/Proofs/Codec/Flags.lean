import ParamSync.Proofs.Codec.Incoming

/-!
# Flags

Each piece of a parameter and of its definition that can change has a flag that says whether it
did. `Piece` names the pieces, so that what is done to a parameter can be followed flag by flag:
what a peer brings may change every piece, and puts up no flag.

Results:
* `TypeDef.hasChanges_eq_false_iff`, `Parameter.hasChanges_eq_false_iff_flag`: nothing has changed
  exactly if no flag is up.
* `TypeDef.flag_merge`, `Parameter.flag_merge`: a merge touches no flag.
* `Parameter.raisesNone_applyValue`, `Parameter.raisesNone_applyGroup`: nor does a value or a group
  that a peer names put one up.
-/

namespace ParamSync

/-! ## Of a schema -/

/-- The pieces of a schema that can change. -/
inductive TypeDef.Piece
  | default
  | minimum
  | maximum
  | multipleOf
  | scale
  | unit
  | regex
  | entries
  | multiselect
  | filter
  | schemas
  | uuid
  | config
  /-- A piece of what a range is over. -/
  | element (piece : TypeDef.Piece)
deriving DecidableEq

section Schemas

variable {α : Type} [Scalar α] {k : NumberKind} (x : TypeDef.Piece)

def PlainDef.flag (d : PlainDef α) : TypeDef.Piece → Bool
  | .default => d.default.changed
  | _ => false

def NumberDef.flag (d : NumberDef k) : TypeDef.Piece → Bool
  | .default => d.default.changed
  | .minimum => d.minimum.changed
  | .maximum => d.maximum.changed
  | .multipleOf => d.multipleOf.changed
  | .scale => d.scale.changed
  | .unit => d.unit.changed
  | _ => false

def StringDef.flag (d : StringDef) : TypeDef.Piece → Bool
  | .default => d.default.changed
  | .regex => d.regex.changed
  | _ => false

def EnumDef.flag (d : EnumDef) : TypeDef.Piece → Bool
  | .default => d.default.changed
  | .entries => d.entries.changed
  | .multiselect => d.multiselect.changed
  | _ => false

def UriDef.flag (d : UriDef) : TypeDef.Piece → Bool
  | .default => d.default.changed
  | .filter => d.filter.changed
  | .schemas => d.schemas.changed
  | _ => false

def CustomDef.flag (d : CustomDef) : TypeDef.Piece → Bool
  | .default => d.default.changed
  | .uuid => d.uuid.changed
  | .config => d.config.changed
  | _ => false

theorem PlainDef.flag_merge (d e : PlainDef α) : (d.merge e).flag x = d.flag x := by
  cases x <;> simp [flag, merge]

theorem NumberDef.flag_merge (d e : NumberDef k) : (d.merge e).flag x = d.flag x := by
  cases x <;> simp [flag, merge]

theorem StringDef.flag_merge (d e : StringDef) : (d.merge e).flag x = d.flag x := by
  cases x <;> simp [flag, merge]

theorem EnumDef.flag_merge (d e : EnumDef) : (d.merge e).flag x = d.flag x := by
  cases x <;> simp [flag, merge]

theorem UriDef.flag_merge (d e : UriDef) : (d.merge e).flag x = d.flag x := by
  cases x <;> simp [flag, merge]

theorem CustomDef.flag_merge (d e : CustomDef) : (d.merge e).flag x = d.flag x := by
  rw [merge]
  split
  · cases x <;> simp [flag]
  · rfl

omit [Scalar α] in
theorem PlainDef.hasChanges_eq_false_iff {d : PlainDef α} :
    d.hasChanges = false ↔ ∀ x, d.flag x = false := by
  refine ⟨fun h x => ?_, fun h => h .default⟩
  cases x <;> first | exact h | rfl

theorem NumberDef.hasChanges_eq_false_iff {d : NumberDef k} :
    d.hasChanges = false ↔ ∀ x, d.flag x = false := by
  simp only [hasChanges, Bool.or_eq_false_iff]
  refine ⟨fun h x => ?_, fun h => ⟨⟨⟨⟨⟨h .default, h .minimum⟩, h .maximum⟩, h .multipleOf⟩,
    h .scale⟩, h .unit⟩⟩
  cases x <;> simp [flag, h]

theorem StringDef.hasChanges_eq_false_iff {d : StringDef} :
    d.hasChanges = false ↔ ∀ x, d.flag x = false := by
  simp only [hasChanges, Bool.or_eq_false_iff]
  refine ⟨fun h x => ?_, fun h => ⟨h .default, h .regex⟩⟩
  cases x <;> simp [flag, h]

theorem EnumDef.hasChanges_eq_false_iff {d : EnumDef} :
    d.hasChanges = false ↔ ∀ x, d.flag x = false := by
  simp only [hasChanges, Bool.or_eq_false_iff]
  refine ⟨fun h x => ?_, fun h => ⟨⟨h .default, h .entries⟩, h .multiselect⟩⟩
  cases x <;> simp [flag, h]

theorem UriDef.hasChanges_eq_false_iff {d : UriDef} :
    d.hasChanges = false ↔ ∀ x, d.flag x = false := by
  simp only [hasChanges, Bool.or_eq_false_iff]
  refine ⟨fun h x => ?_, fun h => ⟨⟨h .default, h .filter⟩, h .schemas⟩⟩
  cases x <;> simp [flag, h]

theorem CustomDef.hasChanges_eq_false_iff {d : CustomDef} :
    d.hasChanges = false ↔ ∀ x, d.flag x = false := by
  simp only [hasChanges, Bool.or_eq_false_iff]
  refine ⟨fun h x => ?_, fun h => ⟨⟨h .default, h .uuid⟩, h .config⟩⟩
  cases x <;> simp [flag, h]

end Schemas

namespace TypeDef

/-- Whether the flag of a piece is up; a piece that the schema does not have has none. -/
def flag : TypeDef → Piece → Bool
  | boolean d, x => d.flag x
  | number _ d, x => d.flag x
  | string d, x => d.flag x
  | enum d, x => d.flag x
  | uri d, x => d.flag x
  | rgb d, x | rgba d, x => d.flag x
  | ipv4 d, x => d.flag x
  | ipv6 d, x => d.flag x
  | range element _, .element x => element.flag x
  | range _ default, .default => default.changed
  | custom d, x => d.flag x
  | _, _ => false

/-- What a peer brings is merged without touching a flag, at any depth. -/
theorem flag_merge (d e : TypeDef) (x : Piece) : (d.merge e).flag x = d.flag x := by
  fun_induction merge d e generalizing x with
  | case1 d e | case4 d e | case5 d e | case6 d e | case7 d e | case8 d e | case9 d e
  | case10 d e | case12 d e => exact d.flag_merge x e
  | case2 k e d => exact d.flag_merge x _
  | case3 | case13 => rfl
  | case11 a d b e ih =>
    cases x with
    | default => exact d.changed_merge e
    | element x => exact ih x
    | _ => rfl

theorem hasChanges_eq_false_iff {d : TypeDef} : d.hasChanges = false ↔ ∀ x, d.flag x = false := by
  induction d with
  | boolean d | number _ d | string d | enum d | uri d | rgb d | rgba d | ipv4 d | ipv6 d
  | custom d => exact d.hasChanges_eq_false_iff
  | range element default ih =>
    rw [hasChanges, Bool.or_eq_false_iff, ih]
    refine ⟨fun h x => ?_, fun h => ⟨fun x => h (.element x), h .default⟩⟩
    cases x with
    | default => exact h.2
    | element x => exact h.1 x
    | _ => rfl
  | bang | group => exact iff_of_true rfl fun _ => rfl

end TypeDef

/-! ## Of a parameter -/

namespace Parameter

/-- The pieces of a parameter that can change. -/
inductive Piece
  | value
  | label
  | description
  | tags
  | order
  | parent
  | userData
  | userId
  | definition (piece : TypeDef.Piece)
deriving DecidableEq

/-- Whether the flag of a piece is up. -/
def flag (p : Parameter) : Piece → Bool
  | .value => p.value.changed
  | .label => p.label.changed
  | .description => p.description.changed
  | .tags => p.tags.changed
  | .order => p.order.changed
  | .parent => p.parent.changed
  | .userData => p.userData.changed
  | .userId => p.userId.changed
  | .definition x => p.definition.flag x

variable {p p' p'' : Parameter}

theorem hasChanges_eq_false_iff_flag : p.hasChanges = false ↔ ∀ x, p.flag x = false := by
  rw [hasChanges_eq_false_iff, TypeDef.hasChanges_eq_false_iff]
  refine ⟨fun h x => ?_, fun h => ⟨h .value, h .label, h .description, h .tags, h .order, h .parent,
    h .userData, h .userId, fun x => h (.definition x)⟩⟩
  cases x <;> simp [flag, h]

theorem flag_merge (p other : Parameter) (x : Piece) : (p.merge other).flag x = p.flag x := by
  cases x with
  | value => exact p.changed_value_merge other
  | definition x => exact p.definition.flag_merge other.definition x
  | _ => simp [flag, merge, LocalizedText.merge]

/-- No flag is up on the second parameter that is not up on the first. -/
def RaisesNone (p p' : Parameter) : Prop := ∀ x, p'.flag x = true → p.flag x = true

theorem RaisesNone.refl (p : Parameter) : p.RaisesNone p := fun _ h => h

theorem RaisesNone.trans (h : p.RaisesNone p') (h' : p'.RaisesNone p'') : p.RaisesNone p'' :=
  fun x hx => h x (h' x hx)

theorem raisesNone_children (p : Parameter) (children : IdSet) :
    p.RaisesNone { p with children } := fun x h => by cases x <;> exact h

theorem raisesNone_merge (p other : Parameter) : p.RaisesNone (p.merge other) := fun x h => by
  rwa [flag_merge] at h

theorem raisesNone_applyValue {v : Value} (h : p.applyValue v = .ok p') : p.RaisesNone p' := by
  unfold applyValue at h
  split at h <;> cases h
  intro x hx
  cases x with
  | value => exact (p.value.changed_apply v).symm.trans hx
  | _ => exact hx

/-- A group that a peer names is taken over without a flag, and one that is left without one puts
down the flag that there was. -/
theorem raisesNone_applyGroup (p : Parameter) (group : Option ParamId) :
    p.RaisesNone (p.applyGroup group) := by
  intro x hx
  unfold applyGroup at hx
  split at hx
  · next id _ =>
    cases x with
    | parent => exact (p.parent.changed_apply id).symm.trans hx
    | _ => exact hx
  · split at hx
    · cases x with
      | parent => cases hx
      | _ => exact hx
    · exact hx

end Parameter
end ParamSync
