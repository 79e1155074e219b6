import ParamSync.Proofs.Codec.Accepted
import ParamSync.Proofs.Codec.Kinds
import ParamSync.Proofs.Codec.Lossless

/-!
# What the short form tells of a definition

The short form of a value tells two datatypes, and who reads it makes up a definition from them: the
one of the same kind that has no options. That is enough to read the value.

Results:
* `TypeDef.accepts_bare`, `TypeDef.wellFormed_bare`: a definition without its options is for the
  same values.
* `ValueUpdate.definition_ok`, `TypeDef.definition_eq_bare`: what is made up from the two datatypes.
* `ValueUpdate.run_readElement`: the element of a range is read where it was written.
-/

namespace ParamSync

open Reader

/-! ## Definitions without options -/

namespace TypeDef

/-- The definition of the same kind that has no options. -/
def bare : TypeDef → TypeDef
  | boolean _ => boolean {}
  | number k _ => number k {}
  | string _ => string {}
  | enum _ => enum {}
  | uri _ => uri {}
  | rgb _ => rgb {}
  | rgba _ => rgba {}
  | ipv4 _ => ipv4 {}
  | ipv6 _ => ipv6 {}
  | range element _ => range element.bare {}
  | custom d => custom { size := d.size }
  | bang => bang
  | group => group

theorem datatype_bare (d : TypeDef) : d.bare.datatype = d.datatype := by cases d <;> rfl

theorem elementDatatype?_bare (d : TypeDef) : d.bare.elementDatatype? = d.elementDatatype? := by
  cases d with
  | range element default => exact congrArg some (datatype_bare element)
  | _ => rfl

theorem hasValue_bare (d : TypeDef) : d.bare.hasValue = d.hasValue := by cases d <;> rfl

theorem accepts_bare (d : TypeDef) : d.bare.accepts = d.accepts := by
  induction d with
  | range element default ih =>
    funext v
    cases v with
    | range lower upper => simp only [bare, accepts, ih]
    | _ => rfl
  | _ => rfl

theorem fits_bare {d : TypeDef} {v : Value} (h : d.Fits v) : d.bare.Fits v := by
  refine ⟨by rw [accepts_bare, h.1], ?_⟩
  cases d with
  | string d => exact h.2
  | enum d => exact h.2
  | uri d => exact h.2
  | _ => trivial

/-- It is heard as it is written, as a full write and as a delta. -/
theorem heard_bare (d : TypeDef) (all : Bool) : d.bare.heard all = d.bare := by
  induction d with
  | range element default ih =>
    rw [bare, heard_range, ih]
    cases all <;> rfl
  | _ => cases all <;> rfl

end TypeDef

/-! ## What is made up -/

theorem TypeDef.datatype_of_ofDatatype? {datatype : Datatype} {d : TypeDef}
    (h : ofDatatype? datatype = some d) : d.datatype = datatype := by
  unfold ofDatatype? at h
  split at h <;> cases h <;> rfl

namespace ValueUpdate

variable {u : ValueUpdate} {d : TypeDef} {datatype : Datatype} {element : Option Datatype}

/-- The definition that is made up is one of the datatype, and the element of a range a number. -/
theorem definition_ok (h : definition datatype element = .ok d) :
    d.datatype = datatype ∧ d.WellFormed ∧
      (datatype = .range → ∃ k, element = some (.number k)) := by
  unfold definition at h
  split at h
  · next k =>
    cases h
    exact ⟨rfl, rfl, fun _ => ⟨k, rfl⟩⟩
  · cases h
  · cases h
  · split at h
    · next e he =>
      cases h
      have hof := (Option.filter_eq_some_iff.1 he).1
      refine ⟨TypeDef.datatype_of_ofDatatype? hof, TypeDef.wellFormed_of_ofDatatype? hof, ?_⟩
      rintro rfl
      cases hof
    · cases h

theorem gives_readElement (datatype : Datatype) :
    (readElement datatype).Gives fun element => element ≠ none → datatype = .range := by
  unfold readElement
  split
  · next h => exact Gives.after _ fun _ => gives_pure fun _ => h
  · exact gives_pure fun h => absurd rfl h

/-- The element of a range that can be written is read, and so is that of an update without. -/
theorem run_readElement (hdefinition : definition u.datatype u.element = .ok d)
    (helement : u.element ≠ none → u.datatype = .range) (rest : Bytes) :
    (readElement u.datatype).run ((u.element.map Datatype.code).toList ++ rest) =
      .ok (u.element, rest) := by
  obtain ⟨-, -, hrange⟩ := definition_ok hdefinition
  unfold readElement
  split
  · next hdatatype =>
    obtain ⟨k, hk⟩ := hrange hdatatype
    rw [hk]
    exact run_bind_of_ok (TypeDef.run_datatype (.number k) rest) _
  · next hdatatype =>
    cases he : u.element with
    | none => rfl
    | some e => exact absurd (helement (by simp [he])) hdatatype

end ValueUpdate

namespace TypeDef

/-- The element, if there is one, is a number. -/
def HasNumbers (d : TypeDef) : Prop := ∀ e, d.elementDatatype? = some e → e.isNumber = true

theorem hasNumbers_of_wellFormed {d : TypeDef} (h : d.WellFormed) : d.HasNumbers := by
  rintro datatype hdatatype
  cases d with
  | range element default =>
    cases hdatatype
    exact h
  | _ => cases hdatatype

theorem wellFormed_bare {d : TypeDef} (h : d.HasNumbers) : d.bare.WellFormed := by
  cases d with
  | enum d => rintro _ ⟨⟩
  | range element default =>
    show element.bare.datatype.isNumber = true
    rw [datatype_bare]
    exact h _ rfl
  | custom d => rintro _ ⟨⟩
  | _ => trivial

/-- The short form makes up the definition without options, unless a range is over something that is
no number. -/
theorem definition_eq_bare {d : TypeDef} (hcustom : d.datatype ≠ .custom)
    (hvalue : d.hasValue = true) (h : d.HasNumbers) :
    ValueUpdate.definition d.datatype d.elementDatatype? = .ok d.bare := by
  cases d with
  | range element default =>
    obtain ⟨k, e, rfl⟩ := eq_number_of_isNumber (h _ rfl)
    rfl
  | custom d => exact absurd rfl hcustom
  | bang => cases hvalue
  | group => cases hvalue
  | _ => rfl

theorem hasNumbers_of_definition {d e : TypeDef}
    (h : ValueUpdate.definition d.datatype d.elementDatatype? = .ok e) : d.HasNumbers := by
  intro datatype hdatatype
  cases d with
  | range element default =>
    obtain ⟨-, -, hrange⟩ := ValueUpdate.definition_ok h
    obtain ⟨k, hk⟩ := hrange rfl
    rw [hdatatype, Option.some.injEq] at hk
    rw [hk]
    rfl
  | _ => cases hdatatype

theorem hasValue_of_accepts {d : TypeDef} {v : Value} (h : d.accepts v = true) :
    d.hasValue = true := by
  cases d with
  | bang => cases h
  | group => cases h
  | _ => rfl

end TypeDef

namespace Parameter

variable {p : Parameter} {v : Value}

/-- The short form of the value of a parameter. -/
def short (p : Parameter) (v : Value) : ValueUpdate :=
  ⟨p.id, p.datatype, p.definition.elementDatatype?, v⟩

/-- Every value has a short form, those of custom types apart. -/
theorem ofParameter?_eq_short (hcustom : p.datatype ≠ .custom) (hv : p.value.value = some v) :
    ValueUpdate.ofParameter? p = some (p.short v) := by
  rw [datatype] at hcustom
  unfold ValueUpdate.ofParameter? short datatype
  rw [hv]
  cases hd : p.definition with
  | custom d => exact absurd (congrArg TypeDef.datatype hd) hcustom
  | _ => rfl

/-- Only the value of a range has an element beside it. -/
theorem datatype_short_of_element (h : (p.short v).element ≠ none) :
    (p.short v).datatype = .range := by
  unfold short datatype at *
  cases hd : p.definition with
  | range element default => rfl
  | _ => exact absurd (congrArg TypeDef.elementDatatype? hd) h

end Parameter
end ParamSync
