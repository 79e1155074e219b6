import ParamSync.Proofs.Codec.Definition

/-!
# Kinds of definitions

What values a definition accepts hangs on little of it: its datatype, the size of a custom type, and
the datatype of the element of a range. Two definitions that agree on these are of the same kind,
and whatever their options are, a value of the one is a value of the other.

Results:
* `TypeDef.SameKind.accepts_eq`: definitions of the same kind accept the same values.
-/

namespace ParamSync
namespace TypeDef

/-- The size of the values, where the definition sets one. -/
def size? : TypeDef → Option UInt32
  | custom d => some d.size
  | _ => none

/-- The datatype of the two sides of a range. -/
def elementDatatype? : TypeDef → Option Datatype
  | range element _ => some element.datatype
  | _ => none

/-- The definitions are for the same values. -/
structure SameKind (d e : TypeDef) : Prop where
  datatype : d.datatype = e.datatype
  size : d.size? = e.size?
  element : d.elementDatatype? = e.elementDatatype?

/-- A definition of the kind of a range of numbers is one. -/
theorem SameKind.exists_range {k : NumberKind} {a : NumberDef k} {f : Field (Value × Value)}
    {e : TypeDef} (h : (range (number k a) f).SameKind e) :
    ∃ b g, e = range (number k b) g := by
  cases e with
  | range element g =>
    obtain ⟨b, rfl⟩ := eq_number (Option.some.inj h.element).symm
    exact ⟨b, g, rfl⟩
  | _ => cases h.datatype

/-- A definition of the kind of a custom type is one of the same size. -/
theorem SameKind.exists_custom {d : CustomDef} {e : TypeDef} (h : (custom d).SameKind e) :
    ∃ d', e = custom d' ∧ d'.size = d.size := by
  cases e with
  | custom d' => exact ⟨d', rfl, (Option.some.inj h.size).symm⟩
  | _ => cases h.datatype

/-- Definitions of the same kind accept the same values. -/
theorem SameKind.accepts_eq {d e : TypeDef} (h : d.SameKind e) (hd : d.WellFormed) :
    e.accepts = d.accepts := by
  cases d with
  | range element f =>
    obtain ⟨k, a, rfl⟩ := eq_number_of_isNumber hd
    obtain ⟨b, g, rfl⟩ := h.exists_range
    funext v
    cases v <;> rfl
  | custom d =>
    obtain ⟨d', rfl, hsize⟩ := h.exists_custom
    funext v
    simp only [accepts, CustomDef.accepts, hsize]
  | _ =>
    cases e <;> cases h.datatype
    rfl

end TypeDef
end ParamSync
