import ParamSync.Proofs.Codec.Gaining
import ParamSync.Proofs.Codec.ShortForm

/-!
# A value alone

A value can be told in the short form, or with a parameter that has nothing else to tell: one whose
definition has no options. The two are written and read by different code. The definition that the
reader of the short form makes up is the one that the other brings, and the same value is heard.

Results:
* `TypeDef.merge_bare`, `TypeDef.gains_bare`: a definition without options changes nothing.
* `TypeDef.elementDatatype?_of_accepts`: who accepts the value of a range has the same element.
* `Parameter.exists_encode_short`, `Parameter.ofBytes_valueOnly`: what is read of the two.
-/

namespace ParamSync

open Reader

/-! ## Definitions without options -/

namespace TypeDef

theorem noNaN_bare (d : TypeDef) : d.bare.NoNaN := by
  induction d with
  | number k d => exact ⟨by rintro _ ⟨⟩, by rintro _ ⟨⟩, by rintro _ ⟨⟩, by rintro _ ⟨⟩⟩
  | range element default ih => exact ⟨ih, by rintro _ ⟨⟩⟩
  | _ => trivial

theorem gains_bare (d e : TypeDef) : d.gains e.bare = false := by
  induction e generalizing d with
  | number l e =>
    cases d with
    | number k d =>
      by_cases h : l = k
      · subst h
        exact gains_number d {}
      · exact gains_number_of_ne h d {}
    | _ => rfl
  | range b g ih =>
    cases d with
    | range a f =>
      rw [bare, gains, ih]
      rfl
    | _ => rfl
  | custom e =>
    cases d with
    | custom d => exact Bool.and_false _
    | _ => rfl
  | _ => cases d <;> rfl

/-- A definition without options changes nothing. -/
theorem merge_bare (d e : TypeDef) : d.merge e.bare = d :=
  ((truthful (noNaN_bare e)).eq_self_iff d).2 (gains_bare d e)

/-- Only definitions of numbers accept numbers, each those of its own kind. -/
theorem datatype_of_accepts_number {d : TypeDef} {k : NumberKind} {n : Number k}
    (h : d.accepts (.number k n) = true) : d.datatype = .number k := by
  cases d with
  | number l e =>
    obtain ⟨m, hm⟩ := Option.isSome_iff_exists.1 h
    cases Value.toNumber?_eq_some_iff.1 hm
    rfl
  | _ => cases h

/-- Who accepts the value of a range that was heard has an element of the same datatype. -/
theorem elementDatatype?_of_accepts {d e : TypeDef} {v : Value} (hd : d.WellFormed)
    (hdatatype : e.datatype = d.datatype) (h : e.accepts (d.heardValue v) = true) :
    e.elementDatatype? = d.elementDatatype? := by
  cases d with
  | range element default =>
    obtain ⟨k, a, rfl⟩ := eq_number_of_isNumber hd
    cases e with
    | range element' default' =>
      obtain ⟨n, upper, hheard⟩ : ∃ (n : Number k) (upper : Value),
          (range (number k a) default).heardValue v = .range (.number k n) upper := by
        cases v <;> exact ⟨_, _, rfl⟩
      rw [hheard] at h
      exact congrArg some (datatype_of_accepts_number (Bool.and_eq_true_iff.1 h).1)
    | _ => cases hdatatype
  | _ => cases e <;> first | rfl | cases hdatatype

end TypeDef

/-! ## What is written and read -/

namespace ValueUpdate

/-- The parameter that brings the value, with a definition of the kind that has no options. -/
def carrier (u : ValueUpdate) (d : TypeDef) : Parameter where
  id := u.id
  definition := d.bare
  value := .of u.value

end ValueUpdate

namespace Packet

/-- The update that brings a parameter, with a time or without. -/
def updateAt (timestamp : Option UInt64) (p : Parameter) : Packet :=
  { command := .update, timestamp, data := some (.parameter p) }

theorem ofBytes_updateAt (timestamp : Option UInt64) {p : Parameter} {all : Bool}
    (h : p.Legible all) :
    ofBytes ((updateAt timestamp p).encodeFramed all) =
      .ok (some (updateAt timestamp (p.heard all))) :=
  have hdata : ∀ rest, (readData .update).run (p.encode all ++ rest) =
      .ok (.parameter (p.heard all), rest) :=
    fun rest => run_bind_of_ok (Parameter.run_read h rest) _
  ofBytes_options (show Command.update ≠ .updateValue by decide)
    ((optionList_timestamp .update timestamp).append (optionList_data hdata))

end Packet

namespace Parameter

variable {p : Parameter} {v : Value}

/-- The short form can be written only if the element, if there is one, is a number. -/
theorem hasNumbers_of_encode_short {all : Bool} {compact : Bytes}
    (h : (Packet.ofValue (p.short v)).encode all = .ok compact) : p.definition.HasNumbers := by
  cases hbody : (p.short v).encode with
  | error e =>
    rw [Packet.encode_ofValue, hbody] at h
    cases h
  | ok body =>
    obtain ⟨d, hdefinition, -⟩ := ValueUpdate.encode_ok hbody
    exact TypeDef.hasNumbers_of_definition hdefinition

/-- If it is, the short form is written, and read with the value as it is heard. -/
theorem exists_encode_short (hcustom : p.datatype ≠ .custom)
    (haccepts : p.definition.accepts v = true) (hnumbers : p.definition.HasNumbers) :
    ∃ compact, (∀ all, (Packet.ofValue (p.short v)).encode all = .ok compact) ∧
      Packet.ofBytes compact =
        .ok (some (Packet.ofValue (p.short (p.definition.bare.heardValue v)))) := by
  have hdefinition : ValueUpdate.definition (p.short v).datatype (p.short v).element =
      .ok p.definition.bare :=
    TypeDef.definition_eq_bare hcustom (TypeDef.hasValue_of_accepts haccepts) hnumbers
  have hbare : p.definition.bare.accepts v = true := by rw [TypeDef.accepts_bare, haccepts]
  obtain ⟨body, hencode, hread⟩ := ValueUpdate.exists_encode_heard hdefinition
    datatype_short_of_element hbare
  refine ⟨Command.updateValue.code :: body, fun all => ?_, ?_⟩
  · rw [Packet.encode_ofValue, hencode]
    rfl
  · have hrun := hread []
    rw [List.append_nil] at hrun
    rw [Packet.ofBytes, Packet.run_read_updateValue, run_bind_of_ok hrun]
    rfl

/-- The parameter that has nothing to tell but the value of this one. -/
def valueOnly (p : Parameter) : Parameter where
  id := p.id
  definition := p.definition.bare
  value := ⟨p.value.value, true⟩

theorem heard_valueOnly (hv : p.value.value = some v) (hvalue : p.definition.hasValue = true)
    (all : Bool) :
    p.valueOnly.heard all =
      (p.short (p.definition.bare.heardValue v)).carrier p.definition := by
  have hhas : p.definition.bare.hasValue = true := by rw [TypeDef.hasValue_bare, hvalue]
  unfold heard valueOnly
  rw [hv, TypeDef.heard_bare]
  simp only [hhas, if_true]
  cases all <;> rfl

/-- The value alone is read as it is heard. -/
theorem ofBytes_valueOnly (hv : p.value.value = some v) (hvalue : p.definition.hasValue = true)
    (hnumbers : p.definition.HasNumbers) (timestamp : Option UInt64) (all : Bool) :
    Packet.ofBytes ((Packet.updateAt timestamp p.valueOnly).encodeFramed all) =
      .ok (some (Packet.updateAt timestamp
        ((p.short (p.definition.bare.heardValue v)).carrier p.definition))) := by
  have hlegible : p.valueOnly.Legible all :=
    ⟨TypeDef.wellFormed_bare hnumbers, by simp [valueOnly, LocalizedText.Legible],
      by simp [valueOnly, LocalizedText.Legible]⟩
  rw [Packet.ofBytes_updateAt timestamp hlegible, heard_valueOnly hv hvalue]

end Parameter
end ParamSync
