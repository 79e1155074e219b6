import ParamSync.Field
import ParamSync.Value

/-!
# Values that count as the same

Likeness is how the program compares, and no more than that: it is symmetric and transitive, but a
NaN is not like itself. Two values count as the same if they are equal or alike. What is stored in a
field, by its owner or by a peer, is then the same as what the field holds.

Results:
* `Value.equal_symm`, `Value.equal_trans`: likeness of values is symmetric and transitive.
* `Same.symm`, `Same.trans`: so is being the same.
* `Field.same_set`, `Field.same_apply`: what was stored is there.
-/

namespace ParamSync

/-- Types on which likeness is symmetric and transitive. -/
class Likeness (α : Type) [Alike α] : Prop where
  symm : ∀ {a b : α}, alike a b = true → alike b a = true
  trans : ∀ {a b c : α}, alike a b = true → alike b c = true → alike a c = true

/-! ## Values -/

theorem BinaryFormat.equal_trans (F : BinaryFormat) {a b c : Nat} (hab : F.equal a b = true)
    (hbc : F.equal b c = true) : F.equal a c = true := by
  simp only [BinaryFormat.equal, Bool.and_eq_true, beq_iff_eq] at *
  obtain ⟨⟨ha, -⟩, hab⟩ := hab
  obtain ⟨⟨-, hc⟩, hbc⟩ := hbc
  exact ⟨⟨ha, hc⟩, hab.trans hbc⟩

instance (k : NumberKind) : Likeness (Number k) where
  symm {a b} h := by
    simp only [alike, Number.equal] at *
    split at h
    · next F _ => rwa [F.equal_comm]
    · exact BEq.symm h
  trans {a b c} h h' := by
    simp only [alike, Number.equal] at *
    cases hk : k.reading with
    | binary F =>
      rw [hk] at h h'
      exact F.equal_trans h h'
    | signed =>
      rw [hk] at h h'
      exact BEq.trans h h'
    | unsigned =>
      rw [hk] at h h'
      exact BEq.trans h h'

namespace Value

theorem equal_number {k : NumberKind} (a b : Number k) :
    equal (number k a) (number k b) = alike a b := dif_pos rfl

theorem equal_symm (a b : Value) (h : equal a b = true) : equal b a = true := by
  fun_induction equal a b with
  | case2 k b a =>
    rw [equal_number]
    exact Likeness.symm h
  | case8 lower upper lower' upper' ihl ihr =>
    rw [Bool.and_eq_true] at h
    rw [equal, ihl h.1, ihr h.2]
    rfl
  | case3 => cases h
  | case10 => cases h
  | _ => exact BEq.symm h

theorem equal_trans (a b c : Value) (h : equal a b = true) (h' : equal b c = true) :
    equal a c = true := by
  fun_induction equal a b generalizing c with
  | case2 k b a =>
    cases c with
    | number l c =>
      rw [equal] at h'
      split at h'
      · next hk =>
        subst hk
        rw [equal_number]
        exact Likeness.trans h h'
      · cases h'
    | _ => cases h'
  | case8 lower upper lower' upper' ihl ihr =>
    cases c with
    | range lower'' upper'' =>
      rw [Bool.and_eq_true] at h
      rw [equal, Bool.and_eq_true] at h'
      rw [equal, ihl _ h.1 h'.1, ihr _ h.2 h'.2]
      rfl
    | _ => cases h'
  | case3 => cases h
  | case10 => cases h
  | _ =>
    cases c <;> first
      | exact BEq.trans h h'
      | cases h'

end Value

instance : Likeness Value where
  symm {a b} := Value.equal_symm a b
  trans {a b c} := Value.equal_trans a b c

instance {α : Type} [Alike α] [Likeness α] : Likeness (Option α) where
  symm {v w} h := by
    cases v <;> cases w <;> first | exact h | exact Likeness.symm (α := α) h
  trans {u v w} h h' := by
    cases u <;> cases v <;> cases w <;> first
      | exact h
      | exact h'
      | exact Likeness.trans (α := α) h h'
      | cases h

/-! ## The same -/

/-- The values are equal or alike. -/
def Same {α : Type} [Alike α] (v w : α) : Prop := v = w ∨ alike v w = true

instance {α : Type} [Alike α] [DecidableEq α] (v w : α) : Decidable (Same v w) :=
  inferInstanceAs (Decidable (v = w ∨ alike v w = true))

namespace Same

variable {α : Type} [Alike α] {u v w : α}

theorem refl (v : α) : Same v v := .inl rfl

theorem symm [Likeness α] (h : Same v w) : Same w v := h.imp Eq.symm Likeness.symm

theorem trans [Likeness α] (h : Same u v) (h' : Same v w) : Same u w := by
  rcases h with rfl | h
  · exact h'
  · rcases h' with rfl | h'
    · exact .inr h
    · exact .inr (Likeness.trans h h')

/-- Nothing counts as the same as something only if it is something. -/
theorem isSome {v : Option α} {a : α} (h : Same v (some a)) : v.isSome = true := by
  cases v with
  | none => exact absurd h (by simp [Same, alike])
  | some b => rfl

end Same

namespace Field

variable {α : Type} [Alike α]

theorem same_apply (f : Field α) (a : α) : Same (f.apply a).value (some a) := by
  unfold apply
  split
  · exact .refl _
  · next h => exact .inr (by simpa [differs] using h)

/-- What is stored of our own is a change, or it was there. -/
theorem set_cases (f : Field α) (a : α) : f.set a = ⟨some a, true⟩ ∨ f.set a = f := by
  unfold set
  split
  · exact .inl rfl
  · exact .inr rfl

theorem set_of_unchanged {f : Field α} {a : α} (h : (f.set a).changed = false) : f.set a = f := by
  refine (f.set_cases a).resolve_left fun hset => ?_
  rw [hset] at h
  cases h

theorem same_set (f : Field α) (a : α) : Same (f.set a).value (some a) := by
  unfold set
  split
  · exact .refl _
  · next h => exact .inr (by simpa [differs] using h)

end Field
end ParamSync
