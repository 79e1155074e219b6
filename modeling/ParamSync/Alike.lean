/-!
# Likeness

Two values are alike when a comparison of them, as the program makes it, finds no difference.
For most types that is equality. Floating-point numbers are compared as numbers and not by their
bits, so a NaN is unlike itself and the two zeros are alike; this is why likeness is a relation
of its own beside `=`.
-/

namespace ParamSync

/-- Types whose values the program compares. -/
class Alike (α : Type) where
  /-- Whether a comparison finds no difference. -/
  alike : α → α → Bool

export Alike (alike)

instance : Alike Bool := ⟨(· == ·)⟩
instance : Alike String := ⟨(· == ·)⟩
instance : Alike UInt8 := ⟨(· == ·)⟩
instance : Alike Int32 := ⟨(· == ·)⟩

instance {α β : Type} [Alike α] [Alike β] : Alike (α × β) :=
  ⟨fun x y => alike x.1 y.1 && alike x.2 y.2⟩

instance {α : Type} [Alike α] : Alike (Option α) where
  alike
    | none, none => true
    | some a, some b => alike a b
    | _, _ => false

/-- Lists are alike when they have the same length and like elements. -/
def alikeList {α : Type} [Alike α] : List α → List α → Bool
  | [], [] => true
  | a :: as, b :: bs => alike a b && alikeList as bs
  | _, _ => false

instance {α : Type} [Alike α] : Alike (List α) := ⟨alikeList⟩

/-- Types on which likeness is equality. -/
class LawfulAlike (α : Type) [Alike α] : Prop where
  alike_iff_eq : ∀ a b : α, alike a b = true ↔ a = b

instance : LawfulAlike Bool := ⟨by simp [alike]⟩
instance : LawfulAlike String := ⟨by simp [alike]⟩
instance : LawfulAlike UInt8 := ⟨by simp [alike]⟩
instance : LawfulAlike Int32 := ⟨by simp [alike]⟩

instance {α : Type} [Alike α] [LawfulAlike α] : LawfulAlike (List α) where
  alike_iff_eq a b := by
    induction a generalizing b with
    | nil => cases b <;> simp [alike, alikeList]
    | cons x xs ih =>
      cases b with
      | nil => simp [alike, alikeList]
      | cons y ys =>
        have h := ih ys
        simp only [alike] at h
        simp only [alike, alikeList, Bool.and_eq_true, h, List.cons.injEq]
        rw [show Alike.alike x y = true ↔ x = y from LawfulAlike.alike_iff_eq x y]

end ParamSync
