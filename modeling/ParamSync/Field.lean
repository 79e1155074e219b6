import ParamSync.Alike
import ParamSync.Bytes

/-!
# Fields that remember a change

Every optional piece of a parameter or of a type definition is a field: a value that may be
absent, and whether it changed here since the changes were last sent. A full write sends each
present value and leaves the flags alone. A delta write sends what changed, an absent value as
the field's sentinel, and resets the flags; `written` is the field after either. Values that come
from a peer are applied without a flag, so they are never sent back.
-/

namespace ParamSync

/-- What a local change or clearing reports: whether anything changed, and nothing for a
clearing. -/
abbrev Report := Option Bool

/-- What a field contributes to a write. -/
inductive Pending (α : Type)
  | skip
  | present (a : α)
  | cleared

/-- An optional value and whether it changed since it was last sent. -/
structure Field (α : Type) where
  value : Option α := none
  changed : Bool := false
deriving DecidableEq

namespace Field

variable {α : Type}

/-- A field that holds a value and has not changed. -/
def of (a : α) : Field α := ⟨some a, false⟩

def isPresent (f : Field α) : Bool := f.value.isSome

/-- Removes the value; the next delta write tells so. -/
def clear (_ : Field α) : Field α := ⟨none, true⟩

/-- The field once its change has been sent. -/
def sent (f : Field α) : Field α := { f with changed := false }

/-! ## Storing -/

section Storing

variable [Alike α]

/-- Whether storing `a` would change the value. -/
def differs (f : Field α) (a : α) : Bool := !alike f.value (some a)

/-- Stores a value of a peer. -/
def apply (f : Field α) (a : α) : Field α :=
  if f.differs a then { f with value := some a } else f

/-- Stores a value of our own. -/
def set (f : Field α) (a : α) : Field α :=
  if f.differs a then ⟨some a, true⟩ else f

/-- A local change: `some a` stores `a` and `none` clears. -/
def edit (f : Field α) : Option α → Field α
  | some a => f.set a
  | none => f.clear

/-- What `edit` reports. -/
def report (f : Field α) (change : Option α) : Report := change.map f.differs

/-- The field after the value of a peer's field, if there is one, has been applied. -/
def merge (f other : Field α) : Field α :=
  match other.value with
  | some a => f.apply a
  | none => f

/-- Whether `merge` would change the value. -/
def gains (f other : Field α) : Bool :=
  match other.value with
  | some a => f.differs a
  | none => false

instance : Alike (Field α) := ⟨fun f g => alike f.value g.value⟩

end Storing

/-! ## Writing -/

/-- What the field contributes to a full write (`all`) or a delta write. -/
def pending (f : Field α) (all : Bool) : Pending α :=
  match f.value with
  | some a => if all || f.changed then .present a else .skip
  | none => if f.changed && !all then .cleared else .skip

/-- The field as an option with the given code, where it is due. The sentinel stands for a value
that has been removed; it is not computed otherwise. -/
def encode (f : Field α) (all : Bool) (code : UInt8) (sentinel : Unit → α) (bytes : α → Bytes) :
    Bytes :=
  match f.pending all with
  | .skip => []
  | .present a => code :: bytes a
  | .cleared => code :: bytes (sentinel ())

/-- The field after a write. What a delta write has told of is no change any more, and a full write
leaves the flag to the delta that is still to come. -/
def written (f : Field α) (all : Bool) : Field α :=
  match f.pending all with
  | .skip => f
  | .present _ => if all then f else f.sent
  | .cleared => f.sent

/-! ## Laws -/

@[simp] theorem changed_of (a : α) : (of a).changed = false := rfl

@[simp] theorem changed_sent (f : Field α) : f.sent.changed = false := rfl

@[simp] theorem value_sent (f : Field α) : f.sent.value = f.value := rfl

/-- Where likeness is equality, a value that would change nothing is there. -/
theorem value_of_not_differs [Alike α] [LawfulAlike α] {f : Field α} {a : α}
    (h : ¬ f.differs a = true) : f.value = some a := by
  unfold differs at h
  cases hv : f.value with
  | none => simp [hv, alike] at h
  | some b =>
    have hba : alike b a = true := by simpa [hv, alike] using h
    rw [(LawfulAlike.alike_iff_eq b a).1 hba]

/-- What was stored is there then. -/
@[simp] theorem value_set [Alike α] [LawfulAlike α] (f : Field α) (a : α) :
    (f.set a).value = some a := by
  unfold set
  split
  · rfl
  · next h => exact value_of_not_differs h

@[simp] theorem value_apply [Alike α] [LawfulAlike α] (f : Field α) (a : α) :
    (f.apply a).value = some a := by
  unfold apply
  split
  · rfl
  · next h => exact value_of_not_differs h

@[simp] theorem changed_apply [Alike α] (f : Field α) (a : α) :
    (f.apply a).changed = f.changed := by
  unfold apply; split <;> rfl

@[simp] theorem changed_merge [Alike α] (f g : Field α) : (f.merge g).changed = f.changed := by
  unfold merge; split <;> simp

theorem pending_all (f : Field α) :
    f.pending true = match f.value with | some a => .present a | none => .skip := by
  unfold pending; cases f.value <;> simp

@[simp] theorem written_true (f : Field α) : f.written true = f := by
  rw [written, pending_all]
  cases f.value <;> rfl

@[simp] theorem written_false (f : Field α) : f.written false = f.sent := by
  obtain ⟨_ | a, _ | _⟩ := f <;> rfl

end Field
end ParamSync
