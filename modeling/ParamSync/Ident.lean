import Std.Data.ExtTreeMap
import Std.Data.ExtTreeSet
import ParamSync.Alike

/-!
# Parameter identifiers

An identifier is a signed 16-bit number; 0 names the root group. Identifiers are ordered as
signed numbers and allocated as unsigned slots. `IdMap` and `IdSet` are ordered by identifier
and have no structure beyond their contents: two of them with the same entries are equal.
-/

namespace ParamSync

/-- Names a parameter of one registry. -/
structure ParamId where
  val : Int16
deriving DecidableEq

namespace ParamId

/-- The implicit group of every parameter that names no other. -/
def root : ParamId := ⟨0⟩

def isRoot (id : ParamId) : Bool := id.val == 0

/-- The identifier as an unsigned number, by which free ones are looked for. -/
def slot (id : ParamId) : UInt16 := id.val.toUInt16

def ofSlot (slot : UInt16) : ParamId := ⟨slot.toInt16⟩

instance : Ord ParamId := ⟨fun a b => compare a.val b.val⟩

instance : Std.TransOrd ParamId where
  eq_swap {a b} :=
    have h : compare a.val b.val = (compare b.val a.val).swap := Std.OrientedCmp.eq_swap
    h
  isLE_trans {a b c} hab hbc :=
    have h : (compare a.val b.val).isLE → (compare b.val c.val).isLE →
        (compare a.val c.val).isLE := Std.TransCmp.isLE_trans
    h hab hbc

instance : Std.LawfulEqOrd ParamId where
  eq_of_compare {a b} h := by
    have h' : compare a.val b.val = .eq := h
    cases a; cases b
    exact congrArg _ (Std.LawfulEqOrd.eq_of_compare h')

instance : Alike ParamId := ⟨(· == ·)⟩

instance : LawfulAlike ParamId := ⟨by simp [alike]⟩

/-- The identifier as messages show it. -/
def text (id : ParamId) : String := "param-" ++ toString id.val.toInt

@[simp] theorem isRoot_iff {id : ParamId} : id.isRoot = true ↔ id = root := by
  cases id; simp [isRoot, root]

@[simp] theorem isRoot_root : root.isRoot = true := rfl

@[simp] theorem isRoot_eq_false_iff {id : ParamId} : id.isRoot = false ↔ id ≠ root := by
  rw [← Bool.not_eq_true, isRoot_iff]

@[simp] theorem ofSlot_slot (id : ParamId) : ofSlot id.slot = id := by
  cases id; simp [ofSlot, slot]

@[simp] theorem slot_ofSlot (slot : UInt16) : (ofSlot slot).slot = slot := by
  simp [ofSlot, ParamId.slot]

end ParamId

/-- A finite map from identifiers, in ascending order. -/
abbrev IdMap (α : Type) := Std.ExtTreeMap ParamId α

namespace IdMap

variable {α : Type}

theorem getElem?_insert_eq (m : IdMap α) (id : ParamId) (a : α) (x : ParamId) :
    (m.insert id a)[x]? = if x = id then some a else m[x]? := by
  simp only [Std.ExtTreeMap.getElem?_insert, Std.compare_eq_iff_eq, @eq_comm _ x id]

theorem getElem?_erase_eq (m : IdMap α) (id x : ParamId) :
    (m.erase id)[x]? = if x = id then none else m[x]? := by
  simp only [Std.ExtTreeMap.getElem?_erase, Std.compare_eq_iff_eq, @eq_comm _ x id]

theorem getElem?_modify_eq (m : IdMap α) (id : ParamId) (f : α → α) (x : ParamId) :
    (m.modify id f)[x]? = if x = id then m[x]?.map f else m[x]? := by
  simp only [Std.ExtTreeMap.getElem?_modify, Std.compare_eq_iff_eq, @eq_comm _ x id]
  split
  · next h => rw [h]
  · rfl

end IdMap

/-- Taking a present entry out makes a map smaller. -/
theorem IdMap.size_erase_lt {α : Type} {m : IdMap α} {id : ParamId} {a : α}
    (h : m[id]? = some a) : (m.erase id).size < m.size := by
  have hmem : m.contains id = true := by
    rw [Std.ExtTreeMap.contains_eq_isSome_getElem?, h]; rfl
  have hpos : m.size ≠ 0 := fun h0 => by
    have hempty := Std.ExtTreeMap.eq_empty_iff_size_eq_zero.2 h0
    have := Std.ExtTreeMap.eq_empty_iff_forall_contains.1 hempty id
    simp [hmem] at this
  rw [Std.ExtTreeMap.size_erase, hmem, if_pos rfl]
  omega

/-- A finite set of identifiers, in ascending order. -/
abbrev IdSet := Std.ExtTreeSet ParamId

theorem IdSet.mem_insert_iff {ids : IdSet} {id x : ParamId} :
    x ∈ ids.insert id ↔ x = id ∨ x ∈ ids := by
  rw [Std.ExtTreeSet.mem_insert, Std.compare_eq_iff_eq, eq_comm]

end ParamSync
