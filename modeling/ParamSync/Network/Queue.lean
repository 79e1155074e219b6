/-!
# Queues

First in, first out. A queue is a list of its elements, the oldest first; `toList` is that view,
and each operation says what it does to it.
-/

namespace ParamSync

/-- A queue: the oldest elements in order, then the newest in reverse. -/
structure Queue (α : Type) where
  front : List α := []
  back : List α := []

namespace Queue

variable {α : Type}

/-- The elements, the oldest first. -/
def toList (q : Queue α) : List α := q.front ++ q.back.reverse

def size (q : Queue α) : Nat := q.front.length + q.back.length

/-- Adds an element at the end. -/
def push (q : Queue α) (a : α) : Queue α := { q with back := a :: q.back }

/-- Takes the oldest element out. -/
def pop? (q : Queue α) : Option (α × Queue α) :=
  match q.front with
  | a :: front => some (a, { q with front })
  | [] =>
    match q.back.reverse with
    | a :: front => some (a, { front })
    | [] => none

@[simp] theorem toList_empty : ({} : Queue α).toList = [] := rfl

@[simp] theorem toList_push (q : Queue α) (a : α) : (q.push a).toList = q.toList ++ [a] := by
  simp [toList, push]

@[simp] theorem length_toList (q : Queue α) : q.toList.length = q.size := by
  simp [toList, size]

theorem pop?_eq_none_iff {q : Queue α} : q.pop? = none ↔ q.toList = [] := by
  unfold pop? toList
  split
  · simp_all
  · split <;> simp_all

theorem toList_of_pop? {q r : Queue α} {a : α} (h : q.pop? = some (a, r)) :
    q.toList = a :: r.toList := by
  unfold pop? at h
  split at h
  · next front heq => cases h; simp [toList, heq]
  · next heq =>
    split at h
    · next front hback => cases h; simp [toList, heq, hback]
    · cases h

end Queue
end ParamSync
