import ParamSync.Wire.Error

/-!
# Readers

A reader takes bytes off the front of a message. It gives a result and the bytes that it leaves,
or an error. That it leaves a suffix of what it was given is part of the type, so repetition ends
by the length of the input: `Reader.loop` repeats a step that takes at least one byte, and no
bound on the number of rounds is needed.
-/

namespace ParamSync

/-- Takes bytes off the front of a message. -/
structure Reader (α : Type) where
  /-- The result and the bytes left over. -/
  run : Bytes → Except ProtocolError (α × Bytes)
  suffix_of_run : ∀ {bs a rest}, run bs = .ok (a, rest) → rest <:+ bs

namespace Reader

variable {α β σ : Type}

instance : Monad Reader where
  pure a := ⟨fun bs => .ok (a, bs), by rintro _ _ _ ⟨⟩; exact List.suffix_refl _⟩
  bind r f :=
    { run := fun bs =>
        match r.run bs with
        | .error e => .error e
        | .ok (a, rest) => (f a).run rest
      suffix_of_run := by
        intro bs b rest h
        split at h
        · cases h
        · next a mid heq => exact ((f a).suffix_of_run h).trans (r.suffix_of_run heq) }

@[simp] theorem run_pure (a : α) (bs : Bytes) : (pure a : Reader α).run bs = .ok (a, bs) := rfl

theorem run_bind (r : Reader α) (f : α → Reader β) (bs : Bytes) :
    (r >>= f).run bs = match r.run bs with
      | .error e => .error e
      | .ok (a, rest) => (f a).run rest := rfl

theorem run_bind_of_ok {r : Reader α} {bs rest : Bytes} {a : α} (h : r.run bs = .ok (a, rest))
    (f : α → Reader β) : (r >>= f).run bs = (f a).run rest := by
  rw [run_bind, h]

theorem run_bind_of_error {r : Reader α} {bs : Bytes} {e : ProtocolError}
    (h : r.run bs = .error e) (f : α → Reader β) : (r >>= f).run bs = .error e := by
  rw [run_bind, h]

@[ext] theorem ext {r s : Reader α} (h : ∀ bs, r.run bs = s.run bs) : r = s := by
  cases r; cases s; congr; exact funext h

/-- The bytes that a read leaves. One that lacks bytes stops in front of those it lacks. -/
def left (r : Reader α) (bs : Bytes) : Bytes :=
  match r.run bs with
  | .ok (_, rest) => rest
  | .error (.unexpectedEnd _ remaining) => bs.drop (bs.length - remaining)
  | .error _ => bs

/-- Refuses the message. -/
def fail (e : ProtocolError) : Reader α := ⟨fun _ => .error e, by rintro _ _ _ ⟨⟩⟩

@[simp] theorem run_fail (e : ProtocolError) (bs : Bytes) :
    (fail e : Reader α).run bs = .error e := rfl

/-- Takes a result that may be missing. -/
def ofOption (e : ProtocolError) : Option α → Reader α
  | some a => pure a
  | none => fail e

/-! ## Bytes -/

/-- The next `n` bytes. Only so many are looked at, however long the message is. -/
def take (n : Nat) : Reader Bytes where
  run bs :=
    let taken := bs.take n
    if taken.length < n then .error (.unexpectedEnd n taken.length) else .ok (taken, bs.drop n)
  suffix_of_run := by
    intro bs a rest h
    dsimp only at h
    split at h
    · cases h
    · cases h; exact List.drop_suffix _ _

/-- The next byte. -/
def u8 : Reader UInt8 where
  run
    | [] => .error (.unexpectedEnd 1 0)
    | b :: rest => .ok (b, rest)
  suffix_of_run := by
    intro bs a rest h
    cases bs with
    | nil => cases h
    | cons b rest => cases h; exact List.suffix_cons _ _

/-- The next byte, which is left in place. -/
def peek : Reader UInt8 where
  run
    | [] => .error (.unexpectedEnd 1 0)
    | b :: rest => .ok (b, b :: rest)
  suffix_of_run := by
    intro bs a rest h
    cases bs with
    | nil => cases h
    | cons b rest => cases h; exact List.suffix_refl _

@[simp] theorem run_u8_cons (b : UInt8) (rest : Bytes) : u8.run (b :: rest) = .ok (b, rest) := rfl

@[simp] theorem run_peek_cons (b : UInt8) (rest : Bytes) :
    peek.run (b :: rest) = .ok (b, b :: rest) := rfl

/-- Fewer bytes than asked for are refused, and their number is reported. -/
theorem run_take_of_length_lt {n : Nat} {bs : Bytes} (h : bs.length < n) :
    (take n).run bs = .error (.unexpectedEnd n bs.length) := by
  have hlen : (bs.take n).length = bs.length := by
    rw [List.length_take, Nat.min_eq_right (Nat.le_of_lt h)]
  simp only [take, hlen, h, if_true]

theorem run_take_of_le_length {n : Nat} {bs : Bytes} (h : n ≤ bs.length) :
    (take n).run bs = .ok (bs.take n, bs.drop n) := by
  have hlen : (bs.take n).length = n := by rw [List.length_take, Nat.min_eq_left h]
  simp only [take, hlen, Nat.lt_irrefl, if_false]

theorem run_take_append {n : Nat} {bs : Bytes} (h : bs.length = n) (rest : Bytes) :
    (take n).run (bs ++ rest) = .ok (bs, rest) := by
  subst h; simp [take]

/-! ## Repetition -/

/-- A reader that never succeeds without taking a byte. -/
def Strict (r : Reader α) : Prop :=
  ∀ ⦃bs a rest⦄, r.run bs = .ok (a, rest) → rest.length < bs.length

theorem strict_u8 : Strict u8 := by
  intro bs a rest h
  cases bs with
  | nil => cases h
  | cons b rest => cases h; exact Nat.lt_succ_self _

theorem strict_take {n : Nat} (hn : 0 < n) : Strict (take n) := by
  intro bs a rest h
  by_cases hlen : bs.length < n
  · rw [run_take_of_length_lt hlen] at h
    cases h
  · rw [run_take_of_le_length (Nat.le_of_not_lt hlen)] at h
    cases h
    rw [List.length_drop]
    omega

theorem strict_fail (e : ProtocolError) : Strict (fail e : Reader α) := by
  intro _ _ _ h; cases h

theorem Strict.bind {r : Reader α} (hr : Strict r) (f : α → Reader β) : Strict (r >>= f) := by
  intro bs b rest h
  rw [run_bind] at h
  split at h
  · cases h
  · next a mid heq => exact Nat.lt_of_le_of_lt ((f a).suffix_of_run h).length_le (hr heq)

theorem strict_bind_right (r : Reader α) {f : α → Reader β} (hf : ∀ a, Strict (f a)) :
    Strict (r >>= f) := by
  intro bs b rest h
  rw [run_bind] at h
  split at h
  · cases h
  · next a mid heq => exact Nat.lt_of_lt_of_le (hf a h) (r.suffix_of_run heq).length_le

/-- What a round of a repetition decides: to go on with a new state, or to stop. -/
inductive Round (σ α : Type)
  | next (s : σ)
  | done (a : α)

/-- The rounds of `loop`, on bytes. -/
def loopRun (step : σ → Reader (Round σ α)) (strict : ∀ s, Strict (step s)) (s : σ)
    (bs : Bytes) : Except ProtocolError (α × Bytes) :=
  match _h : (step s).run bs with
  | .error e => .error e
  | .ok (.done a, rest) => .ok (a, rest)
  | .ok (.next s', rest) => loopRun step strict s' rest
termination_by bs.length
decreasing_by exact strict s _h

theorem loopRun_suffix (step : σ → Reader (Round σ α)) (strict : ∀ s, Strict (step s)) (s : σ)
    {bs : Bytes} {a : α} {rest : Bytes} (h : loopRun step strict s bs = .ok (a, rest)) :
    rest <:+ bs := by
  fun_induction loopRun step strict s bs with
  | case1 => cases h
  | case2 s bs b mid hr => cases h; exact (step s).suffix_of_run hr
  | case3 s bs s' mid hr ih => exact (ih h).trans ((step s).suffix_of_run hr)

/-- Repeats a step until it says that it is done. -/
def loop (step : σ → Reader (Round σ α)) (strict : ∀ s, Strict (step s)) (s : σ) : Reader α :=
  ⟨loopRun step strict s, loopRun_suffix step strict s⟩

/-- One round decides and the rest follow. -/
theorem loop_eq (step : σ → Reader (Round σ α)) (strict : ∀ s, Strict (step s)) (s : σ) :
    loop step strict s = (step s >>= fun
      | .done a => pure a
      | .next s' => loop step strict s') := by
  ext bs
  rw [run_bind]
  simp only [loop]
  rw [loopRun]
  split <;> next h => simp [h]

/-- One option of a list: its code, then what `body` makes of it, `none` to stop at a code that
nobody knows. The terminator ends the list. -/
def optionStep (body : σ → UInt8 → Reader (Option σ)) (s : σ) : Reader (Round σ σ) := do
  let code ← u8
  if code = terminator then
    return .done s
  match ← body s code with
  | some s' => return .next s'
  | none => return .done s

/-- A list of options. -/
def options (body : σ → UInt8 → Reader (Option σ)) (s : σ) : Reader σ :=
  loop (optionStep body) (fun _ => strict_u8.bind _) s

/-- One item of a list that the terminator ends. -/
def itemStep (item : σ → Reader σ) (s : σ) : Reader (Round σ σ) := do
  if (← peek) = terminator then
    let _ ← u8
    return .done s
  return .next (← item s)

theorem strict_itemStep {item : σ → Reader σ} (strict : ∀ s, Strict (item s)) (s : σ) :
    Strict (itemStep item s) := by
  refine strict_bind_right _ fun code => ?_
  split
  · exact strict_u8.bind _
  · exact (strict s).bind _

/-- A list of items that the terminator ends; no item begins with it. -/
def items (item : σ → Reader σ) (strict : ∀ s, Strict (item s)) (s : σ) : Reader σ :=
  loop (itemStep item) (strict_itemStep strict) s

end Reader
end ParamSync
