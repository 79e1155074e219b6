import ParamSync.Proofs.Codec.Text
import ParamSync.TypeDef.Scalar

/-!
# Lists of options are read as they were written

A list of options is written as one block after the other and read by a loop that knows nothing of
the writer. `OptionList body s bs s'` says that the bytes `bs` are options which take the reader
from the state `s` to `s'`, one code after the other; so what is to be shown of a writer is one
step for each field. `ItemList` is the same for a list whose items have no codes.

Results:
* `OptionList.run`, `ItemList.run`: the loop takes such bytes, with the terminator after them.
* `Field.optionList`: the step of a field, which leaves what a peer hears of it.
* `OptionList.map`: options of a part are options of the whole.
-/

namespace ParamSync

open Reader

/-! ## Options -/

theorem Reader.options_eq {σ : Type} (body : σ → UInt8 → Reader (Option σ)) (s : σ) :
    options body s = (optionStep body s >>= fun
      | .done a => pure a
      | .next s' => options body s') := by
  refine (loop_eq (optionStep body) _ s).trans (congrArg _ (funext fun round => ?_))
  cases round <;> rfl

theorem Reader.items_eq {σ : Type} (item : σ → Reader σ) (strict : ∀ s, Strict (item s)) (s : σ) :
    items item strict s = (itemStep item s >>= fun
      | .done a => pure a
      | .next s' => items item strict s') := by
  refine (loop_eq (itemStep item) _ s).trans (congrArg _ (funext fun round => ?_))
  cases round <;> rfl

section RunOptions

variable {σ : Type} {body : σ → UInt8 → Reader (Option σ)} {s s' : σ} {code : UInt8}
  {bs rest : Bytes} {e : ProtocolError}

theorem Reader.run_options_terminator (body : σ → UInt8 → Reader (Option σ)) (s : σ)
    (rest : Bytes) : (options body s).run (terminator :: rest) = .ok (s, rest) := by
  rw [options_eq, run_bind]
  simp [optionStep, run_bind]

theorem Reader.run_options_next (hcode : code ≠ terminator)
    (h : (body s code).run bs = .ok (some s', rest)) :
    (options body s).run (code :: bs) = (options body s').run rest := by
  rw [options_eq, run_bind]
  simp only [optionStep, run_bind, run_u8_cons, if_neg hcode, h, run_pure]

theorem Reader.run_options_stop (hcode : code ≠ terminator)
    (h : (body s code).run bs = .ok (none, rest)) :
    (options body s).run (code :: bs) = .ok (s, rest) := by
  rw [options_eq, run_bind]
  simp only [optionStep, run_bind, run_u8_cons, if_neg hcode, h, run_pure]

theorem Reader.run_options_error (hcode : code ≠ terminator)
    (h : (body s code).run bs = .error e) : (options body s).run (code :: bs) = .error e := by
  rw [options_eq, run_bind]
  simp only [optionStep, run_bind, run_u8_cons, if_neg hcode, h]

theorem Reader.strict_options (body : σ → UInt8 → Reader (Option σ)) (s : σ) :
    Strict (options body s) := by
  rw [options_eq]
  exact (strict_u8.bind _).bind _

end RunOptions

/-- The bytes are options that take the reader from one state to another. -/
inductive OptionList {σ : Type} (body : σ → UInt8 → Reader (Option σ)) : σ → Bytes → σ → Prop
  | nil (s : σ) : OptionList body s [] s
  | cons {s s' s'' : σ} {code : UInt8} {bs tail : Bytes} (hcode : code ≠ terminator)
      (h : ∀ rest, (body s code).run (bs ++ rest) = .ok (some s', rest))
      (hl : OptionList body s' tail s'') : OptionList body s (code :: (bs ++ tail)) s''

namespace OptionList

variable {σ τ : Type} {body : σ → UInt8 → Reader (Option σ)} {s s' s'' : σ} {bs bs' : Bytes}

theorem append (h : OptionList body s bs s') (h' : OptionList body s' bs' s'') :
    OptionList body s (bs ++ bs') s'' := by
  induction h with
  | nil => exact h'
  | cons hcode h _ ih =>
    rw [List.cons_append, List.append_assoc]
    exact .cons hcode h (ih h')

/-- One option. -/
theorem single {code : UInt8} (hcode : code ≠ terminator)
    (h : ∀ rest, (body s code).run (bs ++ rest) = .ok (some s', rest)) :
    OptionList body s (code :: bs) s' := by
  have := OptionList.cons hcode h (.nil s')
  rwa [List.append_nil] at this

/-- The loop takes the options and goes on after them. -/
theorem run_append (h : OptionList body s bs s') (rest : Bytes) :
    (options body s).run (bs ++ rest) = (options body s').run rest := by
  induction h with
  | nil => rfl
  | cons hcode h _ ih =>
    rw [List.cons_append, List.append_assoc, run_options_next hcode (h _), ih]

/-- The loop takes the options and the terminator after them. -/
theorem run (h : OptionList body s bs s') (rest : Bytes) :
    (options body s).run (bs ++ [terminator] ++ rest) = .ok (s', rest) := by
  rw [List.append_assoc, h.run_append, List.singleton_append, run_options_terminator]

/-- Options of a part are options of the whole, if the whole reads them as the part does. -/
theorem map (body' : τ → UInt8 → Reader (Option τ)) (f : σ → τ)
    (hf : ∀ {s s' code bs rest}, (body s code).run bs = .ok (some s', rest) →
      (body' (f s) code).run bs = .ok (some (f s'), rest))
    (h : OptionList body s bs s') : OptionList body' (f s) bs (f s') := by
  induction h with
  | nil => exact .nil _
  | cons hcode h _ ih => exact .cons hcode (fun rest => hf (h rest)) ih

end OptionList

/-! ## Items -/

/-- The bytes are items that take the reader from one state to another. -/
inductive ItemList {σ : Type} (item : σ → Reader σ) : σ → Bytes → σ → Prop
  | nil (s : σ) : ItemList item s [] s
  | cons {s s' s'' : σ} {b : UInt8} {bs tail : Bytes} (hb : b ≠ terminator)
      (h : ∀ rest, (item s).run (b :: bs ++ rest) = .ok (s', rest))
      (hl : ItemList item s' tail s'') : ItemList item s (b :: bs ++ tail) s''

theorem ItemList.run {σ : Type} {item : σ → Reader σ} {strict : ∀ s, Strict (item s)} {s s' : σ}
    {bs : Bytes} (h : ItemList item s bs s') (rest : Bytes) :
    (items item strict s).run (bs ++ [terminator] ++ rest) = .ok (s', rest) := by
  induction h with
  | nil s =>
    rw [items_eq, run_bind, List.nil_append, List.singleton_append]
    simp [itemStep, run_bind]
  | @cons s s' s'' b bs tail hb h _ ih =>
    rw [items_eq, run_bind, List.append_assoc, List.append_assoc]
    have hitem := h (tail ++ ([terminator] ++ rest))
    rw [List.cons_append] at hitem ⊢
    simp only [itemStep, run_bind, run_peek_cons, if_neg hb, hitem, run_pure]
    rw [← List.append_assoc]
    exact ih

/-! ## Fields -/

namespace Field

variable {α β σ : Type}

/-- What a peer hears of a field that is written. -/
def heard (f : Field α) (all : Bool) (sentinel : α) : Field α :=
  match f.pending all with
  | .skip => {}
  | .present a => of a
  | .cleared => of sentinel

/-- The field with another value. -/
def map (g : α → β) (f : Field α) : Field β := ⟨f.value.map g, f.changed⟩

/-- In full a field is heard as it is. -/
theorem heard_true (f : Field α) (sentinel : α) : f.heard true sentinel = ⟨f.value, false⟩ := by
  rw [heard, pending_all]
  cases f.value <;> rfl

/-- As a delta a field is heard if it changed, and as the sentinel if it was cleared. -/
theorem value_heard_false (f : Field α) (sentinel : α) :
    (f.heard false sentinel).value = if f.changed then some (f.value.getD sentinel) else none := by
  unfold heard pending
  cases f.value <;> cases f.changed <;> rfl

/-- What is heard was there, or it is the sentinel. -/
theorem value_heard_eq_some {f : Field α} {all : Bool} {sentinel a : α}
    (h : (f.heard all sentinel).value = some a) : f.value = some a ∨ a = sentinel := by
  unfold heard pending at h
  cases hv : f.value with
  | some b =>
    simp only [hv] at h
    split at h
    · cases h
    · next heq =>
      split at heq <;> cases heq
      exact .inl h
    · next heq => split at heq <;> cases heq
  | none =>
    simp only [hv] at h
    split at h
    · cases h
    · next heq => split at heq <;> cases heq
    · cases h
      exact .inr rfl

/-- The options that a field contributes. `set` puts a field into a state that has none there. -/
theorem optionList {body : σ → UInt8 → Reader (Option σ)} (set : Field β → σ) (read : α → β)
    (f : Field α) (all : Bool) {code : UInt8} (sentinel : Unit → α) {bytes : α → Bytes}
    (hcode : code ≠ terminator)
    (h : ∀ a, (f.heard all (sentinel ())).value = some a → ∀ rest,
      (body (set {}) code).run (bytes a ++ rest) = .ok (some (set (of (read a))), rest)) :
    OptionList body (set {}) (f.encode all code sentinel bytes)
      (set ((f.heard all (sentinel ())).map read)) := by
  unfold heard encode at *
  cases hp : f.pending all with
  | skip => exact .nil _
  | present a =>
    rw [hp] at h
    exact .single hcode (h a rfl)
  | cleared =>
    rw [hp] at h
    exact .single hcode (h _ rfl)

/-- A field that is heard as it is written. -/
theorem optionList_self {body : σ → UInt8 → Reader (Option σ)} (set : Field α → σ) (f : Field α)
    (all : Bool) {code : UInt8} (sentinel : Unit → α) {bytes : α → Bytes}
    (hcode : code ≠ terminator)
    (h : ∀ a, (f.heard all (sentinel ())).value = some a → ∀ rest,
      (body (set {}) code).run (bytes a ++ rest) = .ok (some (set (of a)), rest)) :
    OptionList body (set {}) (f.encode all code sentinel bytes)
      (set (f.heard all (sentinel ()))) := by
  have hid : (f.heard all (sentinel ())).map (fun a => a) = f.heard all (sentinel ()) := by
    simp [map]
  have := optionList set (fun a => a) f all sentinel hcode h
  rwa [hid] at this

end Field
end ParamSync
