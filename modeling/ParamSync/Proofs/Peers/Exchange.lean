import Mathlib.Data.Bool.Basic
import Mathlib.Logic.Function.Basic
import ParamSync.Proofs.Registry.Likeness

/-!
# Two writers and a relay

Two clients hold copies of one value of a server, and each may change its copy once. A change is
sent to the server, which takes it over and passes it on to the other client, not back to its
sender. As long as no client sends while a change of the other is on its way to it, at most one
change is under way, and whoever has nothing to send and nothing to hear holds the server's value.
Once two changes have crossed, each client ends up with the other's.

Results:
* `Clear.set`, `Clear.send`, `Clear.handle`, `Clear.hear`: what holds as long as no changes cross.
* `Clear.cross`: two changes cross.
* `Crossed.handle`, `Crossed.hear`: what holds from then on.
* `Clear.agree`, `Crossed.exchanged`: what is left in the end.
-/

namespace ParamSync

/-- A value at a server and at two clients, with what is under way. -/
structure Exchange (α : Type) where
  server : Field α
  held : Bool → Field α
  /-- What a client has sent and the server has not handled, the oldest first. -/
  waiting : Bool → List α
  /-- What a client was told and has not handled, the oldest first. -/
  news : Bool → List α

namespace Exchange

variable {α : Type} [Alike α] {e : Exchange α} {i j : Bool} {v : α} {rest : List α}

/-! ## Steps -/

/-- What a client has sent and the other one has not handled, the oldest first. -/
def flow (e : Exchange α) (j : Bool) : List α := e.news (!j) ++ e.waiting j

/-- A client changes its copy. -/
def set (e : Exchange α) (i : Bool) (v : α) : Exchange α :=
  { e with held := Function.update e.held i ((e.held i).set v) }

/-- A client sends its change. -/
def send (e : Exchange α) (i : Bool) : Exchange α :=
  if (e.held i).changed then
    { e with
      held := Function.update e.held i (e.held i).sent
      waiting := Function.update e.waiting i (e.waiting i ++ (e.held i).value.toList) }
  else e

/-- The server takes over the oldest change of a client and passes it on. -/
def handle (e : Exchange α) (j : Bool) : Exchange α :=
  match e.waiting j with
  | [] => e
  | v :: rest =>
    { e with
      server := e.server.apply v
      waiting := Function.update e.waiting j rest
      news := Function.update e.news (!j) (e.news (!j) ++ [v]) }

/-- A client takes over the oldest change that it was told. -/
def hear (e : Exchange α) (i : Bool) : Exchange α :=
  match e.news i with
  | [] => e
  | v :: rest =>
    { e with
      held := Function.update e.held i ((e.held i).apply v)
      news := Function.update e.news i rest }

omit [Alike α] in
theorem send_of_changed (h : (e.held i).changed = true) :
    e.send i = { e with
      held := Function.update e.held i (e.held i).sent
      waiting := Function.update e.waiting i (e.waiting i ++ (e.held i).value.toList) } :=
  if_pos h

omit [Alike α] in
theorem send_of_unchanged (h : (e.held i).changed = false) : e.send i = e :=
  if_neg (by simp [h])

theorem handle_of_waiting (h : e.waiting j = v :: rest) :
    e.handle j = { e with
      server := e.server.apply v
      waiting := Function.update e.waiting j rest
      news := Function.update e.news (!j) (e.news (!j) ++ [v]) } := by
  rw [handle, h]

theorem hear_of_news (h : e.news i = v :: rest) :
    e.hear i = { e with
      held := Function.update e.held i ((e.held i).apply v)
      news := Function.update e.news i rest } := by
  rw [hear, h]

theorem held_set (e : Exchange α) (i : Bool) (v : α) (j : Bool) :
    (e.set i v).held j = if j = i then (e.held i).set v else e.held j :=
  Function.update_apply ..

omit [Alike α] in
/-- A change that is sent is under way. -/
theorem flow_send (hi : (e.held i).changed = true) (hv : (e.held i).value = some v) (j : Bool) :
    (e.send i).flow j = if j = i then e.flow j ++ [v] else e.flow j := by
  rw [send_of_changed hi, hv]
  by_cases hj : j = i
  · subst hj
    simp [flow]
  · simp [flow, hj]

omit [Alike α] in
theorem held_send (e : Exchange α) (i j : Bool) :
    ((e.send i).held j).value = (e.held j).value ∧
      ((e.send i).held j).changed = ((e.held j).changed && j != i) := by
  cases hi : (e.held i).changed with
  | false =>
    rw [send_of_unchanged hi]
    by_cases hj : j = i
    · simp [hj, hi]
    · simp [hj]
  | true =>
    rw [send_of_changed hi]
    by_cases hj : j = i
    · simp [hj]
    · simp [hj]

/-- A change that is passed on stays under way. -/
theorem flow_handle (e : Exchange α) (j i : Bool) : (e.handle j).flow i = e.flow i := by
  cases h : e.waiting j with
  | nil => rw [handle, h]
  | cons v rest =>
    rw [handle_of_waiting h]
    cases i <;> cases j <;> simp [flow, Function.update, h]

theorem held_handle (e : Exchange α) (j : Bool) : (e.handle j).held = e.held := by
  unfold handle
  split <;> rfl

theorem waiting_hear (e : Exchange α) (i : Bool) : (e.hear i).waiting = e.waiting := by
  unfold hear
  split <;> rfl

theorem news_hear (e : Exchange α) {i j : Bool} (h : j ≠ i) : (e.hear i).news j = e.news j := by
  unfold hear
  split
  · rfl
  · exact Function.update_of_ne h ..

/-- A change that is heard is under way no more. -/
theorem flow_hear (h : e.news i = v :: rest) (j : Bool) :
    (e.hear i).flow j = if j = !i then rest ++ e.waiting (!i) else e.flow j := by
  rw [hear_of_news h]
  by_cases hj : j = !i
  · simp [flow, hj]
  · have hi : (!j) ≠ i := fun hi => hj (by rw [← hi, Bool.not_not])
    simp [flow, hj, hi]

theorem held_hear (h : e.news i = v :: rest) (j : Bool) :
    (e.hear i).held j = if j = i then (e.held i).apply v else e.held j := by
  rw [hear_of_news h]
  exact Function.update_apply ..

theorem changed_hear (e : Exchange α) (i j : Bool) :
    ((e.hear i).held j).changed = (e.held j).changed := by
  cases hnews : e.news i with
  | nil => rw [hear, hnews]
  | cons v rest =>
    rw [held_hear hnews]
    split
    · next hj => rw [hj, Field.changed_apply]
    · rfl

/-! ## As long as no changes cross -/

/-- The client may still send. -/
def Live (e : Exchange α) (spent : Bool → Prop) (i : Bool) : Prop :=
  ¬ spent i ∨ (e.held i).changed = true

/-- A change of a client is under way, and nothing else. The client holds what it has sent, and so
does the server from when it has handled it. -/
structure Underway (a : Bool → α) (spent : Bool → Prop) (e : Exchange α) (j : Bool) (v : α) :
    Prop where
  flow : e.flow j = [v]
  other : e.flow (!j) = []
  changes : spent j
  sent : (e.held j).changed = false
  held : Same (e.held j).value (some v)
  server : e.news (!j) ≠ [] → Same e.server.value (some v)
  own : Live e spent (!j) → Same (some v) (some (a j))

/-- No changes have crossed: `spent` tells who has changed its copy, to what `a` gives. -/
structure Clear (a : Bool → α) (spent : Bool → Prop) (e : Exchange α) : Prop where
  changed : ∀ i, (e.held i).changed = true → spent i ∧ (e.held i).value.isSome = true
  /-- Who has heard nothing of the other's change holds its own. -/
  own : ∀ i, spent i → (Live e spent (!i) ∨ e.flow (!i) ≠ []) →
    Same (e.held i).value (some (a i))
  stage : ((∀ j, e.flow j = []) ∧
      ∀ i, (e.held i).changed = false → Same (e.held i).value e.server.value) ∨
    ∃ j v, Underway a spent e j v

namespace Clear

variable {a : Bool → α} {spent : Bool → Prop}

/-- A client changes its copy. -/
theorem set (h : Clear a spent e) (hi : ¬ spent i) :
    Clear a (fun j => spent j ∨ j = i) (e.set i (a i)) := by
  have hother : ∀ {j}, j ≠ i → (e.set i (a i)).held j = e.held j := fun hj =>
    (e.held_set i (a i) _).trans (if_neg hj)
  have hlive : ∀ j, Live (e.set i (a i)) (fun j => spent j ∨ j = i) j → Live e spent j := by
    rintro j (hspent | hchanged)
    · exact .inl fun h => hspent (.inl h)
    · by_cases hj : j = i
      · exact .inl (hj ▸ hi)
      · rw [hother hj] at hchanged
        exact .inr hchanged
  have hself : Same ((e.set i (a i)).held i).value (some (a i)) := by
    rw [held_set, if_pos rfl]
    exact (e.held i).same_set (a i)
  refine ⟨fun j hj => ?_, fun j hj hown => ?_, ?_⟩
  · by_cases hji : j = i
    · exact ⟨.inr hji, hji ▸ hself.isSome⟩
    · rw [hother hji] at hj ⊢
      exact (h.changed j hj).imp_left .inl
  · by_cases hji : j = i
    · exact hji ▸ hself
    · rw [hother hji]
      exact h.own j (hj.resolve_right hji) (hown.imp_left (hlive _))
  · rcases h.stage with ⟨hflow, hagree⟩ | ⟨j, v, hu⟩
    · refine .inl ⟨hflow, fun j hj => ?_⟩
      have hsame : (e.set i (a i)).held j = e.held j := by
        rw [held_set] at hj ⊢
        split at hj
        · next hji => rw [if_pos hji, Field.set_of_unchanged hj, hji]
        · next hji => exact if_neg hji
      rw [hsame] at hj ⊢
      exact hagree j hj
    · have hji : j ≠ i := fun hji => hi (hji ▸ hu.changes)
      refine .inr ⟨j, v, hu.flow, hu.other, .inl hu.changes, ?_, ?_, hu.server,
        fun hl => hu.own (hlive _ hl)⟩
      · rw [hother hji]
        exact hu.sent
      · rw [hother hji]
        exact hu.held

/-- The change of a client that is under way is that of the only one from whom anything is. -/
theorem underway_of_flow (h : Clear a spent e) (hj : e.flow j ≠ []) :
    ∃ v, Underway a spent e j v := by
  rcases h.stage with ⟨hflow, -⟩ | ⟨j', v, hu⟩
  · exact absurd (hflow j) hj
  · by_cases hjj : j = j'
    · exact ⟨v, hjj ▸ hu⟩
    · rw [Bool.eq_not_of_ne hjj, hu.other] at hj
      exact absurd rfl hj

omit [Alike α] in
theorem live_of_send (h : Live (e.send i) spent j) : Live e spent j := by
  refine h.imp_right fun hj => ?_
  rw [(e.held_send i j).2, Bool.and_eq_true] at hj
  exact hj.1

/-- A client sends, and nothing of the other is on its way to it. -/
theorem send (h : Clear a spent e) (hi : (e.held i).changed = true → e.flow (!i) = []) :
    Clear a spent (e.send i) := by
  cases hchanged : (e.held i).changed with
  | false =>
    rw [send_of_unchanged hchanged]
    exact h
  | true =>
    obtain ⟨hspent, hsome⟩ := h.changed i hchanged
    obtain ⟨v, hv⟩ := Option.isSome_iff_exists.1 hsome
    have hflow := flow_send hchanged hv
    obtain ⟨hidle, -⟩ := h.stage.resolve_right (by
      rintro ⟨j, w, hu⟩
      by_cases hj : j = i
      · have hsent := hu.sent
        rw [hj, hchanged] at hsent
        cases hsent
      · have hother := hi hchanged
        rw [← Bool.eq_not_of_ne hj, hu.flow] at hother
        cases hother)
    refine ⟨fun j hj => ?_, fun j hj hown => ?_, .inr ⟨i, v, ?_, ?_, hspent, ?_, ?_, ?_, ?_⟩⟩
    · rw [(e.held_send i j).2, Bool.and_eq_true] at hj
      rw [(e.held_send i j).1]
      exact h.changed j hj.1
    · rw [(e.held_send i j).1]
      refine h.own j hj (hown.elim (fun hl => .inl (live_of_send hl)) fun hf => ?_)
      by_cases hji : (!j) = i
      · exact .inl (.inr (hji ▸ hchanged))
      · rw [hflow, if_neg hji] at hf
        exact .inr hf
    · rw [hflow, if_pos rfl, hidle]
      rfl
    · rw [hflow, if_neg (Bool.not_ne_self i), hidle]
    · simp [(e.held_send i i).2]
    · rw [(e.held_send i i).1, hv]
      exact .refl _
    · intro hnews
      have hnone := (List.append_eq_nil_iff.1 (hidle i)).1
      rw [send_of_changed hchanged] at hnews
      exact absurd hnone hnews
    · intro hl
      rw [← hv]
      exact h.own i hspent (.inl (live_of_send hl))

/-- The server handles the oldest change of a client. -/
theorem handle (h : Clear a spent e) (j : Bool) : Clear a spent (e.handle j) := by
  cases hwaits : e.waiting j with
  | nil =>
    rw [Exchange.handle, hwaits]
    exact h
  | cons v rest =>
    have hflow : e.flow j ≠ [] := by
      rw [Exchange.flow, hwaits]
      simp
    obtain ⟨w, hu⟩ := h.underway_of_flow hflow
    have hvw : v = w := by
      have hone := hu.flow
      rw [Exchange.flow, hwaits] at hone
      have hmem : v ∈ [w] := hone ▸ List.mem_append_right _ List.mem_cons_self
      exact List.mem_singleton.1 hmem
    have hflows := e.flow_handle j
    rw [handle_of_waiting hwaits] at hflows ⊢
    refine ⟨h.changed, fun i hi hown => h.own i hi ?_, .inr ⟨j, w, ?_, ?_, hu.changes, hu.sent,
      hu.held, fun _ => ?_, hu.own⟩⟩
    · rwa [hflows] at hown
    · rw [hflows, hu.flow]
    · rw [hflows, hu.other]
    · exact hvw ▸ e.server.same_apply v

/-- A client handles the oldest change that it was told. -/
theorem hear [Likeness α] (h : Clear a spent e) (i : Bool) : Clear a spent (e.hear i) := by
  cases hnews : e.news i with
  | nil =>
    rw [Exchange.hear, hnews]
    exact h
  | cons v rest =>
    have hflow : e.flow (!i) = v :: (rest ++ e.waiting (!i)) := by
      rw [Exchange.flow, Bool.not_not, hnews, List.cons_append]
    obtain ⟨w, hu⟩ := h.underway_of_flow (hflow ▸ List.cons_ne_nil _ _)
    obtain ⟨rfl, hrest⟩ := List.cons.inj (hflow.symm.trans hu.flow)
    have hserver := hu.server (by simp [hnews])
    have hflows : ∀ j, (e.hear i).flow j = [] := fun j => by
      rw [flow_hear hnews]
      split
      · exact hrest
      · next hj =>
        have hother := hu.other
        rw [Bool.not_not] at hother
        exact Bool.ne_not.1 hj ▸ hother
    refine ⟨fun j hj => ?_, fun j hj hown => ?_, .inl ⟨hflows, fun j hj => ?_⟩⟩
    · rw [changed_hear] at hj
      obtain ⟨hspent, hsome⟩ := h.changed j hj
      rw [held_hear hnews]
      split
      · exact ⟨hspent, ((e.held i).same_apply v).isSome⟩
      · exact ⟨hspent, hsome⟩
    · have hlive := hown.resolve_right (not_not.2 (hflows _))
      rw [Live, changed_hear] at hlive
      rw [held_hear hnews]
      split
      · next hji =>
        subst hji
        rw [hu.sent] at hlive
        exact absurd hu.changes (hlive.resolve_right nofun)
      · exact h.own j hj (.inl hlive)
    · have hsame : (e.hear i).server = e.server := by rw [hear_of_news hnews]
      rw [hsame, held_hear hnews]
      split
      · exact ((e.held i).same_apply v).trans hserver.symm
      · next hji =>
        rw [Bool.eq_not_of_ne hji]
        exact hu.held.trans hserver.symm

/-- Where nothing is under way and nothing is to be sent, all hold the same value. -/
theorem agree (h : Clear a spent e) (hflow : ∀ j, e.flow j = [])
    (hsent : ∀ i, (e.held i).changed = false) (i : Bool) :
    Same (e.held i).value e.server.value := by
  rcases h.stage with ⟨-, hagree⟩ | ⟨j, v, hu⟩
  · exact hagree i (hsent i)
  · have hone := hu.flow
    rw [hflow] at hone
    cases hone

end Clear

/-! ## Once two changes have crossed -/

/-- Two changes have crossed: nobody sends any more, and each change is on its way or has been heard
by the other client. -/
structure Crossed (a : Bool → α) (e : Exchange α) : Prop where
  sent : ∀ i, (e.held i).changed = false
  flow : ∀ j,
    (∃ v, e.flow j = [v] ∧ Same (some v) (some (a j)) ∧ Same (e.held (!j)).value (some (a (!j)))) ∨
      (e.flow j = [] ∧ Same (e.held (!j)).value (some (a j)))
  server : (∀ j, e.waiting j ≠ []) ∨ ∃ j, Same e.server.value (some (a j))

variable {a : Bool → α} {spent : Bool → Prop}

/-- A client sends while a change of the other is on its way to it. -/
theorem Clear.cross [Likeness α] (h : Clear a spent e) (hi : (e.held i).changed = true)
    (hflow : e.flow (!i) ≠ []) : Crossed a (e.send i) ∧ ∀ j, spent j := by
  obtain ⟨hspent, hsome⟩ := h.changed i hi
  obtain ⟨w, hw⟩ := Option.isSome_iff_exists.1 hsome
  obtain ⟨v, hu⟩ := h.underway_of_flow hflow
  have hlive : Live e spent (!!i) := .inr (by rwa [Bool.not_not])
  have hnone : e.flow i = [] := by
    rw [← Bool.not_not i]
    exact hu.other
  have hmine : Same (e.held i).value (some (a i)) := h.own i hspent (.inr hflow)
  have hother : Same (e.held (!i)).value (some (a (!i))) := h.own (!i) hu.changes (.inl hlive)
  refine ⟨⟨fun j => ?_, fun j => ?_, ?_⟩, fun j => ?_⟩
  · rw [(e.held_send i j).2]
    by_cases hj : j = i
    · simp [hj]
    · rw [Bool.eq_not_of_ne hj, hu.sent]
      rfl
  · rw [flow_send hi hw, (e.held_send i (!j)).1]
    by_cases hj : j = i
    · subst hj
      rw [if_pos rfl, hnone]
      exact .inl ⟨w, rfl, hw ▸ hmine, hother⟩
    · obtain rfl := Bool.eq_not_of_ne hj
      rw [if_neg hj, hu.flow, Bool.not_not]
      exact .inl ⟨v, rfl, hu.own hlive, hmine⟩
  · rw [send_of_changed hi, hw]
    cases hnews : e.news (!!i) with
    | cons m ms =>
      exact .inr ⟨!i, (hu.server (hnews ▸ List.cons_ne_nil m ms)).trans (hu.own hlive)⟩
    | nil =>
      have hwaits := hu.flow
      rw [Exchange.flow, hnews, List.nil_append] at hwaits
      refine .inl fun j => ?_
      by_cases hj : j = i
      · simp [hj]
      · simp [Bool.eq_not_of_ne hj, hwaits]
  · by_cases hj : j = i
    · exact hj ▸ hspent
    · exact Bool.eq_not_of_ne hj ▸ hu.changes

namespace Crossed

theorem send (h : Crossed a e) (i : Bool) : Crossed a (e.send i) := by
  rw [send_of_unchanged (h.sent i)]
  exact h

/-- The server takes over one of the two changes. -/
theorem handle [Likeness α] (h : Crossed a e) (j : Bool) : Crossed a (e.handle j) := by
  cases hwaits : e.waiting j with
  | nil =>
    rw [Exchange.handle, hwaits]
    exact h
  | cons v rest =>
    have hv : Same (some v) (some (a j)) := by
      rcases h.flow j with ⟨w, hone, hown, -⟩ | ⟨hnone, -⟩
      · rw [Exchange.flow, hwaits] at hone
        have hmem : v ∈ [w] := hone ▸ List.mem_append_right _ List.mem_cons_self
        exact List.mem_singleton.1 hmem ▸ hown
      · rw [Exchange.flow, hwaits] at hnone
        simp at hnone
    have hflows := e.flow_handle j
    rw [handle_of_waiting hwaits] at hflows ⊢
    refine ⟨h.sent, fun i => ?_, .inr ⟨j, ?_⟩⟩
    · rw [hflows]
      exact h.flow i
    · exact (e.server.same_apply v).trans hv

/-- A client takes over the other's change. -/
theorem hear [Likeness α] (h : Crossed a e) (i : Bool) : Crossed a (e.hear i) := by
  cases hnews : e.news i with
  | nil =>
    rw [Exchange.hear, hnews]
    exact h
  | cons v rest =>
    have hflow : e.flow (!i) = v :: (rest ++ e.waiting (!i)) := by
      rw [Exchange.flow, Bool.not_not, hnews, List.cons_append]
    have hother := h.flow (!i)
    rw [hflow, Bool.not_not] at hother
    refine ⟨fun j => ?_, fun j => ?_, ?_⟩
    · rw [changed_hear]
      exact h.sent j
    · rw [flow_hear hnews, held_hear hnews]
      by_cases hj : j = !i
      · subst hj
        obtain ⟨w, hone, hown, -⟩ := hother.resolve_right (by simp)
        obtain ⟨rfl, hrest⟩ := List.cons.inj hone
        rw [if_pos rfl, if_pos (Bool.not_not i)]
        exact .inr ⟨hrest, ((e.held i).same_apply v).trans hown⟩
      · obtain rfl := Bool.ne_not.1 hj
        rw [if_neg hj, if_neg (Bool.not_ne_self j)]
        exact h.flow j
    · rw [hear_of_news hnews]
      exact h.server

/-- In the end each client holds what the other has changed its copy to. -/
theorem exchanged (h : Crossed a e) (hflow : ∀ j, e.flow j = []) :
    (∀ i, Same (e.held i).value (some (a (!i)))) ∧ ∃ j, Same e.server.value (some (a j)) := by
  refine ⟨fun i => ?_, h.server.resolve_left fun hwaits => ?_⟩
  · rcases h.flow (!i) with ⟨v, hone, -⟩ | ⟨-, hheld⟩
    · rw [hflow] at hone
      cases hone
    · rwa [Bool.not_not] at hheld
  · exact hwaits true (List.append_eq_nil_iff.1 (hflow true)).2

end Crossed

end Exchange
end ParamSync
