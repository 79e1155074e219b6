import ParamSync.Packet.Basic
import ParamSync.Proofs.Codec.Definition

/-!
# What a peer accepts

Whatever options a message brings, the definition stays well formed, and the parameter without
members. A reader is followed part by part: what each part gives, if it gives anything, is all that
the next one has to know.

Results:
* `Reader.gives_options`, `Reader.gives_items`: what every round of a loop keeps, its result has.
* `TypeDef.gives_readOption`: an option that is read keeps a definition well formed.
* `TypeDef.gives_read_of`: what a new definition has and every option keeps, one that is read has.
* `Parameter.gives_readOption`: an option that is read brings a parameter no members.
* `Packet.parameter?_of_ofBytes`: what every parameter has that is read, that of a message has.
* `Packet.command_of_ofBytes`: a message is what its first byte says.
-/

namespace ParamSync

/-! ## Results of readers -/

namespace Reader

variable {α β σ : Type} {r : Reader α} {P : α → Prop} {Q : β → Prop}

/-- Whatever the reader gives has the property. -/
def Gives (r : Reader α) (P : α → Prop) : Prop := ∀ ⦃bs a rest⦄, r.run bs = .ok (a, rest) → P a

theorem gives_true (r : Reader α) : r.Gives fun _ => True := fun _ _ _ _ => trivial

theorem gives_pure {a : α} (h : P a) : (pure a : Reader α).Gives P := by
  rintro bs _ rest ⟨⟩
  exact h

theorem gives_none : (pure none : Reader (Option α)).Gives fun o => ∀ a, o = some a → P a := by
  refine gives_pure fun a h => ?_
  cases h

theorem gives_fail (e : ProtocolError) : (fail e : Reader α).Gives P := by
  rintro bs a rest ⟨⟩

theorem gives_take (n : Nat) : (take n).Gives fun bs => bs.length = n := by
  intro bs taken rest h
  by_cases hlen : bs.length < n
  · rw [run_take_of_length_lt hlen] at h
    cases h
  · rw [run_take_of_le_length (Nat.le_of_not_lt hlen)] at h
    cases h
    exact List.length_take_of_le (Nat.le_of_not_lt hlen)

namespace Gives

theorem bind (hr : r.Gives P) {f : α → Reader β} (hf : ∀ a, P a → (f a).Gives Q) :
    (r >>= f).Gives Q := by
  intro bs b rest h
  rw [run_bind] at h
  split at h
  · cases h
  · next a mid heq => exact hf a (hr heq) h

/-- A result of another reader that does not matter. -/
theorem after (r : Reader α) {f : α → Reader β} (hf : ∀ a, (f a).Gives Q) : (r >>= f).Gives Q :=
  (gives_true r).bind fun a _ => hf a

theorem and {P' : α → Prop} (h : r.Gives P) (h' : r.Gives P') :
    r.Gives fun a => P a ∧ P' a :=
  fun _ _ _ hrun => ⟨h hrun, h' hrun⟩

end Gives

/-- A part, put into the whole. -/
theorem gives_some {part : Reader α} {f : α → σ} {I : σ → Prop} (hpart : part.Gives P)
    (hf : ∀ a, P a → I (f a)) :
    (do return some (f (← part)) : Reader (Option σ)).Gives fun o => ∀ s, o = some s → I s := by
  refine hpart.bind fun a ha => gives_pure fun s hs => ?_
  obtain rfl := Option.some.inj hs
  exact hf a ha

/-- A part that is read under its own code, before the other options are tried. -/
theorem gives_guarded {c : Prop} [Decidable c] {part : Reader α} {f : α → σ} {I : σ → Prop}
    {others : Reader (Option σ)} (hpart : part.Gives P) (hf : ∀ a, P a → I (f a))
    (hothers : others.Gives fun o => ∀ s, o = some s → I s) :
    (if c then (do return some (f (← part))) else others).Gives fun o => ∀ s, o = some s → I s := by
  split
  · exact gives_some hpart hf
  · exact hothers

/-- An option of a part is an option of the whole. -/
theorem gives_map {part : Reader (Option α)} {f : α → σ} {I : σ → Prop}
    (hpart : part.Gives fun o => ∀ a, o = some a → P a) (hf : ∀ a, P a → I (f a)) :
    (do return (← part).map f : Reader (Option σ)).Gives fun o => ∀ s, o = some s → I s := by
  refine hpart.bind fun o ho => gives_pure fun s hs => ?_
  obtain ⟨a, ha, rfl⟩ := Option.map_eq_some_iff.1 hs
  exact hf a (ho a ha)

/-- What a step keeps until it is done, the loop gives. -/
theorem gives_loop {step : σ → Reader (Round σ β)} {strict : ∀ s, Strict (step s)} {I : σ → Prop}
    (hnext : ∀ s, I s → (step s).Gives fun round => ∀ s', round = .next s' → I s')
    (hdone : ∀ s, I s → (step s).Gives fun round => ∀ b, round = .done b → Q b) {s : σ} (hs : I s) :
    (loop step strict s).Gives Q := by
  intro bs b rest h
  replace h : loopRun step strict s bs = .ok (b, rest) := h
  fun_induction loopRun step strict s bs with
  | case1 => cases h
  | case2 s bs b' mid hround =>
    cases h
    exact hdone s hs hround b rfl
  | case3 s bs s' mid hround ih => exact ih (hnext s hs hround s' rfl) h

/-- What every option keeps, a list of options gives. -/
theorem gives_options {body : σ → UInt8 → Reader (Option σ)} {I : σ → Prop}
    (hbody : ∀ s code, I s → (body s code).Gives fun o => ∀ s', o = some s' → I s') {s : σ}
    (hs : I s) : (options body s).Gives I := by
  have hstep : ∀ s, I s → (optionStep body s).Gives fun
      | .next s' => I s'
      | .done s' => I s' := by
    intro s hs
    refine Gives.after u8 fun code => ?_
    split
    · exact gives_pure hs
    · refine (hbody s code hs).bind fun o ho => ?_
      cases o with
      | none => exact gives_pure hs
      | some s' => exact gives_pure (ho s' rfl)
  refine gives_loop (fun s hs _ _ _ h s' heq => ?_) (fun s hs _ _ _ h s' heq => ?_) hs
  · subst heq
    exact hstep s hs h
  · subst heq
    exact hstep s hs h

/-- What every item keeps, a list of items gives. No item begins with the terminator. -/
theorem gives_items {item : σ → Reader σ} {strict : ∀ s, Strict (item s)} {I : σ → Prop}
    (hitem : ∀ s code bs s' rest, I s → code ≠ terminator →
      (item s).run (code :: bs) = .ok (s', rest) → I s') {s : σ} (hs : I s) :
    (items item strict s).Gives I := by
  have hstep : ∀ s, I s → (itemStep item s).Gives fun
      | .next s' => I s'
      | .done s' => I s' := by
    intro s hs bs round rest h
    cases bs with
    | nil => cases h
    | cons code bs =>
      rw [itemStep, run_bind_of_ok (run_peek_cons code bs)] at h
      split at h
      · rw [run_bind_of_ok (run_u8_cons code bs)] at h
        cases h
        exact hs
      · next hcode =>
        rw [run_bind] at h
        split at h
        · cases h
        · next s' mid heq =>
          cases h
          exact hitem s code bs _ _ hs hcode heq
  refine gives_loop (fun s hs _ _ _ h s' heq => ?_) (fun s hs _ _ _ h s' heq => ?_) hs
  · subst heq
    exact hstep s hs h
  · subst heq
    exact hstep s hs h

end Reader

open Reader

/-! ## Texts -/

namespace Utf8

theorem push_ne_empty (s : String) (c : Char) : s.push c ≠ "" := by
  intro h
  have := congrArg String.toList h
  simp at this

/-- A decoder that has taken a byte ends with a text that is not empty. -/
theorem finish_feed_ne_empty (d : Decoder) (b : UInt8) : (d.feed b).finish ≠ "" := by
  have hstart : ∀ text, (Decoder.start text b).finish ≠ "" := by
    intro text
    unfold Decoder.start
    split
    · exact push_ne_empty _ _
    · split <;> exact push_ne_empty _ _
  unfold Decoder.feed
  split
  · exact hstart _
  · split
    · dsimp only
      split <;> exact push_ne_empty _ _
    · exact hstart _

/-- Bytes stand for a text that is not empty, if there are any. -/
theorem decode_ne_empty {bs : Bytes} (h : bs ≠ []) : decode bs ≠ "" := by
  obtain ⟨init, b, rfl⟩ := List.eq_nil_or_concat bs |>.resolve_left h
  rw [List.concat_eq_append] at *
  rw [decode, List.foldl_append, List.foldl_cons, List.foldl_nil]
  exact finish_feed_ne_empty _ b

end Utf8

/-- A text of which a byte of the length is not zero is not empty. -/
theorem Reader.text_ne_empty {code : UInt8} {bs rest : Bytes} {s : String}
    (hcode : code ≠ terminator) (h : (text .tiny).run (code :: bs) = .ok (s, rest)) : s ≠ "" := by
  have hnat : (nat 1).run (code :: bs) = .ok (code.toNat, bs) := by
    have hlen : [code].length = 1 := rfl
    rw [nat, ← List.singleton_append, run_bind_of_ok (run_take_append hlen bs), run_pure]
    simp [Bytes.toNat]
  rw [text, frame, run_bind] at h
  split at h
  · cases h
  · next taken mid heq =>
    cases h
    refine Utf8.decode_ne_empty fun hnil => hcode ?_
    rw [show Width.tiny.size = 1 from rfl, run_bind_of_ok hnat] at heq
    have hlen := gives_take _ heq
    rw [hnil] at hlen
    exact UInt8.toNat_inj.1 hlen.symm

/-! ## Definitions -/

namespace TypeDef

theorem EnumDef.gives_readEntries : EnumDef.readEntries.Gives fun entries => "" ∉ entries := by
  refine Gives.bind (P := fun entries => "" ∉ entries)
    (gives_items (fun entries code bs entries' rest hentries hcode h => ?_) (by simp))
    fun entries h => gives_pure (by simpa using h)
  rw [EnumDef.readEntry, run_bind] at h
  split at h
  · cases h
  · next s mid heq =>
    cases h
    simpa [hentries] using (text_ne_empty hcode heq).symm

theorem EnumDef.gives_readOption {d : EnumDef} (hd : (enum d).WellFormed) (code : UInt8) :
    (d.readOption code).Gives fun o => ∀ d', o = some d' → (enum d').WellFormed := by
  refine gives_guarded (gives_true _) (fun _ _ => hd)
    (gives_guarded EnumDef.gives_readEntries (fun entries hentries entries' h => ?_)
      (gives_guarded (gives_true _) (fun _ _ => hd) gives_none))
  obtain rfl : entries = entries' := by simpa using h
  exact hentries

theorem CustomDef.gives_readOption {d : CustomDef} (hd : (custom d).WellFormed) (code : UInt8) :
    (d.readOption code).Gives fun o => ∀ d', o = some d' → (custom d').WellFormed := by
  refine gives_guarded (gives_take _) (fun bs hlen bs' h => ?_)
    (gives_guarded (gives_true _) (fun _ _ => hd)
      (gives_guarded (gives_true _) (fun _ _ => hd) gives_none))
  obtain rfl : bs = bs' := by simpa using h
  exact hlen

/-- An option keeps a definition well formed, and of its datatype. -/
theorem gives_readOption {d : TypeDef} (hd : d.WellFormed) (code : UInt8) :
    (d.readOption code).Gives fun o =>
      ∀ d', o = some d' → d'.WellFormed ∧ d'.datatype = d.datatype := by
  cases d with
  | enum d => exact gives_map (EnumDef.gives_readOption hd code) fun _ h => ⟨h, rfl⟩
  | custom d => exact gives_map (CustomDef.gives_readOption hd code) fun _ h => ⟨h, rfl⟩
  | range element default =>
    rw [readOption]
    split
    · exact Gives.after _ fun lower => gives_some (gives_true _) fun upper _ => ⟨hd, rfl⟩
    · exact gives_none
  | bang | group => exact gives_none
  | _ => exact gives_map (P := fun _ => True) (fun _ _ _ _ _ _ => trivial) fun _ _ => ⟨trivial, rfl⟩

section Definitions

/- What every option keeps. -/
variable {I : TypeDef → Prop} (hoption : ∀ d code, I d →
  (readOption code d).Gives fun o => ∀ d', o = some d' → I d')
include hoption

theorem gives_readOptions {d : TypeDef} (h : I d) : (readOptions d).Gives I := by
  refine gives_options (fun d code hd => ?_) h
  refine (hoption d code hd).bind fun o ho => ?_
  cases o with
  | none => exact gives_fail _
  | some d' => exact gives_pure ho

/-- The element of a range is a number. -/
theorem gives_readElement (hplain : ∀ k, I (number k {})) :
    readElement.Gives fun d => ∃ k e, d = number k e ∧ I d := by
  refine Gives.after _ fun code => ?_
  split
  · next k _ =>
    refine Gives.after _ fun _ => ?_
    -- a number stays one of its kind
    have hnumber : ∀ d code, (d.datatype = .number k ∧ I d) → (readOption code d).Gives fun o =>
        ∀ d', o = some d' → d'.datatype = .number k ∧ I d' := by
      rintro d code ⟨hdatatype, hd⟩ bs o rest hrun d' ho
      obtain ⟨e, rfl⟩ := eq_number hdatatype
      have hkept := gives_readOption (d := number k e) trivial code hrun d' ho
      exact ⟨hkept.2, hoption _ code hd hrun d' ho⟩
    intro bs d rest hrun
    obtain ⟨hdatatype, hd⟩ := gives_readOptions hnumber ⟨rfl, hplain k⟩ hrun
    obtain ⟨e, rfl⟩ := eq_number hdatatype
    exact ⟨k, e, rfl, hd⟩
  · exact gives_fail _
  · exact gives_fail _

/-- A definition that is read has what every new one has and every option keeps. -/
theorem gives_read_of (hplain : ∀ datatype d, ofDatatype? datatype = some d → I d)
    (hcustom : ∀ size, I (ofSize size))
    (hrange : ∀ k e, I (number k e) → I (range (number k e) {})) : read.Gives I := by
  refine Gives.after _ fun datatype => ?_
  split
  · exact Gives.after _ fun size => gives_readOptions hoption (hcustom _)
  · refine (gives_readElement hoption fun k => hplain (.number k) _ rfl).bind ?_
    rintro _ ⟨k, e, rfl, he⟩
    exact gives_readOptions hoption (hrange k e he)
  · cases hd : ofDatatype? datatype with
    | none => exact Gives.bind (gives_fail _) fun _ => False.elim
    | some d => exact gives_readOptions hoption (hplain _ d hd)

end Definitions

theorem wellFormed_of_ofDatatype? {datatype : Datatype} {d : TypeDef}
    (h : ofDatatype? datatype = some d) : d.WellFormed := by
  cases datatype with
  | enum =>
    obtain rfl := Option.some.inj h
    rintro entries ⟨⟩
  | _ =>
    unfold ofDatatype? at h
    cases h <;> trivial

end TypeDef

/-! ## Parameters -/

namespace Parameter

/-- A parameter as it may come from a peer: of a well-formed definition, and without members. -/
structure Acceptable (p : Parameter) : Prop where
  wellFormed : p.definition.WellFormed
  childless : p.children = ∅

/-- No option touches the definition or the members. -/
theorem gives_readOption {p : Parameter} (hp : p.Acceptable) (code : UInt8) :
    (p.readOption code).Gives fun o => ∀ p', o = some p' → p'.Acceptable := by
  have hpart : ∀ {α : Type} (part : Reader α) (f : α → Parameter),
      (∀ a, (f a).definition = p.definition ∧ (f a).children = p.children) →
        (do return some (f (← part)) : Reader (Option Parameter)).Gives
          fun o => ∀ p', o = some p' → p'.Acceptable := by
    intro α part f hf
    refine gives_some (gives_true part) fun a _ => ?_
    obtain ⟨hdefinition, hchildren⟩ := hf a
    exact ⟨hdefinition ▸ hp.wellFormed, hchildren.trans hp.childless⟩
  unfold readOption
  split
  · split
    · refine hpart p.definition.readValue _ ?_
      exact fun a => ⟨rfl, rfl⟩
    · exact gives_none
  all_goals first
    | exact gives_none
    | refine hpart _ _ ?_
      exact fun _ => ⟨rfl, rfl⟩

end Parameter

/-! ## Packets -/

namespace Packet

section Parameters

variable {P : Parameter → Prop} (hread : Parameter.read.Gives P)
include hread

theorem gives_readData (command : Command) :
    (readData command).Gives fun payload => ∀ q, payload = .parameter q → P q := by
  cases command with
  | update =>
    refine hread.bind fun p hp => gives_pure fun q hq => ?_
    cases hq
    exact hp
  | _ =>
    refine Gives.after _ fun _ => gives_pure fun q hq => ?_
    cases hq

omit hread in
theorem parameter?_data {p : Packet} {payload : Payload}
    (h : ∀ q, payload = .parameter q → P q) :
    ∀ q, { p with data := some payload }.parameter? = some q → P q := by
  intro q hq
  cases payload with
  | parameter q' => exact h q (congrArg Payload.parameter (Option.some.inj hq))
  | _ => cases hq

theorem gives_readBody (command : Command) :
    (readBody command).Gives fun p => ∀ q, p.parameter? = some q → P q := by
  unfold readBody
  split
  · exact (gives_readData hread command).bind fun payload h =>
      gives_pure (parameter?_data (p := { command }) h)
  · refine gives_options (fun p code hp => ?_) (by rintro q ⟨⟩)
    unfold readOption
    split
    · refine Gives.after _ fun t => gives_pure fun p' hp' => ?_
      obtain rfl := Option.some.inj hp'
      exact hp
    · refine (gives_readData hread _).bind fun payload h => gives_pure fun p' hp' => ?_
      obtain rfl := Option.some.inj hp'
      exact parameter?_data h
    · exact gives_none

/-- What every parameter has that is read, the parameter of a message has, if there is one. -/
theorem parameter?_of_ofBytes {bs : Bytes} {p : Packet} (h : ofBytes bs = .ok (some p)) :
    ∀ q, p.parameter? = some q → P q := by
  have hgives : read.Gives fun o =>
      ∀ p : Packet, o = some p → ∀ q, p.parameter? = some q → P q := by
    refine Gives.after _ fun code => ?_
    split
    · refine (gives_readBody hread _).bind fun p hp => gives_pure fun p' hp' => ?_
      obtain rfl := Option.some.inj hp'
      exact hp
    · exact gives_none
  unfold ofBytes at h
  split at h
  · next hrun =>
    cases h
    exact hgives hrun p rfl
  · cases h

end Parameters

theorem command_readBody (command : Command) : (readBody command).Gives (·.command = command) := by
  unfold readBody
  split
  · exact Gives.after _ fun payload => gives_pure rfl
  · refine gives_options (fun p code hp => ?_) rfl
    unfold readOption
    split
    · exact Gives.after _ fun t => gives_pure (by rintro p' ⟨⟩; exact hp)
    · exact Gives.after _ fun payload => gives_pure (by rintro p' ⟨⟩; exact hp)
    · exact gives_none

/-- The command of a message is the one that its first byte stands for. -/
theorem command_of_ofBytes {code : UInt8} {bs : Bytes} {p : Packet}
    (h : ofBytes (code :: bs) = .ok (some p)) : Command.ofCode? code = some p.command := by
  have hread : ∀ rest, read.run (code :: bs) = .ok (some p, rest) →
      Command.ofCode? code = some p.command := by
    intro rest hrun
    rw [read, run_bind_of_ok (run_u8_cons _ _)] at hrun
    cases hcode : Command.ofCode? code with
    | none => rw [hcode] at hrun; cases hrun
    | some command =>
      rw [hcode] at hrun
      have hgives : (readBody command >>= fun p => pure (some p)).Gives
          fun o => ∀ p, o = some p → p.command = command :=
        (command_readBody command).bind fun p hp => gives_pure (by rintro p' ⟨⟩; exact hp)
      exact congrArg some (hgives hrun p rfl).symm
  unfold ofBytes at h
  split at h
  · next hrun =>
    cases h
    exact hread _ hrun
  · cases h

end Packet
end ParamSync
