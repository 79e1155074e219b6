import ParamSync.Packet.Basic

/-!
# Messages end themselves

What a reader gives rests on the bytes that it takes and on no others: the same bytes give the same
whatever follows them, and without the last of them the reader misses something. Nor does a refusal
for another reason than missing bytes hang on what follows. So a stream of messages needs no frames
around them, and who reads one knows when to wait for more.

Readers are put together by one after the other and by repetition, and both keep this. A look at the
next byte does not, since nothing is taken; with what takes that byte it does.

Results:
* `Reader.SelfDelimiting.bind`, `Reader.selfDelimiting_loop`: what is put together ends itself.
* `Reader.selfDelimiting_peek`: so does a look, with a reader after it that takes what was seen.
* `TypeDef.selfDelimiting_read`, `Parameter.selfDelimiting_read`, `Packet.selfDelimiting_read`:
  definitions, parameters and packets end themselves.
* `Packet.reads_delimited`: the three together, by the bytes that were consumed.
-/

namespace ParamSync

namespace Reader

variable {α β σ : Type} {r : Reader α} {f : α → Reader β} {a : α} {b : β} {e : ProtocolError}
  {bs taken taken' rest : Bytes}

/-! ## What a read rests on -/

/-- The reader makes `a` of these bytes whatever follows them, and of none of their beginnings can
it make anything before more bytes come. -/
structure Consumes (r : Reader α) (taken : Bytes) (a : α) : Prop where
  whole : ∀ more, r.run (taken ++ more) = .ok (a, more)
  cut : ∀ j < taken.length, ∃ needed remaining,
    r.run (taken.take j) = .error (.unexpectedEnd needed remaining)

/-- The reader refuses these bytes whatever follows them. -/
def Refuses (r : Reader α) (bs : Bytes) (e : ProtocolError) : Prop :=
  ∀ more, r.run (bs ++ more) = .error e

/-- What a read of some bytes rests on is among them. -/
structure DelimitsAt (r : Reader α) (bs : Bytes) : Prop where
  ok : ∀ {a rest}, r.run bs = .ok (a, rest) → ∃ taken, bs = taken ++ rest ∧ r.Consumes taken a
  error : ∀ {e}, r.run bs = .error e → e.isEnd = false → r.Refuses bs e

/-- What a read rests on is among the bytes that are read. -/
def SelfDelimiting (r : Reader α) : Prop := ∀ bs, r.DelimitsAt bs

/-! ## One after the other -/

theorem Consumes.bind (h : r.Consumes taken a) (h' : (f a).Consumes taken' b) :
    (r >>= f).Consumes (taken ++ taken') b where
  whole more := by rw [List.append_assoc, run_bind_of_ok (h.whole _), h'.whole]
  cut := by
    intro j hj
    rw [List.take_append]
    by_cases hlt : j < taken.length
    · obtain ⟨needed, remaining, hend⟩ := h.cut j hlt
      rw [Nat.sub_eq_zero_of_le (Nat.le_of_lt hlt), List.take_zero, List.append_nil]
      exact ⟨needed, remaining, run_bind_of_error hend f⟩
    · rw [List.length_append] at hj
      obtain ⟨needed, remaining, hend⟩ := h'.cut (j - taken.length) (by omega)
      refine ⟨needed, remaining, ?_⟩
      rw [List.take_of_length_le (Nat.le_of_not_lt hlt), run_bind_of_ok (h.whole _), hend]

theorem Refuses.bind (h : r.Refuses bs e) (f : α → Reader β) : (r >>= f).Refuses bs e :=
  fun more => run_bind_of_error (h more) f

theorem Consumes.refuses (h : r.Consumes taken a) (h' : (f a).Refuses rest e) :
    (r >>= f).Refuses (taken ++ rest) e := by
  intro more
  rw [List.append_assoc, run_bind_of_ok (h.whole _), h']

theorem DelimitsAt.bind (h : r.DelimitsAt bs)
    (hf : ∀ a rest, r.run bs = .ok (a, rest) → (f a).DelimitsAt rest) :
    (r >>= f).DelimitsAt bs := by
  cases hrun : r.run bs with
  | error e =>
    refine ⟨fun {b rest} hb => ?_, fun {e'} he hend => ?_⟩
    · rw [run_bind_of_error hrun] at hb
      cases hb
    · rw [run_bind_of_error hrun] at he
      cases he
      exact (h.error hrun hend).bind f
  | ok result =>
    obtain ⟨a, rest⟩ := result
    obtain ⟨taken, rfl, hconsumes⟩ := h.ok hrun
    have hnext := hf a rest hrun
    refine ⟨fun {b rest'} hb => ?_, fun {e} he hend => ?_⟩
    · rw [run_bind_of_ok hrun] at hb
      obtain ⟨taken', rfl, hconsumes'⟩ := hnext.ok hb
      exact ⟨taken ++ taken', (List.append_assoc _ _ _).symm, hconsumes.bind hconsumes'⟩
    · rw [run_bind_of_ok hrun] at he
      exact hconsumes.refuses (hnext.error he hend)

namespace SelfDelimiting

theorem bind (h : r.SelfDelimiting) (hf : ∀ a, (f a).SelfDelimiting) : (r >>= f).SelfDelimiting :=
  fun bs => (h bs).bind fun a rest _ => hf a rest

end SelfDelimiting

theorem selfDelimiting_pure (a : α) : (pure a : Reader α).SelfDelimiting := by
  intro bs
  refine ⟨fun {a' rest} h => ?_, fun {e} h _ => by cases h⟩
  cases h
  exact ⟨[], rfl, fun _ => rfl, fun j hj => absurd hj (Nat.not_lt_zero j)⟩

theorem selfDelimiting_fail (e : ProtocolError) : (fail e : Reader α).SelfDelimiting := by
  intro bs
  refine ⟨fun {a rest} h => (by cases h), fun {e'} h _ more => ?_⟩
  cases h
  rfl

theorem selfDelimiting_ofOption (e : ProtocolError) (o : Option α) :
    (ofOption e o).SelfDelimiting := by
  cases o with
  | none => exact selfDelimiting_fail e
  | some a => exact selfDelimiting_pure a

/-- What is read is put into something. -/
theorem SelfDelimiting.map (h : r.SelfDelimiting) (g : α → β) :
    (do return g (← r) : Reader β).SelfDelimiting :=
  h.bind fun a => selfDelimiting_pure (g a)

/-! ## Bytes -/

theorem selfDelimiting_take (n : Nat) : (take n).SelfDelimiting := by
  intro bs
  by_cases hlen : bs.length < n
  · refine ⟨fun {taken rest} h => ?_, fun {e} h hend => ?_⟩
    · rw [run_take_of_length_lt hlen] at h
      cases h
    · rw [run_take_of_length_lt hlen] at h
      cases h
      cases hend
  · have hle := Nat.le_of_not_lt hlen
    have htaken := List.length_take_of_le hle
    refine ⟨fun {taken rest} h => ?_, fun {e} h _ => ?_⟩
    · rw [run_take_of_le_length hle] at h
      cases h
      refine ⟨bs.take n, (List.take_append_drop n bs).symm, run_take_append htaken, ?_⟩
      intro j hj
      exact ⟨_, _, run_take_of_length_lt (by rw [List.length_take]; omega)⟩
    · rw [run_take_of_le_length hle] at h
      cases h

theorem consumes_u8 (b : UInt8) : u8.Consumes [b] b where
  whole _ := rfl
  cut := by
    intro j hj
    obtain rfl : j = 0 := Nat.lt_one_iff.1 hj
    exact ⟨1, 0, rfl⟩

theorem selfDelimiting_u8 : u8.SelfDelimiting := by
  intro bs
  cases bs with
  | nil =>
    refine ⟨fun {a rest} h => (by cases h), fun {e} h hend => ?_⟩
    cases h
    cases hend
  | cons b bs =>
    refine ⟨fun {a rest} h => ?_, fun {e} h _ => by cases h⟩
    cases h
    exact ⟨[b], rfl, consumes_u8 b⟩

/-- A look at the next byte rests on a byte that is not taken, so what follows has to take it. -/
theorem selfDelimiting_peek {f : UInt8 → Reader β} (h : ∀ code, (f code).SelfDelimiting)
    (strict : ∀ code, (f code).Strict) : (peek >>= f).SelfDelimiting := by
  intro bs
  cases bs with
  | nil =>
    refine ⟨fun {b rest} hb => (by cases hb), fun {e} he hend => ?_⟩
    cases he
    cases hend
  | cons code bs =>
    have hpeek : ∀ more, (peek >>= f).run (code :: more) = (f code).run (code :: more) :=
      fun more => run_bind_of_ok (run_peek_cons code more) f
    refine ⟨fun {b rest} hb => ?_, fun {e} he hend more => ?_⟩
    · rw [hpeek] at hb
      obtain ⟨taken, htaken, hconsumes⟩ := (h code (code :: bs)).ok hb
      cases taken with
      | nil =>
        -- nothing taken would be no progress
        have hlt := strict code hb
        rw [htaken] at hlt
        exact absurd hlt (Nat.lt_irrefl _)
      | cons code' taken =>
        obtain ⟨rfl, htail⟩ := List.cons.inj htaken
        refine ⟨code :: taken, htaken, fun more => ?_, fun j hj => ?_⟩
        · rw [List.cons_append, hpeek, ← List.cons_append]
          exact hconsumes.whole more
        · cases j with
          | zero => exact ⟨1, 0, rfl⟩
          | succ j =>
            obtain ⟨needed, remaining, hend⟩ := hconsumes.cut (j + 1) hj
            rw [List.take_succ_cons] at hend ⊢
            exact ⟨needed, remaining, (hpeek _).trans hend⟩
    · rw [hpeek] at he
      exact (hpeek _).trans ((h code (code :: bs)).error he hend more)

/-! ## Repetition -/

/-- Each round ends itself, and the rounds after it are read from fewer bytes. -/
theorem selfDelimiting_loop {step : σ → Reader (Round σ α)} {strict : ∀ s, Strict (step s)}
    (h : ∀ s, (step s).SelfDelimiting) (s : σ) : (loop step strict s).SelfDelimiting := by
  intro bs
  induction hn : bs.length using Nat.strongRecOn generalizing s bs with
  | ind n ih =>
    rw [loop_eq]
    refine (h s bs).bind fun round rest hround => ?_
    cases round with
    | done a => exact selfDelimiting_pure a rest
    | next s' => exact ih rest.length (hn ▸ strict s hround) s' rest rfl

theorem selfDelimiting_options {body : σ → UInt8 → Reader (Option σ)}
    (h : ∀ s code, (body s code).SelfDelimiting) (s : σ) : (options body s).SelfDelimiting := by
  refine selfDelimiting_loop (fun s => selfDelimiting_u8.bind fun code => ?_) s
  split
  · exact selfDelimiting_pure _
  · refine (h s code).bind fun o => ?_
    cases o with
    | none => exact selfDelimiting_pure _
    | some s' => exact selfDelimiting_pure _

/-- An item is told from the terminator by its first byte, and both take that. -/
theorem selfDelimiting_items {item : σ → Reader σ} {strict : ∀ s, Strict (item s)}
    (h : ∀ s, (item s).SelfDelimiting) (s : σ) : (items item strict s).SelfDelimiting := by
  refine selfDelimiting_loop (fun s => selfDelimiting_peek (fun code => ?_) fun code => ?_) s
  · split
    · exact selfDelimiting_u8.bind fun _ => selfDelimiting_pure _
    · exact (h s).map _
  · split
    · exact strict_u8.bind _
    · exact (strict s).bind _

/-! ## Options -/

theorem selfDelimiting_none : (pure none : Reader (Option α)).SelfDelimiting :=
  selfDelimiting_pure none

/-- A part that is read under its own code, before the other options are tried. -/
theorem SelfDelimiting.guarded {c : Prop} [Decidable c] (h : r.SelfDelimiting) (g : α → σ)
    {others : Reader (Option σ)} (hothers : others.SelfDelimiting) :
    (if c then (do return some (g (← r))) else others).SelfDelimiting := by
  split
  · exact h.map _
  · exact hothers

/-! ## Small things on the wire -/

theorem selfDelimiting_nat (n : Nat) : (nat n).SelfDelimiting := (selfDelimiting_take n).map _

theorem selfDelimiting_int16 : int16.SelfDelimiting := (selfDelimiting_nat 2).map _

theorem selfDelimiting_int32 : int32.SelfDelimiting := (selfDelimiting_nat 4).map _

theorem selfDelimiting_uint64 : uint64.SelfDelimiting := (selfDelimiting_nat 8).map _

theorem selfDelimiting_bool : bool.SelfDelimiting := selfDelimiting_u8.map _

theorem selfDelimiting_number (k : NumberKind) : (number k).SelfDelimiting :=
  (selfDelimiting_take k.size).map _

theorem selfDelimiting_paramId : paramId.SelfDelimiting := selfDelimiting_int16.map _

theorem selfDelimiting_frame (w : Width) : (frame w).SelfDelimiting :=
  (selfDelimiting_nat w.size).bind selfDelimiting_take

theorem selfDelimiting_text (w : Width) : (text w).SelfDelimiting := (selfDelimiting_frame w).map _

theorem selfDelimiting_datatype : datatype.SelfDelimiting :=
  selfDelimiting_u8.bind fun code => selfDelimiting_ofOption (.unknownDatatype code) _

end Reader

open Reader

/-! ## Schemas -/

/-- Scalars end themselves. -/
class DelimitedScalar (α : Type) [Scalar α] : Prop where
  selfDelimiting : (Scalar.reader : Reader α).SelfDelimiting

instance : DelimitedScalar Bool := ⟨selfDelimiting_bool⟩

instance : DelimitedScalar Color := ⟨(selfDelimiting_nat 4).map _⟩

instance : DelimitedScalar Ipv4 := ⟨(selfDelimiting_take 4).map _⟩

instance : DelimitedScalar Ipv6 := ⟨(selfDelimiting_take 16).map _⟩

instance (k : NumberKind) : DelimitedScalar (Number k) := ⟨selfDelimiting_number k⟩

section Options

variable {α : Type} [Scalar α] [DelimitedScalar α] {k : NumberKind}

theorem PlainDef.selfDelimiting_readOption (d : PlainDef α) (code : UInt8) :
    (d.readOption code).SelfDelimiting :=
  DelimitedScalar.selfDelimiting.guarded _ selfDelimiting_none

theorem NumberDef.selfDelimiting_readOption (d : NumberDef k) (code : UInt8) :
    (d.readOption code).SelfDelimiting :=
  have hscale : readScale.SelfDelimiting :=
    selfDelimiting_u8.bind fun code => selfDelimiting_ofOption (.unknownScale code) _
  (selfDelimiting_number k).guarded _
    ((selfDelimiting_number k).guarded _
      ((selfDelimiting_number k).guarded _
        ((selfDelimiting_number k).guarded _
          (hscale.guarded _ ((selfDelimiting_text .tiny).guarded _ selfDelimiting_none)))))

theorem StringDef.selfDelimiting_readOption (d : StringDef) (code : UInt8) :
    (d.readOption code).SelfDelimiting :=
  (selfDelimiting_text .long).guarded _
    ((selfDelimiting_text .long).guarded _ selfDelimiting_none)

theorem EnumDef.selfDelimiting_readOption (d : EnumDef) (code : UInt8) :
    (d.readOption code).SelfDelimiting :=
  have hentries : readEntries.SelfDelimiting :=
    (selfDelimiting_items (fun _ => (selfDelimiting_text .tiny).map _) []).map _
  (selfDelimiting_text .tiny).guarded _
    (hentries.guarded _ (selfDelimiting_bool.guarded _ selfDelimiting_none))

theorem UriDef.selfDelimiting_readOption (d : UriDef) (code : UInt8) :
    (d.readOption code).SelfDelimiting :=
  (selfDelimiting_text .long).guarded _
    ((selfDelimiting_text .tiny).guarded _
      ((selfDelimiting_text .tiny).guarded _ selfDelimiting_none))

theorem CustomDef.selfDelimiting_readOption (d : CustomDef) (code : UInt8) :
    (d.readOption code).SelfDelimiting :=
  (selfDelimiting_take d.size.toNat).guarded _
    ((selfDelimiting_take 16).guarded _
      ((selfDelimiting_frame .long).guarded _ selfDelimiting_none))

end Options

/-! ## Definitions -/

namespace TypeDef

theorem selfDelimiting_readValue (d : TypeDef) : d.readValue.SelfDelimiting := by
  induction d with
  | range element default ih => exact ih.bind fun lower => ih.map (Value.range lower)
  | string d => exact (selfDelimiting_text .long).map _
  | uri d => exact (selfDelimiting_text .long).map _
  | enum d => exact (selfDelimiting_text .tiny).map _
  | custom d => exact (selfDelimiting_take d.size.toNat).map _
  | bang => exact selfDelimiting_fail _
  | group => exact selfDelimiting_fail _
  | _ => exact DelimitedScalar.selfDelimiting.map _

theorem selfDelimiting_readOption (code : UInt8) (d : TypeDef) :
    (readOption code d).SelfDelimiting := by
  cases d with
  | boolean d => exact (d.selfDelimiting_readOption code).map _
  | number k d => exact (d.selfDelimiting_readOption code).map _
  | string d => exact (d.selfDelimiting_readOption code).map _
  | enum d => exact (d.selfDelimiting_readOption code).map _
  | uri d => exact (d.selfDelimiting_readOption code).map _
  | rgb d => exact (d.selfDelimiting_readOption code).map _
  | rgba d => exact (d.selfDelimiting_readOption code).map _
  | ipv4 d => exact (d.selfDelimiting_readOption code).map _
  | ipv6 d => exact (d.selfDelimiting_readOption code).map _
  | custom d => exact (d.selfDelimiting_readOption code).map _
  | range element default =>
    rw [readOption]
    split
    · exact element.selfDelimiting_readValue.bind fun lower =>
        element.selfDelimiting_readValue.map _
    · exact selfDelimiting_none
  | bang | group => exact selfDelimiting_none

theorem selfDelimiting_readOptions (d : TypeDef) : (readOptions d).SelfDelimiting := by
  refine selfDelimiting_options (fun d code => (selfDelimiting_readOption code d).bind fun o => ?_) d
  cases o with
  | none => exact selfDelimiting_fail _
  | some d' => exact selfDelimiting_pure _

theorem selfDelimiting_readElement : readElement.SelfDelimiting := by
  refine selfDelimiting_peek (fun code => ?_) fun code => ?_
  · split
    · exact selfDelimiting_u8.bind fun _ => selfDelimiting_readOptions _
    · exact selfDelimiting_fail _
    · exact selfDelimiting_fail _
  · split
    · exact strict_u8.bind _
    · exact strict_fail _
    · exact strict_fail _

theorem selfDelimiting_read : read.SelfDelimiting := by
  refine selfDelimiting_datatype.bind fun datatype => ?_
  split
  · exact (selfDelimiting_nat 4).bind fun _ => selfDelimiting_readOptions _
  · exact selfDelimiting_readElement.bind fun _ => selfDelimiting_readOptions _
  · exact (selfDelimiting_ofOption _ _).bind selfDelimiting_readOptions

end TypeDef

/-! ## Parameters -/

theorem LocalizedText.selfDelimiting_read (w : Width) : (LocalizedText.read w).SelfDelimiting := by
  refine selfDelimiting_items (fun t => ?_) ({} : LocalizedText)
  refine (selfDelimiting_take 3).bind fun code => (selfDelimiting_text w).bind fun s => ?_
  split <;> exact selfDelimiting_pure _

namespace Parameter

theorem selfDelimiting_readOption (p : Parameter) (code : UInt8) :
    (p.readOption code).SelfDelimiting := by
  unfold readOption
  cases ParameterOption.ofCode? code with
  | none => exact selfDelimiting_none
  | some option =>
    cases option with
    | value =>
      dsimp only
      split
      · exact p.definition.selfDelimiting_readValue.map _
      · exact selfDelimiting_none
    | label => exact (LocalizedText.selfDelimiting_read .tiny).map _
    | description => exact (LocalizedText.selfDelimiting_read .short).map _
    | tags => exact (selfDelimiting_text .tiny).map _
    | order => exact selfDelimiting_int32.map _
    | parentId => exact selfDelimiting_paramId.map _
    | userData => exact (selfDelimiting_frame .long).map _
    | userId => exact (selfDelimiting_text .tiny).map _
    | widget => exact selfDelimiting_none

theorem selfDelimiting_read : read.SelfDelimiting :=
  selfDelimiting_paramId.bind fun _ => TypeDef.selfDelimiting_read.bind fun _ =>
    selfDelimiting_options selfDelimiting_readOption _

end Parameter

/-! ## Packets -/

theorem Info.selfDelimiting_read : Info.read.SelfDelimiting := by
  refine (selfDelimiting_text .tiny).bind fun version => ?_
  exact selfDelimiting_options
    (fun info code => (selfDelimiting_text .tiny).guarded _ (selfDelimiting_fail _)) _

theorem ValueUpdate.selfDelimiting_read : ValueUpdate.read.SelfDelimiting := by
  have helement : ∀ datatype, (readElement datatype).SelfDelimiting := by
    intro datatype
    unfold readElement
    split
    · exact selfDelimiting_datatype.map _
    · exact selfDelimiting_none
  have hdefinition : ∀ datatype element, (readDefinition datatype element).SelfDelimiting := by
    intro datatype element
    unfold readDefinition
    split
    · exact selfDelimiting_pure _
    · exact selfDelimiting_fail _
  refine selfDelimiting_paramId.bind fun id => selfDelimiting_datatype.bind fun datatype => ?_
  refine (helement datatype).bind fun element => (hdefinition datatype element).bind fun d => ?_
  exact d.selfDelimiting_readValue.map _

namespace Packet

theorem selfDelimiting_readData (command : Command) : (readData command).SelfDelimiting := by
  cases command with
  | info | version => exact Info.selfDelimiting_read.map _
  | dump | discover | remove => exact selfDelimiting_paramId.map _
  | update => exact Parameter.selfDelimiting_read.map _
  | updateValue => exact ValueUpdate.selfDelimiting_read.map _

theorem selfDelimiting_readOption (p : Packet) (code : UInt8) :
    (p.readOption code).SelfDelimiting := by
  unfold readOption
  split
  · exact selfDelimiting_uint64.map _
  · exact (selfDelimiting_readData _).map _
  · exact selfDelimiting_none

theorem selfDelimiting_readBody (command : Command) : (readBody command).SelfDelimiting := by
  unfold readBody
  split
  · exact (selfDelimiting_readData command).map _
  · exact selfDelimiting_options selfDelimiting_readOption _

theorem selfDelimiting_read : read.SelfDelimiting := by
  refine selfDelimiting_u8.bind fun code => ?_
  split
  · exact (selfDelimiting_readBody _).map _
  · exact selfDelimiting_none

/-- Of whatever bytes a packet, a parameter or a definition is read: what was consumed gives the
same whatever follows it, each of its beginnings lacks bytes, and a refusal that is not for lack of
bytes stands whatever follows. -/
theorem reads_delimited :
    Packet.read.SelfDelimiting ∧ Parameter.read.SelfDelimiting ∧ TypeDef.read.SelfDelimiting :=
  ⟨Packet.selfDelimiting_read, Parameter.selfDelimiting_read, TypeDef.selfDelimiting_read⟩

end Packet
end ParamSync
