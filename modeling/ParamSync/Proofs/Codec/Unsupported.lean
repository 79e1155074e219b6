import ParamSync.Proofs.Codec.Accepted
import ParamSync.Proofs.Codec.Delimited
import ParamSync.Proofs.Codec.Packet

/-!
# Options that cannot be read

Who reads a parameter and meets an option that cannot be read keeps what there is so far and stops,
since nothing tells how long that option is. So its bytes are left over. At the end of a message
nobody minds them, but a packet goes on: the loop around takes them for options of its own, and what
it takes for data stands in place of what was kept.

Results:
* `Parameter.run_read_of_unsupported`: what came before is kept and the bytes of the option are left.
* `Packet.parameter_read_iff`: which parameter the packet then has, by the bytes that were left; it
  is the one that was kept if these bytes, taken for options, put no other in its place.
* `Packet.unsupported_replaces`: they do, where a parameter stands among them.
-/

namespace ParamSync

open Reader

/-! ## Bytes that begin a list of options -/

namespace Reader.SelfDelimiting

variable {α β : Type} {r : Reader α} {a : α} {b : UInt8} {bs rest : Bytes}

/-- A read that leaves something of the last byte on takes nothing of that byte. -/
theorem exists_consumes (hr : r.SelfDelimiting) (h : r.run (bs ++ [b]) = .ok (a, rest))
    (hrest : rest ≠ []) :
    ∃ taken left, bs = taken ++ left ∧ rest = left ++ [b] ∧ r.Consumes taken a := by
  obtain ⟨taken, heq, hconsumes⟩ := (hr (bs ++ [b])).ok h
  obtain ⟨left, c, rfl⟩ := (List.eq_nil_or_concat rest).resolve_left hrest
  rw [List.concat_eq_append] at hrest ⊢
  rw [List.concat_eq_append, ← List.append_assoc] at heq
  obtain ⟨rfl, hb⟩ := List.append_inj' heq rfl
  cases hb
  exact ⟨taken, left, rfl, rfl, hconsumes⟩

/-- The last byte is left to the reader that comes after, if that takes any. -/
theorem exists_consumes_bind (hr : r.SelfDelimiting) {f : α → Reader β} (hf : ∀ a, (f a).Strict)
    {c : β} (h : (r >>= f).run (bs ++ [b]) = .ok (c, rest)) :
    ∃ a taken left, bs = taken ++ left ∧ r.Consumes taken a ∧
      (f a).run (left ++ [b]) = .ok (c, rest) := by
  cases hrun : r.run (bs ++ [b]) with
  | error e =>
    rw [run_bind_of_error hrun] at h
    cases h
  | ok result =>
    obtain ⟨a, middle⟩ := result
    rw [run_bind_of_ok hrun] at h
    have hmiddle : middle ≠ [] := by
      rintro rfl
      exact absurd (hf a h) (Nat.not_lt_zero _)
    obtain ⟨taken, left, rfl, rfl, hconsumes⟩ := hr.exists_consumes hrun hmiddle
    exact ⟨a, taken, left, rfl, hconsumes, h⟩

end Reader.SelfDelimiting

/-- Options with the terminator after them that are read to the end, by a reader that takes nothing
of an option which it does not know. -/
theorem OptionList.of_run {σ : Type} {body : σ → UInt8 → Reader (Option σ)}
    (hbody : ∀ s code, (body s code).SelfDelimiting)
    (hnone : ∀ (s : σ) (code : UInt8) {bs rest}, (body s code).run bs = .ok (none, rest) → rest = bs)
    {s s' : σ} {bs : Bytes} (h : (options body s).run (bs ++ [terminator]) = .ok (s', [])) :
    OptionList body s bs s' := by
  induction hn : bs.length using Nat.strongRecOn generalizing s bs with
  | ind n ih =>
    cases bs with
    | nil =>
      rw [List.nil_append, run_options_terminator] at h
      cases h
      exact .nil _
    | cons code bs =>
      rw [List.cons_append] at h
      by_cases hcode : code = terminator
      · rw [hcode, run_options_terminator] at h
        simp at h
      cases hrun : (body s code).run (bs ++ [terminator]) with
      | error e =>
        rw [run_options_error hcode hrun] at h
        cases h
      | ok result =>
        obtain ⟨o, rest⟩ := result
        cases o with
        | none =>
          rw [run_options_stop hcode hrun, hnone s code hrun] at h
          simp at h
        | some s'' =>
          rw [run_options_next hcode hrun] at h
          have hrest : rest ≠ [] := by
            rintro rfl
            exact absurd (strict_options body s'' h) (Nat.lt_irrefl _)
          obtain ⟨taken, left, rfl, rfl, hconsumes⟩ := (hbody s code).exists_consumes hrun hrest
          refine .cons hcode hconsumes.whole (ih left.length ?_ h rfl)
          rw [← hn, List.length_cons, List.length_append]
          omega

/-! ## Parameters -/

namespace Parameter

/-- No option with this code can be read into the parameter, and the code is not the terminator. -/
def Unsupported (p : Parameter) (code : UInt8) : Prop :=
  code ≠ terminator ∧
    match ParameterOption.ofCode? code with
    | none | some .widget => True
    | some .value => p.definition.hasValue = false
    | _ => False

instance (p : Parameter) (code : UInt8) : Decidable (p.Unsupported code) := by
  unfold Unsupported
  split <;> infer_instance

theorem Unsupported.readOption {p : Parameter} {code : UInt8} (h : p.Unsupported code) :
    p.readOption code = pure none := by
  have hoption := h.2
  unfold Parameter.readOption
  split <;> simp_all

/-- An option is not taken at all or read. -/
theorem readOption_cases (p : Parameter) (code : UInt8) :
    p.readOption code = pure none ∨ (p.readOption code).Gives fun o => o.isSome = true := by
  have hread {α : Type} (r : Reader α) (g : α → Parameter) :
      (do return some (g (← r)) : Reader (Option Parameter)).Gives fun o => o.isSome = true :=
    .after r fun _ => gives_pure rfl
  unfold readOption
  split
  · split
    · exact .inr (hread _ _)
    · exact .inl rfl
  all_goals first | exact .inl rfl | exact .inr (hread _ _)

theorem eq_of_run_readOption (p : Parameter) (code : UInt8) {bs rest : Bytes}
    (h : (p.readOption code).run bs = .ok (none, rest)) : rest = bs := by
  rcases p.readOption_cases code with hnone | hsome
  · rw [hnone] at h
    cases h
    rfl
  · have := hsome h
    simp at this

/-- A block that with the terminator after it is read as `p`, to the end, goes on with options that
are read into `p`. -/
theorem run_read_append {p : Parameter} {block : Bytes}
    (h : read.run (block ++ [terminator]) = .ok (p, [])) (rest : Bytes) :
    read.run (block ++ rest) = (options readOption p).run rest := by
  obtain ⟨id, idBytes, block, rfl, hid, h⟩ := selfDelimiting_paramId.exists_consumes_bind
    (fun _ => strict_bind_right _ fun _ => strict_options _ _) h
  obtain ⟨d, dBytes, block, rfl, hd, h⟩ := TypeDef.selfDelimiting_read.exists_consumes_bind
    (fun _ => strict_options _ _) h
  have hoptions := OptionList.of_run selfDelimiting_readOption
    (fun q code _ _ => eq_of_run_readOption q code) h
  rw [read, List.append_assoc, run_bind_of_ok (hid.whole _), List.append_assoc,
    run_bind_of_ok (hd.whole _), hoptions.run_append]

/-- What came before an option that cannot be read is kept, and the bytes of the option are left. -/
theorem run_read_of_unsupported {p : Parameter} {block : Bytes} {code : UInt8}
    (h : read.run (block ++ [terminator]) = .ok (p, [])) (hcode : p.Unsupported code)
    (payload : Bytes) : read.run (block ++ code :: payload) = .ok (p, payload) := by
  rw [run_read_append h]
  exact run_options_stop hcode.1 (by rw [hcode.readOption]; rfl)

end Parameter

/-! ## Packets -/

namespace Packet

/-- Read as options of a packet, the bytes leave the parameter `q` where `p` was. -/
inductive Leaves : Parameter → Bytes → Parameter → Prop
  | stop {p : Parameter} {code : UInt8} {rest : Bytes}
      (h : code = terminator ∨ PacketOption.ofCode? code = none) : Leaves p (code :: rest) p
  | time {p q : Parameter} {t : UInt64} {bs rest : Bytes} (h : uint64.run bs = .ok (t, rest))
      (hq : Leaves p rest q) : Leaves p (PacketOption.timestamp.code :: bs) q
  | data {p p' q : Parameter} {bs rest : Bytes} (h : Parameter.read.run bs = .ok (p', rest))
      (hq : Leaves p' rest q) : Leaves p (PacketOption.data.code :: bs) q

/-- An update of a parameter, as far as it has been read. -/
def holding (time : Option UInt64) (p : Parameter) : Packet :=
  { command := .update, timestamp := time, data := some (.parameter p) }

section Holding

variable {time : Option UInt64} {p q : Parameter} {bs rest : Bytes}

theorem readOption_time :
    (holding time p).readOption PacketOption.timestamp.code =
      uint64 >>= fun t => pure (some (holding (some t) p)) := by
  have hcode : PacketOption.ofCode? PacketOption.timestamp.code = some .timestamp :=
    PacketOption.ofCode?_eq_some_iff.2 rfl
  simp only [readOption, hcode]
  rfl

theorem readOption_data {s : Packet} (hs : s.command = .update) :
    s.readOption PacketOption.data.code =
      (Parameter.read >>= fun p' => pure (Payload.parameter p')) >>= fun d =>
        pure (some { s with data := some d }) := by
  have hcode : PacketOption.ofCode? PacketOption.data.code = some .data :=
    PacketOption.ofCode?_eq_some_iff.2 rfl
  simp only [readOption, hcode, hs]
  rfl

theorem run_options_time {t : UInt64} (h : uint64.run bs = .ok (t, rest)) :
    (options readOption (holding time p)).run (PacketOption.timestamp.code :: bs) =
      (options readOption (holding (some t) p)).run rest := by
  refine run_options_next (by decide) ?_
  rw [readOption_time, run_bind_of_ok h]
  rfl

/-- Data stand in the place of what was there before. -/
theorem run_options_data {s : Packet} (hs : s.command = .update)
    (h : Parameter.read.run bs = .ok (p, rest)) :
    (options readOption s).run (PacketOption.data.code :: bs) =
      (options readOption { s with data := some (.parameter p) }).run rest := by
  refine run_options_next (by decide) ?_
  rw [readOption_data hs, run_bind_of_ok (run_bind_of_ok h _)]
  rfl

theorem Leaves.exists_run (h : Leaves p bs q) (time : Option UInt64) :
    ∃ time' rest, (options readOption (holding time p)).run bs = .ok (holding time' q, rest) := by
  induction h generalizing time with
  | @stop p code rest h =>
    by_cases hcode : code = terminator
    · exact ⟨time, rest, by rw [hcode, run_options_terminator]⟩
    · have hnone := h.resolve_left hcode
      exact ⟨time, rest, run_options_stop hcode (by simp [readOption, hnone])⟩
  | time h _ ih =>
    rw [run_options_time h]
    exact ih _
  | data h _ ih =>
    rw [run_options_data rfl h]
    exact ih time

theorem exists_leaves_of_run {packet : Packet}
    (h : (options readOption (holding time p)).run bs = .ok (packet, rest)) :
    ∃ time' q, packet = holding time' q ∧ Leaves p bs q := by
  induction hn : bs.length using Nat.strongRecOn generalizing time p bs with
  | ind n ih =>
    cases bs with
    | nil => exact absurd (strict_options _ _ h) (Nat.not_lt_zero _)
    | cons code bs =>
      by_cases hcode : code = terminator
      · rw [hcode, run_options_terminator] at h
        cases h
        exact ⟨time, p, rfl, .stop (.inl hcode)⟩
      cases hoption : PacketOption.ofCode? code with
      | none =>
        have hstop : ((holding time p).readOption code).run bs = .ok (none, bs) := by
          simp [readOption, hoption]
        rw [run_options_stop hcode hstop] at h
        cases h
        exact ⟨time, p, rfl, .stop (.inr hoption)⟩
      | some o =>
        obtain rfl := PacketOption.ofCode?_eq_some_iff.1 hoption
        -- the loop goes on with what the option leaves, which is shorter
        cases o with
        | timestamp =>
          cases hread : uint64.run bs with
          | error e =>
            rw [run_options_error hcode (by rw [readOption_time, run_bind_of_error hread])] at h
            cases h
          | ok result =>
            rw [run_options_time hread] at h
            have hlt := (uint64.suffix_of_run hread).length_le
            obtain ⟨time', q, rfl, hq⟩ := ih _ (by simp at hn; omega) h rfl
            exact ⟨time', q, rfl, .time hread hq⟩
        | data =>
          cases hread : Parameter.read.run bs with
          | error e =>
            rw [run_options_error hcode
              (by rw [readOption_data rfl, run_bind_of_error (run_bind_of_error hread _)])] at h
            cases h
          | ok result =>
            rw [run_options_data rfl hread] at h
            have hlt := (Parameter.read.suffix_of_run hread).length_le
            obtain ⟨time', q, rfl, hq⟩ := ih _ (by simp at hn; omega) h rfl
            exact ⟨time', q, rfl, .data hread hq⟩

end Holding

/-- The loop around goes on with the bytes of an option that cannot be read. -/
theorem run_read_of_unsupported {p : Parameter} {block : Bytes} {code : UInt8}
    (hblock : Parameter.read.run (block ++ [terminator]) = .ok (p, []))
    (hcode : p.Unsupported code) (payload : Bytes) :
    read.run ([Command.update.code, PacketOption.data.code] ++ block ++ code :: payload) =
      (options readOption (holding none p) >>= fun packet => pure (some packet)).run payload := by
  have hdata := Parameter.run_read_of_unsupported hblock hcode payload
  have hcommand : Command.ofCode? Command.update.code = some .update :=
    Command.ofCode?_eq_some_iff.2 rfl
  rw [read, List.append_assoc, List.cons_append, run_bind_of_ok (run_u8_cons _ _), hcommand,
    List.singleton_append]
  simp only [readBody, if_neg (show Command.update ≠ .updateValue by decide)]
  rw [run_bind, run_options_data rfl hdata]
  rfl

/-- A packet whose parameter ends in an option that cannot be read is read as an update of the
parameter that the bytes of that option, taken for options of the packet, leave there. -/
theorem parameter_read_iff {p q : Parameter} {block payload : Bytes} {code : UInt8}
    (hblock : Parameter.read.run (block ++ [terminator]) = .ok (p, []))
    (hcode : p.Unsupported code) :
    (∃ packet,
      ofBytes ([Command.update.code, PacketOption.data.code] ++ block ++ code :: payload) =
        .ok (some packet) ∧
      packet.command = .update ∧ packet.parameter? = some q) ↔ Leaves p payload q := by
  rw [ofBytes, run_read_of_unsupported hblock hcode payload, run_bind]
  constructor
  · rintro ⟨packet, hpacket, -, hq⟩
    cases hrun : (options readOption (holding none p)).run payload with
    | error e => simp [hrun] at hpacket
    | ok result =>
      obtain ⟨time, q', hheld, hleaves⟩ := exists_leaves_of_run hrun
      simp [hrun, hheld] at hpacket
      obtain rfl : q' = q := by simpa [← hpacket, holding, parameter?] using hq
      exact hleaves
  · intro hleaves
    obtain ⟨time, rest, hrun⟩ := hleaves.exists_run none
    exact ⟨holding time q, by simp [hrun], rfl, rfl⟩

/-! A flag, and a widget of it that a peer does not know. -/

def flag : Parameter := { id := ⟨5⟩, definition := .boolean {}, value := .of (.boolean true) }

theorem run_read_flag :
    Parameter.read.run ([0x00, 0x05, 0x10, 0x00, 0x20, 0x01] ++ [terminator]) = .ok (flag, []) := by
  have hlegible : flag.Legible true := by
    refine ⟨trivial, fun _ _ hcode => ?_, fun _ _ hcode => ?_⟩ <;> simp [flag] at hcode
  exact Parameter.run_read hlegible []

/-- A widget of one byte that is no option of a packet: the flag is kept. -/
theorem parameter_read_iff_flag :
    (Parameter.read.run ([0x00, 0x05, 0x10, 0x00, 0x20, 0x01] ++ [terminator]) = .ok (flag, []) ∧
      flag.Unsupported 0x26) ∧
    ∃ packet, ofBytes [0x04, 0x02, 0x00, 0x05, 0x10, 0x00, 0x20, 0x01, 0x26, 0x99] =
      .ok (some packet) ∧ packet.command = .update ∧ packet.parameter? = some flag :=
  have hflag : flag.Unsupported 0x26 := by decide
  ⟨⟨run_read_flag, hflag⟩, (parameter_read_iff run_read_flag hflag).2 (.stop (.inr rfl))⟩

/-- A widget in which a whole parameter stands, after the byte that tells of data: that parameter is
read in place of the flag. -/
theorem unsupported_replaces :
    Parameter.read.run ([0x00, 0x05, 0x10, 0x00, 0x20, 0x01] ++ [terminator]) = .ok (flag, []) ∧
    flag.Unsupported 0x26 ∧
    ofBytes [0x04, 0x02, 0x00, 0x05, 0x10, 0x00, 0x20, 0x01, 0x26,
        0x02, 0x00, 0x06, 0x10, 0x00, 0x00, 0x00] =
      .ok (some (ofParameter { id := ⟨6⟩, definition := .boolean {} })) := by
  have hflag : flag.Unsupported 0x26 := by decide
  have hother : Parameter.read.run [0x00, 0x06, 0x10, 0x00, 0x00, 0x00] =
      .ok ({ id := ⟨6⟩, definition := .boolean {} }, [0x00]) := by
    have hlegible : Parameter.Legible { id := ⟨6⟩, definition := .boolean {} } true := by
      refine ⟨trivial, fun _ _ hcode => ?_, fun _ _ hcode => ?_⟩ <;> simp at hcode
    exact Parameter.run_read hlegible [0x00]
  have hpayload : (options readOption (holding none flag)).run
      (PacketOption.data.code :: [0x00, 0x06, 0x10, 0x00, 0x00, 0x00]) =
        .ok (holding none { id := ⟨6⟩, definition := .boolean {} }, []) := by
    rw [run_options_data rfl hother]
    exact run_options_terminator _ _ _
  have hread : read.run [0x04, 0x02, 0x00, 0x05, 0x10, 0x00, 0x20, 0x01, 0x26,
      0x02, 0x00, 0x06, 0x10, 0x00, 0x00, 0x00] =
        .ok (some (ofParameter { id := ⟨6⟩, definition := .boolean {} }), []) :=
    (run_read_of_unsupported run_read_flag hflag _).trans (run_bind_of_ok hpayload _)
  exact ⟨run_read_flag, hflag, by rw [ofBytes, hread]⟩

end Packet
end ParamSync
