import ParamSync.Proofs.Codec.Cutting

/-!
# What a cut leaves of a text

Of a text that is too long, what is read is the longest beginning of whole characters for which
there is room, with one U+FFFD behind it if the cut is inside a character. That may be longer than
what there is room for, and is read as it is all the same.

Results:
* `Utf8.kept_fitting`: what is read, by the characters for which there is room.
* `Utf8.LongestFit.of_fitting`: they are the longest beginning that fits.
* `Width.cut_exact`: what is read of a text, once and again, and how long its bytes are.
-/

namespace ParamSync

namespace Utf8

variable {m : Nat} {cs us : List Char} {s : String}

/-- A text takes the bytes that its characters take. -/
theorem length_encode (s : String) : (encode s).length = width s.toList := by
  rw [encode]
  induction s.toList with
  | nil => rfl
  | cons c cs ih =>
    rw [List.flatMap_cons, List.length_append, ih, String.length_utf8EncodeChar, width_cons]

/-! ## The characters that fit -/

/-- The first characters, as many as `m` bytes have room for. -/
def fitting : Nat → List Char → List Char
  | _, [] => []
  | m, c :: cs => if c.utf8Size ≤ m then c :: fitting (m - c.utf8Size) cs else []

theorem fitting_prefix (m : Nat) (cs : List Char) : fitting m cs <+: cs := by
  induction cs generalizing m with
  | nil => exact List.prefix_rfl
  | cons c cs ih =>
    rw [fitting]
    split
    · exact (List.prefix_cons_inj c).2 (ih _)
    · exact List.nil_prefix

theorem width_fitting_le (m : Nat) (cs : List Char) : width (fitting m cs) ≤ m := by
  induction cs generalizing m with
  | nil => exact Nat.zero_le m
  | cons c cs ih =>
    rw [fitting]
    split
    · have := ih (m - c.utf8Size)
      rw [width_cons]
      omega
    · exact Nat.zero_le m

/-- No beginning for which there is room is longer. -/
theorem prefix_fitting (h : us <+: cs) (hm : width us ≤ m) : us <+: fitting m cs := by
  induction us generalizing m cs with
  | nil => exact List.nil_prefix
  | cons u us ih =>
    obtain ⟨vs, rfl⟩ := h
    rw [width_cons] at hm
    rw [List.cons_append, fitting, if_pos (by omega)]
    exact (List.prefix_cons_inj u).2 (ih (List.prefix_append us vs) (by omega))

/-- What is read of the first bytes: the characters that fit, and one U+FFFD if there are more and
the bytes do not end where a character does. -/
theorem kept_fitting (m : Nat) (cs : List Char) :
    kept m cs = fitting m cs ++
      if width cs ≤ m ∨ width (fitting m cs) = m then [] else ['\uFFFD'] := by
  induction cs generalizing m with
  | nil => simp [kept, fitting]
  | cons c cs ih =>
    rw [kept, fitting]
    split
    · next hfits =>
      have hrest : (width (c :: cs) ≤ m ∨ width (c :: fitting (m - c.utf8Size) cs) = m) ↔
          width cs ≤ m - c.utf8Size ∨ width (fitting (m - c.utf8Size) cs) = m - c.utf8Size := by
        rw [width_cons, width_cons]
        omega
      rw [ih]
      simp only [hrest, List.cons_append]
    · next hlong =>
      have hwide : ¬ width (c :: cs) ≤ m := by
        rw [width_cons]
        omega
      simp only [hwide, width_nil, false_or, List.nil_append, eq_comm (a := 0)]

/-! ## In terms of texts -/

/-- The longest beginning of a text, of whole characters, for which `m` bytes have room. -/
structure LongestFit (m : Nat) (s u : String) : Prop where
  begins : u.toList <+: s.toList
  fits : (encode u).length ≤ m
  longest : ∀ v : String, v.toList <+: s.toList → (encode v).length ≤ m → v.toList <+: u.toList

theorem LongestFit.of_fitting (m : Nat) (s : String) :
    LongestFit m s (.ofList (fitting m s.toList)) where
  begins := by
    rw [String.toList_ofList]
    exact fitting_prefix m s.toList
  fits := by
    rw [length_encode, String.toList_ofList]
    exact width_fitting_le m s.toList
  longest v hv hm := by
    rw [String.toList_ofList]
    exact prefix_fitting hv (length_encode v ▸ hm)

/-- The first `m` bytes of a text end where one of its characters does. -/
def CutsBetween (m : Nat) (s : String) : Prop :=
  ∃ v : String, v.toList <+: s.toList ∧ (encode v).length = m

theorem cutsBetween_iff : CutsBetween m s ↔ width (fitting m s.toList) = m := by
  constructor
  · rintro ⟨v, hv, hm⟩
    rw [length_encode] at hm
    -- the longest beginning that fits takes no less than this one, and no more than there is
    obtain ⟨ws, hws⟩ := prefix_fitting hv (Nat.le_of_eq hm)
    have hle := width_fitting_le m s.toList
    rw [← hws, width_append] at hle ⊢
    omega
  · intro hm
    refine ⟨.ofList (fitting m s.toList), ?_, ?_⟩
    · rw [String.toList_ofList]
      exact fitting_prefix m s.toList
    · rw [length_encode, String.toList_ofList, hm]

end Utf8

namespace Width

open Utf8 (LongestFit CutsBetween)

theorem cut_fitting {w : Width} {s : String} (h : w.limit < (Utf8.encode s).length) :
    w.cut s = .ofList (Utf8.fitting w.limit s.toList ++
      if Utf8.width (Utf8.fitting w.limit s.toList) = w.limit then [] else ['\uFFFD']) := by
  have hlong : ¬ Utf8.width s.toList ≤ w.limit := by
    rw [← Utf8.length_encode]
    omega
  rw [← String.toList_inj, toList_cut, String.toList_ofList, Utf8.kept_fitting]
  simp only [hlong, false_or]

/-- The bytes of a text are its length and no more than there is room for. -/
theorem length_text (w : Width) (s : String) :
    (w.text s).length = w.size + min w.limit (Utf8.encode s).length := by
  rw [text, frame, List.length_append, Bytes.length_ofNat, List.length_take]

/-- What is written of a text is read as one text, and the reader takes exactly the bytes that were
written: at most the greatest length, 255 for a tiny text and 65535 for a short one, after the
length itself. A text for which there is room is read as it is. Of any other, what is read is the
longest beginning of whole characters for which there is room, and after it one U+FFFD exactly if
the cut is inside a character. What was read is read as it is when it is written again. -/
theorem cut_exact (w : Width) (s : String) :
    ∃ t, (∀ rest, (Reader.text w).run (w.text s ++ rest) = .ok (t, rest)) ∧
      ((Utf8.encode s).length ≤ w.limit → t = s) ∧
      (w.limit < (Utf8.encode s).length → ∃ u, LongestFit w.limit s u ∧
        (CutsBetween w.limit s → t = u) ∧ (¬ CutsBetween w.limit s → t = u ++ "\uFFFD")) ∧
      (∀ rest, (Reader.text w).run (w.text t ++ rest) = .ok (t, rest)) ∧
      (w.text s).length = w.size + min w.limit (Utf8.encode s).length ∧
      tiny.limit = 255 ∧ short.limit = 65535 := by
  refine ⟨w.cut s, Reader.run_text_append w s, cut_of_length_le, fun hlong => ?_, fun rest => ?_,
    w.length_text s, rfl, rfl⟩
  · refine ⟨_, .of_fitting w.limit s, fun hbetween => ?_, fun hinside => ?_⟩
    · rw [cut_fitting hlong, if_pos (Utf8.cutsBetween_iff.1 hbetween), List.append_nil]
    · rw [cut_fitting hlong, if_neg (mt Utf8.cutsBetween_iff.2 hinside), String.ofList_append]
  · rw [Reader.run_text_append, cut_cut]

end Width
end ParamSync
