import Mathlib.Data.List.DropRight
import ParamSync.Proofs.Codec.Text

/-!
# Texts that are cut

A text that is too long is cut between two bytes. Where that is inside a character, the bytes that
are left of it are read as one U+FFFD, which can have more bytes than they are, so that what is
read may be too long again. It is cut inside the U+FFFD then, which is read as U+FFFD: `Utf8.kept`
tells character by character what is read, and `Utf8.Settled` what a text looks like that a cut
does not change.

Results:
* `Utf8.decode_take`: the first bytes of a text are read as `kept` says.
* `Width.cut_cut`: what was read of a text that was cut is read as it is.
* `Text.words_cut_words`: so are the words of such a text.
* `LocalizedText.isSettled_heard`: so is a language code that was cut and trimmed.
-/

namespace ParamSync

namespace Utf8

/-! ## The first bytes of a character -/

namespace Decoder

/-- How many characters have been begun. -/
def begun (d : Decoder) : Nat := d.text.length + if d.pending.isSome then 1 else 0

theorem begun_start (text : String) (b : UInt8) : (start text b).begun = text.length + 1 := by
  unfold start
  split
  · simp [begun]
  · split <;> simp [begun]

/-- Between two characters, a byte begins one. -/
theorem begun_feed_none (text : String) (b : UInt8) :
    (feed ⟨text, none⟩ b).begun = text.length + 1 :=
  begun_start text b

theorem begun_le_feed (d : Decoder) (b : UInt8) : d.begun ≤ (d.feed b).begun := by
  obtain ⟨text, pending⟩ := d
  cases pending with
  | none =>
    rw [begun_feed_none]
    exact Nat.le_succ _
  | some p =>
    simp only [feed]
    split
    · split <;> simp [begun]
    · rw [begun_start, String.length_push]
      exact Nat.le_succ _

theorem begun_le_foldl (d : Decoder) (bs : Bytes) : d.begun ≤ (bs.foldl feed d).begun := by
  induction bs generalizing d with
  | nil => exact Nat.le_refl _
  | cons b bs ih => exact (d.begun_le_feed b).trans (ih (d.feed b))

/-- What has been read stays. -/
theorem exists_text_feed (d : Decoder) (b : UInt8) :
    ∃ added, (d.feed b).text = d.text ++ added := by
  have hstart : ∀ text, ∃ added, (start text b).text = text ++ added := fun text => by
    unfold start
    split
    · exact ⟨_, String.push_eq_append _⟩
    · split
      · exact ⟨"", String.append_empty.symm⟩
      · exact ⟨_, String.push_eq_append _⟩
  unfold feed
  split
  · exact hstart d.text
  · split
    · split
      · exact ⟨_, String.push_eq_append _⟩
      · exact ⟨"", String.append_empty.symm⟩
    · obtain ⟨added, hadded⟩ := hstart (d.text.push '\uFFFD')
      exact ⟨_, by rw [hadded, String.push_eq_append, String.append_assoc]⟩

theorem exists_text_foldl (d : Decoder) (bs : Bytes) :
    ∃ added, (bs.foldl feed d).text = d.text ++ added := by
  induction bs generalizing d with
  | nil => exact ⟨"", String.append_empty.symm⟩
  | cons b bs ih =>
    obtain ⟨first, hfirst⟩ := d.exists_text_feed b
    obtain ⟨added, hadded⟩ := ih (d.feed b)
    exact ⟨first ++ added, by rw [List.foldl_cons, hadded, hfirst, String.append_assoc]⟩

end Decoder

open Decoder in
/-- The first bytes of a character leave it unfinished: they begin it, and a byte that comes between
two characters would begin another one. -/
theorem foldl_feed_take (text : String) (c : Char) {n : Nat} (hpos : 0 < n)
    (hn : n < (String.utf8EncodeChar c).length) :
    ∃ p, ((String.utf8EncodeChar c).take n).foldl feed ⟨text, none⟩ = ⟨text, some p⟩ := by
  have hwhole := foldl_feed_utf8EncodeChar text c
  rw [← List.take_append_drop n (String.utf8EncodeChar c), List.foldl_append] at hwhole
  have hlow : text.length + 1 ≤
      (((String.utf8EncodeChar c).take n).foldl feed ⟨text, none⟩).begun := by
    cases hfirst : (String.utf8EncodeChar c).take n with
    | nil =>
      have := congrArg List.length hfirst
      simp only [List.length_take, List.length_nil] at this
      omega
    | cons b bs =>
      rw [List.foldl_cons, ← begun_feed_none text b]
      exact begun_le_foldl _ bs
  obtain ⟨added, hadded⟩ :=
    exists_text_foldl ⟨text, none⟩ ((String.utf8EncodeChar c).take n)
  generalize ((String.utf8EncodeChar c).take n).foldl feed ⟨text, none⟩ = d at *
  have hhigh : (⟨text.push c, none⟩ : Decoder).begun = text.length + 1 := by simp [begun]
  obtain ⟨text', pending⟩ := d
  cases pending with
  | none =>
    cases hlast : (String.utf8EncodeChar c).drop n with
    | nil =>
      have := congrArg List.length hlast
      simp only [List.length_drop, List.length_nil] at this
      omega
    | cons b bs =>
      rw [hlast, List.foldl_cons] at hwhole
      have hnext := begun_le_foldl (feed ⟨text', none⟩ b) bs
      rw [hwhole, hhigh, begun_feed_none] at hnext
      simp only [begun, Option.isSome_none, Bool.false_eq_true, if_false] at hlow
      omega
  | some p =>
    have hle := begun_le_foldl ⟨text', some p⟩ ((String.utf8EncodeChar c).drop n)
    obtain rfl : text' = text ++ added := hadded
    rw [hwhole, hhigh] at hle
    simp only [begun, Option.isSome_some, if_true, String.length_append] at hle
    have hempty : added = "" := String.length_eq_zero_iff.1 (by omega)
    exact ⟨p, by rw [hempty, String.append_empty]⟩

/-! ## The first bytes of a text -/

/-- The bytes that characters take. -/
def width : List Char → Nat
  | [] => 0
  | c :: cs => c.utf8Size + width cs

@[simp] theorem width_nil : width [] = 0 := rfl

@[simp] theorem width_cons (c : Char) (cs : List Char) :
    width (c :: cs) = c.utf8Size + width cs := rfl

@[simp] theorem width_append (cs ds : List Char) : width (cs ++ ds) = width cs + width ds := by
  induction cs with
  | nil => simp
  | cons c cs ih => simp [ih, Nat.add_assoc]

@[simp] theorem width_reverse (cs : List Char) : width cs.reverse = width cs := by
  induction cs with
  | nil => rfl
  | cons c cs ih => simp [ih, Nat.add_comm]

/-- What is read of the first `m` bytes of some characters: those for which there is room, and
U+FFFD for one that is cut. -/
def kept : Nat → List Char → List Char
  | _, [] => []
  | m, c :: cs =>
    if c.utf8Size ≤ m then c :: kept (m - c.utf8Size) cs
    else if m = 0 then [] else ['\uFFFD']

theorem finish_foldl_feed_take (m : Nat) (cs : List Char) (text : String) :
    (((cs.flatMap String.utf8EncodeChar).take m).foldl Decoder.feed ⟨text, none⟩).finish =
      text ++ String.ofList (kept m cs) := by
  induction cs generalizing m text with
  | nil => simp [kept, Decoder.finish]
  | cons c cs ih =>
    have hsize : (String.utf8EncodeChar c).length = c.utf8Size := String.length_utf8EncodeChar c
    rw [List.flatMap_cons, kept]
    split
    · next hfits =>
      rw [List.take_append, hsize, List.take_of_length_le (by omega), List.foldl_append,
        foldl_feed_utf8EncodeChar, ih]
      simp [← String.toList_inj]
    · next hlong =>
      rw [List.take_append_of_le_length (by omega)]
      split
      · next hzero => simp [hzero, Decoder.finish]
      · next hpos =>
        obtain ⟨p, hp⟩ := foldl_feed_take text c (Nat.pos_of_ne_zero hpos) (by omega)
        rw [hp]
        simp [Decoder.finish, ← String.toList_inj]

/-- The first bytes of a text are read as `kept` says. -/
theorem decode_take (m : Nat) (s : String) :
    decode ((encode s).take m) = String.ofList (kept m s.toList) := by
  rw [decode, encode, finish_foldl_feed_take]
  simp

/-! ## Cutting twice -/

/-- A cut after `m` bytes changes nothing: there is room for everything, or for all but a U+FFFD
at the end, and this one is cut or not. -/
def Settled (m : Nat) (cs : List Char) : Prop :=
  width cs ≤ m ∨ ∃ us, cs = us ++ ['\uFFFD'] ∧ width us < m

theorem Settled.kept_eq {m : Nat} {cs : List Char} (h : Settled m cs) : kept m cs = cs := by
  rcases h with h | ⟨us, rfl, h⟩
  · induction cs generalizing m with
    | nil => rfl
    | cons c cs ih =>
      rw [width_cons] at h
      rw [kept, if_pos (by omega), ih (by omega)]
  · induction us generalizing m with
    | nil =>
      rw [width_nil] at h
      rw [List.nil_append, kept, if_neg (by omega : m ≠ 0)]
      split <;> rfl
    | cons c us ih =>
      rw [width_cons] at h
      rw [List.cons_append, kept, if_pos (by omega), ih (by omega)]

/-- What is read of the first bytes is changed by no further cut there. -/
theorem settled_kept (m : Nat) (cs : List Char) : Settled m (kept m cs) := by
  induction cs generalizing m with
  | nil => exact .inl (Nat.zero_le m)
  | cons c cs ih =>
    rw [kept]
    split
    · next hfits =>
      rcases ih (m - c.utf8Size) with h | ⟨us, hus, h⟩
      · refine .inl ?_
        rw [width_cons]
        omega
      · refine .inr ⟨c :: us, by rw [hus, List.cons_append], ?_⟩
        rw [width_cons]
        omega
    · split
      · exact .inl (Nat.zero_le m)
      · next hpos => exact .inr ⟨[], rfl, Nat.pos_of_ne_zero hpos⟩

/-- What is read of the first bytes begins as the text does, up to a U+FFFD. -/
theorem exists_append_of_kept {m : Nat} {cs us vs : List Char} (h : kept m cs = us ++ vs)
    (hus : '\uFFFD' ∉ us) : ∃ ws, cs = us ++ ws := by
  induction us generalizing m cs with
  | nil => exact ⟨cs, rfl⟩
  | cons u us ih =>
    rw [List.mem_cons, not_or] at hus
    cases cs with
    | nil => cases h
    | cons c cs =>
      rw [kept] at h
      split at h
      · obtain ⟨hc, htail⟩ := List.cons.inj h
        obtain ⟨ws, hws⟩ := ih htail hus.2
        exact ⟨ws, by rw [hc, hws, List.cons_append]⟩
      · split at h
        · cases h
        · exact absurd (List.cons.inj h).1 hus.1

end Utf8

/-! ## Texts after their length -/

namespace Width

theorem toList_cut (w : Width) (s : String) : (w.cut s).toList = Utf8.kept w.limit s.toList := by
  rw [cut, Utf8.decode_take, String.toList_ofList]

/-- A text of which there is room for everything, up to a U+FFFD at the end, is not changed. -/
theorem cut_of_settled {w : Width} {s : String} (h : Utf8.Settled w.limit s.toList) :
    w.cut s = s := by
  rw [← String.toList_inj, toList_cut, h.kept_eq]

theorem settled_cut (w : Width) (s : String) : Utf8.Settled w.limit (w.cut s).toList := by
  rw [toList_cut]
  exact Utf8.settled_kept w.limit s.toList

/-- A text that was cut is read as it is. -/
theorem cut_cut (w : Width) (s : String) : w.cut (w.cut s) = w.cut s :=
  cut_of_settled (w.settled_cut s)

end Width

/-! ## Words -/

namespace Text

/-- The characters of words joined by spaces. -/
def joined (ws : List String) : List Char := (" ".intercalate ws).toList

theorem joined_cons (w : String) (ws : List String) :
    joined (w :: ws) = w.toList ++ if ws = [] then [] else ' ' :: joined ws := by
  cases ws with
  | nil => simp [joined]
  | cons v vs => simp [joined, String.intercalate_cons_cons]

/-- Joined words are no longer than the text that they were read from: a space has one byte, and no
blank has fewer. -/
theorem width_joined_wordsFrom (word cs : List Char) :
    Utf8.width (joined (wordsFrom word cs)) ≤ Utf8.width word + Utf8.width cs := by
  induction cs generalizing word with
  | nil =>
    rw [wordsFrom]
    split
    · exact Nat.zero_le _
    · simp [joined]
  | cons c cs ih =>
    have hc := c.utf8Size_pos
    rw [wordsFrom, Utf8.width_cons]
    split
    · have hrest := ih []
      rw [Utf8.width_nil] at hrest
      split
      · omega
      · rw [joined_cons, String.toList_ofList, Utf8.width_append, Utf8.width_reverse]
        have hspace : (' ' : Char).utf8Size = 1 := rfl
        split
        · rw [Utf8.width_nil]
          omega
        · rw [Utf8.width_cons]
          omega
    · have hrest := ih (c :: word)
      rw [Utf8.width_cons] at hrest
      omega

/-- Joined words end as the text does, if it ends in no blank. -/
theorem exists_joined_wordsFrom {x : Char} (hx : isBlank x = false) (word cs : List Char) :
    ∃ us, joined (wordsFrom word (cs ++ [x])) = us ++ [x] ∧
      Utf8.width us ≤ Utf8.width word + Utf8.width cs := by
  induction cs generalizing word with
  | nil =>
    refine ⟨word.reverse, ?_, by simp⟩
    simp [wordsFrom, hx, joined]
  | cons c cs ih =>
    have hc := c.utf8Size_pos
    rw [List.cons_append, wordsFrom, Utf8.width_cons]
    split
    · obtain ⟨us, hus, hwidth⟩ := ih []
      rw [Utf8.width_nil] at hwidth
      split
      · exact ⟨us, hus, by omega⟩
      · have hne : wordsFrom [] (cs ++ [x]) ≠ [] := fun hnil => by
          rw [hnil] at hus
          simp [joined] at hus
        have hspace : (' ' : Char).utf8Size = 1 := rfl
        refine ⟨word.reverse ++ ' ' :: us, ?_, ?_⟩
        · rw [joined_cons, if_neg hne, hus]
          simp
        · rw [Utf8.width_append, Utf8.width_reverse, Utf8.width_cons]
          omega
    · obtain ⟨us, hus, hwidth⟩ := ih (c :: word)
      rw [Utf8.width_cons] at hwidth
      exact ⟨us, hus, by omega⟩

theorem isWord_of_mem_wordsFrom {word cs : List Char} (hword : ∀ c ∈ word, isBlank c = false)
    {s : String} (hs : s ∈ wordsFrom word cs) : IsWord s := by
  have hread : ∀ {word : List Char}, (∀ c ∈ word, isBlank c = false) → word.isEmpty ≠ true →
      IsWord (String.ofList word.reverse) := by
    intro word hword hne
    refine ⟨?_, by simpa using hword⟩
    simpa [← String.toList_inj] using hne
  induction cs generalizing word with
  | nil =>
    rw [wordsFrom] at hs
    split at hs
    · cases hs
    · next hne =>
      obtain rfl := List.mem_singleton.1 hs
      exact hread hword hne
  | cons c cs ih =>
    rw [wordsFrom] at hs
    split at hs
    · split at hs
      · exact ih (by simp) hs
      · next hne =>
        rcases List.mem_cons.1 hs with rfl | hs
        · exact hread hword hne
        · exact ih (by simp) hs
    · next hblank =>
      refine ih (fun d hd => ?_) hs
      rcases List.mem_cons.1 hd with rfl | hd
      · simpa using hblank
      · exact hword d hd

/-- The words of a text that a cut does not change, joined, are not changed either. -/
theorem settled_joined_words {m : Nat} {s : String} (h : Utf8.Settled m s.toList) :
    Utf8.Settled m (joined (words s)) := by
  rcases h with h | ⟨us, hus, h⟩
  · have := width_joined_wordsFrom [] s.toList
    rw [Utf8.width_nil] at this
    exact .inl (by rw [words]; omega)
  · obtain ⟨vs, hvs, hwidth⟩ :=
      exists_joined_wordsFrom (x := '\uFFFD') (by decide) [] us
    rw [Utf8.width_nil] at hwidth
    exact .inr ⟨vs, by rw [words, hus, hvs], by omega⟩

/-- The words of a text that was cut are read as they are. -/
theorem words_cut_words (w : Width) (s : String) :
    words (w.cut (" ".intercalate (words (w.cut s)))) = words (w.cut s) := by
  have hwords : ∀ t ∈ words (w.cut s), IsWord t := fun t ht =>
    isWord_of_mem_wordsFrom (by simp) ht
  rw [Width.cut_of_settled (settled_joined_words (w.settled_cut s)), words_intercalate hwords]

end Text

/-! ## Language codes -/

namespace Text

theorem toList_trimEnd (s : String) : (trimEnd s).toList = s.toList.rdropWhile isBlank := by
  rw [trimEnd, String.toList_ofList, List.rdropWhile]

theorem trimEnd_trimEnd (s : String) : trimEnd (trimEnd s) = trimEnd s := by
  rw [← String.toList_inj, toList_trimEnd, toList_trimEnd, List.rdropWhile_idempotent]

/-- Blanks at the end make no difference. -/
theorem trimEnd_append_blanks (s : String) {t : String} (ht : ∀ c ∈ t.toList, isBlank c = true) :
    trimEnd (s ++ t) = trimEnd s := by
  rw [trimEnd, String.toList_append, List.reverse_append,
    List.dropWhile_append_of_pos (by simpa using ht), trimEnd]

/-- A text that a cut does not change is not changed without the blanks at its end. -/
theorem settled_trimEnd {m : Nat} {s : String} (h : Utf8.Settled m s.toList) :
    Utf8.Settled m (trimEnd s).toList := by
  rw [toList_trimEnd]
  rcases h with h | ⟨us, hus, h⟩
  · obtain ⟨vs, hvs⟩ := List.rdropWhile_prefix isBlank s.toList
    rw [← hvs, Utf8.width_append] at h
    exact .inl (by omega)
  · rw [hus, List.rdropWhile_concat_neg _ _ _ (by decide)]
    exact .inr ⟨us, rfl, h⟩

end Text

namespace LocalizedText

open Text

/-- A language code is read as the three bytes that it is cut to say, without blanks at the end. -/
theorem trimEnd_decode_languageBytes (code : String) :
    trimEnd (Utf8.decode (languageBytes code)) =
      trimEnd (String.ofList (Utf8.kept 3 code.toList)) := by
  rw [← Utf8.decode_take, languageBytes]
  by_cases hlong : 3 ≤ (Utf8.encode code).length
  · have hfull : 3 - ((Utf8.encode code).take 3).length = 0 := by
      rw [List.length_take]
      omega
    rw [hfull, List.replicate_zero, List.append_nil]
  · rw [List.take_of_length_le (by omega), Utf8.replicate_space, ← Utf8.encode_append,
      Utf8.decode_encode, Utf8.decode_encode]
    exact trimEnd_append_blanks code fun c hc => by
      rw [String.toList_ofList] at hc
      rw [(List.mem_replicate.1 hc).2]
      rfl

/-- A language code that is written so that it is read as itself. -/
structure IsSettled (code : String) : Prop where
  heard : trimEnd (Utf8.decode (languageBytes code)) = code
  ne_any : languageBytes code ≠ anyLanguage
  head?_ne : code.toList.head? ≠ some '\x00'

theorem IsLanguage.isSettled {code : String} (h : IsLanguage code)
    (hhead : code.toList.head? ≠ some '\x00') : IsSettled code :=
  ⟨trimEnd_languageBytes h, languageBytes_ne_any h, hhead⟩

/-- A language code that was cut and trimmed is read as itself. Other codes do not become that of
the default text. -/
theorem isSettled_heard {code : String} (hhead : code.toList.head? ≠ some '\x00')
    (hany : languageBytes code ≠ anyLanguage) :
    IsSettled (trimEnd (Utf8.decode (languageBytes code))) := by
  have hsettled := Utf8.settled_kept 3 code.toList
  rw [trimEnd_decode_languageBytes]
  set heard := trimEnd (String.ofList (Utf8.kept 3 code.toList)) with hheard
  have hfix : trimEnd (Utf8.decode (languageBytes heard)) = heard := by
    have hkept : Utf8.Settled 3 heard.toList := settled_trimEnd (by rwa [String.toList_ofList])
    rw [trimEnd_decode_languageBytes, hkept.kept_eq, String.ofList_toList, hheard, trimEnd_trimEnd]
  -- what is read begins what was cut
  obtain ⟨blanks, hblanks⟩ : ∃ blanks, Utf8.kept 3 code.toList = heard.toList ++ blanks := by
    obtain ⟨blanks, hblanks⟩ :=
      List.rdropWhile_prefix isBlank (Utf8.kept 3 code.toList)
    refine ⟨blanks, ?_⟩
    rw [hheard, toList_trimEnd, String.toList_ofList, hblanks]
  refine ⟨hfix, fun heq => ?_, fun hzero => ?_⟩
  · have hanyText : heard = "any" := by
      rw [← hfix, heq]
      decide
    obtain ⟨rest, hrest⟩ := Utf8.exists_append_of_kept hblanks (by rw [hanyText]; decide)
    refine hany ?_
    have hcode : code = heard ++ String.ofList rest := by
      rw [← String.toList_inj, String.toList_append, String.toList_ofList, hrest]
    have hbytes : Utf8.encode "any" = anyLanguage := by decide
    rw [languageBytes, hcode, hanyText, Utf8.encode_append, hbytes]
    rfl
  · obtain ⟨cs, hcs⟩ : ∃ cs, heard.toList = ['\x00'] ++ cs := by
      cases hlist : heard.toList with
      | nil => rw [hlist] at hzero; cases hzero
      | cons c cs =>
        rw [hlist] at hzero
        cases hzero
        exact ⟨cs, rfl⟩
    rw [hcs, List.append_assoc] at hblanks
    obtain ⟨rest, hrest⟩ := Utf8.exists_append_of_kept hblanks (by decide)
    exact hhead (by rw [hrest]; rfl)

end LocalizedText
end ParamSync
