import ParamSync.Localized
import ParamSync.TypeDef.Text

/-!
# Texts survive the wire

A text is written as UTF-8 after its length and read back by a decoder that takes any bytes. On
what a text was encoded to, the decoder gives the text back; where the text was cut to fit its
length, it gives `Width.cut`. Words joined by spaces and language codes filled up with spaces come
back if they have no blanks of their own.

Results:
* `Utf8.decode_encode`: the bytes of a text are read as that text.
* `Reader.run_text_append`, `Width.cut_of_length_le`: a text comes back cut, and whole if it fits.
* `Text.words_intercalate`: joined words are told apart again.
* `LocalizedText.trimEnd_languageBytes`: a language code comes back without its filling.
-/

namespace ParamSync

/-! ## UTF-8 -/

namespace Utf8

/-- A lead byte of two, by what it carries. -/
theorem ofLead?_two : ∀ n < 32, 2 ≤ n →
    Partial.ofLead? (UInt8.ofNat (n + 0xC0)) = some ⟨n, 1, 0x80, 0xBF⟩ := by decide

/-- A lead byte of three. After the first the continuation is not overlong, and before the last
surrogates it is none of these. -/
theorem ofLead?_three : ∀ n < 16, Partial.ofLead? (UInt8.ofNat (n + 0xE0)) =
    some ⟨n, 2, if n = 0 then 0xA0 else 0x80, if n = 13 then 0x9F else 0xBF⟩ := by decide

/-- A lead byte of four, which goes up to the last character. -/
theorem ofLead?_four : ∀ n < 5, Partial.ofLead? (UInt8.ofNat (n + 0xF0)) =
    some ⟨n, 3, if n = 0 then 0x90 else 0x80, if n = 4 then 0x8F else 0xBF⟩ := by decide

theorem feed_lead {text : String} {n : Nat} {p : Partial} (hlow : 0x80 ≤ n) (hhigh : n < 256)
    (h : Partial.ofLead? (UInt8.ofNat n) = some p) :
    Decoder.feed ⟨text, none⟩ (UInt8.ofNat n) = ⟨text, some p⟩ := by
  have hn : ¬ UInt8.ofNat n < 0x80 := by
    rw [UInt8.lt_iff_toNat_lt, UInt8.toNat_ofNat', Nat.mod_eq_of_lt hhigh]
    exact Nat.not_lt.2 hlow
  simp only [Decoder.feed, Decoder.start, if_neg hn, h]

section Continue

variable {text : String} {bits x : Nat} {low high : UInt8} (hlow : low.toNat ≤ x % 64 + 0x80)
  (hhigh : x % 64 + 0x80 ≤ high.toNat)
include hlow hhigh

theorem toNat_continue : (UInt8.ofNat (x % 64 + 0x80)).toNat = x % 64 + 0x80 ∧
    (low ≤ UInt8.ofNat (x % 64 + 0x80) && UInt8.ofNat (x % 64 + 0x80) ≤ high) = true := by
  have hx : (UInt8.ofNat (x % 64 + 0x80)).toNat = x % 64 + 0x80 := by
    rw [UInt8.toNat_ofNat']
    omega
  rw [Bool.and_eq_true, decide_eq_true_iff, decide_eq_true_iff, UInt8.le_iff_toNat_le,
    UInt8.le_iff_toNat_le, hx]
  exact ⟨rfl, hlow, hhigh⟩

/-- A continuation byte in its range adds six bits. -/
theorem feed_next {missing : Nat} :
    Decoder.feed ⟨text, some ⟨bits, missing + 2, low, high⟩⟩ (UInt8.ofNat (x % 64 + 0x80)) =
      ⟨text, some ⟨bits * 64 + x % 64, missing + 1, 0x80, 0xBF⟩⟩ := by
  obtain ⟨hx, hrange⟩ := toNat_continue hlow hhigh
  have hbits : (x % 64 + 0x80) % 64 = x % 64 := by omega
  have hmissing : ¬ missing + 2 ≤ 1 := by omega
  simp only [Decoder.feed, hrange, hx, hbits, if_true, if_neg hmissing]
  rfl

/-- The last continuation byte finishes the character. -/
theorem feed_last :
    Decoder.feed ⟨text, some ⟨bits, 1, low, high⟩⟩ (UInt8.ofNat (x % 64 + 0x80)) =
      ⟨text.push (Char.ofNat (bits * 64 + x % 64)), none⟩ := by
  obtain ⟨hx, hrange⟩ := toNat_continue hlow hhigh
  have hbits : (x % 64 + 0x80) % 64 = x % 64 := by omega
  simp only [Decoder.feed, hrange, hx, hbits, if_true, Nat.le_refl]

end Continue

/-- Between two characters, the decoder takes the bytes of a character for it. -/
theorem foldl_feed_utf8EncodeChar (text : String) (c : Char) :
    (String.utf8EncodeChar c).foldl Decoder.feed ⟨text, none⟩ = ⟨text.push c, none⟩ := by
  have hvalid : c.val.toNat < 0xD800 ∨ 0xDFFF < c.val.toNat ∧ c.val.toNat < 0x110000 := c.valid
  have hchar : Char.ofNat c.val.toNat = c := Char.ofNat_toNat c
  unfold String.utf8EncodeChar
  generalize c.val.toNat = v at hvalid hchar
  dsimp only
  split
  · next h1 =>
    have hv : (UInt8.ofNat v).toNat = v := by rw [UInt8.toNat_ofNat']; omega
    have hlt : UInt8.ofNat v < 0x80 := by
      rw [UInt8.lt_iff_toNat_lt, hv]
      exact Nat.lt_succ_of_le h1
    simp only [List.foldl_cons, List.foldl_nil, Decoder.feed, Decoder.start, if_pos hlt, hv, hchar]
  · -- the range of the second byte is what the lead byte leaves to it
    have hlast : ∀ x, x % 64 + 0x80 ≤ (0xBF : UInt8).toNat := fun x => by
      show x % 64 + 128 ≤ 191
      omega
    split
    · next h1 h2 =>
      have hlead := ofLead?_two (v / 64 % 32) (by omega) (by omega)
      have hbits : v / 64 % 32 * 64 + v % 64 = v := by omega
      rw [List.foldl_cons, feed_lead (by omega) (by omega) hlead, List.foldl_cons,
        feed_last (Nat.le_add_left _ _) (hlast v), List.foldl_nil, hbits, hchar]
    · split
      · next h1 h2 h3 =>
        have hlead := ofLead?_three (v / 4096 % 16) (by omega)
        have hlow : (if v / 4096 % 16 = 0 then 0xA0 else 0x80 : UInt8).toNat ≤
            v / 64 % 64 + 0x80 := by
          split
          · show 160 ≤ _
            omega
          · exact Nat.le_add_left _ _
        have hhigh : v / 64 % 64 + 0x80 ≤
            (if v / 4096 % 16 = 13 then 0x9F else 0xBF : UInt8).toNat := by
          split
          · show _ ≤ 159
            omega
          · exact hlast _
        have hbits : (v / 4096 % 16 * 64 + v / 64 % 64) * 64 + v % 64 = v := by omega
        rw [List.foldl_cons, feed_lead (by omega) (by omega) hlead, List.foldl_cons,
          feed_next hlow hhigh, List.foldl_cons, feed_last (Nat.le_add_left _ _) (hlast v),
          List.foldl_nil, hbits, hchar]
      · next h1 h2 h3 =>
        have hlead := ofLead?_four (v / 262144 % 8) (by omega)
        have hlow : (if v / 262144 % 8 = 0 then 0x90 else 0x80 : UInt8).toNat ≤
            v / 4096 % 64 + 0x80 := by
          split
          · show 144 ≤ _
            omega
          · exact Nat.le_add_left _ _
        have hhigh : v / 4096 % 64 + 0x80 ≤
            (if v / 262144 % 8 = 4 then 0x8F else 0xBF : UInt8).toNat := by
          split
          · show _ ≤ 143
            omega
          · exact hlast _
        have hbits :
            ((v / 262144 % 8 * 64 + v / 4096 % 64) * 64 + v / 64 % 64) * 64 + v % 64 = v := by
          omega
        rw [List.foldl_cons, feed_lead (by omega) (by omega) hlead, List.foldl_cons,
          feed_next hlow hhigh, List.foldl_cons, feed_next (Nat.le_add_left _ _) (hlast _),
          List.foldl_cons, feed_last (Nat.le_add_left _ _) (hlast v), List.foldl_nil, hbits, hchar]

theorem foldl_feed_flatMap (cs : List Char) (text : String) :
    (cs.flatMap String.utf8EncodeChar).foldl Decoder.feed ⟨text, none⟩ =
      ⟨text ++ String.ofList cs, none⟩ := by
  induction cs generalizing text with
  | nil => simp
  | cons c cs ih =>
    rw [List.flatMap_cons, List.foldl_append, foldl_feed_utf8EncodeChar, ih]
    simp [← String.toList_inj]

/-- The bytes of a text are read as that text. -/
theorem decode_encode (s : String) : decode (encode s) = s := by
  rw [decode, encode, foldl_feed_flatMap]
  simp [Decoder.finish]

theorem encode_append (s t : String) : encode (s ++ t) = encode s ++ encode t := by
  rw [encode, String.toList_append, List.flatMap_append]
  rfl

/-- The bytes that fill up a language code are spaces. -/
theorem replicate_space (n : Nat) :
    List.replicate n 0x20 = encode (String.ofList (List.replicate n ' ')) := by
  induction n with
  | zero => rfl
  | succ n ih =>
    rw [List.replicate_succ, ih, List.replicate_succ, encode, encode, String.toList_ofList,
      String.toList_ofList, List.flatMap_cons]
    rfl

/-- Only the character zero begins with the byte zero. -/
theorem head?_utf8EncodeChar {c : Char} (h : c ≠ '\x00') :
    ∃ b bs, String.utf8EncodeChar c = b :: bs ∧ b ≠ 0 := by
  have hv : c.val.toNat ≠ 0 := fun h0 => h (by rw [← Char.ofNat_toNat c]; exact congrArg _ h0)
  have hvalid : c.val.toNat < 0xD800 ∨ 0xDFFF < c.val.toNat ∧ c.val.toNat < 0x110000 := c.valid
  have hne : ∀ n, n % 256 ≠ 0 → UInt8.ofNat n ≠ 0 := by
    intro n hn h0
    rw [← UInt8.toNat_inj, UInt8.toNat_ofNat'] at h0
    exact hn h0
  unfold String.utf8EncodeChar
  generalize c.val.toNat = v at hv hvalid
  dsimp only
  split
  · exact ⟨_, _, rfl, hne _ (by omega)⟩
  · split
    · exact ⟨_, _, rfl, hne _ (by omega)⟩
    · split
      · exact ⟨_, _, rfl, hne _ (by omega)⟩
      · exact ⟨_, _, rfl, hne _ (by omega)⟩

theorem encode_eq_nil_iff {s : String} : encode s = [] ↔ s = "" := by
  constructor
  · intro h
    rw [← decode_encode s, h]
    rfl
  · rintro rfl
    rfl

end Utf8

/-! ## Texts after their length -/

/-- What is left of a text when its bytes are cut to the greatest length. -/
def Width.cut (w : Width) (s : String) : String := Utf8.decode ((Utf8.encode s).take w.limit)

theorem Width.cut_of_length_le {w : Width} {s : String} (h : (Utf8.encode s).length ≤ w.limit) :
    w.cut s = s := by
  rw [cut, List.take_of_length_le h, Utf8.decode_encode]

theorem Width.frame_take (w : Width) (bs : Bytes) : w.frame (bs.take w.limit) = w.frame bs := by
  rw [frame, frame, List.take_take, Nat.min_self]

namespace Reader

/-- Bytes come back cut to the greatest length. -/
theorem run_frame (w : Width) (bs rest : Bytes) :
    (frame w).run (w.frame bs ++ rest) = .ok (bs.take w.limit, rest) := by
  rw [← Width.frame_take]
  exact run_frame_append (List.length_take_le _ _) rest

theorem run_text_append (w : Width) (s : String) (rest : Bytes) :
    (text w).run (w.text s ++ rest) = .ok (w.cut s, rest) := by
  rw [text, Width.text, run_bind_of_ok (run_frame w _ rest)]
  rfl

theorem run_blob_append (bs rest : Bytes) :
    blob.run (ParamSync.blob bs ++ rest) = .ok (bs.take Width.long.limit, rest) :=
  run_frame .long bs rest

end Reader

/-! ## Words -/

namespace Text

theorem wordsFrom_append {cs : List Char} (hcs : ∀ c ∈ cs, isBlank c = false)
    (word rest : List Char) :
    wordsFrom word (cs ++ rest) = wordsFrom (cs.reverse ++ word) rest := by
  induction cs generalizing word with
  | nil => rfl
  | cons c cs ih =>
    obtain ⟨hc, hcs⟩ := List.forall_mem_cons.1 hcs
    rw [List.cons_append, wordsFrom, if_neg (by rw [hc]; decide), ih hcs, List.reverse_cons,
      List.append_assoc, List.singleton_append]

theorem wordsFrom_of_ne_nil {word : List Char} (h : word ≠ []) (rest : List Char) :
    wordsFrom word (' ' :: rest) = String.ofList word.reverse :: wordsFrom [] rest := by
  rw [wordsFrom, if_pos (by decide), if_neg (by simpa using h)]

/-- A word of its own: not empty and without blanks. -/
def IsWord (s : String) : Prop := s ≠ "" ∧ ∀ c ∈ s.toList, isBlank c = false

/-- Words that were joined by spaces are told apart again. -/
theorem words_intercalate {ss : List String} (h : ∀ s ∈ ss, IsWord s) :
    words (" ".intercalate ss) = ss := by
  unfold words
  induction ss with
  | nil => rfl
  | cons s ss ih =>
    obtain ⟨⟨hne, hblank⟩, hss⟩ := List.forall_mem_cons.1 h
    have hrev : s.toList.reverse ≠ [] := by simpa using hne
    cases ss with
    | nil =>
      have := wordsFrom_append hblank [] []
      rw [List.append_nil, List.append_nil] at this
      rw [String.intercalate_singleton, this, wordsFrom, if_neg (by simpa using hne),
        List.reverse_reverse, String.ofList_toList]
    | cons t ts =>
      rw [String.intercalate_cons_cons, String.toList_append, String.toList_append,
        List.append_assoc, wordsFrom_append hblank, List.append_nil]
      rw [show " ".toList = [' '] from rfl, List.singleton_append, wordsFrom_of_ne_nil hrev,
        ih hss, List.reverse_reverse, String.ofList_toList]

/-- Blanks that were put behind a text without blanks at its end are cut off. -/
theorem trimEnd_append {s t : String} (hs : ∀ c, s.toList.getLast? = some c → isBlank c = false)
    (ht : ∀ c ∈ t.toList, isBlank c = true) : trimEnd (s ++ t) = s := by
  have hhead : s.toList.reverse.dropWhile isBlank = s.toList.reverse := by
    cases hrev : s.toList.reverse with
    | nil => rfl
    | cons c cs =>
      have hlast : s.toList.getLast? = some c := by
        rw [← List.head?_reverse, hrev, List.head?_cons]
      rw [List.dropWhile_cons, if_neg (by rw [hs c hlast]; decide)]
  rw [trimEnd, String.toList_append, List.reverse_append,
    List.dropWhile_append_of_pos (by simpa using ht), hhead, List.reverse_reverse,
    String.ofList_toList]

end Text

/-! ## Language codes -/

namespace LocalizedText

/-- A language code that is written as it is: not too long, without blanks at its end, and not the
one that stands for the default text. -/
structure IsLanguage (code : String) : Prop where
  length_le : (Utf8.encode code).length ≤ 3
  getLast? : ∀ c, code.toList.getLast? = some c → Text.isBlank c = false
  ne_any : code ≠ "any"

/-- A language code comes back without its filling. -/
theorem trimEnd_languageBytes {code : String} (h : IsLanguage code) :
    Text.trimEnd (Utf8.decode (languageBytes code)) = code := by
  rw [languageBytes, List.take_of_length_le h.length_le, Utf8.replicate_space,
    ← Utf8.encode_append, Utf8.decode_encode]
  refine Text.trimEnd_append h.getLast? fun c hc => ?_
  rw [String.toList_ofList] at hc
  rw [(List.mem_replicate.1 hc).2]
  rfl

theorem languageBytes_ne_any {code : String} (h : IsLanguage code) :
    languageBytes code ≠ anyLanguage := by
  intro heq
  have := trimEnd_languageBytes h
  rw [heq] at this
  exact h.ne_any (this.symm.trans (by decide))

/-- The bytes of a language code begin with zero only if the code does. -/
theorem head?_languageBytes {code : String} (h : code.toList.head? ≠ some '\x00') :
    (languageBytes code).head? ≠ some 0 := by
  unfold languageBytes Utf8.encode
  cases hcs : code.toList with
  | nil => decide
  | cons c cs =>
    have hc : c ≠ '\x00' := fun hc => h (by rw [hcs, hc, List.head?_cons])
    obtain ⟨b, bs, hb, hne⟩ := Utf8.head?_utf8EncodeChar hc
    rw [List.flatMap_cons, hb, List.cons_append, List.take_succ_cons, List.cons_append,
      List.head?_cons]
    exact fun h0 => hne (Option.some.inj h0)

end LocalizedText
end ParamSync
