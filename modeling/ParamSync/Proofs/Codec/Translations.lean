import ParamSync.Proofs.Codec.Delta

/-!
# Translations that come and go

A label or a description is changed by setting and removing single texts or by clearing all of
them, and a delta tells of all its texts at once. A reader puts them over the ones that it has, one
by one. So it has every text of the writer, but a text that the writer took away stays with the
reader, and it has what the writer has exactly if nothing was taken away.

Results:
* `Legible.edit`, `Lossless.edit`: what a change with a text that fits leaves.
* `Follows.overlay_merge`: what a reader has after some changes and a delta.
* `Overlay.sameTexts_iff`: when that is what the writer has.
-/

namespace ParamSync
namespace LocalizedText

variable {t t' u : LocalizedText} {w : Width}

/-! ## Language codes -/

/-- Three ASCII letters, but not those that stand for the default text. -/
structure IsCode (code : String) : Prop where
  length : code.toList.length = 3
  letters : code.toList.all Char.isAlpha = true
  ne_any : code ≠ "any"

theorem letter_bounds {c : Char} (h : c.isAlpha = true) : 65 ≤ c.toNat ∧ c.toNat ≤ 122 := by
  have hcase : ('A'.val ≤ c.val ∧ c.val ≤ 'Z'.val) ∨ ('a'.val ≤ c.val ∧ c.val ≤ 'z'.val) := by
    rcases Bool.or_eq_true_iff.1 h with hupper | hlower
    · exact .inl (of_decide_eq_true hupper)
    · obtain ⟨hlow, hhigh⟩ := Bool.and_eq_true_iff.1 hlower
      exact .inr ⟨of_decide_eq_true hlow, of_decide_eq_true hhigh⟩
  simp only [UInt32.le_iff_toNat_le] at hcase
  change (65 ≤ c.toNat ∧ c.toNat ≤ 90) ∨ (97 ≤ c.toNat ∧ c.toNat ≤ 122) at hcase
  omega

theorem IsCode.bounds {code : String} (h : IsCode code) {c : Char} (hc : c ∈ code.toList) :
    65 ≤ c.toNat ∧ c.toNat ≤ 122 :=
  letter_bounds (List.all_eq_true.1 h.letters c hc)

theorem IsCode.isLanguage {code : String} (h : IsCode code) : IsLanguage code where
  length_le := by
    have hone : ∀ c ∈ code.toList, (String.utf8EncodeChar c).length = 1 := by
      intro c hc
      have hbounds := h.bounds hc
      rw [String.length_utf8EncodeChar, Char.utf8Size_eq_one_iff, UInt32.le_iff_toNat_le]
      exact Nat.le_trans hbounds.2 (by decide)
    have hlength : (Utf8.encode code).length = code.toList.length := by
      rw [Utf8.encode, List.length_flatMap, List.map_congr_left hone, List.map_const',
        List.sum_replicate_nat, Nat.mul_one]
    exact Nat.le_of_eq (hlength.trans h.length)
  getLast? := by
    intro c hc
    have hbounds := h.bounds (List.mem_of_getLast? hc)
    simp only [Text.isBlank, Bool.or_eq_false_iff, Bool.and_eq_false_iff, decide_eq_false_iff_not,
      beq_eq_false_iff_ne]
    omega
  ne_any := h.ne_any

theorem IsCode.head?_ne {code : String} (h : IsCode code) : code.toList.head? ≠ some '\x00' := by
  intro hhead
  exact absurd (h.bounds (List.mem_of_head? hhead)).1 (by decide)

/-! ## Changes -/

/-- A change with a text that fits, in a language that can be told. -/
def Edit.Fits (w : Width) : Edit → Prop
  | .text s => w.Fits s
  | .language code s => IsCode code ∧ w.Fits s
  | .forget _ | .clear => True

/-- A text stays one that can be read. -/
theorem Legible.edit (h : t.Legible) {change : Edit} (hchange : change.Fits w) :
    (t.edit change).Legible := by
  intro code hmem
  cases change with
  | text s =>
    simp only [LocalizedText.edit] at hmem
    split at hmem <;> exact h code hmem
  | language code' s =>
    simp only [LocalizedText.edit] at hmem
    split at hmem
    · exact h code hmem
    · rcases Std.ExtTreeMap.mem_insert.1 hmem with heq | hmem
      · exact Std.compare_eq_iff_eq.1 heq ▸ hchange.1.head?_ne
      · exact h code hmem
  | forget code' =>
    simp only [LocalizedText.edit] at hmem
    split at hmem
    · exact h code (Std.ExtTreeMap.mem_of_mem_erase hmem)
    · exact h code hmem
  | clear => exact absurd hmem Std.ExtTreeMap.not_mem_empty

/-- Nothing is lost of what such a change leaves. -/
theorem Lossless.edit (h : t.Lossless w) {change : Edit} (hchange : change.Fits w) :
    (t.edit change).Lossless w := by
  refine ⟨fun s' hs' => ?_, fun code' s' hs' => ?_, h.legible.edit hchange⟩
  · cases change with
    | text s =>
      simp only [LocalizedText.edit] at hs'
      split at hs'
      · exact h.text s' hs'
      · cases hs'
        exact hchange
    | language | forget =>
      simp only [LocalizedText.edit] at hs'
      split at hs' <;> exact h.text s' hs'
    | clear => cases hs'
  · cases change with
    | text s =>
      simp only [LocalizedText.edit] at hs'
      split at hs' <;> exact h.language code' s' hs'
    | language code s =>
      simp only [LocalizedText.edit] at hs'
      split at hs'
      · exact h.language code' s' hs'
      · simp only [language?, Std.ExtTreeMap.getElem?_insert, Std.compare_eq_iff_eq] at hs'
        split at hs'
        · next heq =>
          cases hs'
          exact ⟨heq ▸ hchange.1.isLanguage, hchange.2⟩
        · exact h.language code' s' hs'
    | forget code =>
      simp only [LocalizedText.edit] at hs'
      split at hs'
      · simp only [language?, Std.ExtTreeMap.getElem?_erase] at hs'
        split at hs'
        · cases hs'
        · exact h.language code' s' hs'
      · exact h.language code' s' hs'
    | clear => simp [LocalizedText.edit, language?] at hs'

/-- A translation that was set is there. -/
theorem language?_edit_language (t : LocalizedText) (code s : String) :
    (t.edit (.language code s)).language? code = some s := by
  rw [LocalizedText.edit]
  split
  · assumption
  · exact Std.ExtTreeMap.getElem?_insert_self

/-- One that was removed is not. -/
theorem language?_edit_forget (t : LocalizedText) (code : String) :
    (t.edit (.forget code)).language? code = none := by
  rw [LocalizedText.edit]
  split
  · exact Std.ExtTreeMap.getElem?_erase_self
  · next hnot => exact Std.ExtTreeMap.getElem?_eq_none hnot

theorem Lossless.sent (h : t.Lossless w) : t.sent.Lossless w := ⟨h.text, h.language, h.legible⟩

/-- A change that leaves no flag has changed nothing. -/
theorem edit_of_not_changed {change : Edit} (h : (t.edit change).changed = false) :
    t.edit change = t := by
  cases change with
  | text | language =>
    simp only [LocalizedText.edit] at h ⊢
    split at h
    · next hsame => rw [if_pos hsame]
    · cases h
  | forget =>
    simp only [LocalizedText.edit] at h ⊢
    split at h
    · cases h
    · next hnone => rw [if_neg hnone]
  | clear => cases h

/-- Some changes with texts that fit made `t'` out of `t`: it can be read and nothing of it is lost
if it was so before, and if it has no flag it is `t`. -/
structure Follows (w : Width) (t t' : LocalizedText) : Prop where
  legible : t.Legible → t'.Legible
  lossless : t.Lossless w → t'.Lossless w
  same : t'.changed = false → t' = t

theorem Follows.refl (w : Width) (t : LocalizedText) : Follows w t t := ⟨id, id, fun _ => rfl⟩

theorem Follows.edit (h : Follows w t t') {change : Edit} (hchange : change.Fits w) :
    Follows w t (t'.edit change) where
  legible ht := (h.legible ht).edit hchange
  lossless ht := (h.lossless ht).edit hchange
  same hflag := by
    have hnone := edit_of_not_changed hflag
    rw [hnone] at hflag ⊢
    exact h.same hflag

/-! ## What a reader has -/

/-- The same texts, whatever the flags say. -/
structure SameTexts (t u : LocalizedText) : Prop where
  text : u.text = t.text
  language : ∀ code, u.language? code = t.language? code

/-- Every text of `u` is that of `t'`, or where that has none it is that of `t`. -/
structure Overlay (t t' u : LocalizedText) : Prop where
  text : u.text = t'.text.or t.text
  language : ∀ code, u.language? code = (t'.language? code).or (t.language? code)

/-- Whatever `t` has, `t'` has something there. -/
structure Keeps (t t' : LocalizedText) : Prop where
  text : t.text.isSome = true → t'.text.isSome = true
  language : ∀ code, (t.language? code).isSome = true → (t'.language? code).isSome = true

theorem Keeps.refl (t : LocalizedText) : Keeps t t := ⟨id, fun _ => id⟩

theorem Keeps.sent (h : Keeps t t') : Keeps t t'.sent := ⟨h.text, h.language⟩

/-- A change that sets a text. -/
def Edit.Sets : Edit → Prop
  | .text _ | .language _ _ => True
  | .forget _ | .clear => False

/-- What is there stays if texts are set only. -/
theorem Keeps.edit (h : Keeps t t') {change : Edit} (hchange : change.Sets) :
    Keeps t (t'.edit change) := by
  cases change with
  | text s =>
    rw [LocalizedText.edit]
    split
    · exact h
    · exact ⟨fun _ => rfl, h.language⟩
  | language code s =>
    rw [LocalizedText.edit]
    split
    · exact h
    · refine ⟨h.text, fun code' hcode' => ?_⟩
      rw [language?, Std.ExtTreeMap.getElem?_insert]
      split
      · rfl
      · exact h.language code' hcode'
  | forget | clear => exact hchange.elim

theorem Overlay.of_same (h : SameTexts t u) : Overlay t t u where
  text := by rw [h.text, Option.or_self]
  language code := by rw [h.language, Option.or_self]

theorem Overlay.sent (h : Overlay t t' u) : Overlay t t'.sent u := ⟨h.text, h.language⟩

theorem or_eq_left_iff {α : Type} {a b : Option α} :
    a.or b = a ↔ (b.isSome = true → a.isSome = true) := by
  cases a <;> cases b <;> simp

/-- What the reader has is what the writer has if nothing was taken away, and only then. -/
theorem Overlay.sameTexts_iff (h : Overlay t t' u) : SameTexts t' u ↔ Keeps t t' := by
  constructor
  · intro hsame
    exact ⟨or_eq_left_iff.1 (h.text.symm.trans hsame.text),
      fun code => or_eq_left_iff.1 ((h.language code).symm.trans (hsame.language code))⟩
  · intro hkeeps
    exact ⟨h.text.trans (or_eq_left_iff.2 hkeeps.text),
      fun code => (h.language code).trans (or_eq_left_iff.2 (hkeeps.language code))⟩

/-- What a reader has that had the texts of `t`, once it was told of `t'`, if that has a text at all
or there was none: what was there with `t'` over it, which is `t'` exactly if it keeps what was. -/
def Told (t t' u : LocalizedText) : Prop :=
  t'.isPresent = true ∨ t.isPresent = false →
    Overlay t t' u ∧ (SameTexts t' u ↔ Keeps t t')

theorem Overlay.told (h : Overlay t t' u) : Told t t' u := fun _ => ⟨h, h.sameTexts_iff⟩

/-- A reader that had the texts of `t` has put over them those of `t'` after a delta. -/
theorem Follows.overlay_merge (h : Follows w t t') (ht : t.Lossless w) {q : LocalizedText}
    (hsame : SameTexts t q) : Overlay t t' (q.merge (t'.heard w false)) := by
  have hconveys := conveys_merge (h.lossless ht) q
  cases hflag : t'.changed with
  | true =>
    refine ⟨?_, fun code => ?_⟩
    · rw [hconveys.text hflag, hsame.text]
    · rw [hconveys.language hflag, hsame.language]
  | false =>
    rw [hconveys.kept hflag, h.same hflag]
    exact .of_same hsame

end LocalizedText
end ParamSync
