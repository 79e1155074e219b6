import ParamSync.Proofs.Codec.Incoming
import ParamSync.Proofs.Codec.Lossless

/-!
# What was read is read again

Reading changes what is too long, badly ordered or of another shape, and it does so once: a
parameter that was read is settled, so that a full write of it is read as the same parameter, bit
by bit. Each part is settled on its own: cut texts by `Width.cut_cut`, schemas of addresses by
`Text.words_cut_words`, and bare values by `TypeDef.heardValue_heardValue`.

Results:
* `TypeDef.heard_heard`, `LocalizedText.heard_heard`: what is heard of what was heard is the same.
* `Parameter.heard_heard`: so it is with a parameter, and `Parameter.Legible.heard` lets it be read.
-/

namespace ParamSync

/-! ## Fields -/

namespace Field

variable {α : Type}

theorem heard_heard (f : Field α) (sentinel sentinel' : α) :
    (f.heard true sentinel).heard true sentinel' = f.heard true sentinel := by
  rw [heard_true, heard_true]

/-- What is read of a value is settled if reading it again changes nothing. -/
theorem map_heard_map_heard (read : α → α) (h : ∀ a, read (read a) = read a) (f : Field α)
    (sentinel sentinel' : α) :
    (((f.heard true sentinel).map read).heard true sentinel').map read =
      (f.heard true sentinel).map read := by
  rw [heard_true, heard_true, map, map, Option.map_map]
  exact congrArg (Field.mk · false) (Option.map_congr fun a _ => h a)

end Field

/-! ## Schemas -/

theorem PlainDef.heard_heard {α : Type} [Scalar α] (d : PlainDef α) :
    (d.heard true).heard true = d.heard true := by
  rw [heard, heard, Field.heard_heard]

theorem NumberDef.heard_heard {k : NumberKind} (d : NumberDef k) :
    (d.heard true).heard true = d.heard true := by
  simp only [heard, Field.heard_heard, Field.map_heard_map_heard Width.tiny.cut Width.tiny.cut_cut]

theorem StringDef.heard_heard (d : StringDef) : (d.heard true).heard true = d.heard true := by
  simp only [heard, Field.map_heard_map_heard Width.long.cut Width.long.cut_cut]

theorem EnumDef.heard_heard (d : EnumDef) : (d.heard true).heard true = d.heard true := by
  have hcut : ∀ entries : List String,
      (entries.map Width.tiny.cut).map Width.tiny.cut = entries.map Width.tiny.cut := by
    intro entries
    rw [List.map_map]
    exact List.map_congr_left fun s _ => by rw [Function.comp_apply, Width.cut_cut]
  have hentries := Field.map_heard_map_heard (·.map Width.tiny.cut) hcut d.entries
  simp only [heard, Field.heard_heard, Field.map_heard_map_heard Width.tiny.cut Width.tiny.cut_cut,
    hentries]

theorem UriDef.heard_heard (d : UriDef) : (d.heard true).heard true = d.heard true := by
  have hschemas := Field.map_heard_map_heard
    (fun schemas => Text.words (Width.tiny.cut (" ".intercalate schemas)))
    (fun schemas => Text.words_cut_words .tiny (" ".intercalate schemas)) d.schemas
  simp only [heard, Field.map_heard_map_heard Width.long.cut Width.long.cut_cut,
    Field.map_heard_map_heard Width.tiny.cut Width.tiny.cut_cut, hschemas]

theorem Bytes.take_take (n : Nat) (bs : Bytes) : (bs.take n).take n = bs.take n := by
  rw [List.take_take, Nat.min_self]

/-- Bytes that were cut or filled up to a size have it. -/
theorem Bytes.fit_fit (n : Nat) (bs : Bytes) : fit n (fit n bs) = fit n bs :=
  fit_of_length_eq (length_fit n bs)

theorem CustomDef.heard_heard (d : CustomDef) : (d.heard true).heard true = d.heard true := by
  have hdefault := Field.map_heard_map_heard _ (Bytes.fit_fit d.size.toNat) d.default
  have hconfig := Field.map_heard_map_heard _ (Bytes.take_take Width.long.limit) d.config
  simp only [heard, Field.heard_heard, hdefault, hconfig]

/-! ## Values and definitions -/

namespace TypeDef

theorem heardScalar_heardScalar (α : Type) [Scalar α] [LawfulScalar α] (v : Value) :
    heardScalar α (heardScalar α v) = heardScalar α v := by
  unfold heardScalar
  rw [LawfulScalar.ofValue?_eq_some_iff.2 rfl, Option.getD_some]

/-- A bare value that was read is read as it is. -/
theorem heardValue_heardValue {d : TypeDef} (h : d.WellFormed) (v : Value) :
    d.heardValue (d.heardValue v) = d.heardValue v := by
  have htext : ∀ w : Width, Value.text (w.cut (w.cut (v.toText?.getD ""))) =
      Value.text (w.cut (v.toText?.getD "")) := fun w => congrArg Value.text (w.cut_cut _)
  cases d with
  | boolean d => exact heardScalar_heardScalar Bool v
  | number k d => exact heardScalar_heardScalar (Number k) v
  | string d => exact htext .long
  | enum d => exact htext .tiny
  | uri d => exact htext .long
  | rgb d => exact heardScalar_heardScalar Color v
  | rgba d => exact heardScalar_heardScalar Color v
  | ipv4 d => exact heardScalar_heardScalar Ipv4 v
  | ipv6 d => exact heardScalar_heardScalar Ipv6 v
  | range element default =>
    obtain ⟨k, e, rfl⟩ := eq_number_of_isNumber h
    have hnumber := heardScalar_heardScalar (Number k)
    cases v with
    | range lower upper => exact congrArg₂ Value.range (hnumber lower) (hnumber upper)
    | _ => exact congrArg₂ Value.range (hnumber _) (hnumber _)
  | custom d =>
    cases v with
    | bytes bs => exact congrArg Value.bytes (Bytes.fit_fit _ bs)
    | _ => exact congrArg Value.bytes (Bytes.fit_fit _ [])
  | bang => rfl
  | group => rfl

/-- A definition that was heard reads the values that the definition reads. -/
theorem heardValue_heard {d : TypeDef} (h : d.WellFormed) (all : Bool) (v : Value) :
    (d.heard all).heardValue v = d.heardValue v := by
  cases d with
  | range element default =>
    obtain ⟨k, e, rfl⟩ := eq_number_of_isNumber h
    cases v <;> rfl
  | custom d => cases v <;> rfl
  | _ => rfl

/-- A definition that was read is read as it is. -/
theorem heard_heard {d : TypeDef} (h : d.WellFormed) :
    (d.heard true).heard true = d.heard true := by
  cases d with
  | boolean d => exact congrArg boolean d.heard_heard
  | number k d => exact congrArg (number k) d.heard_heard
  | string d => exact congrArg string d.heard_heard
  | enum d => exact congrArg enum d.heard_heard
  | uri d => exact congrArg uri d.heard_heard
  | rgb d => exact congrArg rgb d.heard_heard
  | rgba d => exact congrArg rgba d.heard_heard
  | ipv4 d => exact congrArg ipv4 d.heard_heard
  | ipv6 d => exact congrArg ipv6 d.heard_heard
  | range element default =>
    obtain ⟨k, e, rfl⟩ := eq_number_of_isNumber h
    have hnumber := heardScalar_heardScalar (Number k)
    have hdefault := Field.map_heard_map_heard
      (fun pair => ((number k e).heardValue pair.1, (number k e).heardValue pair.2))
      (fun pair => Prod.ext (hnumber pair.1) (hnumber pair.2)) default
    have helement : heard true (heard true (number k e)) = heard true (number k e) :=
      congrArg (number k) e.heard_heard
    rw [heard_range]
    exact congrArg₂ range helement (hdefault _ _)
  | custom d => exact congrArg custom d.heard_heard
  | bang => rfl
  | group => rfl

theorem WellFormed.heard {d : TypeDef} (h : d.WellFormed) : (d.heard true).WellFormed :=
  (gives_read_sound (run_read h true [])).wellFormed

end TypeDef

/-! ## Texts in several languages -/

namespace LocalizedText

/-- Each entry that is read leaves a settled text. -/
theorem Settled.hear {t : LocalizedText} {w : Width} (h : t.Settled w) {entry : Bytes × String}
    (hentry : entry.1 = anyLanguage ∨
      ∃ code : String, code.toList.head? ≠ some '\x00' ∧ entry.1 = languageBytes code) :
    (hear w t entry).Settled w := by
  unfold LocalizedText.hear
  split
  · refine ⟨?_, h.language⟩
    rintro _ ⟨⟩
    exact w.cut_cut _
  · next hany =>
    obtain ⟨code, hhead, heq⟩ := hentry.resolve_left hany
    refine ⟨h.text, fun other s hs => ?_⟩
    simp only [language?, Std.ExtTreeMap.getElem?_insert, Std.compare_eq_iff_eq] at hs
    split at hs
    · next hcode =>
      cases hs
      rw [← hcode, heq]
      exact ⟨isSettled_heard hhead (heq ▸ hany), w.cut_cut _⟩
    · exact h.language other s hs

/-- A block that was read is settled. -/
theorem settled_heard {t : LocalizedText} (h : t.Legible) (w : Width) (all : Bool) :
    (t.heard w all).Settled w := by
  have hempty : ({} : LocalizedText).Settled w := ⟨by simp, by simp [language?]⟩
  have hentries : ∀ entry ∈ t.pairs, entry.1 = anyLanguage ∨
      ∃ code : String, code.toList.head? ≠ some '\x00' ∧ entry.1 = languageBytes code := by
    intro entry hentry
    rcases List.mem_append.1 hentry with hentry | hentry
    · obtain ⟨s, -, rfl⟩ := Option.map_eq_some_iff.1 (Option.mem_toList.1 hentry)
      exact .inl rfl
    · obtain ⟨⟨code, s⟩, hcode, rfl⟩ := List.mem_map.1 hentry
      have hmem : code ∈ t.languages := by
        rw [Std.ExtTreeMap.mem_iff_isSome_getElem?,
          Std.ExtTreeMap.mem_toList_iff_getElem?_eq_some.1 hcode]
        rfl
      exact .inr ⟨code, h code hmem, rfl⟩
  unfold LocalizedText.heard
  split
  · exact List.foldlRecOn (motive := fun u => u.Settled w) t.pairs (hear w) hempty
      fun u hu entry hentry => hu.hear (hentries entry hentry)
  · exact hempty

theorem changed_heard {t : LocalizedText} (h : t.Legible) (w : Width) (all : Bool) :
    (t.heard w all).changed = false := by
  unfold heard
  split
  · exact gives_read_unchanged w (run_read h w [])
  · rfl

/-- A text that was read is read as it is. -/
theorem heard_heard {t : LocalizedText} (h : t.Legible) (w : Width) (all : Bool) :
    (t.heard w all).heard w true = t.heard w all := by
  rw [(settled_heard h w all).heard_true, sent, ← changed_heard h w all]

end LocalizedText

/-! ## Parameters -/

namespace Parameter

/-- What was read can be written in full and read. -/
theorem Legible.heard {p : Parameter} (h : p.Legible true) : (p.heard true).Legible true where
  definition := h.definition.heard
  label _ := (LocalizedText.settled_heard (h.label rfl) .tiny true).legible
  description _ := (LocalizedText.settled_heard (h.description rfl) .short true).legible

/-- A parameter that was read is read as it is. -/
theorem heard_heard {p : Parameter} (h : p.Legible true) :
    (p.heard true).heard true = p.heard true := by
  have hvalue : ((p.heard true).heard true).value = (p.heard true).value := by
    have hread := TypeDef.heardValue_heardValue h.definition
    have hheard : (p.definition.heard true).heardValue = p.definition.heardValue :=
      funext (TypeDef.heardValue_heard h.definition true)
    unfold Parameter.heard
    simp only [TypeDef.hasValue_heard, hheard]
    split
    · exact Field.map_heard_map_heard _ hread p.value _ _
    · rfl
  have hdefinition := TypeDef.heard_heard h.definition
  have hlabel := LocalizedText.heard_heard (h.label rfl) .tiny true
  have hdescription := LocalizedText.heard_heard (h.description rfl) .short true
  have hcut := Field.map_heard_map_heard Width.tiny.cut Width.tiny.cut_cut
  have huserData := Field.map_heard_map_heard _ (Bytes.take_take Width.long.limit) p.userData
  calc (p.heard true).heard true
      = { (p.heard true).heard true with value := (p.heard true).value } := by rw [← hvalue]
    _ = p.heard true := by
      simp only [Parameter.heard, hdefinition, hlabel, hdescription, Field.heard_heard, hcut,
        huserData]

end Parameter
end ParamSync
