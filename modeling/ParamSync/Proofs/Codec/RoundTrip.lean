import ParamSync.Proofs.Codec.Lossless

/-!
# Full writes are read back

A full write of a parameter of which nothing is lost, followed by anything at all, is read as a
parameter that has all of it, and what follows is left unread. So no two such parameters with
different contents have the same bytes, and the bytes of none begin those of another.

Results:
* `Parameter.exists_restores`: a full write is read back, whatever follows it.
* `Parameter.contents_eq_of_encode_append`: bytes that begin with a full write tell its contents.
-/

namespace ParamSync

/-! ## What was sent has no changes -/

namespace TypeDef

/-- A definition whose changes have been sent has none. -/
theorem hasChanges_sent (d : TypeDef) : d.sent.hasChanges = false := by
  induction d with
  | range element default ih =>
    rw [sent, hasChanges, ih, Field.changed_sent, Bool.or_false]
  | _ => rfl

end TypeDef

namespace Parameter

theorem hasChanges_copy (p : Parameter) : p.copy.hasChanges = false := by
  have hdefinition : p.copy.definition.hasChanges = false := p.definition.hasChanges_sent
  rw [hasChanges, hdefinition]
  rfl

/-! ## Reading back -/

/-- All that travels of `p` is in `q`, to the bit, and `q` is fresh: nothing of it waits to be sent,
and it has no members. -/
structure Restores (q p : Parameter) : Prop where
  id : q.id = p.id
  definition : q.definition = p.definition.sent
  value : q.value.value = p.value.value
  labelText : q.label.text = p.label.text
  labelLanguages : q.label.languages = p.label.languages
  descriptionText : q.description.text = p.description.text
  descriptionLanguages : q.description.languages = p.description.languages
  tags : q.tags.value = p.tags.value
  order : q.order.value = p.order.value
  parent : q.parent.value = p.parent.value
  userData : q.userData.value = p.userData.value
  userId : q.userId.value = p.userId.value
  unchanged : q.hasChanges = false
  childless : q.children = ∅

/-- The copy has all that travels. -/
theorem restores_copy (p : Parameter) : p.copy.Restores p :=
  ⟨rfl, rfl, rfl, rfl, rfl, rfl, rfl, rfl, rfl, rfl, rfl, rfl, p.hasChanges_copy, rfl⟩

/-- A full write of a parameter of which nothing is lost is read as its copy. -/
theorem run_read_copy {p : Parameter} (hd : p.definition.WellFormed) (h : p.Lossless)
    (rest : Bytes) : read.run (p.encode true ++ rest) = .ok (p.copy, rest) := by
  rw [run_read (h.legible hd) rest, heard_true h hd]

/-- A full write of a parameter of which nothing is lost is read back, and what follows it is left
unread. -/
theorem exists_restores {p : Parameter} (hd : p.definition.WellFormed) (h : p.Lossless)
    (rest : Bytes) :
    ∃ q, read.run (p.encode true ++ rest) = .ok (q, rest) ∧ q.Restores p :=
  ⟨p.copy, run_read_copy hd h rest, p.restores_copy⟩

/-- A frequency band with everything that a parameter can have. -/
def band : Parameter where
  id := ⟨5⟩
  definition := .range
    (.number .float32
      { minimum := ⟨some (Number.zero .float32), true⟩, scale := .of .logarithmic,
        unit := .of "Hz" })
    (.of (.number .float32 (Number.zero .float32), .number .float32 (Number.highest .float32)))
  -- the lower end is the negative zero, which is alike the other one
  value := .of (.range (.number .float32 (Number.ofNat .float32 0x80000000))
    (.number .float32 (Number.ofNat .float32 0x42280000)))
  label :=
    { text := some "band", languages := (∅ : Std.ExtTreeMap String String).insert "de" "Band" }
  description := { text := some "frequencies that pass", changed := true }
  tags := .of "filter"
  order := .of (-3)
  parent := .of ⟨2⟩
  userData := .of [0, 255]
  userId := .of "band-5"

theorem lossless_band : band.Lossless where
  definition := by
    refine ⟨?_, ?_⟩ <;> rintro _ ⟨⟩
    · exact (by decide : (Utf8.encode "Hz").length ≤ Width.tiny.limit)
    · exact ⟨rfl, rfl⟩
  value := by
    rintro _ ⟨⟩
    exact ⟨rfl, trivial⟩
  label := by
    refine ⟨?_, ?_, ?_⟩
    · rintro _ ⟨⟩
      exact (by decide : (Utf8.encode "band").length ≤ Width.tiny.limit)
    · intro code s hs
      simp only [LocalizedText.language?, band, Std.ExtTreeMap.getElem?_insert,
        Std.compare_eq_iff_eq] at hs
      split at hs
      · next hcode =>
        subst hcode
        cases hs
        exact ⟨⟨by decide, by rintro _ ⟨⟩; rfl, by decide⟩,
          (by decide : (Utf8.encode "Band").length ≤ Width.tiny.limit)⟩
      · simp at hs
    · intro code hcode
      simp only [band, Std.ExtTreeMap.mem_insert, Std.compare_eq_iff_eq,
        Std.ExtTreeMap.not_mem_empty, or_false] at hcode
      subst hcode
      decide
  description := by
    refine .of_languages_eq_empty rfl ?_
    rintro _ ⟨⟩
    exact (by decide : (Utf8.encode "frequencies that pass").length ≤ Width.short.limit)
  tags := by
    rintro _ ⟨⟩
    exact (by decide : (Utf8.encode "filter").length ≤ Width.tiny.limit)
  userData := by
    rintro _ ⟨⟩
    decide
  userId := by
    rintro _ ⟨⟩
    exact (by decide : (Utf8.encode "band-5").length ≤ Width.tiny.limit)

theorem exists_restores_band :
    ∃ q, read.run (band.encode true ++ [1, 0]) = .ok (q, [1, 0]) ∧ q.Restores band :=
  exists_restores (by rfl) lossless_band [1, 0]

/-- Bytes that begin with a full write tell its contents and what follows it: a full write is no
part of another one that says something else. -/
theorem contents_eq_of_encode_append {p p' : Parameter} (hd : p.definition.WellFormed)
    (h : p.Lossless) (hd' : p'.definition.WellFormed) (h' : p'.Lossless) {rest rest' : Bytes}
    (heq : p.encode true ++ rest = p'.encode true ++ rest') :
    p.copy = p'.copy ∧ rest = rest' := by
  have hread := run_read_copy hd h rest
  rw [heq, run_read_copy hd' h' rest'] at hread
  obtain ⟨hcopy, hrest⟩ := Prod.mk.inj (Except.ok.inj hread)
  exact ⟨hcopy.symm, hrest.symm⟩

end Parameter
end ParamSync
