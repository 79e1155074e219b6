import ParamSync.Parameter.Codec
import ParamSync.Proofs.Codec.Definition

/-!
# What a peer reads of a parameter

A parameter that is written, in full or as a delta, is read as `Parameter.heard` gives it: the
identifier, the heard definition and what is due of the rest. All that can spoil this is a language
code that begins with the byte of the terminator, which ends its block early; a parameter without
one is `Legible`.

Results:
* `Parameter.run_read`: a legible parameter is read as `heard` gives it.
* `Parameter.optionList`: its options are read one by one, each into what came before.
-/

namespace ParamSync

open Reader

/-! ## Texts in several languages -/

namespace LocalizedText

/-- The entries of a block, in the order in which they are written. -/
def pairs (t : LocalizedText) : List (Bytes × String) :=
  (t.text.map fun s => (anyLanguage, s)).toList
    ++ t.languages.toList.map fun (code, s) => (languageBytes code, s)

/-- A text once an entry has been read. -/
def hear (w : Width) (t : LocalizedText) (entry : Bytes × String) : LocalizedText :=
  if entry.1 = anyLanguage then { t with text := some (w.cut entry.2) }
  else
    { t with languages := t.languages.insert (Text.trimEnd (Utf8.decode entry.1)) (w.cut entry.2) }

/-- What a peer hears of a text that is written. -/
def heard (t : LocalizedText) (w : Width) (all : Bool) : LocalizedText :=
  if t.isPresent && (all || t.changed) then t.pairs.foldl (hear w) {} else {}

/-- No language code ends the block. -/
def Legible (t : LocalizedText) : Prop :=
  ∀ code ∈ t.languages, code.toList.head? ≠ some '\x00'

theorem entries_eq (t : LocalizedText) (w : Width) :
    t.entries w = t.pairs.flatMap fun entry => entry.1 ++ w.text entry.2 := by
  rw [entries, pairs, List.flatMap_append, List.flatMap_map]
  cases t.text <;> simp

theorem length_languageBytes (code : String) : (languageBytes code).length = 3 := by
  simp only [languageBytes, List.length_append, List.length_replicate, List.length_take]
  omega

/-- An entry begins with three bytes of which the first is not the terminator. -/
theorem Legible.entry {t : LocalizedText} (h : t.Legible) {entry : Bytes × String}
    (hentry : entry ∈ t.pairs) : entry.1.length = 3 ∧ entry.1.head? ≠ some terminator := by
  rcases List.mem_append.1 hentry with hentry | hentry
  · cases ht : t.text with
    | none => simp [ht] at hentry
    | some s =>
      simp only [ht, Option.map_some, Option.toList_some, List.mem_singleton] at hentry
      rw [hentry]
      exact ⟨rfl, (by decide : anyLanguage.head? ≠ some terminator)⟩
  · obtain ⟨⟨code, s⟩, hcode, rfl⟩ := List.mem_map.1 hentry
    have hmem : code ∈ t.languages := by
      rw [Std.ExtTreeMap.mem_iff_isSome_getElem?,
        Std.ExtTreeMap.mem_toList_iff_getElem?_eq_some.1 hcode]
      rfl
    exact ⟨length_languageBytes code, head?_languageBytes (h code hmem)⟩

theorem run_readEntry {w : Width} {t : LocalizedText} {entry : Bytes × String}
    (h : entry.1.length = 3) (rest : Bytes) :
    (readEntry w t).run (entry.1 ++ w.text entry.2 ++ rest) = .ok (hear w t entry, rest) := by
  rw [readEntry, List.append_assoc, run_bind_of_ok (run_take_append h _),
    run_bind_of_ok (run_text_append w _ _), hear]
  split <;> rfl

theorem itemList {w : Width} {entries : List (Bytes × String)}
    (h : ∀ entry ∈ entries, entry.1.length = 3 ∧ entry.1.head? ≠ some terminator)
    (t : LocalizedText) :
    ItemList (readEntry w) t (entries.flatMap fun entry => entry.1 ++ w.text entry.2)
      (entries.foldl (hear w) t) := by
  induction entries generalizing t with
  | nil => exact .nil t
  | cons entry entries ih =>
    obtain ⟨⟨hlen, hhead⟩, hentries⟩ := List.forall_mem_cons.1 h
    obtain ⟨code, s⟩ := entry
    cases code with
    | nil => simp at hlen
    | cons b bs =>
      have hb : b ≠ terminator := fun hb => hhead (by rw [hb]; rfl)
      rw [List.flatMap_cons, List.foldl_cons]
      exact .cons hb (fun rest => run_readEntry hlen rest) (ih hentries _)

/-- A block of texts is read as `heard` gives it. -/
theorem run_read {t : LocalizedText} (h : t.Legible) (w : Width) (rest : Bytes) :
    (read w).run (t.entries w ++ [terminator] ++ rest) = .ok (t.pairs.foldl (hear w) {}, rest) := by
  rw [entries_eq]
  exact (itemList (fun entry hentry => h.entry hentry) {}).run rest

theorem pairs_of_not_isPresent {t : LocalizedText} (h : t.isPresent = false) : t.pairs = [] := by
  rw [isPresent, Bool.or_eq_false_iff, Option.isSome_eq_false_iff, Option.isNone_iff_eq_none,
    Bool.not_eq_false'] at h
  have hlanguages := Std.ExtTreeMap.isEmpty_iff.1 h.2
  simp [pairs, h.1, hlanguages]

/-- The option that a text contributes. `set` puts a text into a state that has none there. -/
theorem optionList {σ : Type} {body : σ → UInt8 → Reader (Option σ)} (set : LocalizedText → σ)
    {t : LocalizedText} (w : Width) {all : Bool} (ht : (all || t.changed) = true → t.Legible)
    {code : UInt8} (hcode : code ≠ terminator)
    (h : body (set {}) code = read w >>= fun u => pure (some (set u))) :
    OptionList body (set {}) (t.encode all code w) (set (t.heard w all)) := by
  have hread : t.Legible → ∀ rest,
      (body (set {}) code).run (t.entries w ++ [terminator] ++ rest) =
        .ok (some (set (t.pairs.foldl (hear w) {})), rest) := by
    intro ht rest
    rw [h, run_bind_of_ok (run_read ht w rest)]
    rfl
  unfold encode heard
  cases hpresent : t.isPresent with
  | true =>
    by_cases hdue : (all || t.changed) = true
    · simp only [hdue, if_true, Bool.and_true]
      exact .single hcode (hread (ht hdue))
    · simp only [hdue, if_true, Bool.and_false]
      exact .nil _
  | false =>
    by_cases hdue : (t.changed && !all) = true
    · have hread := hread (ht (by simp_all))
      rw [entries_eq, pairs_of_not_isPresent hpresent] at hread
      simp only [hdue, if_true, Bool.false_and]
      exact .single hcode hread
    · simp only [hdue, Bool.false_and]
      exact .nil _

end LocalizedText

theorem Reader.run_int32_append (n : Int32) (rest : Bytes) :
    int32.run (int32Bytes n ++ rest) = .ok (n, rest) := by
  have h := run_nat_append (n := 4) (v := n.toBitVec.toNat) n.toBitVec.isLt rest
  rw [int32Bytes, int32, run_bind_of_ok h]
  simp

/-! ## Parameters -/

/-- The same bare values are read by a definition that was heard. -/
theorem TypeDef.readValue_heard {d : TypeDef} (h : d.WellFormed) (all : Bool) :
    (d.heard all).readValue = d.readValue := by
  cases d with
  | range element default =>
    obtain ⟨k, e, rfl⟩ := eq_number_of_isNumber h
    rfl
  | _ => rfl

namespace Parameter

/-- What a peer hears of a parameter that is written. -/
def heard (p : Parameter) (all : Bool) : Parameter where
  id := p.id
  definition := p.definition.heard all
  value :=
    if p.definition.hasValue then
      (p.value.heard all (p.definition.zero?.getD (.bytes []))).map p.definition.heardValue
    else {}
  label := p.label.heard .tiny all
  description := p.description.heard .short all
  tags := (p.tags.heard all "").map Width.tiny.cut
  order := p.order.heard all 0
  parent := p.parent.heard all .root
  userData := (p.userData.heard all []).map (List.take Width.long.limit)
  userId := (p.userId.heard all "").map Width.tiny.cut

/-- A parameter of which each option that is due is read where it was written. -/
structure Legible (p : Parameter) (all : Bool) : Prop where
  definition : p.definition.WellFormed
  label : (all || p.label.changed) = true → p.label.Legible
  description : (all || p.description.changed) = true → p.description.Legible

@[simp] theorem id_heard (p : Parameter) (all : Bool) : (p.heard all).id = p.id := rfl

@[simp] theorem datatype_heard (p : Parameter) (all : Bool) :
    (p.heard all).datatype = p.datatype := p.definition.datatype_heard all

/-- The option that the value contributes. -/
theorem optionList_value {p : Parameter} (h : p.definition.WellFormed) (all : Bool) :
    OptionList readOption { id := p.id, definition := p.definition.heard all }
      (p.encodeValue all)
      { id := p.id, definition := p.definition.heard all, value := (p.heard all).value } := by
  unfold encodeValue heard
  cases hv : p.definition.hasValue with
  | false => exact .nil _
  | true =>
    simp only [if_true]
    refine Field.optionList
      (fun f => ({ id := p.id, definition := p.definition.heard all, value := f } : Parameter))
      _ _ _ _ (by decide) fun v _ rest => ?_
    have hread := TypeDef.run_readValue h hv v rest
    rw [← TypeDef.readValue_heard h all] at hread
    have hcode : ParameterOption.ofCode? ParameterOption.value.code = some .value :=
      ParameterOption.ofCode?_eq_some_iff.2 rfl
    simp only [readOption, hcode, TypeDef.hasValue_heard, hv, if_true]
    exact run_bind_of_ok hread _

/-- The options of a parameter are read as they were written, each into a parameter that has what
came before. -/
theorem optionList {p : Parameter} {all : Bool} (h : p.Legible all) :
    OptionList readOption { id := p.id, definition := p.definition.heard all }
      (p.encodeOptions all) (p.heard all) := by
  have hlabel : OptionList readOption _ _ _ := LocalizedText.optionList
    (fun f => { p.heard all with
      label := f, description := {}, tags := {}, order := {}, parent := {}, userData := {},
      userId := {} })
    .tiny h.label (show ParameterOption.label.code ≠ terminator by decide) rfl
  have hdescription : OptionList readOption _ _ _ := LocalizedText.optionList
    (fun f => { p.heard all with
      description := f, tags := {}, order := {}, parent := {}, userData := {}, userId := {} })
    .short h.description (show ParameterOption.description.code ≠ terminator by decide) rfl
  have htags : OptionList readOption _ _ _ := Field.optionList
    (fun f => { p.heard all with
      tags := f, order := {}, parent := {}, userData := {}, userId := {} })
    Width.tiny.cut p.tags all (fun _ => "")
    (show ParameterOption.tags.code ≠ terminator by decide)
    fun a _ rest => run_bind_of_ok (run_text_append .tiny a rest) _
  have horder : OptionList readOption _ _ _ := Field.optionList_self
    (fun f => { p.heard all with order := f, parent := {}, userData := {}, userId := {} })
    p.order all (fun _ => 0) (show ParameterOption.order.code ≠ terminator by decide)
    fun a _ rest => run_bind_of_ok (run_int32_append a rest) _
  have hparent : OptionList readOption _ _ _ := Field.optionList_self
    (fun f => { p.heard all with parent := f, userData := {}, userId := {} })
    p.parent all (fun _ => ParamId.root)
    (show ParameterOption.parentId.code ≠ terminator by decide)
    fun a _ rest => run_bind_of_ok (run_paramId_append a rest) _
  have huserData : OptionList readOption _ _ _ := Field.optionList
    (fun f => { p.heard all with userData := f, userId := {} })
    (List.take Width.long.limit) p.userData all (fun _ => [])
    (show ParameterOption.userData.code ≠ terminator by decide)
    fun a _ rest => run_bind_of_ok (run_blob_append a rest) _
  have huserId : OptionList readOption _ _ _ := Field.optionList
    (fun f => { p.heard all with userId := f })
    Width.tiny.cut p.userId all (fun _ => "")
    (show ParameterOption.userId.code ≠ terminator by decide)
    fun a _ rest => run_bind_of_ok (run_text_append .tiny a rest) _
  exact (((((((optionList_value h.definition all).append hlabel).append hdescription).append
    htags).append horder).append hparent).append huserData).append huserId

/-- A legible parameter is read as `heard` gives it. -/
theorem run_read {p : Parameter} {all : Bool} (h : p.Legible all) (rest : Bytes) :
    read.run (p.encode all ++ rest) = .ok (p.heard all, rest) := by
  rw [read, encode, List.append_assoc, List.append_assoc, List.append_assoc,
    run_bind_of_ok (run_paramId_append _ _),
    run_bind_of_ok (TypeDef.run_read h.definition all _), ← List.append_assoc]
  exact (optionList h).run rest

end Parameter
end ParamSync
