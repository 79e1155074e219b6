import ParamSync.Proofs.Codec.Lossless

/-!
# What a delta write tells of a new definition

A parameter that is new is announced by a delta write, like any change. Of its definition this has
what is flagged as changed: what is there without a flag is left out, and what is flagged and not
there is told as if it held the sentinel. So a peer that has not heard of the definition before has
all of it exactly if what is there is flagged and what is not there is not.

Results:
* `Field.map_heard_false_iff`: so it is for a field.
* `TypeDef.heard_false_eq_sent_iff`: so it is for a definition of which a full write loses nothing.
-/

namespace ParamSync

namespace Field

variable {α : Type} {f : Field α}

/-- What is there is flagged, and what is not there is not. -/
def Announced (f : Field α) : Prop := f.changed = f.value.isSome

instance (f : Field α) : Decidable f.Announced := inferInstanceAs (Decidable (_ = _))

/-- A delta write has the field if and only if it is announced, where reading keeps what the field
holds. -/
theorem map_heard_false_iff {read : α → α} (h : f.Holds fun a => read a = a) (sentinel : α) :
    (f.heard false sentinel).map read = f.sent ↔ f.Announced := by
  obtain ⟨value, changed⟩ := f
  cases value with
  | none => cases changed <;> simp [heard, pending, map, sent, Announced, of]
  | some a =>
    have ha : read a = a := h a rfl
    cases changed <;> simp [heard, pending, map, sent, Announced, of, ha]

theorem heard_false_iff (f : Field α) (sentinel : α) :
    f.heard false sentinel = f.sent ↔ f.Announced := by
  have hid : (f.heard false sentinel).map id = f.heard false sentinel := by simp [map]
  have hiff : (f.heard false sentinel).map id = f.sent ↔ f.Announced :=
    map_heard_false_iff (fun _ _ => rfl) sentinel
  rwa [hid] at hiff

end Field

/-! ## Schemas -/

def PlainDef.Announced {α : Type} [Scalar α] (d : PlainDef α) : Prop := d.default.Announced

theorem PlainDef.heard_false_iff {α : Type} [Scalar α] (d : PlainDef α) :
    d.heard false = d.sent ↔ d.Announced := by
  rw [heard, sent, PlainDef.mk.injEq, Field.heard_false_iff, Announced]

def NumberDef.Announced {k : NumberKind} (d : NumberDef k) : Prop :=
  d.default.Announced ∧ d.minimum.Announced ∧ d.maximum.Announced ∧ d.multipleOf.Announced ∧
    d.scale.Announced ∧ d.unit.Announced

theorem NumberDef.heard_false_iff {k : NumberKind} {d : NumberDef k}
    (h : d.unit.Holds Width.tiny.Fits) : d.heard false = d.sent ↔ d.Announced := by
  have hunit := Field.map_heard_false_iff (fun s hs => (h s hs).cut_eq) ""
  rw [heard, sent, NumberDef.mk.injEq, hunit]
  simp only [Field.heard_false_iff, Announced]

def StringDef.Announced (d : StringDef) : Prop := d.default.Announced ∧ d.regex.Announced

theorem StringDef.heard_false_iff {d : StringDef} (h : d.Lossless) :
    d.heard false = d.sent ↔ d.Announced := by
  have hdefault := Field.map_heard_false_iff (fun s hs => (h.default s hs).cut_eq) ""
  have hregex := Field.map_heard_false_iff (fun s hs => (h.regex s hs).cut_eq) ""
  rw [heard, sent, StringDef.mk.injEq, hdefault, hregex, Announced]

def EnumDef.Announced (d : EnumDef) : Prop :=
  d.default.Announced ∧ d.entries.Announced ∧ d.multiselect.Announced

theorem EnumDef.heard_false_iff {d : EnumDef} (h : d.Lossless) :
    d.heard false = d.sent ↔ d.Announced := by
  have hdefault := Field.map_heard_false_iff (fun s hs => (h.default s hs).cut_eq) ""
  have hentries := Field.map_heard_false_iff h.map_cut_entries []
  rw [heard, sent, EnumDef.mk.injEq, hdefault, hentries, Field.heard_false_iff, Announced]

def UriDef.Announced (d : UriDef) : Prop :=
  d.default.Announced ∧ d.filter.Announced ∧ d.schemas.Announced

theorem UriDef.heard_false_iff {d : UriDef} (h : d.Lossless) :
    d.heard false = d.sent ↔ d.Announced := by
  have hdefault := Field.map_heard_false_iff (fun s hs => (h.default s hs).cut_eq) ""
  have hfilter := Field.map_heard_false_iff (fun s hs => (h.filter s hs).cut_eq) ""
  have hschemas := Field.map_heard_false_iff h.words_schemas []
  rw [heard, sent, UriDef.mk.injEq, hdefault, hfilter, hschemas, Announced]

def CustomDef.Announced (d : CustomDef) : Prop :=
  d.default.Announced ∧ d.uuid.Announced ∧ d.config.Announced

theorem CustomDef.heard_false_iff {d : CustomDef} (h : d.Lossless) :
    d.heard false = d.sent ↔ d.Announced := by
  have hdefault : (d.default.heard false []).map (Bytes.fit d.size.toNat) = d.default.sent ↔ _ :=
    Field.map_heard_false_iff (fun bs hbs => Bytes.fit_of_length_eq (h.default bs hbs)) []
  have hconfig : (d.config.heard false []).map (List.take Width.long.limit) = d.config.sent ↔ _ :=
    Field.map_heard_false_iff (fun bs hbs => List.take_of_length_le (h.config bs hbs)) []
  rw [heard, sent, CustomDef.mk.injEq, hdefault, hconfig, Field.heard_false_iff, Announced]
  simp

/-! ## Definitions -/

namespace TypeDef

/-- What is there of the definition is flagged, and what is not there is not. -/
def Announced : TypeDef → Prop
  | boolean d => d.Announced
  | number _ d => d.Announced
  | string d => d.Announced
  | enum d => d.Announced
  | uri d => d.Announced
  | rgb d => d.Announced
  | rgba d => d.Announced
  | ipv4 d => d.Announced
  | ipv6 d => d.Announced
  | range element default => element.Announced ∧ default.Announced
  | custom d => d.Announced
  | bang | group => True

/-- A delta write has the whole definition if and only if it is announced. -/
theorem heard_false_eq_sent_iff {d : TypeDef} (hd : d.WellFormed) (h : d.Lossless) :
    d.heard false = d.sent ↔ d.Announced := by
  cases d with
  | boolean d => simpa [heard, sent, Announced] using d.heard_false_iff
  | number k d => simpa [heard, sent, Announced] using NumberDef.heard_false_iff h
  | string d => simpa [heard, sent, Announced] using StringDef.heard_false_iff h
  | enum d => simpa [heard, sent, Announced] using EnumDef.heard_false_iff h
  | uri d => simpa [heard, sent, Announced] using UriDef.heard_false_iff h
  | rgb d => simpa [heard, sent, Announced] using d.heard_false_iff
  | rgba d => simpa [heard, sent, Announced] using d.heard_false_iff
  | ipv4 d => simpa [heard, sent, Announced] using d.heard_false_iff
  | ipv6 d => simpa [heard, sent, Announced] using d.heard_false_iff
  | range element default =>
    obtain ⟨k, e, rfl⟩ := eq_number_of_isNumber hd
    have hdefault := Field.map_heard_false_iff (holds_heardPair h.2) (number k e).zeroPair
    rw [heard_range, sent, range.injEq, hdefault, Announced, Announced,
      ← NumberDef.heard_false_iff h.1]
    simp [heard, sent]
  | custom d => simpa [heard, sent, Announced] using CustomDef.heard_false_iff ⟨hd, h⟩
  | bang => simp [heard, sent, Announced]
  | group => simp [heard, sent, Announced]

end TypeDef
end ParamSync
