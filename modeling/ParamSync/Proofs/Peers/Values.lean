import ParamSync.Client
import ParamSync.Proofs.Codec.ValueAlone
import ParamSync.Proofs.Registry.Reports

/-!
# Values at a client

A value that comes in the short form is applied by itself, and one that comes with a parameter is
merged. Whoever has the parameter comes out the same: the same is stored, or nothing is, and the
same is reported.

Results:
* `Registry.applyValue_of_unfit`, `Registry.merge_of_unfit`: a value that is not for the parameter
  is not stored.
* `Registry.merge_of_fit`: any other is stored, and the same is told of it.
* `Client.receive_short`: a client that has the parameter cannot tell the two forms apart.
-/

namespace ParamSync

namespace ValueUpdate

/-- The value is not for this parameter: nobody can change the root, the datatype is another, or the
definition does not accept the value. -/
def Unfit (u : ValueUpdate) (q : Parameter) : Prop :=
  u.id = .root ∨ q.datatype ≠ u.datatype ∨ q.definition.accepts u.value = false

end ValueUpdate

namespace Parameter

variable {q : Parameter} {u : ValueUpdate}

/-- Of the carrier a value is taken that the definition accepts. -/
theorem accepted_carrier (h : q.definition.accepts u.value = true) (d : TypeDef) :
    q.accepted (u.carrier d) = .of u.value := by
  have haccepted : (some u.value).filter q.definition.accepts = some u.value := by
    rw [Option.filter_some, if_pos h]
  exact congrArg (Field.mk · false) haccepted

/-- A value that the definition does not accept is passed over. -/
theorem accepted_carrier_of_not (h : q.definition.accepts u.value = false) (d : TypeDef) :
    q.accepted (u.carrier d) = {} := by
  have haccepted : (some u.value).filter q.definition.accepts = none := by
    rw [Option.filter_some, h]
    rfl
  exact congrArg (Field.mk · false) haccepted

/-- Nothing but the value is taken over. -/
theorem merge_carrier (q : Parameter) (u : ValueUpdate) (d : TypeDef) :
    q.merge (u.carrier d) = { q with value := q.value.merge (q.accepted (u.carrier d)) } := by
  rw [← value_merge_eq]
  show { q with
    value := (q.merge (u.carrier d)).value
    definition := q.definition.merge d.bare
    label := q.label.merge {}
    description := q.description.merge {} } = _
  rw [TypeDef.merge_bare, LocalizedText.merge_empty, LocalizedText.merge_empty]

/-- To apply the value by itself is to merge the carrier. -/
theorem applyValue_eq_merge (h : q.definition.accepts u.value = true) (d : TypeDef) :
    q.applyValue u.value = .ok (q.merge (u.carrier d)) := by
  rw [applyValue, if_pos h, merge_carrier, accepted_carrier h]
  rfl

/-- Nothing but the value is gained. -/
theorem gains_carrier (q : Parameter) (u : ValueUpdate) (d : TypeDef) :
    q.gains (u.carrier d) = q.gainsValue (u.carrier d) := by
  have htext : ∀ t : LocalizedText, t.gains {} = false := fun t =>
    ((LocalizedText.truthful {}).eq_self_iff t).1 t.merge_empty
  have hgains : q.gains (u.carrier d) = (q.gainsValue (u.carrier d) || q.definition.gains d.bare ||
      q.label.gains {} || q.description.gains {} || false || false || false || false) := rfl
  rw [hgains, TypeDef.gains_bare, htext, htext]
  simp only [Bool.or_false]

end Parameter

namespace Registry

variable {r : Registry} {q : Parameter} {u : ValueUpdate} {d : TypeDef}

/-- A value that is not for the parameter is refused when it comes by itself. -/
theorem applyValue_of_unfit (hq : r.get? u.id = some q) (hid : q.id = u.id) (h : u.Unfit q) :
    ∃ e, r.applyValue u = .error e := by
  rw [applyValue, hq, Option.filter_some]
  by_cases hroot : u.id = .root
  · rw [if_neg (by simp [hid, hroot])]
    exact ⟨_, rfl⟩
  rw [if_pos (by simpa [hid] using hroot)]
  by_cases hdatatype : q.datatype = u.datatype
  · have haccepts := (h.resolve_left hroot).resolve_left (not_not.2 hdatatype)
    refine ⟨.protocol (.valueMismatch q.datatype), ?_⟩
    simp [hdatatype, Parameter.applyValue, haccepts]
  · exact ⟨.datatypeMismatch u.id q.datatype u.datatype, by simp [hdatatype]⟩

/-- When it is carried it is refused or passed over. -/
theorem merge_of_unfit (hq : r.get? u.id = some q) (hd : d.datatype = u.datatype)
    (h : u.Unfit q) {result : Merge × Registry × List Notice}
    (hm : r.merge (u.carrier d) = .ok result) : result = (.unchanged, r, []) := by
  obtain ⟨hroot, ⟨hnew, -⟩ | ⟨p, hp, hdatatype, -⟩⟩ := merge_ok hm
  · exact absurd (hnew.symm.trans hq) (by simp)
  · obtain rfl := Option.some.inj (hp.symm.trans hq)
    have hcarrier : (u.carrier d).datatype = u.datatype := (TypeDef.datatype_bare d).trans hd
    have haccepts := (h.resolve_left hroot).resolve_left (not_not.2 (hdatatype.trans hcarrier))
    have haccepted := Parameter.accepted_carrier_of_not haccepts d
    have hgains : p.gains (u.carrier d) = false := by
      rw [Parameter.gains_carrier, Parameter.gainsValue_eq, haccepted]
      rfl
    have hmerge : p.merge (u.carrier d) = p := by
      rw [Parameter.merge_carrier, haccepted]
      rfl
    rw [merge_of_settled hroot hp hdatatype hgains hmerge rfl] at hm
    exact (Except.ok.inj hm).symm

/-- Otherwise it is stored either way, and the same is told of it. -/
theorem merge_of_fit (hq : r.get? u.id = some q) (hid : q.id = u.id) (hd : d.datatype = u.datatype)
    (h : ¬ u.Unfit q) :
    ∃ r' notices, r.applyValue u = .ok (q.value.differs u.value, r', notices) ∧
      r.merge (u.carrier d) =
        .ok (if q.value.differs u.value then .updated else .unchanged, r', notices) := by
  obtain ⟨hroot, hdatatype, haccepts⟩ : u.id ≠ .root ∧ q.datatype = u.datatype ∧
      q.definition.accepts u.value = true := by
    simpa [ValueUpdate.Unfit] using h
  have hcarrier : q.datatype = (u.carrier d).datatype :=
    hdatatype.trans (hd.symm.trans (TypeDef.datatype_bare d).symm)
  have haccepted := Parameter.accepted_carrier haccepts d
  have hgains : q.gainsValue (u.carrier d) = q.value.differs u.value := by
    rw [Parameter.gainsValue_eq, haccepted]
    rfl
  have happly := Parameter.applyValue_eq_merge haccepts d
  have hget := get?_overlay_self r q (u.carrier d)
  have hstays : (r.overlay q (u.carrier d)).follow? u.id (u.carrier d).parent.value = none := rfl
  have hmerged := merge_of_known hroot hq hcarrier hstays
  rw [Parameter.gains_carrier, hgains, Option.getD_none, hget] at hmerged
  have hfound : (r.get? u.id).filter (!·.id.isRoot) = some q := by
    rw [hq, Option.filter_some, if_pos (by simpa [hid] using hroot)]
  rw [hmerged, applyValue, hfound]
  dsimp only
  rw [if_neg (not_not.2 hdatatype), happly]
  dsimp only
  cases q.value.differs u.value with
  | true => exact ⟨_, _, rfl, rfl⟩
  | false => exact ⟨_, _, rfl, rfl⟩

end Registry

namespace Client

variable {c : Client} {q : Parameter} {u : ValueUpdate} {d : TypeDef}

/-- A client does nothing about a value that is not for the parameter. -/
theorem receiveValue_of_unfit (hq : c.registry.get? u.id = some q) (hid : q.id = u.id)
    (h : u.Unfit q) : c.receiveValue u = (c, []) := by
  obtain ⟨e, he⟩ := Registry.applyValue_of_unfit hq hid h
  rw [receiveValue, he]

/-- A client that has the parameter does the same about a value that comes by itself and about one
that is carried. -/
theorem receiveParameter_carrier (hq : c.registry.get? u.id = some q) (hid : q.id = u.id)
    (hd : d.datatype = u.datatype) : c.receiveParameter (u.carrier d) = c.receiveValue u := by
  by_cases h : u.Unfit q
  · rw [receiveValue_of_unfit hq hid h, receiveParameter]
    cases hm : c.registry.merge (u.carrier d) with
    | error e => rfl
    | ok result =>
      rw [Registry.merge_of_unfit hq hd h hm]
      rfl
  · obtain ⟨r', notices, happly, hmerge⟩ := Registry.merge_of_fit hq hid hd h
    rw [receiveParameter, hmerge, receiveValue, happly]
    cases q.value.differs u.value <;> rfl

/-- A value whose element is another is not for the parameter. -/
theorem unfit_short {p : Parameter} {v : Value} (hnumbers : p.definition.HasNumbers)
    (h : q.datatype ≠ p.datatype ∨
      q.definition.elementDatatype? ≠ p.definition.elementDatatype?) :
    (p.short (p.definition.bare.heardValue v)).Unfit q := by
  by_contra hfit
  simp only [ValueUpdate.Unfit, not_or, not_not, Bool.not_eq_false] at hfit
  obtain ⟨-, hdatatype, haccepts⟩ := hfit
  have helement := TypeDef.elementDatatype?_of_accepts (TypeDef.wellFormed_bare hnumbers)
    (hdatatype.trans (TypeDef.datatype_bare _).symm) haccepts
  rw [TypeDef.elementDatatype?_bare] at helement
  exact h.elim (absurd hdatatype) (absurd helement)

/-- The short form of a value is made of every parameter that has one which its definition accepts,
custom types apart. It can be written unless the element is no number. A client that has a parameter
of that identifier, whatever it is, does the same about the short form as about an update that
brings nothing but the value: its copy is the same afterwards, and so is what it reports. If the
datatype or the element are others it does nothing and reports nothing. -/
theorem receive_short {p : Parameter} {v : Value} (hcustom : p.datatype ≠ .custom)
    (hv : p.value.value = some v) (haccepts : p.definition.accepts v = true) :
    ∃ u, ValueUpdate.ofParameter? p = some u ∧
      ((∃ compact, ∀ all, (Packet.ofValue u).encode all = .ok compact) ↔
        p.definition.HasNumbers) ∧
      ∀ all compact, (Packet.ofValue u).encode all = .ok compact →
        ∀ (c : Client) (q : Parameter), c.registry.get? p.id = some q → q.id = p.id →
          (∀ timestamp all, ∃ full,
            (Packet.updateAt timestamp p.valueOnly).encode all = .ok full ∧
              c.receive compact = c.receive full) ∧
          (q.datatype ≠ p.datatype ∨
              q.definition.elementDatatype? ≠ p.definition.elementDatatype? →
            c.receive compact = (c, [])) := by
  refine ⟨p.short v, Parameter.ofParameter?_eq_short hcustom hv, ⟨?_, fun hnumbers => ?_⟩, ?_⟩
  · rintro ⟨compact, hcompact⟩
    exact Parameter.hasNumbers_of_encode_short (hcompact true)
  · obtain ⟨compact, hencode, -⟩ := Parameter.exists_encode_short hcustom haccepts hnumbers
    exact ⟨compact, hencode⟩
  intro all compact hcompact c q hq hid
  have hnumbers := Parameter.hasNumbers_of_encode_short hcompact
  obtain ⟨bs, hencode, hread⟩ := Parameter.exists_encode_short hcustom haccepts hnumbers
  obtain rfl : bs = compact := Except.ok.inj ((hencode all).symm.trans hcompact)
  have hreceive : c.receive bs = c.receiveValue (p.short (p.definition.bare.heardValue v)) := by
    rw [receive, hread]
    rfl
  refine ⟨fun timestamp all => ⟨_, rfl, ?_⟩, fun h => ?_⟩
  · have hheard := Parameter.ofBytes_valueOnly hv (TypeDef.hasValue_of_accepts haccepts) hnumbers
      timestamp all
    have hdatatype : p.definition.datatype =
        (p.short (p.definition.bare.heardValue v)).datatype := rfl
    rw [hreceive, ← receiveParameter_carrier hq hid hdatatype, receive, hheard]
    rfl
  · rw [hreceive]
    exact receiveValue_of_unfit hq hid (unfit_short hnumbers h)

/-- A range that drifts from a NaN to the negative zero. -/
def drift : Parameter where
  id := ⟨1⟩
  definition := .rangeOf .float32
  value := .of Packet.nanUpdate.value

/-- A client that has it already, and watches it. -/
def driftWatcher : Client where
  registry := Registry.new.performAll [.merge drift, .edit ⟨1⟩ [.edit (.watch true)]]

/-- A NaN is news, whichever way it comes: the two watchers and the listener are told. -/
theorem receive_short_drift :
    ∃ u compact full, ValueUpdate.ofParameter? drift = some u ∧
      (Packet.ofValue u).encode true = .ok compact ∧
      (Packet.updateAt (some 1700000000) drift.valueOnly).encode false = .ok full ∧
      driftWatcher.receive compact = driftWatcher.receive full ∧
      (driftWatcher.receive compact).2.length = 3 := by
  obtain ⟨u, hu, hencode, hreceive⟩ := receive_short (p := drift) (by decide) rfl rfl
  obtain ⟨compact, hcompact⟩ := hencode.2 (by rintro _ ⟨⟩; rfl)
  obtain ⟨q, hq, hid⟩ : ∃ q, driftWatcher.registry.get? drift.id = some q ∧ q.id = drift.id :=
    ⟨_, rfl, rfl⟩
  obtain ⟨hsame, -⟩ := hreceive true compact (hcompact true) driftWatcher q hq hid
  obtain ⟨full, hfull, hreceived⟩ := hsame (some 1700000000) false
  refine ⟨u, compact, full, hu, hcompact true, hfull, hreceived, ?_⟩
  cases hu
  cases hcompact true
  rfl

/-- A range of switches, which nobody can make but by putting another element into a range. -/
def switches : Parameter where
  id := ⟨1⟩
  definition := .range (.boolean {}) {}
  value := .of (.range (.boolean true) (.boolean false))

/-- Its definition accepts the value, which has a short form, and that cannot be written. -/
theorem switches_refused :
    switches.definition.accepts (.range (.boolean true) (.boolean false)) = true ∧
      ∃ u, ValueUpdate.ofParameter? switches = some u ∧
        (Packet.ofValue u).encode true = .error (.invalidRangeElement .boolean) :=
  ⟨rfl, _, rfl, rfl⟩

end Client
end ParamSync
