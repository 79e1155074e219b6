import ParamSync.Proofs.Codec.Definition
import ParamSync.Proofs.Registry.Steps

/-!
# What runs keep of each parameter

Beside the tree, runs keep some facts about single parameters: the root is as it was made, a
definition is well formed and stays what it is, nobody names the root as its group, and who is in a
group is in one that is alive and a group. For this a definition must not be replaced: that would
turn a group with members into something else.

Results:
* `Orderly.perform`: every operation that keeps definitions keeps these facts.
* `Reachable.orderly`: so it is along every run.
-/

namespace ParamSync

namespace Field

variable {α : Type} [Alike α] [LawfulAlike α]

/-- What a field holds after a change is what was put in, or it was there before. -/
theorem value_edit (f : Field α) (change : Option α) : (f.edit change).value = change := by
  cases change with
  | none => rfl
  | some a => exact f.value_set a

theorem value_merge (f g : Field α) : (f.merge g).value = g.value.or f.value := by
  unfold merge
  cases hg : g.value with
  | none => rfl
  | some a => exact f.value_apply a

end Field

/-! ## Definitions -/

namespace TypeDef

theorem datatype_edit {d d' : TypeDef} {change : Edit} {report : Report}
    (h : d.edit change = .ok (d', report)) : d'.datatype = d.datatype := by
  cases d <;> cases change <;> simp only [edit, reduceCtorEq] at h <;>
    first
    | (cases h; rfl)
    | (split at h <;> cases h; rfl)

/-- Only these have something to keep. -/
theorem wellFormed_of_ne {d : TypeDef} (henum : d.datatype ≠ .enum) (hrange : d.datatype ≠ .range)
    (hcustom : d.datatype ≠ .custom) : d.WellFormed := by
  cases d with
  | enum e => exact absurd rfl henum
  | range element default => exact absurd rfl hrange
  | custom e => exact absurd rfl hcustom
  | _ => trivial

theorem isGroup_eq_of_datatype_eq {d d' : TypeDef} (h : d'.datatype = d.datatype) :
    d'.isGroup = d.isGroup := by
  cases d <;> cases d' <;> first | rfl | cases h

theorem EnumDef.wellFormed_edit {d : EnumDef} (hd : (enum d).WellFormed) (change : EnumDef.Edit) :
    (enum (d.edit change)).WellFormed := by
  intro entries he
  cases change with
  | entries c =>
    rw [EnumDef.edit, Field.value_edit, Option.map_eq_some_iff] at he
    obtain ⟨all, -, rfl⟩ := he
    simp [EnumDef.kept]
  | _ => exact hd entries he

theorem CustomDef.wellFormed_edit {d : CustomDef} (hd : (custom d).WellFormed)
    (change : CustomDef.Edit) : (custom (d.edit change)).WellFormed := by
  intro bs hbs
  cases change with
  | default c =>
    rw [CustomDef.edit, Field.value_edit, Option.map_eq_some_iff] at hbs
    obtain ⟨bs, -, rfl⟩ := hbs
    exact Bytes.length_fit _ _
  | _ => exact hd bs hbs

/-- A change other than another element keeps a definition well formed. -/
theorem WellFormed.edit {d d' : TypeDef} (hd : d.WellFormed) {change : Edit} {report : Report}
    (h : d.edit change = .ok (d', report)) (hkeep : ∀ e, change ≠ .replaceElement e) :
    d'.WellFormed := by
  cases d with
  | enum d =>
    cases change <;> simp only [TypeDef.edit, reduceCtorEq] at h
    cases h
    exact EnumDef.wellFormed_edit hd _
  | custom d =>
    cases change <;> simp only [TypeDef.edit, reduceCtorEq] at h
    cases h
    exact CustomDef.wellFormed_edit hd _
  | range element default =>
    cases change with
    | rangeDefault c =>
      simp only [TypeDef.edit] at h
      split at h <;> cases h
      exact hd
    | element c =>
      simp only [TypeDef.edit] at h
      split at h
      · next element' report' heq =>
        cases h
        show element'.datatype.isNumber = true
        rw [datatype_edit heq]
        exact hd
      · cases h
    | replaceElement e => exact absurd rfl (hkeep e)
    | _ => cases h
  | _ =>
    have hdatatype := datatype_edit h
    exact wellFormed_of_ne (by rw [hdatatype]; simp [datatype]) (by rw [hdatatype]; simp [datatype])
      (by rw [hdatatype]; simp [datatype])

theorem datatype_merge (d e : TypeDef) : (d.merge e).datatype = d.datatype := by
  cases d <;> cases e <;> first | rfl | (unfold merge; split <;> rfl)

theorem WellFormed.merge {d e : TypeDef} (hd : d.WellFormed) (he : e.WellFormed) :
    (d.merge e).WellFormed := by
  have hdatatype := datatype_merge d e
  cases d with
  | enum d =>
    cases e with
    | enum e =>
      intro entries hentries
      have hvalue : (d.entries.merge e.entries).value = some entries := hentries
      rw [Field.value_merge, Option.or_eq_some_iff] at hvalue
      rcases hvalue with h | ⟨-, h⟩
      · exact he entries h
      · exact hd entries h
    | _ => exact hd
  | custom d =>
    cases e with
    | custom e =>
      by_cases hsize : e.size = d.size
      · intro bs hbs
        rw [CustomDef.merge, if_pos hsize] at hbs ⊢
        rw [Field.value_merge, Option.or_eq_some_iff] at hbs
        rcases hbs with h | ⟨-, h⟩
        · exact (he bs h).trans (congrArg _ hsize)
        · exact hd bs h
      · show (custom (d.merge e)).WellFormed
        rw [CustomDef.merge, if_neg hsize]
        exact hd
    | _ => exact hd
  | range a default =>
    cases e with
    | range b default' =>
      show (a.merge b).datatype.isNumber = true
      rw [datatype_merge]
      exact hd
    | _ => exact hd
  | _ =>
    exact wellFormed_of_ne (by rw [hdatatype]; simp [datatype]) (by rw [hdatatype]; simp [datatype])
      (by rw [hdatatype]; simp [datatype])

@[simp] theorem datatype_sent (d : TypeDef) : d.sent.datatype = d.datatype := by
  cases d <;> rfl

theorem WellFormed.sent {d : TypeDef} (hd : d.WellFormed) : d.sent.WellFormed := by
  cases d with
  | range element default =>
    show element.sent.datatype.isNumber = true
    rw [datatype_sent]
    exact hd
  | _ => exact hd

end TypeDef

/-! ## Parameters -/

namespace Parameter

/-- The second parameter is the first after changes that leave its identifier, its group, its
datatype and the form of its definition alone. -/
structure Keeps (p p' : Parameter) : Prop where
  id : p'.id = p.id
  parent : p'.parent.value = p.parent.value
  datatype : p'.datatype = p.datatype
  wellFormed : p.definition.WellFormed → p'.definition.WellFormed

namespace Keeps

variable {p p' p'' : Parameter}

theorem refl (p : Parameter) : p.Keeps p := ⟨rfl, rfl, rfl, fun h => h⟩

theorem trans (h : p.Keeps p') (h' : p'.Keeps p'') : p.Keeps p'' where
  id := h'.id.trans h.id
  parent := h'.parent.trans h.parent
  datatype := h'.datatype.trans h.datatype
  wellFormed := fun hp => h'.wellFormed (h.wellFormed hp)

/-- Changes of the fields that are not mentioned. -/
theorem of_definition_eq (hid : p'.id = p.id) (hparent : p'.parent = p.parent)
    (hdefinition : p'.definition = p.definition) : p.Keeps p' where
  id := hid
  parent := by rw [hparent]
  datatype := congrArg TypeDef.datatype hdefinition
  wellFormed := by rw [hdefinition]; exact fun h => h

theorem home (h : p.Keeps p') : p'.home = p.home := by
  rw [Parameter.home, Parameter.home, group?, group?, h.parent]

theorem isGroup (h : p.Keeps p') : p'.isGroup = p.isGroup :=
  TypeDef.isGroup_eq_of_datatype_eq h.datatype

end Keeps

/-- A change that keeps the definition, which it may change but not replace. -/
def Edit.KeepsDefinition : Edit → Prop
  | replaceDefinition _ => False
  | definition (.replaceElement _) => False
  | _ => True

theorem Edit.KeepsDefinition.ne_replaceElement {c : TypeDef.Edit}
    (h : (definition c).KeepsDefinition) : ∀ e, c ≠ .replaceElement e := by
  rintro e rfl
  exact h

theorem Edited.keeps {p p' : Parameter} {change : Edit} (h : Edited p change p')
    (hkeep : change.KeepsDefinition) : p.Keeps p' := by
  cases h with
  | definition heq =>
    exact ⟨rfl, rfl, TypeDef.datatype_edit heq, fun hp => hp.edit heq hkeep.ne_replaceElement⟩
  | replaced d => exact hkeep.elim
  | other _ hdefinition hparent hlinks =>
    exact .of_definition_eq (congrArg (·.1) hlinks) hparent hdefinition
  | _ => exact .of_definition_eq rfl rfl rfl

theorem keeps_sent (p : Parameter) : p.Keeps p.sent :=
  ⟨rfl, rfl, p.definition.datatype_sent, TypeDef.WellFormed.sent⟩

theorem keeps_accessAll (p : Parameter) {accesses : List Access}
    (h : ∀ change, Access.edit change ∈ accesses → change.KeepsDefinition) :
    p.Keeps (p.accessAll accesses) :=
  accessAll_induction (P := p.Keeps) (fun hp hmem he => hp.trans (he.keeps (h _ hmem)))
    (fun hp => hp.trans (keeps_sent _)) (.refl p)

theorem keeps_merge (p : Parameter) {other : Parameter} (h : other.definition.WellFormed) :
    p.Keeps (p.merge other) :=
  ⟨rfl, rfl, TypeDef.datatype_merge _ _, fun hp => hp.merge h⟩

theorem keeps_applyValue {p p' : Parameter} {v : Value} (h : p.applyValue v = .ok p') :
    p.Keeps p' := by
  unfold applyValue at h
  split at h <;> cases h
  exact .of_definition_eq rfl rfl rfl

theorem keeps_insertChild (p : Parameter) (id : ParamId) : p.Keeps (p.insertChild id) :=
  .of_definition_eq rfl rfl rfl

theorem keeps_eraseChild (p : Parameter) (id : ParamId) : p.Keeps (p.eraseChild id) :=
  .of_definition_eq rfl rfl rfl

end Parameter

namespace Registry

variable {r r' : Registry}

/-! ## Registries -/

/-- The parameter has a well-formed definition and is in a living group. It does not say so of the
root, which is where it is if it names none. -/
structure Settled (r : Registry) (p : Parameter) : Prop where
  wellFormed : p.definition.WellFormed
  parent : p.parent.value ≠ some .root
  group : r.isGroup p.home = true

/-- The root is as it was made, and everybody else is settled. -/
structure Orderly (r : Registry) : Prop where
  root : ∃ children, r.get? .root = some { freshRoot with children }
  settled : ∀ {id p}, id ≠ .root → r.get? id = some p → r.Settled p

theorem isGroup_eq_true_iff {g : ParamId} :
    r.isGroup g = true ↔ ∃ q, r.get? g = some q ∧ q.isGroup = true := by
  rw [isGroup, Option.any_eq_true]

theorem Settled.of_keeps {p p' : Parameter} (h : r.Settled p) (hk : p.Keeps p')
    (hgroup : r.isGroup p.home = true → r'.isGroup p.home = true) : r'.Settled p' where
  wellFormed := hk.wellFormed h.wellFormed
  parent := by rw [hk.parent]; exact h.parent
  group := by rw [hk.home]; exact hgroup h.group

/-- The same identifiers are alive, and each parameter keeps its place. -/
def Becomes (r r' : Registry) : Prop := ∀ x, Option.Rel Parameter.Keeps (r.get? x) (r'.get? x)

namespace Becomes

theorem refl (r : Registry) : Becomes r r := fun x => by
  cases r.get? x with
  | none => exact .none
  | some p => exact .some (.refl p)

theorem isGroup (h : Becomes r r') {g : ParamId} (hg : r.isGroup g = true) :
    r'.isGroup g = true := by
  obtain ⟨q, hq, hqg⟩ := isGroup_eq_true_iff.1 hg
  have hx := h g
  rw [hq] at hx
  cases hq' : r'.get? g with
  | none => rw [hq'] at hx; cases hx
  | some q' =>
    rw [hq'] at hx
    cases hx with
    | some hk => exact isGroup_eq_true_iff.2 ⟨q', hq', hk.isGroup.trans hqg⟩

theorem of_insert {id : ParamId} {p p' : Parameter}
    (hr : r'.parameters = r.parameters.insert id p') (hp : r.get? id = some p) (hk : p.Keeps p') :
    Becomes r r' := by
  intro x
  rw [get?_of_insert hr]
  by_cases hx : x = id
  · rw [if_pos hx, hx, hp]
    exact .some hk
  · rw [if_neg hx]
    exact refl r x

theorem modify {f : Parameter → Parameter} (hf : ∀ p : Parameter, p.Keeps (f p)) (id : ParamId) :
    Becomes r (r.modify id f) := by
  intro x
  rw [get?_modify]
  by_cases hx : x = id
  · rw [if_pos hx]
    cases r.get? x with
    | none => exact .none
    | some p => exact .some (hf p)
  · rw [if_neg hx]
    exact refl r x

theorem encodeDirty (r : Registry) : Becomes r r.encodeDirty.2 := by
  intro x
  rw [get?_encodeDirty]
  split
  · cases r.get? x with
    | none => exact .none
    | some p => exact .some p.keeps_sent
  · exact refl r x

end Becomes

namespace Orderly

/-- What keeps every place keeps the order, if the root is as it was made. -/
theorem of_becomes (h : Orderly r) (hb : Becomes r r')
    (hroot : ∃ children, r'.get? .root = some { freshRoot with children }) : Orderly r' where
  root := hroot
  settled := by
    intro x p' hx hp'
    have hrel := hb x
    rw [hp'] at hrel
    cases hp : r.get? x with
    | none => rw [hp] at hrel; cases hrel
    | some p =>
      rw [hp] at hrel
      cases hrel with
      | some hk => exact (h.settled hx hp).of_keeps hk hb.isGroup

theorem of_parameters_eq (h : Orderly r) (hr : r'.parameters = r.parameters) : Orderly r' := by
  have hget : ∀ x, r'.get? x = r.get? x := fun x => by rw [get?, get?, hr]
  refine h.of_becomes (fun x => ?_) (by rw [hget]; exact h.root)
  rw [hget]
  exact Becomes.refl r x

/-- A parameter other than the root may be replaced by one that keeps its place. -/
theorem of_insert (h : Orderly r) {id : ParamId} (hid : id ≠ .root) {p p' : Parameter}
    (hr : r'.parameters = r.parameters.insert id p') (hp : r.get? id = some p) (hk : p.Keeps p') :
    Orderly r' := by
  refine h.of_becomes (.of_insert hr hp hk) ?_
  rw [get?_of_insert hr, if_neg (Ne.symm hid)]
  exact h.root

theorem modify (h : Orderly r) {f : Parameter → Parameter} (hf : ∀ p : Parameter, p.Keeps (f p))
    (hroot : ∀ children, ∃ children', f { freshRoot with children } =
      { freshRoot with children := children' }) (id : ParamId) : Orderly (r.modify id f) := by
  refine h.of_becomes (.modify hf id) ?_
  obtain ⟨children, hr⟩ := h.root
  obtain ⟨children', hf'⟩ := hroot children
  rw [get?_modify, hr, Option.map_some, hf']
  split
  · exact ⟨children', rfl⟩
  · exact ⟨children, rfl⟩

theorem insertChild (h : Orderly r) (g id : ParamId) : Orderly (r.modify g (·.insertChild id)) :=
  h.modify (Parameter.keeps_insertChild · id) (fun _ => ⟨_, rfl⟩) g

theorem eraseChild (h : Orderly r) (g id : ParamId) : Orderly (r.modify g (·.eraseChild id)) :=
  h.modify (Parameter.keeps_eraseChild · id) (fun _ => ⟨_, rfl⟩) g

theorem isGroup_root (h : Orderly r) : r.isGroup .root = true := by
  obtain ⟨children, hroot⟩ := h.root
  exact isGroup_eq_true_iff.2 ⟨_, hroot, rfl⟩

/-- A parameter that is put under a free identifier, or that replaces another one of its
datatype. -/
theorem of_settled (h : Orderly r) {id : ParamId} (hid : id ≠ .root) {p' : Parameter}
    (hget : ∀ x, r'.get? x = if x = id then some p' else r.get? x) (hs : r.Settled p')
    (hkeep : ∀ p, r.get? id = some p → p'.isGroup = p.isGroup) : Orderly r' := by
  have hgroup : ∀ g, r.isGroup g = true → r'.isGroup g = true := by
    intro g hg
    obtain ⟨q, hq, hqg⟩ := isGroup_eq_true_iff.1 hg
    by_cases hx : g = id
    · subst hx
      exact isGroup_eq_true_iff.2 ⟨p', by rw [hget, if_pos rfl], (hkeep q hq).trans hqg⟩
    · exact isGroup_eq_true_iff.2 ⟨q, by rw [hget, if_neg hx]; exact hq, hqg⟩
  constructor
  · obtain ⟨children, hroot⟩ := h.root
    exact ⟨children, by rw [hget, if_neg (Ne.symm hid)]; exact hroot⟩
  · intro x q hx hq
    rw [hget] at hq
    split at hq
    · cases hq
      exact hs.of_keeps (.refl p') (hgroup _)
    · exact (h.settled hx hq).of_keeps (.refl q) (hgroup _)

/-! ## Operations -/

/-- A parameter as it is registered is settled, if its definition is well formed. -/
theorem settled_entered (h : Orderly r) {p : Parameter} (hp : p.definition.WellFormed) :
    r.Settled (r.entered p) := by
  have hhome : (r.entered p).home = (p.group?.filter r.isGroup).getD .root :=
    congrArg (·.2.1) (r.links_entered p)
  unfold entered at hhome ⊢
  cases hg : p.group?.filter r.isGroup with
  | none =>
    obtain ⟨f, hf, hv⟩ := p.applyGroup_eq none
    simp only [hg, Option.isSome_none, Bool.false_eq_true, if_false, Option.getD_none] at hhome ⊢
    rw [hf] at hhome ⊢
    refine ⟨hp, ?_, ?_⟩
    · show f.value ≠ some .root
      rw [hv]
      simp
    · rw [hhome]
      exact h.isGroup_root
  | some g =>
    simp only [hg, Option.isSome_some, if_true, Option.getD_some] at hhome ⊢
    obtain ⟨hgroup, hisGroup⟩ := Option.filter_eq_some_iff.1 hg
    refine ⟨hp, fun hroot => ?_, ?_⟩
    · rw [Parameter.group?, hroot, Option.filter_eq_some_iff] at hgroup
      obtain ⟨hg, hne⟩ := hgroup
      cases hg
      simp at hne
    · rw [hhome]
      exact hisGroup

theorem attach (h : Orderly r) {p : Parameter} (hp : p.definition.WellFormed) :
    Orderly (r.attach p) := by
  obtain hold | ⟨hid, hnew⟩ := r.attach_eq_or_new p
  · rwa [hold]
  have hlinked := h.insertChild (r.entered p).home p.id
  have hget : ∀ x, (r.attach p).get? x = if x = p.id then some (r.entered p)
      else (r.modify (r.entered p).home (·.insertChild p.id)).get? x := fun x => by
    rw [get?_attach hid hnew, get?_modify]
  refine hlinked.of_settled hid hget ?_ ?_
  · exact (h.settled_entered hp).of_keeps (.refl _)
      (Becomes.modify (Parameter.keeps_insertChild · p.id) _).isGroup
  · intro q hq
    rw [get?_modify, hnew] at hq
    split at hq <;> cases hq

/-- A parameter may be put into any living group. -/
theorem place (h : Orderly r) {id : ParamId} (hid : id ≠ .root) {group : Option ParamId}
    (origin : Origin) (hgroup : r.isGroup (Parameter.target group) = true) :
    Orderly (r.modify id (origin.place group)) := by
  cases hp : r.get? id with
  | none =>
    refine h.of_becomes (fun x => ?_) ?_
    · rw [get?_modify]
      by_cases hx : x = id
      · rw [if_pos hx, hx, hp]
        exact .none
      · rw [if_neg hx]
        exact Becomes.refl r x
    · rw [get?_modify, if_neg (Ne.symm hid)]
      exact h.root
  | some p =>
    obtain ⟨f, hf, hv⟩ := origin.place_eq group p
    have hhome : (origin.place group p).home = Parameter.target group :=
      congrArg (·.2.1) (origin.links_place group p)
    have hget : ∀ x, (r.modify id (origin.place group)).get? x =
        if x = id then some (origin.place group p) else r.get? x := fun x => by
      rw [get?_modify]
      by_cases hx : x = id
      · rw [if_pos hx, if_pos hx, hx, hp, Option.map_some]
      · rw [if_neg hx, if_neg hx]
    refine h.of_settled hid hget ⟨?_, ?_, ?_⟩ ?_
    · rw [hf]
      exact (h.settled hid hp).wellFormed
    · rw [hf]
      show f.value ≠ some .root
      rw [hv]
      simp
    · rw [hhome]
      exact hgroup
    · intro q hq
      rw [hp] at hq
      cases hq
      rw [hf]
      rfl

/-- A move to a living group. -/
theorem relink (h : Orderly r) {id : ParamId} (hid : id ≠ .root) {group : Option ParamId}
    {origin : Origin} {m : Registry} (ha : r.Accepts id (group.filter (!·.isRoot)))
    (hm : r.relink? id (group.filter (!·.isRoot)) origin = some m) : Orderly m := by
  obtain ⟨p, hp, -, rfl⟩ := relink?_eq_some hm
  have hlinked := (h.eraseChild p.home id).insertChild ((group.filter (!·.isRoot)).getD .root) id
  refine hlinked.place hid origin ?_
  refine (Becomes.modify (Parameter.keeps_insertChild · id) _).isGroup
    ((Becomes.modify (Parameter.keeps_eraseChild · id) _).isGroup ?_)
  rw [Parameter.target, Option.filter_filter]
  cases hg : group.filter (!·.isRoot) with
  | none =>
    simp only [Bool.and_self, hg]
    exact h.isGroup_root
  | some g =>
    simp only [Bool.and_self, hg]
    exact isGroup_eq_true_iff.2 (ha g hg).2.1

theorem evict (h : Orderly r) (hf : Forest r) {id : ParamId} (hid : id ≠ .root) :
    Orderly (r.evict id).1 := by
  cases hp : r.get? id with
  | none => rwa [evict_of_dead hp]
  | some p =>
    have hlinked := h.eraseChild p.home id
    have hget : ∀ {x}, ¬ Above r id x →
        (r.evict id).1.get? x = (r.modify p.home (·.eraseChild id)).get? x := fun hx => by
      rw [hf.get?_evict_of_not_above hid hp hx, get?_modify]
    constructor
    · rw [hget not_above_root]
      exact hlinked.root
    · intro x q hx hq
      have habove : ¬ Above r id x := by
        intro habove
        rw [hf.get?_evict_of_above hid hp habove] at hq
        cases hq
      have hhome : r.home? x = some q.home := by
        rw [← hf.home?_evict_of_not_above hid hp habove]
        exact home?_of_get? hq
      have hgroup : ¬ Above r id q.home := by
        rintro ⟨l, hl, hmem⟩
        exact habove ⟨_, .member hx hhome hl, List.mem_cons_of_mem _ hmem⟩
      rw [hget habove] at hq
      have hs := hlinked.settled hx hq
      refine hs.of_keeps (.refl q) fun hisGroup => ?_
      rw [isGroup, hget hgroup]
      exact hisGroup

/-- The root alone is in order. -/
theorem of_root {p : Parameter} {children : IdSet}
    (hr : r.parameters = (∅ : IdMap Parameter).insert .root p)
    (hp : p = { freshRoot with children }) : Orderly r := by
  have hget := get?_of_root hr
  constructor
  · exact ⟨children, by rw [hget, if_pos rfl, hp]⟩
  · intro x q hx hq
    rw [hget, if_neg hx] at hq
    cases hq

theorem new : Orderly .new := of_root rfl rfl

theorem clear (h : Orderly r) (hf : Forest r) : Orderly r.clear := by
  obtain ⟨children, hroot⟩ := h.root
  rw [hf.root_eq.1, Option.some.injEq] at hroot
  exact of_root rfl (by rw [hroot])

end Orderly

namespace Op

/-- An operation that keeps definitions: those that come in are well formed, and those that are
there may be changed but not replaced. -/
def KeepsDefinitions : Op → Prop
  | create definition _ => definition.WellFormed
  | edit _ accesses => ∀ change, Parameter.Access.edit change ∈ accesses → change.KeepsDefinition
  | merge incoming => incoming.definition.WellFormed
  | _ => True

/-- An operation that keeps definitions, by which no parameter comes with members. -/
structure Legal (op : Op) : Prop where
  childless : op.Childless
  keepsDefinitions : op.KeepsDefinitions

theorem legal_iff {op : Op} : op.Legal ↔ op.Childless ∧ op.KeepsDefinitions :=
  ⟨fun h => ⟨h.childless, h.keepsDefinitions⟩, fun h => ⟨h.1, h.2⟩⟩

end Op

namespace Orderly

theorem merge (h : Orderly r) {incoming : Parameter} (hd : incoming.definition.WellFormed)
    {outcome : Merge} {notices : List Notice}
    (hm : r.merge incoming = .ok (outcome, r', notices)) : Orderly r' := by
  obtain ⟨hid, ⟨-, rfl⟩ | ⟨p, hp, -, rfl⟩⟩ := merge_ok hm
  · exact h.attach hd
  · have hover : Orderly (r.overlay p incoming) := h.of_insert hid rfl hp (p.keeps_merge hd)
    cases hf : (r.overlay p incoming).follow? incoming.id incoming.parent.value with
    | none => exact hover
    | some m =>
      obtain ⟨-, ha, hm'⟩ := follow?_eq_some hf
      exact hover.relink hid ha hm'

/-- Every operation that keeps definitions keeps the order. -/
theorem perform (h : Orderly r) (hf : Forest r) {op : Op} (hop : op.KeepsDefinitions) :
    Orderly (r.perform op) := by
  have hcreate : ∀ {definition : TypeDef} {group : Option ParamId} {a : ParamId × Registry},
      definition.WellFormed → r.create definition group = .ok a → Orderly a.2 := by
    rintro definition group ⟨id, r'⟩ hd ha
    obtain ⟨target, -, -, rfl⟩ := create_ok ha
    refine (h.attach ?_).of_parameters_eq rfl
    obtain ⟨f, hf, -⟩ := Parameter.setGroup_eq { id, definition } target
    rw [hf]
    exact hd
  cases op with
  | create definition group => exact of_orSame h fun _ hok => hcreate hop hok
  | createGroup group =>
    have hgroup : TypeDef.WellFormed .group := trivial
    exact of_orSame h fun _ hok => hcreate hgroup hok
  | edit id accesses =>
    refine of_orSame h ?_
    rintro ⟨r', ⟨⟩⟩ hok
    obtain ⟨hid, p, hp, -, rfl⟩ := edit_ok hok
    exact h.of_insert hid rfl hp (p.keeps_accessAll hop)
  | setDirty id => exact h.of_parameters_eq (r.parameters_setDirty id)
  | move id group =>
    refine of_orSame h fun m hok => ?_
    obtain ⟨hid, -, ha, ⟨-, rfl⟩ | ⟨m', hm', rfl⟩⟩ := move_ok hok
    · exact h
    · exact (h.relink hid ha hm').of_parameters_eq (m'.parameters_setDirty id)
  | remove id =>
    refine of_orSame h ?_
    rintro ⟨found, r'⟩ hok
    obtain ⟨hid, ⟨-, -, rfl⟩ | ⟨-, -, -, rfl⟩⟩ := remove_ok hok
    · exact (h.evict hf hid).of_parameters_eq rfl
    · exact h
  | removeDirect id =>
    show Orderly (r.removeDirect id).1
    unfold removeDirect
    split
    · exact h
    · next hid => exact h.evict hf (by simpa using hid)
  | merge incoming => exact of_orSame h fun _ hok => h.merge hop hok
  | applyValue u =>
    refine of_orSame h ?_
    rintro ⟨applied, r', notices⟩ hok
    obtain ⟨p, p', hp, hid, hp', rfl⟩ := applyValue_ok hok
    have hkey := hf.keyed hp
    exact h.of_insert (fun hroot => hid (hkey.trans hroot)) rfl hp (Parameter.keeps_applyValue hp')
  | encodeDirty =>
    refine h.of_becomes (.encodeDirty r) ?_
    obtain ⟨children, hroot⟩ := h.root
    show ∃ children, r.encodeDirty.2.get? .root = _
    rw [get?_encodeDirty, hroot]
    split
    · exact ⟨children, rfl⟩
    · exact ⟨children, rfl⟩
  | encodeRemoved => exact h.of_parameters_eq rfl
  | encodeAll => rwa [perform_encodeAll]
  | clear => exact h.clear hf

end Orderly

/-- Along every run of legal operations the root is as it was made and everybody else is settled. -/
theorem Reachable.orderly (h : Reachable (fun _ => Op.Legal) r) : Forest r ∧ Orderly r := by
  refine h.invariant (I := fun r => Forest r ∧ Orderly r) ⟨.new, .new⟩ ?_
  rintro r op ⟨hf, ho⟩ hop
  exact ⟨hf.perform _ hop.childless, ho.perform hf hop.keepsDefinitions⟩

end Registry
end ParamSync
