import ParamSync.Proofs.Registry.Likeness
import ParamSync.Proofs.Registry.Run

/-!
# The two sides of a link

A parameter names the group that it is in, and a group keeps its members. Most operations touch
neither: `SameLinks` says so of two registries, and `sameLinks_of_insert` gives it for every change
of a parameter's other fields. What remains are the three operations that work on links: `attach`
enters a parameter, `relink?` moves one and `evict` takes a subtree out.

Results:
* `get?_modify`, `get?_of_insert`, `get?_encodeDirty`: what changes under each identifier.
* `Parameter.edited_of_edit`: what a change makes of a parameter.
* `Parameter.links_setGroup`, `Parameter.links_applyGroup`: a parameter that was put into a group is
  in it, with the members it had.
* `sameLinks_edit`, `sameLinks_encodeDirty`, `sameLinks_applyValue`: these keep every link.
-/

namespace ParamSync

/-! ## Of one parameter -/

namespace Parameter

/-- The group that the parameter is in, which is the root where it names none. -/
def home (p : Parameter) : ParamId := p.group?.getD .root

/-- What the tree is made of: the identifier, the group and the members. -/
def links (p : Parameter) : ParamId × ParamId × IdSet := (p.id, p.home, p.children)

theorem group?_ne_root {p : Parameter} {g : ParamId} (h : p.group? = some g) : g ≠ .root := by
  rintro rfl
  simp [group?, Option.filter_eq_some_iff] at h

theorem home_of_group?_eq_some {p : Parameter} {g : ParamId} (h : p.group? = some g) :
    p.home = g := by
  simp [home, h]

theorem home_eq_root_iff {p : Parameter} : p.home = .root ↔ p.group? = none := by
  cases h : p.group? with
  | none => simp [home, h]
  | some g => simp [home, h, group?_ne_root h]

/-- A parameter that is not at the root names its group. -/
theorem group?_eq_some_home {p : Parameter} (h : p.home ≠ .root) : p.group? = some p.home := by
  cases hg : p.group? with
  | none => exact absurd (home_eq_root_iff.2 hg) h
  | some g => rw [home_of_group?_eq_some hg]

@[simp] theorem id_insertChild (p : Parameter) (id : ParamId) : (p.insertChild id).id = p.id := rfl

@[simp] theorem id_eraseChild (p : Parameter) (id : ParamId) : (p.eraseChild id).id = p.id := rfl

@[simp] theorem home_insertChild (p : Parameter) (id : ParamId) :
    (p.insertChild id).home = p.home := rfl

@[simp] theorem home_eraseChild (p : Parameter) (id : ParamId) :
    (p.eraseChild id).home = p.home := rfl

@[simp] theorem mem_insertChild {p : Parameter} {id c : ParamId} :
    c ∈ (p.insertChild id).children ↔ c = id ∨ c ∈ p.children := by
  rw [insertChild, IdSet.mem_insert_iff]

@[simp] theorem mem_eraseChild {p : Parameter} {id c : ParamId} :
    c ∈ (p.eraseChild id).children ↔ c ≠ id ∧ c ∈ p.children := by
  rw [eraseChild, Std.ExtTreeSet.mem_erase, Ne, Ne, Std.compare_eq_iff_eq, eq_comm]

/-- A named group, and the root where it is the root or nothing that is named. -/
def target (group : Option ParamId) : ParamId := (group.filter (!·.isRoot)).getD .root

/-- Putting a parameter into a group sets the one field. -/
theorem setGroup_eq (p : Parameter) (group : Option ParamId) :
    ∃ f : Field ParamId, p.setGroup group = { p with parent := f } ∧
      f.value = group.filter (!·.isRoot) := by
  unfold setGroup
  split
  · next g hg => exact ⟨_, rfl, by rw [Field.value_set, hg]⟩
  · next hg =>
    split
    · exact ⟨_, rfl, by rw [hg]; rfl⟩
    · next hp => exact ⟨p.parent, rfl, by simpa [hg, Field.isPresent] using hp⟩

theorem applyGroup_eq (p : Parameter) (group : Option ParamId) :
    ∃ f : Field ParamId, p.applyGroup group = { p with parent := f } ∧
      f.value = group.filter (!·.isRoot) := by
  unfold applyGroup
  split
  · next g hg => exact ⟨_, rfl, by rw [Field.value_apply, hg]⟩
  · next hg =>
    split
    · exact ⟨_, rfl, by rw [hg]⟩
    · next hp => exact ⟨p.parent, rfl, by simpa [hg, Field.isPresent] using hp⟩

theorem group?_of_parent {p : Parameter} {group : Option ParamId}
    (h : p.parent.value = group.filter (!·.isRoot)) : p.group? = group.filter (!·.isRoot) := by
  rw [group?, h, Option.filter_filter]
  simp

@[simp] theorem links_setGroup (p : Parameter) (group : Option ParamId) :
    (p.setGroup group).links = (p.id, target group, p.children) := by
  obtain ⟨f, hf, hv⟩ := p.setGroup_eq group
  rw [hf, links, home, group?_of_parent hv, target]

@[simp] theorem links_applyGroup (p : Parameter) (group : Option ParamId) :
    (p.applyGroup group).links = (p.id, target group, p.children) := by
  obtain ⟨f, hf, hv⟩ := p.applyGroup_eq group
  rw [hf, links, home, group?_of_parent hv, target]

@[simp] theorem target_none : target none = .root := rfl

theorem target_filter (group : Option ParamId) :
    target (group.filter (!·.isRoot)) = target group := by
  rw [target, Option.filter_filter]
  simp [target]

/-- A parameter that goes to another group names it, or no longer names any. -/
theorem setGroup_of_home_ne {p : Parameter} {group : Option ParamId}
    (h : p.home ≠ target group) :
    p.setGroup group = { p with parent := ⟨group.filter (!·.isRoot), true⟩ } := by
  have hparent : p.parent.value ≠ group.filter (!·.isRoot) := fun heq =>
    h (congrArg (·.getD .root) (group?_of_parent heq))
  unfold setGroup
  split
  · next g hg =>
    -- storing what is there already would leave the field alone
    have hset : p.parent.set g = ⟨some g, true⟩ :=
      (p.parent.set_cases g).resolve_right fun hsame =>
        hparent (by rw [hg, ← p.parent.value_set g, hsame])
    rw [hset, hg]
  · next hg =>
    have hpresent : p.parent.isPresent = true := by
      rwa [Field.isPresent, Option.isSome_iff_ne_none, ← hg]
    rw [if_pos hpresent, Field.clear, hg]

/-! ### What keeps the links -/

/-- What a change makes of a parameter: the value is set or cleared, the definition is changed or
replaced, or neither of them is touched. -/
inductive Edited (p : Parameter) : Edit → Parameter → Prop
  | setValue {v : Value} (hv : p.definition.hasValue = true)
    (haccepts : p.definition.accepts v = true) :
    Edited p (.value (some v)) { p with value := p.value.set v }
  | clearValue (hv : p.definition.hasValue = true) :
    Edited p (.value none) { p with value := p.value.clear }
  | definition {c : TypeDef.Edit} {d : TypeDef} {report : Report}
    (h : p.definition.edit c = .ok (d, report)) :
    Edited p (.definition c) { p with definition := d }
  | replaced (d : TypeDef) : Edited p (.replaceDefinition d) { p with definition := d }
  | other {change : Edit} {p' : Parameter} (hvalue : p'.value = p.value)
    (hdefinition : p'.definition = p.definition) (hparent : p'.parent = p.parent)
    (hlinks : p'.links = p.links) : Edited p change p'

theorem edited_of_edit {p p' : Parameter} {change : Edit} {report : Report}
    (h : p.edit change = .ok (p', report)) : Edited p change p' := by
  cases change with
  | value c =>
    cases c with
    | none =>
      cases h
      unfold clearValue
      split
      · next hv => exact .clearValue hv
      · exact .other rfl rfl rfl rfl
    | some v =>
      simp only [edit] at h
      split at h
      · next q hq =>
        cases h
        unfold Parameter.setValue at hq
        split at hq
        · cases hq
        · next hv =>
          split at hq
          · cases hq
          · next haccepts =>
            cases hq
            exact .setValue (by simpa using hv) (by simpa using haccepts)
      · cases h
  | definition c =>
    simp only [edit] at h
    split at h
    · next d report' heq =>
      cases h
      exact .definition heq
    · cases h
  | replaceDefinition d => cases h; exact .replaced d
  | _ => cases h; exact .other rfl rfl rfl rfl

/-- Each of the accesses keeps what every change of them and every delta write keeps. -/
theorem accessAll_induction {P : Parameter → Prop} {p : Parameter} {accesses : List Access}
    (hedit : ∀ {p p' change}, P p → Access.edit change ∈ accesses → Edited p change p' → P p')
    (hsent : ∀ {p}, P p → P p.sent) (h : P p) : P (p.accessAll accesses) := by
  induction accesses generalizing p with
  | nil => exact h
  | cons a rest ih =>
    refine ih (fun hp hmem => hedit hp (List.mem_cons_of_mem _ hmem)) ?_
    cases a with
    | write all => cases all with
      | true => rwa [access, written_true]
      | false => rw [access, written_false]; exact hsent h
    | edit change =>
      simp only [access]
      split
      · next heq => exact hedit h List.mem_cons_self (edited_of_edit heq)
      · exact h

theorem Edited.links {p p' : Parameter} {change : Edit} (h : Edited p change p') :
    p'.links = p.links := by
  cases h with
  | other _ _ _ hlinks => exact hlinks
  | _ => rfl

theorem links_accessAll (p : Parameter) (accesses : List Access) :
    (p.accessAll accesses).links = p.links :=
  accessAll_induction (P := fun q => q.links = p.links) (fun hp _ he => he.links.trans hp)
    (fun hp => hp) rfl

theorem links_merge (p other : Parameter) : (p.merge other).links = p.links := rfl

theorem links_applyValue {p p' : Parameter} {v : Value} (h : p.applyValue v = .ok p') :
    p'.links = p.links := by
  unfold applyValue at h
  split at h <;> cases h
  rfl

end Parameter

namespace Registry

variable {r r' : Registry}

/-! ## Of a registry -/

theorem get?_modify (r : Registry) (id : ParamId) (f : Parameter → Parameter) (x : ParamId) :
    (r.modify id f).get? x = if x = id then (r.get? x).map f else r.get? x :=
   IdMap.getElem?_modify_eq r.parameters id f x

/-- What is under each identifier once a parameter has been entered under one. -/
theorem get?_of_insert {id : ParamId} {p : Parameter}
    (h : r'.parameters = r.parameters.insert id p) (x : ParamId) :
    r'.get? x = if x = id then some p else r.get? x := by
  rw [get?, h]
  exact IdMap.getElem?_insert_eq r.parameters id p x

theorem mem_keys_of_get? {x : ParamId} {p : Parameter} (h : r.get? x = some p) :
    x ∈ r.parameters.keys := by
  rw [Std.ExtTreeMap.mem_keys, Std.ExtTreeMap.mem_iff_isSome_getElem?]
  exact Option.isSome_of_eq_some h

/-- What is under each identifier where there is one parameter, under the identifier of the root. -/
theorem get?_of_root {p : Parameter} (h : r.parameters = (∅ : IdMap Parameter).insert .root p)
    (x : ParamId) : r.get? x = if x = .root then some p else none := by
  rw [get?, h]
  exact IdMap.getElem?_insert_eq ∅ .root p x

theorem get?_new (x : ParamId) : new.get? x = if x = .root then some freshRoot else none :=
  get?_of_root rfl x

theorem get?_clear (r : Registry) (x : ParamId) :
    r.clear.get? x = if x = .root then some { r.root with children := ∅ } else none :=
  get?_of_root rfl x

/-- Who is there on one side of an agreement is there on the other. -/
theorem exists_of_map_eq {α : Type} {f : Parameter → α} {o o' : Option Parameter} {p : Parameter}
    (h : o.map f = o'.map f) (hp : o' = some p) : ∃ q, o = some q ∧ f q = f p := by
  rwa [hp, Option.map_some, Option.map_eq_some_iff] at h

/-- The same identifiers are alive, with the same groups and members. -/
def SameLinks (r r' : Registry) : Prop :=
  ∀ x, (r'.get? x).map Parameter.links = (r.get? x).map Parameter.links

theorem SameLinks.refl (r : Registry) : SameLinks r r := fun _ => rfl

theorem SameLinks.symm (h : SameLinks r r') : SameLinks r' r := fun x => (h x).symm

/-- Only the parameters count. -/
theorem sameLinks_of_parameters_eq (h : r'.parameters = r.parameters) : SameLinks r r' := by
  intro x
  rw [get?, get?, h]

/-- A parameter that is alive on one side is alive on the other. -/
theorem SameLinks.exists_get? (h : SameLinks r r') {x : ParamId} {p : Parameter}
    (hp : r.get? x = some p) : ∃ p', r'.get? x = some p' ∧ p'.links = p.links :=
  exists_of_map_eq (h x) hp

theorem SameLinks.get?_eq_none_iff (h : SameLinks r r') (x : ParamId) :
    r'.get? x = none ↔ r.get? x = none := by
  rw [← Option.map_eq_none_iff (f := Parameter.links), h x, Option.map_eq_none_iff]

/-- A parameter may be replaced by one with the same links. -/
theorem sameLinks_of_insert {id : ParamId} {p p' : Parameter}
    (h : r'.parameters = r.parameters.insert id p') (hp : r.get? id = some p)
    (hl : p'.links = p.links) : SameLinks r r' := by
  intro x
  rw [get?_of_insert h]
  by_cases hx : x = id
  · subst hx; simp [hp, hl]
  · rw [if_neg hx]

theorem parameters_setDirty (r : Registry) (id : ParamId) :
    (r.setDirty id).parameters = r.parameters := by
  unfold setDirty
  split <;> rfl

theorem sameLinks_setDirty (r : Registry) (id : ParamId) : SameLinks r (r.setDirty id) :=
  sameLinks_of_parameters_eq (r.parameters_setDirty id)

/-- What an edit does, and when it is refused. -/
theorem edit_ok {α : Type} {id : ParamId} {f : Parameter → Parameter × α} {a : α}
    (h : r.edit id f = .ok (r', a)) :
    id ≠ .root ∧ ∃ p, r.get? id = some p ∧ f p = ((f p).1, a) ∧
      r' = { r with
        parameters := r.parameters.insert id (f p).1
        dirty := if (f p).1.hasChanges && !r.removed.contains (f p).1.id
          then r.dirty.insert (f p).1.id else r.dirty } := by
  unfold edit at h
  split at h
  · cases h
  · next hroot =>
    refine ⟨fun hid => hroot (by simp [hid]), ?_⟩
    split at h
    · cases h
    · next p hp =>
      refine ⟨p, hp, ?_⟩
      simp only [Except.ok.injEq, Prod.mk.injEq] at h
      obtain ⟨rfl, rfl⟩ := h
      refine ⟨rfl, ?_⟩
      split <;> rfl

theorem sameLinks_edit {α : Type} {id : ParamId} {f : Parameter → Parameter × α} {a : α}
    (h : r.edit id f = .ok (r', a)) (hf : ∀ p, (f p).1.links = p.links) : SameLinks r r' := by
  obtain ⟨-, p, hp, -, rfl⟩ := edit_ok h
  exact sameLinks_of_insert rfl hp (hf p)

/-- What applying a bare value does, and when it is refused. -/
theorem applyValue_ok {u : ValueUpdate} {applied : Bool} {notices : List Notice}
    (h : r.applyValue u = .ok (applied, r', notices)) :
    ∃ p p', r.get? u.id = some p ∧ p.id ≠ .root ∧ p.applyValue u.value = .ok p' ∧
      r' = { r with parameters := r.parameters.insert u.id p' } := by
  unfold applyValue at h
  split at h
  · cases h
  · next p hp =>
    rw [Option.filter_eq_some_iff] at hp
    split at h
    · cases h
    · split at h
      · cases h
      · next p' hp' =>
        refine ⟨p, p', hp.1, fun hid => ?_, hp', ?_⟩
        · simpa [hid] using hp.2
        · dsimp only at h
          split at h <;> cases h <;> rfl

theorem sameLinks_applyValue {u : ValueUpdate} {applied : Bool} {notices : List Notice}
    (h : r.applyValue u = .ok (applied, r', notices)) : SameLinks r r' := by
  obtain ⟨p, p', hp, -, hp', rfl⟩ := applyValue_ok h
  exact sameLinks_of_insert rfl hp (Parameter.links_applyValue hp')

/-! ### Delta writes -/

theorem getElem?_foldl_modify {α : Type} (f : α → α) (ids : List ParamId) (hids : ids.Nodup)
    (m : IdMap α) (x : ParamId) :
    (ids.foldl (fun m id => m.modify id f) m)[x]? = if x ∈ ids then m[x]?.map f else m[x]? := by
  induction ids generalizing m with
  | nil => simp
  | cons id ids ih =>
    obtain ⟨hid, hids⟩ := List.nodup_cons.1 hids
    rw [List.foldl_cons, ih hids]
    rw [IdMap.getElem?_modify_eq]
    by_cases hx : x = id
    · subst hx; simp [hid]
    · simp [hx]

/-- Identifiers in ascending order. -/
theorem pairwise_lt_toList (ids : IdSet) : ids.toList.Pairwise fun a b => compare a b = .lt :=
  Std.ExtTreeSet.ordered_toList

theorem nodup_toList (s : IdSet) : s.toList.Nodup :=
  s.distinct_toList.imp fun h heq => h (by rw [heq]; exact Std.ReflCmp.compare_self)

/-- A delta write of all that is dirty. -/
theorem get?_encodeDirty (r : Registry) (x : ParamId) :
    r.encodeDirty.2.get? x =
      if x ∈ r.dirty then (r.get? x).map Parameter.sent else r.get? x := by
  simp only [get?, encodeDirty, writeEach, Parameter.written_false]
  rw [getElem?_foldl_modify _ _ (nodup_toList _)]
  simp [Std.ExtTreeSet.mem_toList]

theorem sameLinks_encodeDirty (r : Registry) : SameLinks r r.encodeDirty.2 := by
  intro x
  rw [get?_encodeDirty]
  split
  · rw [Option.map_map]; rfl
  · rfl

end Registry
end ParamSync
