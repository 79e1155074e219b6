import ParamSync.Proofs.Registry.Orderly

/-!
# Changes that wait to be told

Between two ticks parameters are created, moved and edited. What the next tick has to make of that
is in the parameters themselves: which are dirty, and of each whether its group is to be sent.
`Since s r` says that this is enough to get from `s` to `r`: who is not dirty is where it was, and
who does not send its group is where it was, or at the root if it is new. Every single change
touches one parameter, which keeps that.

Results:
* `touches_perform`: a change touches one parameter.
* `Since.performAll`: nothing gets lost between two ticks.
-/

namespace ParamSync

namespace Parameter

/-- Where the parameter is and whether that is to be sent, with its datatype. -/
def post (p : Parameter) : Datatype × ParamId × Bool := (p.datatype, p.home, p.parent.changed)

theorem of_post_eq {p p' : Parameter} (h : p'.post = p.post) :
    p'.datatype = p.datatype ∧ p'.home = p.home ∧ p'.parent.changed = p.parent.changed :=
  ⟨congrArg (·.1) h, congrArg (·.2.1) h, congrArg (·.2.2) h⟩

theorem Edited.parent {p p' : Parameter} {change : Edit} (h : Edited p change p') :
    p'.parent = p.parent := by
  cases h with
  | other _ _ hparent _ => exact hparent
  | _ => rfl

theorem post_accessAll (p : Parameter) {accesses : List Access}
    (h : ∀ a ∈ accesses, ∃ change, a = .edit change ∧ change.KeepsDefinition) :
    (p.accessAll accesses).post = p.post := by
  induction accesses generalizing p with
  | nil => rfl
  | cons a rest ih =>
    obtain ⟨⟨change, rfl, hkeep⟩, hrest⟩ := List.forall_mem_cons.1 h
    refine (ih (p.access (.edit change)) hrest).trans ?_
    simp only [access]
    split
    · next heq =>
      have he := edited_of_edit heq
      have hk := he.keeps hkeep
      rw [post, post, hk.datatype, hk.home, he.parent]
    · rfl

/-- A parameter that we put into another group has that to send. -/
theorem changed_setGroup {p : Parameter} {group : Option ParamId} (h : p.home ≠ target group) :
    (p.setGroup group).parent.changed = true := by
  rw [setGroup_of_home_ne h]

end Parameter

namespace Registry

variable {s r r' : Registry} {id x : ParamId}

/-! ## What a tick tells of -/

/-- The dirty parameters in ascending order. -/
def unsent (r : Registry) : List Parameter := r.dirty.toList.filterMap r.get?

theorem encodeDirty_eq_map (r : Registry) :
    r.encodeDirty.1 = r.unsent.map (Packet.encodeUpdate · false) := by
  rw [encodeDirty, writeEach, unsent, List.map_filterMap]

theorem hasPending_eq_false_iff {r : Registry} :
    r.hasPending = false ↔ r.dirty = ∅ ∧ r.removed = ∅ := by
  rw [hasPending, Bool.or_eq_false_iff, Bool.not_eq_false', Bool.not_eq_false',
    Std.ExtTreeSet.isEmpty_iff, Std.ExtTreeSet.isEmpty_iff]

/-- A registry that has nothing to tell is drained already. -/
theorem encode_of_quiet {r : Registry} (h : r.hasPending = false) :
    r.encodeRemoved = ([], r) ∧ r.encodeDirty = ([], r) := by
  obtain ⟨parameters, reserved, dirty, removed⟩ := r
  obtain ⟨rfl, rfl⟩ := hasPending_eq_false_iff.1 h
  exact ⟨rfl, rfl⟩

theorem mem_unsent (hkeyed : r.Keyed) {p : Parameter} (hp : p ∈ r.unsent) :
    p.id ∈ r.dirty ∧ r.get? p.id = some p := by
  obtain ⟨x, hx, hget⟩ := List.mem_filterMap.1 hp
  rw [hkeyed hget]
  exact ⟨Std.ExtTreeSet.mem_toList.1 hx, hget⟩

/-- If everybody who is dirty is alive, the packets are those of the dirty ones. -/
theorem map_id_unsent (hkeyed : r.Keyed) (halive : ∀ x ∈ r.dirty, ∃ p, r.get? x = some p) :
    r.unsent.map (·.id) = r.dirty.toList := by
  rw [unsent, List.map_filterMap]
  refine (List.filterMap_congr fun x hx => ?_).trans List.filterMap_some
  obtain ⟨p, hp⟩ := halive x (Std.ExtTreeSet.mem_toList.1 hx)
  rw [hp, Option.map_some, hkeyed hp]

/-! ## Single changes -/

/-- A change that creates one parameter, or moves or edits it, and leaves all others where they
are. -/
structure Touches (r r' : Registry) (id : ParamId) : Prop where
  ne_root : id ≠ .root
  others : ∀ x, x ≠ id → (r'.get? x).map Parameter.post = (r.get? x).map Parameter.post
  known : ∀ p, r.get? id = some p → ∃ p', r'.get? id = some p' ∧ p'.datatype = p.datatype ∧
    (p'.parent.changed = true ∨ p'.post = p.post)
  new : r.get? id = none → ∃ p', r'.get? id = some p' ∧
    (p'.parent.changed = true ∨ p'.home = .root)
  dirty_of : ∀ x, x ∈ r'.dirty → x = id ∨ x ∈ r.dirty
  dirty : ∀ x, x ∈ r.dirty → x ∈ r'.dirty
  told : id ∉ r'.dirty → r'.home? id = r.home? id
  removed : r'.removed = r.removed

namespace Touches

theorem alive (h : Touches r r' id) : ∃ p', r'.get? id = some p' := by
  cases hp : r.get? id with
  | none => exact (h.new hp).imp fun _ => And.left
  | some p => exact (h.known p hp).imp fun _ => And.left

theorem exists_get? (h : Touches r r' id) (hx : x ≠ id) {p : Parameter} (hp : r.get? x = some p) :
    ∃ p', r'.get? x = some p' ∧ p'.post = p.post :=
  exists_of_map_eq (h.others x hx) hp

theorem exists_get?_of (h : Touches r r' id) (hx : x ≠ id) {p' : Parameter}
    (hp' : r'.get? x = some p') : ∃ p, r.get? x = some p ∧ p.post = p'.post :=
  exists_of_map_eq (h.others x hx).symm hp'

end Touches

/-- A parameter is registered where it wants to be, or at the root. -/
theorem entered_eq_or_home_eq_root (r : Registry) (p : Parameter) :
    r.entered p = p ∨ (r.entered p).home = .root := by
  have hhome : (r.entered p).home = (p.group?.filter r.isGroup).getD .root :=
    congrArg (·.2.1) (r.links_entered p)
  unfold entered at hhome ⊢
  cases hg : p.group?.filter r.isGroup with
  | none =>
    rw [hg] at hhome
    exact .inr hhome
  | some g => exact .inl rfl

namespace Touches

/-- A parameter that is registered and noted as dirty. -/
theorem of_attach {p : Parameter} (hid : p.id ≠ .root)
    (hp : p.parent.changed = true ∨ p.home = .root) :
    Touches r { r.attach p with dirty := (r.attach p).dirty.insert p.id } p.id where
  ne_root := hid
  others := by
    intro x hx
    show ((r.attach p).get? x).map _ = _
    cases hq : r.get? p.id with
    | some q => rw [attach_of_taken (.inr ⟨_, home?_of_get? hq⟩)]
    | none =>
      rw [get?_attach hid hq, if_neg hx]
      split
      · rw [Option.map_map]
        rfl
      · rfl
  known := by
    intro q hq
    refine ⟨q, ?_, rfl, .inr rfl⟩
    show (r.attach p).get? p.id = some q
    rw [attach_of_taken (.inr ⟨_, home?_of_get? hq⟩), hq]
  new := by
    intro hq
    refine ⟨r.entered p, ?_, ?_⟩
    · show (r.attach p).get? p.id = some (r.entered p)
      rw [get?_attach hid hq, if_pos rfl]
    · rcases r.entered_eq_or_home_eq_root p with heq | hroot
      · rwa [heq]
      · exact .inr hroot
  dirty_of := by
    intro x hx
    rwa [dirty_attach, IdSet.mem_insert_iff] at hx
  dirty := by
    intro x hx
    rw [dirty_attach, Std.ExtTreeSet.mem_insert]
    exact .inr hx
  told := fun hx => absurd Std.ExtTreeSet.mem_insert_self hx
  removed := r.removed_attach p

theorem of_create {definition : TypeDef} {group : Option ParamId}
    (h : r.create definition group = .ok (id, r')) : Touches r r' id := by
  obtain ⟨target, -, hnext, rfl⟩ := create_ok h
  have hlinks := Parameter.links_setGroup { id, definition } target
  have hpid : (Parameter.setGroup { id, definition } target).id = id := congrArg (·.1) hlinks
  have hpost : (Parameter.setGroup { id, definition } target).parent.changed = true ∨
      (Parameter.setGroup { id, definition } target).home = .root := by
    by_cases hroot : Parameter.target target = .root
    · exact .inr ((congrArg (·.2.1) hlinks).trans hroot)
    · exact .inl (Parameter.changed_setGroup (Ne.symm hroot))
  have htouch := of_attach (r := r) (by rw [hpid]; exact (nextId?_eq_some_iff.1 hnext).1.1) hpost
  rwa [hpid] at htouch

theorem of_edit {f : Parameter → Parameter × Unit} {a : Unit} (hkeyed : r.Keyed)
    (h : r.edit id f = .ok (r', a))
    (hf : ∀ p, (f p).1.id = p.id ∧ (f p).1.post = p.post) : Touches r r' id := by
  obtain ⟨hid, p, hp, -, rfl⟩ := edit_ok h
  obtain ⟨hfid, hpost⟩ := hf p
  have hget : ∀ x, ({ r with parameters := r.parameters.insert id (f p).1 } : Registry).get? x =
      if x = id then some (f p).1 else r.get? x := get?_of_insert rfl
  rw [hfid, hkeyed hp]
  constructor
  case ne_root => exact hid
  case others =>
    intro x hx
    show (Registry.get? { r with parameters := r.parameters.insert id (f p).1 } x).map _ = _
    rw [hget, if_neg hx]
  case known =>
    intro q hq
    rw [hp, Option.some.injEq] at hq
    refine ⟨(f p).1, ?_, hq ▸ congrArg (·.1) hpost, .inr (hq ▸ hpost)⟩
    exact (hget id).trans (if_pos rfl)
  case new =>
    intro hq
    rw [hp] at hq
    cases hq
  case dirty_of =>
    intro x hx
    dsimp only at hx
    split at hx
    · exact IdSet.mem_insert_iff.1 hx
    · exact .inr hx
  case dirty =>
    intro x hx
    dsimp only
    split
    · exact Std.ExtTreeSet.mem_insert.2 (.inr hx)
    · exact hx
  case told =>
    intro _
    have hhome : (f p).1.home = p.home := congrArg (·.2.1) hpost
    show (Registry.get? { r with parameters := r.parameters.insert id (f p).1 } id).map _ = _
    rw [hget, if_pos rfl, Option.map_some, hhome, home?_of_get? hp]
  case removed => rfl

/-- A parameter that was moved, and is noted as dirty. -/
theorem of_move {group : Option ParamId} (hremoved : r.removed = ∅)
    (h : r.move id group = .ok r') : r' = r ∨ Touches r r' id := by
  obtain ⟨hid, -, -, ⟨-, rfl⟩ | ⟨m, hm, rfl⟩⟩ := move_ok h
  · exact .inl rfl
  obtain ⟨p, hp, hne, hmeq⟩ := relink?_eq_some hm
  have hothers : ∀ x, x ≠ id → (m.get? x).map Parameter.post = (r.get? x).map Parameter.post := by
    intro x hx
    obtain ⟨f, hf, hget⟩ := get?_relink hm x
    have hpost : Parameter.post ∘ f = Parameter.post := by
      funext q
      obtain ⟨children, hq⟩ := hf q
      rw [Function.comp_apply, hq]
      rfl
    rw [hget, if_neg hx, Option.map_map, hpost]
  have hself : ∃ q, m.get? id = some q ∧ q.datatype = p.datatype ∧ q.parent.changed = true := by
    obtain ⟨f, hf, hget⟩ := get?_relink hm id
    obtain ⟨children, hq⟩ := hf p
    rw [if_pos rfl, hp, Option.map_some, hq] at hget
    refine ⟨_, hget, ?_, Parameter.changed_setGroup ?_⟩
    · obtain ⟨g, hg, -⟩ := Parameter.setGroup_eq { p with children } (group.filter (!·.isRoot))
      exact (congrArg Parameter.datatype hg).trans rfl
    · show p.home ≠ _
      rw [Parameter.target_filter]
      exact hne
  obtain ⟨q, hq, hdatatype, hchanged⟩ := hself
  have hsame : m.dirty = r.dirty ∧ m.removed = r.removed := by
    rw [hmeq]
    exact ⟨rfl, rfl⟩
  have hdirty : m.setDirty id = { m with dirty := m.dirty.insert id } := by
    have hcontains : m.parameters.contains id = true := by
      rw [contains_eq_isSome, hq]
      rfl
    have hroot : id.isRoot = false := by simpa using hid
    rw [setDirty, hroot, hsame.2, hremoved, hcontains]
    simp
  rw [hdirty, hsame.1]
  refine .inr ⟨hid, hothers, fun q' hq' => ?_, fun hnone => ?_, fun x hx => ?_, fun x hx => ?_,
    fun hx => absurd Std.ExtTreeSet.mem_insert_self hx, hsame.2⟩
  · rw [hp, Option.some.injEq] at hq'
    exact ⟨q, hq, hq' ▸ hdatatype, .inl hchanged⟩
  · rw [hp] at hnone
    cases hnone
  · exact (Std.ExtTreeSet.mem_insert.1 hx).imp_left fun h => (Std.compare_eq_iff_eq.1 h).symm
  · exact Std.ExtTreeSet.mem_insert.2 (.inr hx)

end Touches

/-! ## Between two ticks -/

/-- A change that takes nothing out: something is created or moved, or its fields are set. -/
def Op.Builds : Op → Prop
  | .create definition _ => definition.WellFormed
  | .createGroup _ => True
  | .edit _ accesses => ∀ a ∈ accesses, ∃ change, a = .edit change ∧ change.KeepsDefinition
  | .move _ _ => True
  | _ => False

theorem Op.Builds.legal {op : Op} (h : op.Builds) : op.Legal := by
  cases op with
  | create => exact ⟨trivial, h⟩
  | edit id accesses =>
    refine ⟨trivial, fun change hc => ?_⟩
    obtain ⟨change', heq, hkeep⟩ := h _ hc
    cases heq
    exact hkeep
  | createGroup => exact ⟨trivial, trivial⟩
  | move => exact ⟨trivial, trivial⟩
  | _ => exact h.elim

/-- A change changes nothing or touches one parameter. -/
theorem touches_perform (hkeyed : r.Keyed) (hremoved : r.removed = ∅) {op : Op} (hop : op.Builds) :
    r.perform op = r ∨ ∃ id, Touches r (r.perform op) id := by
  let P := fun r' => r' = r ∨ ∃ id, Touches r r' id
  show P (r.perform op)
  cases op with
  | create definition group => exact of_orSame (.inl rfl) fun a hok => .inr ⟨a.1, .of_create hok⟩
  | createGroup group => exact of_orSame (.inl rfl) fun a hok => .inr ⟨a.1, .of_create hok⟩
  | edit id accesses =>
    exact of_orSame (.inl rfl) fun a hok => .inr ⟨id, .of_edit hkeyed hok fun p =>
      ⟨congrArg (·.1) (p.links_accessAll accesses), p.post_accessAll hop⟩⟩
  | move id group =>
    exact of_orSame (.inl rfl) fun a hok => (Touches.of_move hremoved hok).imp_right fun h => ⟨id, h⟩
  | _ => exact hop.elim

/-- What is to be told is enough to get from the one registry to the other. -/
structure Since (s r : Registry) : Prop where
  alive : ∀ {x}, x ∈ r.dirty → x ≠ .root ∧ ∃ p, r.get? x = some p
  known : ∀ {x p}, s.get? x = some p → ∃ p', r.get? x = some p' ∧ p'.datatype = p.datatype ∧
    (p'.parent.changed = false → p'.home = p.home)
  new : ∀ {x p'}, s.get? x = none → r.get? x = some p' → p'.parent.changed = false →
    p'.home = .root
  told : ∀ {x}, x ∉ r.dirty → r.home? x = s.home? x
  removed : r.removed = ∅

namespace Since

theorem refl (hdirty : s.dirty = ∅) (hremoved : s.removed = ∅) : Since s s where
  alive := by simp [hdirty]
  known hp := ⟨_, hp, rfl, fun _ => rfl⟩
  new hnone hp := by
    rw [hnone] at hp
    cases hp
  told _ := rfl
  removed := hremoved

/-- That is kept by whatever touches one parameter. -/
theorem touch (h : Since s r) (ht : Touches r r' id) : Since s r' where
  alive := by
    intro x hx
    by_cases hxid : x = id
    · exact hxid ▸ ⟨ht.ne_root, ht.alive⟩
    · obtain ⟨hroot, p, hp⟩ := h.alive ((ht.dirty_of x hx).resolve_left hxid)
      exact ⟨hroot, (ht.exists_get? hxid hp).imp fun _ => And.left⟩
  known := by
    intro x p hp
    obtain ⟨q, hq, hdatatype, hhome⟩ := h.known hp
    by_cases hxid : x = id
    · subst hxid
      obtain ⟨p', hp', hdatatype', hchanged | hpost⟩ := ht.known q hq
      · exact ⟨p', hp', hdatatype'.trans hdatatype, fun hsame => by simp [hchanged] at hsame⟩
      · obtain ⟨-, hhome', hflag⟩ := Parameter.of_post_eq hpost
        refine ⟨p', hp', hdatatype'.trans hdatatype, fun hsame => ?_⟩
        exact hhome'.trans (hhome (hflag ▸ hsame))
    · obtain ⟨p', hp', hpost⟩ := ht.exists_get? hxid hq
      obtain ⟨hdatatype', hhome', hflag⟩ := Parameter.of_post_eq hpost
      refine ⟨p', hp', hdatatype'.trans hdatatype, fun hsame => ?_⟩
      exact hhome'.trans (hhome (hflag ▸ hsame))
  new := by
    intro x p' hnone hp' hsame
    by_cases hxid : x = id
    · subst hxid
      cases hq : r.get? x with
      | none =>
        obtain ⟨p'', hp'', hchanged | hroot⟩ := ht.new hq
        · rw [hp', Option.some.injEq] at hp''
          rw [hp'', hchanged] at hsame
          cases hsame
        · rw [hp', Option.some.injEq] at hp''
          rw [hp'', hroot]
      | some q =>
        obtain ⟨p'', hp'', -, hpost⟩ := ht.known q hq
        rw [hp', Option.some.injEq] at hp''
        subst hp''
        rcases hpost with hchanged | hpost
        · rw [hchanged] at hsame
          cases hsame
        · obtain ⟨-, hhome', hflag⟩ := Parameter.of_post_eq hpost
          exact hhome'.trans (h.new hnone hq (hflag ▸ hsame))
    · obtain ⟨q, hq, hpost⟩ := ht.exists_get?_of hxid hp'
      obtain ⟨-, hhome', hflag⟩ := Parameter.of_post_eq hpost
      exact hhome'.symm.trans (h.new hnone hq (hflag.trans hsame))
  told := by
    intro x hx
    have hxr : x ∉ r.dirty := fun hmem => hx (ht.dirty x hmem)
    by_cases hxid : x = id
    · subst hxid
      exact (ht.told hx).trans (h.told hxr)
    · have hhome : r'.home? x = r.home? x := by
        have := congrArg (Option.map (·.2.1)) (ht.others x hxid)
        rwa [Option.map_map, Option.map_map] at this
      exact hhome.trans (h.told hxr)
  removed := ht.removed.trans h.removed

/-- Nothing gets lost between two ticks. -/
theorem performAll (h : Since s r) (hf : Forest r) {ops : List Op} (hops : ∀ op ∈ ops, op.Builds) :
    Since s (r.performAll ops) := by
  induction ops generalizing r with
  | nil => exact h
  | cons op ops ih =>
    obtain ⟨hop, hops⟩ := List.forall_mem_cons.1 hops
    refine ih ?_ (hf.perform _ hop.legal.childless) hops
    rcases touches_perform hf.keyed h.removed hop with hsame | ⟨id, ht⟩
    · rwa [hsame]
    · exact h.touch ht

end Since
end Registry
end ParamSync
