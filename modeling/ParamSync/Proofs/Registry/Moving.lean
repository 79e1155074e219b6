import Mathlib.Logic.Relation
import ParamSync.Proofs.Registry.Merging
import ParamSync.Proofs.Registry.Unsent

/-!
# Moves of our own

Before a parameter is moved, the way up from its new group is searched for it. What the search is
for is in the members: a group must not be put into a group that its members lead to, one after the
other. On a tree the two are the same, so a move is refused for a cycle exactly where it would make
one. A move that is not refused changes one parameter and the members of two groups.

Results:
* `Forest.above_iff_inSubtree`: the way up passes those whose members lead down.
* `Forest.move_iff`: when a move is refused, and why.
* `Forest.moves_of_move`: what a move changes, and that it changes nothing else.
* `Reachable.move_exact`: all this of every registry that a run makes.
-/

namespace ParamSync

namespace Registry

variable {r m : Registry} {id g : ParamId} {group : Option ParamId} {p : Parameter}

/-! ## The subtree -/

/-- The members of the first lead to the second, or they are the same. -/
def InSubtree (r : Registry) : ParamId → ParamId → Prop := Relation.ReflTransGen r.Lists

/-- The way up passes those whose members lead down. -/
theorem Forest.above_iff_inSubtree (h : Forest r) (hid : id ≠ .root) (hp : r.get? id = some p) :
    Above r id g ↔ r.InSubtree id g := by
  constructor
  · rintro ⟨l, hl, hmem⟩
    induction hl with
    | root => cases hmem
    | member hx hhome _ ih =>
      rcases List.mem_cons.1 hmem with rfl | hmem
      · exact .refl
      · exact (ih hmem).tail (h.lists_iff.2 ⟨hx, hhome⟩)
  · intro hsub
    induction hsub with
    | refl => exact h.above_self hid hp
    | tail _ hlists ih => exact h.above_of_lists hlists ih

/-- The search for a cycle finds out whether the group is in the subtree. -/
theorem Forest.isWithin_iff_inSubtree (h : Forest r) (hid : id ≠ .root)
    (hp : r.get? id = some p) (hg : r.isGroup g = true) :
    r.isWithin g id = true ↔ r.InSubtree id g := by
  obtain ⟨q, hq, -⟩ := isGroup_eq_true_iff.1 hg
  rw [h.isWithin_iff hid (home?_of_get? hq), h.above_iff_inSubtree hid hp]

/-- The root is in no subtree but the whole. -/
theorem Forest.not_inSubtree_root (h : Forest r) (hid : id ≠ .root) : ¬ r.InSubtree id .root := by
  intro hsub
  rcases hsub.cases_tail with heq | ⟨x, -, hlists⟩
  · exact hid heq.symm
  · exact (h.lists_iff.1 hlists).1 rfl

/-! ## Refusals -/

/-- Where there is always a reason to fail or what it takes to succeed, nothing else happens. -/
theorem outcome_iff {ε α : Type} {result : Except ε α} {refused : ε → Prop} {admitted : Prop}
    (hcases : (∃ e, refused e) ∨ admitted) (herror : ∀ e, refused e → result = .error e)
    (hok : admitted → ∃ a, result = .ok a) :
    ((∃ a, result = .ok a) ↔ admitted) ∧ ∀ e, result = .error e ↔ refused e := by
  rcases hcases with ⟨e, he⟩ | hadmitted
  · have hresult := herror e he
    refine ⟨⟨fun ⟨a, ha⟩ => ?_, hok⟩, fun e' => ⟨fun he' => ?_, herror e'⟩⟩
    · rw [hresult] at ha
      cases ha
    · rw [hresult] at he'
      cases he'
      exact he
  · obtain ⟨a, ha⟩ := hok hadmitted
    refine ⟨⟨fun _ => hadmitted, hok⟩, fun e' => ⟨fun he' => ?_, herror e'⟩⟩
    rw [ha] at he'
    cases he'

/-- Why a move is refused: the root stays where it is, and both the parameter and the group that it
is to go to have to be there, the group as a group and not below the parameter. -/
inductive Refuses (r : Registry) (id : ParamId) : Option ParamId → RegistryError → Prop
  | root {group : Option ParamId} (hid : id = .root) : Refuses r id group .rootImmutable
  | dead {group : Option ParamId} (hid : id ≠ .root) (hdead : r.get? id = none) :
      Refuses r id group (.notFound id)
  | noTarget {g : ParamId} (hid : r.contains id = true) (hroot : g ≠ .root)
      (hdead : r.get? g = none) : Refuses r id (some g) (.notFound g)
  | notAGroup {g : ParamId} {q : Parameter} (hid : r.contains id = true) (hroot : g ≠ .root)
      (hq : r.get? g = some q) (hgroup : q.isGroup = false) : Refuses r id (some g) (.notAGroup g)
  | cycle {g : ParamId} (hid : r.contains id = true) (hgroup : r.isGroup g = true)
      (hsub : r.InSubtree id g) : Refuses r id (some g) (.cycle id)

/-- A place to go to: none and the root, or a living group that is not in the subtree. -/
def Admits (r : Registry) (id : ParamId) : Option ParamId → Prop
  | none => True
  | some g => g = .root ∨ (r.isGroup g = true ∧ ¬ r.InSubtree id g)

theorem contains_eq_true_iff : r.contains id = true ↔ id ≠ .root ∧ ∃ p, r.get? id = some p := by
  rw [contains_iff_ne_root, Option.ne_none_iff_exists']

/-- A move is refused for one of the reasons, or the parameter and the place are there. -/
theorem refused_or_admitted (r : Registry) (id : ParamId) (group : Option ParamId) :
    (∃ e, r.Refuses id group e) ∨ (r.contains id = true ∧ r.Admits id group) := by
  by_cases hroot : id = .root
  · exact .inl ⟨_, .root hroot⟩
  by_cases hid : r.contains id = true
  · cases group with
    | none => exact .inr ⟨hid, trivial⟩
    | some g =>
      by_cases hg : g = .root
      · exact .inr ⟨hid, .inl hg⟩
      cases hq : r.get? g with
      | none => exact .inl ⟨_, .noTarget hid hg hq⟩
      | some q =>
        cases hqg : q.isGroup with
        | false => exact .inl ⟨_, .notAGroup hid hg hq hqg⟩
        | true =>
          have hgroup : r.isGroup g = true := isGroup_eq_true_iff.2 ⟨q, hq, hqg⟩
          by_cases hsub : r.InSubtree id g
          · exact .inl ⟨_, .cycle hid hgroup hsub⟩
          · exact .inr ⟨hid, .inr ⟨hgroup, hsub⟩⟩
  · rw [contains_iff_ne_root, not_and, not_not] at hid
    exact .inl ⟨_, .dead hroot (hid hroot)⟩

/-- What a move of a living parameter comes down to. -/
theorem move_of_contains (hid : r.contains id = true) :
    r.move id group = r.resolveGroup group >>= fun target =>
      if target.any (r.isWithin · id) then .error (.cycle id)
      else .ok (match r.relink? id target .here with
        | some moved => moved.setDirty id
        | none => r) := by
  obtain ⟨hroot, p, hp⟩ := contains_eq_true_iff.1 hid
  have halive : r.parameters.contains id = true := by rw [contains_eq_isSome, hp]; rfl
  rw [move, if_neg (by simpa using hroot), halive]
  cases r.resolveGroup group with
  | error e => rfl
  | ok target =>
    by_cases hw : target.any (r.isWithin · id) = true
    · simp [hw, bind, Except.bind, throw, throwThe, MonadExceptOf.throw]
    · cases hm : r.relink? id target .here <;>
        simp [hw, hm, bind, Except.bind, pure, Except.pure]

theorem resolveGroup_of_dead (hroot : g ≠ .root) (hg : r.get? g = none) :
    r.resolveGroup (some g) = .error (.notFound g) := by
  simp only [resolveGroup, filter_isRoot, if_neg hroot, hg]

theorem resolveGroup_of_alive (hroot : g ≠ .root) (hp : r.get? g = some p) :
    r.resolveGroup (some g) = if p.isGroup then .ok (some g) else .error (.notAGroup g) := by
  simp only [resolveGroup, filter_isRoot, if_neg hroot, hp]

namespace Forest

theorem move_of_refuses (h : Forest r) {e : RegistryError} (he : r.Refuses id group e) :
    r.move id group = .error e := by
  cases he with
  | root hid =>
    rw [Registry.move, if_pos (by simpa using hid)]
    rfl
  | dead hid hdead =>
    rw [Registry.move, if_neg (by simpa using hid), contains_eq_isSome, hdead]
    rfl
  | noTarget hid hroot hdead =>
    rw [move_of_contains hid, resolveGroup_of_dead hroot hdead]
    rfl
  | notAGroup hid hroot hq hgroup =>
    rw [move_of_contains hid, resolveGroup_of_alive hroot hq, hgroup]
    rfl
  | @cycle g hid hgroup hsub =>
    obtain ⟨hne, p, hp⟩ := contains_eq_true_iff.1 hid
    obtain ⟨q, hq, hqg⟩ := isGroup_eq_true_iff.1 hgroup
    have hroot : g ≠ .root := fun heq => h.not_inSubtree_root hne (heq ▸ hsub)
    have hwithin := (h.isWithin_iff_inSubtree hne hp hgroup).2 hsub
    rw [move_of_contains hid, resolveGroup_of_alive hroot hq, if_pos hqg]
    exact if_pos hwithin

theorem move_of_admits (h : Forest r) (hid : r.contains id = true) (hg : r.Admits id group) :
    r.move id group = .ok (match r.relink? id (group.filter (!·.isRoot)) .here with
      | some moved => moved.setDirty id
      | none => r) := by
  obtain ⟨hne, p, hp⟩ := contains_eq_true_iff.1 hid
  rw [move_of_contains hid]
  cases group with
  | none => rfl
  | some g =>
    rw [filter_isRoot]
    rcases hg with rfl | ⟨hgroup, hsub⟩
    · rfl
    · obtain ⟨q, hq, hqg⟩ := isGroup_eq_true_iff.1 hgroup
      rw [← h.isWithin_iff_inSubtree hne hp hgroup] at hsub
      by_cases hroot : g = .root
      · subst hroot
        rfl
      · rw [resolveGroup_of_alive hroot hq, if_pos hqg, if_neg hroot]
        exact if_neg hsub

/-- A move succeeds exactly if the parameter and a place for it are there, and otherwise it fails,
for the reason that there is. -/
theorem move_iff (h : Forest r) :
    ((∃ m, r.move id group = .ok m) ↔ r.contains id = true ∧ r.Admits id group) ∧
      ∀ e, r.move id group = .error e ↔ r.Refuses id group e :=
  outcome_iff (r.refused_or_admitted id group) (fun _ => h.move_of_refuses)
    fun hok => ⟨_, h.move_of_admits hok.1 hok.2⟩

end Forest

/-! ## What a move changes -/

/-- The parameter went from the one group to the other. Its `parent` and the members of the two
groups are all that changed of the parameters, and it is noted, unless its removal is to be
told. -/
structure Moves (r : Registry) (id old : ParamId) (group : Option ParamId) (m : Registry) :
    Prop where
  get? : ∀ x, m.get? x = (r.get? x).map fun q => { q with
    parent := if x = id then ⟨group.filter (!·.isRoot), true⟩ else q.parent
    children :=
      if x = old then q.children.erase id
      else if x = Parameter.target group then q.children.insert id
      else q.children }
  reserved : m.reserved = r.reserved
  removed : m.removed = r.removed
  dirty : m.dirty = if id ∈ r.removed then r.dirty else r.dirty.insert id

theorem get?_setDirty (r : Registry) (id x : ParamId) : (r.setDirty id).get? x = r.get? x := by
  rw [get?, parameters_setDirty, get?]

theorem reserved_setDirty (r : Registry) (id : ParamId) :
    (r.setDirty id).reserved = r.reserved := by
  unfold setDirty
  split <;> rfl

theorem dirty_setDirty_of_alive (hid : id ≠ .root) (hp : r.get? id = some p) :
    (r.setDirty id).dirty = if id ∈ r.removed then r.dirty else r.dirty.insert id := by
  by_cases hremoved : id ∈ r.removed
  · simp [setDirty, hremoved]
  · rw [Noted.dirty_setDirty hid hp hremoved, if_neg hremoved]

theorem get?_relink_here (hp : r.get? id = some p)
    (hm : r.relink? id (group.filter (!·.isRoot)) .here = some m) (x : ParamId) :
    m.get? x = (r.get? x).map fun q => { q with
      parent := if x = id then ⟨group.filter (!·.isRoot), true⟩ else q.parent
      children :=
        if x = p.home then q.children.erase id
        else if x = Parameter.target group then q.children.insert id
        else q.children } := by
  obtain ⟨p', hp', hne, rfl⟩ := relink?_eq_some hm
  rw [hp] at hp'
  cases hp'
  have htarget : (group.filter (!·.isRoot)).getD .root = Parameter.target group := rfl
  rw [htarget] at hne ⊢
  -- whatever members it has, the parameter is put into the group in the same way
  have hplace (children : IdSet) :
      Origin.here.place (group.filter (!·.isRoot)) { p with children } =
        { p with parent := ⟨group.filter (!·.isRoot), true⟩, children } := by
    have hgone : ({ p with children } : Parameter).home ≠
        Parameter.target (group.filter (!·.isRoot)) := by
      rw [Parameter.target_filter]
      exact hne
    rw [Origin.place, Parameter.setGroup_of_home_ne hgone, Option.filter_filter]
    simp
  have hmembers : ((r.modify p.home (·.eraseChild id)).modify (Parameter.target group)
      (·.insertChild id)).get? x = (r.get? x).map fun q => { q with
        children :=
          if x = p.home then q.children.erase id
          else if x = Parameter.target group then q.children.insert id
          else q.children } := by
    rw [get?_modify, get?_modify]
    by_cases hold : x = p.home
    · subst hold
      simp only [if_neg hne]
      rfl
    · by_cases hnew : x = Parameter.target group
      · simp only [if_neg hold, if_pos hnew]
        rfl
      · simp [hold, hnew]
  rw [get?_modify, hmembers]
  by_cases hx : x = id
  · subst hx
    rw [hp, if_pos rfl, Option.map_some, Option.map_some, Option.map_some, hplace, if_pos rfl]
  · simp only [if_neg hx]

/-- A move that finds the parameter elsewhere takes it from there. -/
theorem moves_of_relink (hid : id ≠ .root) (hp : r.get? id = some p)
    (hm : r.relink? id (group.filter (!·.isRoot)) .here = some m) :
    Moves r id p.home group (m.setDirty id) := by
  have hget := get?_relink_here hp hm
  obtain ⟨q, hq, -⟩ : ∃ q, m.get? id = some q ∧ True := by
    rw [hget, hp, Option.map_some]
    exact ⟨_, rfl, trivial⟩
  have hrest : m.reserved = r.reserved ∧ m.removed = r.removed ∧ m.dirty = r.dirty := by
    obtain ⟨_, -, -, rfl⟩ := relink?_eq_some hm
    exact ⟨rfl, rfl, rfl⟩
  obtain ⟨hreserved, hremoved, hdirty⟩ := hrest
  constructor
  · intro x
    rw [get?_setDirty, hget]
  · rw [reserved_setDirty, hreserved]
  · rw [removed_setDirty, hremoved]
  · rw [dirty_setDirty_of_alive hid hq, hremoved, hdirty]

namespace Forest

/-- A move that succeeds leaves the parameter in the group. Either it was there and nothing
happened, or it came from the group where it was. -/
theorem moves_of_move (h : Forest r) (hm : r.move id group = .ok m) :
    m.home? id = some (Parameter.target group) ∧
      (r.home? id = some (Parameter.target group) → m = r) ∧
      ∀ old, r.home? id = some old → old ≠ Parameter.target group → Moves r id old group m := by
  obtain ⟨hid, ⟨p, hp⟩, -, ⟨hnone, rfl⟩ | ⟨moved, hmoved, rfl⟩⟩ := move_ok hm
  · have hhome : m.home? id = some (Parameter.target group) := by
      rw [home?_of_get? hp, relink?_eq_none hnone hp]
      rfl
    refine ⟨hhome, fun _ => rfl, fun old hold hne => ?_⟩
    rw [hhome] at hold
    exact absurd (Option.some.inj hold).symm hne
  · have hmoves := moves_of_relink hid hp hmoved
    have hhome : moved.home? id = some (Parameter.target group) := by
      rw [home?_relink hmoved rfl, if_pos rfl, Parameter.target_filter]
    refine ⟨?_, fun hthere => ?_, fun old hold _ => ?_⟩
    · rw [home?, get?_setDirty]
      exact hhome
    · obtain ⟨q, hq, hne, -⟩ := relink?_eq_some hmoved
      rw [home?_of_get? hq] at hthere
      exact absurd (Option.some.inj hthere) hne
    · rw [home?_of_get? hp, Option.some.injEq] at hold
      exact hold ▸ hmoves

end Forest

/-- A move succeeds exactly if the parameter is there and the group can be gone to; it fails for the
reasons there are and changes nothing then, and for a cycle exactly if the group is in the subtree
of the parameter. Where it succeeds the parameter is in the group, and nothing but the link
changed. -/
theorem Reachable.move_exact (hr : Reachable (fun _ op => op.Childless) r) (id : ParamId)
    (group : Option ParamId) :
    ((∃ m, r.move id group = .ok m) ↔ r.contains id = true ∧ r.Admits id group) ∧
    (∀ e, r.move id group = .error e ↔ r.Refuses id group e) ∧
    (∀ e, r.move id group = .error e → r.perform (.move id group) = r) ∧
    (r.move id group = .error (.cycle id) ↔
      r.contains id = true ∧ ∃ g, group = some g ∧ r.isGroup g = true ∧ r.InSubtree id g) ∧
    ∀ m, r.move id group = .ok m →
      m.home? id = some (Parameter.target group) ∧
      (r.home? id = some (Parameter.target group) → m = r) ∧
      ∀ old, r.home? id = some old → old ≠ Parameter.target group → Moves r id old group m := by
  have h : Forest r := hr.forest fun _ _ hop => hop
  refine ⟨h.move_iff.1, h.move_iff.2, fun e he => ?_, ?_, fun m => h.moves_of_move⟩
  · rw [perform, he]
    rfl
  · rw [h.move_iff.2]
    constructor
    · rintro (_ | _ | _ | _ | ⟨hid, hgroup, hsub⟩)
      exact ⟨hid, _, rfl, hgroup, hsub⟩
    · rintro ⟨hid, g, rfl, hgroup, hsub⟩
      exact .cycle hid hgroup hsub

/-- Two groups, one in the other, and a switch in the inner one. -/
def cellarRun : List Op :=
  [.createGroup none, .createGroup (some ⟨1⟩), .create (.boolean {}) (some ⟨2⟩)]

/-- The switch can be put into the outer group, which cannot be put into the inner one. -/
theorem move_exact_cellar :
    (∃ m, (Registry.new.performAll cellarRun).move ⟨3⟩ (some ⟨1⟩) = .ok m ∧
      Moves (Registry.new.performAll cellarRun) ⟨3⟩ ⟨2⟩ (some ⟨1⟩) m) ∧
    (Registry.new.performAll cellarRun).move ⟨1⟩ (some ⟨2⟩) = .error (.cycle ⟨1⟩) ∧
    (Registry.new.performAll cellarRun).InSubtree ⟨1⟩ ⟨2⟩ := by
  have hr : Reachable (fun _ op => op.Childless) (Registry.new.performAll cellarRun) :=
    Reachable.performAll .new (by simp [cellarRun, Op.Childless])
  obtain ⟨-, -, -, -, hmoves⟩ := hr.move_exact ⟨3⟩ (some ⟨1⟩)
  obtain ⟨-, -, -, hcycle, -⟩ := hr.move_exact ⟨1⟩ (some ⟨2⟩)
  obtain ⟨-, g, hg, -, hsub⟩ := hcycle.1 rfl
  cases hg
  exact ⟨⟨_, rfl, (hmoves _ rfl).2.2 ⟨2⟩ rfl (by decide)⟩, rfl, hsub⟩

end Registry
end ParamSync
