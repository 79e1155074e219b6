import ParamSync.Proofs.Codec.Packet
import ParamSync.Proofs.Registry.Changes
import ParamSync.Proofs.Registry.Merging

/-!
# What a tick does to a mirror

A tick tells of the dirty parameters in ascending order, and a mirror merges what it is told one by
one. When the packet of a parameter comes, those before it are where the one registry has them and
all others where the mirror had them; the parameter gets to its group exactly if in this mixture the
group is there and is not below the parameter. Nothing else moves it, so one packet that comes too
early is not made good by a later one.

Results:
* `Hears.home?_next`: where a packet puts its parameter.
* `Hears.rest`: from any packet on, the rest is right exactly if every packet comes in time.
* `tick_reproduces_iff`: the mirror has the tree exactly if every packet comes in time.
* `tick_misplaces_member`: a member whose group has the greater identifier ends up at the root.
-/

namespace ParamSync
namespace Registry

variable {s r m : Registry} {x g : ParamId}

/-! ## Hearing -/

/-- Takes over the parameter of a message, if it has one. -/
def hear (r : Registry) (data : Bytes) : Registry :=
  match Packet.ofBytes data with
  | .ok (some packet) => (packet.parameter?.map fun p => r.perform (.merge p)).getD r
  | _ => r

/-- Takes over the parameters of some messages in their order. -/
def hearAll (r : Registry) (messages : List Bytes) : Registry := messages.foldl hear r

theorem hearAll_encodeUpdate {ps : List Parameter} {all : Bool} (h : ∀ p ∈ ps, p.Legible all)
    (m : Registry) :
    m.hearAll (ps.map (Packet.encodeUpdate · all)) =
      m.performAll (ps.map fun p => .merge (p.heard all)) := by
  induction ps generalizing m with
  | nil => rfl
  | cons p ps ih =>
    obtain ⟨hp, hps⟩ := List.forall_mem_cons.1 h
    have hhear : m.hear (Packet.encodeUpdate p all) = m.perform (.merge (p.heard all)) := by
      rw [hear, Packet.ofBytes_encodeUpdate hp]
      rfl
    rw [List.map_cons, hearAll, List.foldl_cons, hhear]
    exact ih hps _

/-! ## In the middle of a tick -/

/-- The same parameters, by identifier and datatype, in the same groups. -/
def SameTree (s m : Registry) : Prop :=
  ∀ x, (m.get? x).map (fun p => (p.datatype, p.home)) =
    (s.get? x).map (fun p => (p.datatype, p.home))

/-- Who is where when the packet of `x` comes: those before it where `r` has them, all others where
they were in `s`. -/
def midway (s r : Registry) (x y : ParamId) : Option ParamId :=
  if compare y x = .lt then r.home? y else s.home? y

/-- The packet of `x` comes when its group is there and is not below `x`. -/
def InTime (s r : Registry) (x : ParamId) : Prop :=
  ∀ g, r.home? x = some g → g ≠ .root →
    (midway s r x g).isSome = true ∧ ¬ Passes (midway s r x) x g

/-- A mirror of `s` that has heard of some changes since, and has got all of them right. -/
structure Hears (s r : Registry) (told : List ParamId) (m : Registry) : Prop where
  forest : Forest m
  home : ∀ y, m.home? y = if y ∈ told then r.home? y else s.home? y
  datatype : ∀ {y p q}, m.get? y = some p → r.get? y = some q → p.datatype = q.datatype

/-- A mirror that has heard nothing yet. -/
theorem Hears.start (hforest : Forest m) (hsame : SameTree s m) (hsince : Since s r) :
    Hears s r [] m where
  forest := hforest
  home := by
    intro y
    have := congrArg (Option.map (·.2)) (hsame y)
    rwa [Option.map_map, Option.map_map] at this
  datatype := by
    intro y p q hp hq
    obtain ⟨p', hp', heq⟩ := exists_of_map_eq (hsame y).symm hp
    obtain ⟨q', hq', hdatatype, -⟩ := hsince.known hp'
    rw [hq, Option.some.injEq] at hq'
    rw [hq', hdatatype]
    exact (congrArg (·.1) heq).symm

theorem midway_self (s r : Registry) (x : ParamId) : midway s r x x = s.home? x := by
  have hx : compare x x = .eq := Std.ReflCmp.compare_self
  rw [midway, if_neg (by rw [hx]; decide)]

/-- What the packet of a parameter says of its group. -/
theorem parent_heard_false (p : Parameter) :
    (p.heard false).parent.value = if p.parent.changed then some p.home else none := by
  have hhome : p.parent.value.getD .root = p.home := by
    rw [Parameter.home, Parameter.group?]
    cases p.parent.value with
    | none => rfl
    | some g => exact (target_some g).symm
  exact (Field.value_heard_false p.parent .root).trans (by rw [hhome])

section Next

variable {told : List ParamId} {p : Parameter} (h : Hears s r told m)
include h

/-- A group that the mirror knows is a group there. -/
theorem Hears.isGroup_iff (hsettled : r.Settled p) :
    m.isGroup p.home = true ↔ ∃ g, m.home? p.home = some g := by
  constructor
  · intro hgroup
    obtain ⟨q, hq, -⟩ := isGroup_eq_true_iff.1 hgroup
    exact ⟨_, home?_of_get? hq⟩
  · rintro ⟨g, hg⟩
    obtain ⟨q, hq, -⟩ := home?_eq_some_iff.1 hg
    obtain ⟨q', hq', hgroup⟩ := isGroup_eq_true_iff.1 hsettled.group
    have hsame : q.isGroup = q'.isGroup := TypeDef.isGroup_eq_of_datatype_eq (h.datatype hq hq')
    exact isGroup_eq_true_iff.2 ⟨q, hq, hsame.trans hgroup⟩

/-- Who is in its group already can go there. -/
theorem Hears.reaches_of_home (hid : p.id ≠ .root) (hhome : m.home? p.id = some p.home) :
    (∃ g, m.home? p.home = some g) ∧ ¬ Passes m.home? p.id p.home := by
  obtain ⟨g, hg⟩ := h.forest.home_alive hhome
  exact ⟨⟨g, hg⟩, fun hpass =>
    not_above_home hid hhome ((h.forest.above_iff_passes hid hg).2 hpass)⟩

/-- A parameter that is new gets into its group exactly if the mirror has the group. -/
theorem Hears.home?_next_of_new (hid : p.id ≠ .root) (hsettled : r.Settled p)
    (hq : m.get? p.id = none) (hroot : p.parent.changed = false → p.home = .root) :
    (m.perform (.merge (p.heard false))).home? p.id = some p.home ↔
      (p.home ≠ .root → (∃ g, m.home? p.home = some g) ∧ ¬ Passes m.home? p.id p.home) := by
  have hheard := parent_heard_false p
  -- nobody has the new one above
  have hpass : ∀ g, m.home? p.home = some g → ¬ Passes m.home? p.id p.home := by
    intro g hg hpass
    obtain ⟨l, hl, hmem⟩ := (h.forest.above_iff_passes hid hg).2 hpass
    obtain ⟨-, g', hg'⟩ := hl.alive_of_mem hmem
    rw [home?, hq] at hg'
    cases hg'
  have hmerge := home?_merge_new (p.heard false) hid hq
  rw [Parameter.id_heard] at hmerge
  rw [hmerge, Option.some.injEq, Parameter.group?, hheard]
  cases hchanged : p.parent.changed with
  | false => simp [hroot hchanged]
  | true =>
    by_cases hhome : p.home = .root
    · rw [if_pos rfl, filter_isRoot, if_pos hhome]
      simp [hhome]
    · rw [if_pos rfl, filter_isRoot, if_neg hhome, Option.filter_some]
      by_cases hgroup : m.isGroup p.home = true
      · obtain ⟨g, hg⟩ := (h.isGroup_iff hsettled).1 hgroup
        rw [if_pos hgroup]
        exact iff_of_true rfl fun _ => ⟨⟨g, hg⟩, hpass g hg⟩
      · rw [if_neg hgroup]
        refine iff_of_false (fun heq => hhome heq.symm) fun hreach => ?_
        exact hgroup ((h.isGroup_iff hsettled).2 (hreach hhome).1)

/-- A parameter that is known gets into the group that it names exactly if the mirror has the group,
and not below the parameter. -/
theorem Hears.home?_next_of_moved (hid : p.id ≠ .root) (hsettled : r.Settled p) {q : Parameter}
    (hq : m.get? p.id = some q) (hdatatype : q.datatype = (p.heard false).datatype)
    (hchanged : p.parent.changed = true) :
    (m.perform (.merge (p.heard false))).home? p.id = some p.home ↔
      (p.home ≠ .root → (∃ g, m.home? p.home = some g) ∧ ¬ Passes m.home? p.id p.home) := by
  have hheard := parent_heard_false p
  rw [hchanged] at hheard
  have hmerge := h.forest.home?_merge_known (p.heard false) hid hq hdatatype hheard
  rw [Parameter.id_heard] at hmerge
  rw [hmerge]
  constructor
  · rintro (hstay | hroot | ⟨hgroup, habove⟩) hne
    · exact h.reaches_of_home hid hstay
    · exact absurd hroot hne
    · obtain ⟨g, hg⟩ := (h.isGroup_iff hsettled).1 hgroup
      exact ⟨⟨g, hg⟩, fun hpass => habove ((h.forest.above_iff_passes hid hg).2 hpass)⟩
  · intro hreach
    by_cases hroot : p.home = .root
    · exact .inr (.inl hroot)
    · obtain ⟨⟨g, hg⟩, hpass⟩ := hreach hroot
      refine .inr (.inr ⟨(h.isGroup_iff hsettled).2 ⟨g, hg⟩, fun habove => ?_⟩)
      exact hpass ((h.forest.above_iff_passes hid hg).1 habove)

/-- A packet puts its parameter into its group exactly if the mirror has the group, and not below
the parameter. -/
theorem Hears.home?_next (hsince : Since s r) (hid : p.id ≠ .root) (hp : r.get? p.id = some p)
    (hsettled : r.Settled p) (hself : m.home? p.id = s.home? p.id) :
    (m.perform (.merge (p.heard false))).home? p.id = some p.home ↔
      (p.home ≠ .root → (∃ g, m.home? p.home = some g) ∧ ¬ Passes m.home? p.id p.home) := by
  cases hq : m.get? p.id with
  | none =>
    have hnone : s.get? p.id = none := by
      rw [← home?_eq_none_iff, ← hself, home?_eq_none_iff, hq]
    exact h.home?_next_of_new hid hsettled hq (hsince.new hnone hp)
  | some q =>
    have hdatatype : q.datatype = (p.heard false).datatype :=
      (h.datatype hq hp).trans (p.datatype_heard false).symm
    cases hchanged : p.parent.changed with
    | true => exact h.home?_next_of_moved hid hsettled hq hdatatype hchanged
    | false =>
      -- it was not moved, so it names no group and stays where it is
      have hheard := parent_heard_false p
      rw [hchanged] at hheard
      have hmerge := home?_merge_silent (p.heard false) hid hq hdatatype hheard
      rw [Parameter.id_heard] at hmerge
      obtain ⟨p₀, hp₀, hhome⟩ := home?_eq_some_iff.1 (hself.symm.trans (home?_of_get? hq))
      obtain ⟨p', hp', -, hsame⟩ := hsince.known hp₀
      rw [hp, Option.some.injEq] at hp'
      subst hp'
      have hstay : m.home? p.id = some p.home := by
        rw [home?_of_get? hq, ← hhome, hsame hchanged]
      rw [hmerge]
      exact iff_of_true hstay fun _ => h.reaches_of_home hid hstay

/-- A mirror that has heard one more packet, and has got it right. -/
theorem Hears.next (hid : p.id ≠ .root) (hp : r.get? p.id = some p)
    (hright : (m.perform (.merge (p.heard false))).home? p.id = some p.home) :
    Hears s r (told ++ [p.id]) (m.perform (.merge (p.heard false))) where
  forest := h.forest.perform _ rfl
  home := by
    intro y
    by_cases hy : y = p.id
    · rw [hy, hright, if_pos (by simp), home?_of_get? hp]
    · rw [home?_merge_other (p.heard false) hy, h.home]
      simp [hy]
  datatype := by
    intro y q q' hq hq'
    have hd : ∀ p₀, m.get? p.id = some p₀ → p₀.datatype = (p.heard false).datatype := fun p₀ hp₀ =>
      (h.datatype hp₀ hp).trans (p.datatype_heard false).symm
    have hcontent := content_merge (p.heard false) hid hd y
    rw [Parameter.id_heard] at hcontent
    by_cases hy : y = p.id
    · subst hy
      rw [hp, Option.some.injEq] at hq'
      rw [hq, if_pos rfl, Option.map_some, Option.some.injEq] at hcontent
      refine (Parameter.datatype_of_content_eq hcontent).trans ?_
      rw [← hq', ← p.datatype_heard false]
      cases hp₀ : m.get? p.id with
      | none => rfl
      | some p₀ => exact (TypeDef.datatype_merge _ _).trans (hd p₀ hp₀)
    · rw [if_neg hy] at hcontent
      obtain ⟨p₀, hp₀, heq⟩ := exists_of_map_eq hcontent.symm hq
      rw [← Parameter.datatype_of_content_eq heq, h.datatype hp₀ hq']

end Next

/-! ## A whole tick -/

/-- When its packet comes, everybody is where `midway` has them. -/
theorem Hears.home?_eq_midway {told rest : List ParamId} (h : Hears s r told m)
    (hsince : Since s r) (hsplit : r.dirty.toList = told ++ x :: rest) (y : ParamId) :
    m.home? y = midway s r x y := by
  have hsorted := pairwise_lt_toList r.dirty
  rw [hsplit, List.pairwise_append, List.pairwise_cons] at hsorted
  obtain ⟨-, ⟨hrest, -⟩, htold⟩ := hsorted
  rw [h.home, midway]
  by_cases hy : y ∈ told
  · rw [if_pos hy, if_pos (htold y hy x List.mem_cons_self)]
  · rw [if_neg hy]
    split
    · next hlt =>
      -- whoever comes before and has not been told of was not changed
      refine (hsince.told fun hdirty => ?_).symm
      rw [← Std.ExtTreeSet.mem_toList, hsplit, List.mem_append, List.mem_cons] at hdirty
      rcases hdirty with hmem | rfl | hmem
      · exact hy hmem
      · have hself : compare y y = .eq := Std.ReflCmp.compare_self
        rw [hself] at hlt
        cases hlt
      · have hgt := hrest y hmem
        have hswap : compare x y = (compare y x).swap := Std.OrientedCmp.eq_swap
        rw [hswap, hlt] at hgt
        cases hgt
    · rfl

/-- The packets move nobody whom they do not bring. -/
theorem home?_performAll_other {ps : List Parameter} {all : Bool} (hx : ∀ p ∈ ps, p.id ≠ x)
    (m : Registry) :
    (m.performAll (ps.map fun p => .merge (p.heard all))).home? x = m.home? x := by
  induction ps generalizing m with
  | nil => rfl
  | cons p ps ih =>
    obtain ⟨hp, hps⟩ := List.forall_mem_cons.1 hx
    exact (ih hps _).trans (home?_merge_other (p.heard all) (Ne.symm hp))

/-- From the middle of a tick on, everybody who is still to be told of gets to its group exactly if
all of their packets come in time. -/
theorem Hears.rest {told ids : List ParamId} (h : Hears s r told m) (hsince : Since s r)
    (hforest : Forest r) (horderly : Orderly r) (hsplit : r.dirty.toList = told ++ ids) :
    (∀ x ∈ ids, (m.performAll
        ((ids.filterMap r.get?).map fun p => .merge (p.heard false))).home? x = r.home? x) ↔
      ∀ x ∈ ids, InTime s r x := by
  induction ids generalizing told m with
  | nil => simp
  | cons x ids ih =>
    have hmem : x ∈ r.dirty := by
      rw [← Std.ExtTreeSet.mem_toList, hsplit]
      simp
    obtain ⟨hid, p, hp⟩ := hsince.alive hmem
    obtain rfl := hforest.keyed hp
    have hmidway := h.home?_eq_midway hsince hsplit
    have hstep := h.home?_next hsince hid hp (horderly.settled hid hp)
      ((hmidway p.id).trans (midway_self s r p.id))
    have htime : InTime s r p.id ↔
        (p.home ≠ .root → (∃ g, m.home? p.home = some g) ∧ ¬ Passes m.home? p.id p.home) := by
      rw [InTime, funext hmidway]
      simp [home?_of_get? hp, Option.isSome_iff_exists]
    rw [← htime] at hstep
    -- the packets after it do not move it
    have hnodup := nodup_toList r.dirty
    rw [hsplit, List.nodup_append, List.nodup_cons] at hnodup
    have hlater : ∀ q ∈ ids.filterMap r.get?, q.id ≠ p.id := by
      intro q hq heq
      obtain ⟨y, hy, hget⟩ := List.mem_filterMap.1 hq
      rw [← hforest.keyed hget, heq] at hy
      exact hnodup.2.1.1 hy
    rw [List.filterMap_cons_some hp, List.map_cons, List.forall_mem_cons, List.forall_mem_cons,
      performAll, List.foldl_cons, ← performAll, home?_performAll_other hlater, home?_of_get? hp,
      hstep]
    refine and_congr_right fun hin => ?_
    exact ih (h.next hid hp (hstep.2 hin)) (by rw [hsplit, List.append_assoc]; rfl)

/-- After one tick a mirror has the tree exactly if every packet comes in time. Language codes are
letters; of that it is needed that none that is sent begins with the byte of the terminator, as such
a code would end its packet early. -/
theorem tick_reproduces_iff {ops : List Op}
    (hs : Reachable (fun _ => Op.Legal) s)
    (hm : Reachable (fun _ => Op.Legal) m)
    (hsame : SameTree s m) (hdirty : s.dirty = ∅) (hremoved : s.removed = ∅)
    (hops : ∀ op ∈ ops, op.Builds)
    (htexts : ∀ p ∈ (s.performAll ops).unsent, (p.label.changed = true → p.label.Legible) ∧
      (p.description.changed = true → p.description.Legible)) :
    (∀ x, (m.hearAll (s.performAll ops).encodeDirty.1).home? x = (s.performAll ops).home? x) ↔
      ∀ x ∈ (s.performAll ops).dirty, InTime s (s.performAll ops) x := by
  have hsince := (Since.refl hdirty hremoved).performAll (hs.orderly).1 hops
  have hs' : Reachable (fun _ => Op.Legal) (s.performAll ops) :=
    hs.performAll fun op hop _ => (hops op hop).legal
  obtain ⟨hforest, horderly⟩ := hs'.orderly
  have hlegible : ∀ p ∈ (s.performAll ops).unsent, p.Legible false := by
    intro p hp
    obtain ⟨hdirty, hget⟩ := mem_unsent hforest.keyed hp
    obtain ⟨hroot, -⟩ := hsince.alive hdirty
    exact ⟨(horderly.settled hroot hget).wellFormed, (htexts p hp).1, (htexts p hp).2⟩
  have hstart := Hears.start (hm.orderly).1 hsame hsince
  have hrest := hstart.rest hsince hforest horderly (List.nil_append _).symm
  simp only [Std.ExtTreeSet.mem_toList] at hrest
  rw [encodeDirty_eq_map, hearAll_encodeUpdate hlegible, ← hrest]
  refine ⟨fun hall x _ => hall x, fun hall x => ?_⟩
  by_cases hx : x ∈ (s.performAll ops).dirty
  · exact hall x hx
  · -- who is not dirty was not changed, and nobody has told of it
    have hother : ∀ p ∈ (s.performAll ops).unsent, p.id ≠ x := by
      intro p hp heq
      exact hx (heq ▸ (mem_unsent hforest.keyed hp).1)
    rw [home?_performAll_other hother, hstart.home, hsince.told hx]
    rfl

/-- A group, and a flag in it. -/
def groupFirst : List Op := [.createGroup none, .create (.boolean {}) (some ⟨1⟩)]

theorem tick_reproduces_groupFirst :
    (∀ x, (Registry.new.hearAll (Registry.new.performAll groupFirst).encodeDirty.1).home? x =
        (Registry.new.performAll groupFirst).home? x) ∧
      (Registry.new.performAll groupFirst).home? ⟨2⟩ = some ⟨1⟩ := by
  refine ⟨(tick_reproduces_iff .new .new (fun _ => rfl) rfl rfl ?_ ?_).2 fun x hx => ?_, rfl⟩
  · simp [groupFirst, Op.Builds, TypeDef.WellFormed]
  · have htexts : (Registry.new.performAll groupFirst).unsent.all
        (fun p => !p.label.changed && !p.description.changed) = true := rfl
    intro p hp
    have hp' := List.all_eq_true.1 htexts p hp
    simp_all
  · have hdirty : (Registry.new.performAll groupFirst).dirty.toList = [⟨1⟩, ⟨2⟩] := rfl
    rw [← Std.ExtTreeSet.mem_toList, hdirty] at hx
    simp only [List.mem_cons, List.not_mem_nil, or_false] at hx
    rcases hx with rfl | rfl
    · rintro g ⟨⟩ hg
      exact absurd rfl hg
    · rintro g ⟨⟩ -
      refine ⟨rfl, fun hpass => ?_⟩
      cases hpass with
      | up _ hhome hpass =>
        cases hhome
        cases hpass with
        | up hroot _ _ => exact hroot rfl

/-- A flag, and a group that it is put into. -/
def groupLast : List Op :=
  [.create (.boolean {}) none, .createGroup none, .move ⟨1⟩ (some ⟨2⟩)]

/-- The flag has the lesser identifier, so it comes when nobody knows its group. -/
theorem tick_misplaces_member :
    SameTree .new .new ∧ (∀ op ∈ groupLast, op.Builds) ∧
      (Registry.new.performAll groupLast).home? ⟨1⟩ = some ⟨2⟩ ∧
      (Registry.new.hearAll (Registry.new.performAll groupLast).encodeDirty.1).home? ⟨1⟩ =
        some .root := by
  refine ⟨fun _ => rfl, by simp [groupLast, Op.Builds, TypeDef.WellFormed], rfl, ?_⟩
  have hlegible : ∀ p ∈ (Registry.new.performAll groupLast).unsent, p.Legible false := by
    have hplain : (Registry.new.performAll groupLast).unsent.all (fun p => p.datatype != .enum &&
        p.datatype != .range && p.datatype != .custom && !p.label.changed &&
        !p.description.changed) = true := rfl
    intro p hp
    have hp' := List.all_eq_true.1 hplain p hp
    simp only [Bool.and_eq_true, bne_iff_ne, Bool.not_eq_true'] at hp'
    obtain ⟨⟨⟨⟨henum, hrange⟩, hcustom⟩, hlabel⟩, hdescription⟩ := hp'
    exact ⟨TypeDef.wellFormed_of_ne henum hrange hcustom, by simp [hlabel], by simp [hdescription]⟩
  rw [encodeDirty_eq_map, hearAll_encodeUpdate hlegible]
  rfl

end Registry
end ParamSync
