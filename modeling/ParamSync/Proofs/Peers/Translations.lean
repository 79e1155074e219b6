import ParamSync.Proofs.Codec.Incoming
import ParamSync.Proofs.Codec.Translations
import ParamSync.Proofs.Peers.Removal
import ParamSync.Proofs.Registry.Backlog
import ParamSync.Proofs.Registry.Ledger

/-!
# Labels and descriptions reach a client

A server changes labels and descriptions and ticks; a client polls. What the client has of the texts
of a parameter is then what it had with what the server has over it. So it has what the server has
exactly if no text that was there was taken away; one that was taken away stays with the client.

Results:
* `Registry.Retexted.performAll`: what changes of texts leave.
* `Registry.Retexted.overlay_afterTick`: what a mirror has once it was told of them.
* `Server.OnNetwork.texts_after_tick`: what the client has of the texts.
* `Server.OnNetwork.translation_stays`: a translation that is removed stays with the client.
-/

namespace ParamSync

open Network (Linked)
open Registry (Op Reachable)

/-! ## Texts of a parameter -/

namespace Parameter

variable {p p' : Parameter}

/-- A change of the label or of the description with a text that fits. -/
def Access.Retexts : Access → Prop
  | .edit (.label change) => change.Fits .tiny
  | .edit (.description change) => change.Fits .short
  | _ => False

theorem Access.Retexts.keepsDefinition {change : Edit} (h : (Access.edit change).Retexts) :
    change.KeepsDefinition := by
  cases change with
  | label | description => trivial
  | _ => exact h.elim

/-- Some changes of the label and of the description made `p'` out of `p`. -/
structure Retexted (p p' : Parameter) : Prop where
  id : p'.id = p.id
  definition : p'.definition = p.definition
  label : p.label.Follows .tiny p'.label
  description : p.description.Follows .short p'.description

theorem Retexted.refl (p : Parameter) : p.Retexted p := ⟨rfl, rfl, .refl _ _, .refl _ _⟩

theorem Retexted.access (h : p.Retexted p') {a : Access} (ha : a.Retexts) :
    p.Retexted (p'.access a) := by
  cases a with
  | write all => exact ha.elim
  | edit change =>
    cases change with
    | label change => exact ⟨h.id, h.definition, h.label.edit ha, h.description⟩
    | description change => exact ⟨h.id, h.definition, h.label, h.description.edit ha⟩
    | _ => exact ha.elim

theorem Retexted.accessAll (h : p.Retexted p') {accesses : List Access}
    (haccesses : ∀ a ∈ accesses, a.Retexts) : p.Retexted (p'.accessAll accesses) := by
  induction accesses generalizing p' with
  | nil => exact h
  | cons a rest ih =>
    obtain ⟨ha, hrest⟩ := List.forall_mem_cons.1 haccesses
    exact ih (h.access ha) hrest

/-- A parameter with nothing to tell has the texts that it had. -/
theorem Retexted.same (h : p.Retexted p') (hquiet : p'.hasChanges = false) :
    p'.label = p.label ∧ p'.description = p.description := by
  obtain ⟨-, hlabel, hdescription, -⟩ := hasChanges_eq_false_iff.1 hquiet
  exact ⟨h.label.same hlabel, h.description.same hdescription⟩

theorem Retexted.legible (h : p.Retexted p') (hp : p.Legible true) (all : Bool) :
    p'.Legible all where
  definition := h.definition ▸ hp.definition
  label _ := h.label.legible (hp.label rfl)
  description _ := h.description.legible (hp.description rfl)

/-- The same datatype and the same texts. -/
structure SameTexts (p q : Parameter) : Prop where
  datatype : q.datatype = p.datatype
  label : p.label.SameTexts q.label
  description : p.description.SameTexts q.description

theorem SameTexts.mirrored (p : Parameter) : p.SameTexts p.mirrored :=
  ⟨p.definition.datatype_sent, ⟨rfl, fun _ => rfl⟩, ⟨rfl, fun _ => rfl⟩⟩

/-- Nothing is lost of the texts on the way. -/
structure TextsFit (p : Parameter) : Prop where
  label : p.label.Lossless .tiny
  description : p.description.Lossless .short

/-- The texts of `q'` are those of `p` with those of `p'` over them. -/
structure Overlay (p p' q' : Parameter) : Prop where
  label : p.label.Overlay p'.label q'.label
  description : p.description.Overlay p'.description q'.description

theorem Overlay.sent {q' : Parameter} (h : p.Overlay p' q') : p.Overlay p'.sent q' :=
  ⟨h.label.sent, h.description.sent⟩

/-- The place of a parameter has nothing to do with its texts. -/
theorem Overlay.of_content_eq {q q' : Parameter} (h : p.Overlay p' q)
    (hcontent : q.content = q'.content) : p.Overlay p' q' where
  label := by
    have hlabel := congrArg Parameter.label hcontent
    exact ⟨hlabel ▸ h.label.text, hlabel ▸ h.label.language⟩
  description := by
    have hdescription := congrArg Parameter.description hcontent
    exact ⟨hdescription ▸ h.description.text, hdescription ▸ h.description.language⟩

/-- A reader that had the same texts has put over them those of `p'` after a delta. -/
theorem Retexted.overlay_merge (h : p.Retexted p') (hfit : p.TextsFit) {q : Parameter}
    (hsame : p.SameTexts q) : p.Overlay p' (q.merge (p'.heard false)) :=
  ⟨h.label.overlay_merge hfit.label hsame.label,
    h.description.overlay_merge hfit.description hsame.description⟩

end Parameter

/-! ## Texts in a registry -/

namespace Registry

variable {s r m : Registry} {x : ParamId} {p q : Parameter}

/-- An operation that changes the texts of one parameter. -/
def Op.Retexts : Op → Prop
  | .edit _ accesses => ∀ a ∈ accesses, a.Retexts
  | _ => False

theorem Op.Retexts.legal {op : Op} (h : op.Retexts) : op.Legal := by
  cases op with
  | edit y accesses => exact ⟨trivial, fun change hmem => (h _ hmem).keepsDefinition⟩
  | _ => exact h.elim

/-- Changes of texts made `r` out of `s`. Whoever is not dirty has the texts that it had, unless its
removal is to be told. -/
structure Retexted (s r : Registry) : Prop where
  removed : r.removed = s.removed
  known : ∀ x p, x ≠ .root → s.get? x = some p → ∃ p', r.get? x = some p' ∧ p.Retexted p' ∧
    (x ∉ s.removed → x ∉ r.dirty → p'.label = p.label ∧ p'.description = p.description)
  unknown : ∀ x, s.get? x = none → r.get? x = none
  root : r.get? .root = s.get? .root

theorem Retexted.refl (s : Registry) : Retexted s s where
  removed := rfl
  known _ p _ hp := ⟨p, hp, .refl p, fun _ _ => ⟨rfl, rfl⟩⟩
  unknown _ h := h
  root := rfl

theorem Retexted.perform (h : Retexted s r) (hkeyed : s.Keyed) {op : Op} (hop : op.Retexts) :
    Retexted s (r.perform op) := by
  cases op with
  | edit y accesses =>
    by_cases hroot : y = .root
    · subst hroot
      exact h
    refine ⟨(removed_edit accesses).trans h.removed, fun x p hx hp => ?_, fun x hnone => ?_,
      (get?_edit_other accesses (Ne.symm hroot)).trans h.root⟩
    · obtain ⟨p', hp', hretexted, hsame⟩ := h.known x p hx hp
      by_cases hxy : x = y
      · subst hxy
        have hafter := hretexted.accessAll hop
        refine ⟨_, by rw [get?_edit accesses hx, hp']; rfl, hafter, fun hremoved hdirty => ?_⟩
        refine hafter.same (Bool.eq_false_iff.2 fun hchanges => hdirty ?_)
        exact mem_dirty_of_hasChanges hx hp' (hretexted.id.trans (hkeyed hp))
          (h.removed ▸ hremoved) hchanges
      · exact ⟨p', (get?_edit_other accesses hxy).trans hp', hretexted, fun hremoved hdirty =>
          hsame hremoved fun hmem => hdirty (mem_dirty_edit accesses hmem)⟩
    · by_cases hxy : x = y
      · subst hxy
        rw [get?_edit accesses hroot, h.unknown x hnone]
        rfl
      · exact (get?_edit_other accesses hxy).trans (h.unknown x hnone)
  | _ => exact hop.elim

/-- What changes of texts leave, one after the other. -/
theorem Retexted.performAll (h : Retexted s r) (hkeyed : s.Keyed) {ops : List Op}
    (hops : ∀ op ∈ ops, op.Retexts) : Retexted s (r.performAll ops) := by
  induction ops generalizing r with
  | nil => exact h
  | cons op ops ih =>
    obtain ⟨hop, hops⟩ := List.forall_mem_cons.1 hops
    exact ih (h.perform hkeyed hop) hops

/-- Texts that could be read still can be. -/
theorem Retexted.legible (h : Retexted s r) (hs : Orderly s) (hr : r.Keyed)
    (hlegible : ∀ y p, y ≠ .root → s.get? y = some p → p.Legible true) {p : Parameter}
    (hp : p ∈ r.unsent) : p.Legible false := by
  obtain ⟨-, hget⟩ := mem_unsent hr hp
  by_cases hroot : p.id = .root
  · obtain ⟨children, hfresh⟩ := hs.root
    rw [hroot, h.root, hfresh, Option.some.injEq] at hget
    subst hget
    exact ⟨trivial, nofun, nofun⟩
  · cases hp₀ : s.get? p.id with
    | none =>
      rw [h.unknown _ hp₀] at hget
      cases hget
    | some p₀ =>
      obtain ⟨p', hp', hretexted, -⟩ := h.known _ p₀ hroot hp₀
      rw [hget, Option.some.injEq] at hp'
      subst hp'
      exact hretexted.legible (hlegible _ p₀ hroot hp₀) false

/-- A mirror with the same texts of a parameter has put over them, after a tick, those that have
been changed since. -/
theorem Retexted.overlay_afterTick (h : Retexted s r) (hr : Forest r) (hledger : Ledger r)
    (hm : Forest m) (hx : x ≠ .root) (hp : s.get? x = some p) (hq : m.get? x = some q)
    (hsame : p.SameTexts q) (hfit : p.TextsFit) (hstays : ∀ i ∈ s.removed, ¬ Above m i x)
    {p' : Parameter} (hp' : r.get? x = some p') :
    ∃ q', (m.afterTick r).get? x = some q' ∧ p.Overlay p' q' := by
  obtain ⟨p'', hp'', hretexted, hquiet⟩ := h.known x p hx hp
  rw [hp', Option.some.injEq] at hp''
  subst hp''
  have hdatatype : q.datatype = p'.datatype :=
    hsame.datatype.trans (congrArg TypeDef.datatype hretexted.definition).symm
  have halive : ∀ y ∈ r.dirty, ∃ p, r.get? y = some p := fun y hy =>
    Option.ne_none_iff_exists'.1 (contains_iff_ne_root.1 (hledger.dirty y hy)).2
  have hafter := content_afterTick hm hr halive hx hq hp' hdatatype (h.removed ▸ hstays)
  obtain ⟨q', hq', hcontent⟩ := Option.map_eq_some_iff.1 hafter
  refine ⟨q', hq', ?_⟩
  by_cases hdirty : x ∈ r.dirty
  · rw [if_pos hdirty] at hcontent
    exact (hretexted.overlay_merge hfit hsame).of_content_eq hcontent.symm
  · -- nothing is told of the parameter, but then its texts were not changed either
    rw [if_neg hdirty] at hcontent
    have hremoved : x ∉ s.removed := fun hmem => hstays x hmem (hm.above_self hx hq)
    obtain ⟨hlabel, hdescription⟩ := hquiet hremoved hdirty
    have hkept : p.Overlay p' q := by
      refine ⟨?_, ?_⟩
      · rw [hlabel]
        exact .of_same hsame.label
      · rw [hdescription]
        exact .of_same hsame.description
    exact hkept.of_content_eq hcontent.symm

end Registry

/-! ## Texts on the network -/

namespace Server.OnNetwork

variable {w : OnNetwork} {client : Client} {base : Network} {c : ClientKey} {key : ServerKey}
  {id : ConnectionId} {inbox : List (ConnectionId × Bytes)} {x : ParamId} {p q : Parameter}
  {ops : List Op}

section Texts

variable (hs : Reachable (fun _ => Op.Legal) w.server.registry)
  (hc : Reachable (fun _ => Op.Legal) client.registry)
  (hlegible : ∀ y p, y ≠ .root → w.server.registry.get? y = some p → p.Legible true)
  (hx : x ≠ .root) (hp : w.server.registry.get? x = some p) (hq : client.registry.get? x = some q)
  (hsame : p.SameTexts q) (hfit : p.TextsFit)
  (hstays : ∀ i ∈ w.server.registry.removed, ¬ Registry.Above client.registry i x)
  (hops : ∀ op ∈ ops, op.Retexts)
  (hlinked : Linked base c key id inbox [] w.network)
  (hone : (w.server.audience base).count c = 1)
include hs hc hlegible hx hp hq hsame hfit hstays hops hlinked hone

/-- Texts that a server has changed are put over those that the client has. -/
theorem overlay_poll_tick :
    ∃ p' q', (tick (w.afterAll ops)).1.server.registry.get? x = some p' ∧
      (client.poll (.ofNetwork c) (tick (w.afterAll ops)).1.network).1.registry.get? x = some q' ∧
      p.Overlay p' q' := by
  obtain ⟨hforest, horderly⟩ := hs.orderly
  have hs' : Reachable (fun _ => Op.Legal) (w.afterAll ops).server.registry :=
    hs.performAll fun op hop _ => (hops op hop).legal
  have hforest' := hs'.orderly.1
  have hretexted : Registry.Retexted w.server.registry (w.afterAll ops).server.registry :=
    (Registry.Retexted.refl _).performAll hforest.keyed hops
  obtain ⟨p', hp', -⟩ := hretexted.known x p hx hp
  obtain ⟨q', hq', htexts⟩ := hretexted.overlay_afterTick hforest' (hs'.ledger fun _ _ hop =>
    hop.childless) hc.orderly.1 hx hp hq hsame hfit hstays hp'
  have hpoll := poll_tick (w := w.afterAll ops) client hlinked hone fun _ hmem =>
    hretexted.legible horderly hforest'.keyed hlegible hmem
  have hserver := get?_update (s := (w.afterAll ops).server)
    (not_isEmpty_of_count_audience hone) x
  rw [hpoll]
  rw [hp', Option.map_some] at hserver
  split at hserver
  · exact ⟨p'.sent, q', hserver, hq', htexts.sent⟩
  · exact ⟨p', q', hserver, hq', htexts⟩

/-- What a client has of the texts of a parameter after a server has changed them: if any is left of
the label, or there was none, then every text of the server, and elsewhere what was there before,
which is what the server has exactly if that has a text wherever it had one; and so it is for the
description. -/
theorem texts_after_tick :
    ∃ p' q', (tick (w.afterAll ops)).1.server.registry.get? x = some p' ∧
      (client.poll (.ofNetwork c) (tick (w.afterAll ops)).1.network).1.registry.get? x = some q' ∧
      p.label.Told p'.label q'.label ∧ p.description.Told p'.description q'.description := by
  obtain ⟨p', q', hp', hq', htexts⟩ :=
    overlay_poll_tick hs hc hlegible hx hp hq hsame hfit hstays hops hlinked hone
  exact ⟨p', q', hp', hq', htexts.label.told, htexts.description.told⟩

end Texts

/-! ## A sign in two languages -/

/-- A sign with a label and a translation of it, of which everybody has been told. -/
def signRun : List Op :=
  [.create (.boolean {}) none,
    .edit ⟨1⟩ [.edit (.label (.text "lamp")), .edit (.label (.language "deu" "Lampe"))],
    .encodeDirty]

/-- A server with it, bound to an endpoint. -/
def sign : OnNetwork where
  server := { Server.build {} [⟨0⟩] with registry := Registry.new.performAll signRun }
  network := lamp.network

theorem reachable_sign : Reachable (fun _ => Op.Legal) sign.server.registry :=
  Reachable.performAll .new (by
    simp [signRun, Registry.Op.legal_iff, Op.Childless, Op.KeepsDefinitions,
      Parameter.Edit.KeepsDefinition, TypeDef.WellFormed])

theorem lossless_sign {x : ParamId} {p : Parameter} (hx : x ≠ .root)
    (hp : sign.server.registry.get? x = some p) : p.Lossless := by
  have hkeys : sign.server.registry.parameters.keys = [.root, ⟨1⟩] := rfl
  have hmem := Registry.mem_keys_of_get? hp
  rw [hkeys] at hmem
  simp only [List.mem_cons, hx, List.not_mem_nil, or_false, false_or] at hmem
  subst hmem
  obtain rfl := Option.some.inj hp
  have htext : (LocalizedText.Edit.text "lamp").Fits .tiny :=
    (by decide : (Utf8.encode "lamp").length ≤ _)
  have htranslation : (LocalizedText.Edit.language "deu" "Lampe").Fits .tiny :=
    ⟨⟨rfl, rfl, by decide⟩, (by decide : (Utf8.encode "Lampe").length ≤ _)⟩
  have hempty : ∀ w, ({} : LocalizedText).Lossless w := by
    intro w
    refine .of_languages_eq_empty rfl ?_
    rintro _ ⟨⟩
  have hlabel := ((hempty .tiny).edit htext).edit htranslation
  refine ⟨trivial, ?_, hlabel.sent, hempty .short, ?_, ?_, ?_⟩ <;> rintro _ ⟨⟩

/-- A client that has connected to the sign has it as the server has it. -/
theorem mirrors_sign :
    (∀ x, (sign.handshake 7).1.registry.get? x =
        (sign.server.registry.get? x).map Parameter.mirrored) ∧
      (sign.handshake 7).2.server = sign.server ∧
      Linked (sign.network.joined 7) sign.network.addClient.1 ⟨0⟩ ⟨1⟩ [] []
        (sign.handshake 7).2.network := by
  have horigin : sign.server.transporters[(⟨1⟩ : TransporterId)]? = some ⟨0⟩ := rfl
  have hquiet : ∀ (t : TransporterId) (k : ServerKey), sign.server.transporters[t]? = some k →
      sign.network.waitingMessages k = 0 := fun _ _ hk => quiet_lamp hk
  have hbound : sign.network.endpoints[(7 : Endpoint)]? = some ⟨⟨0⟩, 0⟩ := rfl
  have hend : sign.network.socket? ⟨0⟩ = some ⟨⟨0⟩, 0⟩ := rfl
  obtain ⟨-, hserver, hlinked⟩ := handshake_eq horigin hbound hend hquiet
  exact ⟨get?_handshake horigin hbound hend hquiet reachable_sign fun _ _ => lossless_sign,
    hserver, hlinked⟩

/-- The label of the sign. -/
def signText : LocalizedText :=
  (({} : LocalizedText).edit (.text "lamp")).edit (.language "deu" "Lampe")

/-- A client that has connected to the sign, and its server, when texts are changed. -/
theorem ready_sign :
    Reachable (fun _ => Op.Legal) (sign.handshake 7).2.server.registry ∧
      (∀ y p, y ≠ .root → (sign.handshake 7).2.server.registry.get? y = some p →
        p.Legible true) ∧
      (∃ p, (sign.handshake 7).2.server.registry.get? ⟨1⟩ = some p ∧
        (sign.handshake 7).1.registry.get? ⟨1⟩ = some p.mirrored ∧ p.TextsFit ∧
        p.label = signText.sent) ∧
      (∀ i ∈ (sign.handshake 7).2.server.registry.removed,
        ¬ Registry.Above (sign.handshake 7).1.registry i ⟨1⟩) ∧
      ((sign.handshake 7).2.server.audience (sign.network.joined 7)).count
        sign.network.addClient.1 = 1 := by
  obtain ⟨hmirrored, hserver, -⟩ := mirrors_sign
  rw [hserver]
  obtain ⟨p, hp, hlabel⟩ :
      ∃ p, sign.server.registry.get? ⟨1⟩ = some p ∧ p.label = signText.sent := ⟨_, rfl, rfl⟩
  have hroot : (⟨1⟩ : ParamId) ≠ .root := by decide
  have hfit := lossless_sign hroot hp
  refine ⟨reachable_sign, fun y p hy hp => ?_, ⟨p, hp, ?_, ⟨hfit.label, hfit.description⟩, hlabel⟩,
    fun i hi => ?_, rfl⟩
  · exact (lossless_sign hy hp).legible (reachable_sign.orderly.2.settled hy hp).wellFormed
  · rw [hmirrored, hp]
    rfl
  · have hnone : sign.server.registry.removed = ∅ := rfl
    rw [hnone] at hi
    exact absurd hi Std.ExtTreeSet.not_mem_empty

/-- The sign after some changes and a tick. -/
theorem get?_tick_sign (ops : List Op) :
    (tick ((sign.handshake 7).2.afterAll ops)).1.server.registry.get? ⟨1⟩ =
      ({ sign.server with registry := sign.server.registry.performAll ops } : Server).update.1.registry.get?
        ⟨1⟩ := by
  obtain ⟨-, hserver, -⟩ := mirrors_sign
  show ((sign.handshake 7).2.afterAll ops).server.update.1.registry.get? ⟨1⟩ = _
  rw [afterAll, hserver]

/-- The sign gets another label and a second translation. -/
def relabelling : List Op :=
  [.edit ⟨1⟩ [.edit (.label (.text "light")), .edit (.label (.language "fra" "lampe"))]]

/-- The translation is taken away. -/
def untranslation : List Op := [.edit ⟨1⟩ [.edit (.label (.forget "deu"))]]

theorem texts_after_tick_sign :
    (∀ op ∈ relabelling, op.Retexts) ∧
    ∃ p' q', (tick ((sign.handshake 7).2.afterAll relabelling)).1.server.registry.get? ⟨1⟩ =
        some p' ∧
      ((sign.handshake 7).1.poll (.ofNetwork sign.network.addClient.1)
        (tick ((sign.handshake 7).2.afterAll relabelling)).1.network).1.registry.get? ⟨1⟩ =
          some q' ∧
      p'.label.language? "fra" = some "lampe" ∧ p'.label.SameTexts q'.label := by
  have hops : ∀ op ∈ relabelling, op.Retexts := by
    simp only [relabelling, forall_eq, Op.Retexts, List.mem_cons, List.not_mem_nil, or_false,
      forall_eq_or_imp]
    exact ⟨(by decide : (Utf8.encode "light").length ≤ _), ⟨rfl, rfl, by decide⟩,
      (by decide : (Utf8.encode "lampe").length ≤ _)⟩
  obtain ⟨hs, hlegible, ⟨p, hp, hq, hfit, hlabel⟩, hstays, hone⟩ := ready_sign
  obtain ⟨-, -, hlinked⟩ := mirrors_sign
  obtain ⟨p', q', hp', hq', htold, -⟩ :=
    texts_after_tick hs (reachable_handshake sign 7) hlegible (by decide) hp hq
      (.mirrored p) hfit hstays hops hlinked hone
  have hlabel' : p'.label = ((signText.sent.edit (.text "light")).edit
      (.language "fra" "lampe")).sent := by
    rw [get?_tick_sign] at hp'
    rw [← Option.some.inj hp']
    rfl
  have hkeeps : p.label.Keeps p'.label := by
    rw [hlabel, hlabel']
    have hlight : signText.sent.Keeps (signText.sent.edit (.text "light")) :=
      .edit (.refl _) trivial
    have hboth : signText.sent.Keeps
        ((signText.sent.edit (.text "light")).edit (.language "fra" "lampe")) := hlight.edit trivial
    exact hboth.sent
  have hpresent : p'.label.isPresent = true := by
    rw [hlabel']
    rfl
  refine ⟨hops, p', q', hp', hq', ?_, (htold (.inl hpresent)).2.2 hkeeps⟩
  rw [hlabel']
  exact LocalizedText.language?_edit_language _ "fra" "lampe"

/-- The server and the client agree on a translation, and the server removes it: the client still
has it after it was told. -/
theorem translation_stays :
    Registry.Agrees (sign.handshake 7).2.server.registry (sign.handshake 7).1.registry ∧
      (sign.handshake 7).2.server.registry.hasPending = false ∧
      ∃ p' q', (tick ((sign.handshake 7).2.afterAll untranslation)).1.server.registry.get? ⟨1⟩ =
          some p' ∧
        ((sign.handshake 7).1.poll (.ofNetwork sign.network.addClient.1)
          (tick ((sign.handshake 7).2.afterAll untranslation)).1.network).1.registry.get? ⟨1⟩ =
            some q' ∧
        p'.label.language? "deu" = none ∧ q'.label.language? "deu" = some "Lampe" := by
  have hops : ∀ op ∈ untranslation, op.Retexts := by
    simp [untranslation, Op.Retexts, Parameter.Access.Retexts, LocalizedText.Edit.Fits]
  obtain ⟨hs, hlegible, ⟨p, hp, hq, hfit, hlabel⟩, hstays, hone⟩ := ready_sign
  obtain ⟨hmirrored, hserver, hlinked⟩ := mirrors_sign
  obtain ⟨p', q', hp', hq', htexts⟩ :=
    overlay_poll_tick hs (reachable_handshake sign 7) hlegible (by decide) hp hq
      (.mirrored p) hfit hstays hops hlinked hone
  have hgone : p'.label.language? "deu" = none := by
    have hlabel' : p'.label = (signText.sent.edit (.forget "deu")).sent := by
      rw [get?_tick_sign] at hp'
      rw [← Option.some.inj hp']
      rfl
    rw [hlabel']
    exact LocalizedText.language?_edit_forget _ "deu"
  have hthere : p.label.language? "deu" = some "Lampe" := by
    rw [hlabel]
    exact LocalizedText.language?_edit_language _ "deu" "Lampe"
  refine ⟨Registry.agrees_of_mirrored (hserver ▸ hmirrored), by rw [hserver]; rfl, p', q', hp', hq',
    hgone, ?_⟩
  rw [htexts.label.language, hgone, hthere, Option.none_or]

end Server.OnNetwork
end ParamSync
