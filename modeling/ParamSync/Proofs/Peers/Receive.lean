import ParamSync.Client
import ParamSync.Proofs.Codec.Accepted
import ParamSync.Proofs.Codec.Packet
import ParamSync.Proofs.Registry.Eviction

/-!
# What peers do with messages

A client that receives the packet of a parameter merges what it heard, and one that receives the
packet of a removal takes the subtree out; both are operations of its registry, so what is known of
runs is known of clients. A server answers the two requests and does not change.

Results:
* `Client.receives`: what a message has a client do.
* `Client.receive_parameter`: a client merges what an update brings.
* `Client.receive_encodeUpdate`, `Client.receive_encodeRemoval`: a client performs what it is told.
* `Server.handle_infoRequest`, `Server.handle_dumpRequest`: a server answers.
-/

namespace ParamSync

/-! ## Updates -/

namespace Packet

/-- A message that is an update, if it can be read at all. -/
def IsUpdate (data : Bytes) : Prop :=
  ∀ packet, ofBytes data = .ok (some packet) → packet.command = .update

/-- The parameter that an update brings. -/
def update? (data : Bytes) : Option Parameter :=
  match ofBytes data with
  | .ok (some packet) => if packet.command = .update then packet.parameter? else none
  | _ => none

theorem update?_ofParameter {data : Bytes} {p : Parameter}
    (h : ofBytes data = .ok (some (.ofParameter p))) :
    IsUpdate data ∧ update? data = some p := by
  refine ⟨fun packet hpacket => ?_, by rw [update?, h]; rfl⟩
  rw [h] at hpacket
  cases hpacket
  rfl

theorem isUpdate_encodeUpdate (p : Parameter) (all : Bool) : IsUpdate (encodeUpdate p all) := by
  intro packet h
  have hcode := command_of_ofBytes h
  rw [Command.ofCode?_eq_some_iff.2 rfl] at hcode
  exact (Option.some.inj hcode).symm

theorem update?_encodeUpdate {p : Parameter} {all : Bool} (h : p.Legible all) :
    update? (encodeUpdate p all) = some (p.heard all) :=
  (update?_ofParameter (ofBytes_encodeUpdate h)).2

theorem exists_of_update? {data : Bytes} {p : Parameter} (h : update? data = some p) :
    ∃ packet, ofBytes data = .ok (some packet) ∧ packet.command = .update ∧
      packet.parameter? = some p := by
  unfold update? at h
  split at h
  · next packet hpacket =>
    split at h
    · next hcommand => exact ⟨packet, hpacket, hcommand, h⟩
    · cases h
  · cases h

end Packet

/-! ## Clients -/

namespace Client

/-- A client that performs an operation on its copy. -/
def perform (c : Client) (op : Registry.Op) : Client := { c with registry := c.registry.perform op }

/-- What a message has a client do: it receives the parameter of an update, and of any other message
a removal, a value, what the server says of itself, or nothing. -/
inductive Receives (c : Client) (data : Bytes) : Client × List ClientNotice → Prop
  | parameter {p : Parameter} (hupdate : Packet.update? data = some p) :
      Receives c data (c.receiveParameter p)
  | removal (hupdate : Packet.update? data = none) (id : ParamId) :
      Receives c data (c.receiveRemoval id)
  | value (hupdate : Packet.update? data = none) (u : ValueUpdate) :
      Receives c data (c.receiveValue u)
  | info (hupdate : Packet.update? data = none) (info : Info) :
      Receives c data ({ c with info := some info }, [.info info])
  | nothing (hupdate : Packet.update? data = none) : Receives c data (c, [])

theorem receives (c : Client) (data : Bytes) : c.Receives data (c.receive data) := by
  unfold receive
  split
  · next hread => exact .nothing (by rw [Packet.update?, hread])
  · next hread => exact .nothing (by rw [Packet.update?, hread])
  · next packet hread =>
    have hupdate : Packet.update? data =
        if packet.command = .update then packet.parameter? else none := by
      rw [Packet.update?, hread]
    split
    · next hcommand =>
      rw [if_pos hcommand] at hupdate
      split
      · next hp => exact .parameter (hupdate.trans hp)
      · next hp => exact .nothing (hupdate.trans hp)
    -- no other command is that of an update
    all_goals
      rename_i hcommand
      rw [if_neg (by rw [hcommand]; exact nofun)] at hupdate
    · split
      · exact .removal hupdate _
      · exact .nothing hupdate
    · split
      · exact .info hupdate _
      · exact .nothing hupdate
    · split
      · exact .info hupdate _
      · exact .nothing hupdate
    · split
      · exact .value hupdate _
      · exact .nothing hupdate
    · exact .nothing hupdate
    · exact .nothing hupdate

/-- A client that receives an update receives its parameter. -/
theorem receive_update (c : Client) {data : Bytes} {p : Parameter}
    (h : Packet.update? data = some p) : c.receive data = c.receiveParameter p := by
  obtain ⟨packet, hpacket, hcommand, hp⟩ := Packet.exists_of_update? h
  rw [receive, hpacket]
  dsimp only
  rw [hcommand, hp]

/-- A client that receives a parameter merges it. -/
theorem receiveParameter_merges (c : Client) (p : Parameter) :
    (c.receiveParameter p).1 = c.perform (.merge p) := by
  rw [receiveParameter, perform, Registry.perform]
  cases c.registry.merge p with
  | error e => rfl
  | ok result => rfl

theorem receive_parameter (c : Client) {data : Bytes} {p : Parameter}
    (h : Packet.update? data = some p) : (c.receive data).1 = c.perform (.merge p) := by
  rw [c.receive_update h, c.receiveParameter_merges p]

theorem receive_encodeUpdate (c : Client) {p : Parameter} {all : Bool} (h : p.Legible all) :
    (c.receive (Packet.encodeUpdate p all)).1 = c.perform (.merge (p.heard all)) :=
  c.receive_parameter (Packet.update?_encodeUpdate h)

theorem receive_encodeRemoval (c : Client) (id : ParamId) :
    (c.receive (Packet.encodeRemoval id)).1 = c.perform (.removeDirect id) := by
  rw [receive, Packet.ofBytes_encodeRemoval]
  show (c.receiveRemoval id).1 = _
  rw [receiveRemoval, perform, Registry.perform]
  split
  · rfl
  · next h =>
    -- who is not there is not removed
    have hsame : (c.registry.removeDirect id).1 = c.registry := by
      rw [Registry.contains, Bool.and_eq_true, not_and, Bool.not_eq_true'] at h
      rw [Registry.removeDirect]
      split
      · rfl
      · next hroot =>
        have hdead := h (by simpa using hroot)
        rw [Std.ExtTreeMap.contains_eq_isSome_getElem?, Bool.not_eq_true,
          Option.isSome_eq_false_iff, Option.isNone_iff_eq_none] at hdead
        rw [Registry.evict_of_dead hdead]
    rw [hsame]

theorem receive_encodeInfo (c : Client) (info : Info) :
    (c.receive ((Packet.ofInfo info).encodeFramed true)).1 =
      { c with info := some info.heard } := by
  rw [receive, Packet.ofBytes_encodeInfo]
  rfl

/-- A client that receives the packets of some parameters. -/
theorem foldl_receive_encodeUpdate {ps : List Parameter} {all : Bool} (h : ∀ p ∈ ps, p.Legible all)
    (c : Client) :
    (ps.map (Packet.encodeUpdate · all)).foldl (fun c data => (c.receive data).1) c =
      { c with registry := c.registry.performAll (ps.map fun p => .merge (p.heard all)) } := by
  induction ps generalizing c with
  | nil => rfl
  | cons p ps ih =>
    obtain ⟨hp, hps⟩ := List.forall_mem_cons.1 h
    rw [List.map_cons, List.foldl_cons, receive_encodeUpdate c hp, ih hps]
    rfl

/-- A client that receives the packets of some removals. -/
theorem foldl_receive_encodeRemoval (ids : List ParamId) (c : Client) :
    (ids.map Packet.encodeRemoval).foldl (fun c data => (c.receive data).1) c =
      { c with registry := c.registry.performAll (ids.map .removeDirect) } := by
  induction ids generalizing c with
  | nil => rfl
  | cons id ids ih =>
    rw [List.map_cons, List.foldl_cons, receive_encodeRemoval, ih]
    rfl

end Client

/-! ## Servers -/

namespace Server

variable {w : OnNetwork} {origin : TransporterId} {key : ServerKey}

theorem deliver_reply (sender : ConnectionId) (h : w.server.transporters[origin]? = some key)
    (messages : List Bytes) :
    (w.server.reply origin sender messages).foldl Network.deliver w.network =
      w.network.sendEach key sender messages := by
  rw [reply, h]
  rfl

theorem infoMessages_eq (s : Server) :
    s.infoMessages = [(Packet.ofInfo s.config.info).encodeFramed true] := rfl

/-- A request for the version is answered with the record. -/
theorem handle_infoRequest (sender : ConnectionId)
    (h : w.server.transporters[origin]? = some key) :
    (handle w origin sender (Packet.infoRequest.encodeFramed true)).1 =
      { w with network := w.network.sendEach key sender w.server.infoMessages } := by
  have hread :
      Packet.ofBytes (Packet.infoRequest.encodeFramed true) = .ok (some Packet.infoRequest) :=
    Packet.ofBytes_request (by decide)
  rw [handle, receive, hread, ← deliver_reply sender h]
  rfl

/-- The server after a dump is the server before it. -/
theorem receive_of_dump {s : Server} {data : Bytes} {packet : Packet}
    (hread : Packet.ofBytes data = .ok (some packet)) (hcommand : packet.command = .dump)
    (origin : TransporterId) (sender : ConnectionId) :
    s.receive origin sender data = (s, s.reply origin sender s.registry.encodeAll, []) := by
  simp only [receive, hread, hcommand, Registry.dump_eq]

/-- A request for the parameters is answered with a dump. -/
theorem handle_dumpRequest (sender : ConnectionId)
    (h : w.server.transporters[origin]? = some key) :
    (handle w origin sender (Packet.dumpRequest.encodeFramed true)).1 =
      { w with network := w.network.sendEach key sender w.server.registry.encodeAll } := by
  have hread :
      Packet.ofBytes (Packet.dumpRequest.encodeFramed true) = .ok (some Packet.dumpRequest) :=
    Packet.ofBytes_request (by decide)
  rw [handle, receive_of_dump hread rfl, ← deliver_reply sender h]

end Server
end ParamSync
