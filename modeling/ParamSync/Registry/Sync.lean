import ParamSync.Packet.Basic
import ParamSync.Registry.Local

/-!
# Telling peers

A tick drains the removed identifiers into removal packets and the dirty parameters into delta
packets, in ascending order. A dump writes every parameter in full, each group before its
members, and leaves the registry as it is (`dump_snd`).
-/

namespace ParamSync
namespace Registry

/-- A parameter and what is below it, each group before its members and these in ascending order,
to a depth of `n` groups. -/
def preorder (r : Registry) : Nat → ParamId → List ParamId
  | 0, id => [id]
  | n + 1, id => id :: (r.children id).flatMap (preorder r n)

/-- Puts what `preorder` gives in front of what comes after it, which copies nothing. -/
def visit (r : Registry) : Nat → ParamId → List ParamId → List ParamId
  | 0, id, rest => id :: rest
  | n + 1, id, rest => id :: (r.children id).foldr (visit r n) rest

theorem visit_eq_append (r : Registry) (n : Nat) (id : ParamId) (rest : List ParamId) :
    r.visit n id rest = r.preorder n id ++ rest := by
  induction n generalizing id rest with
  | zero => rfl
  | succ n ih =>
    simp only [visit, preorder, List.cons_append]
    congr 1
    induction r.children id with
    | nil => rfl
    | cons c cs ihc => rw [List.foldr_cons, ihc, ih, List.flatMap_cons, List.append_assoc]

/-- Everything below the root, each group before its members. No chain of groups is longer than
the number of parameters. -/
def depthFirst (r : Registry) : List ParamId :=
  (r.children .root).foldr (r.visit r.parameters.size) []

/-- Writes each of these parameters, once, in full (`all`) or as a delta: the packets, and the
registry with the parameters as their writers leave them. -/
def writeEach (r : Registry) (ids : List ParamId) (all : Bool) : List Bytes × Registry :=
  (ids.filterMap fun id => (r.get? id).map (Packet.encodeUpdate · all),
    { r with parameters := ids.foldl (fun ps id => ps.modify id (·.written all)) r.parameters })

/-- Full writes leave every parameter as it is. -/
theorem writeEach_true_snd (r : Registry) (ids : List ParamId) : (r.writeEach ids true).2 = r := by
  have hone (ps : IdMap Parameter) (id : ParamId) : ps.modify id (·.written true) = ps := by
    refine Std.ExtTreeMap.ext_getElem? fun x => ?_
    rw [IdMap.getElem?_modify_eq]
    simp
  have hall : ids.foldl (fun ps id => ps.modify id (·.written true)) r.parameters =
      r.parameters := by
    induction ids with
    | nil => rfl
    | cons id ids ih => rw [List.foldl_cons, hone, ih]
  rw [writeEach, hall]

/-- Drains the dirty parameters into delta packets. -/
def encodeDirty (r : Registry) : List Bytes × Registry :=
  let (packets, r') := r.writeEach r.dirty.toList false
  (packets, { r' with dirty := ∅ })

/-- Drains the removed identifiers into removal packets; they can be taken again. -/
def encodeRemoved (r : Registry) : List Bytes × Registry :=
  (r.removed.toList.map Packet.encodeRemoval, { r with removed := ∅ })

/-- Writes every parameter in full. -/
def dump (r : Registry) : List Bytes × Registry := r.writeEach r.depthFirst true

theorem dump_snd (r : Registry) : r.dump.2 = r := r.writeEach_true_snd _

/-- The packets of a dump. -/
def encodeAll (r : Registry) : List Bytes := r.dump.1

theorem dump_eq (r : Registry) : r.dump = (r.encodeAll, r) := Prod.ext rfl r.dump_snd

end Registry
end ParamSync
