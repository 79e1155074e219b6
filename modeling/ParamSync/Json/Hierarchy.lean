import ParamSync.Json.Code
import ParamSync.Registry.Hierarchy

/-!
# JSON forms of snapshots

A snapshot is an object of its nodes inside each other, or a table with a row for each node.
-/

namespace ParamSync
namespace HierarchyNode

def toJson : HierarchyNode → Json
  | node id datatype label value children =>
    .object ([("id", id.toJson), ("datatype", datatype.toJson)]
      ++ Json.present "label" .string label ++ Json.present "value" .string value
      ++ if children.isEmpty then [] else [("children", .array (children.map toJson))])

/-- The nodes of a snapshot with their depth, each before those below it. -/
def flatten (depth : Nat) : HierarchyNode → List (Nat × HierarchyNode)
  | node id datatype label value children =>
    (depth, node id datatype label value children) ::
      children.flatMap fun child => flatten (depth + 1) child

/-- A row for each node, with its depth. -/
def table (root : HierarchyNode) : Json :=
  .array ((root.flatten 0).map fun (depth, n) =>
    .array [.ofNat depth, n.id.toJson, n.datatype.toJson, .ofOption .string n.label,
      .ofOption .string n.value])

end HierarchyNode
end ParamSync
