import ParamSync.Registry.Basic

/-!
# Snapshots of the tree

A picture of the tree for people, with each parameter's label and value as text. It goes down a
limited number of levels, so that who draws it may recurse however deep a peer builds.
-/

namespace ParamSync

/-- A parameter in a snapshot, with those below it. -/
inductive HierarchyNode
  | node (id : ParamId) (datatype : Datatype) (label value : Option String)
    (children : List HierarchyNode)
deriving BEq

namespace HierarchyNode

def id : HierarchyNode → ParamId
  | node id .. => id

def datatype : HierarchyNode → Datatype
  | node _ datatype .. => datatype

def label : HierarchyNode → Option String
  | node _ _ label .. => label

def value : HierarchyNode → Option String
  | node _ _ _ value _ => value

def children : HierarchyNode → List HierarchyNode
  | node _ _ _ _ children => children

end HierarchyNode

namespace Registry

/-- How many levels below the root a snapshot shows. -/
def maxHierarchyDepth : Nat := 64

/-- The node of an identifier, with the nodes below it given. -/
def hierarchyNode (r : Registry) (id : ParamId) (children : List HierarchyNode) : HierarchyNode :=
  let p := r.get? id
  .node id ((p.map (·.datatype)).getD .group) (p.bind (·.label.text))
    (p.bind fun q => q.value.value.map (·.display)) children

/-- The identifiers a snapshot shows, each before those below it, to a depth of `n` levels. -/
def snapshotOrder (r : Registry) : Nat → ParamId → List ParamId
  | 0, id => [id]
  | n + 1, id => id :: (r.children id).reverse.flatMap (snapshotOrder r n)

/-- The nodes of some identifiers, taken out of the finished ones. -/
def takeNodes (built : IdMap HierarchyNode) (ids : List ParamId) :
    List HierarchyNode × IdMap HierarchyNode :=
  ids.foldr
    (fun id (nodes, rest) =>
      match rest[id]? with
      | some node => (node :: nodes, rest.erase id)
      | none => (nodes, rest))
    ([], built)

/-- Finishes the node of an identifier, which takes over the finished nodes of its members. -/
def buildNode (r : Registry) (id : ParamId) (built : IdMap HierarchyNode) : IdMap HierarchyNode :=
  let (children, rest) := takeNodes built (r.children id)
  rest.insert id (r.hierarchyNode id children)

/-- A snapshot of the tree. The nodes are finished in the reverse of the order in which they are
met, so that those below a node are finished before it takes them. -/
def hierarchy (r : Registry) : HierarchyNode :=
  let built := (r.snapshotOrder maxHierarchyDepth .root).foldr r.buildNode ∅
  built.getD .root (r.hierarchyNode .root [])

end Registry
end ParamSync
