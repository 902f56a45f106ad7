import ResponseGraph.Draft.Collect

/-!
Commits.

A commit turns a draft into a graph.  The nodes that lead to an edited node, at any
distance, are copied too, so that a change shows in every node from which it can be
reached.  Only edited nodes count as edited, and only their data is transformed.
-/

namespace ResponseGraph

/-- The result of committing a draft. -/
structure Commit where
  graph : Graph
  /-- Nodes whose data was written or that were removed. -/
  edited : NameSet
  /-- Nodes of the graph that are not the very nodes of the base. -/
  copied : NameSet

namespace Draft

/-- Copies the given nodes that are not yet seen, and puts them on the stack. -/
def ownAll (draft : Draft) (seen : NameSet) (stack : List NodeId) :
    List NodeId → Draft × NameSet × List NodeId
  | [] => (draft, seen, stack)
  | id :: rest =>
    if seen.contains id then ownAll draft seen stack rest
    else if (draft.node? id).isNone then ownAll draft (seen.add id) stack rest
    else ownAll (draft.own id) (seen.add id) (id :: stack) rest

def ownAncestorsFrom : Nat → Draft → NameSet → List NodeId → Draft
  | 0, draft, _, _ => draft
  | _ + 1, draft, _, [] => draft
  | bound + 1, draft, seen, id :: stack =>
    match draft.node? id with
    | none => ownAncestorsFrom bound draft seen stack
    | some node =>
      let (draft, seen, stack) := draft.ownAll seen stack (node.inbound.map Link.node)
      ownAncestorsFrom bound draft seen stack

/-- Copies every node that leads to an edited one.  Every node is put on the stack
at most once. -/
def ownAncestors (draft : Draft) : Draft :=
  ownAncestorsFrom (draft.edited.size + draft.graph.size) draft draft.edited
    draft.edited.keys.reverse

/-- Transforms the data of an edited entity. -/
def transformed (transform : Option (Value → Value)) (edited : NameSet) (id : NodeId)
    (node : Node) : Node :=
  match transform with
  | some f =>
    if edited.contains id && node.isEntity then { node with data := node.data.map f } else node
  | none => node

/-- The nodes of the draft over those of the base.  With `frozen` the graph is
verified first. -/
def commit (transform : Option (Value → Value)) (frozen : Bool) (draft : Draft) :
    Except ConsistencyError Commit := do
  let draft := draft.ownAncestors
  let changes := draft.changes.map fun id change =>
    change.map (transformed transform draft.edited id)
  let draft := { draft with changes }
  let graph := draft.graph
  if frozen then graph.verify
  let copied := (changes.toList.filter fun (_, change) => change.isSome).map Prod.fst
  return ⟨graph, draft.edited, NameSet.ofList copied⟩

end Draft
end ResponseGraph
