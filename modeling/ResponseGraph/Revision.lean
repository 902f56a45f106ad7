import ResponseGraph.Graph

/-!
Revisions.

A graph that comes out of a commit has most of its nodes in common with the graph
it was made from.  A revision records this: every node is stamped with the number
of the revision that made it.  Two revisions share a node if they hold it under one
stamp, and a shared node is the same in both.
-/

namespace ResponseGraph

structure Revision where
  graph : Graph
  stamps : Table Nat

namespace Revision

def empty : Revision := ⟨Graph.empty, Table.empty⟩

/-- A revision all of whose nodes are new. -/
def fresh (number : Nat) (graph : Graph) : Revision := ⟨graph, graph.map fun _ _ => number⟩

/-- The revision after `base`, in which exactly the nodes in `made` are new. -/
def next (base : Revision) (number : Nat) (graph : Graph) (made : NameSet) : Revision :=
  ⟨graph, graph.map fun id _ =>
    if made.contains id then number else (base.stamps.get? id).getD number⟩

/-- The nodes that two revisions share. -/
def shared (a b : Revision) : List NodeId :=
  a.graph.keys.filter fun id => b.graph.contains id && a.stamps.get? id == b.stamps.get? id

/-- The nodes that both revisions have but do not share. -/
def replaced (a b : Revision) : List NodeId :=
  a.graph.keys.filter fun id => b.graph.contains id && a.stamps.get? id != b.stamps.get? id

end Revision
end ResponseGraph
