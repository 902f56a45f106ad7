import ResponseGraph.Node

/-!
Graphs.

A graph is a finite map from ids to nodes.  It never changes; edits make a new
graph.  `verify` checks that the two ends of every reference agree.
-/

namespace ResponseGraph

abbrev Graph := Table Node

namespace Graph

def empty : Graph := Table.empty

def node? (graph : Graph) (id : NodeId) : Option Node := graph.get? id

theorem node?_insert (graph : Graph) (id other : NodeId) (node : Node) :
    Graph.node? (graph.insert id node) other =
      if id = other then some node else graph.node? other :=
  Table.get?_insert graph id other node

theorem node?_erase (graph : Graph) (id other : NodeId) :
    Graph.node? (graph.erase id) other = if id = other then none else graph.node? other :=
  Table.get?_erase graph id other

/-- An outbound link has an existing target with the link back. -/
def verifyOutbound (graph : Graph) (id : NodeId) (link : Link) : Except ConsistencyError Unit :=
  match graph.node? link.node with
  | none => .error (.dangling id link.node)
  | some target =>
    if target.hasLink .inbound ⟨id, link.path⟩ then .ok ()
    else .error (.missingInbound id link.node link.path)

/-- An inbound link has an existing source with the link forth. -/
def verifyInbound (graph : Graph) (id : NodeId) (link : Link) : Except ConsistencyError Unit :=
  let answered := (graph.node? link.node).any fun source =>
    source.hasLink .outbound ⟨id, link.path⟩
  if answered then .ok () else .error (.missingOutbound link.node id link.path)

def verifyNode (graph : Graph) (id : NodeId) (node : Node) : Except ConsistencyError Unit := do
  node.outbound.forM (graph.verifyOutbound id)
  node.inbound.forM (graph.verifyInbound id)

/-- Nodes are checked in order of their ids. -/
def verify (graph : Graph) : Except ConsistencyError Unit :=
  graph.toList.forM fun (id, node) => graph.verifyNode id node

/-- Equality as graphs: the same ids with nodes that are equal as nodes. -/
def same (a b : Graph) : Bool :=
  a.size == b.size && a.toList.all fun (id, node) => (b.node? id).any node.same

end Graph
end ResponseGraph
