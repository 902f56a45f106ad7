import ResponseGraph.Graph

/-!
The JSON form of graphs.

Nodes are written in order of their ids.  A node lists its kind, its links and its
data in this order; empty link lists and missing data are left out.
-/

namespace ResponseGraph

def NodeKind.text : NodeKind → String
  | .entity => "entity"
  | .parameterized => "parameterizedValue"

def Link.toJson (link : Link) : Json :=
  .object [("id", .string link.node), ("path", link.path.toJson)]

def Node.toJson (node : Node) : Json :=
  let links (name : String) (links : List Link) : List (String × Json) :=
    if links.isEmpty then [] else [(name, .array (links.map Link.toJson))]
  .object (("type", .string node.kind.text) ::
    (links "inbound" node.inbound ++ links "outbound" node.outbound ++
      node.data.toList.map fun data => ("data", data.toJson)))

def Graph.toJson (graph : Graph) : Json :=
  .object (graph.toList.map fun (id, node) => (id, node.toJson))

def Graph.text (graph : Graph) : String := graph.toJson.text

end ResponseGraph
