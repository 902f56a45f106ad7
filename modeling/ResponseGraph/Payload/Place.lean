import ResponseGraph.Error
import ResponseGraph.NodeId

/-!
Places of payload values.

Every value of a payload has a place in the graph, a path in the data of a node.
The node itself has a place in the payload, so the path from the root of the
payload is in two parts.
-/

namespace ResponseGraph

/-- Where a payload value belongs: at `path` in the data of `container`, which is
at `base` in the payload. -/
structure Place where
  container : NodeId
  base : Path
  path : Path
deriving DecidableEq

namespace Place

def root (container : NodeId) : Place := ⟨container, [], []⟩

/-- The path from the root of the payload. -/
def payloadPath (place : Place) : Path := place.base ++ place.path

def step (place : Place) (step : Step) : Place := { place with path := place.path ++ [step] }

/-- The root of a node whose content stands at this place of the payload. -/
def enter (place : Place) (node : NodeId) : Place := ⟨node, place.payloadPath, []⟩

/-- The payload does not fit what is at the place. -/
def misfit (place : Place) (reason : String) (payload : Json) : Error :=
  .payload ⟨reason, place.base, place.container, place.path, payload⟩

def inconsistent (place : Place) (reason : String) : Error :=
  .usage (.inconsistentIdentity reason place.payloadPath place.container)

end Place
end ResponseGraph
