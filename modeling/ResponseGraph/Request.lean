import ResponseGraph.NodeId

/-!
Requests.

A request names a document, the node its selection is rooted at and the variables
of the caller.  The document holds either one operation or fragments only, of
which one is the selection.
-/

namespace ResponseGraph

structure Request where
  document : String
  root : NodeId
  /-- Without variables of the caller the declared defaults are used. -/
  bindings : Option Bindings
  /-- The document holds fragments only. -/
  fragmentsOnly : Bool
  /-- The fragment to select, which may be left out if there is just one. -/
  fragmentName : Option String

/-- What of a request decides how its document reads. -/
structure DocumentKey where
  text : String
  fragmentsOnly : Bool
  fragmentName : Option String
deriving DecidableEq

namespace Request

def query (document : String) : Request := ⟨document, NodeId.queryRoot, none, false, none⟩

def mutation (document : String) : Request := ⟨document, NodeId.mutationRoot, none, false, none⟩

/-- A fragment document applied to a node. -/
def fragment (document : String) (root : NodeId) : Request := ⟨document, root, none, true, none⟩

def key (request : Request) : DocumentKey :=
  ⟨request.document, request.fragmentsOnly, request.fragmentName⟩

end Request
end ResponseGraph
