import ResponseGraph.NodeId

/-!
Identity functions.

An identity function tells which payload values are entities, and gives the id of
each.  A value without an id is stored where it stands.
-/

namespace ResponseGraph

abbrev Identity := Json → Option NodeId

namespace Identity

/-- The member `id`: a string other than the empty one as it is, a number by its
text. -/
def byId : Identity := fun value =>
  match value.get? "id" with
  | some (.string id) => if id = "" then none else some id
  | some (.number x) => some x.text
  | _ => none

/-- The type name and the text of the member `id`, of whatever type that is. -/
def byTypename : Identity := fun value =>
  match value.get? "__typename", value.get? "id" with
  | some (.string name), some id => some (name ++ ":" ++ id.text)
  | _, _ => none

/-- The string in a member of the given name. -/
def byField (name : String) : Identity := fun value =>
  match value.get? name with
  | some (.string id) => some id
  | _ => none

def never : Identity := fun _ => none

/-- One id for everything. -/
def const (id : NodeId) : Identity := fun _ => some id

/-- An id for null and nothing else. -/
def onlyNull (id : NodeId) : Identity := fun value => if value.isNull then some id else none

/-- An empty id counts as none. -/
def nonempty (identity : Identity) : Identity := fun value =>
  (identity value).filter fun id => id ≠ ""

end Identity
end ResponseGraph
