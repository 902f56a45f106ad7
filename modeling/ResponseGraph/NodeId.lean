import ResponseGraph.Argument

/-!
Node ids.

An entity has the id that the identity function gives it, and operations are
rooted at ids of their own.  The value of a field with arguments has an id derived
from the node it belongs to, the path of the field there and the arguments.  The
three parts are separated by a character that occurs in neither of the JSON texts
unless it is quoted.
-/

namespace ResponseGraph

abbrev NodeId := String

namespace NodeId

def queryRoot : NodeId := "ROOT_QUERY"

def mutationRoot : NodeId := "ROOT_MUTATION"

def isQueryRoot (id : NodeId) : Bool := id == queryRoot

def separator : Char := '❖'

/-- The id of the value of a field with arguments.  Arguments with a variable
have no id. -/
def parameterized (container : NodeId) (path : Path) (arguments : Arguments) :
    Except UsageError NodeId :=
  match arguments.toJson? with
  | some json =>
    .ok (String.ofList
      (container.toList ++ separator :: path.toJson.write (separator :: json.write [])))
  | none => .error (.openVariable (arguments.openVariable?.getD ""))

end NodeId
end ResponseGraph
