import ResponseGraph.Json.Printer
import ResponseGraph.Table

/-!
Variable bindings.

The variables of an operation, each with a JSON value.  Bindings are kept in
order of name, so that two ways of giving the same variables read and compare the
same.
-/

namespace ResponseGraph

abbrev Bindings := Table Json

namespace Bindings

/-- The members of an object; anything else binds no variable. -/
def ofJson : Json → Bindings
  | .object members => Table.ofList members
  | _ => Table.empty

def toJson (bindings : Bindings) : Json := .object bindings.entries

/-- Equality as values, name by name. -/
def same (a b : Bindings) : Bool := a.toJson.same b.toJson

/-- The bindings as messages show them. -/
def text (bindings : Bindings) : String :=
  let parts := bindings.entries.map fun (name, value) => name ++ ": " ++ value.text
  "\x7b" ++ ", ".intercalate parts ++ "\x7d"

end Bindings
end ResponseGraph
