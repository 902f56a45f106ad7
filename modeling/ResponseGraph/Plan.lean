import ResponseGraph.Request
import ResponseGraph.Document.Parser
import ResponseGraph.Field.Resolve

/-!
Plans.

A plan is all that follows from the document of a request alone, and serves every
request with that document.
-/

namespace ResponseGraph

structure Plan where
  kind : OperationKind
  name : Option String
  root : FieldSet
  /-- Variables in the order of their first use. -/
  used : List String
  /-- The values of declared variables that have a default. -/
  defaults : Bindings
  /-- A label above all labels of the fields. -/
  nextLabel : Nat

namespace Plan

/-- The fragment that a fragment document selects. -/
def chosenFragment (document : Document) (name : Option String) : Except DocumentError Fragment :=
  let fragments := document.fragmentTable
  match name with
  | some name =>
    match fragments.get? name with
    | some fragment => .ok fragment
    | none => .error (.unknownFragment name)
  | none =>
    match fragments.size, document.fragments with
    | 1, fragment :: _ => .ok fragment
    | count, _ => .error (.fragmentCount count)

/-- A document must define exactly one operation. -/
def soleOperation (document : Document) : Except DocumentError OperationDefinition :=
  match document.operations with
  | [operation] => .ok operation
  | operations => .error (.operationCount operations.length)

def declaredDefaults (operation : OperationDefinition) : Bindings :=
  Table.ofList (operation.variableDefinitions.filterMap fun definition => do
    let value ← (← definition.default).toArgument.toJson?
    return (definition.name, value))

/-- What is wrong with the variables of an operation: those used but not declared
in the order of use, then those declared but not used in the order of
declaration. -/
def complaints (used declared : List String) : List String :=
  let undeclared := used.filter fun name => !declared.contains name
  let unused := declared.eraseDups.filter fun name => !used.contains name
  undeclared.map (fun name => "Variable $" ++ name ++ " is used, but not declared") ++
    unused.map (fun name => "Variable $" ++ name ++ " is unused")

def checkVariables (operation : OperationDefinition) (used : List String) :
    Except DocumentError Unit :=
  match complaints used (operation.variableDefinitions.map VariableDefinition.name) with
  | [] => .ok ()
  | complaints => .error (.variableMismatch (operation.name.getD "anonymous operation") complaints)

def ofFragment (addTypename : Bool) (document : Document) (name : Option String) :
    Except DocumentError Plan := do
  let fragment ← chosenFragment document name
  let resolved ← FieldSet.resolve addTypename document.fragmentTable fragment.selections
  return ⟨.query, some fragment.name, resolved.root, resolved.used, Table.empty,
    resolved.nextLabel⟩

/-- With `strict` the variables used must be those declared. -/
def ofOperation (addTypename strict : Bool) (document : Document) : Except DocumentError Plan := do
  let operation ← soleOperation document
  let resolved ← FieldSet.resolve addTypename document.fragmentTable operation.selections
  if strict then checkVariables operation resolved.used
  return ⟨operation.kind, operation.name, resolved.root, resolved.used,
    declaredDefaults operation, resolved.nextLabel⟩

def ofKey (addTypename strict : Bool) (key : DocumentKey) : Except DocumentError Plan :=
  match Document.parse? key.text with
  | none => .error .syntaxError
  | some document =>
    if key.fragmentsOnly then ofFragment addTypename document key.fragmentName
    else ofOperation addTypename strict document

end Plan
end ResponseGraph
