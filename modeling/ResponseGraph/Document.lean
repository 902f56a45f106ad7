import ResponseGraph.Argument

/-!
Executable documents.

A document holds operations and fragment definitions.  Its selections are kept as
they are written: fragments are not yet resolved and repeated fields not yet
merged.  Type conditions and variable types are not kept, because nothing here
depends on a schema.

Values are kept as they are written too.  In an object literal a member may repeat,
and the variables of a value are listed in the order in which they stand in the
text, whatever order its meaning as an argument gives them.
-/

namespace ResponseGraph

inductive Literal where
  | null
  | bool (value : Bool)
  /-- Meant for values that fit in a signed word of 64 bits. -/
  | int (value : Int)
  /-- Nothing if the literal is beyond the largest double. -/
  | float (value : Option Double)
  | string (value : String)
  | enum (name : String)
  | list (items : List Literal)
  | object (members : List (String × Literal))
  | variable (name : String)
deriving Inhabited

namespace Literal

/- The variables of a literal in the order of the text. -/
mutual
def variableNames : Literal → List String
  | .variable name => [name]
  | .list items => namesOfItems items
  | .object members => namesOfMembers members
  | _ => []
termination_by structural x => x

def namesOfItems : List Literal → List String
  | [] => []
  | x :: xs => variableNames x ++ namesOfItems xs
termination_by structural xs => xs

def namesOfMembers : List (String × Literal) → List String
  | [] => []
  | (_, x) :: xs => variableNames x ++ namesOfMembers xs
termination_by structural xs => xs
end

mutual
/-- The argument a literal stands for.  An enum value reads as its name, a float
that is too large as null, and of a repeated member the last one counts.  Integers
are those that fit in a signed word of 64 bits: a literal beyond that is kept as it is
here, which says nothing about what a document with one would mean. -/
def toArgument : Literal → Argument
  | .null => .null
  | .bool b => .bool b
  | .int n => .number (.int n)
  | .float (some x) => .number (.float x)
  | .float none => .null
  | .string s => .string s
  | .enum name => .string name
  | .list items => .list (toArguments items)
  | .object members => .object (Entries.sort (toMembers members))
  | .variable name => .variable name
termination_by structural x => x

def toArguments : List Literal → List Argument
  | [] => []
  | x :: xs => toArgument x :: toArguments xs
termination_by structural xs => xs

def toMembers : List (String × Literal) → List (String × Argument)
  | [] => []
  | (name, x) :: xs => (name, toArgument x) :: toMembers xs
termination_by structural xs => xs
end

end Literal

structure Directive where
  name : String
  arguments : List (String × Literal)

/-- One entry of a selection set.  A field without a selection set has none. -/
inductive Selection where
  | field (aliasName : Option String) (name : String) (arguments : List (String × Literal))
      (directives : List Directive) (selections : List Selection)
  | spread (fragment : String) (directives : List Directive)
  | inline (directives : List Directive) (selections : List Selection)

/-- The name under which the response holds a field. -/
def responseName (aliasName : Option String) (name : String) : String := aliasName.getD name

structure Fragment where
  name : String
  directives : List Directive
  selections : List Selection

inductive OperationKind where
  | query
  | mutation
  | subscription
deriving DecidableEq, Inhabited

structure VariableDefinition where
  name : String
  default : Option Literal

structure OperationDefinition where
  kind : OperationKind
  name : Option String
  variableDefinitions : List VariableDefinition
  selections : List Selection

structure Document where
  operations : List OperationDefinition
  fragments : List Fragment

namespace Document

/-- The definitions of fragments by name.  Of two definitions of one name the
last one counts. -/
def fragmentTable (document : Document) : Table Fragment :=
  Table.ofList (document.fragments.map fun fragment => (fragment.name, fragment))

end Document
end ResponseGraph
