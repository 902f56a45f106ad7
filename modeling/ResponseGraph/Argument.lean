import ResponseGraph.Bindings
import ResponseGraph.Error
import ResponseGraph.Json.Position

/-!
Argument values.

An argument is JSON in which a variable may stand for a value at any depth.  The
members of an argument object are in order of name, so that arguments that mean
the same are written the same.  `instantiate` replaces variables by their bindings, and
`toJson?` is defined exactly when no variable is left.
-/

namespace ResponseGraph

inductive Argument where
  | null
  | bool (value : Bool)
  | number (value : Number)
  | string (value : String)
  | list (items : List Argument)
  | object (members : List (String × Argument))
  | variable (name : String)
deriving Inhabited

namespace Argument

/- Equality as values; objects are in order of name and compare member by
member. -/
mutual
def same : Argument → Argument → Bool
  | .null, .null => true
  | .bool a, .bool b => a == b
  | .number a, .number b => a.same b
  | .string a, .string b => a == b
  | .list xs, .list ys => sameItems xs ys
  | .object xs, .object ys => sameMembers xs ys
  | .variable a, .variable b => a == b
  | _, _ => false
termination_by structural x => x

def sameItems : List Argument → List Argument → Bool
  | [], [] => true
  | x :: xs, y :: ys => same x y && sameItems xs ys
  | _, _ => false
termination_by structural xs => xs

def sameMembers : List (String × Argument) → List (String × Argument) → Bool
  | [], [] => true
  | (a, x) :: xs, (b, y) :: ys => a == b && same x y && sameMembers xs ys
  | _, _ => false
termination_by structural xs => xs
end

/- A JSON value as an argument without variables. -/
mutual
def ofJson : Json → Argument
  | .null => .null
  | .bool b => .bool b
  | .number x => .number x
  | .string s => .string s
  | .array items => .list (ofItems items)
  | .object members => .object (Entries.sort (ofMembers members))
termination_by structural x => x

def ofItems : List Json → List Argument
  | [] => []
  | x :: xs => ofJson x :: ofItems xs
termination_by structural xs => xs

def ofMembers : List (String × Json) → List (String × Argument)
  | [] => []
  | (name, x) :: xs => (name, ofJson x) :: ofMembers xs
termination_by structural xs => xs
end

/- The first variable, depth first. -/
mutual
def openVariable? : Argument → Option String
  | .variable name => some name
  | .list items => variableOfItems? items
  | .object members => variableOfMembers? members
  | _ => none
termination_by structural x => x

def variableOfItems? : List Argument → Option String
  | [] => none
  | x :: xs => (openVariable? x).or (variableOfItems? xs)
termination_by structural xs => xs

def variableOfMembers? : List (String × Argument) → Option String
  | [] => none
  | (_, x) :: xs => (openVariable? x).or (variableOfMembers? xs)
termination_by structural xs => xs
end

/- The JSON value of an argument without variables. -/
mutual
def toJson? : Argument → Option Json
  | .null => some .null
  | .bool b => some (.bool b)
  | .number x => some (.number x)
  | .string s => some (.string s)
  | .list items => (toItems? items).map .array
  | .object members => (toMembers? members).map .object
  | .variable _ => none
termination_by structural x => x

def toItems? : List Argument → Option (List Json)
  | [] => some []
  | x :: xs => (toJson? x).bind fun y => (toItems? xs).map (y :: ·)
termination_by structural xs => xs

def toMembers? : List (String × Argument) → Option (List (String × Json))
  | [] => some []
  | (name, x) :: xs => (toJson? x).bind fun y => (toMembers? xs).map ((name, y) :: ·)
termination_by structural xs => xs
end

/-- The JSON text of an argument, or what is in the way of writing it. -/
def text (argument : Argument) : Except String String :=
  match argument.openVariable? with
  | some name => .error (Position.normalize ("cannot serialize unexpanded variable $" ++ name))
  | none => .ok (argument.toJson?.getD .null).text

/- Every variable replaced by its binding. -/
mutual
def instantiate (bindings : Bindings) : Argument → Except VariableError Argument
  | .variable name =>
    match bindings.get? name with
    | some value => .ok (ofJson value)
    | none => .error (.missing name)
  | .list items => (instantiateItems bindings items).map .list
  | .object members => (instantiateMembers bindings members).map .object
  | argument => .ok argument
termination_by structural x => x

def instantiateItems (bindings : Bindings) : List Argument → Except VariableError (List Argument)
  | [] => .ok []
  | x :: xs => do
    let y ← instantiate bindings x
    let ys ← instantiateItems bindings xs
    return y :: ys
termination_by structural xs => xs

def instantiateMembers (bindings : Bindings) :
    List (String × Argument) → Except VariableError (List (String × Argument))
  | [] => .ok []
  | (name, x) :: xs => do
    let y ← instantiate bindings x
    let ys ← instantiateMembers bindings xs
    return (name, y) :: ys
termination_by structural xs => xs
end

end Argument

/-- The arguments of a field in order of name. -/
abbrev Arguments := List (String × Argument)

namespace Arguments

def ofList (entries : List (String × Argument)) : Arguments := Entries.sort entries

def same (a b : Arguments) : Bool := Argument.sameMembers a b

/-- The first variable of the arguments in order of name. -/
def openVariable? (arguments : Arguments) : Option String := Argument.variableOfMembers? arguments

def toJson? (arguments : Arguments) : Option Json := (Argument.toMembers? arguments).map .object

def instantiate (bindings : Bindings) (arguments : Arguments) : Except VariableError Arguments :=
  Argument.instantiateMembers bindings arguments

end Arguments
end ResponseGraph
