import ResponseGraph.Document

/-!
Conditions on selections.

A guard is a list of conditions that must all hold, one for each `@skip` and
`@include` on the way to a field.  A field carries a list of guards, one for each
way in which the document selects it, and is included if it has none or if one of
them holds.
-/

namespace ResponseGraph

/-- The condition of one directive: `@include` asks for true, `@skip` for
false. -/
structure Condition where
  includes : Bool
  value : Argument

namespace Condition

def directiveName (condition : Condition) : String :=
  if condition.includes then "include" else "skip"

def same (a b : Condition) : Bool := a.includes == b.includes && a.value.same b.value

def holds (bindings : Bindings) (condition : Condition) : Except VariableError Bool := do
  match ← condition.value.instantiate bindings with
  | .bool value => return value == condition.includes
  | other => throw (.notBoolean condition.directiveName (other.toJson?.getD .null))

end Condition

namespace Directive

/-- The variables of the arguments in the order of the text. -/
def variableNames (directives : List Directive) : List String :=
  directives.flatMap fun directive => directive.arguments.flatMap fun entry => entry.2.variableNames

/-- The condition of a `@skip` or `@include` that has an argument `if`, of which
the last one counts. -/
def condition? (directive : Directive) : Option Condition := do
  let (_, value) ← (directive.arguments.filter fun entry => entry.1 = "if").getLast?
  if directive.name = "skip" then some ⟨false, value.toArgument⟩
  else if directive.name = "include" then some ⟨true, value.toArgument⟩
  else none

end Directive

abbrev Guard := List Condition

namespace Guard

/-- The guard of a selection with these directives, if it has one. -/
def ofDirectives? (directives : List Directive) : Option Guard :=
  match directives.filterMap Directive.condition? with
  | [] => none
  | conditions => some conditions

def same : Guard → Guard → Bool
  | [], [] => true
  | a :: as, b :: bs => a.same b && same as bs
  | _, _ => false

/-- The conditions are evaluated in order up to the first that fails. -/
def holds (bindings : Bindings) : Guard → Except VariableError Bool
  | [] => return true
  | condition :: rest => do
    if ← condition.holds bindings then holds bindings rest else return false

/-- Guards of a field inside a selection that has a guard itself. -/
def within (outer : Guard) (guards : List Guard) : List Guard :=
  if guards.isEmpty then [outer] else guards.map (· ++ outer)

/-- Guards of two selections of one field.  A selection without a guard leaves
the field without one. -/
def union (guards more : List Guard) : List Guard :=
  if guards.isEmpty || more.isEmpty then []
  else more.foldl (fun acc guard => if acc.any (·.same guard) then acc else acc ++ [guard]) guards

/-- One of the guards holds, or there are none.  Guards after the first that holds
are not evaluated. -/
def anyHolds (bindings : Bindings) : List Guard → Except VariableError Bool
  | [] => return true
  | [guard] => guard.holds bindings
  | guard :: rest => do
    if ← guard.holds bindings then return true else anyHolds bindings rest

end Guard
end ResponseGraph
