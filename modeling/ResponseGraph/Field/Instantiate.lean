import ResponseGraph.Field

/-!
Fields under given variables.

Instantiating replaces the variables in arguments and decides which fields are
excluded.  Fields and sets in which no variable can occur are kept as they are,
label included; everything else is made anew.
-/

namespace ResponseGraph

/-- The head of a field under given variables, apart from its arguments. -/
def FieldHead.decide (bindings : Bindings) (head : FieldHead) :
    Except VariableError FieldHead := do
  return { head with excluded := !(← Guard.anyHolds bindings head.guards) }

def FieldHead.instantiateArguments (bindings : Bindings) (head : FieldHead) :
    Except VariableError FieldHead :=
  match head.arguments with
  | none => return head
  | some arguments => do
    return { head with arguments := some (← arguments.instantiate bindings) }

mutual
def Field.instantiate (bindings : Bindings) : Field → Labelling VariableError Field
  | .leaf label head =>
    if (Field.leaf label head).varies then do
      let head ← head.decide bindings
      let head ← head.instantiateArguments bindings
      return .leaf (← newLabel) head
    else return .leaf label head
  | .composite label head traits set fields =>
    if (Field.composite label head traits set fields).varies then do
      let head ← head.decide bindings
      let (set, fields) ←
        if Fields.varies fields then do
          let fields ← Fields.instantiate bindings fields
          pure (← newLabel, fields)
        else pure (set, fields)
      let head ← head.instantiateArguments bindings
      return .composite (← newLabel) head traits set fields
    else return .composite label head traits set fields
termination_by structural field => field

def Fields.instantiate (bindings : Bindings) : Fields → Labelling VariableError Fields
  | [] => return []
  | (name, field) :: rest => do
    let field ← Field.instantiate bindings field
    let rest ← Fields.instantiate bindings rest
    return (name, field) :: rest
termination_by structural fields => fields
end

/-- A set under given variables, with new labels from `nextLabel` on. -/
def FieldSet.instantiate (bindings : Bindings) (nextLabel : Nat) (set : FieldSet) :
    Except VariableError FieldSet :=
  if set.fields.varies then do
    let (fields, label) ← Fields.instantiate bindings set.fields nextLabel
    return ⟨label, fields⟩
  else return set

end ResponseGraph
