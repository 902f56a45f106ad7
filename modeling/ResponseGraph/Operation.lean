import ResponseGraph.Plan
import ResponseGraph.Config
import ResponseGraph.Field.Instantiate

/-!
Operations.

An operation is a plan bound to a root and to a value for every variable, ready to
be merged.  The registry keeps plans and operations: requests with one document
share a plan, and requests that also agree on root and variables share an
operation.  Both are only ever added, so an operation is known by its serial
number.
-/

namespace ResponseGraph

structure Operation where
  root : NodeId
  plan : Plan
  /-- The fields under the variables of the operation. -/
  selection : FieldSet
  bindings : Bindings

namespace Operation

/-- No field at any depth has arguments or an alias. -/
def isStatic (operation : Operation) : Bool := !operation.plan.root.fields.isDynamic

def of (plan : Plan) (root : NodeId) (bindings : Bindings) : Except VariableError Operation := do
  return ⟨root, plan, ← plan.root.instantiate bindings plan.nextLabel, bindings⟩

end Operation

/-- The variables of the caller over the defaults of the plan. -/
def Plan.bindings (plan : Plan) (given : Option Bindings) : Bindings :=
  match given with
  | some given => plan.defaults.override given
  | none => plan.defaults

/-- An operation of a registry. -/
structure Registered where
  serial : Nat
  key : DocumentKey
  operation : Operation

structure Registry where
  plans : List (DocumentKey × Plan)
  operations : List Registered

namespace Registry

def empty : Registry := ⟨[], []⟩

def plan? (registry : Registry) (key : DocumentKey) : Option Plan :=
  (registry.plans.find? fun entry => entry.1 = key).map Prod.snd

/-- The plan for a document, made and kept unless there is one. -/
def plan (config : Config) (key : DocumentKey) (registry : Registry) :
    Except DocumentError (Plan × Registry) :=
  match registry.plan? key with
  | some plan => .ok (plan, registry)
  | none => do
    let plan ← Plan.ofKey config.addTypename config.strictVariables key
    return (plan, { registry with plans := registry.plans ++ [(key, plan)] })

def operation? (registry : Registry) (key : DocumentKey) (root : NodeId) (bindings : Bindings) :
    Option Registered :=
  registry.operations.find? fun entry =>
    entry.key = key && entry.operation.root == root && entry.operation.bindings.same bindings

/-- The operation of a request, made and kept unless there is one.  The plan is
kept even if the variables do not suffice. -/
def prepare (config : Config) (request : Request) (registry : Registry) :
    Registry × Except Error Registered :=
  match registry.plan config request.key with
  | .error e => (registry, .error (.document e))
  | .ok (plan, registry) =>
    let bindings := plan.bindings request.bindings
    match registry.operation? request.key request.root bindings with
    | some entry => (registry, .ok entry)
    | none =>
      match Operation.of plan request.root bindings with
      | .error e => (registry, .error (.variable e))
      | .ok operation =>
        let entry := ⟨registry.operations.length, request.key, operation⟩
        ({ registry with operations := registry.operations ++ [entry] }, .ok entry)

end Registry
end ResponseGraph
