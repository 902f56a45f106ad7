import ResponseGraph.Cache
import ResponseGraph.Proofs.Basic

/-!
What comes of preparing a request.

A plan is made of a fragment or of the only operation of a document, and holds what its selections
resolve to (`Plan.Made`).  A registry finds a plan or makes it (`Registry.plan_cases`), and then it
finds an operation or makes it (`Registry.Prepares`).  Whatever holds of all that is prepared
follows from these three, once and for all.
-/

namespace ResponseGraph

/-! ## Plans -/

namespace Plan

variable {addTypename strict : Bool} {document : Document} {definition : OperationDefinition}
  {key : DocumentKey} {plan : Plan}

theorem soleOperation_eq_ok (h : soleOperation document = .ok definition) :
    document.operations = [definition] := by
  unfold soleOperation at h
  split at h
  · next operation sole =>
    cases h
    exact sole
  · cases h

/-- How the plan of an operation is made. -/
theorem exists_of_ofOperation (h : ofOperation addTypename strict document = .ok plan) :
    ∃ definition resolved, document.operations = [definition] ∧
      FieldSet.resolve addTypename document.fragmentTable definition.selections = .ok resolved ∧
      (strict → checkVariables definition resolved.used = .ok ()) ∧
      plan = ⟨definition.kind, definition.name, resolved.root, resolved.used,
        declaredDefaults definition, resolved.nextLabel⟩ := by
  obtain ⟨definition, sole, h⟩ := exists_of_bind_eq_ok h
  obtain ⟨resolved, made, h⟩ := exists_of_bind_eq_ok h
  refine ⟨definition, resolved, soleOperation_eq_ok sole, made, ?_⟩
  cases strict with
  | false =>
    cases h
    exact ⟨fun impossible => absurd impossible Bool.false_ne_true, rfl⟩
  | true =>
    obtain ⟨_, checked, h⟩ := exists_of_bind_eq_ok h
    cases h
    exact ⟨fun _ => checked, rfl⟩

/-- A plan holds what the selections of its operation resolve to. -/
theorem ofOperation_eq_ok (sole : document.operations = [definition])
    (h : ofOperation addTypename strict document = .ok plan) :
    ∃ resolved, FieldSet.resolve addTypename document.fragmentTable definition.selections =
      .ok resolved ∧ plan.root = resolved.root ∧ plan.nextLabel = resolved.nextLabel := by
  obtain ⟨other, resolved, only, made, -, rfl⟩ := exists_of_ofOperation h
  cases sole.symm.trans only
  exact ⟨resolved, made, rfl, rfl⟩

/-- How the plan of a document is made. -/
inductive Made (addTypename strict : Bool) (key : DocumentKey) : Plan → Prop
  | fragment {document : Document} {fragment : Fragment} {resolved : Resolved}
    (parsed : Document.parse? key.text = some document) (only : key.fragmentsOnly = true)
    (chosen : chosenFragment document key.fragmentName = .ok fragment)
    (resolves : FieldSet.resolve addTypename document.fragmentTable fragment.selections =
      .ok resolved) :
    Made addTypename strict key ⟨.query, some fragment.name, resolved.root, resolved.used,
      Table.empty, resolved.nextLabel⟩
  | operation {document : Document} {definition : OperationDefinition} {resolved : Resolved}
    (parsed : Document.parse? key.text = some document) (whole : key.fragmentsOnly = false)
    (sole : document.operations = [definition])
    (resolves : FieldSet.resolve addTypename document.fragmentTable definition.selections =
      .ok resolved)
    (checked : strict → checkVariables definition resolved.used = .ok ()) :
    Made addTypename strict key ⟨definition.kind, definition.name, resolved.root, resolved.used,
      declaredDefaults definition, resolved.nextLabel⟩

theorem made_of_ofKey (h : ofKey addTypename strict key = .ok plan) :
    Made addTypename strict key plan := by
  unfold ofKey at h
  split at h
  · cases h
  · next document parsed =>
    split at h
    · next only =>
      obtain ⟨fragment, chosen, h⟩ := exists_of_bind_eq_ok h
      obtain ⟨resolved, resolves, h⟩ := exists_of_bind_eq_ok h
      cases h
      exact .fragment parsed only chosen resolves
    · next whole =>
      obtain ⟨definition, resolved, sole, resolves, checked, rfl⟩ := exists_of_ofOperation h
      exact .operation parsed (Bool.eq_false_iff.mpr whole) sole resolves checked

theorem exists_resolve_of_ofKey (h : ofKey addTypename strict key = .ok plan) :
    ∃ definitions selections resolved,
      FieldSet.resolve addTypename definitions selections = .ok resolved ∧
        plan.root = resolved.root ∧ plan.used = resolved.used ∧
        plan.nextLabel = resolved.nextLabel := by
  cases made_of_ofKey h with
  | fragment _ _ _ resolves => exact ⟨_, _, _, resolves, rfl, rfl, rfl⟩
  | operation _ _ _ resolves => exact ⟨_, _, _, resolves, rfl, rfl, rfl⟩

end Plan

/-- The plan of a document under a configuration. -/
abbrev Config.plan (config : Config) (key : DocumentKey) : Except DocumentError Plan :=
  Plan.ofKey config.addTypename config.strictVariables key

/-! ## Registries -/

namespace Registry

variable {config : Config} {registry registry' : Registry} {key : DocumentKey} {plan : Plan}

theorem mem_of_plan? (h : registry.plan? key = some plan) : (key, plan) ∈ registry.plans := by
  obtain ⟨⟨other, found⟩, first, rfl⟩ := Option.map_eq_some_iff.mp h
  have same : other = key := by simpa using List.find?_some first
  exact same ▸ List.mem_of_find?_eq_some first

/-- A plan is found, or it is made and kept. -/
theorem plan_cases (planned : registry.plan config key = .ok (plan, registry')) :
    (registry.plan? key = some plan ∧ registry' = registry) ∨
      (registry.plan? key = none ∧ config.plan key = .ok plan ∧
        registry' = { registry with plans := registry.plans ++ [(key, plan)] }) := by
  unfold Registry.plan at planned
  split at planned
  · next found =>
    cases planned
    exact .inl ⟨found, rfl⟩
  · next unknown =>
    obtain ⟨made, first, planned⟩ := exists_of_bind_eq_ok planned
    cases planned
    exact .inr ⟨unknown, first, rfl⟩

theorem plan_eq_error {e : DocumentError} (failed : registry.plan config key = .error e) :
    config.plan key = .error e := by
  unfold Registry.plan at failed
  split at failed
  · cases failed
  · unfold Config.plan
    cases made : Plan.ofKey config.addTypename config.strictVariables key with
    | error e =>
      rw [made] at failed
      cases failed
      rfl
    | ok plan =>
      rw [made] at failed
      cases failed

/-- The plan of a document is kept. -/
theorem plan?_of_plan (h : registry.plan config key = .ok (plan, registry')) :
    registry'.plan? key = some plan := by
  rcases plan_cases h with ⟨found, rfl⟩ | ⟨unknown, -, rfl⟩
  · exact found
  · have before : registry.plans.find? (fun entry => entry.1 = key) = none :=
      Option.map_eq_none_iff.mp unknown
    unfold plan?
    rw [List.find?_append, before, Option.none_or, List.find?_cons_of_pos (by simp)]
    rfl

theorem plan_of_plan? (h : registry.plan? key = some plan) :
    registry.plan config key = .ok (plan, registry) := by
  unfold Registry.plan
  rw [h]

/-- What comes of preparing a request: the registry after it, and the answer. -/
inductive Prepares (config : Config) (request : Request) (registry : Registry) :
    Registry → Except Error Registered → Prop
  | refused {e : DocumentError} (failed : registry.plan config request.key = .error e) :
    Prepares config request registry registry (.error (.document e))
  | known {plan : Plan} {registry' : Registry} {entry : Registered}
    (planned : registry.plan config request.key = .ok (plan, registry'))
    (found : registry'.operation? request.key request.root (plan.bindings request.bindings) =
      some entry) :
    Prepares config request registry registry' (.ok entry)
  | unbound {plan : Plan} {registry' : Registry} {e : VariableError}
    (planned : registry.plan config request.key = .ok (plan, registry'))
    (absent : registry'.operation? request.key request.root (plan.bindings request.bindings) = none)
    (failed : Operation.of plan request.root (plan.bindings request.bindings) = .error e) :
    Prepares config request registry registry' (.error (.variable e))
  | made {plan : Plan} {registry' : Registry} {operation : Operation}
    (planned : registry.plan config request.key = .ok (plan, registry'))
    (absent : registry'.operation? request.key request.root (plan.bindings request.bindings) = none)
    (made : Operation.of plan request.root (plan.bindings request.bindings) = .ok operation) :
    Prepares config request registry
      ⟨registry'.plans,
        registry'.operations ++ [⟨registry'.operations.length, request.key, operation⟩]⟩
      (.ok ⟨registry'.operations.length, request.key, operation⟩)

theorem prepares (config : Config) (request : Request) (registry : Registry) :
    Prepares config request registry (registry.prepare config request).1
      (registry.prepare config request).2 := by
  unfold prepare
  split
  · next failed => exact .refused failed
  · next planned =>
    dsimp only
    split
    · next found => exact .known planned found
    · next absent =>
      split
      · next failed => exact .unbound planned absent failed
      · next operation made => exact .made planned absent made

/-- A request that was prepared is prepared to the same operation again. -/
theorem prepare_again {request : Request} {entry : Registered}
    (h : registry.prepare config request = (registry', .ok entry)) :
    ∃ again, (registry'.prepare config request).2 = .ok again ∧
      again.operation = entry.operation := by
  have step := prepares config request registry
  rw [h] at step
  cases step with
  | known planned found =>
    rw [prepare, plan_of_plan? (plan?_of_plan planned)]
    dsimp only
    rw [found]
    exact ⟨entry, rfl, rfl⟩
  | @made plan middle operation planned absent made =>
    have found := plan?_of_plan planned
    have kept : plan? ⟨middle.plans, middle.operations ++
        [⟨middle.operations.length, request.key, operation⟩]⟩ request.key = some plan := found
    rw [prepare, plan_of_plan? kept]
    dsimp only
    split
    · next found again =>
      refine ⟨found, rfl, ?_⟩
      unfold operation? at absent again
      rw [List.find?_append, absent, Option.none_or] at again
      rw [List.mem_singleton.mp (List.mem_of_find?_eq_some again)]
    · rw [made]
      exact ⟨_, rfl, rfl⟩

end Registry
end ResponseGraph
