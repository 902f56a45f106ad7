import ResponseGraph.Proofs.Field.Prepared

/-!
Registries and the requests they serve.

A registry that served requests under one configuration holds nothing but what its documents and
variables lead to (`Derived`), and so what it answers is what the request leads to (`Answers`).
-/

namespace ResponseGraph

namespace Registry

/-- The registry comes of preparing requests under one configuration. -/
inductive Served (config : Config) : Registry → Prop
  | empty : Served config .empty
  | prepare {registry : Registry} (served : Served config registry) (request : Request) :
    Served config (registry.prepare config request).1

/-- The plans are those of their documents, and the operations those of their plans, roots and
bindings. -/
structure Derived (config : Config) (registry : Registry) : Prop where
  plans : ∀ filed ∈ registry.plans, config.plan filed.1 = .ok filed.2
  operations : ∀ entry ∈ registry.operations, config.plan entry.key = .ok entry.operation.plan ∧
    Operation.of entry.operation.plan entry.operation.root entry.operation.bindings =
      .ok entry.operation

theorem Operation.parts_of {plan : Plan} {root : NodeId} {bindings : Bindings}
    {operation : Operation} (h : Operation.of plan root bindings = .ok operation) :
    operation.plan = plan ∧ operation.root = root ∧ operation.bindings = bindings := by
  obtain ⟨selection, -, h⟩ := exists_of_bind_eq_ok h
  cases h
  exact ⟨rfl, rfl, rfl⟩

variable {config : Config} {registry registry' : Registry}

theorem derived_empty (config : Config) : empty.Derived config :=
  ⟨fun _ member => absurd member List.not_mem_nil, fun _ member => absurd member List.not_mem_nil⟩

theorem Derived.plan {key : DocumentKey} (h : registry.Derived config) {plan : Plan}
    (planned : registry.plan config key = .ok (plan, registry')) :
    config.plan key = .ok plan ∧ registry'.Derived config := by
  rcases plan_cases planned with ⟨found, rfl⟩ | ⟨-, first, rfl⟩
  · exact ⟨h.plans _ (mem_of_plan? found), h⟩
  · refine ⟨first, fun filed member => ?_, h.operations⟩
    rcases List.mem_append.mp member with old | new
    · exact h.plans filed old
    · rw [List.mem_singleton.mp new]
      exact first

/-- An operation that is found has the key and the root of the request, and its bindings. -/
theorem of_operation? {key : DocumentKey} {root : NodeId} {bindings : Bindings}
    {entry : Registered} (h : registry.operation? key root bindings = some entry) :
    entry ∈ registry.operations ∧ entry.key = key ∧ entry.operation.root = root ∧
      entry.operation.bindings.same bindings := by
  have matching := List.find?_some h
  simp only [Bool.and_eq_true, decide_eq_true_eq, beq_iff_eq] at matching
  exact ⟨List.mem_of_find?_eq_some h, matching.1.1, matching.1.2, matching.2⟩

/-- What is prepared is what the request leads to. -/
inductive Answers (config : Config) (request : Request) : Except Error Registered → Prop
  | refused {e : DocumentError} (failed : config.plan request.key = .error e) :
    Answers config request (.error (.document e))
  | unbound {plan : Plan} {e : VariableError} (planned : config.plan request.key = .ok plan)
    (failed : Operation.of plan request.root (plan.bindings request.bindings) = .error e) :
    Answers config request (.error (.variable e))
  | ok {plan : Plan} {bindings : Bindings} {entry : Registered}
    (planned : config.plan request.key = .ok plan) (key : entry.key = request.key)
    (bound : bindings = plan.bindings request.bindings ∨
      bindings.same (plan.bindings request.bindings))
    (made : Operation.of plan request.root bindings = .ok entry.operation) :
    Answers config request (.ok entry)

/-- Preparing a request keeps a registry derived, and answers the request. -/
theorem Derived.prepare (h : registry.Derived config) (request : Request) :
    (registry.prepare config request).1.Derived config ∧
      Answers config request (registry.prepare config request).2 := by
  have step := prepares config request registry
  generalize (registry.prepare config request).1 = later at step ⊢
  generalize (registry.prepare config request).2 = answer at step ⊢
  cases step with
  | refused failed =>
    exact ⟨h, .refused (plan_eq_error failed)⟩
  | known planned found =>
    obtain ⟨first, kept⟩ := h.plan planned
    obtain ⟨member, key, root, bindings⟩ := of_operation? found
    obtain ⟨planned', made⟩ := kept.operations _ member
    rw [key, first] at planned'
    cases planned'
    rw [root] at made
    exact ⟨kept, .ok first key (.inr bindings) made⟩
  | unbound planned absent failed =>
    obtain ⟨first, kept⟩ := h.plan planned
    exact ⟨kept, .unbound first failed⟩
  | made planned absent made =>
    obtain ⟨first, kept⟩ := h.plan planned
    obtain ⟨rfl, root, bindings⟩ := Operation.parts_of made
    refine ⟨⟨kept.plans, fun entry member => ?_⟩, .ok first rfl (.inl rfl) made⟩
    rcases List.mem_append.mp member with old | new
    · exact kept.operations entry old
    · rw [List.mem_singleton.mp new]
      exact ⟨first, by rw [root, bindings]; exact made⟩

theorem Served.derived (h : registry.Served config) : registry.Derived config := by
  induction h with
  | empty => exact derived_empty config
  | prepare _ request ih => exact (ih.prepare request).1

end Registry

/-- The registry of a cache stays one that serves requests under its configuration. -/
theorem Cache.served_prepare {cache : Cache} (served : cache.registry.Served cache.config)
    (request : Request) :
    (cache.prepare request).1.registry.Served (cache.prepare request).1.config :=
  served.prepare request

end ResponseGraph
