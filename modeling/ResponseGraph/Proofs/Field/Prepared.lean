import ResponseGraph.Proofs.Field.Instantiated
import ResponseGraph.Proofs.Field.Resolved
import ResponseGraph.Proofs.Registry.Prepares

/-!
Prepared operations.

A registry starts empty and grows with the requests that are prepared.  The fields of all
operations in it are known, so the label of a set tells which fields it has
(`Registry.Grown.known`).
-/

namespace ResponseGraph

/-- The fields are known by some table, and the labels from `nextLabel` on are free in it. -/
def Plan.Labelled (plan : Plan) : Prop :=
  ∃ labels : Labels, plan.root.Known labels ∧ labels.Below plan.nextLabel

theorem FieldSet.labelled_resolve {addTypename : Bool} {definitions : Table Fragment}
    {selections : List Selection} {resolved : Resolved}
    (h : FieldSet.resolve addTypename definitions selections = .ok resolved) :
    ∃ labels : Labels, resolved.root.Known labels ∧ labels.Below resolved.nextLabel :=
  (FieldSet.resolve_eq_ok (show FieldSet.resolve
    (Scene.mk Table.empty addTypename definitions).addTypename
    _ _ = .ok resolved from h)).1

theorem Plan.labelled_ofKey {addTypename strict : Bool} {key : DocumentKey} {plan : Plan}
    (h : Plan.ofKey addTypename strict key = .ok plan) : plan.Labelled := by
  obtain ⟨definitions, selections, resolved, made, root, -, next⟩ := Plan.exists_resolve_of_ofKey h
  unfold Plan.Labelled
  rw [root, next]
  exact FieldSet.labelled_resolve made

theorem Operation.selection_of {plan : Plan} {root : NodeId} {bindings : Bindings}
    {operation : Operation} (h : Operation.of plan root bindings = .ok operation) :
    plan.root.instantiate bindings plan.nextLabel = .ok operation.selection := by
  unfold Operation.of at h
  cases made : plan.root.instantiate bindings plan.nextLabel with
  | error e =>
    rw [made] at h
    cases h
  | ok selection =>
    rw [made] at h
    cases h
    rfl

/-- The fields of an operation are known by some table. -/
def Operation.Labelled (operation : Operation) : Prop :=
  ∃ labels : Labels, operation.selection.Known labels

theorem Operation.labelled_of {plan : Plan} {root : NodeId} {bindings : Bindings}
    {operation : Operation} (labelled : plan.Labelled)
    (h : Operation.of plan root bindings = .ok operation) : operation.Labelled := by
  obtain ⟨labels, known, free⟩ := labelled
  exact (FieldSet.known_instantiate free known (Operation.selection_of h)).1

namespace Registry

/-- The registry comes of preparing requests. -/
inductive Grown : Registry → Prop
  | empty : Grown .empty
  | prepare {registry : Registry} (grown : Grown registry) (config : Config) (request : Request) :
    Grown (registry.prepare config request).1

structure Labelled (registry : Registry) : Prop where
  plans : ∀ entry ∈ registry.plans, entry.2.Labelled
  operations : ∀ entry ∈ registry.operations, entry.operation.Labelled

theorem labelled_empty : empty.Labelled :=
  ⟨fun _ member => absurd member List.not_mem_nil, fun _ member => absurd member List.not_mem_nil⟩

variable {registry registry' : Registry}

theorem Labelled.plan {config : Config} {key : DocumentKey} {plan : Plan} (h : registry.Labelled)
    (planned : registry.plan config key = .ok (plan, registry')) :
    plan.Labelled ∧ registry'.Labelled := by
  rcases plan_cases planned with ⟨found, rfl⟩ | ⟨-, made, rfl⟩
  · exact ⟨h.plans _ (mem_of_plan? found), h⟩
  · have labelled := Plan.labelled_ofKey made
    refine ⟨labelled, fun entry member => ?_, h.operations⟩
    rcases List.mem_append.mp member with old | new
    · exact h.plans entry old
    · rw [List.mem_singleton.mp new]
      exact labelled

/-- Preparing a request keeps what is known, and gives an operation that is. -/
theorem Labelled.prepare (h : registry.Labelled) (config : Config) (request : Request) :
    (registry.prepare config request).1.Labelled ∧
      ∀ entry, (registry.prepare config request).2 = .ok entry → entry.operation.Labelled := by
  have step := prepares config request registry
  generalize (registry.prepare config request).1 = later at step ⊢
  generalize (registry.prepare config request).2 = answer at step ⊢
  cases step with
  | refused => exact ⟨h, fun _ impossible => by cases impossible⟩
  | known planned found =>
    obtain ⟨-, kept⟩ := h.plan planned
    refine ⟨kept, fun entry e => ?_⟩
    cases e
    exact kept.operations _ (List.mem_of_find?_eq_some found)
  | unbound planned => exact ⟨(h.plan planned).2, fun _ impossible => by cases impossible⟩
  | made planned absent made =>
    obtain ⟨labelled, kept⟩ := h.plan planned
    have known := Operation.labelled_of labelled made
    refine ⟨⟨kept.plans, fun entry member => ?_⟩, fun entry e => ?_⟩
    · rcases List.mem_append.mp member with old | new
      · exact kept.operations entry old
      · rw [List.mem_singleton.mp new]
        exact known
    · cases e
      exact known

theorem Grown.labelled (h : registry.Grown) : registry.Labelled := by
  induction h with
  | empty => exact labelled_empty
  | prepare _ config request ih => exact (ih.prepare config request).1

end Registry

/-- In a cache whose registry has grown the operation of a request is known. -/
theorem Registry.Grown.known {cache : Cache} {request : Request} {entry : Registered}
    (h : cache.registry.Grown) (prepared : (cache.prepare request).2 = .ok entry) :
    entry.operation.Labelled :=
  (h.labelled.prepare cache.config request).2 entry prepared

end ResponseGraph
