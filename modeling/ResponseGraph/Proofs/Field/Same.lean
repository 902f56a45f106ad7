import ResponseGraph.Operation
import ResponseGraph.Proofs.Argument.Alike
import ResponseGraph.Proofs.Field.Outline

/-!
Operations under bindings that are the same.

Two selections are the same if they have the same fields under the same labels, with arguments
that are the same.  One plan gives operations that are the same under bindings that are the same,
or it gives one under neither.
-/

namespace ResponseGraph

/-- The same guards and the same place in storage, included in one if in the other. -/
structure FieldHead.Same (a b : FieldHead) : Prop where
  agrees : a.Agrees b
  guards : a.guards = b.guards
  excluded : a.excluded = b.excluded

/- The same labels and traits, and heads that are the same. -/
mutual
inductive Field.Same : Field → Field → Prop
  | leaf (label : Nat) {head head' : FieldHead} (heads : head.Same head') :
    Field.Same (.leaf label head) (.leaf label head')
  | composite (label : Nat) (traits : Traits) (set : Nat) {head head' : FieldHead}
    {fields fields' : List (String × Field)} (heads : head.Same head')
    (inner : Fields.Same fields fields') :
    Field.Same (.composite label head traits set fields) (.composite label head' traits set fields')

inductive Fields.Same : List (String × Field) → List (String × Field) → Prop
  | nil : Fields.Same [] []
  | cons (name : String) {field field' : Field} {rest rest' : List (String × Field)}
    (here : Field.Same field field') (others : Fields.Same rest rest') :
    Fields.Same ((name, field) :: rest) ((name, field') :: rest')
end

structure FieldSet.Same (a b : FieldSet) : Prop where
  label : a.label = b.label
  fields : Fields.Same a.fields b.fields

/-- Operations of one plan at one root, with the same fields and bindings that are the same. -/
structure Operation.Same (a b : Operation) : Prop where
  root : a.root = b.root
  plan : a.plan = b.plan
  selection : a.selection.Same b.selection
  bindings : a.bindings.same b.bindings

theorem FieldHead.Same.refl (head : FieldHead) : head.Same head := ⟨.refl head, rfl, rfl⟩

mutual
theorem Field.Same.refl : (field : Field) → field.Same field
  | .leaf label head => .leaf label (.refl head)
  | .composite label head traits set fields =>
    .composite label traits set (.refl head) (Fields.Same.refl fields)

theorem Fields.Same.refl : (fields : Fields) → Fields.Same fields fields
  | [] => .nil
  | (name, field) :: rest => .cons name (Field.Same.refl field) (Fields.Same.refl rest)
end

theorem FieldSet.Same.refl (set : FieldSet) : set.Same set := ⟨rfl, .refl set.fields⟩

theorem Operation.Same.refl {operation : Operation} (distinct : operation.bindings.Distinct) :
    operation.Same operation := ⟨rfl, rfl, .refl _, Bindings.same_refl distinct⟩

/-! ## Computations that take labels -/

namespace Labelling

variable {ε α β α' β' : Type} {related : α → β → Prop}

/-- From any label on, both fail, or both give values that are related and take as many labels. -/
def SameOutcome (related : α → β → Prop) (x : Labelling ε α) (y : Labelling ε β) : Prop :=
  ∀ next, ResponseGraph.SameOutcome (fun first second => related first.1 second.1 ∧
    first.2 = second.2) (x next) (y next)

theorem sameOutcome_pure {a : α} {b : β} (h : related a b) :
    SameOutcome related (pure a : Labelling ε α) (pure b) :=
  fun _ => .ok ⟨h, rfl⟩

theorem sameOutcome_newLabel : SameOutcome Eq (newLabel : Labelling ε Nat) newLabel :=
  fun _ => .ok ⟨rfl, rfl⟩

theorem sameOutcome_lift {x : Except ε α} {y : Except ε β}
    (h : ResponseGraph.SameOutcome related x y) :
    SameOutcome related (liftM x : Labelling ε α) (liftM y : Labelling ε β) := by
  intro next
  cases h with
  | error e e' => exact .error e e'
  | ok h => exact .ok ⟨h, rfl⟩

theorem SameOutcome.bind {x : Labelling ε α} {y : Labelling ε β} {last : α' → β' → Prop}
    {f : α → Labelling ε α'} {g : β → Labelling ε β'} (h : SameOutcome related x y)
    (next : ∀ a b, related a b → SameOutcome last (f a) (g b)) :
    SameOutcome last (x >>= f) (y >>= g) := by
  refine fun label => (h label).bind ?_
  rintro ⟨a, between⟩ ⟨b, _⟩ ⟨same, rfl⟩
  exact next a b same between

end Labelling

/-! ## Instantiated fields -/

section

variable {a b : Bindings}

open Labelling

theorem FieldHead.sameOutcome_decide (alike : a.Alike b) (head : FieldHead) :
    SameOutcome Eq (head.decide a) (head.decide b) := by
  refine (Guard.sameOutcome_anyHolds alike head.guards).bind fun held _ same => ?_
  subst same
  exact .ok rfl

theorem FieldHead.sameOutcome_instantiateArguments (alike : a.Alike b) (head : FieldHead) :
    SameOutcome FieldHead.Same (head.instantiateArguments a) (head.instantiateArguments b) := by
  unfold instantiateArguments
  split
  · exact .ok (.refl head)
  · next arguments given =>
    refine (Argument.sameOutcome_instantiateMembers alike arguments).bind fun xs ys same => ?_
    exact .ok ⟨⟨same, rfl⟩, rfl, rfl⟩

mutual
theorem Field.sameOutcome_instantiate (alike : a.Alike b) : (field : Field) →
    Labelling.SameOutcome Field.Same (field.instantiate a) (field.instantiate b)
  | .leaf label head => by
    unfold Field.instantiate
    split
    · refine (sameOutcome_lift (head.sameOutcome_decide alike)).bind fun decided _ same => ?_
      subst same
      refine (sameOutcome_lift (decided.sameOutcome_instantiateArguments alike)).bind
        fun _ _ heads => ?_
      refine sameOutcome_newLabel.bind fun label _ same => ?_
      subst same
      exact sameOutcome_pure (.leaf label heads)
    · exact sameOutcome_pure (.refl _)
  | .composite label head traits set fields => by
    unfold Field.instantiate
    split
    · refine (sameOutcome_lift (head.sameOutcome_decide alike)).bind fun decided _ same => ?_
      subst same
      have finish (set : Nat) {made made' : Fields} (inner : Fields.Same made made') :
          Labelling.SameOutcome Field.Same (do
            let head ← decided.instantiateArguments a
            return .composite (← newLabel) head traits set made : Labelling VariableError Field) (do
            let head ← decided.instantiateArguments b
            return .composite (← newLabel) head traits set made') := by
        refine (sameOutcome_lift (decided.sameOutcome_instantiateArguments alike)).bind
          fun _ _ heads => ?_
        refine sameOutcome_newLabel.bind fun label _ same => ?_
        subst same
        exact sameOutcome_pure (.composite label traits set heads inner)
      split
      · refine (Fields.sameOutcome_instantiate alike fields).bind fun _ _ inner => ?_
        refine sameOutcome_newLabel.bind fun label _ same => ?_
        subst same
        exact finish label inner
      · exact finish set (.refl fields)
    · exact sameOutcome_pure (.refl _)

theorem Fields.sameOutcome_instantiate (alike : a.Alike b) : (fields : Fields) →
    Labelling.SameOutcome Fields.Same (Fields.instantiate a fields) (Fields.instantiate b fields)
  | [] => sameOutcome_pure .nil
  | (name, field) :: rest => by
    unfold Fields.instantiate
    refine (Field.sameOutcome_instantiate alike field).bind fun _ _ here => ?_
    refine (Fields.sameOutcome_instantiate alike rest).bind fun _ _ others => ?_
    exact sameOutcome_pure (.cons name here others)
end

theorem FieldSet.sameOutcome_instantiate (alike : a.Alike b) (next : Nat) (set : FieldSet) :
    SameOutcome FieldSet.Same (set.instantiate a next) (set.instantiate b next) := by
  unfold FieldSet.instantiate
  split
  · exact (Fields.sameOutcome_instantiate alike set.fields next).bind fun _ _ made =>
      .ok ⟨made.2, made.1⟩
  · exact .ok (.refl set)

/-- Under bindings that are the same a plan gives operations that are the same, or none. -/
theorem Operation.sameOutcome_of (plan : Plan) (root : NodeId) (ha : a.Distinct)
    (hb : b.Distinct) (same : a.same b) :
    SameOutcome Operation.Same (Operation.of plan root a) (Operation.of plan root b) :=
  (FieldSet.sameOutcome_instantiate (Bindings.alike_of_same ha hb same) plan.nextLabel
    plan.root).bind fun _ _ selection => .ok ⟨rfl, rfl, selection, same⟩

end

end ResponseGraph
