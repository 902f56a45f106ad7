import ResponseGraph.Proofs.Field.Variables

/-!
Fields without variables.

Instantiating replaces the variables of the arguments, and it passes over fields below which
nothing depends on a variable.  That it misses none rests on the traits of a field being those of
the fields below it.  What it fails with is a variable that has no value, or a condition that is
no truth value.
-/

namespace ResponseGraph

/-- No argument has a variable. -/
def FieldHead.Closed (head : FieldHead) : Prop :=
  ∀ arguments, head.arguments = some arguments → arguments.variableNames = []

/-! ## Fields that are passed over -/

section

variable {labels : Labels}

theorem Fields.varies_of_traits {fields : Fields} (plain : fields.isDynamic = false)
    (unguarded : fields.isGuarded = false) : fields.varies = false := by
  refine List.any_eq_false.mpr fun entry member => ?_
  have dynamic := List.any_eq_false.mp plain entry member
  have guarded := List.any_eq_false.mp unguarded entry member
  simp only [Bool.not_eq_true, Field.isDynamic, Bool.or_eq_false_iff] at dynamic guarded
  simp only [Field.varies, dynamic, guarded, Bool.or_false, Bool.false_eq_true, not_false_eq_true]

mutual
/-- A field in which nothing varies has no arguments, and neither has a field below it. -/
theorem Field.closed_of_varies : (field : Field) → field.Known labels → field.varies = false →
    field.shape.All FieldHead.Closed
  | .leaf label head, _, same => by
    intro arguments given
    simp [Field.varies, Field.head, given] at same
  | .composite label head traits set fields, known, same => by
    have accurate : traits = Fields.traits fields := known.2.2.1
    simp only [Field.varies, Field.isGuarded, Bool.or_eq_false_iff] at same
    obtain ⟨⟨none, dynamic⟩, -, guarded⟩ := same
    refine ⟨fun arguments given => ?_, Fields.closed_of_varies fields known.2.2.2.2 ?_⟩
    · rw [Field.head, given] at none
      cases none
    · rw [Field.traits, accurate] at dynamic guarded
      exact Fields.varies_of_traits dynamic guarded

theorem Fields.closed_of_varies : (fields : Fields) → Fields.Known labels fields →
    fields.varies = false → fields.All FieldHead.Closed
  | [], _, _ => .nil
  | (name, field) :: rest, known, same => by
    obtain ⟨here, later⟩ := Bool.or_eq_false_iff.mp same
    exact ⟨Field.closed_of_varies field known.1 here,
      Fields.closed_of_varies rest known.2 later⟩
end

end

/-! ## Conditions -/

section

variable {bindings : Bindings} {names : List String}

theorem Condition.ends_holds (condition : Condition)
    (subset : condition.value.variableNames ⊆ names) :
    Ends (fun _ => True) (·.Justified bindings names) (condition.holds bindings) := by
  refine (Argument.ends_instantiate condition.value subset).bind fun value _ => ?_
  cases value with
  | bool value => exact .ok trivial
  | _ => exact .error trivial

namespace Guard

theorem ends_holds : (guard : Guard) → guard.variableNames ⊆ names →
    Ends (fun _ => True) (·.Justified bindings names) (guard.holds bindings)
  | [], _ => .ok trivial
  | condition :: rest, subset => by
    obtain ⟨here, later⟩ := List.append_subset.mp subset
    refine (condition.ends_holds here).bind fun held _ => ?_
    cases held with
    | true => exact ends_holds rest later
    | false => exact .ok trivial

theorem ends_anyHolds : (guards : List Guard) → (∀ guard ∈ guards, guard.variableNames ⊆ names) →
    Ends (fun _ => True) (·.Justified bindings names) (anyHolds bindings guards)
  | [], _ => .ok trivial
  | [guard], subset => ends_holds guard (subset guard List.mem_cons_self)
  | guard :: next :: rest, subset => by
    refine (ends_holds guard (subset guard List.mem_cons_self)).bind fun held _ => ?_
    cases held with
    | true => exact .ok trivial
    | false =>
      exact ends_anyHolds (next :: rest) fun other member =>
        subset other (List.mem_cons_of_mem _ member)

end Guard

namespace FieldHead

variable {head : FieldHead}

theorem ends_decide (draws : head.DrawsOn names) :
    Ends (fun decided : FieldHead => decided.DrawsOn names) (·.Justified bindings names)
      (head.decide bindings) :=
  (Guard.ends_anyHolds head.guards draws.guards).bind fun _ _ =>
    .ok ⟨draws.arguments, draws.guards⟩

theorem ends_instantiateArguments (draws : head.DrawsOn names) :
    Ends Closed (·.Justified bindings names) (head.instantiateArguments bindings) := by
  unfold instantiateArguments
  split
  · next none =>
    refine .ok fun arguments given => ?_
    rw [none] at given
    cases given
  · next arguments given =>
    refine (Argument.ends_instantiateMembers arguments
      (draws.arguments arguments given)).bind fun filled closed => .ok fun found e => ?_
    cases e
    exact closed

end FieldHead

end

/-! ## Computations that take labels -/

namespace Labelling

variable {ε α β : Type} {good : α → Prop} {bad : ε → Prop} {action : Labelling ε α}

/-- What the computation may come to, whatever label comes next. -/
def Ends (good : α → Prop) (bad : ε → Prop) (action : Labelling ε α) : Prop :=
  ∀ next, ResponseGraph.Ends (fun result => good result.1) bad (action next)

theorem ends_pure {a : α} (h : good a) : Ends good bad (pure a : Labelling ε α) :=
  fun _ => .ok h

theorem ends_newLabel : Ends (fun _ => True) bad (newLabel : Labelling ε Nat) :=
  fun _ => .ok trivial

theorem ends_lift {x : Except ε α} (h : ResponseGraph.Ends good bad x) :
    Ends good bad (liftM x : Labelling ε α) := by
  intro next
  cases h with
  | error h => exact .error h
  | ok h => exact .ok h

theorem Ends.bind {last : β → Prop} {f : α → Labelling ε β} (h : Ends good bad action)
    (next : ∀ a, good a → Ends last bad (f a)) : Ends last bad (action >>= f) :=
  fun label => (h label).bind fun result made => next result.1 made result.2

end Labelling

/-! ## Instantiated fields -/

section

variable {labels : Labels} {bindings : Bindings} {names : List String}

open Labelling

mutual
theorem Field.ends_instantiate : (field : Field) → field.Known labels →
    field.shape.All (FieldHead.DrawsOn names) →
    Labelling.Ends (fun made : Field => made.shape.All FieldHead.Closed)
      (·.Justified bindings names) (field.instantiate bindings)
  | .leaf label head, known, draws => by
    unfold Field.instantiate
    split
    · refine (ends_lift (FieldHead.ends_decide draws)).bind fun decided draws => ?_
      refine (ends_lift (FieldHead.ends_instantiateArguments draws)).bind fun filled closed => ?_
      exact ends_newLabel.bind fun _ _ => ends_pure closed
    · next same =>
      exact ends_pure (Field.closed_of_varies _ known (Bool.not_eq_true _ ▸ same))
  | .composite label head traits set fields, known, draws => by
    unfold Field.instantiate
    split
    · refine (ends_lift (FieldHead.ends_decide draws.1)).bind fun decided drawn => ?_
      have finish (set : Nat) (fields : Fields) (all : fields.All FieldHead.Closed) :
          Labelling.Ends (fun made : Field => made.shape.All FieldHead.Closed)
            (·.Justified bindings names) (do
              let head ← decided.instantiateArguments bindings
              return .composite (← newLabel) head traits set fields :
                Labelling VariableError Field) :=
        (ends_lift (FieldHead.ends_instantiateArguments drawn)).bind fun filled closed =>
          ends_newLabel.bind fun _ _ => ends_pure ⟨closed, all⟩
      split
      · refine (Fields.ends_instantiate fields known.2.2.2.2 draws.2).bind fun made all => ?_
        refine ends_newLabel.bind fun label _ => ?_
        exact finish label made all
      · next same =>
        exact finish set fields
          (Fields.closed_of_varies fields known.2.2.2.2 (Bool.not_eq_true _ ▸ same))
    · next same =>
      exact ends_pure (Field.closed_of_varies _ known (Bool.not_eq_true _ ▸ same))

theorem Fields.ends_instantiate : (fields : Fields) → Fields.Known labels fields →
    fields.All (FieldHead.DrawsOn names) →
    Labelling.Ends (fun made : Fields => made.All FieldHead.Closed)
      (·.Justified bindings names) (Fields.instantiate bindings fields)
  | [], _, _ => ends_pure .nil
  | (name, field) :: rest, known, draws => by
    unfold Fields.instantiate
    refine (Field.ends_instantiate field known.1 draws.1).bind fun first closed => ?_
    refine (Fields.ends_instantiate rest known.2 draws.2).bind fun others all => ?_
    exact ends_pure ⟨closed, all⟩
end

theorem FieldSet.ends_instantiate {set : FieldSet} (known : Fields.Known labels set.fields)
    (draws : set.fields.All (FieldHead.DrawsOn names)) (next : Nat) :
    Ends (fun made : FieldSet => made.fields.All FieldHead.Closed) (·.Justified bindings names)
      (set.instantiate bindings next) := by
  unfold FieldSet.instantiate
  split
  · exact (Fields.ends_instantiate set.fields known draws next).bind fun made all => .ok all
  · next same => exact .ok (Fields.closed_of_varies _ known (Bool.not_eq_true _ ▸ same))

/-- An operation that is made has no variables in its arguments; one that is not made lacks a value
for a variable that its plan uses, or has a condition that is no truth value. -/
theorem Operation.ends_of {addTypename strict : Bool} {key : DocumentKey} {plan : Plan}
    (planned : Plan.ofKey addTypename strict key = .ok plan) (root : NodeId)
    (bindings : Bindings) :
    Ends (fun operation : Operation => operation.selection.fields.All FieldHead.Closed)
      (·.Justified bindings plan.used) (Operation.of plan root bindings) := by
  obtain ⟨labels, known, -⟩ := Plan.labelled_ofKey planned
  exact (FieldSet.ends_instantiate known.proper.known (Plan.draws_on_used planned)
    plan.nextLabel).bind fun selection all => .ok all

end

end ResponseGraph
