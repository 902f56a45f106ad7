import ResponseGraph.Proofs.Field.Prepared

/-!
Live paths.

A path of response names is live in an operation if no field along it is excluded.  Merging
unites the guards of repeated fields and the fields below them separately, so a path is
live when every level of it is selected by some chain of the document whose last guard
holds.  The chains may be different ones: a field that only an excluded occurrence of its
parent selects is live when another occurrence includes the parent.
-/

namespace ResponseGraph

open Labels
open Selection (Occurs OccursBelow)

/-- The fields of the sub-selection. -/
def Field.inner : Field → Fields
  | .leaf _ _ => []
  | .composite _ _ _ _ fields => fields

/-- The path has fields whose heads have a property. -/
def Fields.Along (holds : FieldHead → Prop) (fields : Fields) : List String → Prop
  | [] => True
  | name :: rest => ∃ field, Entries.get? name fields = some field ∧ holds field.head ∧
    Fields.Along holds field.inner rest

/-- No field along the path is excluded. -/
def Fields.Live (fields : Fields) (path : List String) : Prop :=
  Fields.Along (fun head => head.excluded = false) fields path

/-- The guards include every field along the path. -/
abbrev Fields.Passing (bindings : Bindings) (fields : Fields) (path : List String) : Prop :=
  Fields.Along (fun head => Guard.Passes bindings head.guards) fields path

/-- Occurrences of the names of a path, each below the one before, with their guards. -/
inductive Selection.Spelled (below : List Selection → Occurrences) :
    Occurrences → List String → List Guard → Prop
  | last {occurs : Occurrences} {name : String} {guard : Guard} {inner : List Selection}
    (found : occurs name guard inner) : Spelled below occurs [name] [guard]
  | step {occurs : Occurrences} {name : String} {guard : Guard} {inner : List Selection}
    {path : List String} {guards : List Guard} (found : occurs name guard inner)
    (rest : Spelled below (below inner) path guards) :
    Spelled below occurs (name :: path) (guard :: guards)

/-- The path is spelled in a way in which its last guard holds. -/
def Selection.Reached (bindings : Bindings) (below : List Selection → Occurrences)
    (occurs : Occurrences) (path : List String) : Prop :=
  ∃ guards guard, Spelled below occurs path (guards ++ [guard]) ∧
    Guard.holds bindings guard = .ok true

/-- The path is spelled in a way in which all of its guards hold. -/
def Selection.Executed (bindings : Bindings) (below : List Selection → Occurrences)
    (occurs : Occurrences) (path : List String) : Prop :=
  ∃ guards, Spelled below occurs path guards ∧
    ∀ guard ∈ guards, Guard.holds bindings guard = .ok true

/-! ## Guards along a path -/

theorem Fields.along_cons {holds : FieldHead → Prop} {fields : Fields} {name : String}
    {rest : List String} : Fields.Along holds fields (name :: rest) ↔
      ∃ field, Entries.get? name fields = some field ∧ holds field.head ∧
        Fields.Along holds field.inner rest := Iff.rfl

theorem Fields.get?_of_isGuarded {fields : Fields} (plain : fields.isGuarded = false)
    {name : String}
    {field : Field} (found : Entries.get? name fields = some field) : field.isGuarded = false := by
  have all := List.any_eq_false.mp plain (name, field) (Entries.mem_of_get? found)
  exact Bool.not_eq_true _ ▸ all

section

variable {bindings : Bindings} {below : List Selection → Occurrences}
  {here : Guard → List Selection → Prop} {labels : Labels}

/-- The fields below stand for what occurs below, also if there are none. -/
theorem Field.Stands.inner {field : Field} (stands : field.Stands bindings below here) :
    Fields.Select bindings below (occursWithin below here) field.inner := by
  cases field with
  | leaf =>
    refine ⟨fun name => iff_of_false List.not_mem_nil ?_, trivial⟩
    intro h
    obtain ⟨guard, inner, found⟩ := h
    exact stands.2 name guard inner found
  | composite => exact ⟨stands.2.1, stands.2.2⟩

theorem Field.Known.inner {field : Field} (known : field.Known labels) :
    Fields.Known labels field.inner := by
  cases field with
  | leaf => trivial
  | composite => exact known.2.2.2.2

theorem Field.Known.unguarded {field : Field} (known : field.Known labels)
    (plain : field.isGuarded = false) :
    field.head.guards = [] ∧ field.inner.isGuarded = false := by
  unfold Field.isGuarded at plain
  rw [Bool.or_eq_false_iff, Bool.not_eq_false', List.isEmpty_iff] at plain
  refine ⟨plain.1, ?_⟩
  cases field with
  | leaf => rfl
  | composite label head traits set fields =>
    have accurate : traits = Fields.traits fields := known.2.2.1
    have guarded : traits.guarded = false := plain.2
    rw [accurate] at guarded
    exact guarded

/-- Without a guard anywhere below, nothing is excluded and all guards pass. -/
theorem Fields.live_of_unguarded {fields : Fields} {occurs : Occurrences} {path : List String}
    (known : Fields.Known labels fields) (select : Fields.Select bindings below occurs fields)
    (plain : fields.isGuarded = false) :
    Fields.Live fields path ↔ Fields.Passing bindings fields path := by
  induction path generalizing fields occurs with
  | nil => exact Iff.rfl
  | cons name rest ih =>
    refine exists_congr fun field => and_congr_right fun found => ?_
    have stands := select.stands_of_get? found
    have field_known := Fields.known_iff.mp known _ (Entries.mem_of_get? found)
    have unguarded := field_known.unguarded (Fields.get?_of_isGuarded plain found)
    exact and_congr (iff_of_true stands.fair.1 (Or.inl unguarded.1))
      (ih field_known.inner stands.inner unguarded.2)

theorem Field.isGuarded_of_varies {field : Field} (h : field.varies = false) :
    field.isGuarded = false := by
  unfold Field.varies at h
  rw [Bool.or_eq_false_iff] at h
  exact h.2

theorem Fields.isGuarded_of_varies {fields : Fields} (h : fields.varies = false) :
    fields.isGuarded = false := by
  refine List.any_eq_false.mpr fun entry member => ?_
  have plain := List.any_eq_false.mp h entry member
  rw [Bool.not_eq_true] at plain ⊢
  exact Field.isGuarded_of_varies plain

/-- What an instantiated field says of a path that begins with it. -/
structure Field.Decides (bindings : Bindings) (field made : Field) : Prop where
  here : made.head.excluded = false ↔ Guard.Passes bindings field.head.guards
  below : ∀ path, Fields.Live made.inner path ↔ Fields.Passing bindings field.inner path

theorem Field.decides_self {field : Field} (known : field.Known labels)
    (stands : field.Stands bindings below here) (plain : field.isGuarded = false) :
    field.Decides bindings field := by
  have unguarded := known.unguarded plain
  exact ⟨iff_of_true stands.fair.1 (Or.inl unguarded.1), fun path =>
    Fields.live_of_unguarded known.inner stands.inner unguarded.2⟩

end

/-! ## Instantiated fields -/

section

variable {bindings : Bindings} {below : List Selection → Occurrences} {labels : Labels}

theorem exists_of_run_bind {ε α β : Type} {action : Labelling ε α} {continue' : α → Labelling ε β}
    {next last : Nat} {result : β} (h : (action >>= continue') next = .ok (result, last)) :
    ∃ found middle, action next = .ok (found, middle) ∧
      continue' found middle = .ok (result, last) := by
  change (action next).bind _ = _ at h
  cases made : action next with
  | error e =>
    rw [made] at h
    cases h
  | ok pair =>
    rw [made] at h
    exact ⟨pair.1, pair.2, rfl, h⟩

theorem eq_ok_of_run_lift {ε α : Type} {action : Except ε α} {next last : Nat} {result : α}
    (h : (liftM action : Labelling ε α) next = .ok (result, last)) : action = .ok result := by
  cases action with
  | error e => cases h
  | ok found =>
    cases h
    rfl

theorem FieldHead.excluded_iff {head decided filled : FieldHead}
    (made : head.decide bindings = .ok decided)
    (made' : decided.instantiateArguments bindings = .ok filled) :
    filled.excluded = false ↔ Guard.Passes bindings head.guards := by
  obtain ⟨-, -, -, held⟩ := FieldHead.guards_decide made
  obtain ⟨-, -, -, same⟩ := FieldHead.instantiateArguments_eq made'
  rw [same, ← Guard.anyHolds_eq_ok held, Bool.not_eq_true']

mutual
theorem Field.decides_instantiate : (field : Field) →
    {here : Guard → List Selection → Prop} → {next last : Nat} → {made : Field} →
    field.Known labels → field.Stands bindings below here →
    field.instantiate bindings next = .ok (made, last) → field.Decides bindings made
  | .leaf label head, here, next, last, made, known, stands, h => by
    unfold Field.instantiate at h
    split at h
    · obtain ⟨decided, _, lifted, h⟩ := exists_of_run_bind h
      obtain ⟨filled, _, lifted', h⟩ := exists_of_run_bind h
      cases h
      exact ⟨FieldHead.excluded_iff (eq_ok_of_run_lift lifted) (eq_ok_of_run_lift lifted'),
        fun path => by cases path with
          | nil => exact Iff.rfl
          | cons => simp [Fields.Live, Fields.Passing, Fields.Along, Field.inner]⟩
    · next plain =>
      cases h
      exact Field.decides_self known stands (Field.isGuarded_of_varies (Bool.not_eq_true _ ▸ plain))
  | .composite label head traits set fields, here, next, last, made, known, stands, h => by
    unfold Field.instantiate at h
    split at h
    · obtain ⟨decided, _, lifted, h⟩ := exists_of_run_bind h
      split at h
      · obtain ⟨fields', _, below, h⟩ := exists_of_run_bind h
        obtain ⟨set', _, -, h⟩ := exists_of_run_bind h
        obtain ⟨_, _, kept, h⟩ := exists_of_run_bind h
        cases kept
        obtain ⟨filled, _, lifted', h⟩ := exists_of_run_bind h
        cases h
        exact ⟨FieldHead.excluded_iff (eq_ok_of_run_lift lifted) (eq_ok_of_run_lift lifted'),
          Fields.live_instantiate fields known.inner stands.2.2 below⟩
      · next plain =>
        obtain ⟨_, _, kept, h⟩ := exists_of_run_bind h
        cases kept
        obtain ⟨filled, _, lifted', h⟩ := exists_of_run_bind h
        cases h
        have unguarded := Fields.isGuarded_of_varies (Bool.not_eq_true _ ▸ plain)
        exact ⟨FieldHead.excluded_iff (eq_ok_of_run_lift lifted) (eq_ok_of_run_lift lifted'),
          fun path => Fields.live_of_unguarded known.inner stands.inner unguarded⟩
    · next plain =>
      cases h
      exact Field.decides_self known stands (Field.isGuarded_of_varies (Bool.not_eq_true _ ▸ plain))

theorem Fields.live_instantiate : (fields : Fields) → {occurs : Occurrences} → {next last : Nat} →
    {made : Fields} → Fields.Known labels fields → Fields.Stands bindings below occurs fields →
    Fields.instantiate bindings fields next = .ok (made, last) →
    ∀ path, Fields.Live made path ↔ Fields.Passing bindings fields path
  | [], _, _, _, made, _, _, h, path => by
    cases h
    cases path with
    | nil => exact Iff.rfl
    | cons => simp [Fields.Live, Fields.Passing, Fields.Along]
  | (name, field) :: rest, occurs, next, last, made, known, stands, h, path => by
    unfold Fields.instantiate at h
    obtain ⟨first, _, one, h⟩ := exists_of_run_bind h
    obtain ⟨others, _, more, h⟩ := exists_of_run_bind h
    cases h
    have decides := Field.decides_instantiate field known.1 stands.1 one
    have remaining := Fields.live_instantiate rest known.2 stands.2 more
    cases path with
    | nil => exact Iff.rfl
    | cons other path =>
      by_cases same : name = other
      · unfold Fields.Live Fields.Passing
        rw [Fields.along_cons, Fields.along_cons, Entries.get?_cons, Entries.get?_cons, if_pos same,
          if_pos same]
        simp only [Option.some.injEq, exists_eq_left']
        exact and_congr decides.here (decides.below path)
      · have both := remaining (other :: path)
        unfold Fields.Live Fields.Passing at both ⊢
        rw [Fields.along_cons, Fields.along_cons] at both ⊢
        rw [Entries.get?_cons, Entries.get?_cons, if_neg same, if_neg same]
        exact both
end

/-- A path is live in an instantiated set if the guards along it pass. -/
theorem FieldSet.live_instantiate {set made : FieldSet} {occurs : Occurrences} {next : Nat}
    (known : set.Known labels) (select : Fields.Select bindings below occurs set.fields)
    (h : set.instantiate bindings next = .ok made) (path : List String) :
    made.fields.Live path ↔ Fields.Passing bindings set.fields path := by
  unfold FieldSet.instantiate at h
  split at h
  · cases run : Fields.instantiate bindings set.fields next with
    | error e =>
      rw [run] at h
      cases h
    | ok pair =>
      obtain ⟨fields, label⟩ := pair
      rw [run] at h
      cases h
      exact Fields.live_instantiate set.fields known.proper.known select.stands run path
  · next plain =>
    cases h
    exact Fields.live_of_unguarded known.proper.known select
      (Fields.isGuarded_of_varies (Bool.not_eq_true _ ▸ plain))

end

/-! ## Chains -/

namespace Selection

variable {bindings : Bindings} {below : List Selection → Occurrences} {occurs : Occurrences}

/-- A chain below some occurrence of a field. -/
theorem spelled_within {here : Guard → List Selection → Prop} {path : List String}
    {guards : List Guard} :
    Spelled below (occursWithin below here) path guards ↔
      ∃ outer inner, here outer inner ∧ Spelled below (below inner) path guards := by
  constructor
  · intro h
    cases h with
    | last found =>
      obtain ⟨outer, inner, held, found⟩ := found
      exact ⟨outer, inner, held, .last found⟩
    | step found rest =>
      obtain ⟨outer, inner, held, found⟩ := found
      exact ⟨outer, inner, held, .step found rest⟩
  · intro given
    obtain ⟨outer, inner, held, h⟩ := given
    cases h with
    | last found => exact .last ⟨outer, inner, held, found⟩
    | step found rest => exact .step ⟨outer, inner, held, found⟩ rest

theorem reached_singleton {name : String} : Reached bindings below occurs [name] ↔
    ∃ guard inner, occurs name guard inner ∧ Guard.holds bindings guard = .ok true := by
  constructor
  · intro h
    obtain ⟨guards, guard, spelled, held⟩ := h
    generalize all : guards ++ [guard] = levels at spelled
    cases spelled with
    | last found =>
      obtain ⟨-, same⟩ := List.append_inj' (all.trans (List.nil_append _).symm) rfl
      cases same
      exact ⟨guard, _, found, held⟩
    | step _ rest => cases rest
  · intro h
    obtain ⟨guard, inner, found, held⟩ := h
    exact ⟨[], guard, .last found, held⟩

theorem reached_cons {name next : String} {path : List String} :
    Reached bindings below occurs (name :: next :: path) ↔
      Reached bindings below (occursWithin below (occurs name)) (next :: path) := by
  constructor
  · intro h
    obtain ⟨guards, guard, spelled, held⟩ := h
    generalize all : guards ++ [guard] = levels at spelled
    cases spelled with
    | step found rest =>
      cases guards with
      | nil =>
        cases all
        cases rest
      | cons first others =>
        cases all
        exact ⟨others, guard, spelled_within.mpr ⟨_, _, found, rest⟩, held⟩
  · intro h
    obtain ⟨guards, guard, spelled, held⟩ := h
    obtain ⟨outer, inner, found, rest⟩ := spelled_within.mp spelled
    exact ⟨outer :: guards, guard, .step found rest, held⟩

end Selection

/-- Fields that stand for occurrences pass along a path if every level of it is reached. -/
theorem Fields.Select.passing_iff {bindings : Bindings} {below : List Selection → Occurrences}
    {fields : Fields} {occurs : Occurrences} {path : List String}
    (select : Fields.Select bindings below occurs fields) :
    Fields.Passing bindings fields path ↔ ∀ front, front ≠ [] → front <+: path →
      Selection.Reached bindings below occurs front := by
  induction path generalizing fields occurs with
  | nil =>
    refine iff_of_true trivial fun front some isFront => ?_
    exact absurd (List.prefix_nil.mp isFront) some
  | cons name rest ih =>
    constructor
    · intro h front some isFront
      obtain ⟨field, found, passes, passing⟩ := h
      have stands := select.stands_of_get? found
      cases front with
      | nil => exact absurd rfl some
      | cons first others =>
        obtain ⟨rfl, inside⟩ := List.cons_prefix_cons.mp isFront
        cases others with
        | nil => exact Selection.reached_singleton.mpr (stands.fair.2.mp passes)
        | cons next more =>
          exact Selection.reached_cons.mpr
            ((ih stands.inner).mp passing (next :: more) (List.cons_ne_nil _ _) inside)
    · intro all
      have here := all [name] (List.cons_ne_nil _ _)
        (List.cons_prefix_cons.mpr ⟨rfl, List.nil_prefix⟩)
      obtain ⟨guard, inner, occurrence, held⟩ := Selection.reached_singleton.mp here
      cases found : Entries.get? name fields with
      | none => exact absurd occurrence (select.nothing found guard inner)
      | some field =>
        have stands := select.stands_of_get? found
        refine ⟨field, found, stands.fair.2.mpr ⟨guard, inner, occurrence, held⟩, ?_⟩
        refine (ih stands.inner).mpr fun front some isFront => ?_
        have reached := all (name :: front) (List.cons_ne_nil _ _)
          (List.cons_prefix_cons.mpr ⟨rfl, isFront⟩)
        cases front with
        | nil => exact absurd rfl some
        | cons next more => exact Selection.reached_cons.mp reached

/-- Where all guards of one chain hold, every level of the path is reached. -/
theorem Selection.Executed.reached {bindings : Bindings} {below : List Selection → Occurrences}
    {occurs : Occurrences} {path : List String} (executed : Executed bindings below occurs path)
    {front : List String} (some : front ≠ []) (isFront : front <+: path) :
    Reached bindings below occurs front := by
  obtain ⟨guards, spelled, held⟩ := executed
  induction spelled generalizing front with
  | last found =>
    cases front with
    | nil => exact absurd rfl some
    | cons first others =>
      obtain ⟨rfl, inside⟩ := List.cons_prefix_cons.mp isFront
      cases List.prefix_nil.mp inside
      exact reached_singleton.mpr ⟨_, _, found, held _ List.mem_cons_self⟩
  | step found rest ih =>
    cases front with
    | nil => exact absurd rfl some
    | cons first others =>
      obtain ⟨rfl, inside⟩ := List.cons_prefix_cons.mp isFront
      cases others with
      | nil => exact reached_singleton.mpr ⟨_, _, found, held _ List.mem_cons_self⟩
      | cons next more =>
        obtain ⟨guards, guard, spelled, last⟩ := ih (List.cons_ne_nil _ _) inside
          fun guard member => held guard (List.mem_cons_of_mem _ member)
        exact reached_cons.mpr ⟨guards, guard, spelled_within.mpr ⟨_, _, found, spelled⟩, last⟩

/-! ## Operations -/

namespace Document

/-- What occurs below the selections of a field. -/
abbrev below (document : Document) (addTypename : Bool) : List Selection → Occurrences :=
  OccursBelow addTypename document.fragmentTable

/-- What occurs in the selections of an operation. -/
abbrev occurs (document : Document) (definition : OperationDefinition) : Occurrences :=
  Occurs document.fragmentTable definition.selections

end Document

/-- A path is live in an operation exactly when every level of it is reached by a chain of
the document whose last guard holds, and so at least where all guards of one chain hold. -/
theorem Operation.live_iff {document : Document} {definition : OperationDefinition}
    {addTypename strict : Bool} {plan : Plan} {root : NodeId} {bindings : Bindings}
    {operation : Operation} (sole : document.operations = [definition])
    (planned : Plan.ofOperation addTypename strict document = .ok plan)
    (made : Operation.of plan root bindings = .ok operation) (path : List String) :
    (operation.selection.fields.Live path ↔ ∀ front, front ≠ [] → front <+: path →
      Selection.Reached bindings (document.below addTypename) (document.occurs definition) front) ∧
    (Selection.Executed bindings (document.below addTypename) (document.occurs definition) path →
      operation.selection.fields.Live path) := by
  obtain ⟨resolved, found, same, same'⟩ := Plan.ofOperation_eq_ok sole planned
  obtain ⟨⟨labels, known, -⟩, select⟩ := FieldSet.resolve_eq_ok
    (show FieldSet.resolve (Scene.mk bindings addTypename document.fragmentTable).addTypename _ _ =
      .ok resolved from found)
  rw [← same] at known select
  have live := FieldSet.live_instantiate known select (Operation.selection_of made) path
  have passing : plan.root.fields.Passing bindings path ↔ _ := select.passing_iff
  refine ⟨live.trans passing, fun executed => live.mpr (passing.mpr ?_)⟩
  exact fun front some isFront => executed.reached some isFront

/-- `foo @include(if: $a) { x }` and `foo @include(if: $b) { y }`. -/
def splitParent : OperationDefinition :=
  let included (name : String) : Directive := ⟨"include", [("if", .variable name)]⟩
  let leaf (name : String) : Selection := .field none name [] [] []
  ⟨.query, none, [⟨"a", none⟩, ⟨"b", none⟩],
    [.field none "foo" [] [included "a"] [leaf "x"],
    .field none "foo" [] [included "b"] [leaf "y"]]⟩

/-- With the first parent included and the second one excluded, the field below the second
one is live, although no chain to it passes. -/
theorem Operation.live_below_excluded_parent :
    ∃ plan operation, Plan.ofOperation false true ⟨[splitParent], []⟩ = .ok plan ∧
      Operation.of plan NodeId.queryRoot (Table.ofList [("a", .bool true), ("b", .bool false)]) =
        .ok operation ∧
      operation.selection.fields.Live ["foo", "y"] ∧
      ¬ Selection.Executed (Table.ofList [("a", .bool true), ("b", .bool false)])
        (Document.below ⟨[splitParent], []⟩ false) (Document.occurs ⟨[splitParent], []⟩ splitParent)
        ["foo", "y"] := by
  let bindings : Bindings := Table.ofList [("a", .bool true), ("b", .bool false)]
  let document : Document := ⟨[splitParent], []⟩
  have first : document.occurs splitParent "foo" [⟨true, .variable "a"⟩]
      [.field none "x" [] [] []] :=
    Selection.occurs_cons.mpr (Or.inl (Selection.occurs_field.mpr ⟨rfl, rfl, rfl⟩))
  have second : document.occurs splitParent "foo" [⟨true, .variable "b"⟩]
      [.field none "y" [] [] []] :=
    Selection.occurs_cons.mpr (Or.inr (Selection.occurs_field.mpr ⟨rfl, rfl, rfl⟩))
  have inner : document.below false [.field none "y" [] [] []] "y" [] [] :=
    Or.inl (Selection.occurs_field.mpr ⟨rfl, rfl, rfl⟩)
  have runs : (Plan.ofOperation false true document).toOption.any (fun plan =>
      (Operation.of plan NodeId.queryRoot bindings).toOption.isSome) = true := by
    decide +kernel
  obtain ⟨plan, planned, runs⟩ := (Option.any_eq_true _ _).mp runs
  obtain ⟨operation, made⟩ := Option.isSome_iff_exists.mp runs
  have planned := eq_ok_of_toOption planned
  have made := eq_ok_of_toOption made
  refine ⟨plan, operation, planned, made, ?_, ?_⟩
  · refine (Operation.live_iff rfl planned made ["foo", "y"]).1.mpr fun front some isFront => ?_
    cases front with
    | nil => exact absurd rfl some
    | cons name others =>
      obtain ⟨rfl, inside⟩ := List.cons_prefix_cons.mp isFront
      cases others with
      | nil => exact Selection.reached_singleton.mpr ⟨_, _, first, rfl⟩
      | cons next more =>
        obtain ⟨rfl, last⟩ := List.cons_prefix_cons.mp inside
        cases List.prefix_nil.mp last
        exact ⟨[[⟨true, .variable "b"⟩]], [], .step second (.last inner), rfl⟩
  · intro h
    obtain ⟨guards, spelled, held⟩ := h
    cases spelled with
    | step found rest =>
      have passes := held _ List.mem_cons_self
      rcases Selection.occurs_cons.mp found with found | found
      · obtain ⟨-, -, rfl⟩ := Selection.occurs_field.mp found
        cases rest with
        | last found =>
          rcases found with found | ⟨impossible, -⟩
          · exact absurd (Selection.occurs_field.mp found).1 (by decide)
          · cases impossible
        | step _ more => cases more
      · obtain ⟨-, rfl, -⟩ := Selection.occurs_field.mp found
        cases passes

end ResponseGraph
