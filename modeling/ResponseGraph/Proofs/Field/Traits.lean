import ResponseGraph.Proofs.Field.Rebuilt
import ResponseGraph.Proofs.Registry.Served

/-!
Traits are exact.

Every field keeps two traits that sum up all that is below it.  They are derived where fields are
resolved, merged, put under a guard or instantiated, and whatever leaves fields out relies on
them.  A head records arguments only if there are any, and a name of the schema only if it is
another one than the response name (`FieldHead.Terse`), so that the traits tell of fields that
are stored in a place of their own (`Plan.traits_exact`).
-/

namespace ResponseGraph

namespace Entries

variable {α : Type}

theorem insert_ne_nil (name : String) (value : α) (entries : List (String × α)) :
    insert name value entries ≠ [] := by
  intro empty
  have found := get?_insert name name value entries
  rw [empty, if_pos rfl] at found
  cases found

theorem sort_ne_nil {entries : List (String × α)} (full : entries ≠ []) : sort entries ≠ [] := by
  have fold (more sorted : List (String × α)) (some : sorted ≠ []) :
      more.foldl (fun acc entry => insert entry.1 entry.2 acc) sorted ≠ [] := by
    induction more generalizing sorted with
    | nil => exact some
    | cons entry rest ih => exact ih _ (insert_ne_nil entry.1 entry.2 sorted)
  cases entries with
  | nil => exact absurd rfl full
  | cons entry rest => exact fold rest _ (insert_ne_nil entry.1 entry.2 [])

end Entries

namespace FieldHead

/-- The field has arguments, or another name in the schema than in the response. -/
def Parameterized (name : String) (head : FieldHead) : Prop :=
  (∃ arguments, head.arguments = some arguments ∧ arguments ≠ []) ∨
    ∃ schemaName, head.schemaName = some schemaName ∧ schemaName ≠ name

/-- Nothing is recorded that says nothing. -/
structure Terse (name : String) (head : FieldHead) : Prop where
  arguments : head.arguments ≠ some []
  schemaName : head.schemaName ≠ some name

variable {name : String} {head made : FieldHead}

theorem Terse.congr (terse : head.Terse name) (arguments : made.arguments = head.arguments)
    (schemaName : made.schemaName = head.schemaName) : made.Terse name :=
  ⟨arguments ▸ terse.arguments, schemaName ▸ terse.schemaName⟩

theorem Terse.parameterized_iff (terse : head.Terse name) :
    head.Parameterized name ↔ head.arguments.isSome ∨ head.schemaName.isSome := by
  unfold Parameterized
  simp only [Option.isSome_iff_exists]
  refine or_congr (exists_congr fun arguments => and_iff_left_of_imp ?_)
    (exists_congr fun schemaName => and_iff_left_of_imp ?_)
  · rintro given rfl
    exact terse.arguments given
  · rintro given rfl
    exact terse.schemaName given

theorem terse_ofSelection (aliasName : Option String) (name : String)
    (arguments : List (String × Literal)) (directives : List Directive) :
    (ofSelection aliasName name arguments directives).Terse (responseName aliasName name) := by
  unfold ofSelection
  split
  · exact ⟨nofun, nofun⟩
  · constructor
    · dsimp only
      split
      · exact nofun
      · next full =>
        intro same
        refine Entries.sort_ne_nil ?_ (Option.some.inj same)
        simpa using full
    · dsimp only
      split
      · exact nofun
      · next other =>
        intro same
        exact other (Option.some.inj same).symm

theorem Under.terse {bindings : Bindings} (under : head.Under bindings made)
    (terse : head.Terse name) : made.Terse name := by
  refine ⟨fun given => terse.arguments ?_, under.schemaName ▸ terse.schemaName⟩
  have related := under.arguments
  rw [given] at related
  generalize head.arguments = arguments at related ⊢
  cases related with
  | @some arguments _ done =>
    cases arguments with
    | nil => rfl
    | cons entry rest =>
      obtain ⟨value, -, done⟩ := exists_of_bind_eq_ok done
      obtain ⟨values, -, done⟩ := exists_of_bind_eq_ok done
      cases done

theorem Terse.combine {path : List String} {other : FieldHead} (terse : head.Terse name)
    (done : head.combine path other = .ok made) : made.Terse name := by
  unfold FieldHead.combine at done
  split at done
  · cases done
  · split at done
    · cases done
    · cases done
      exact terse.congr rfl rfl

end FieldHead

/-- Every head is terse under the name it stands under. -/
abbrev Shapes.Terse (shapes : Shapes) : Prop :=
  shapes.Every fun name shape => shape.head.Terse name

/-- Whatever is read is terse. -/
theorem Shapes.terse_ofDocument {flag : Bool} {definitions : Table Fragment}
    {selections : List Selection} {shapes : Shapes} {names : List String}
    (read : ofDocument flag definitions selections = .ok (shapes, names)) : shapes.Terse := by
  have lasting : Lasting flag fun name shape => shape.head.Terse name :=
    { typename := ⟨nofun, nofun⟩
      field := fun aliasName name arguments directives shapes => by
        rw [Shape.head_of]
        exact FieldHead.terse_ofSelection aliasName name arguments directives
      within := fun name shape guard terse => by cases shape <;> exact terse.congr rfl rfl
      keep := fun _ _ _ _ _ terse combined => by
        rw [Shape.head_of]
        exact terse.combine combined
      take := fun _ _ _ _ _ _ _ terse _ _ combined => terse.combine combined
      join := fun _ _ _ _ _ _ _ _ _ terse _ _ combined _ => terse.combine combined }
  exact lasting.inherited.ofDocument read

/-- Instantiating records no more than there was. -/
theorem Shapes.Terse.instantiate {bindings : Bindings} {shapes made : Shapes}
    (terse : shapes.Terse) (done : Shapes.instantiate bindings shapes = .ok made) : made.Terse := by
  refine Shapes.Every.instantiate ?_ shapes terse done
  intro name shape made terse done
  cases shape with
  | leaf head =>
    obtain ⟨filled, under, rfl⟩ := Shape.exists_of_instantiate_leaf done
    exact under.terse terse
  | composite head traits fields =>
    obtain ⟨filled, inner, under, -, rfl⟩ := Shape.exists_of_instantiate_composite done
    exact under.terse terse

/-! ## Fields -/

/-- The traits tell exactly what there is at some depth. -/
structure Fields.Summed (traits : Traits) (fields : Fields) : Prop where
  dynamic : traits.dynamic = true ↔
    ∃ name field, fields.Contains name field ∧ field.head.Parameterized name
  guarded : traits.guarded = true ↔
    ∃ name field, fields.Contains name field ∧ field.head.guards ≠ []

/-- A field is a leaf exactly if there is nothing below it, and its traits tell what there is. -/
structure Field.Summed (field : Field) : Prop where
  leaf : field.set? = none ↔ field.inner = []
  traits : Fields.Summed field.traits field.inner

namespace Fields

variable {fields : Fields} {name : String} {field : Field}

theorem summed (formed : Fields.Formed fields) (terse : (Fields.shapes fields).Terse) :
    Summed (Fields.traits fields) fields := by
  refine ⟨(isDynamic_iff formed).trans ?_, isGuarded_iff formed⟩
  refine exists_congr fun name => exists_congr fun field => and_congr_right fun inside => ?_
  have here := (every_of_contains terse inside).here
  rw [Field.head_shape] at here
  exact here.parameterized_iff.symm

theorem summed_of_contains (formed : Fields.Formed fields) (terse : (Fields.shapes fields).Terse)
    (inside : fields.Contains name field) : field.Summed := by
  have formed := formed.of_contains inside
  refine ⟨formed.set?_eq_none_iff, ?_⟩
  rw [formed.traits]
  exact summed formed.inner (Field.every_inner (every_of_contains terse inside))

end Fields

/-! ## Plans and operations -/

/-- All that is derived about the fields of a set is right, and there are some. -/
structure FieldSet.Summed (set : FieldSet) : Prop where
  full : set.fields ≠ []
  traits : Fields.Summed (Fields.traits set.fields) set.fields
  each : ∀ name field, set.fields.Contains name field → field.Summed

theorem Shapes.ne_nil_of_ofDocument {flag : Bool} {definitions : Table Fragment}
    {selections : List Selection} {shapes : Shapes} {names : List String}
    (read : ofDocument flag definitions selections = .ok (shapes, names)) : shapes ≠ [] := by
  obtain ⟨⟨found, met⟩, -, read⟩ := exists_of_bind_eq_ok read
  dsimp only at read
  split at read
  · cases read
  · next full =>
    cases read
    simpa using full

theorem Fields.shapes_eq_nil_iff {fields : Fields} : Fields.shapes fields = [] ↔ fields = [] := by
  rw [shapes_eq_map, List.map_eq_nil_iff]

theorem FieldSet.summed {set : FieldSet} (full : Fields.shapes set.fields ≠ [])
    (formed : Fields.Formed set.fields) (terse : (Fields.shapes set.fields).Terse) : set.Summed :=
  ⟨mt Fields.shapes_eq_nil_iff.mpr full, Fields.summed formed terse,
    fun _ _ inside => Fields.summed_of_contains formed terse inside⟩

/-- The traits of a plan are exact, at its root and at every field, and so are those of the fields
that are made of it under any variables.  An operation is static exactly if no field in it, at any
depth, has arguments or another name in the schema than in the response. -/
theorem Plan.traits_exact {addTypename strict : Bool} {key : DocumentKey} {plan : Plan}
    (h : Plan.ofKey addTypename strict key = .ok plan) :
    plan.root.Summed ∧
      (∀ bindings next made, plan.root.instantiate bindings next = .ok made → made.Summed) ∧
      ∀ root bindings operation, Operation.of plan root bindings = .ok operation →
        (operation.isStatic = true ↔ ∀ name field,
          operation.selection.fields.Contains name field → ¬ field.head.Parameterized name) := by
  obtain ⟨definitions, selections, names, read⟩ := Plan.exists_ofDocument_of_ofKey h
  have exact := (Plan.exact_ofKey h).all
  have formed := Shapes.AllExact.formed _ exact
  have terse := Shapes.terse_ofDocument read
  have full := Shapes.ne_nil_of_ofDocument read
  -- What is made has the shapes that are made anew, of which each trait is derived again.
  have made_of (bindings : Bindings) (next : Nat) (made : FieldSet)
      (done : plan.root.instantiate bindings next = .ok made) :
      made.Summed ∧ Fields.traits made.fields = Fields.traits plan.root.fields := by
    obtain ⟨shapes, rebuilt, rfl⟩ :=
      (FieldSet.paired_instantiate exact next).exists_of_eq_ok done
    obtain ⟨formed', same, empty⟩ := Shapes.alike_instantiate _ formed rebuilt
    refine ⟨FieldSet.summed (mt empty.mp full) formed' (Shapes.Terse.instantiate terse rebuilt), ?_⟩
    rw [← Fields.traits_shapes, same, Fields.traits_shapes]
  refine ⟨FieldSet.summed full formed terse,
    fun bindings next made done => (made_of bindings next made done).1, ?_⟩
  intro root bindings operation done
  obtain ⟨summed, same⟩ := made_of bindings plan.nextLabel operation.selection
    (Operation.selection_of done)
  have dynamic := summed.traits.dynamic
  rw [same] at dynamic
  rw [Operation.isStatic, (Registry.Operation.parts_of done).1, Bool.not_eq_true',
    ← Bool.not_eq_true]
  refine (not_congr dynamic).trans ?_
  simp only [not_exists, not_and]

/-- An argument below the first level makes an operation dynamic. -/
theorem Plan.traits_exact_of_argument :
    let key : DocumentKey :=
      ⟨"\x7b feed \x7b post(at: 1) \x7b id \x7d \x7d user \x7b id \x7d \x7d", false, none⟩
    ∃ plan operation, Plan.ofKey true true key = .ok plan ∧
      Operation.of plan .queryRoot Table.empty = .ok operation ∧ plan.root.Summed ∧
      operation.selection.Summed ∧ ∃ name field,
        operation.selection.fields.Contains name field ∧ field.head.Parameterized name := by
  intro key
  have test : ((Plan.ofKey true true key).toOption.bind fun plan =>
      (Operation.of plan .queryRoot Table.empty).toOption.map Operation.isStatic) = some false := by
    decide +kernel
  obtain ⟨plan, planned, test⟩ := Option.bind_eq_some_iff.mp test
  obtain ⟨operation, made, dynamic⟩ := Option.map_eq_some_iff.mp test
  have planned := eq_ok_of_toOption planned
  have made := eq_ok_of_toOption made
  obtain ⟨root, each, static⟩ := Plan.traits_exact planned
  refine ⟨plan, operation, planned, made, root,
    each _ _ _ (Operation.selection_of made), ?_⟩
  have some := mt (static _ _ operation made).mpr (Bool.not_eq_true _ ▸ dynamic)
  simpa only [not_forall, not_not, exists_prop] using some

end ResponseGraph
