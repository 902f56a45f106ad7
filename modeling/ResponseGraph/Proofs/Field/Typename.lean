import ResponseGraph.Proofs.Field.Contained
import ResponseGraph.Proofs.Field.Rearranged
import ResponseGraph.Proofs.Field.Variables
import ResponseGraph.Proofs.Field.WellFormed

/-!
The field `__typename`.

When fields are resolved, every sub-selection may be given a field `__typename`, before it is
merged with other sub-selections of the same field and before anything is known of them.  The
fields of the root never are, and neither are those of a fragment, which may be spread at the root
and below it.  Still nothing else changes: what is read with the added fields is also read without
them, every sub-selection has the field, and without it all fields are the same, in the same order
(`Plan.typename_added`).

Taking the field away goes along with every step of reading.  Merging is the step that may fail,
and a merge without the added fields has no conflict that the other merge does not have: whatever
it meets at a path, the other meets there too.
-/

namespace ResponseGraph

/- Shapes without the fields `__typename` of all sub-selections, the traits derived again.  The
flag tells whether the field stays in the outermost shapes. -/
mutual
def Shape.untyped : Shape → Shape
  | .leaf head => .leaf head
  | .composite head _ fields => .of head (some (Shapes.untyped false fields))
termination_by structural shape => shape

def Shapes.untyped (keep : Bool) : Shapes → Shapes
  | [] => []
  | (name, shape) :: rest =>
    if keep || name ≠ "__typename" then (name, shape.untyped) :: Shapes.untyped keep rest
    else Shapes.untyped keep rest
termination_by structural shapes => shapes
end

/-- The sub-selection, if there is one, has a field `__typename`. -/
def Shape.Typed (shape : Shape) : Prop :=
  ∀ fields, shape.fields? = some fields → (Entries.get? "__typename" fields).isSome

/-! ## Taking the field away -/

namespace Shape

theorem head_untyped (shape : Shape) : shape.untyped.head = shape.head := by
  cases shape <;> rfl

theorem fields?_untyped (shape : Shape) :
    shape.untyped.fields? = shape.fields?.map (Shapes.untyped false) := by
  cases shape <;> rfl

theorem untyped_of (head : FieldHead) (fields? : Option Shapes) :
    (Shape.of head fields?).untyped = .of head (fields?.map (Shapes.untyped false)) := by
  cases fields? <;> rfl

theorem untyped_within (guard : Guard) (shape : Shape) :
    (shape.within guard).untyped = shape.untyped.within guard := by
  cases shape <;> rfl

end Shape

namespace Shapes

variable {keep : Bool} {name : String} {shape : Shape} {shapes rest : Shapes}

theorem untyped_cons_of_kept (kept : (keep || name ≠ "__typename") = true) :
    untyped keep ((name, shape) :: rest) = (name, shape.untyped) :: untyped keep rest := by
  rw [untyped, if_pos kept]

theorem untyped_cons_of_dropped (dropped : ¬ (keep || name ≠ "__typename") = true) :
    untyped keep ((name, shape) :: rest) = untyped keep rest := by
  rw [untyped, if_neg dropped]

theorem get?_untyped (kept : (keep || name ≠ "__typename") = true) (shapes : Shapes) :
    Entries.get? name (untyped keep shapes) = (Entries.get? name shapes).map Shape.untyped := by
  induction shapes with
  | nil => rfl
  | cons entry rest ih =>
    obtain ⟨key, old⟩ := entry
    rw [Entries.get?_cons]
    by_cases here : (keep || key ≠ "__typename") = true
    · rw [untyped_cons_of_kept here, Entries.get?_cons, ih]
      split <;> rfl
    · have other : key ≠ name := by
        rintro rfl
        exact here kept
      rw [untyped_cons_of_dropped here, ih, if_neg other]

theorem untyped_put_of_kept (kept : (keep || name ≠ "__typename") = true) (shape : Shape)
    (shapes : Shapes) :
    untyped keep (Entries.put name shape shapes) =
      Entries.put name shape.untyped (untyped keep shapes) := by
  induction shapes with
  | nil =>
    rw [Entries.put, untyped_cons_of_kept kept]
    rfl
  | cons entry rest ih =>
    obtain ⟨key, old⟩ := entry
    rw [Entries.put]
    by_cases same : key = name
    · subst same
      rw [if_pos rfl, untyped_cons_of_kept kept, untyped_cons_of_kept kept, Entries.put,
        if_pos rfl]
    · rw [if_neg same]
      by_cases here : (keep || key ≠ "__typename") = true
      · rw [untyped_cons_of_kept here, untyped_cons_of_kept here, ih, Entries.put, if_neg same]
      · rw [untyped_cons_of_dropped here, untyped_cons_of_dropped here, ih]

theorem untyped_put_of_dropped (dropped : ¬ (keep || name ≠ "__typename") = true) (shape : Shape)
    (shapes : Shapes) : untyped keep (Entries.put name shape shapes) = untyped keep shapes := by
  induction shapes with
  | nil =>
    rw [Entries.put, untyped_cons_of_dropped dropped]
  | cons entry rest ih =>
    obtain ⟨key, old⟩ := entry
    rw [Entries.put]
    by_cases same : key = name
    · subst same
      rw [if_pos rfl, untyped_cons_of_dropped dropped, untyped_cons_of_dropped dropped]
    · rw [if_neg same, untyped, untyped, ih]

theorem untyped_within (keep : Bool) (guard : Option Guard) (shapes : Shapes) :
    untyped keep (within guard shapes) = within guard (untyped keep shapes) := by
  cases guard with
  | none => rfl
  | some guard =>
    induction shapes with
    | nil => rfl
    | cons entry rest ih =>
      obtain ⟨name, shape⟩ := entry
      show untyped keep ((name, shape.within guard) :: within (some guard) rest) = _
      by_cases kept : (keep || name ≠ "__typename") = true
      · rw [untyped_cons_of_kept kept, untyped_cons_of_kept kept, ih, Shape.untyped_within]
        rfl
      · rw [untyped_cons_of_dropped kept, untyped_cons_of_dropped kept, ih]

/-- The outermost shapes of `__typename` may be taken away later. -/
theorem untyped_eq_filter (shapes : Shapes) :
    untyped false shapes = (untyped true shapes).filter fun entry => entry.1 ≠ "__typename" := by
  induction shapes with
  | nil => rfl
  | cons entry rest ih =>
    obtain ⟨name, shape⟩ := entry
    rw [untyped, untyped, ih]
    by_cases same : name = "__typename" <;> simp [same]

theorem map_fst_untyped (shapes : Shapes) :
    (untyped true shapes).map Prod.fst = shapes.map Prod.fst := by
  induction shapes with
  | nil => rfl
  | cons entry rest ih => rw [untyped_cons_of_kept rfl, List.map_cons, List.map_cons, ih]

end Shapes

mutual
/-- What is taken away can be taken away before merging. -/
theorem Shape.combine_untyped {path : List String} {existing : Shape} : (incoming : Shape) →
    {merged : Shape} → Shape.combine path existing incoming = .ok merged →
    Shape.combine path existing.untyped incoming.untyped = .ok merged.untyped
  | .leaf head, merged, done => by
    rw [Shape.combine] at done
    obtain ⟨head', combined, done⟩ := exists_of_bind_eq_ok done
    cases done
    rw [Shape.untyped, Shape.combine, Shape.head_untyped, combined, Shape.untyped_of,
      Shape.fields?_untyped]
    rfl
  | .composite head traits fields, merged, done => by
    rw [Shape.combine] at done
    obtain ⟨head', combined, done⟩ := exists_of_bind_eq_ok done
    rw [Shape.untyped, Shape.of, Shape.combine, Shape.head_untyped, combined,
      Shape.fields?_untyped]
    split at done
    · next none =>
      cases done
      rw [none]
      rfl
    · next old found =>
      obtain ⟨inner, joined, done⟩ := exists_of_bind_eq_ok done
      cases done
      rw [found, Shape.untyped_of]
      show (Shapes.combine path (Shapes.untyped false old) (Shapes.untyped false fields) >>= _) = _
      rw [Shapes.combine_untyped false fields joined]
      rfl

theorem Shapes.combine_untyped {path : List String} (keep : Bool) {into : Shapes} :
    (incoming : Shapes) → {merged : Shapes} → Shapes.combine path into incoming = .ok merged →
    Shapes.combine path (Shapes.untyped keep into) (Shapes.untyped keep incoming) =
      .ok (Shapes.untyped keep merged)
  | [], merged, done => by
    cases done
    rfl
  | (name, shape) :: rest, merged, done => by
    rw [Shapes.combine] at done
    obtain ⟨joined, first, done⟩ := exists_of_bind_eq_ok done
    have later := Shapes.combine_untyped keep rest done
    by_cases kept : (keep || name ≠ "__typename") = true
    · rw [Shapes.untyped_put_of_kept kept] at later
      rw [Shapes.untyped_cons_of_kept kept, Shapes.combine, Shapes.get?_untyped kept]
      split at first
      · next none =>
        cases first
        rw [none]
        exact later
      · next existing found =>
        rw [found]
        show (Shape.combine (path ++ [name]) existing.untyped shape.untyped >>= _) = _
        rw [Shape.combine_untyped shape first]
        exact later
    · rw [Shapes.untyped_put_of_dropped kept] at later
      rw [Shapes.untyped_cons_of_dropped kept]
      exact later
end

/-! ## The added field -/

namespace Shapes

/-- Merging leaves no name out. -/
theorem isSome_get?_combine {path : List String} {name : String} {into : Shapes}
    (present : (Entries.get? name into).isSome) : (incoming : Shapes) → {merged : Shapes} →
    Shapes.combine path into incoming = .ok merged → (Entries.get? name merged).isSome := by
  intro incoming merged done
  induction incoming generalizing into with
  | nil =>
    cases done
    exact present
  | cons entry rest ih =>
    obtain ⟨key, shape⟩ := entry
    rw [Shapes.combine] at done
    obtain ⟨joined, -, done⟩ := exists_of_bind_eq_ok done
    refine ih ?_ done
    rw [Entries.get?_put]
    split
    · rfl
    · exact present

/-- A sub-selection with the added field. -/
theorem isSome_get?_below {shapes fields : Shapes} (found : below? true shapes = some fields) :
    (Entries.get? "__typename" fields).isSome := by
  unfold below? at found
  split at found
  · cases found
  · split at found
    · cases found
      rw [Entries.get?_put, if_pos rfl]
      rfl
    · next absent =>
      cases found
      exact Option.isSome_iff_ne_none.mpr (by simpa using absent)

/-- Wherever the field is added, every sub-selection has it. -/
theorem typed_ofDocument {definitions : Table Fragment} {selections : List Selection}
    {shapes : Shapes} {names : List String}
    (read : ofDocument true definitions selections = .ok (shapes, names)) :
    shapes.Every fun _ shape => shape.Typed := by
  have lasting : Lasting true fun _ shape => shape.Typed :=
    { typename := nofun
      field := fun _ _ _ _ shapes fields found => by
        rw [Shape.fields?_of] at found
        exact isSome_get?_below found
      within := fun _ shape guard typed fields found => by
        cases shape <;> exact typed fields found
      keep := fun _ existing _ _ _ typed _ fields found => by
        rw [Shape.fields?_of] at found
        exact typed fields found
      take := fun _ _ _ _ _ _ _ _ _ typed _ fields found => typed fields found
      join := fun _ existing old _ _ _ _ _ _ typed found _ _ joined fields found' => by
        rw [Shape.fields?_of] at found'
        cases found'
        exact isSome_get?_combine (typed old found) _ joined }
  exact lasting.inherited.ofDocument read

end Shapes

/-! ## The two readings -/

/-- The first outline has every head of the second, or one that agrees with it. -/
def Outline.Over (first second : Outline) : Prop :=
  ∀ path head, second path = some head → ∃ other, first path = some other ∧ other.Agrees head

/-- What is read with the field added, and what is read without. -/
structure Shapes.Typing (shapes others : Shapes) : Prop where
  exact : shapes.Exact
  exact' : others.Exact
  same : untyped true shapes = untyped true others
  covers : (at? shapes).Over (at? others)

namespace Outline.Over

variable {a b c a' b' : Outline}

theorem compatible (first : a.Over a') (second : b.Over b') (h : Compatible a b) :
    Compatible a' b' := by
  intro path head other found found'
  obtain ⟨head', here, agrees⟩ := first path head found
  obtain ⟨other', here', agrees'⟩ := second path other found'
  exact (agrees.symm.trans (h path head' other' here here')).trans agrees'

theorem refl (a : Outline) : a.Over a := fun _ head found => ⟨head, found, .refl head⟩

theorem trans (first : a.Over b) (second : b.Over c) : a.Over c := by
  intro path head found
  obtain ⟨other, here, agrees⟩ := second path head found
  obtain ⟨last, there, agrees'⟩ := first path other here
  exact ⟨last, there, agrees'.trans agrees⟩

theorem join_left (a b : Outline) : (a.join b).Over a := by
  intro path head found
  unfold Outline.join
  rw [found]
  cases b path with
  | none => exact ⟨head, rfl, .refl head⟩
  | some other => exact ⟨_, rfl, (head.agrees_join other).symm⟩

theorem join_right (h : Compatible a b) : (a.join b).Over b := by
  intro path head found
  cases here : a path with
  | none => exact ⟨head, by rw [Outline.join, here, found]; rfl, .refl head⟩
  | some old =>
    obtain ⟨other, joined, agrees⟩ := join_left a b path old here
    exact ⟨other, joined, agrees.trans (h path old head here found)⟩

theorem join (first : a.Over a') (second : b.Over b') (h : Compatible a b) :
    (a.join b).Over (a'.join b') := by
  intro path head found
  -- A head of the joined outline is one of either side, with other guards at most.
  cases here : a' path with
  | none =>
    rw [Outline.join, here, FieldHead.none_join?] at found
    exact (join_right h).trans second path head found
  | some old =>
    have same : old.Agrees head := by
      rw [Outline.join, here] at found
      cases there : b' path with
      | none =>
        rw [there] at found
        cases found
        exact .refl _
      | some other =>
        rw [there] at found
        cases found
        exact FieldHead.agrees_join _ _
    obtain ⟨other, there, agrees⟩ := (join_left a b).trans first path old here
    exact ⟨other, there, agrees.trans same⟩

end Outline.Over

namespace Shapes

theorem untyped_below (flag : Bool) (shapes : Shapes) :
    (below? flag shapes).map (untyped false) =
      if shapes.isEmpty then none else some (untyped false shapes) := by
  unfold below?
  split
  · rfl
  · split
    · rw [Option.map_some, untyped_put_of_dropped (by decide)]
    · rfl

theorem over_below (shapes : Shapes) :
    (at? ((below? true shapes).getD [])).Over (at? shapes) := by
  unfold below?
  split
  · next empty =>
    rw [List.isEmpty_iff.mp empty]
    exact .refl _
  · split
    · next absent =>
      rw [Option.getD_some, at?_put_of_none (by simpa using absent)]
      exact .join_left _ _
    · exact .refl _

end Shapes

namespace Shapes.Typing

variable {shapes others into into' : Shapes}

theorem nil : Typing [] [] :=
  ⟨.nil, .nil, rfl, fun path head found => by rw [at?_nil] at found; cases found⟩

theorem names (typing : Typing shapes others) : shapes.map Prod.fst = others.map Prod.fst := by
  rw [← map_fst_untyped, typing.same, map_fst_untyped]

theorem isEmpty_eq (typing : Typing shapes others) : shapes.isEmpty = others.isEmpty := by
  have names := congrArg List.isEmpty typing.names
  rwa [List.isEmpty_map, List.isEmpty_map] at names

theorem within (typing : Typing shapes others) (guard : Option Guard) :
    Typing (within guard shapes) (within guard others) := by
  refine ⟨typing.exact.within guard, typing.exact'.within guard, ?_, ?_⟩
  · rw [untyped_within, untyped_within, typing.same]
  · cases guard with
    | none => exact typing.covers
    | some guard =>
      intro path head found
      match path with
      | [] => cases found
      | [name] =>
        rw [at?_within] at found ⊢
        obtain ⟨old, here, rfl⟩ := Option.map_eq_some_iff.mp found
        obtain ⟨other, there, agrees⟩ := typing.covers [name] old here
        exact ⟨{ other with guards := Guard.within guard other.guards }, by rw [there]; rfl,
          ⟨agrees.arguments, agrees.schemaName⟩⟩
      | name :: label :: path =>
        rw [at?_within] at found ⊢
        exact typing.covers (name :: label :: path) head found

theorem combine (start : Typing into into') (typing : Typing shapes others) {path : List String}
    {merged : Shapes} (done : Shapes.combine path into shapes = .ok merged) :
    ∃ merged', Shapes.combine path into' others = .ok merged' ∧ Typing merged merged' := by
  have merges := @merges_combine path into shapes typing.exact
  have merges' := @merges_combine path into' others typing.exact'
  rw [done] at merges
  obtain ⟨compatible, joined⟩ : (at? into).Compatible (at? shapes) ∧
      at? merged = (at? into).join (at? shapes) := by
    cases merges with
    | ok compatible joined => exact ⟨compatible, joined⟩
  have compatible' := start.covers.compatible typing.covers compatible
  generalize made : Shapes.combine path into' others = outcome at merges'
  cases merges' with
  | error conflict problem => exact absurd compatible' conflict
  | @ok merged' _ joined' =>
    refine ⟨merged', rfl, (start.exact.combine shapes typing.exact done).1,
      (start.exact'.combine others typing.exact' made).1, ?_, ?_⟩
    · have taken := combine_untyped true shapes done
      rw [start.same, typing.same, combine_untyped true others made] at taken
      exact (Except.ok.inj taken).symm
    · rw [joined, joined']
      exact start.covers.join typing.covers compatible

theorem field (typing : Typing shapes others) (name : String) {head : FieldHead}
    (exact : head.Exact) : Typing [(name, .of head (below? true shapes))]
      [(name, .of head (below? false others))] := by
  refine ⟨.singleton (.of exact fun fields found => typing.exact.below found),
    .singleton (.of exact fun fields found => typing.exact'.below found), ?_, ?_⟩
  · rw [untyped_cons_of_kept rfl, untyped_cons_of_kept rfl, Shape.untyped_of, Shape.untyped_of,
      untyped_below, untyped_below, typing.isEmpty_eq, untyped_eq_filter, typing.same,
      ← untyped_eq_filter]
  · intro path other found
    match path with
    | [] => cases found
    | [label] =>
      obtain rfl := eq_of_at?_singleton found
      rw [at?_singleton_head] at found ⊢
      exact ⟨other, found, .refl other⟩
    | label :: next :: path =>
      obtain rfl := eq_of_at?_singleton found
      rw [at?_singleton_below] at found ⊢
      have covers := (over_below shapes).trans typing.covers
      refine covers (next :: path) other ?_
      have plain : (below? false others).getD [] = others := by
        unfold below?
        cases others <;> rfl
      rwa [plain] at found

/-- What is read with the field added can be read without. -/
theorem ofDocument {definitions : Table Fragment} {selections : List Selection} {shapes : Shapes}
    {names : List String}
    (read : Shapes.ofDocument true definitions selections = .ok (shapes, names)) :
    ∃ others, Shapes.ofDocument false definitions selections = .ok (others, names) ∧
      Typing shapes others := by
  have kept : Kept true false Typing :=
    { nil := .nil
      field := fun _ _ _ _ shapes others typing =>
        typing.field _ (FieldHead.exact_ofSelection ..)
      within := fun guard shapes others typing => typing.within guard
      combine := fun path into into' start shapes others merged typing done =>
        start.combine typing done }
  exact kept.ofDocument (fun shapes others typing => typing.isEmpty_eq) read

end Shapes.Typing

/-! ## Plans -/

theorem FieldSet.resolve_typed {definitions : Table Fragment} {selections : List Selection}
    {on : Resolved} (h : FieldSet.resolve true definitions selections = .ok on) :
    ∃ off, FieldSet.resolve false definitions selections = .ok off ∧ off.used = on.used ∧
      Shapes.Typing (Fields.shapes on.root.fields) (Fields.shapes off.root.fields) := by
  obtain ⟨others, read, typing⟩ := Shapes.Typing.ofDocument (FieldSet.ofDocument_of_resolve h)
  have pair := FieldSet.paired_resolve false definitions selections
  rw [read] at pair
  generalize FieldSet.resolve false definitions selections = outcome at pair
  cases pair with
  | @ok off _ shown => exact ⟨off, rfl, shown.2, shown.1 ▸ typing⟩

theorem Plan.ofOperation_of_resolve {addTypename strict : Bool} {document : Document}
    {definition : OperationDefinition} {resolved : Resolved}
    (sole : document.operations = [definition])
    (made : FieldSet.resolve addTypename document.fragmentTable definition.selections =
      .ok resolved)
    (checked : strict → Plan.checkVariables definition resolved.used = .ok ()) :
    Plan.ofOperation addTypename strict document = .ok ⟨definition.kind, definition.name,
      resolved.root, resolved.used, Plan.declaredDefaults definition, resolved.nextLabel⟩ := by
  unfold Plan.ofOperation Plan.soleOperation
  rw [sole]
  show (FieldSet.resolve addTypename document.fragmentTable definition.selections >>= _) = _
  rw [made]
  cases strict with
  | false => rfl
  | true =>
    show (Plan.checkVariables definition resolved.used >>= _) = _
    rw [checked rfl]
    rfl

theorem Plan.ofOperation_typed {strict : Bool} {document : Document} {on : Plan}
    (h : Plan.ofOperation true strict document = .ok on) :
    ∃ off, Plan.ofOperation false strict document = .ok off ∧
      Shapes.Typing (Fields.shapes on.root.fields) (Fields.shapes off.root.fields) := by
  obtain ⟨definition, resolved, sole, made, checked, rfl⟩ := Plan.exists_of_ofOperation h
  obtain ⟨off, made', used, typing⟩ := FieldSet.resolve_typed made
  exact ⟨_, Plan.ofOperation_of_resolve sole made' (used ▸ checked), typing⟩

theorem Plan.ofFragment_typed {document : Document} {name : Option String} {on : Plan}
    (h : Plan.ofFragment true document name = .ok on) :
    ∃ off, Plan.ofFragment false document name = .ok off ∧
      Shapes.Typing (Fields.shapes on.root.fields) (Fields.shapes off.root.fields) := by
  obtain ⟨fragment, chosen, h⟩ := exists_of_bind_eq_ok h
  obtain ⟨resolved, made, h⟩ := exists_of_bind_eq_ok h
  cases h
  obtain ⟨off, made', -, typing⟩ := FieldSet.resolve_typed made
  refine ⟨⟨.query, some fragment.name, off.root, off.used, Table.empty, off.nextLabel⟩, ?_, typing⟩
  unfold Plan.ofFragment
  rw [chosen]
  show (FieldSet.resolve false document.fragmentTable fragment.selections >>= _) = _
  rw [made']
  rfl

/-- A plan of the same document, made without the added fields. -/
theorem Plan.ofKey_typed {strict : Bool} {key : DocumentKey} {on : Plan}
    (h : Plan.ofKey true strict key = .ok on) :
    ∃ off, Plan.ofKey false strict key = .ok off ∧
      Shapes.Typing (Fields.shapes on.root.fields) (Fields.shapes off.root.fields) := by
  unfold Plan.ofKey at h ⊢
  split at h
  · cases h
  · next document _ =>
    split at h
    · next only =>
      rw [if_pos only]
      exact Plan.ofFragment_typed h
    · next only =>
      rw [if_neg only]
      exact Plan.ofOperation_typed h

/-- Adding the field changes nothing else.  A document that makes a plan with the added fields
makes one without.  With them every sub-selection has a field `__typename`; the fields of the root
have the same names in the same order; and all fields are the same, in the same order, when those
of the name `__typename` are left out below the root. -/
theorem Plan.typename_added {strict : Bool} {key : DocumentKey} {on : Plan}
    (h : Plan.ofKey true strict key = .ok on) :
    ∃ off, Plan.ofKey false strict key = .ok off ∧
      (∀ name field set, on.root.fields.Contains name field → field.set? = some set →
        "__typename" ∈ set.fields.map Prod.fst) ∧
      on.root.fields.map Prod.fst = off.root.fields.map Prod.fst ∧
      Shapes.untyped true (Fields.shapes on.root.fields) =
        Shapes.untyped true (Fields.shapes off.root.fields) := by
  obtain ⟨off, made, typing⟩ := Plan.ofKey_typed h
  refine ⟨off, made, ?_, ?_, typing.same⟩
  · intro name field set inside found
    obtain ⟨definitions, selections, names, read⟩ := Plan.exists_ofDocument_of_ofKey h
    have typed := (Fields.every_of_contains (Shapes.typed_ofDocument read) inside).here
    have present := typed (Fields.shapes set.fields) (by rw [Field.fields?_shape, found]; rfl)
    rw [Fields.get?_shapes, Option.isSome_map] at present
    by_contra absent
    rw [Entries.get?_eq_none_iff.mpr absent] at present
    cases present
  · have names := typing.names
    simpa only [Fields.shapes_eq_map, List.map_map, Function.comp_def] using names

/-- A field below the root and a fragment at the root, of which only the first is given the added
field. -/
theorem Plan.typename_added_below_fragment :
    let key : DocumentKey :=
      ⟨"\x7b ...Feed \x7d fragment Feed on Query \x7b feed \x7b id \x7d \x7d", false, none⟩
    ∃ on off, Plan.ofKey true true key = .ok on ∧ Plan.ofKey false true key = .ok off ∧
      on.root.fields.map Prod.fst = ["feed"] ∧ off.root.fields.map Prod.fst = ["feed"] ∧
      Shapes.untyped true (Fields.shapes on.root.fields) =
        Shapes.untyped true (Fields.shapes off.root.fields) := by
  intro key
  have test : (Plan.ofKey true true key).toOption.map (fun on => on.root.fields.map Prod.fst) =
      some ["feed"] := by
    decide +kernel
  obtain ⟨on, planned, names⟩ := Option.map_eq_some_iff.mp test
  have planned := eq_ok_of_toOption planned
  obtain ⟨off, made, -, same, untyped⟩ := Plan.typename_added planned
  exact ⟨on, off, planned, made, names, same ▸ names, untyped⟩

end ResponseGraph
