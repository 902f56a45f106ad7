import ResponseGraph.Proofs.Field.Combined
import ResponseGraph.Proofs.Field.Shapes

/-!
Merging fields with and without labels.

Two fields or two sets with one label are taken for the same and are not merged.  Known ones with
one label are equal, and merging exact shapes with themselves leaves them as they are: so fields
are merged just as their shapes are.
-/

namespace ResponseGraph

open Labels

/-- What follows an action that takes no label. -/
theorem Labels.lift_bind {ε α β : Type} (action : Except ε α) (f : α → Labelling ε β)
    (next : Nat) : ((liftM action : Labelling ε α) >>= f) next = action >>= fun a => f a next := by
  cases action <;> rfl

mutual
/-- Fields are merged as their shapes are. -/
theorem Field.paired_combine {labels : Labels} {next : Nat} {path : List String}
    {existing : Field} : (incoming : Field) → labels.Below next → existing.Known labels →
    incoming.Known labels → existing.shape.Exact → incoming.shape.Exact →
    Paired (fun made shape => made.1.shape = shape) (Field.combine path existing incoming next)
      (Shape.combine path existing.shape incoming.shape)
  | .leaf label head, _, known, known', _, exact' => by
    unfold Field.combine
    split
    · next same =>
      rw [known.eq_of_label known' same, Shape.combine_self _ exact']
      exact .ok rfl
    · rw [lift_bind, Field.shape, Shape.combine, Field.head_shape]
      refine (Paired.refl _).bind ?_
      rintro combined _ rfl
      refine .ok ?_
      rw [Field.shape_of, Field.fields?_shape]
  | .composite label head traits set fields, free, known, known', exact, exact' => by
    unfold Field.combine
    split
    · next same =>
      rw [known.eq_of_label known' same, Shape.combine_self _ exact']
      exact .ok rfl
    · rw [lift_bind, Field.shape, Shape.combine, Field.head_shape, Field.fields?_shape]
      refine (Paired.refl _).bind ?_
      rintro combined _ rfl
      have inner : FieldSet.Known labels ⟨set, fields⟩ := known'.set rfl
      have inside := (exact'.fields rfl).1
      cases present : existing.set? with
      | none => exact .ok rfl
      | some old =>
        have outer := known.set present
        have below : existing.shape.fields? = some (Fields.shapes old.fields) := by
          rw [Field.fields?_shape, present, Option.map_some]
        have outside := (exact.fields below).1
        by_cases same : old.label = set
        · have equal := outer.eq_of_label inner same
          subst equal
          simp only [if_pos, Option.map_some]
          rw [inside.combine_self]
          exact .ok (Field.shape_of _ combined (some _))
        · have merged : Paired _ _ _ :=
            @Fields.paired_combine labels next path _ fields free outer.proper inner.proper
              outside inside
          simp only [if_neg same, Option.map_some]
          refine merged.bind ?_
          rintro ⟨merged, last⟩ _ rfl
          exact .ok (Field.shape_of _ combined (some _))

theorem Fields.paired_combine {labels : Labels} {next : Nat} {path : List String}
    {into : Fields} : (incoming : Fields) → labels.Below next → Fields.Proper labels into →
    Fields.Proper labels incoming → (Fields.shapes into).Exact → (Fields.shapes incoming).Exact →
    Paired (fun made shapes => Fields.shapes made.1 = shapes)
      (Fields.combine path into incoming next)
      (Shapes.combine path (Fields.shapes into) (Fields.shapes incoming))
  | [], _, _, _, _, _ => .ok rfl
  | (name, field) :: rest, free, known, known', exact, exact' => by
    unfold Fields.combine
    rw [Fields.shapes, Shapes.combine, Fields.get?_shapes]
    cases present : Entries.get? name into with
    | none =>
      have later := @Fields.paired_combine labels next path _ rest free (known.put known'.known.1)
        known'.tail (Fields.shapes_put name field into ▸ exact.put exact'.all.1) exact'.tail
      rw [Fields.shapes_put] at later
      exact later
    | some existing =>
      have knownHere := known.known_of_get? present
      have exactHere : existing.shape.Exact :=
        exact.of_get? (by rw [Fields.get?_shapes, present]; rfl)
      have first := @Field.paired_combine labels next (path ++ [name]) _ field free knownHere
        known'.known.1 exactHere exact'.all.1
      refine first.bind_of_eq ?_
      rintro ⟨joined, next'⟩ _ made combined rfl
      obtain ⟨more, extended, free', joins⟩ := @gives_combine Table.empty (fun _ _ _ _ => False)
        labels next (path ++ [name]) existing field free knownHere known'.known.1 joined next' made
      have exactJoined := exactHere.combine field.shape exact'.all.1 combined
      have later := @Fields.paired_combine more next' path _ rest free'
        ((known.mono extended).put joins.1) (known'.tail.mono extended)
        (Fields.shapes_put name joined into ▸ exact.put exactJoined) exact'.tail
      rw [Fields.shapes_put] at later
      exact later
end

/-- Fields are put under a guard as their shapes are. -/
theorem Fields.within_eq_ok (guard : Option Guard) (fields : Fields) (next : Nat) :
    ∃ made last, Fields.within guard fields next = .ok (made, last) ∧
      Fields.shapes made = Shapes.within guard (Fields.shapes fields) := by
  unfold Fields.within Shapes.within
  cases guard with
  | none => exact ⟨fields, next, rfl, rfl⟩
  | some guard =>
    induction fields generalizing next with
    | nil => exact ⟨[], next, rfl, rfl⟩
    | cons entry rest ih =>
      obtain ⟨name, field⟩ := entry
      obtain ⟨made, last, more, shapes⟩ := ih (next + 1)
      refine ⟨(name, field.within guard next) :: made, last, ?_, ?_⟩
      · simp only [List.mapM_cons] at more ⊢
        show Except.bind _ _ = _
        rw [more]
        rfl
      · rw [Fields.shapes, shapes, Field.shape_within]
        rfl

/-- The sub-selection of a field has the shapes of the sub-selection of its shape. -/
theorem FieldSet.below?_eq_ok (addTypename : Bool) (fields : Fields) (next : Nat) :
    ∃ set? last, FieldSet.below? addTypename fields next = .ok (set?, last) ∧
      (set?.map fun set => Fields.shapes set.fields) =
        Shapes.below? addTypename (Fields.shapes fields) := by
  unfold FieldSet.below? Shapes.below?
  rw [Fields.isEmpty_shapes, Fields.get?_shapes, Option.isNone_map]
  by_cases empty : fields.isEmpty
  · rw [if_pos empty, if_pos empty]
    exact ⟨none, next, rfl, rfl⟩
  · rw [if_neg empty, if_neg empty]
    by_cases lacking : addTypename && (Entries.get? "__typename" fields).isNone
    · rw [if_pos lacking, if_pos lacking]
      refine ⟨_, next + 2, rfl, ?_⟩
      rw [Option.map_some, Fields.shapes_put]
      rfl
    · rw [if_neg lacking, if_neg lacking]
      exact ⟨some ⟨next, fields⟩, next + 1, rfl, rfl⟩

end ResponseGraph
