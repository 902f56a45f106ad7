import ResponseGraph.Cache
import ResponseGraph.Proofs.Field.Closed

/-!
Merging fields without variables.

The id of a field with arguments is made of the values of the arguments, and this is the only step
of a walk that meets them.  So a walk along fields without variables may fail in other ways, but
not over a variable.
-/

namespace ResponseGraph

/-- The failure is another one than a variable that is left in an argument. -/
def Error.NotOpen (e : Error) : Prop := ∀ name, e ≠ .usage (.openVariable name)

theorem Place.notOpen_misfit (place : Place) (reason : String) (payload : Json) :
    (place.misfit reason payload).NotOpen := fun _ same => (nomatch same)

theorem Place.notOpen_inconsistent (place : Place) (reason : String) :
    (place.inconsistent reason).NotOpen := fun _ same => (nomatch same)

namespace Walk

variable {identify : Json → Option NodeId} {set : Nat} {descend : Descent}

theorem ends_field (walk : Walk) (place : Place) (name : String) {head : FieldHead}
    (closed : head.Closed) :
    Ends (fun _ => True) Error.NotOpen (walk.field place name head) := by
  unfold field
  dsimp only
  split
  · exact .ok trivial
  · next arguments given =>
    obtain ⟨members, value⟩ := Option.isSome_iff_exists.mp
      ((Argument.isSome_toMembers?_iff arguments).mpr (closed arguments given))
    unfold parameterized NodeId.parameterized Arguments.toJson?
    rw [value]
    dsimp only [Option.map_some]
    split <;> exact .ok trivial

theorem ends_null (walk : Walk) (place : Place) (previous : Option Value) :
    Ends (fun _ => True) Error.NotOpen (walk.null identify place previous) := by
  unfold null
  split
  · exact .ok trivial
  · split
    · exact .ok trivial
    · split <;> exact .ok trivial
  · split
    · exact .ok trivial
    · exact .error (place.notOpen_inconsistent _)
  · split
    · exact .error (place.notOpen_misfit _ _)
    · exact .error (place.notOpen_inconsistent _)

theorem ends_object (walk : Walk) (place : Place) (previous : Option Value)
    (members : List (String × Json)) :
    Ends (fun _ => True) Error.NotOpen (walk.object identify set place previous members) := by
  unfold object
  dsimp only
  split
  · exact .ok trivial
  · exact .error (place.notOpen_misfit _ _)
  · split
    · exact .error (place.notOpen_misfit _ _)
    · exact .ok trivial
  · exact .ok trivial

mutual
theorem ends_value (below : ∀ place members walk, Ends (fun _ => True) Error.NotOpen
      (descend place members walk)) : (payload : Json) → (place : Place) → (walk : Walk) →
    Ends (fun _ => True) Error.NotOpen (value identify set descend place payload walk)
  | .null, place, walk => by
    unfold value
    dsimp only
    split
    · exact .ok trivial
    · exact ends_null walk place _
  | .object members, place, walk => by
    unfold value
    dsimp only
    split
    · exact .error (place.notOpen_misfit _ _)
    · refine (ends_object walk place _ members).bind fun result _ => ?_
      obtain ⟨walk, here⟩ := result
      cases here with
      | none => exact .ok trivial
      | some here => exact below here members walk
  | .array payloads, place, walk => by
    unfold value
    dsimp only
    split
    · exact .error (place.notOpen_misfit _ _)
    · exact ends_items below payloads place 0 _
  | .bool _, place, _ | .number _, place, _ | .string _, place, _ =>
    .error (place.notOpen_misfit _ _)

theorem ends_items (below : ∀ place members walk, Ends (fun _ => True) Error.NotOpen
      (descend place members walk)) : (payloads : List Json) → (place : Place) → (index : Nat) →
    (walk : Walk) →
    Ends (fun _ => True) Error.NotOpen (items identify set descend place index payloads walk)
  | [], _, _, _ => .ok trivial
  | payload :: rest, place, index, walk => by
    rw [items]
    exact (ends_value below payload _ walk).bind fun walk _ =>
      ends_items below rest place (index + 1) walk
end

end Walk

section

variable {identify : Json → Option NodeId}

mutual
theorem Field.ends_merge : (field : Field) → field.shape.All FieldHead.Closed → (place : Place) →
    (payload : Json) → (walk : Walk) →
    Ends (fun _ => True) Error.NotOpen (field.merge identify place payload walk)
  | .leaf _ _, _, _, _, _ => .ok trivial
  | .composite _ _ _ _ fields, closed, place, payload, walk =>
    Walk.ends_value (fun place members walk => Fields.ends_merge fields closed.2 place members walk)
      payload place walk

theorem Fields.ends_merge : (fields : Fields) → fields.All FieldHead.Closed → (place : Place) →
    (members : List (String × Json)) → (walk : Walk) →
    Ends (fun _ => True) Error.NotOpen (Fields.merge identify place members fields walk)
  | [], _, _, _, _ => .ok trivial
  | (name, field) :: rest, closed, place, members, walk => by
    rw [Fields.merge]
    split
    · exact Fields.ends_merge rest closed.2 place members walk
    · have here : field.head.Closed := field.head_shape ▸ closed.1.head
      refine (Walk.ends_field _ place name here).bind fun found _ => ?_
      refine (Field.ends_merge field closed.1 found.2 _ found.1).bind fun walk _ => ?_
      exact Fields.ends_merge rest closed.2 place members walk
end

/-- Merging fields without variables never fails over a variable. -/
theorem Draft.ends_merge {fields : Fields} (closed : fields.All FieldHead.Closed) (root : NodeId)
    (payload : Json) (draft : Draft) :
    Ends (fun _ => True) Error.NotOpen (draft.merge identify root fields payload) := by
  unfold Draft.merge
  split
  · exact (Fields.ends_merge fields closed _ _ _).bind fun _ _ => .ok trivial
  · exact .error (Place.notOpen_misfit _ _ _)

end

theorem Batch.merge_not_open {entry : Registered}
    (closed : entry.operation.selection.fields.All FieldHead.Closed) (cache : Cache)
    (payload : Json) (batch : Batch) (name : String) :
    batch.merge cache entry payload ≠ .error (.usage (.openVariable name)) := by
  have ends : Ends (fun _ => True) Error.NotOpen (batch.merge cache entry payload) :=
    (Draft.ends_merge closed _ _ _).bind fun _ _ => .ok trivial
  exact fun failed => ends.of_error failed name rfl

end ResponseGraph
