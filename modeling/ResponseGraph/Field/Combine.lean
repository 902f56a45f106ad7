import ResponseGraph.Field

/-!
Merging repeated fields.

Two selections of one response name are one field if they mean the same stored
field.  Their sub-selections are merged, and the field is included when either of
the two is.
-/

namespace ResponseGraph

namespace DocumentError

def argumentConflict (path : List String) : DocumentError :=
  .conflictingFields "parameterization mismatch" path

def aliasConflict (path : List String) : DocumentError :=
  .conflictingFields "alias mismatch" path

end DocumentError

namespace FieldHead

def sameArguments (a b : FieldHead) : Bool :=
  match a.arguments, b.arguments with
  | none, none => true
  | some a, some b => a.same b
  | _, _ => false

/-- The head of two selections of one field at `path`. -/
def combine (path : List String) (a b : FieldHead) : Except DocumentError FieldHead :=
  if !a.sameArguments b then .error (.argumentConflict path)
  else if a.schemaName ≠ b.schemaName then .error (.aliasConflict path)
  else .ok { a with guards := Guard.union a.guards b.guards, excluded := false }

end FieldHead

/- Merging recurses on the incoming field.  A field merged with itself is
unchanged, and so is a set; anything else that is merged gets a label of its
own. -/
mutual
def Field.combine (path : List String) (existing : Field) : Field → Labelling DocumentError Field
  | .leaf label head =>
    if existing.label = label then return existing
    else do
      let head ← existing.head.combine path head
      return .of (← newLabel) head existing.set?
  | .composite label head traits set fields =>
    if existing.label = label then return existing
    else do
      let head ← existing.head.combine path head
      match existing.set? with
      | none => return .composite (← newLabel) head traits set fields
      | some old =>
        if old.label = set then return .of (← newLabel) head (some old)
        else
          let merged ← Fields.combine path old.fields fields
          return .of (← newLabel) head (some ⟨← newLabel, merged⟩)
termination_by structural field => field

def Fields.combine (path : List String) (into : Fields) : Fields → Labelling DocumentError Fields
  | [] => return into
  | (name, field) :: rest => do
    let field ← match Entries.get? name into with
      | none => pure field
      | some existing => Field.combine (path ++ [name]) existing field
    Fields.combine path (Entries.put name field into) rest
termination_by structural fields => fields
end

end ResponseGraph
