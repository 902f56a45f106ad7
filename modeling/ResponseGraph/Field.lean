import ResponseGraph.Guard

/-!
Fields of a selection.

A selection set, with fragments resolved and repeated fields merged, is a list of
fields by response name in the order of their first appearance.

Fields and field sets carry labels.  Two fields or two sets with one label are one
object that occurs in several places, which happens when a fragment is spread
more than once.  Merging payloads relies on it: an entity that was merged with a
set is not merged again with the same set.  Labels have no other meaning, and new
ones are taken from a counter.
-/

namespace ResponseGraph

/-- What a field says apart from its sub-selection. -/
structure FieldHead where
  /-- The field of the schema, where the response name is another. -/
  schemaName : Option String
  arguments : Option Arguments
  guards : List Guard
  /-- No guard holds under the variables of the operation. -/
  excluded : Bool

/-- What holds of some field of a set. -/
structure Traits where
  /-- It has arguments or another response name. -/
  dynamic : Bool
  /-- It has a guard. -/
  guarded : Bool
deriving DecidableEq

inductive Field where
  | leaf (label : Nat) (head : FieldHead)
  | composite (label : Nat) (head : FieldHead) (traits : Traits) (set : Nat)
      (fields : List (String × Field))

abbrev Fields := List (String × Field)

structure FieldSet where
  label : Nat
  fields : Fields

namespace Field

def label : Field → Nat
  | .leaf label _ => label
  | .composite label _ _ _ _ => label

def head : Field → FieldHead
  | .leaf _ head => head
  | .composite _ head _ _ _ => head

/-- What holds of the fields below. -/
def traits : Field → Traits
  | .leaf _ _ => ⟨false, false⟩
  | .composite _ _ traits _ _ => traits

def set? : Field → Option FieldSet
  | .leaf _ _ => none
  | .composite _ _ _ set fields => some ⟨set, fields⟩

/-- The field stores its value in a place that depends on the operation, or some
field below does. -/
def isDynamic (field : Field) : Bool :=
  field.head.arguments.isSome || field.head.schemaName.isSome || field.traits.dynamic

def isGuarded (field : Field) : Bool := !field.head.guards.isEmpty || field.traits.guarded

/-- Variables may occur in the field or below. -/
def varies (field : Field) : Bool :=
  field.head.arguments.isSome || field.traits.dynamic || field.isGuarded

end Field

namespace Fields

def isDynamic (fields : Fields) : Bool := fields.any fun entry => entry.2.isDynamic

def isGuarded (fields : Fields) : Bool := fields.any fun entry => entry.2.isGuarded

def varies (fields : Fields) : Bool := fields.any fun entry => entry.2.varies

def traits (fields : Fields) : Traits := ⟨fields.isDynamic, fields.isGuarded⟩

end Fields

/-- A field with the given sub-selection. -/
def Field.of (label : Nat) (head : FieldHead) : Option FieldSet → Field
  | none => .leaf label head
  | some set => .composite label head (Fields.traits set.fields) set.label set.fields

/-- A field without arguments, alias and guard. -/
def Field.plainLeaf (label : Nat) : Field := .leaf label ⟨none, none, [], false⟩

/-- A field inside a selection with a guard. -/
def Field.within (guard : Guard) (label : Nat) (field : Field) : Field :=
  let head := { field.head with guards := Guard.within guard field.head.guards }
  match field with
  | .leaf _ _ => .leaf label head
  | .composite _ _ traits set fields => .composite label head traits set fields

/-! ## Labels -/

/-- Computations that take new labels from a counter and may fail. -/
abbrev Labelling (ε α : Type) := StateT Nat (Except ε) α

def newLabel {ε : Type} : Labelling ε Nat := fun next => .ok (next, next + 1)

end ResponseGraph
