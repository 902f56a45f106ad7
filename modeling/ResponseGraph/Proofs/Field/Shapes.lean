import ResponseGraph.Field.Resolve
import ResponseGraph.Proofs.Basic
import ResponseGraph.Proofs.Field.Guards

/-!
Fields without labels.

A label only tells that two fields are one object.  A `Shape` is what is left of a field without
labels, and `Shape.combine` merges shapes field by field, whether they are the same or not.

Shapes are exact if whatever is derived about them is what it is derived from, and if nothing is
listed twice.  Merging keeps them exact, and an exact shape that is merged with itself stays as
it is.
-/

namespace ResponseGraph

inductive Shape where
  | leaf (head : FieldHead)
  | composite (head : FieldHead) (traits : Traits) (fields : List (String × Shape))

abbrev Shapes := List (String × Shape)

namespace Shape

def head : Shape → FieldHead
  | .leaf head => head
  | .composite head _ _ => head

def traits : Shape → Traits
  | .leaf _ => ⟨false, false⟩
  | .composite _ traits _ => traits

def fields? : Shape → Option Shapes
  | .leaf _ => none
  | .composite _ _ fields => some fields

def isDynamic (shape : Shape) : Bool :=
  shape.head.arguments.isSome || shape.head.schemaName.isSome || shape.traits.dynamic

def isGuarded (shape : Shape) : Bool := !shape.head.guards.isEmpty || shape.traits.guarded

end Shape

def Shapes.traits (shapes : Shapes) : Traits :=
  ⟨shapes.any fun entry => entry.2.isDynamic, shapes.any fun entry => entry.2.isGuarded⟩

namespace Shape

def of (head : FieldHead) : Option Shapes → Shape
  | none => .leaf head
  | some fields => .composite head fields.traits fields

/-- A shape inside a selection with a guard. -/
def within (guard : Guard) (shape : Shape) : Shape :=
  let head := { shape.head with guards := Guard.within guard shape.head.guards }
  match shape with
  | .leaf _ => .leaf head
  | .composite _ traits fields => .composite head traits fields

end Shape

namespace Shapes

def within (guard : Option Guard) (shapes : Shapes) : Shapes :=
  match guard with
  | none => shapes
  | some guard => shapes.map fun (name, shape) => (name, shape.within guard)

/-- The sub-selection of a field. -/
def below? (addTypename : Bool) (shapes : Shapes) : Option Shapes :=
  if shapes.isEmpty then none
  else if addTypename && (Entries.get? "__typename" shapes).isNone then
    some (Entries.put "__typename" (.leaf ⟨none, none, [], false⟩) shapes)
  else some shapes

end Shapes

/- Merging recurses on the incoming shape, and on nothing else. -/
mutual
def Shape.combine (path : List String) (existing : Shape) : Shape → Except DocumentError Shape
  | .leaf head => do
    let head ← existing.head.combine path head
    return .of head existing.fields?
  | .composite head traits fields => do
    let head ← existing.head.combine path head
    match existing.fields? with
    | none => return .composite head traits fields
    | some old => return .of head (some (← Shapes.combine path old fields))
termination_by structural shape => shape

def Shapes.combine (path : List String) (into : Shapes) : Shapes → Except DocumentError Shapes
  | [] => return into
  | (name, shape) :: rest => do
    let shape ← (match Entries.get? name into with
      | none => .ok shape
      | some existing => Shape.combine (path ++ [name]) existing shape)
    Shapes.combine path (Entries.put name shape into) rest
termination_by structural shapes => shapes
end

/- What is left of fields without their labels. -/
mutual
def Field.shape : Field → Shape
  | .leaf _ head => .leaf head
  | .composite _ head traits _ fields => .composite head traits (Fields.shapes fields)
termination_by structural field => field

def Fields.shapes : Fields → Shapes
  | [] => []
  | (name, field) :: rest => (name, field.shape) :: Fields.shapes rest
termination_by structural fields => fields
end

/-! ## Fields and their shapes -/

theorem Field.head_shape (field : Field) : field.shape.head = field.head := by
  cases field <;> rfl

theorem Field.traits_shape (field : Field) : field.shape.traits = field.traits := by
  cases field <;> rfl

theorem Field.fields?_shape (field : Field) :
    field.shape.fields? = field.set?.map fun set => Fields.shapes set.fields := by
  cases field <;> rfl

theorem Field.shape_within (guard : Guard) (label : Nat) (field : Field) :
    (field.within guard label).shape = field.shape.within guard := by
  cases field <;> rfl

namespace Fields

theorem shapes_eq_map (fields : Fields) :
    shapes fields = fields.map fun entry => (entry.1, entry.2.shape) := by
  induction fields with
  | nil => rfl
  | cons entry rest ih => rw [shapes, ih, List.map_cons]

theorem get?_shapes (name : String) (fields : Fields) :
    Entries.get? name (shapes fields) = (Entries.get? name fields).map Field.shape := by
  rw [shapes_eq_map]
  exact Entries.get?_map (fun _ => Field.shape) name fields

theorem shapes_put (name : String) (field : Field) (fields : Fields) :
    shapes (Entries.put name field fields) = Entries.put name field.shape (shapes fields) := by
  induction fields with
  | nil => rfl
  | cons entry rest ih =>
    obtain ⟨key, old⟩ := entry
    by_cases same : key = name
    · simp [Entries.put, shapes, same]
    · simp [Entries.put, shapes, same, ih]

theorem traits_shapes (fields : Fields) : (shapes fields).traits = Fields.traits fields := by
  have dynamic (field : Field) : field.shape.isDynamic = field.isDynamic := by
    rw [Shape.isDynamic, Field.head_shape, Field.traits_shape, Field.isDynamic]
  have guarded (field : Field) : field.shape.isGuarded = field.isGuarded := by
    rw [Shape.isGuarded, Field.head_shape, Field.traits_shape, Field.isGuarded]
  simp [Shapes.traits, Fields.traits, isDynamic, isGuarded, shapes_eq_map, List.any_map,
    Function.comp_def, dynamic, guarded]

theorem isEmpty_shapes (fields : Fields) : (shapes fields).isEmpty = fields.isEmpty := by
  cases fields <;> rfl

end Fields

theorem Field.shape_of (label : Nat) (head : FieldHead) (set? : Option FieldSet) :
    (Field.of label head set?).shape =
      .of head (set?.map fun set => Fields.shapes set.fields) := by
  cases set? with
  | none => rfl
  | some set => rw [Option.map_some, Field.of, Field.shape, Shape.of, Fields.traits_shapes]

/-! ## Exact shapes -/

/-- No two guards are the same, and the field is not excluded. -/
structure FieldHead.Exact (head : FieldHead) : Prop where
  included : head.excluded = false
  guards : Guard.Distinct head.guards

mutual
def Shape.Exact : Shape → Prop
  | .leaf head => head.Exact
  | .composite head traits fields =>
    head.Exact ∧ traits = Shapes.traits fields ∧ fields ≠ [] ∧ (fields.map Prod.fst).Nodup ∧
      Shapes.AllExact fields
termination_by structural shape => shape

def Shapes.AllExact : Shapes → Prop
  | [] => True
  | (_, shape) :: rest => shape.Exact ∧ Shapes.AllExact rest
termination_by structural shapes => shapes
end

/-- Exact shapes without a repeated name. -/
structure Shapes.Exact (shapes : Shapes) : Prop where
  names : (shapes.map Prod.fst).Nodup
  all : Shapes.AllExact shapes

theorem Shapes.allExact_iff {shapes : Shapes} :
    Shapes.AllExact shapes ↔ ∀ name shape, (name, shape) ∈ shapes → shape.Exact := by
  induction shapes with
  | nil => exact iff_of_true trivial fun _ _ member => absurd member List.not_mem_nil
  | cons entry rest ih =>
    obtain ⟨key, value⟩ := entry
    simp only [AllExact, ih, List.mem_cons, Prod.mk.injEq]
    constructor
    · rintro ⟨here, later⟩ name shape (⟨-, rfl⟩ | member)
      · exact here
      · exact later name shape member
    · exact fun all => ⟨all key value (Or.inl ⟨rfl, rfl⟩),
        fun name shape member => all name shape (Or.inr member)⟩

namespace Shapes.Exact

variable {shapes : Shapes} {name : String} {shape : Shape}

theorem nil : Exact [] := ⟨List.nodup_nil, trivial⟩

theorem of_get? (h : Exact shapes) (found : Entries.get? name shapes = some shape) : shape.Exact :=
  allExact_iff.mp h.all name shape (Entries.mem_of_get? found)

theorem put (h : Exact shapes) (exact : shape.Exact) : Exact (Entries.put name shape shapes) := by
  refine ⟨Entries.nodup_put h.names name shape, allExact_iff.mpr fun other found member => ?_⟩
  rcases Entries.mem_put h.names member with ⟨-, rfl⟩ | ⟨-, member⟩
  · exact exact
  · exact allExact_iff.mp h.all other found member

theorem tail (h : Exact ((name, shape) :: shapes)) : Exact shapes :=
  ⟨(List.nodup_cons.mp h.names).2, h.all.2⟩

theorem singleton (exact : shape.Exact) : Exact [(name, shape)] :=
  ⟨List.pairwise_singleton _ _, exact, trivial⟩

end Shapes.Exact

namespace Shape.Exact

variable {shape : Shape}

theorem head (h : shape.Exact) : shape.head.Exact := by
  cases shape with
  | leaf => exact h
  | composite => exact h.1

theorem fields (h : shape.Exact) {fields : Shapes} (found : shape.fields? = some fields) :
    fields.Exact ∧ fields ≠ [] := by
  cases shape with
  | leaf => cases found
  | composite =>
    cases found
    exact ⟨⟨h.2.2.2.1, h.2.2.2.2⟩, h.2.2.1⟩

/-- A shape with the fields of an exact one. -/
theorem of {head : FieldHead} (exact : head.Exact) {below : Option Shapes}
    (fields : ∀ fields, below = some fields → fields.Exact ∧ fields ≠ []) :
    (Shape.of head below).Exact := by
  cases below with
  | none => exact exact
  | some found =>
    obtain ⟨inner, full⟩ := fields found rfl
    exact ⟨exact, rfl, full, inner.names, inner.all⟩

end Shape.Exact

/-! ## Merging exact shapes -/

namespace FieldHead

variable {path : List String} {a b head : FieldHead}

theorem sameArguments_refl (head : FieldHead) : head.sameArguments head := by
  unfold sameArguments
  cases head.arguments with
  | none => rfl
  | some arguments => exact Argument.sameMembers_refl arguments

theorem combine_self (exact : head.Exact) : head.combine path head = .ok head := by
  unfold combine
  rw [sameArguments_refl, Guard.union_self, ← exact.included]
  simp

theorem Exact.combine (exact : a.Exact) (h : a.combine path b = .ok head) : head.Exact := by
  unfold FieldHead.combine at h
  split at h
  · cases h
  · split at h
    · cases h
    · cases h
      exact ⟨rfl, Guard.distinct_union exact.guards _⟩

theorem exact_ofSelection (aliasName : Option String) (name : String)
    (arguments : List (String × Literal)) (directives : List Directive) :
    (FieldHead.ofSelection aliasName name arguments directives).Exact := by
  have alone : Guard.Distinct (Guard.ofDirectives? directives).toList := by
    cases Guard.ofDirectives? directives with
    | none => exact List.Pairwise.nil
    | some guard => exact List.pairwise_singleton _ _
  unfold ofSelection
  split <;> exact ⟨rfl, alone⟩

end FieldHead

mutual
theorem Shape.Exact.combine {path : List String} {existing : Shape} (exact : existing.Exact) :
    (incoming : Shape) → incoming.Exact → {merged : Shape} →
    Shape.combine path existing incoming = .ok merged → merged.Exact
  | .leaf head, _, merged, h => by
    obtain ⟨head, combined, h⟩ := exists_of_bind_eq_ok h
    cases h
    exact .of (exact.head.combine combined) fun fields found => exact.fields found
  | .composite head traits fields, exact', merged, h => by
    rw [Shape.combine] at h
    obtain ⟨head, combined, h⟩ := exists_of_bind_eq_ok h
    have head := exact.head.combine combined
    split at h
    · cases h
      exact ⟨head, exact'.2⟩
    · next old found =>
      obtain ⟨inner, full⟩ := exact.fields found
      obtain ⟨merged, joined, h⟩ := exists_of_bind_eq_ok h
      cases h
      have all := Shapes.Exact.combine inner fields ⟨exact'.2.2.2.1, exact'.2.2.2.2⟩ joined
      exact .of head fun _ e => by
        cases e
        exact ⟨all.1, all.2 full⟩

theorem Shapes.Exact.combine {path : List String} {into : Shapes} (exact : into.Exact) :
    (incoming : Shapes) → incoming.Exact → {merged : Shapes} →
    Shapes.combine path into incoming = .ok merged →
    merged.Exact ∧ (into ≠ [] → merged ≠ [])
  | [], _, merged, h => by
    cases h
    exact ⟨exact, id⟩
  | (name, shape) :: rest, exact', merged, h => by
    rw [Shapes.combine] at h
    obtain ⟨joined, first, h⟩ := exists_of_bind_eq_ok h
    have here : joined.Exact := by
      split at first
      · cases first
        exact exact'.all.1
      · next existing found =>
        exact Shape.Exact.combine (exact.of_get? found) shape exact'.all.1 first
    obtain ⟨all, kept⟩ := Shapes.Exact.combine (exact.put here) rest exact'.tail h
    refine ⟨all, fun _ => kept fun empty => ?_⟩
    have found := Entries.get?_put name name joined into
    rw [empty, if_pos rfl] at found
    cases found
end

/-! ## Paths -/

/-- The path is for errors. -/
theorem FieldHead.combine_path {path path' : List String} {a b head : FieldHead}
    (h : a.combine path b = .ok head) : a.combine path' b = .ok head := by
  unfold combine at h ⊢
  split at h
  · cases h
  · next alike =>
    split at h
    · cases h
    · next named =>
      rw [if_neg alike, if_neg named]
      exact h

mutual
theorem Shape.combine_path {path path' : List String} {existing : Shape} : (incoming : Shape) →
    {merged : Shape} → Shape.combine path existing incoming = .ok merged →
    Shape.combine path' existing incoming = .ok merged
  | .leaf head, merged, h => by
    rw [Shape.combine] at h ⊢
    obtain ⟨head, combined, h⟩ := exists_of_bind_eq_ok h
    rw [FieldHead.combine_path combined]
    exact h
  | .composite head traits fields, merged, h => by
    rw [Shape.combine] at h ⊢
    obtain ⟨head, combined, h⟩ := exists_of_bind_eq_ok h
    rw [FieldHead.combine_path combined]
    show (match existing.fields? with | none => _ | some old => _) = _
    split at h
    · exact h
    · obtain ⟨merged, joined, h⟩ := exists_of_bind_eq_ok h
      rw [Shapes.combine_path fields joined]
      exact h

theorem Shapes.combine_path {path path' : List String} {into : Shapes} : (incoming : Shapes) →
    {merged : Shapes} → Shapes.combine path into incoming = .ok merged →
    Shapes.combine path' into incoming = .ok merged
  | [], _, h => h
  | (name, shape) :: rest, merged, h => by
    rw [Shapes.combine] at h ⊢
    obtain ⟨joined, first, h⟩ := exists_of_bind_eq_ok h
    have later := @Shapes.combine_path path path' _ rest _ h
    split at first
    · cases first
      exact later
    · rw [Shape.combine_path shape first]
      exact later
end

/-! ## Merging a shape with itself -/

mutual
theorem Shape.combine_self {path : List String} : (shape : Shape) → shape.Exact →
    Shape.combine path shape shape = .ok shape
  | .leaf head, exact => by
    rw [Shape.combine, Shape.head, FieldHead.combine_self exact]
    rfl
  | .composite head traits fields, exact => by
    obtain ⟨head', traits', -, names, all⟩ := exact
    have inner := @Shapes.combine_of_get? path fields fields all fun name shape member =>
      Entries.get?_of_mem names member
    rw [Shape.combine, Shape.head, FieldHead.combine_self head', traits']
    show (Shapes.combine path fields fields).bind _ = _
    rw [inner]
    rfl

theorem Shapes.combine_of_get? {path : List String} {into : Shapes} : (incoming : Shapes) →
    Shapes.AllExact incoming →
    (∀ name shape, (name, shape) ∈ incoming → Entries.get? name into = some shape) →
    Shapes.combine path into incoming = .ok into
  | [], _, _ => rfl
  | (name, shape) :: rest, exact, present => by
    have found := present name shape List.mem_cons_self
    rw [Shapes.combine, found]
    show (Shape.combine (path ++ [name]) shape shape).bind _ = _
    rw [Shape.combine_self shape exact.1]
    show Shapes.combine path (Entries.put name shape into) rest = _
    rw [Entries.put_of_get? found]
    exact Shapes.combine_of_get? rest exact.2 fun name shape member =>
      present name shape (List.mem_cons_of_mem _ member)
end

/-- Exact shapes that are merged with themselves stay as they are. -/
theorem Shapes.Exact.combine_self {path : List String} {shapes : Shapes} (exact : shapes.Exact) :
    Shapes.combine path shapes shapes = .ok shapes :=
  Shapes.combine_of_get? shapes exact.all fun _ _ member => Entries.get?_of_mem exact.names member

theorem Shape.Exact.within {shape : Shape} (exact : shape.Exact) (guard : Guard) :
    (shape.within guard).Exact := by
  have head : FieldHead.Exact
      { shape.head with guards := Guard.within guard shape.head.guards } :=
    ⟨exact.head.included, Guard.distinct_within exact.head.guards guard⟩
  cases shape with
  | leaf => exact head
  | composite => exact ⟨head, exact.2⟩

theorem Shapes.Exact.within {shapes : Shapes} (exact : shapes.Exact) (guard : Option Guard) :
    (Shapes.within guard shapes).Exact := by
  unfold Shapes.within
  split
  · exact exact
  · next guard =>
    refine ⟨?_, allExact_iff.mpr fun name shape member => ?_⟩
    · simpa [List.map_map, Function.comp_def] using exact.names
    · obtain ⟨entry, inside, e⟩ := List.mem_map.mp member
      cases e
      exact (allExact_iff.mp exact.all entry.1 entry.2 inside).within guard

theorem Shapes.Exact.below {shapes fields : Shapes} (exact : shapes.Exact) {addTypename : Bool}
    (h : Shapes.below? addTypename shapes = some fields) : fields.Exact ∧ fields ≠ [] := by
  unfold Shapes.below? at h
  split at h
  · cases h
  · next full =>
    split at h
    · cases h
      refine ⟨exact.put ⟨rfl, List.Pairwise.nil⟩, fun empty => ?_⟩
      have found := Entries.get?_put "__typename" "__typename" (.leaf ⟨none, none, [], false⟩) shapes
      rw [empty, if_pos rfl] at found
      cases found
    · cases h
      exact ⟨exact, fun empty => full (by simp [empty])⟩

end ResponseGraph
