import ResponseGraph.Proofs.Field.Contained

/-!
Fields that are all made anew.

The plain way to instantiate fields goes into every one of them, decides its guards, replaces the
variables of its arguments, and derives its traits from the fields made below
(`Shapes.instantiate`).  Fields of a plan are instantiated otherwise: those in which nothing can
vary are kept, which is told by traits that were derived when they were resolved.  What is made is
the same, error for error, and a field that is not kept has arguments, a guard or an alias in it
(`Plan.instantiate_rebuilds`).
-/

namespace ResponseGraph

/- Every field is made anew, excluded ones and what is below them too. -/
mutual
def Shape.instantiate (bindings : Bindings) : Shape → Except VariableError Shape
  | .leaf head => do
    let head ← head.decide bindings
    return .leaf (← head.instantiateArguments bindings)
  | .composite head _ fields => do
    let head ← head.decide bindings
    let fields ← Shapes.instantiate bindings fields
    return .of (← head.instantiateArguments bindings) (some fields)
termination_by structural shape => shape

def Shapes.instantiate (bindings : Bindings) : Shapes → Except VariableError Shapes
  | [] => return []
  | (name, shape) :: rest => do
    let shape ← shape.instantiate bindings
    let rest ← Shapes.instantiate bindings rest
    return (name, shape) :: rest
termination_by structural shapes => shapes
end

/-- The field has arguments, a guard, or another name in the schema than in the response. -/
def Field.Marked (field : Field) : Prop :=
  field.head.arguments.isSome ∨ field.head.guards ≠ [] ∨ field.head.schemaName.isSome

/-- Some field at any depth is marked. -/
def Fields.Marked (fields : Fields) : Prop :=
  ∃ name field, fields.Contains name field ∧ field.Marked

/-- What is made of a head under given variables: they are replaced in all arguments, and the
field is excluded exactly if it has guards of which none holds. -/
structure FieldHead.Under (bindings : Bindings) (head made : FieldHead) : Prop where
  schemaName : made.schemaName = head.schemaName
  arguments : Option.Rel (fun arguments filled => arguments.instantiate bindings = .ok filled)
    head.arguments made.arguments
  guards : made.guards = head.guards
  excluded : made.excluded = true ↔
    head.guards ≠ [] ∧ ∀ guard ∈ head.guards, guard.holds bindings = .ok false

/-! ## Where nothing varies -/

/-- Variables may occur in the shape or below. -/
def Shape.varies (shape : Shape) : Bool :=
  shape.head.arguments.isSome || shape.traits.dynamic || shape.isGuarded

theorem Field.varies_shape (field : Field) : field.shape.varies = field.varies := by
  unfold Shape.varies Field.varies Shape.isGuarded Field.isGuarded
  rw [Field.head_shape, Field.traits_shape]

theorem Fields.varies_shapes (fields : Fields) :
    (Fields.shapes fields).any (fun entry => entry.2.varies) = fields.varies := by
  simp [Fields.varies, Fields.shapes_eq_map, List.any_map, Function.comp_def, Field.varies_shape]

variable {bindings : Bindings}

namespace FieldHead

variable {head : FieldHead}

theorem decide_of_unguarded (exact : head.Exact) (unguarded : head.guards = []) :
    head.decide bindings = .ok head := by
  obtain ⟨schemaName, arguments, guards, excluded⟩ := head
  obtain rfl : guards = [] := unguarded
  obtain rfl : excluded = false := exact.included
  rfl

theorem instantiateArguments_of_none (plain : head.arguments = none) :
    head.instantiateArguments bindings = .ok head := by
  unfold instantiateArguments
  rw [plain]
  rfl

end FieldHead

/-- The traits of exact shapes tell of each of them. -/
theorem Shapes.not_varies_of_traits {shapes : Shapes} (plain : shapes.traits.dynamic = false)
    (unguarded : shapes.traits.guarded = false) :
    shapes.any (fun entry => entry.2.varies) = false := by
  refine List.any_eq_false.mpr fun entry member => ?_
  have dynamic := List.any_eq_false.mp plain entry member
  have guarded := List.any_eq_false.mp unguarded entry member
  simp only [Bool.not_eq_true, Shape.isDynamic, Bool.or_eq_false_iff] at dynamic guarded
  simp only [Shape.varies, dynamic, guarded, Bool.or_false, Bool.false_eq_true, not_false_eq_true]

/-- What does not vary has neither arguments nor guards, and nothing varies below it. -/
theorem Shape.Exact.of_not_varies {shape : Shape} (exact : shape.Exact)
    (same : shape.varies = false) : shape.head.arguments = none ∧ shape.head.guards = [] ∧
      ∀ fields, shape.fields? = some fields → fields.any (fun entry => entry.2.varies) = false := by
  simp only [Shape.varies, Shape.isGuarded, Bool.or_eq_false_iff, Option.isSome_eq_false_iff,
    Option.isNone_iff_eq_none, Bool.not_eq_false', List.isEmpty_iff] at same
  obtain ⟨⟨none, dynamic⟩, unguarded, guarded⟩ := same
  refine ⟨none, unguarded, fun fields found => ?_⟩
  cases shape with
  | leaf => cases found
  | composite head traits below =>
    cases found
    rw [Shape.traits, exact.2.1] at dynamic guarded
    exact Shapes.not_varies_of_traits dynamic guarded

mutual
/-- Where nothing varies, everything is made as it was. -/
theorem Shape.instantiate_of_not_varies : (shape : Shape) → shape.Exact → shape.varies = false →
    shape.instantiate bindings = .ok shape
  | .leaf head, exact, same => by
    obtain ⟨plain, unguarded, -⟩ := Shape.Exact.of_not_varies exact same
    rw [Shape.instantiate, FieldHead.decide_of_unguarded exact unguarded]
    have plain : head.arguments = none := plain
    show (head.instantiateArguments bindings >>= _) = _
    rw [FieldHead.instantiateArguments_of_none plain]
    rfl
  | .composite head traits fields, exact, same => by
    obtain ⟨plain, unguarded, below⟩ := Shape.Exact.of_not_varies exact same
    have inner := Shapes.instantiate_of_not_varies fields exact.2.2.2.2 (below fields rfl)
    rw [Shape.instantiate, FieldHead.decide_of_unguarded exact.1 unguarded]
    show (Shapes.instantiate bindings fields >>= _) = _
    rw [inner]
    have plain : head.arguments = none := plain
    show (head.instantiateArguments bindings >>= _) = _
    rw [FieldHead.instantiateArguments_of_none plain, exact.2.1]
    rfl

theorem Shapes.instantiate_of_not_varies : (shapes : Shapes) → Shapes.AllExact shapes →
    shapes.any (fun entry => entry.2.varies) = false →
    Shapes.instantiate bindings shapes = .ok shapes
  | [], _, _ => rfl
  | (name, shape) :: rest, exact, same => by
    obtain ⟨here, later⟩ := Bool.or_eq_false_iff.mp same
    rw [Shapes.instantiate, Shape.instantiate_of_not_varies shape exact.1 here]
    show (Shapes.instantiate bindings rest >>= _) = _
    rw [Shapes.instantiate_of_not_varies rest exact.2 later]
    rfl
end


/-! ## Heads under variables -/

/-- Guards fail together exactly if there are some and each of them fails. -/
theorem Guard.anyHolds_eq_false_iff {guards : List Guard} :
    anyHolds bindings guards = .ok false ↔
      guards ≠ [] ∧ ∀ guard ∈ guards, guard.holds bindings = .ok false := by
  induction guards with
  | nil => exact iff_of_false (fun h => by cases h) fun h => h.1 rfl
  | cons guard rest ih =>
    rw [and_iff_right (List.cons_ne_nil guard rest)]
    cases rest with
    | nil =>
      rw [List.forall_mem_singleton]
      rfl
    | cons other others =>
      rw [and_iff_right (List.cons_ne_nil other others)] at ih
      rw [List.forall_mem_cons, ← ih, anyHolds]
      · cases held : guard.holds bindings with
        | error e => exact iff_of_false (fun h => by cases h) fun h => by cases h.1
        | ok value =>
          cases value with
          | true => exact iff_of_false (fun h => by cases h) fun h => by cases h.1
          | false => exact (and_iff_right rfl).symm
      · exact fun h => by cases h

theorem FieldHead.under {head decided filled : FieldHead}
    (made : head.decide bindings = .ok decided)
    (made' : decided.instantiateArguments bindings = .ok filled) : head.Under bindings filled := by
  obtain ⟨guards, arguments, schemaName, held⟩ := FieldHead.guards_decide made
  obtain ⟨guards', -, schemaName', excluded⟩ := FieldHead.instantiateArguments_eq made'
  refine ⟨schemaName'.trans schemaName, ?_, guards'.trans guards, ?_⟩
  · rw [← arguments]
    unfold instantiateArguments at made'
    cases given : decided.arguments with
    | none =>
      rw [given] at made'
      cases made'
      rw [given]
      exact .none
    | some arguments =>
      rw [given] at made'
      obtain ⟨value, done, made'⟩ := exists_of_bind_eq_ok made'
      cases made'
      exact .some done
  · rw [excluded, ← Guard.anyHolds_eq_false_iff, held, Except.ok.injEq, Bool.not_eq_false']

/-! ## All that is made anew -/

namespace FieldHead.Under

variable {head made : FieldHead}

theorem isSome_arguments (under : head.Under bindings made) :
    made.arguments.isSome = head.arguments.isSome := by
  have related := under.arguments
  generalize head.arguments = arguments, made.arguments = filled at related ⊢
  cases related <;> rfl

end FieldHead.Under

theorem Shape.exists_of_instantiate_leaf {head : FieldHead} {made : Shape}
    (h : (Shape.leaf head).instantiate bindings = .ok made) :
    ∃ filled, head.Under bindings filled ∧ made = .leaf filled := by
  rw [Shape.instantiate] at h
  obtain ⟨decided, here, h⟩ := exists_of_bind_eq_ok h
  obtain ⟨filled, here', h⟩ := exists_of_bind_eq_ok h
  cases h
  exact ⟨filled, FieldHead.under here here', rfl⟩

theorem Shape.exists_of_instantiate_composite {head : FieldHead} {traits : Traits}
    {fields : Shapes} {made : Shape}
    (h : (Shape.composite head traits fields).instantiate bindings = .ok made) :
    ∃ filled inner, head.Under bindings filled ∧ Shapes.instantiate bindings fields = .ok inner ∧
      made = .of filled (some inner) := by
  rw [Shape.instantiate] at h
  obtain ⟨decided, here, h⟩ := exists_of_bind_eq_ok h
  obtain ⟨inner, below, h⟩ := exists_of_bind_eq_ok h
  obtain ⟨filled, here', h⟩ := exists_of_bind_eq_ok h
  cases h
  exact ⟨filled, inner, FieldHead.under here here', below, rfl⟩

theorem Shapes.exists_of_instantiate_cons {name : String} {shape : Shape} {rest made : Shapes}
    (h : Shapes.instantiate bindings ((name, shape) :: rest) = .ok made) :
    ∃ first later, shape.instantiate bindings = .ok first ∧
      Shapes.instantiate bindings rest = .ok later ∧ made = (name, first) :: later := by
  rw [Shapes.instantiate] at h
  obtain ⟨first, here, h⟩ := exists_of_bind_eq_ok h
  obtain ⟨later, there, h⟩ := exists_of_bind_eq_ok h
  cases h
  exact ⟨first, later, here, there, rfl⟩

mutual
/-- Traits are derived again, and come out as they were. -/
theorem Shape.alike_instantiate : (shape : Shape) → shape.Formed → {made : Shape} →
    shape.instantiate bindings = .ok made →
    made.Formed ∧ made.isDynamic = shape.isDynamic ∧ made.isGuarded = shape.isGuarded
  | .leaf head, _, made, h => by
    obtain ⟨filled, under, rfl⟩ := Shape.exists_of_instantiate_leaf h
    refine ⟨trivial, ?_, ?_⟩
    · simp only [Shape.isDynamic, Shape.head, under.isSome_arguments, under.schemaName,
        Shape.traits]
    · simp only [Shape.isGuarded, Shape.head, under.guards, Shape.traits]
  | .composite head traits fields, formed, made, h => by
    obtain ⟨filled, inner, under, below, rfl⟩ := Shape.exists_of_instantiate_composite h
    obtain ⟨inside, same, full⟩ := Shapes.alike_instantiate fields formed.2.2 below
    refine ⟨⟨rfl, fun empty => formed.2.1 (full.mp empty), inside⟩, ?_, ?_⟩
    · simp only [Shape.isDynamic, Shape.of, Shape.head, under.isSome_arguments, under.schemaName,
        Shape.traits, same, formed.1]
    · simp only [Shape.isGuarded, Shape.of, Shape.head, under.guards, Shape.traits, same, formed.1]

theorem Shapes.alike_instantiate : (shapes : Shapes) → Shapes.Formed shapes → {made : Shapes} →
    Shapes.instantiate bindings shapes = .ok made →
    Shapes.Formed made ∧ made.traits = shapes.traits ∧ (made = [] ↔ shapes = [])
  | [], _, made, h => by
    cases h
    exact ⟨trivial, rfl, Iff.rfl⟩
  | (name, shape) :: rest, formed, made, h => by
    obtain ⟨first, later, here, there, rfl⟩ := Shapes.exists_of_instantiate_cons h
    obtain ⟨formed', dynamic, guarded⟩ := Shape.alike_instantiate shape formed.1 here
    obtain ⟨rest', same, -⟩ := Shapes.alike_instantiate rest formed.2 there
    unfold Shapes.traits at same ⊢
    injection same with dynamic' guarded'
    refine ⟨⟨formed', rest'⟩, ?_, iff_of_false (List.cons_ne_nil _ _) (List.cons_ne_nil _ _)⟩
    simp only [List.any_cons, dynamic, guarded, dynamic', guarded']
end

mutual
/-- Every head is what its variables make of it. -/
theorem Shape.under_instantiate : (shape : Shape) → {made : Shape} →
    shape.instantiate bindings = .ok made →
    ∀ path, Option.Rel (FieldHead.Under bindings) (shape.at? path) (made.at? path)
  | .leaf head, made, h, path => by
    obtain ⟨filled, under, rfl⟩ := Shape.exists_of_instantiate_leaf h
    cases path with
    | nil => exact .some under
    | cons name path => exact .none
  | .composite head traits fields, made, h, path => by
    obtain ⟨filled, inner, under, below, rfl⟩ := Shape.exists_of_instantiate_composite h
    cases path with
    | nil => exact .some under
    | cons name path => exact Shapes.under_instantiate fields below (name :: path)

theorem Shapes.under_instantiate : (shapes : Shapes) → {made : Shapes} →
    Shapes.instantiate bindings shapes = .ok made →
    ∀ path, Option.Rel (FieldHead.Under bindings) (shapes.at? path) (made.at? path)
  | [], made, h, path => by
    cases h
    rw [Shapes.at?_nil]
    exact .none
  | (name, shape) :: rest, made, h, path => by
    obtain ⟨first, later, here, there, rfl⟩ := Shapes.exists_of_instantiate_cons h
    cases path with
    | nil => exact .none
    | cons key path =>
      have elsewhere := Shapes.under_instantiate rest there (key :: path)
      simp only [Shapes.at?, Entries.get?_cons] at elsewhere ⊢
      by_cases same : name = key
      · rw [if_pos same, if_pos same]
        exact Shape.under_instantiate shape here path
      · rw [if_neg same, if_neg same]
        exact elsewhere
end

mutual
/-- What holds of every shape that is made, for something that held of the shape before. -/
theorem Shape.Every.instantiate {holds holds' : String → Shape → Prop}
    (step : ∀ name shape made, holds name shape → shape.instantiate bindings = .ok made →
      holds' name made) {name : String} : (shape : Shape) → shape.Every holds name →
    {made : Shape} → shape.instantiate bindings = .ok made → made.Every holds' name
  | .leaf head, every, made, done => by
    have here := step name _ made every done
    obtain ⟨filled, -, rfl⟩ := Shape.exists_of_instantiate_leaf done
    exact here
  | .composite head traits fields, every, made, done => by
    have here := step name _ made every.1 done
    obtain ⟨filled, inner, -, below, rfl⟩ := Shape.exists_of_instantiate_composite done
    exact ⟨here, Shapes.Every.instantiate step fields every.2 below⟩

theorem Shapes.Every.instantiate {holds holds' : String → Shape → Prop}
    (step : ∀ name shape made, holds name shape → shape.instantiate bindings = .ok made →
      holds' name made) : (shapes : Shapes) → shapes.Every holds → {made : Shapes} →
    Shapes.instantiate bindings shapes = .ok made → made.Every holds'
  | [], _, made, done => by
    cases done
    trivial
  | (name, shape) :: rest, every, made, done => by
    obtain ⟨first, later, here, there, rfl⟩ := Shapes.exists_of_instantiate_cons done
    exact ⟨Shape.Every.instantiate step shape every.1 here,
      Shapes.Every.instantiate step rest every.2 there⟩
end

/-! ## Fields that are made anew in part -/

/-- The last steps for a field with a decided head and the fields below it. -/
theorem Field.paired_filled {decided : FieldHead} {traits : Traits} {set : Nat} {fields : Fields}
    (accurate : traits = (Fields.shapes fields).traits) (next : Nat) :
    Paired (fun made shape => made.1.shape = shape)
      ((do
        let head ← liftM (decided.instantiateArguments bindings)
        return Field.composite (← newLabel) head traits set fields :
        Labelling VariableError Field) next)
      (do
        let head ← decided.instantiateArguments bindings
        return Shape.of head (some (Fields.shapes fields))) := by
  rw [Labels.lift_bind]
  refine (Paired.refl _).bind ?_
  rintro filled _ rfl
  refine .ok ?_
  rw [accurate]
  rfl

mutual
/-- Fields are made as all fields would be made. -/
theorem Field.paired_instantiate : (field : Field) → field.shape.Exact → (next : Nat) →
    Paired (fun made shape => made.1.shape = shape) (field.instantiate bindings next)
      (field.shape.instantiate bindings)
  | .leaf label head, exact, next => by
    unfold Field.instantiate
    split
    · rw [Labels.lift_bind, Field.shape, Shape.instantiate]
      refine (Paired.refl _).bind ?_
      rintro decided _ rfl
      rw [Labels.lift_bind]
      refine (Paired.refl _).bind ?_
      rintro filled _ rfl
      exact .ok rfl
    · next same =>
      rw [← Field.varies_shape, Bool.not_eq_true] at same
      rw [Shape.instantiate_of_not_varies _ exact same]
      exact .ok rfl
  | .composite label head traits set fields, exact, next => by
    unfold Field.instantiate
    split
    · have accurate : traits = Shapes.traits (Fields.shapes fields) := exact.2.1
      have inside := exact.2.2.2.2
      rw [Labels.lift_bind, Field.shape, Shape.instantiate]
      refine (Paired.refl _).bind ?_
      rintro decided _ rfl
      split
      · refine (Fields.paired_instantiate fields inside next).bind_of_eq ?_
        rintro ⟨fields', next'⟩ _ - below rfl
        obtain ⟨-, same, -⟩ :=
          Shapes.alike_instantiate _ (Shapes.AllExact.formed _ inside) below
        exact Field.paired_filled (accurate.trans same.symm) (next' + 1)
      · next same =>
        rw [← Fields.varies_shapes, Bool.not_eq_true] at same
        rw [Shapes.instantiate_of_not_varies _ inside same]
        exact Field.paired_filled accurate next
    · next same =>
      rw [← Field.varies_shape, Bool.not_eq_true] at same
      rw [Shape.instantiate_of_not_varies _ exact same]
      exact .ok rfl

theorem Fields.paired_instantiate : (fields : Fields) → Shapes.AllExact (Fields.shapes fields) →
    (next : Nat) → Paired (fun made shapes => Fields.shapes made.1 = shapes)
      (Fields.instantiate bindings fields next)
      (Shapes.instantiate bindings (Fields.shapes fields))
  | [], _, next => .ok rfl
  | (name, field) :: rest, exact, next => by
    rw [Fields.shapes, Shapes.instantiate, Fields.instantiate]
    refine (Field.paired_instantiate field exact.1 next).bind ?_
    rintro ⟨made, next⟩ _ rfl
    refine (Fields.paired_instantiate rest exact.2 next).bind ?_
    rintro ⟨others, next⟩ _ rfl
    exact .ok rfl
end

theorem FieldSet.paired_instantiate {set : FieldSet}
    (exact : Shapes.AllExact (Fields.shapes set.fields)) (next : Nat) :
    Paired (fun made shapes => Fields.shapes made.fields = shapes)
      (set.instantiate bindings next) (Shapes.instantiate bindings (Fields.shapes set.fields)) := by
  unfold FieldSet.instantiate
  split
  · have pair := @Fields.paired_instantiate bindings set.fields exact next
    generalize Fields.instantiate bindings set.fields next = first,
      Shapes.instantiate bindings (Fields.shapes set.fields) = second at pair ⊢
    cases pair with
    | error e => exact .error e
    | ok same => exact .ok same
  · next same =>
    rw [← Fields.varies_shapes, Bool.not_eq_true] at same
    rw [Shapes.instantiate_of_not_varies _ exact same]
    exact .ok rfl

/-! ## What is kept -/

/-- A field in which nothing varies is kept, and so is a set. -/
structure Field.Spares (field made : Field) : Prop where
  itself : made = field ∨ field.varies = true
  set : made.set? = field.set? ∨ field.inner.varies = true

/-- Every field is found where it was, kept if nothing varies in it. -/
def Fields.Spare (fields made : Fields) : Prop :=
  ∀ path field, fields.at? path = some field → ∃ field', made.at? path = some field' ∧
    field.Spares field'

theorem Field.Spares.refl (field : Field) : field.Spares field := ⟨Or.inl rfl, Or.inl rfl⟩

theorem Fields.Spare.refl (fields : Fields) : fields.Spare fields :=
  fun _ field found => ⟨field, found, .refl field⟩

theorem Fields.Spare.cons {name : String} {field made : Field} {rest others : Fields}
    (first : field.Spares made) (inner : field.inner.Spare made.inner) (later : rest.Spare others) :
    Fields.Spare ((name, field) :: rest) ((name, made) :: others) := by
  intro path found at_path
  match path with
  | [] => cases at_path
  | [key] =>
    have elsewhere := later [key] found
    simp only [Fields.at?, Entries.get?_cons] at at_path elsewhere ⊢
    by_cases same : name = key
    · rw [if_pos same] at at_path ⊢
      cases at_path
      exact ⟨made, rfl, first⟩
    · rw [if_neg same] at at_path ⊢
      exact elsewhere at_path
  | key :: other :: path =>
    have elsewhere := later (key :: other :: path) found
    rw [Fields.at?_cons] at at_path elsewhere ⊢
    rw [Entries.get?_cons] at at_path ⊢
    by_cases same : name = key
    · rw [if_pos same] at at_path ⊢
      exact inner (other :: path) found at_path
    · rw [if_neg same] at at_path ⊢
      exact elsewhere at_path

mutual
theorem Field.spares_instantiate : (field : Field) → {next last : Nat} → {made : Field} →
    field.instantiate bindings next = .ok (made, last) →
    field.Spares made ∧ field.inner.Spare made.inner
  | .leaf label head, next, last, made, h => by
    unfold Field.instantiate at h
    split at h
    · next varies =>
      obtain ⟨decided, _, lifted, h⟩ := exists_of_run_bind h
      obtain ⟨filled, _, lifted', h⟩ := exists_of_run_bind h
      cases h
      exact ⟨⟨Or.inr varies, Or.inl rfl⟩, .refl _⟩
    · cases h
      exact ⟨.refl _, .refl _⟩
  | .composite label head traits set fields, next, last, made, h => by
    unfold Field.instantiate at h
    split at h
    · next varies =>
      obtain ⟨decided, _, lifted, h⟩ := exists_of_run_bind h
      split at h
      · next within =>
        obtain ⟨fields', _, below, h⟩ := exists_of_run_bind h
        obtain ⟨set', _, -, h⟩ := exists_of_run_bind h
        obtain ⟨_, _, kept, h⟩ := exists_of_run_bind h
        cases kept
        obtain ⟨filled, _, lifted', h⟩ := exists_of_run_bind h
        cases h
        exact ⟨⟨Or.inr varies, Or.inr within⟩, Fields.spare_instantiate fields below⟩
      · obtain ⟨_, _, kept, h⟩ := exists_of_run_bind h
        cases kept
        obtain ⟨filled, _, lifted', h⟩ := exists_of_run_bind h
        cases h
        exact ⟨⟨Or.inr varies, Or.inl rfl⟩, .refl _⟩
    · cases h
      exact ⟨.refl _, .refl _⟩

theorem Fields.spare_instantiate : (fields : Fields) → {next last : Nat} → {made : Fields} →
    Fields.instantiate bindings fields next = .ok (made, last) → fields.Spare made
  | [], _, _, made, h => by
    cases h
    exact .refl []
  | (name, field) :: rest, next, last, made, h => by
    unfold Fields.instantiate at h
    obtain ⟨first, _, one, h⟩ := exists_of_run_bind h
    obtain ⟨others, _, more, h⟩ := exists_of_run_bind h
    cases h
    obtain ⟨spares, inner⟩ := Field.spares_instantiate field one
    exact .cons spares inner (Fields.spare_instantiate rest more)
end

theorem FieldSet.spares_instantiate {set made : FieldSet} {next : Nat}
    (h : set.instantiate bindings next = .ok made) :
    (made = set ∨ set.fields.varies = true) ∧ set.fields.Spare made.fields := by
  unfold FieldSet.instantiate at h
  split at h
  · next varies =>
    obtain ⟨⟨fields, last⟩, below, h⟩ := exists_of_bind_eq_ok h
    cases h
    exact ⟨Or.inr varies, Fields.spare_instantiate set.fields below⟩
  · cases h
    exact ⟨Or.inl rfl, .refl _⟩

/-! ## What varies is marked -/

/-- Where variables may occur, the field is marked or one below is. -/
theorem Field.Formed.marked_of_varies {field : Field} (formed : field.Formed)
    (varies : field.varies = true) : field.Marked ∨ field.inner.Marked := by
  unfold Field.varies Field.isGuarded at varies
  rw [formed.traits, Bool.or_eq_true, Bool.or_eq_true, Bool.or_eq_true] at varies
  rcases varies with (given | dynamic) | guarded | guarded
  · exact Or.inl (Or.inl given)
  · obtain ⟨name, inner, inside, marked⟩ := (Fields.isDynamic_iff formed.inner).mp dynamic
    exact Or.inr ⟨name, inner, inside, marked.imp_right Or.inr⟩
  · exact Or.inl (Or.inr (Or.inl (by simpa using guarded)))
  · obtain ⟨name, inner, inside, marked⟩ := (Fields.isGuarded_iff formed.inner).mp guarded
    exact Or.inr ⟨name, inner, inside, Or.inr (Or.inl marked)⟩

theorem Fields.Formed.marked_of_varies {fields : Fields} (formed : Fields.Formed fields)
    (varies : fields.varies = true) : fields.Marked := by
  obtain ⟨⟨name, field⟩, member, varies⟩ := List.any_eq_true.mp varies
  rcases (formed.of_mem member).marked_of_varies varies with marked | ⟨key, inner, inside, marked⟩
  · exact ⟨name, field, .here member, marked⟩
  · exact ⟨key, inner, .deeper member inside, marked⟩

/-! ## Plans under variables -/

/-- Keeping what does not vary is not seen.  The fields of a plan are made as if every one of them
was made anew, with the same error if there is one.  Every field is found where it was, with what
its variables make of its head.  It is another one only if it is marked or a field below it is,
and so it is for sets. -/
theorem Plan.instantiate_rebuilds {addTypename strict : Bool} {key : DocumentKey} {plan : Plan}
    (h : Plan.ofKey addTypename strict key = .ok plan) (bindings : Bindings) (next : Nat) :
    Paired (fun made shapes => Fields.shapes made.fields = shapes)
        (plan.root.instantiate bindings next)
        (Shapes.instantiate bindings (Fields.shapes plan.root.fields)) ∧
      ∀ made, plan.root.instantiate bindings next = .ok made →
        (made ≠ plan.root → plan.root.fields.Marked) ∧
        ∀ path field, plan.root.fields.at? path = some field →
          ∃ field', made.fields.at? path = some field' ∧
            field.head.Under bindings field'.head ∧
            (field' ≠ field → field.Marked ∨ field.inner.Marked) ∧
            (field'.set? ≠ field.set? → field.inner.Marked) := by
  have exact := (Plan.exact_ofKey h).all
  have formed : Fields.Formed plan.root.fields := Shapes.AllExact.formed _ exact
  have pair : Paired (fun made shapes => Fields.shapes made.fields = shapes)
      (plan.root.instantiate bindings next)
      (Shapes.instantiate bindings (Fields.shapes plan.root.fields)) :=
    FieldSet.paired_instantiate exact next
  refine ⟨pair, fun made done => ?_⟩
  obtain ⟨itself, spare⟩ := FieldSet.spares_instantiate done
  refine ⟨fun other => formed.marked_of_varies (itself.resolve_left other),
    fun path field found => ?_⟩
  obtain ⟨field', found', spares⟩ := spare path field found
  obtain ⟨name, inside⟩ := Fields.contains_of_at? found
  have formed := formed.of_contains inside
  refine ⟨field', found', ?_, fun other => ?_, fun other => ?_⟩
  · obtain ⟨shapes, rebuilt, rfl⟩ := pair.exists_of_eq_ok done
    have under := Shapes.under_instantiate _ rebuilt path
    rw [← Fields.map_head_at?, ← Fields.map_head_at?, found, found'] at under
    cases under with
    | some under => exact under
  · exact formed.marked_of_varies (spares.itself.resolve_left other)
  · exact formed.inner.marked_of_varies (spares.set.resolve_left other)

/-- A field under a condition is made anew, and the fields are marked by it. -/
theorem Plan.instantiate_rebuilds_of_include :
    let key : DocumentKey := ⟨"query ($deep: Boolean!) \x7b feed \x7b id \x7d " ++
      "user @include(if: $deep) \x7b id \x7d \x7d", false, none⟩
    let bindings : Bindings := Table.ofList [("deep", .bool false)]
    ∃ plan made, Plan.ofKey true true key = .ok plan ∧
      plan.root.instantiate bindings plan.nextLabel = .ok made ∧
      Shapes.instantiate bindings (Fields.shapes plan.root.fields) =
        .ok (Fields.shapes made.fields) ∧
      made.label ≠ plan.root.label ∧ plan.root.fields.Marked := by
  intro key bindings
  have test : ((Plan.ofKey true true key).toOption.bind fun plan =>
      (plan.root.instantiate bindings plan.nextLabel).toOption.map fun made =>
        made.label == plan.root.label) = some false := by
    decide +kernel
  obtain ⟨plan, planned, test⟩ := Option.bind_eq_some_iff.mp test
  obtain ⟨made, done, other⟩ := Option.map_eq_some_iff.mp test
  have planned := eq_ok_of_toOption planned
  have done := eq_ok_of_toOption done
  have other : made.label ≠ plan.root.label := by simpa using other
  obtain ⟨pair, each⟩ := Plan.instantiate_rebuilds planned bindings plan.nextLabel
  obtain ⟨shapes, rebuilt, same⟩ := pair.exists_of_eq_ok done
  exact ⟨plan, made, planned, done, same ▸ rebuilt, other,
    (each made done).1 fun same => other (congrArg FieldSet.label same)⟩

end ResponseGraph
