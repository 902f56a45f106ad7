import ResponseGraph.Proofs.Field.Followed
import ResponseGraph.Proofs.Field.Live
import ResponseGraph.Proofs.Field.Outline

/-!
Fields at any depth.

The traits of a field sum up all that is below it, and are kept with the field so that nobody has
to look.  They are right where they were derived from the fields directly below, at every depth
(`Shape.Formed`): then a trait holds exactly if some field at some depth bears its mark
(`Fields.trait_iff`).
-/

namespace ResponseGraph

/-- An entry among the fields, or below one of them at any depth. -/
inductive Fields.Contains : Fields → String → Field → Prop
  | here {fields : Fields} {name : String} {field : Field} (member : (name, field) ∈ fields) :
    Contains fields name field
  | deeper {fields : Fields} {key name : String} {outer field : Field}
    (member : (key, outer) ∈ fields) (inside : Contains outer.inner name field) :
    Contains fields name field

/-- The field at a path of response names. -/
def Fields.at? (fields : Fields) : List String → Option Field
  | [] => none
  | [name] => Entries.get? name fields
  | name :: path => (Entries.get? name fields).bind fun field => Fields.at? field.inner path

/- Traits are those of the fields below, of which there are some. -/
mutual
def Shape.Formed : Shape → Prop
  | .leaf _ => True
  | .composite _ traits fields => traits = Shapes.traits fields ∧ fields ≠ [] ∧ Shapes.Formed fields
termination_by structural shape => shape

def Shapes.Formed : Shapes → Prop
  | [] => True
  | (_, shape) :: rest => shape.Formed ∧ Shapes.Formed rest
termination_by structural shapes => shapes
end

abbrev Field.Formed (field : Field) : Prop := field.shape.Formed

abbrev Fields.Formed (fields : Fields) : Prop := Shapes.Formed (Fields.shapes fields)

mutual
theorem Shape.Exact.formed : (shape : Shape) → shape.Exact → shape.Formed
  | .leaf _, _ => trivial
  | .composite _ _ fields, exact =>
    ⟨exact.2.1, exact.2.2.1, Shapes.AllExact.formed fields exact.2.2.2.2⟩

theorem Shapes.AllExact.formed : (shapes : Shapes) → Shapes.AllExact shapes → Shapes.Formed shapes
  | [], _ => trivial
  | (_, shape) :: rest, exact =>
    ⟨Shape.Exact.formed shape exact.1, Shapes.AllExact.formed rest exact.2⟩
end

namespace Fields

variable {fields rest : Fields} {name key : String} {field : Field}

theorem at?_cons (name key : String) (path : List String) (fields : Fields) :
    fields.at? (name :: key :: path) =
      (Entries.get? name fields).bind fun field => field.inner.at? (key :: path) := rfl

theorem Contains.cons (inside : rest.Contains name field) (entry : String × Field) :
    Contains (entry :: rest) name field := by
  cases inside with
  | here member => exact .here (List.mem_cons_of_mem _ member)
  | deeper member inside => exact .deeper (List.mem_cons_of_mem _ member) inside

theorem contains_of_at? {path : List String} (found : fields.at? path = some field) :
    ∃ name, fields.Contains name field := by
  induction path generalizing fields with
  | nil => cases found
  | cons name path ih =>
    cases path with
    | nil => exact ⟨name, .here (Entries.mem_of_get? found)⟩
    | cons key path =>
      obtain ⟨outer, first, found⟩ := Option.bind_eq_some_iff.mp found
      obtain ⟨last, inside⟩ := ih found
      exact ⟨last, .deeper (Entries.mem_of_get? first) inside⟩

/-- The heads along the paths are those of the outline. -/
theorem map_head_at? (fields : Fields) (path : List String) :
    (fields.at? path).map Field.head = Shapes.at? (shapes fields) path := by
  induction path generalizing fields with
  | nil => rfl
  | cons name path ih =>
    rw [Shapes.at?, get?_shapes]
    cases path with
    | nil =>
      rw [at?]
      cases Entries.get? name fields with
      | none => rfl
      | some field => exact congrArg some field.head_shape.symm
    | cons key path =>
      rw [at?_cons]
      cases Entries.get? name fields with
      | none => rfl
      | some field =>
        rw [Option.bind_some, ih]
        cases field <;> rfl

end Fields

/-! ## Formed fields -/

theorem Field.Formed.inner {field : Field} (formed : field.Formed) : Fields.Formed field.inner := by
  cases field with
  | leaf => trivial
  | composite => exact formed.2.2

theorem Field.Formed.traits {field : Field} (formed : field.Formed) :
    field.traits = Fields.traits field.inner := by
  cases field with
  | leaf => rfl
  | composite label head traits set fields => exact formed.1.trans (Fields.traits_shapes fields)

/-- Only a leaf has no fields below. -/
theorem Field.Formed.set?_eq_none_iff {field : Field} (formed : field.Formed) :
    field.set? = none ↔ field.inner = [] := by
  cases field with
  | leaf => exact iff_of_true rfl rfl
  | composite label head traits set fields =>
    refine iff_of_false (fun none => nomatch none) fun empty => formed.2.1 ?_
    rw [show fields = [] from empty]
    rfl

namespace Fields

variable {fields : Fields} {name : String} {field : Field}

theorem Formed.of_mem (formed : Fields.Formed fields) (member : (name, field) ∈ fields) :
    field.Formed := by
  induction fields with
  | nil => cases member
  | cons entry rest ih =>
    rcases List.mem_cons.mp member with rfl | member
    · exact formed.1
    · exact ih formed.2 member

theorem Formed.of_contains (formed : Fields.Formed fields) (inside : fields.Contains name field) :
    field.Formed := by
  induction inside with
  | here member => exact formed.of_mem member
  | deeper member _ ih => exact ih (formed.of_mem member).inner

end Fields

section

/- A trait is a sum if a set has it where a field has the mark, or has the trait from below. -/
variable {trait : Traits → Bool} {mark : FieldHead → Bool} {fields : Fields}

mutual
/-- Some field below bears the mark. -/
theorem Field.exists_of_trait (none : trait ⟨false, false⟩ = false)
    (sums : ∀ fields, trait (Fields.traits fields) =
      fields.any fun entry => mark entry.2.head || trait entry.2.traits) :
    (field : Field) → field.Formed → trait field.traits = true →
    ∃ name inner, field.inner.Contains name inner ∧ mark inner.head = true
  | .leaf _ _, _, has => by
    rw [Field.traits, none] at has
    cases has
  | .composite label head traits set fields, formed, has => by
    have accurate : traits = Fields.traits fields := formed.1.trans (Fields.traits_shapes fields)
    rw [Field.traits, accurate] at has
    exact Fields.exists_of_trait none sums fields formed.2.2 has

theorem Fields.exists_of_trait (none : trait ⟨false, false⟩ = false)
    (sums : ∀ fields, trait (Fields.traits fields) =
      fields.any fun entry => mark entry.2.head || trait entry.2.traits) :
    (fields : Fields) → Fields.Formed fields → trait (Fields.traits fields) = true →
    ∃ name inner, fields.Contains name inner ∧ mark inner.head = true
  | [], _, has => by
    rw [sums] at has
    cases has
  | (key, field) :: rest, formed, has => by
    rw [sums, List.any_cons, Bool.or_eq_true, Bool.or_eq_true, ← sums] at has
    rcases has with (marked | below) | later
    · exact ⟨key, field, .here List.mem_cons_self, marked⟩
    · obtain ⟨name, inner, inside, marked⟩ :=
        Field.exists_of_trait none sums field formed.1 below
      exact ⟨name, inner, .deeper List.mem_cons_self inside, marked⟩
    · obtain ⟨name, inner, inside, marked⟩ := Fields.exists_of_trait none sums rest formed.2 later
      exact ⟨name, inner, inside.cons _, marked⟩
end

/-- A trait that is a sum holds exactly if some field at some depth bears the mark. -/
theorem Fields.trait_iff (none : trait ⟨false, false⟩ = false)
    (sums : ∀ fields, trait (Fields.traits fields) =
      fields.any fun entry => mark entry.2.head || trait entry.2.traits)
    (formed : Fields.Formed fields) :
    trait (Fields.traits fields) = true ↔
      ∃ name field, fields.Contains name field ∧ mark field.head = true := by
  refine ⟨Fields.exists_of_trait none sums fields formed, ?_⟩
  rintro ⟨name, field, inside, marked⟩
  induction inside with
  | @here fields name field member =>
    rw [sums]
    exact List.any_eq_true.mpr ⟨(name, field), member, by simp only [marked, Bool.true_or]⟩
  | @deeper fields key name outer field member _ ih =>
    have accurate := formed.of_mem member
    rw [sums]
    refine List.any_eq_true.mpr ⟨(key, outer), member, ?_⟩
    simp only [accurate.traits, ih accurate.inner marked, Bool.or_true]

/-- Where a set is dynamic, some field has arguments or an alias. -/
theorem Fields.isDynamic_iff (formed : Fields.Formed fields) : fields.isDynamic = true ↔
    ∃ name field, fields.Contains name field ∧
      (field.head.arguments.isSome ∨ field.head.schemaName.isSome) := by
  simp only [← Bool.or_eq_true]
  exact @Fields.trait_iff Traits.dynamic
    (fun head => head.arguments.isSome || head.schemaName.isSome) fields rfl (fun _ => rfl) formed

/-- Where a set is guarded, some field has a guard. -/
theorem Fields.isGuarded_iff (formed : Fields.Formed fields) : fields.isGuarded = true ↔
    ∃ name field, fields.Contains name field ∧ field.head.guards ≠ [] := by
  have marked (head : FieldHead) : head.guards ≠ [] ↔ (!head.guards.isEmpty) = true := by simp
  simp only [marked]
  exact @Fields.trait_iff Traits.guarded (fun head => !head.guards.isEmpty) fields rfl
    (fun _ => rfl) formed

end

/-! ## What holds of every shape -/

/- Something holds of every shape, at any depth, and the name it stands under. -/
mutual
def Shape.Every (holds : String → Shape → Prop) (name : String) : Shape → Prop
  | .leaf head => holds name (.leaf head)
  | .composite head traits fields =>
    holds name (.composite head traits fields) ∧ Shapes.Every holds fields
termination_by structural shape => shape

def Shapes.Every (holds : String → Shape → Prop) : Shapes → Prop
  | [] => True
  | (name, shape) :: rest => shape.Every holds name ∧ Shapes.Every holds rest
termination_by structural shapes => shapes
end

section

variable {holds : String → Shape → Prop} {name : String} {shape : Shape} {shapes : Shapes}

namespace Shape.Every

theorem here (every : shape.Every holds name) : holds name shape := by
  cases shape with
  | leaf => exact every
  | composite => exact every.1

theorem fields (every : shape.Every holds name) {fields : Shapes}
    (found : shape.fields? = some fields) : fields.Every holds := by
  cases shape with
  | leaf => cases found
  | composite =>
    cases found
    exact every.2

theorem of (here : holds name shape)
    (fields : ∀ fields, shape.fields? = some fields → fields.Every holds) :
    shape.Every holds name := by
  cases shape with
  | leaf => exact here
  | composite head traits below => exact ⟨here, fields below rfl⟩

end Shape.Every

namespace Shapes.Every

theorem of_mem (every : shapes.Every holds) (member : (name, shape) ∈ shapes) :
    shape.Every holds name := by
  induction shapes with
  | nil => cases member
  | cons entry rest ih =>
    rcases List.mem_cons.mp member with rfl | member
    · exact every.1
    · exact ih every.2 member

theorem put (every : shapes.Every holds) (here : shape.Every holds name) :
    Shapes.Every holds (Entries.put name shape shapes) := by
  induction shapes with
  | nil => exact ⟨here, trivial⟩
  | cons entry rest ih =>
    obtain ⟨key, old⟩ := entry
    rw [Entries.put]
    split
    · next same => exact ⟨same ▸ here, every.2⟩
    · exact ⟨every.1, ih every.2⟩

end Shapes.Every

theorem Field.every_inner {field : Field} (every : field.shape.Every holds name) :
    (Fields.shapes field.inner).Every holds := by
  cases field with
  | leaf => trivial
  | composite => exact every.2

theorem Fields.every_of_mem {fields : Fields} {field : Field}
    (every : (Fields.shapes fields).Every holds) (member : (name, field) ∈ fields) :
    field.shape.Every holds name := by
  refine every.of_mem ?_
  rw [shapes_eq_map]
  exact List.mem_map.mpr ⟨(name, field), member, rfl⟩

/-- What holds of every shape holds of every field. -/
theorem Fields.every_of_contains {fields : Fields} {field : Field}
    (every : (Fields.shapes fields).Every holds) (inside : fields.Contains name field) :
    field.shape.Every holds name := by
  induction inside with
  | here member => exact every_of_mem every member
  | deeper member _ ih => exact ih (Field.every_inner (every_of_mem every member))

/-- Something that lasts from where a shape is made: under guards, and whatever the shape is
merged with. -/
structure Shapes.Lasting (flag : Bool) (holds : String → Shape → Prop) : Prop where
  typename : holds "__typename" (.leaf ⟨none, none, [], false⟩)
  field : ∀ aliasName name arguments directives shapes, holds (responseName aliasName name)
    (.of (.ofSelection aliasName name arguments directives) (below? flag shapes))
  within : ∀ name shape guard, holds name shape → holds name (Shape.within guard shape)
  keep : ∀ name existing path incoming head, holds name existing →
    existing.head.combine path incoming = .ok head → holds name (.of head existing.fields?)
  take : ∀ name existing path head traits fields head', holds name existing →
    existing.fields? = none → holds name (.composite head traits fields) →
    existing.head.combine path head = .ok head' → holds name (.composite head' traits fields)
  join : ∀ name existing old path head traits fields head' merged, holds name existing →
    existing.fields? = some old → holds name (.composite head traits fields) →
    existing.head.combine path head = .ok head' → Shapes.combine path old fields = .ok merged →
    holds name (.of head' (some merged))

theorem Shape.fields?_of (head : FieldHead) (fields? : Option Shapes) :
    (Shape.of head fields?).fields? = fields? := by
  cases fields? <;> rfl

namespace Shapes.Lasting

variable {flag : Bool}

mutual
theorem combineOne (lasting : Lasting flag holds) {name : String} {path : List String}
    {existing : Shape} (every : existing.Every holds name) : (incoming : Shape) →
    incoming.Every holds name → {merged : Shape} →
    Shape.combine path existing incoming = .ok merged → merged.Every holds name
  | .leaf head, _, merged, done => by
    obtain ⟨head, combined, done⟩ := exists_of_bind_eq_ok done
    cases done
    refine .of (lasting.keep _ _ _ _ _ every.here combined) fun fields found => ?_
    rw [Shape.fields?_of] at found
    exact every.fields found
  | .composite head traits fields, every', merged, done => by
    rw [Shape.combine] at done
    obtain ⟨head', combined, done⟩ := exists_of_bind_eq_ok done
    split at done
    · next none =>
      cases done
      exact ⟨lasting.take _ _ _ _ _ _ _ every.here none every'.here combined, every'.2⟩
    · next old found =>
      obtain ⟨merged, joined, done⟩ := exists_of_bind_eq_ok done
      cases done
      exact ⟨lasting.join _ _ _ _ _ _ _ _ _ every.here found every'.here combined joined,
        Lasting.combine lasting (every.fields found) fields every'.2 joined⟩

theorem combine (lasting : Lasting flag holds) {path : List String} {into : Shapes}
    (every : into.Every holds) : (incoming : Shapes) → incoming.Every holds → {merged : Shapes} →
    Shapes.combine path into incoming = .ok merged → merged.Every holds
  | [], _, merged, done => by
    cases done
    exact every
  | (name, shape) :: rest, every', merged, done => by
    rw [Shapes.combine] at done
    obtain ⟨joined, first, done⟩ := exists_of_bind_eq_ok done
    refine Lasting.combine lasting (every.put ?_) rest every'.2 done
    split at first
    · cases first
      exact every'.1
    · next existing found =>
      exact combineOne lasting (every.of_mem (Entries.mem_of_get? found)) shape every'.1 first
end

theorem withinOne (lasting : Lasting flag holds) (every : shape.Every holds name) (guard : Guard) :
    (shape.within guard).Every holds name := by
  refine .of (lasting.within _ _ _ every.here) fun fields found => every.fields ?_
  cases shape <;> exact found

theorem below (lasting : Lasting flag holds) (every : shapes.Every holds) {fields : Shapes}
    (found : below? flag shapes = some fields) : fields.Every holds := by
  unfold below? at found
  split at found
  · cases found
  · split at found
    · cases found
      exact every.put lasting.typename
    · cases found
      exact every

theorem inherited (lasting : Lasting flag holds) : Inherited flag (Shapes.Every holds) where
  nil := trivial
  field := by
    intro aliasName name arguments directives shapes every
    refine ⟨.of (lasting.field ..) fun fields found => ?_, trivial⟩
    rw [Shape.fields?_of] at found
    exact lasting.below every found
  within := by
    intro guard shapes every
    cases guard with
    | none => exact every
    | some guard =>
      induction shapes with
      | nil => trivial
      | cons entry rest ih => exact ⟨lasting.withinOne every.1 guard, ih every.2⟩
  combine := fun path into every shapes merged every' done =>
    lasting.combine every shapes every' done

end Shapes.Lasting

end
end ResponseGraph
