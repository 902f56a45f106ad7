import ResponseGraph.Field.Instantiate
import ResponseGraph.Proofs.Field.Labels

/-!
Labels of instantiated fields.

Instantiating keeps what a field stores dynamically and what it guards, so the traits of a
set remain those of its fields.  Fields that are made anew get labels of their own, and the
others keep theirs.
-/

namespace ResponseGraph

open Labels

variable {bindings : Bindings} {labels : Labels} {next : Nat}

namespace FieldHead

theorem guards_decide {head decided : FieldHead} (h : head.decide bindings = .ok decided) :
    decided.guards = head.guards ∧ decided.arguments = head.arguments ∧
      decided.schemaName = head.schemaName ∧
      Guard.anyHolds bindings head.guards = .ok !decided.excluded := by
  unfold FieldHead.decide at h
  cases held : Guard.anyHolds bindings head.guards with
  | error e =>
    rw [held] at h
    cases h
  | ok value =>
    rw [held] at h
    cases h
    exact ⟨rfl, rfl, rfl, by rw [Bool.not_not]⟩

theorem instantiateArguments_eq {head filled : FieldHead}
    (h : head.instantiateArguments bindings = .ok filled) :
    filled.guards = head.guards ∧ filled.arguments.isSome = head.arguments.isSome ∧
      filled.schemaName = head.schemaName ∧ filled.excluded = head.excluded := by
  unfold instantiateArguments at h
  cases given : head.arguments with
  | none =>
    rw [given] at h
    cases h
    exact ⟨rfl, by rw [given], rfl, rfl⟩
  | some arguments =>
    rw [given] at h
    dsimp only at h
    cases made : arguments.instantiate bindings with
    | error e =>
      rw [made] at h
      cases h
    | ok value =>
      rw [made] at h
      cases h
      exact ⟨rfl, rfl, rfl, rfl⟩

end FieldHead

/-- The fields have the same names, guards and places in storage. -/
structure Field.Alike (field other : Field) : Prop where
  dynamic : other.isDynamic = field.isDynamic
  guarded : other.isGuarded = field.isGuarded

theorem Field.Alike.refl (field : Field) : field.Alike field := ⟨rfl, rfl⟩

/-- Fields with the same names of which each is like its counterpart. -/
structure Fields.Alike (fields others : Fields) : Prop where
  names : others.map Prod.fst = fields.map Prod.fst
  dynamic : Fields.isDynamic others = Fields.isDynamic fields
  guarded : Fields.isGuarded others = Fields.isGuarded fields

theorem Fields.Alike.refl (fields : Fields) : Fields.Alike fields fields := ⟨rfl, rfl, rfl⟩

theorem Fields.Alike.cons {name : String} {field field' : Field} {rest rest' : Fields}
    (first : field.Alike field') (others : Fields.Alike rest rest') :
    Fields.Alike ((name, field) :: rest) ((name, field') :: rest') := by
  refine ⟨?_, ?_, ?_⟩
  · rw [List.map_cons, List.map_cons, others.names]
  · show (field'.isDynamic || Fields.isDynamic rest') = (field.isDynamic || Fields.isDynamic rest)
    rw [first.dynamic, others.dynamic]
  · show (field'.isGuarded || Fields.isGuarded rest') = (field.isGuarded || Fields.isGuarded rest)
    rw [first.guarded, others.guarded]

theorem Fields.Alike.traits {fields others : Fields} (h : Fields.Alike fields others) :
    Fields.traits others = Fields.traits fields := by
  unfold Fields.traits
  rw [h.dynamic, h.guarded]

/-- The parts of a head that a field is told alike by. -/
theorem Field.Alike.of_head {field other : Field}
    (arguments : other.head.arguments.isSome = field.head.arguments.isSome)
    (schemaName : other.head.schemaName = field.head.schemaName)
    (guards : other.head.guards = field.head.guards) (traits : other.traits = field.traits) :
    field.Alike other := by
  refine ⟨?_, ?_⟩
  · unfold Field.isDynamic
    rw [arguments, schemaName, traits]
  · unfold Field.isGuarded
    rw [guards, traits]

/-- The last steps for a field with a decided head and a set of its own. -/
theorem Field.gives_filled {label : Nat} {head decided : FieldHead} {traits : Traits}
    {set set' : Nat}
    {fields fields' : Fields} (free : labels.Below next)
    (known : (Field.composite label head traits set fields).Known labels)
    (made : head.decide bindings = .ok decided) (set_known : FieldSet.Known labels ⟨set', fields'⟩)
    (alike : Fields.Alike fields fields') :
    labels.Gives next (do
        let head ← liftM (decided.instantiateArguments bindings)
        return Field.composite (← newLabel) head traits set' fields' :
        Labelling VariableError Field)
      fun more made => made.Known more ∧
        (Field.composite label head traits set fields).Alike made := by
  refine (gives_lift free).bind fun more next' filled extended free' made' => ?_
  obtain ⟨rfl, made'⟩ := made'
  refine (gives_newLabel free' fun label => .field
    (.composite label filled traits set' fields')).bind
    fun most last label extended' free'' held => gives_pure free'' ⟨?_, ?_⟩
  · have inner := set_known.mono extended'
    exact ⟨held, inner.label, known.2.2.1.trans alike.traits.symm, inner.proper.names,
      inner.proper.known⟩
  · obtain ⟨guards, arguments, schemaName, -⟩ := FieldHead.guards_decide made
    obtain ⟨guards', arguments', schemaName', -⟩ := FieldHead.instantiateArguments_eq made'
    exact .of_head (arguments'.trans (congrArg _ arguments)) (schemaName'.trans schemaName)
      (guards'.trans guards) rfl

mutual
theorem Field.gives_instantiate : (field : Field) → {labels : Labels} → {next : Nat} →
    labels.Below next → field.Known labels →
    labels.Gives next (field.instantiate bindings) fun more made =>
      made.Known more ∧ field.Alike made
  | .leaf label head, labels, next, free, known => by
    unfold Field.instantiate
    split
    · refine (gives_lift free).bind fun more next' decided extended free' made => ?_
      obtain ⟨rfl, made⟩ := made
      refine (gives_lift free').bind fun more next'' filled extended free'' made' => ?_
      obtain ⟨rfl, made'⟩ := made'
      refine (gives_newLabel free'' fun label => .field (.leaf label filled)).bind
        fun most last label extended' free held => gives_pure free ⟨held, ?_⟩
      obtain ⟨guards, arguments, schemaName, -⟩ := FieldHead.guards_decide made
      obtain ⟨guards', arguments', schemaName', -⟩ := FieldHead.instantiateArguments_eq made'
      exact .of_head (arguments'.trans (congrArg _ arguments)) (schemaName'.trans schemaName)
        (guards'.trans guards) rfl
    · exact gives_pure free ⟨known, .refl _⟩
  | .composite label head traits set fields, labels, next, free, known => by
    unfold Field.instantiate
    split
    · refine (gives_lift free).bind fun more next' decided extended free' made => ?_
      obtain ⟨rfl, made⟩ := made
      have inner : FieldSet.Known more ⟨set, fields⟩ := known.set rfl
      split
      · refine (Fields.gives_instantiate fields free' inner.proper.known).bind
          fun most last fields' extended' free'' more => ?_
        refine (gives_newLabel free'' fun _ => .set fields').bind
          fun all final set' extended'' free''' held => ?_
        have proper : Fields.Proper all fields' :=
          ⟨more.2.names ▸ inner.proper.names, Fields.Known.mono extended'' _ more.1⟩
        exact Field.gives_filled free''' (known.mono (extended'.trans extended'')) made
          ⟨held, proper⟩ more.2
      · exact Field.gives_filled free' known made inner (.refl fields)
    · exact gives_pure free ⟨known, .refl _⟩

theorem Fields.gives_instantiate : (fields : Fields) → {labels : Labels} → {next : Nat} →
    labels.Below next → Fields.Known labels fields →
    labels.Gives next (Fields.instantiate bindings fields) fun more made =>
      Fields.Known more made ∧ Fields.Alike fields made
  | [], _, _, free, known => gives_pure free ⟨known, .refl _⟩
  | (name, field) :: rest, labels, next, free, known => by
    refine (Field.gives_instantiate field free known.1).bind
      fun more next' made extended free' first => ?_
    refine (Fields.gives_instantiate rest free' (Fields.Known.mono extended rest known.2)).bind
      fun most last others extended' free'' more => gives_pure free'' ?_
    exact ⟨⟨first.1.mono extended', more.1⟩, .cons first.2 more.2⟩
end

/-- A known set is known under given variables, and has the same names. -/
theorem FieldSet.known_instantiate {set set' : FieldSet} (free : labels.Below next)
    (known : set.Known labels) (h : set.instantiate bindings next = .ok set') :
    (∃ more : Labels, set'.Known more) ∧ set'.fields.map Prod.fst = set.fields.map Prod.fst := by
  unfold FieldSet.instantiate at h
  split at h
  · cases made : Fields.instantiate bindings set.fields next with
    | error e =>
      rw [made] at h
      cases h
    | ok pair =>
      obtain ⟨fields, label⟩ := pair
      rw [made] at h
      cases h
      obtain ⟨more, -, free', known', alike⟩ :=
        Fields.gives_instantiate set.fields free known.proper.known fields label made
      refine ⟨⟨more.assign label (.set fields), assign_self _ _ _, ?_⟩, alike.names⟩
      exact Fields.Proper.mono (free'.extends_assign _) ⟨alike.names ▸ known.proper.names, known'⟩
  · cases h
    exact ⟨⟨labels, known⟩, rfl⟩

end ResponseGraph
