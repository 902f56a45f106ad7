import ResponseGraph.Field.Resolve
import ResponseGraph.Proofs.Field.Guards
import ResponseGraph.Proofs.Field.Labels

/-!
What a document selects.

`Selection.Occurs` lists the occurrences of response names in selections, each with all
conditions around it, and with the selections below it.  A field stands for occurrences of
its name (`Field.Stands`) if its guards pass exactly when the conditions of one of them
hold, and if its own fields stand for all that occurs below any of them.
-/

namespace ResponseGraph

/-- Response names with the conditions on them and the selections below. -/
abbrev Occurrences := String → Guard → List Selection → Prop

namespace Directive

/-- All conditions of a selection must hold. -/
def guard (directives : List Directive) : Guard := directives.filterMap condition?

end Directive

namespace Selection

/-- An occurrence of a response name, outside of all fields. -/
inductive Occurs (definitions : Table Fragment) : List Selection → Occurrences
  | field {selections below : List Selection} {aliasName : Option String} {name : String}
    {arguments : List (String × Literal)} {directives : List Directive}
    (member : .field aliasName name arguments directives below ∈ selections) :
    Occurs definitions selections (responseName aliasName name) (Directive.guard directives) below
  | inline {selections inner below : List Selection} {name : String} {guard : Guard}
    {directives : List Directive} (member : .inline directives inner ∈ selections)
    (occurs : Occurs definitions inner name guard below) :
    Occurs definitions selections name (guard ++ Directive.guard directives) below
  | spread {selections below : List Selection} {fragment name : String} {guard : Guard}
    {directives : List Directive} {definition : Fragment}
    (member : .spread fragment directives ∈ selections)
    (defined : definitions.get? fragment = some definition)
    (occurs : Occurs definitions definition.selections name guard below) :
    Occurs definitions selections name (guard ++ Directive.guard directives) below

theorem not_occurs_nil {definitions : Table Fragment} {name : String} {guard : Guard}
    {below : List Selection} : ¬ Occurs definitions [] name guard below := by
  intro h
  cases h with
  | field member => cases member
  | inline member => cases member
  | spread member => cases member

theorem occurs_cons {definitions : Table Fragment} {selection : Selection} {rest : List Selection}
    {name : String} {guard : Guard} {below : List Selection} :
    Occurs definitions (selection :: rest) name guard below ↔
      Occurs definitions [selection] name guard below ∨
        Occurs definitions rest name guard below := by
  have single {other : Selection} (h : other = selection) : other ∈ [selection] :=
    List.mem_singleton.mpr h
  constructor
  · intro h
    cases h with
    | field member =>
      exact (List.mem_cons.mp member).imp (fun e => .field (single e)) fun member => .field member
    | inline member occurs =>
      exact (List.mem_cons.mp member).imp (fun e => .inline (single e) occurs)
        fun member => .inline member occurs
    | spread member defined occurs =>
      exact (List.mem_cons.mp member).imp (fun e => .spread (single e) defined occurs)
        fun member => .spread member defined occurs
  · have first {other : Selection} (member : other ∈ [selection]) : other ∈ selection :: rest :=
      List.mem_singleton.mp member ▸ List.mem_cons_self
    intro given
    rcases given with h | h
    · cases h with
      | field member => exact .field (first member)
      | inline member occurs => exact .inline (first member) occurs
      | spread member defined occurs => exact .spread (first member) defined occurs
    · cases h with
      | field member => exact .field (List.mem_cons_of_mem _ member)
      | inline member occurs => exact .inline (List.mem_cons_of_mem _ member) occurs
      | spread member defined occurs =>
        exact .spread (List.mem_cons_of_mem _ member) defined occurs

theorem occurs_field {definitions : Table Fragment} {aliasName : Option String} {field : String}
    {arguments : List (String × Literal)} {directives : List Directive} {inner : List Selection}
    {name : String} {guard : Guard} {below : List Selection} :
    Occurs definitions [.field aliasName field arguments directives inner] name guard below ↔
      name = responseName aliasName field ∧ guard = Directive.guard directives ∧ below = inner := by
  constructor
  · intro h
    cases h with
    | field member =>
      cases List.mem_singleton.mp member
      exact ⟨rfl, rfl, rfl⟩
    | inline member => cases List.mem_singleton.mp member
    | spread member => cases List.mem_singleton.mp member
  · intro given
    obtain ⟨rfl, rfl, rfl⟩ := given
    exact .field (List.mem_singleton.mpr rfl)

theorem occurs_inline {definitions : Table Fragment} {directives : List Directive}
    {inner : List Selection} {name : String} {guard : Guard} {below : List Selection} :
    Occurs definitions [.inline directives inner] name guard below ↔
      ∃ own, guard = own ++ Directive.guard directives ∧
        Occurs definitions inner name own below := by
  constructor
  · intro h
    cases h with
    | field member => cases List.mem_singleton.mp member
    | inline member occurs =>
      cases List.mem_singleton.mp member
      exact ⟨_, rfl, occurs⟩
    | spread member => cases List.mem_singleton.mp member
  · intro given
    obtain ⟨own, rfl, occurs⟩ := given
    exact .inline (List.mem_singleton.mpr rfl) occurs

theorem occurs_spread {definitions : Table Fragment} {fragment : String}
    {directives : List Directive} {definition : Fragment} {name : String} {guard : Guard}
    {below : List Selection} (defined : definitions.get? fragment = some definition) :
    Occurs definitions [.spread fragment directives] name guard below ↔
      ∃ own, guard = own ++ Directive.guard directives ∧
        Occurs definitions definition.selections name own below := by
  constructor
  · intro h
    cases h with
    | field member => cases List.mem_singleton.mp member
    | inline member => cases List.mem_singleton.mp member
    | spread member found occurs =>
      cases List.mem_singleton.mp member
      rw [defined] at found
      cases found
      exact ⟨_, rfl, occurs⟩
  · intro given
    obtain ⟨own, rfl, occurs⟩ := given
    exact .spread (List.mem_singleton.mpr rfl) defined occurs

/-- What occurs in the sub-selection of a field.  With `addTypename` one that selects
something also selects its type name. -/
def OccursBelow (addTypename : Bool) (definitions : Table Fragment) (selections : List Selection) :
    Occurrences := fun name guard below =>
  Occurs definitions selections name guard below ∨
    addTypename = true ∧ name = "__typename" ∧ guard = [] ∧ below = [] ∧
      (∃ name guard below, Occurs definitions selections name guard below) ∧
      ∀ guard below, ¬ Occurs definitions selections "__typename" guard below

end Selection

/-- The occurrences inside a selection with a guard. -/
def Occurrences.under (outer : Guard) (occurs : Occurrences) : Occurrences :=
  fun name guard inner =>
  ∃ own, guard = own ++ outer ∧ occurs name own inner

/-- What occurs below a field that occurs itself. -/
def occursWithin (below : List Selection → Occurrences) (here : Guard → List Selection → Prop) :
    Occurrences := fun name guard inner =>
  ∃ outer selections, here outer selections ∧ below selections name guard inner

/-- The guards of a field pass when the conditions of some occurrence hold. -/
def FieldHead.Fair (bindings : Bindings) (here : Guard → List Selection → Prop) (head : FieldHead) :
    Prop :=
  head.excluded = false ∧
    (Guard.Passes bindings head.guards ↔ ∃ guard selections, here guard selections ∧
      Guard.holds bindings guard = .ok true)

/-- The names of the fields are those that occur. -/
def Fields.Complete (occurs : Occurrences) (fields : Fields) : Prop :=
  ∀ name, name ∈ fields.map Prod.fst ↔ ∃ guard inner, occurs name guard inner

mutual
def Field.Stands (bindings : Bindings) (below : List Selection → Occurrences)
    (here : Guard → List Selection → Prop) : Field → Prop
  | .leaf _ head =>
    head.Fair bindings here ∧ ∀ name guard inner, ¬ occursWithin below here name guard inner
  | .composite _ head _ _ fields =>
    head.Fair bindings here ∧ Fields.Complete (occursWithin below here) fields ∧
      Fields.Stands bindings below (occursWithin below here) fields
termination_by structural field => field

def Fields.Stands (bindings : Bindings) (below : List Selection → Occurrences)
    (occurs : Occurrences) : Fields → Prop
  | [] => True
  | (name, field) :: rest =>
    field.Stands bindings below (occurs name) ∧ Fields.Stands bindings below occurs rest
termination_by structural fields => fields
end

/-- The fields of a sub-selection stand for what occurs in it. -/
structure Fields.Select (bindings : Bindings) (below : List Selection → Occurrences)
    (occurs : Occurrences) (fields : Fields) : Prop where
  complete : Fields.Complete occurs fields
  stands : Fields.Stands bindings below occurs fields

variable {bindings : Bindings} {below : List Selection → Occurrences}
  {here there : Guard → List Selection → Prop} {occurs others : Occurrences}

theorem Fields.stands_iff {fields : Fields} :
    Fields.Stands bindings below occurs fields ↔
      ∀ name field, (name, field) ∈ fields → field.Stands bindings below (occurs name) := by
  induction fields with
  | nil => exact iff_of_true trivial fun _ _ member => absurd member List.not_mem_nil
  | cons entry rest ih =>
    obtain ⟨name, field⟩ := entry
    constructor
    · intro h other found member
      obtain ⟨first, others⟩ := h
      rcases List.mem_cons.mp member with e | member
      · cases e
        exact first
      · exact ih.mp others other found member
    · intro all
      exact ⟨all name field List.mem_cons_self,
        ih.mpr fun other found member => all other found (List.mem_cons_of_mem _ member)⟩

/-! ## One field for several occurrences -/

theorem FieldHead.Fair.union {a b head : FieldHead} (first : a.Fair bindings here)
    (second : b.Fair bindings there) (excluded : head.excluded = false)
    (guards : Guard.Passes bindings head.guards ↔
      Guard.Passes bindings a.guards ∨ Guard.Passes bindings b.guards) :
    head.Fair bindings fun guard selections => here guard selections ∨ there guard selections := by
  refine ⟨excluded, ?_⟩
  rw [guards, first.2, second.2]
  simp only [or_and_right, exists_or]

theorem occursWithin_or :
    occursWithin below (fun guard selections => here guard selections ∨ there guard selections) =
      fun name guard inner => occursWithin below here name guard inner ∨
        occursWithin below there name guard inner := by
  funext name guard inner
  unfold occursWithin
  simp only [or_and_right, exists_or]

theorem Fields.Complete.union {fields : Fields} (first : Fields.Complete occurs fields)
    (second : Fields.Complete others fields) :
    Fields.Complete (fun name guard inner => occurs name guard inner ∨ others name guard inner)
      fields := by
  intro name
  constructor
  · intro member
    obtain ⟨guard, inner, found⟩ := (first name).mp member
    exact ⟨guard, inner, Or.inl found⟩
  · intro h
    rcases h with ⟨guard, inner, found | found⟩
    · exact (first name).mpr ⟨guard, inner, found⟩
    · exact (second name).mpr ⟨guard, inner, found⟩

mutual
/-- A field that stands for two groups of occurrences stands for both together. -/
theorem Field.Stands.union : (field : Field) →
    {here there : Guard → List Selection → Prop} → field.Stands bindings below here →
    field.Stands bindings below there →
    field.Stands bindings below fun guard selections =>
      here guard selections ∨ there guard selections
  | .leaf _ head, here, there, first, second => by
    refine ⟨first.1.union second.1 first.1.1 (or_self_iff.symm), ?_⟩
    rw [occursWithin_or]
    exact fun name guard inner found =>
      found.elim (first.2 name guard inner) (second.2 name guard inner)
  | .composite _ head _ _ fields, here, there, first, second => by
    refine ⟨first.1.union second.1 first.1.1 (or_self_iff.symm), ?_⟩
    rw [occursWithin_or]
    exact ⟨first.2.1.union second.2.1,
      Fields.Stands.union fields first.2.2 second.2.2⟩

theorem Fields.Stands.union : (fields : Fields) → {occurs others : Occurrences} →
    Fields.Stands bindings below occurs fields → Fields.Stands bindings below others fields →
    Fields.Stands bindings below (fun name guard inner => occurs name guard inner ∨
      others name guard inner) fields
  | [], _, _, _, _ => trivial
  | (_, field) :: rest, _, _, first, second =>
    ⟨Field.Stands.union field first.1 second.1, Fields.Stands.union rest first.2 second.2⟩
end

theorem Field.Stands.fair {field : Field} (h : field.Stands bindings below here) :
    field.head.Fair bindings here := by
  cases field <;> exact h.1

/-- The fields below a field stand for what occurs below its occurrences. -/
theorem Field.Stands.select {field : Field} (h : field.Stands bindings below here) {set : FieldSet}
    (inner : field.set? = some set) :
    Fields.Select bindings below (occursWithin below here) set.fields := by
  cases field with
  | leaf => cases inner
  | composite =>
    cases inner
    exact ⟨h.2.1, h.2.2⟩

/-- Nothing occurs below a field without fields. -/
theorem Field.Stands.nothing_within {field : Field} (h : field.Stands bindings below here)
    (inner : field.set? = none) (name : String) (guard : Guard) (selections : List Selection) :
    ¬ occursWithin below here name guard selections := by
  cases field with
  | leaf => exact h.2 name guard selections
  | composite => cases inner

/-- A field is made of a head and a set. -/
theorem Field.stands_of {label : Nat} {head : FieldHead} {set? : Option FieldSet}
    (fair : head.Fair bindings here)
    (none : set? = none → ∀ name guard inner, ¬ occursWithin below here name guard inner)
    (some : ∀ set, set? = some set →
      Fields.Select bindings below (occursWithin below here) set.fields) :
    (Field.of label head set?).Stands bindings below here := by
  cases set? with
  | none => exact ⟨fair, none rfl⟩
  | some set => exact ⟨fair, (some set rfl).complete, (some set rfl).stands⟩

end ResponseGraph
