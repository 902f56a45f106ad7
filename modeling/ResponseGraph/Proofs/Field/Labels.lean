import ResponseGraph.Field.Combine

/-!
Labels and what they stand for.

A label is taken from the counter once, so it stands for one field or one set.  `Labels`
tells what each label stands for so far, and `Field.Known` says of a field that all labels
in it stand for what carries them.  Two known fields or sets with one label are therefore
equal, which is what merging relies on.

A computation that takes labels extends the table and gives something that is known by the
extended one (`Labels.Gives`).
-/

namespace ResponseGraph

/-- What a label stands for. -/
inductive Labelled where
  | field (field : Field)
  | set (fields : Fields)

abbrev Labels := Nat → Option Labelled

mutual
/-- The labels of a field stand for it and its sets, no set has a name twice, and the traits
are those of the set. -/
def Field.Known (labels : Labels) : Field → Prop
  | .leaf label head => labels label = some (.field (.leaf label head))
  | .composite label head traits set fields =>
    labels label = some (.field (.composite label head traits set fields)) ∧
      labels set = some (.set fields) ∧ traits = Fields.traits fields ∧
      (fields.map Prod.fst).Nodup ∧ Fields.Known labels fields
termination_by structural field => field

def Fields.Known (labels : Labels) : Fields → Prop
  | [] => True
  | (_, field) :: rest => field.Known labels ∧ Fields.Known labels rest
termination_by structural fields => fields
end

/-- Known fields without a repeated name. -/
structure Fields.Proper (labels : Labels) (fields : Fields) : Prop where
  names : (fields.map Prod.fst).Nodup
  known : Fields.Known labels fields

/-- The set has a label, and its fields are proper. -/
structure FieldSet.Known (labels : Labels) (set : FieldSet) : Prop where
  label : labels set.label = some (.set set.fields)
  proper : Fields.Proper labels set.fields

namespace Labels

variable {labels more : Labels} {next next' : Nat}

/-- The labels from `next` on are free. -/
def Below (labels : Labels) (next : Nat) : Prop := ∀ label, next ≤ label → labels label = none

def Extends (labels more : Labels) : Prop :=
  ∀ label holder, labels label = some holder → more label = some holder

def assign (labels : Labels) (label : Nat) (holder : Labelled) : Labels := fun other =>
  if other = label then some holder else labels other

theorem Extends.refl (labels : Labels) : Extends labels labels := fun _ _ held => held

theorem Extends.trans {most : Labels} (first : Extends labels more) (second : Extends more most) :
    Extends labels most := fun label holder held => second label holder (first label holder held)

theorem below_none : Below (fun _ => none) 0 := fun _ _ => rfl

theorem Below.assign (h : Below labels next) (holder : Labelled) :
    Below (labels.assign next holder) (next + 1) := by
  intro label free
  unfold Labels.assign
  rw [if_neg (by omega)]
  exact h label (by omega)

theorem Below.extends_assign (h : Below labels next) (holder : Labelled) :
    Extends labels (labels.assign next holder) := by
  intro label found held
  unfold Labels.assign
  split
  · next e =>
    rw [h label (by omega)] at held
    cases held
  · exact held

theorem assign_self (labels : Labels) (label : Nat) (holder : Labelled) :
    labels.assign label holder label = some holder := if_pos rfl

end Labels

mutual
theorem Field.Known.mono {labels more : Labels} (h : labels.Extends more) : (field : Field) →
    field.Known labels → field.Known more
  | .leaf _ _, known => h _ _ known
  | .composite _ _ _ _ fields, known =>
    ⟨h _ _ known.1, h _ _ known.2.1, known.2.2.1, known.2.2.2.1,
      Fields.Known.mono h fields known.2.2.2.2⟩

theorem Fields.Known.mono {labels more : Labels} (h : labels.Extends more) : (fields : Fields) →
    Fields.Known labels fields → Fields.Known more fields
  | [], _ => trivial
  | (_, field) :: rest, known =>
    ⟨Field.Known.mono h field known.1, Fields.Known.mono h rest known.2⟩
end

theorem Fields.Proper.mono {labels more : Labels} (h : labels.Extends more) {fields : Fields}
    (proper : Fields.Proper labels fields) : Fields.Proper more fields :=
  ⟨proper.names, Fields.Known.mono h fields proper.known⟩

theorem FieldSet.Known.mono {labels more : Labels} (h : labels.Extends more) {set : FieldSet}
    (known : set.Known labels) : set.Known more :=
  ⟨h _ _ known.label, known.proper.mono h⟩

namespace Field.Known

variable {labels : Labels} {field other : Field}

theorem label_eq (known : field.Known labels) : labels field.label = some (.field field) := by
  cases field with
  | leaf => exact known
  | composite => exact known.1

/-- Known fields with one label are one field. -/
theorem eq_of_label (known : field.Known labels) (known' : other.Known labels)
    (same : field.label = other.label) : field = other := by
  have held := known.label_eq
  rw [same, known'.label_eq] at held
  injection held with held
  injection held with held
  exact held.symm

theorem set {set : FieldSet} (known : field.Known labels) (h : field.set? = some set) :
    set.Known labels := by
  cases field with
  | leaf => cases h
  | composite =>
    cases h
    exact ⟨known.2.1, known.2.2.2.1, known.2.2.2.2⟩

end Field.Known

theorem FieldSet.Known.eq_of_label {labels : Labels} {set other : FieldSet}
    (known : set.Known labels) (known' : other.Known labels) (same : set.label = other.label) :
    set = other := by
  have held := known.label
  rw [same, known'.label] at held
  injection held with held
  injection held with held
  cases set
  cases other
  cases same
  cases held
  rfl

theorem Fields.known_iff {labels : Labels} {fields : Fields} :
    Fields.Known labels fields ↔ ∀ entry ∈ fields, entry.2.Known labels := by
  induction fields with
  | nil => exact iff_of_true trivial fun _ member => absurd member List.not_mem_nil
  | cons entry rest ih =>
    rw [List.forall_mem_cons, ← ih]
    rfl

/-! ## Computations that take labels -/

namespace Labels

variable {ε α β : Type} {labels : Labels} {next : Nat}

/-- Whatever the computation gives has the property, under a table that extends this one. -/
def Gives (labels : Labels) (next : Nat) (action : Labelling ε α) (post : Labels → α → Prop) :
    Prop :=
  ∀ result next', action next = .ok (result, next') →
    ∃ more, labels.Extends more ∧ more.Below next' ∧ post more result

theorem gives_pure {post : Labels → α → Prop} {result : α} (below : labels.Below next)
    (h : post labels result) : Gives labels next (pure result : Labelling ε α) post := by
  intro result next' e
  cases e
  exact ⟨labels, .refl labels, below, h⟩

theorem Gives.bind {action : Labelling ε α} {continue' : α → Labelling ε β}
    {middle : Labels → α → Prop} {post : Labels → β → Prop}
    (first : Gives labels next action middle)
    (second : ∀ more next' result, labels.Extends more → more.Below next' → middle more result →
      Gives more next' (continue' result) post) :
    Gives labels next (action >>= continue') post := by
  intro result next' e
  change (action next).bind _ = _ at e
  cases made : action next with
  | error problem =>
    rw [made] at e
    cases e
  | ok pair =>
    obtain ⟨found, between⟩ := pair
    rw [made] at e
    obtain ⟨more, extended, below, holds⟩ := first found between made
    obtain ⟨most, extended', below', holds'⟩ :=
      second more between found extended below holds result next' e
    exact ⟨most, extended.trans extended', below', holds'⟩

theorem gives_lift {action : Except ε α} (below : labels.Below next) :
    Gives labels next (liftM action : Labelling ε α) fun more result =>
      more = labels ∧ action = .ok result := by
  intro result next' e
  cases action with
  | error problem => cases e
  | ok found =>
    cases e
    exact ⟨labels, .refl labels, below, rfl, rfl⟩

/-- A new label stands for whatever is made with it. -/
theorem gives_newLabel (below : labels.Below next) (holder : Nat → Labelled) :
    Gives labels next (newLabel : Labelling ε Nat) fun more label =>
      more label = some (holder label) := by
  intro label next' e
  cases e
  exact ⟨labels.assign next (holder next), below.extends_assign _, below.assign _,
    assign_self _ _ _⟩

end Labels
end ResponseGraph
