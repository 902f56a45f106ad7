import ResponseGraph.Proofs.Basic
import ResponseGraph.Proofs.Field.Selected

/-!
Combined fields.

A field that is combined from two known fields is known, and stands for whatever either of
them stands for.
-/

namespace ResponseGraph

open Labels

variable {bindings : Bindings} {below : List Selection → Occurrences}

theorem Field.known_of {labels : Labels} {label : Nat} {head : FieldHead} {set? : Option FieldSet}
    (held : labels label = some (.field (.of label head set?)))
    (known : ∀ set, set? = some set → set.Known labels) :
    (Field.of label head set?).Known labels := by
  cases set? with
  | none => exact held
  | some set =>
    have inner := known set rfl
    exact ⟨held, inner.label, rfl, inner.proper.names, inner.proper.known⟩

/-- Two heads that are combined are fair to the occurrences of both. -/
theorem FieldHead.fair_combine {path : List String} {a b head : FieldHead}
    {here there : Guard → List Selection → Prop} (h : a.combine path b = .ok head)
    (first : a.Fair bindings here) (second : b.Fair bindings there) :
    head.Fair bindings fun guard selections => here guard selections ∨ there guard selections := by
  unfold combine at h
  split at h
  · cases h
  · split at h
    · cases h
    · cases h
      exact first.union second rfl Guard.passes_union

/-- What a field is after another one was combined with it. -/
def Joins (bindings : Bindings) (below : List Selection → Occurrences) (existing incoming : Field)
    (labels : Labels) (field : Field) : Prop :=
  field.Known labels ∧ ∀ here there, existing.Stands bindings below here →
    incoming.Stands bindings below there →
    field.Stands bindings below fun guard selections =>
      here guard selections ∨ there guard selections

/-- A name keeps its occurrences, and gets others if it is among the incoming fields. -/
def JoinsAll (bindings : Bindings) (below : List Selection → Occurrences) (into incoming : Fields)
    (labels : Labels) (fields : Fields) : Prop :=
  Fields.Proper labels fields ∧ ∀ occurs others, Fields.Select bindings below occurs into →
    Fields.Select bindings below others incoming →
    Fields.Select bindings below (fun name guard inner => occurs name guard inner ∨
      others name guard inner) fields

theorem joins_self {labels : Labels} {field : Field} (known : field.Known labels) :
    Joins bindings below field field labels field :=
  ⟨known, fun _ _ first second => first.union field second⟩

/-- The sets of two fields make the set of the combined field. -/
theorem joins_of {labels : Labels} {existing incoming : Field} {path : List String}
    {head : FieldHead} {label : Nat} {set? : Option FieldSet}
    (combined : existing.head.combine path incoming.head = .ok head)
    (held : labels label = some (.field (.of label head set?)))
    (known : ∀ set, set? = some set → set.Known labels)
    (none : set? = none → existing.set? = none ∧ incoming.set? = none)
    (some : ∀ set, set? = some set → ∀ here there, existing.Stands bindings below here →
      incoming.Stands bindings below there → Fields.Select bindings below
        (fun name guard inner => occursWithin below here name guard inner ∨
          occursWithin below there name guard inner) set.fields) :
    Joins bindings below existing incoming labels (.of label head set?) := by
  refine ⟨Field.known_of held known, fun here there first second => ?_⟩
  refine Field.stands_of (FieldHead.fair_combine combined first.fair second.fair) (fun empty => ?_)
    fun set present => ?_
  · rw [occursWithin_or]
    intro name guard inner found
    exact found.elim (first.nothing_within (none empty).1 name guard inner)
      (second.nothing_within (none empty).2 name guard inner)
  · rw [occursWithin_or]
    exact some set present here there first second

theorem Fields.Select.or_left {occurs others : Occurrences} {fields : Fields}
    (h : Fields.Select bindings below occurs fields)
    (nothing : ∀ name guard inner, ¬ others name guard inner) :
    Fields.Select bindings below (fun name guard inner => occurs name guard inner ∨
      others name guard inner) fields := by
  have same : (fun name guard inner => occurs name guard inner ∨ others name guard inner) =
    occurs := by
    funext name guard inner
    exact propext (or_iff_left (nothing name guard inner))
  rw [same]
  exact h

theorem Fields.Select.or_right {occurs others : Occurrences} {fields : Fields}
    (h : Fields.Select bindings below others fields)
    (nothing : ∀ name guard inner, ¬ occurs name guard inner) :
    Fields.Select bindings below (fun name guard inner => occurs name guard inner ∨
      others name guard inner) fields := by
  have same : (fun name guard inner => occurs name guard inner ∨ others name guard inner) =
    others := by
    funext name guard inner
    exact propext (or_iff_right (nothing name guard inner))
  rw [same]
  exact h

theorem Fields.Select.union {occurs others : Occurrences} {fields : Fields}
    (first : Fields.Select bindings below occurs fields)
    (second : Fields.Select bindings below others fields) :
    Fields.Select bindings below (fun name guard inner => occurs name guard inner ∨
      others name guard inner) fields :=
  ⟨first.complete.union second.complete,
    Fields.Stands.union fields first.stands second.stands⟩

/-- A leaf is combined with a field. -/
theorem gives_combine_leaf {labels : Labels} {next : Nat} {path : List String} {existing : Field}
    {label : Nat} {head : FieldHead} (below' : labels.Below next) (known : existing.Known labels)
    (leaf : (Field.leaf label head).Known labels) :
    labels.Gives next (Field.combine path existing (.leaf label head))
      (Joins bindings below existing (.leaf label head)) := by
  unfold Field.combine
  split
  · next same =>
    rw [known.eq_of_label leaf same]
    exact gives_pure below' (joins_self leaf)
  · refine (gives_lift below').bind fun more next' combined extended free made => ?_
    obtain ⟨rfl, made⟩ := made
    refine (gives_newLabel free fun label => .field (.of label combined existing.set?)).bind
      fun most last fresh extended free held => gives_pure free ?_
    refine joins_of made held (fun set present => (known.set present).mono extended)
      (fun empty => ⟨empty, rfl⟩) fun set present here there first second => ?_
    exact (first.select present).or_left fun name guard inner =>
      second.nothing_within rfl name guard inner

/-- A new field with a new set. -/
theorem gives_composite {ε : Type} {labels : Labels} {next : Nat} (below : labels.Below next)
    (head : FieldHead) (fields : Fields) :
    labels.Gives next (do
      return Field.of (← newLabel) head (some ⟨← newLabel, fields⟩) : Labelling ε Field)
      fun more field => ∃ label set, field = .of label head (some ⟨set, fields⟩) ∧
        more label = some (.field field) ∧ more set = some (.set fields) := by
  intro field last e
  cases e
  have first := below.assign (.field (.of next head (some ⟨next + 1, fields⟩)))
  have held := labels.assign_self next (.field (.of next head (some ⟨next + 1, fields⟩)))
  refine ⟨_, (below.extends_assign _).trans (first.extends_assign (.set fields)), first.assign _,
    next, next + 1, rfl, first.extends_assign _ _ _ held, assign_self _ _ _⟩

/-! ## Several fields -/

namespace Fields

variable {labels : Labels} {fields rest : Fields} {name : String} {field : Field}
  {occurs others : Occurrences} {here : Guard → List Selection → Prop}

theorem proper_nil : Proper labels [] := ⟨List.nodup_nil, trivial⟩

theorem Proper.put (proper : Proper labels fields) (known : field.Known labels) :
    Proper labels (Entries.put name field fields) := by
  refine ⟨Entries.nodup_put proper.names name field, known_iff.mpr fun entry member => ?_⟩
  rcases Entries.mem_put proper.names member with ⟨-, same⟩ | ⟨-, member⟩
  · rw [same]
    exact known
  · exact known_iff.mp proper.known entry member

theorem Proper.tail (proper : Proper labels ((name, field) :: rest)) : Proper labels rest :=
  ⟨(List.nodup_cons.mp proper.names).2, proper.known.2⟩

/-- A name gets more occurrences, for which its new field stands too. -/
theorem Select.put (select : Select bindings below occurs fields)
    (names : (fields.map Prod.fst).Nodup) (some : ∃ guard inner, here guard inner)
    (stands : field.Stands bindings below fun guard inner =>
      occurs name guard inner ∨ here guard inner) :
    Select bindings below (fun other guard inner =>
      occurs other guard inner ∨ other = name ∧ here guard inner)
        (Entries.put name field fields) := by
  refine ⟨fun other => ?_, stands_iff.mpr fun other found member => ?_⟩
  · rw [Entries.mem_map_fst_put, select.complete other]
    obtain ⟨guard, inner, found⟩ := some
    constructor
    · intro h
      rcases h with rfl | ⟨guard, inner, found⟩
      · exact ⟨guard, inner, Or.inr ⟨rfl, found⟩⟩
      · exact ⟨guard, inner, Or.inl found⟩
    · intro h
      rcases h with ⟨guard, inner, found | ⟨same, -⟩⟩
      · exact Or.inr ⟨guard, inner, found⟩
      · exact Or.inl same
  · rcases Entries.mem_put names member with ⟨rfl, rfl⟩ | ⟨different, member⟩
    · simpa only [true_and] using stands
    · simpa only [different, false_and, or_false] using stands_iff.mp select.stands other found
        member

theorem Select.head (select : Select bindings below others ((name, field) :: rest)) :
    field.Stands bindings below (others name) := select.stands.1

/-- The fields after the first one stand for the other names. -/
theorem Select.tail (select : Select bindings below others ((name, field) :: rest))
    (names : (((name, field) :: rest).map Prod.fst).Nodup) :
    Select bindings below (fun other guard inner => other ≠ name ∧ others other guard inner)
      rest := by
  obtain ⟨fresh, -⟩ := List.nodup_cons.mp names
  refine ⟨fun other => ?_, stands_iff.mpr fun other found member => ?_⟩
  · have all := select.complete other
    rw [List.map_cons, List.mem_cons] at all
    constructor
    · intro member
      obtain ⟨guard, inner, found⟩ := all.mp (Or.inr member)
      exact ⟨guard, inner, fun same => fresh (same ▸ member), found⟩
    · intro h
      obtain ⟨guard, inner, different, found⟩ := h
      exact (all.mpr ⟨guard, inner, found⟩).resolve_left different
  · have different : other ≠ name := by
      intro e
      subst e
      exact fresh (List.mem_map.mpr ⟨_, member, rfl⟩)
    simpa only [ne_eq, different, not_false_eq_true, true_and] using
      stands_iff.mp select.stands.2 other found member

/-- No name that has no field occurs. -/
theorem Select.nothing (select : Select bindings below occurs fields)
    (absent : Entries.get? name fields = none) (guard : Guard) (inner : List Selection) :
    ¬ occurs name guard inner := fun found =>
  Entries.get?_eq_none_iff.mp absent ((select.complete name).mpr ⟨guard, inner, found⟩)

theorem Select.stands_of_get? (select : Select bindings below occurs fields)
    (present : Entries.get? name fields = some field) : field.Stands bindings below (occurs name) :=
  stands_iff.mp select.stands name field (Entries.mem_of_get? present)

theorem Proper.known_of_get? (proper : Proper labels fields)
    (present : Entries.get? name fields = some field) : field.Known labels :=
  known_iff.mp proper.known (name, field) (Entries.mem_of_get? present)

/-- The first of the incoming fields is put where it belongs. -/
theorem joinsAll_cons {most : Labels} {into : Fields}
    (names : (into.map Prod.fst).Nodup) (incoming : Proper labels ((name, field) :: rest))
    {joined : Field} {all : Fields}
    (first : ∀ occurs, Select bindings below occurs into →
      ∀ here, field.Stands bindings below here →
      joined.Stands bindings below fun guard inner => occurs name guard inner ∨ here guard inner)
    (more : JoinsAll bindings below (Entries.put name joined into) rest most all) :
    JoinsAll bindings below into ((name, field) :: rest) most all := by
  refine ⟨more.1, fun occurs others select select' => ?_⟩
  have some := (select'.complete name).mp (List.mem_cons_self ..)
  have put := select.put names some (first occurs select _ select'.head)
  have both := more.2 _ _ put (select'.tail incoming.names)
  have same : (fun other guard inner => (occurs other guard inner ∨
      other = name ∧ others name guard inner) ∨ other ≠ name ∧ others other guard inner) =
        fun other guard inner => occurs other guard inner ∨ others other guard inner := by
    funext other guard inner
    by_cases same : other = name
    · subst same
      simp only [true_and, ne_eq, not_true_eq_false, false_and, or_false]
    · simp only [same, false_and, or_false, ne_eq, not_false_eq_true, true_and]
  rw [← same]
  exact both

end Fields

mutual
theorem gives_combine {labels : Labels} {next : Nat} (path : List String) (existing : Field) :
    (incoming : Field) → labels.Below next → existing.Known labels → incoming.Known labels →
    labels.Gives next (Field.combine path existing incoming)
      (Joins bindings below existing incoming)
  | .leaf label head, free, known, known' => gives_combine_leaf free known known'
  | .composite label head traits set fields, free, known, known' => by
    unfold Field.combine
    split
    · next same =>
      rw [known.eq_of_label known' same]
      exact gives_pure free (joins_self known')
    · refine (gives_lift free).bind fun more next' combined extended free' made => ?_
      obtain ⟨rfl, made⟩ := made
      have inner : FieldSet.Known more ⟨set, fields⟩ := known'.set rfl
      split
      · next alone =>
        have composed (label : Nat) : Field.composite label combined traits set fields =
            .of label combined (some ⟨set, fields⟩) := by
          rw [known'.2.2.1]
          rfl
        simp only [composed]
        refine (gives_newLabel free' fun label =>
          .field (.of label combined (some ⟨set, fields⟩))).bind
          fun most last fresh extended free held => gives_pure free ?_
        refine joins_of made held (fun _ e => ?_) (fun e => by cases e)
          fun _ e here there first second => ?_
        · cases e
          exact inner.mono extended
        · cases e
          exact (second.select rfl).or_right fun name guard inner =>
            first.nothing_within alone name guard inner
      · next old present =>
        have known := known.set present
        split
        · next same =>
          refine (gives_newLabel free' fun label => .field (.of label combined (some old))).bind
            fun most last fresh extended free held => gives_pure free ?_
          refine joins_of made held (fun _ e => ?_) (fun e => by cases e)
            fun _ e here there first second => ?_
          · cases e
            exact known.mono extended
          · cases e
            have equal := known.eq_of_label inner same
            subst equal
            exact (first.select present).union (second.select rfl)
        · refine (gives_combine_all path old.fields fields free' known.proper inner.proper).bind
            fun most last merged extended free joined => ?_
          intro field last e
          obtain ⟨all, extended', free, label, set', rfl, held, held'⟩ :=
            gives_composite free combined merged field last e
          refine ⟨all, extended', free, joins_of made held (fun _ e => ?_) (fun e => by cases e)
            fun _ e here there first second => ?_⟩
          · cases e
            exact ⟨held', joined.1.mono extended'⟩
          · cases e
            exact joined.2 _ _ (first.select present) (second.select rfl)

theorem gives_combine_all {labels : Labels} {next : Nat} (path : List String) (into : Fields) :
    (incoming : Fields) → labels.Below next → Fields.Proper labels into →
    Fields.Proper labels incoming →
    labels.Gives next (Fields.combine path into incoming) (JoinsAll bindings below into incoming)
  | [], free, known, known' => by
    refine gives_pure free ⟨known, fun occurs others select select' => ?_⟩
    exact select.or_left fun name guard inner => select'.nothing rfl guard inner
  | (name, field) :: rest, free, known, known' => by
    have close (action : Labelling DocumentError Field)
        (made : labels.Gives next action fun more joined => joined.Known more ∧
          ∀ occurs, Fields.Select bindings below occurs into → ∀ here,
            field.Stands bindings below here →
              joined.Stands bindings below fun guard inner =>
                occurs name guard inner ∨ here guard inner) :
        labels.Gives next
          (action >>= fun joined => Fields.combine path (Entries.put name joined into) rest)
          (JoinsAll bindings below into ((name, field) :: rest)) := by
      refine made.bind fun more next' joined extended free' found => ?_
      intro all last e
      obtain ⟨most, extended', free', more⟩ := gives_combine_all path _ rest free'
        ((known.mono extended).put found.1) (known'.tail.mono extended) all last e
      exact ⟨most, extended', free', Fields.joinsAll_cons known.names known' found.2 more⟩
    unfold Fields.combine
    split
    · next absent =>
      refine close (pure field) (gives_pure free
        ⟨known'.known.1, fun occurs select here stands => ?_⟩)
      have same : (fun guard inner => occurs name guard inner ∨ here guard inner) = here := by
        funext guard inner
        exact propext (or_iff_right (select.nothing absent guard inner))
      rw [same]
      exact stands
    · next existing present =>
      refine close (Field.combine (path ++ [name]) existing field) fun joined last e => ?_
      obtain ⟨more, extended, free', joins⟩ := gives_combine (path ++ [name]) existing field free
        (known.known_of_get? present) known'.known.1 joined last e
      exact ⟨more, extended, free', joins.1, fun occurs select here stands =>
        joins.2 _ _ (select.stands_of_get? present) stands⟩
end

end ResponseGraph
