import ResponseGraph.Proofs.Field.Prepared
import ResponseGraph.Proofs.Field.Shared

/-!
What reading keeps.

Shapes are read in few steps: the sub-selection of a field is closed, fields are put under a
guard, and they are merged with those before them.  What every step keeps holds of all that is
read (`Shapes.Kept.ofDocument`).  It is said of two readings of one document at a time, with and
without the field `__typename`, of which the second gets as far as the first.
-/

namespace ResponseGraph
namespace Shapes

/-- Where the first reading gives shapes, so does the second, with the same variables, and the
shapes are related. -/
def Read.Follows (related : Shapes → Shapes → Prop) (first second : Read) : Prop :=
  ∀ shapes names, first = .ok (shapes, names) →
    ∃ others, second = .ok (others, names) ∧ related shapes others

/-- What related shapes are made into is related if it is made of the first ones. -/
def Carries (related : Shapes → Shapes → Prop) (make make' : Shapes → Except DocumentError Shapes) :
    Prop :=
  ∀ shapes others made, related shapes others → make shapes = .ok made →
    ∃ made', make' others = .ok made' ∧ related made made'

namespace Read.Follows

variable {related : Shapes → Shapes → Prop} {first second : Read}

theorem make (h : first.Follows related second) (names : List String)
    {step step' : Shapes → Except DocumentError Shapes} (carries : Carries related step step') :
    (first.make names step).Follows related (second.make names step') := by
  intro made all done
  obtain ⟨⟨shapes, met⟩, read, done⟩ := exists_of_bind_eq_ok done
  obtain ⟨shapes', stepped, done⟩ := exists_of_bind_eq_ok done
  cases done
  obtain ⟨others, read', here⟩ := h shapes met read
  obtain ⟨made', stepped', there⟩ := carries shapes others _ here stepped
  refine ⟨made', ?_, there⟩
  unfold Read.make
  rw [read']
  show (step' others >>= _) = _
  rw [stepped']
  rfl

theorem andThen (h : first.Follows related second) {next next' : Shapes → Read}
    (later : ∀ shapes others, related shapes others →
      (next shapes).Follows related (next' others)) :
    (first.andThen next).Follows related (second.andThen next') := by
  intro made all done
  obtain ⟨⟨shapes, met⟩, read, done⟩ := exists_of_bind_eq_ok done
  obtain ⟨⟨more, names⟩, continued, done⟩ := exists_of_bind_eq_ok done
  cases done
  obtain ⟨others, read', here⟩ := h shapes met read
  obtain ⟨last, continued', there⟩ := later shapes others here _ names continued
  refine ⟨last, ?_, there⟩
  unfold Read.andThen
  rw [read']
  show (next' others >>= _) = _
  rw [continued']
  rfl

end Read.Follows

/-- Each step of reading keeps shapes related.  The flags tell which of the two readings give
sub-selections a field `__typename`. -/
structure Kept (flag flag' : Bool) (related : Shapes → Shapes → Prop) : Prop where
  nil : related [] []
  field : ∀ aliasName name arguments directives shapes others, related shapes others →
    related
      [(responseName aliasName name, .of (.ofSelection aliasName name arguments directives)
        (below? flag shapes))]
      [(responseName aliasName name, .of (.ofSelection aliasName name arguments directives)
        (below? flag' others))]
  within : ∀ guard shapes others, related shapes others →
    related (within guard shapes) (within guard others)
  combine : ∀ path into into', related into into' → ∀ shapes shapes' merged,
    related shapes shapes' → combine path into shapes = .ok merged →
      ∃ merged', combine path into' shapes' = .ok merged' ∧ related merged merged'

namespace Kept

variable {flag flag' : Bool} {related : Shapes → Shapes → Prop}
  {spread spread' : List String → String → Read} {into into' : Shapes}

theorem add (kept : Kept flag flag' related) {selection : Selection} {path : List String}
    (one : (ofSelection ⟨flag, spread⟩ path selection).Follows related
      (ofSelection ⟨flag', spread'⟩ path selection)) (start : related into into') :
    (Shapes.add ⟨flag, spread⟩ path into selection).Follows related
      (Shapes.add ⟨flag', spread'⟩ path into' selection) :=
  one.make [] fun shapes others made here done =>
    kept.combine path into into' start shapes others made here done

mutual
theorem ofSelection (kept : Kept flag flag' related)
    (within : ∀ path name, (spread path name).Follows related (spread' path name)) :
    (selection : Selection) → (path : List String) →
    (Shapes.ofSelection ⟨flag, spread⟩ path selection).Follows related
      (Shapes.ofSelection ⟨flag', spread'⟩ path selection)
  | .field aliasName name arguments directives selections, path => by
    rw [ofSelection_field, ofSelection_field]
    refine (ofSelections kept within selections _ kept.nil).make _ ?_
    intro shapes others made here done
    cases done
    exact ⟨_, rfl, kept.field aliasName name arguments directives shapes others here⟩
  | .spread fragment directives, path => by
    rw [ofSelection_spread, ofSelection_spread]
    refine (within path fragment).make _ ?_
    intro shapes others made here done
    cases done
    exact ⟨_, rfl, kept.within _ shapes others here⟩
  | .inline directives selections, path => by
    rw [ofSelection_inline, ofSelection_inline]
    refine (ofSelections kept within selections path kept.nil).make _ ?_
    intro shapes others made here done
    cases done
    exact ⟨_, rfl, kept.within _ shapes others here⟩

theorem ofSelections (kept : Kept flag flag' related)
    (within : ∀ path name, (spread path name).Follows related (spread' path name)) :
    (selections : List Selection) → (path : List String) → {into into' : Shapes} →
    related into into' →
    (Shapes.ofSelections ⟨flag, spread⟩ path into selections).Follows related
      (Shapes.ofSelections ⟨flag', spread'⟩ path into' selections)
  | [], path, into, into', start => by
    intro shapes names done
    cases done
    exact ⟨into', rfl, start⟩
  | selection :: rest, path, into, into', start => by
    rw [ofSelections_cons, ofSelections_cons]
    exact (kept.add (ofSelection kept within selection path) start).andThen
      fun merged merged' here => ofSelections kept within rest path here
end

theorem ofSpread (kept : Kept flag flag' related) (definitions : Table Fragment)
    (opened path : List String) (name : String) :
    (Shapes.ofSpread flag definitions opened path name).Follows related
      (Shapes.ofSpread flag' definitions opened path name) := by
  -- Each fragment that is opened leaves one less to open.
  induction opened using (measure fun opened => (unopened definitions opened).length).wf.induction
    generalizing path name
  next opened ih =>
    by_cases closed : name ∈ opened
    · intro shapes names done
      rw [Shapes.ofSpread, dif_pos (by simpa using closed)] at done
      cases done
    · cases defined : definitions.get? name with
      | none =>
        intro shapes names done
        rw [ofSpread_of_get?_none (by simpa using closed) defined] at done
        cases done
      | some fragment =>
        have fewer := length_unopened_lt (by simpa using closed) defined
        rw [ofSpread_of_get? closed defined, ofSpread_of_get? closed defined]
        refine (ofSelections kept (fun path other => ih _ fewer path other) fragment.selections path
          kept.nil).make _ ?_
        intro shapes others made here done
        cases done
        exact ⟨others, rfl, here⟩

/-- What every step keeps holds of what is read of a document. -/
theorem ofDocument (kept : Kept flag flag' related)
    (empty : ∀ shapes others, related shapes others → shapes.isEmpty = others.isEmpty)
    {definitions : Table Fragment} {selections : List Selection} {shapes : Shapes}
    {names : List String}
    (read : Shapes.ofDocument flag definitions selections = .ok (shapes, names)) :
    ∃ others, Shapes.ofDocument flag' definitions selections = .ok (others, names) ∧
      related shapes others := by
  obtain ⟨⟨found, met⟩, first, read⟩ := exists_of_bind_eq_ok read
  dsimp only at read
  split at read
  · cases read
  · next full =>
    cases read
    obtain ⟨others, second, here⟩ :=
      ofSelections kept (fun path name => kept.ofSpread definitions [] path name) selections []
        kept.nil _ _ first
    refine ⟨others, ?_, here⟩
    have full' : ¬ others.isEmpty := empty _ _ here ▸ full
    unfold Shapes.ofDocument
    dsimp only
    rw [second]
    show (if others.isEmpty then _ else _) = _
    rw [if_neg full']
    rfl

end Kept

/-- A property that every step of reading keeps, whether or not sub-selections get a field
`__typename`. -/
structure Inherited (flag : Bool) (holds : Shapes → Prop) : Prop where
  nil : holds []
  field : ∀ aliasName name arguments directives shapes, holds shapes →
    holds [(responseName aliasName name, .of (.ofSelection aliasName name arguments directives)
      (below? flag shapes))]
  within : ∀ guard shapes, holds shapes → holds (within guard shapes)
  combine : ∀ path into, holds into → ∀ shapes merged, holds shapes →
    combine path into shapes = .ok merged → holds merged

/-- What every step keeps holds of what is read of a document. -/
theorem Inherited.ofDocument {flag : Bool} {holds : Shapes → Prop}
    (inherited : Inherited flag holds) {definitions : Table Fragment} {selections : List Selection}
    {shapes : Shapes} {names : List String}
    (read : Shapes.ofDocument flag definitions selections = .ok (shapes, names)) :
    holds shapes := by
  have kept : Kept flag flag fun shapes others => shapes = others ∧ holds shapes := by
    refine ⟨⟨rfl, inherited.nil⟩, ?_, ?_, ?_⟩
    · rintro aliasName name arguments directives shapes _ ⟨rfl, here⟩
      exact ⟨rfl, inherited.field aliasName name arguments directives shapes here⟩
    · rintro guard shapes _ ⟨rfl, here⟩
      exact ⟨rfl, inherited.within guard shapes here⟩
    · rintro path into _ ⟨rfl, start⟩ shapes _ merged ⟨rfl, here⟩ done
      exact ⟨merged, done, rfl, inherited.combine path into start shapes merged here done⟩
  obtain ⟨others, -, -, here⟩ :=
    kept.ofDocument (fun shapes others same => by rw [same.1]) read
  exact here

theorem exact_ofDocument {flag : Bool} {definitions : Table Fragment}
    {selections : List Selection} {shapes : Shapes} {names : List String}
    (read : ofDocument flag definitions selections = .ok (shapes, names)) : shapes.Exact := by
  have inherited : Inherited flag Exact :=
    { nil := .nil
      field := fun _ _ _ _ shapes exact =>
        .singleton (.of (FieldHead.exact_ofSelection ..) fun fields found => exact.below found)
      within := fun guard shapes exact => exact.within guard
      combine := fun path into exact shapes merged exact' done =>
        (exact.combine shapes exact' done).1 }
  exact inherited.ofDocument read

end Shapes

/-- The shapes of resolved fields are those that are read of the document. -/
theorem FieldSet.ofDocument_of_resolve {addTypename : Bool} {definitions : Table Fragment}
    {selections : List Selection} {resolved : Resolved}
    (h : FieldSet.resolve addTypename definitions selections = .ok resolved) :
    Shapes.ofDocument addTypename definitions selections =
      .ok (Fields.shapes resolved.root.fields, resolved.used) := by
  have same := FieldSet.paired_resolve addTypename definitions selections
  rw [h] at same
  generalize Shapes.ofDocument addTypename definitions selections = read at same ⊢
  cases same with
  | ok shown => rw [shown.1, shown.2]

namespace Plan

variable {addTypename strict : Bool} {key : DocumentKey} {plan : Plan}

/-- The fields of a plan are read. -/
theorem exists_ofDocument_of_ofKey (h : Plan.ofKey addTypename strict key = .ok plan) :
    ∃ definitions selections names, Shapes.ofDocument addTypename definitions selections =
      .ok (Fields.shapes plan.root.fields, names) := by
  obtain ⟨definitions, selections, resolved, made, same, -⟩ := exists_resolve_of_ofKey h
  exact ⟨definitions, selections, resolved.used, same ▸ FieldSet.ofDocument_of_resolve made⟩

theorem exact_ofKey (h : Plan.ofKey addTypename strict key = .ok plan) :
    (Fields.shapes plan.root.fields).Exact := by
  obtain ⟨definitions, selections, names, read⟩ := exists_ofDocument_of_ofKey h
  exact Shapes.exact_ofDocument read

end Plan
end ResponseGraph
