import ResponseGraph.Proofs.Field.Rearranged
import ResponseGraph.Proofs.Field.Shared

/-!
Selections in any order.

`Selections.Reordered` is that two documents have the same selections, in any order and at any
level.  Resolving them succeeds for both or for neither, and then the fields are the same but for
their order, and the same variables are used.

Whatever is read of reordered selections is alike (`Shapes.Read.Alike`).  The cases are those of
the reordering, and two selections may be swapped because it does not matter in which order shapes
are merged.
-/

namespace ResponseGraph

mutual
/-- The same selection, with the selections inside it in another order. -/
inductive Selection.Reordered : Selection → Selection → Prop
  | field (aliasName : Option String) (name : String) (arguments : List (String × Literal))
    (directives : List Directive) {selections selections' : List Selection}
    (below : Selections.Reordered selections selections') :
    Selection.Reordered (.field aliasName name arguments directives selections)
      (.field aliasName name arguments directives selections')
  | spread (fragment : String) (directives : List Directive) :
    Selection.Reordered (.spread fragment directives) (.spread fragment directives)
  | inline (directives : List Directive) {selections selections' : List Selection}
    (below : Selections.Reordered selections selections') :
    Selection.Reordered (.inline directives selections) (.inline directives selections')

/-- The same selections in another order, at any level. -/
inductive Selections.Reordered : List Selection → List Selection → Prop
  | nil : Selections.Reordered [] []
  | cons {selection selection' : Selection} {rest rest' : List Selection}
    (here : Selection.Reordered selection selection') (later : Selections.Reordered rest rest') :
    Selections.Reordered (selection :: rest) (selection' :: rest')
  | swap (first second : Selection) (rest : List Selection) :
    Selections.Reordered (first :: second :: rest) (second :: first :: rest)
  | trans {selections between selections' : List Selection}
    (first : Selections.Reordered selections between)
    (second : Selections.Reordered between selections') :
    Selections.Reordered selections selections'
end

/-- The same fragment, with its selections in another order. -/
structure Fragment.Reordered (fragment fragment' : Fragment) : Prop where
  name : fragment.name = fragment'.name
  directives : fragment.directives = fragment'.directives
  selections : Selections.Reordered fragment.selections fragment'.selections

namespace Shapes

variable {around around' : Around} {path : List String}

/-! ## What is read alike -/

/-- The shapes are alike, and the same variables are met. -/
structure AlikeWith (read read' : Shapes × List String) : Prop where
  shapes : Shapes.Alike read.1 read'.1
  names : ∀ name, name ∈ read.2 ↔ name ∈ read'.2

namespace Read

/-- Both readings fail, or what they give is alike. -/
abbrev Alike (x y : Read) : Prop := SameOutcome AlikeWith x y

variable {x y z : Read}

theorem Alike.trans (first : Alike x y) (second : Alike y z) : Alike x z :=
  SameOutcome.trans first second fun _ _ _ h h' =>
    ⟨h.shapes.trans h'.shapes, fun name => (h.names name).trans (h'.names name)⟩

/-- A reading of exact shapes is like itself. -/
theorem Alike.refl (exact : ∀ shapes names, x = .ok (shapes, names) → shapes.Exact) :
    Alike x x := by
  cases x with
  | error problem => exact .error problem problem
  | ok read => exact .ok ⟨.refl (exact read.1 read.2 rfl), fun _ => Iff.rfl⟩

theorem Alike.make {make make' : Shapes → Except DocumentError Shapes} (names : List String)
    (h : Alike x y) (next : ∀ shapes others, Shapes.Alike shapes others →
      SameOutcome Shapes.Alike (make shapes) (make' others)) :
    Alike (x.make names make) (y.make names make') := by
  refine h.bind ?_
  rintro ⟨shapes, met⟩ ⟨others, met'⟩ alike
  refine (next shapes others alike.shapes).bind fun made made' alike' => .ok ⟨alike', fun name => ?_⟩
  rw [List.mem_append, List.mem_append, alike.names name]

theorem Alike.andThen {next next' : Shapes → Read} (h : Alike x y)
    (after : ∀ shapes others, Shapes.Alike shapes others → Alike (next shapes) (next' others)) :
    Alike (x.andThen next) (y.andThen next') := by
  refine h.bind ?_
  rintro ⟨shapes, names⟩ ⟨others, names'⟩ alike
  refine (after shapes others alike.shapes).bind ?_
  rintro ⟨more, met⟩ ⟨more', met'⟩ alike'
  refine .ok ⟨alike'.shapes, fun name => ?_⟩
  rw [List.mem_append, List.mem_append, alike.names name, alike'.names name]

theorem andThen_assoc (x : Read) (f g : Shapes → Read) :
    (x.andThen f).andThen g = x.andThen fun shapes => (f shapes).andThen g := by
  unfold andThen
  simp only [bind_assoc, pure_bind, List.append_assoc]

/-- Whatever comes before a reading that fails. -/
theorem exists_andThen_eq_error (x : Read) (next : Shapes → Read)
    (fails : ∀ shapes, ∃ problem, next shapes = .error problem) :
    ∃ problem, x.andThen next = .error problem := by
  cases x with
  | error problem => exact ⟨problem, rfl⟩
  | ok read =>
    obtain ⟨problem, failed⟩ := fails read.1
    refine ⟨problem, ?_⟩
    show (next read.1 >>= _) = _
    rw [failed]
    rfl

/-- Two readings are added in any order. -/
theorem alike_swap {into : Shapes} (start : into.Exact)
    (exact : ∀ shapes names, x = .ok (shapes, names) → shapes.Exact)
    (exact' : ∀ shapes names, y = .ok (shapes, names) → shapes.Exact) :
    Alike ((x.make [] (combine path into)).andThen fun merged => y.make [] (combine path merged))
      ((y.make [] (combine path into)).andThen fun merged => x.make [] (combine path merged)) := by
  cases x with
  | error problem =>
    obtain ⟨problem', failed⟩ := exists_andThen_eq_error (y.make [] (combine path into))
      (fun merged => Read.make [] (combine path merged) (.error problem)) fun _ => ⟨problem, rfl⟩
    rw [failed]
    exact .error problem problem'
  | ok read =>
    cases y with
    | error problem =>
      obtain ⟨problem', failed⟩ := exists_andThen_eq_error
        (Read.make [] (combine path into) (.ok read))
        (fun merged => Read.make [] (combine path merged) (.error problem)) fun _ => ⟨problem, rfl⟩
      rw [failed]
      exact .error problem' problem
    | ok read' =>
      obtain ⟨shapes, names⟩ := read
      obtain ⟨shapes', names'⟩ := read'
      have twice (a b : Shapes) (met met' : List String) :
          (Read.make [] (combine path into) (.ok (a, met))).andThen
              (fun merged => Read.make [] (combine path merged) (.ok (b, met'))) =
            (combine path into a >>= (combine path · b)) >>= fun merged =>
              .ok (merged, met ++ met') := by
        have ok_bind {α β : Type} (value : α) (f : α → Except DocumentError β) :
            Except.ok value >>= f = f value := rfl
        simp only [Read.make, Read.andThen, ok_bind, bind_assoc, pure_bind, List.nil_append]
        rfl
      rw [twice, twice]
      refine (combine_right_comm start (exact _ _ rfl) (exact' _ _ rfl)).bind
        fun merged merged' alike => .ok ⟨alike, fun name => ?_⟩
      rw [List.mem_append, List.mem_append, or_comm]

end Read

/-- Spreads stand for what is alike. -/
structure Around.Alike (around around' : Around) : Prop where
  addTypename : around.addTypename = around'.addTypename
  spread : ∀ path name, Read.Alike (around.spread path name) (around'.spread path name)

theorem Around.Exact.alike (exact : around.Exact) : around.Alike around :=
  ⟨rfl, fun path name => .refl fun shapes names found => exact path name shapes names found⟩

/-! ## The same selections -/

/-- The sub-selection of a field, of whatever is alike. -/
theorem sameOutcome_field {shapes others : Shapes} (h : Shapes.Alike shapes others)
    (addTypename : Bool) (aliasName : Option String) (name : String)
    (arguments : List (String × Literal)) (directives : List Directive) :
    @SameOutcome DocumentError _ _ Shapes.Alike
      (.ok [(responseName aliasName name, .of (.ofSelection aliasName name arguments directives)
        (below? addTypename shapes))])
      (.ok [(responseName aliasName name, .of (.ofSelection aliasName name arguments directives)
        (below? addTypename others))]) :=
  .ok (alike_singleton _ (FieldHead.exact_ofSelection ..) (h.below? addTypename))

mutual
/-- The same selection, where spreads stand for what is alike. -/
theorem alike_ofSelection (alike : around.Alike around') : (selection : Selection) →
    (path : List String) →
    Read.Alike (ofSelection around path selection) (ofSelection around' path selection)
  | .field aliasName name arguments directives selections, path => by
    rw [ofSelection_field, ofSelection_field, alike.addTypename]
    exact (alike_ofSelections alike selections _ (.refl .nil)).make _ fun _ _ h =>
      sameOutcome_field h _ aliasName name arguments directives
  | .spread fragment directives, path => by
    rw [ofSelection_spread, ofSelection_spread]
    exact (alike.spread path fragment).make _ fun _ _ h => .ok (h.within _)
  | .inline directives selections, path => by
    rw [ofSelection_inline, ofSelection_inline]
    exact (alike_ofSelections alike selections path (.refl .nil)).make _ fun _ _ h =>
      .ok (h.within _)

theorem alike_ofSelections (alike : around.Alike around') : (selections : List Selection) →
    (path : List String) → {into into' : Shapes} → Shapes.Alike into into' →
    Read.Alike (ofSelections around path into selections)
      (ofSelections around' path into' selections)
  | [], _, _, _, h => .ok ⟨h, fun _ => Iff.rfl⟩
  | selection :: rest, path, into, into', h => by
    rw [ofSelections_cons, ofSelections_cons]
    refine Read.Alike.andThen ?_ fun _ _ h => alike_ofSelections alike rest path h
    exact (alike_ofSelection alike selection path).make _ fun _ _ h' => h.combine h'
end

/-! ## Selections in another order -/

variable (exact : around.Exact)
include exact

mutual
theorem alike_of_reordered : {selection selection' : Selection} →
    selection.Reordered selection' → (path : List String) →
    Read.Alike (ofSelection around path selection) (ofSelection around path selection')
  | _, _, .field aliasName name arguments directives below, path => by
    rw [ofSelection_field, ofSelection_field]
    exact (alike_of_allReordered below _ (.refl .nil)).make _ fun _ _ h =>
      sameOutcome_field h _ aliasName name arguments directives
  | _, _, .spread fragment directives, path => alike_ofSelection exact.alike _ path
  | _, _, .inline directives below, path => by
    rw [ofSelection_inline, ofSelection_inline]
    exact (alike_of_allReordered below path (.refl .nil)).make _ fun _ _ h => .ok (h.within _)

theorem alike_of_allReordered : {selections selections' : List Selection} →
    Selections.Reordered selections selections' → (path : List String) → {into into' : Shapes} →
    Shapes.Alike into into' →
    Read.Alike (ofSelections around path into selections)
      (ofSelections around path into' selections')
  | _, _, .nil, path, _, _, h => .ok ⟨h, fun _ => Iff.rfl⟩
  | _, _, .cons here later, path, into, into', h => by
    rw [ofSelections_cons, ofSelections_cons]
    refine Read.Alike.andThen ?_ fun _ _ h => alike_of_allReordered later path h
    exact (alike_of_reordered here path).make _ fun _ _ h' => h.combine h'
  | _, _, .swap first second rest, path, into, into', h => by
    have swapped : Read.Alike (ofSelections around path into (first :: second :: rest))
        (ofSelections around path into (second :: first :: rest)) := by
      simp only [ofSelections_cons, ← Read.andThen_assoc]
      refine Read.Alike.andThen ?_ fun _ _ h => alike_ofSelections exact.alike rest path h
      exact Read.alike_swap h.exact (fun _ _ found => exact_ofSelection exact first found)
        fun _ _ found => exact_ofSelection exact second found
    exact swapped.trans (alike_ofSelections exact.alike _ path h)
  | _, _, .trans first second, path, into, into', h =>
    (alike_of_allReordered first path (.refl h.exact)).trans (alike_of_allReordered second path h)
end

omit exact

/-! ## Fragments and documents -/

variable {definitions definitions' : Table Fragment} {selections selections' : List Selection}

/-- Fragments with reordered selections are read alike, whatever is open around them. -/
theorem alike_ofSpread (addTypename : Bool)
    (fragments : ∀ name, Option.Rel Fragment.Reordered (definitions.get? name)
      (definitions'.get? name)) (opened : List String) :
    Around.Alike ⟨addTypename, ofSpread addTypename definitions opened⟩
      ⟨addTypename, ofSpread addTypename definitions' opened⟩ := by
  induction opened using (measure fun opened => (unopened definitions opened).length).wf.induction
  next opened ih =>
    refine ⟨rfl, fun path name => ?_⟩
    show Read.Alike (ofSpread addTypename definitions opened path name)
      (ofSpread addTypename definitions' opened path name)
    by_cases cyclic : opened.contains name
    · rw [ofSpread, ofSpread, dif_pos cyclic, dif_pos cyclic]
      exact .error _ _
    · rcases exists_of_rel (fragments name) with
        ⟨undefined, undefined'⟩ | ⟨fragment, fragment', defined, defined', reordered⟩
      · rw [ofSpread_of_get?_none cyclic undefined, ofSpread_of_get?_none cyclic undefined']
        exact .error _ _
      · have closed : name ∉ opened := by simpa using cyclic
        have inner := ih (opened ++ [name]) (length_unopened_lt cyclic defined)
        rw [ofSpread_of_get? closed defined, ofSpread_of_get? closed defined',
          ← reordered.directives]
        refine Read.Alike.make _ ?_ fun _ _ h => .ok h
        exact (alike_ofSelections inner fragment.selections path (.refl .nil)).trans
          (alike_of_allReordered (exact_ofSpread _ _ _) reordered.selections path (.refl .nil))

/-- Documents with reordered selections are read alike. -/
theorem alike_ofDocument (addTypename : Bool)
    (fragments : ∀ name, Option.Rel Fragment.Reordered (definitions.get? name)
      (definitions'.get? name)) (reordered : Selections.Reordered selections selections') :
    Read.Alike (ofDocument addTypename definitions selections)
      (ofDocument addTypename definitions' selections') := by
  have read := (alike_ofSelections (alike_ofSpread addTypename fragments []) selections []
    (.refl .nil)).trans
      (alike_of_allReordered (exact_ofSpread addTypename definitions' []) reordered [] (.refl .nil))
  refine SameOutcome.bind read ?_
  rintro ⟨shapes, names⟩ ⟨others, names'⟩ alike
  by_cases empty : others.isEmpty
  · simp only [alike.shapes.isEmpty_eq, if_pos empty]
    exact .error _ _
  · simp only [alike.shapes.isEmpty_eq, if_neg empty]
    refine .ok ⟨alike.shapes, fun name => ?_⟩
    rw [Resolving.mem_record, Resolving.mem_record, alike.names name]

end Shapes

/-- The same fields but for the order of fields and of guards, and the same variables. -/
structure Resolved.Reordered (resolved other : Resolved) : Prop where
  fields : Shapes.Reordered (Fields.shapes resolved.root.fields) (Fields.shapes other.root.fields)
  used : ∀ name, name ∈ resolved.used ↔ name ∈ other.used

/-- The order of selections does not matter: at any level and in any fragment, they may be put in
another order.  Resolving succeeds for both documents or for neither, and then the fields are the
same but for their order and the order of their guards, and the same variables are used. -/
theorem FieldSet.resolve_of_reordered {definitions definitions' : Table Fragment}
    {selections selections' : List Selection} (addTypename : Bool)
    (fragments : ∀ name, Option.Rel Fragment.Reordered (definitions.get? name)
      (definitions'.get? name)) (reordered : Selections.Reordered selections selections') :
    SameOutcome Resolved.Reordered (FieldSet.resolve addTypename definitions selections)
      (FieldSet.resolve addTypename definitions' selections') := by
  have read := Shapes.alike_ofDocument addTypename fragments reordered
  have first := FieldSet.paired_resolve addTypename definitions selections
  have second := FieldSet.paired_resolve addTypename definitions' selections'
  generalize Shapes.ofDocument addTypename definitions selections = x at read first
  generalize Shapes.ofDocument addTypename definitions' selections' = y at read second
  generalize FieldSet.resolve addTypename definitions selections = a at first ⊢
  generalize FieldSet.resolve addTypename definitions' selections' = b at second ⊢
  cases read with
  | error problem problem' =>
    cases first
    cases second
    exact .error problem problem'
  | ok alike =>
    cases first with
    | ok same =>
      cases second with
      | ok same' =>
        refine .ok ⟨?_, fun name => ?_⟩
        · rw [same.1, same'.1]
          exact alike.shapes.reordered
        · rw [same.2, same'.2]
          exact alike.names name

/-- A spread goes after a field, and the fields of the fragment change places. -/
theorem FieldSet.resolve_of_moved_spread :
    let name : Selection := .field none "name" [] [] []
    let id : Selection := .field none "id" [] [] []
    let wanted : Directive := ⟨"include", [("if", .variable "wanted")]⟩
    let before := Table.empty.insert "Part" (Fragment.mk "Part" [] [id, name])
    let after := Table.empty.insert "Part" (Fragment.mk "Part" [] [name, id])
    ∃ resolved resolved',
      FieldSet.resolve true before
          [.field none "user" [] [] [.spread "Part" [wanted], name]] = .ok resolved ∧
        FieldSet.resolve true after
          [.field none "user" [] [] [name, .spread "Part" [wanted]]] = .ok resolved' ∧
        resolved.Reordered resolved' := by
  intro name id wanted before after
  have fragments (label : String) :
      Option.Rel Fragment.Reordered (before.get? label) (after.get? label) := by
    rw [Table.get?_insert, Table.get?_insert]
    split
    · exact .some ⟨rfl, rfl, .swap id name []⟩
    · exact .none
  have moved := FieldSet.resolve_of_reordered true fragments
    (.cons (.field none "user" [] [] (.swap (.spread "Part" [wanted]) name [])) .nil)
  have succeeds : (FieldSet.resolve true before
      [.field none "user" [] [] [.spread "Part" [wanted], name]]).toBool := by decide +kernel
  revert succeeds
  generalize FieldSet.resolve true before _ = x at moved ⊢
  generalize FieldSet.resolve true after _ = y at moved ⊢
  intro succeeds
  cases moved with
  | error => cases succeeds
  | ok both => exact ⟨_, _, rfl, rfl, both⟩

end ResponseGraph
