import ResponseGraph.Proofs.Field.Shapes

/-!
Reading a document again and again.

The plain way to resolve selections reads the definition of a fragment at every spread of it, and
keeps nothing but the list of fragments that are open around a spread.  It goes from the outside
to the inside, so it comes to an end: whenever a fragment is opened there is one less that can
still be opened.

The names of variables are listed as they are met, with repetitions.
-/

namespace ResponseGraph

namespace Shapes

/-- Shapes, and the variables that were met on the way. -/
abbrev Read := Except DocumentError (Shapes × List String)

/-- What a fragment stands for where it is spread. -/
structure Around where
  addTypename : Bool
  spread : List String → String → Read

mutual
/-- The shapes of one selection. -/
def ofSelection (around : Around) (path : List String) : Selection → Read
  | .field aliasName name arguments directives selections => do
    let response := responseName aliasName name
    let (shapes, names) ← ofSelections around (path ++ [response]) [] selections
    let shape := Shape.of (.ofSelection aliasName name arguments directives)
      (below? around.addTypename shapes)
    return ([(response, shape)], Directive.variableNames directives ++
      arguments.flatMap (fun entry => entry.2.variableNames) ++ names)
  | .spread fragment directives => do
    let (shapes, names) ← around.spread path fragment
    return (within (Guard.ofDirectives? directives) shapes,
      Directive.variableNames directives ++ names)
  | .inline directives selections => do
    let (shapes, names) ← ofSelections around path [] selections
    return (within (Guard.ofDirectives? directives) shapes,
      Directive.variableNames directives ++ names)
termination_by structural selection => selection

def ofSelections (around : Around) (path : List String) (into : Shapes) : List Selection → Read
  | [] => return (into, [])
  | selection :: rest => do
    let (incoming, first) ← ofSelection around path selection
    let merged ← combine path into incoming
    let (shapes, more) ← ofSelections around path merged rest
    return (shapes, first ++ more)
termination_by structural selections => selections
end

/-! ## Steps -/

/-- Reads more after the shapes. -/
def Read.andThen (first : Read) (second : Shapes → Read) : Read := do
  let (shapes, names) ← first
  let (more, others) ← second shapes
  return (more, names ++ others)

/-- Makes something of the shapes that are read, after the names. -/
def Read.make (names : List String) (make : Shapes → Except DocumentError Shapes) (read : Read) :
    Read := do
  let (shapes, met) ← read
  return (← make shapes, names ++ met)

/-- Reads more shapes and adds them to others. -/
def add (around : Around) (path : List String) (into : Shapes) (selection : Selection) : Read :=
  (ofSelection around path selection).make [] (combine path into)

theorem Read.make_make (names : List String) (first second : Shapes → Except DocumentError Shapes)
    (read : Read) : (read.make names first).make [] second =
      read.make names fun shapes => first shapes >>= second := by
  unfold Read.make
  simp only [bind_assoc, pure_bind, List.nil_append]

section Steps

variable {around : Around} {path : List String} {into : Shapes} {directives : List Directive}
  {selections : List Selection}

theorem ofSelection_field {aliasName : Option String} {name : String}
    {arguments : List (String × Literal)} :
    ofSelection around path (.field aliasName name arguments directives selections) =
      (ofSelections around (path ++ [responseName aliasName name]) [] selections).make
        (Directive.variableNames directives ++
          arguments.flatMap fun entry => entry.2.variableNames)
        fun shapes => .ok [(responseName aliasName name,
          .of (.ofSelection aliasName name arguments directives)
            (below? around.addTypename shapes))] := by
  rw [ofSelection]
  rfl

theorem ofSelection_spread {fragment : String} :
    ofSelection around path (.spread fragment directives) =
      (around.spread path fragment).make (Directive.variableNames directives)
        fun shapes => .ok (within (Guard.ofDirectives? directives) shapes) := by
  rw [ofSelection]
  rfl

theorem ofSelection_inline :
    ofSelection around path (.inline directives selections) =
      (ofSelections around path [] selections).make (Directive.variableNames directives)
        fun shapes => .ok (within (Guard.ofDirectives? directives) shapes) := by
  rw [ofSelection]
  rfl

theorem add_field {aliasName : Option String} {name : String}
    {arguments : List (String × Literal)} :
    add around path into (.field aliasName name arguments directives selections) =
      (ofSelections around (path ++ [responseName aliasName name]) [] selections).make
        (Directive.variableNames directives ++
          arguments.flatMap fun entry => entry.2.variableNames)
        fun shapes => combine path into [(responseName aliasName name,
          .of (.ofSelection aliasName name arguments directives)
            (below? around.addTypename shapes))] := by
  rw [add, ofSelection_field, Read.make_make]
  rfl

theorem add_spread {fragment : String} :
    add around path into (.spread fragment directives) =
      (around.spread path fragment).make (Directive.variableNames directives)
        fun shapes => combine path into (within (Guard.ofDirectives? directives) shapes) := by
  rw [add, ofSelection_spread, Read.make_make]
  rfl

theorem add_inline :
    add around path into (.inline directives selections) =
      (ofSelections around path [] selections).make (Directive.variableNames directives)
        fun shapes => combine path into (within (Guard.ofDirectives? directives) shapes) := by
  rw [add, ofSelection_inline, Read.make_make]
  rfl

end Steps

theorem ofSelections_cons (around : Around) (path : List String) (into : Shapes)
    (selection : Selection) (rest : List Selection) :
    ofSelections around path into (selection :: rest) =
      (add around path into selection).andThen fun merged =>
        ofSelections around path merged rest := by
  rw [ofSelections, add]
  simp only [Read.make, Read.andThen, bind_assoc, pure_bind, List.nil_append]

/-! ## Fragments and documents -/

/-- The fragments that are not open. -/
def unopened (definitions : Table Fragment) (opened : List String) : List String :=
  definitions.keys.filter fun name => !opened.contains name

theorem length_unopened_lt {definitions : Table Fragment} {opened : List String} {name : String}
    {fragment : Fragment} (closed : ¬ opened.contains name)
    (defined : definitions.get? name = some fragment) :
    (unopened definitions (opened ++ [name])).length < (unopened definitions opened).length := by
  have member : name ∈ unopened definitions opened := by
    refine List.mem_filter.mpr ⟨Table.mem_keys_iff.mpr ?_, by simpa using closed⟩
    rw [Table.contains, defined]
    rfl
  have fewer : unopened definitions (opened ++ [name]) =
      (unopened definitions opened).filter fun other => other != name := by
    unfold unopened
    rw [List.filter_filter]
    congr 1
    funext other
    by_cases same : other = name <;> simp [same]
  rw [fewer]
  exact List.length_filter_lt_length_iff_exists.mpr ⟨name, member, by simp⟩

/-- The shapes of a fragment, read where it is spread. -/
def ofSpread (addTypename : Bool) (definitions : Table Fragment) (opened : List String)
    (path : List String) (name : String) : Read :=
  if _ : opened.contains name then .error (.fragmentCycle (opened ++ [name]))
  else
    match _ : definitions.get? name with
    | none => .error (.unknownFragment name)
    | some fragment => do
      let spread := fun path other => ofSpread addTypename definitions (opened ++ [name]) path other
      let (shapes, names) ← ofSelections ⟨addTypename, spread⟩ path [] fragment.selections
      return (shapes, Directive.variableNames fragment.directives ++ names)
termination_by (unopened definitions opened).length
decreasing_by exact length_unopened_lt ‹_› ‹_›

theorem ofSpread_of_get?_none {addTypename : Bool} {definitions : Table Fragment}
    {opened path : List String} {name : String} (closed : ¬ opened.contains name)
    (undefined : definitions.get? name = none) :
    ofSpread addTypename definitions opened path name = .error (.unknownFragment name) := by
  rw [ofSpread, dif_neg closed]
  split
  · rfl
  · next fragment defined =>
    rw [defined] at undefined
    cases undefined

theorem ofSpread_of_get? {addTypename : Bool} {definitions : Table Fragment}
    {opened : List String} {name : String} {fragment : Fragment} (closed : name ∉ opened)
    (defined : definitions.get? name = some fragment) (path : List String) :
    ofSpread addTypename definitions opened path name =
      (ofSelections ⟨addTypename, ofSpread addTypename definitions (opened ++ [name])⟩ path []
        fragment.selections).make (Directive.variableNames fragment.directives) .ok := by
  rw [ofSpread, dif_neg (by simpa using closed)]
  split
  · next undefined =>
    rw [defined] at undefined
    cases undefined
  · next found defined' =>
    rw [defined] at defined'
    cases defined'
    rfl

/-- The shapes of a document, and its variables in the order of their first use. -/
def ofDocument (addTypename : Bool) (definitions : Table Fragment) (selections : List Selection) :
    Read := do
  let around := ⟨addTypename, ofSpread addTypename definitions []⟩
  let (shapes, names) ← ofSelections around [] [] selections
  if shapes.isEmpty then .error .noFields
  return (shapes, Resolving.record [] names)

/-! ## What is read is exact -/

/-- Every fragment that is spread has exact shapes. -/
def Around.Exact (around : Around) : Prop :=
  ∀ path name shapes names, around.spread path name = .ok (shapes, names) → shapes.Exact

variable {around : Around}

mutual
theorem exact_ofSelection (exact : around.Exact) : (selection : Selection) →
    {path : List String} → {shapes : Shapes} → {names : List String} →
    ofSelection around path selection = .ok (shapes, names) → shapes.Exact
  | .field aliasName name arguments directives selections, path, _, _, h => by
    rw [ofSelection] at h
    obtain ⟨⟨shapes, names⟩, below, h⟩ := exists_of_bind_eq_ok h
    cases h
    have inner := exact_ofSelections exact selections .nil below
    exact .singleton (.of (FieldHead.exact_ofSelection ..) fun fields found => inner.below found)
  | .spread fragment directives, path, _, _, h => by
    rw [ofSelection] at h
    obtain ⟨⟨shapes, names⟩, found, h⟩ := exists_of_bind_eq_ok h
    cases h
    exact (exact path fragment shapes names found).within _
  | .inline directives selections, path, _, _, h => by
    rw [ofSelection] at h
    obtain ⟨⟨shapes, names⟩, found, h⟩ := exists_of_bind_eq_ok h
    cases h
    exact (exact_ofSelections exact selections .nil found).within _

theorem exact_ofSelections (exact : around.Exact) : (selections : List Selection) →
    {path : List String} → {into shapes : Shapes} → {names : List String} → into.Exact →
    ofSelections around path into selections = .ok (shapes, names) → shapes.Exact
  | [], _, _, _, _, start, h => by
    cases h
    exact start
  | selection :: rest, path, into, _, _, start, h => by
    rw [ofSelections] at h
    obtain ⟨⟨incoming, first⟩, found, h⟩ := exists_of_bind_eq_ok h
    obtain ⟨merged, combined, h⟩ := exists_of_bind_eq_ok h
    obtain ⟨⟨shapes, more⟩, later, h⟩ := exists_of_bind_eq_ok h
    cases h
    have here := exact_ofSelection exact selection found
    exact exact_ofSelections exact rest (start.combine incoming here combined).1 later
end

theorem exact_add {path : List String} {into : Shapes} {selection : Selection}
    {shapes : Shapes} {names : List String} (exact : around.Exact) (start : into.Exact)
    (h : add around path into selection = .ok (shapes, names)) : shapes.Exact := by
  obtain ⟨⟨incoming, first⟩, found, h⟩ := exists_of_bind_eq_ok h
  obtain ⟨merged, combined, h⟩ := exists_of_bind_eq_ok h
  cases h
  exact (start.combine incoming (exact_ofSelection exact selection found) combined).1

theorem exact_ofSpread (addTypename : Bool) (definitions : Table Fragment) (opened : List String) :
    Around.Exact ⟨addTypename, ofSpread addTypename definitions opened⟩ := by
  induction opened using (measure fun opened => (unopened definitions opened).length).wf.induction
  next opened ih =>
    intro path name shapes names h
    dsimp only at h
    rw [ofSpread] at h
    split at h
    · cases h
    · next closed =>
      split at h
      · cases h
      · next fragment defined =>
        obtain ⟨⟨below, met⟩, found, h⟩ := exists_of_bind_eq_ok h
        cases h
        exact exact_ofSelections (ih _ (length_unopened_lt closed defined)) _ .nil found

end Shapes
end ResponseGraph
