import ResponseGraph.Field.Combine

/-!
Fields of a document.

`FieldSet.resolve` turns the selections of an operation into fields.  Fragments
are resolved where they are first spread, and every further spread of a fragment
takes the same fields.  A fragment that is spread within itself is an error that
names the open fragments.

Selections are resolved by recursion on the selections themselves.  What a spread
stands for is a parameter of that recursion, and `spreadWith` supplies it by
recursion on the number of fragments that may still be opened.
-/

namespace ResponseGraph

/-- What resolving has found so far. -/
structure Resolution where
  nextLabel : Nat
  /-- Variables in the order of their first use. -/
  used : List String
  /-- Fragments that have been resolved. -/
  fragments : Table FieldSet

abbrev Resolving (α : Type) := StateT Resolution (Except DocumentError) α

namespace Resolving

/-- Takes labels from the counter of the resolution. -/
def labelling {α : Type} (action : Labelling DocumentError α) : Resolving α := fun state =>
  (action state.nextLabel).map fun (value, next) => (value, { state with nextLabel := next })

/-- Appends the names that are not yet among those used. -/
def record (used names : List String) : List String :=
  names.foldl (fun acc name => if acc.contains name then acc else acc ++ [name]) used

def use (names : List String) : Resolving Unit :=
  modify fun state => { state with used := record state.used names }

/-- Further spreads of the fragment take these fields. -/
def keep (name : String) (set : FieldSet) : Resolving Unit :=
  modify fun state => { state with fragments := state.fragments.insert name set }

end Resolving

/-- The environment of a selection set. -/
structure Surroundings where
  /-- Whether the sub-selection of every field gets a field `__typename`. -/
  addTypename : Bool
  /-- The fields of a fragment that is spread at a path of response names. -/
  spread : List String → String → Resolving FieldSet

def isStatic (directives : List Directive) : Bool :=
  directives.any fun directive => directive.name = "static"

/-- The head of a field.  A field marked `@static` is stored as if it had neither
arguments nor an alias. -/
def FieldHead.ofSelection (aliasName : Option String) (name : String)
    (arguments : List (String × Literal)) (directives : List Directive) : FieldHead :=
  let guards := (Guard.ofDirectives? directives).toList
  if isStatic directives then ⟨none, none, guards, false⟩
  else
    { schemaName := if responseName aliasName name = name then none else some name
      arguments :=
        if arguments.isEmpty then none
        else some (Arguments.ofList (arguments.map fun entry => (entry.1, entry.2.toArgument)))
      guards
      excluded := false }

/-- The sub-selection of a field.  One without fields is none at all. -/
def FieldSet.below? (addTypename : Bool) (fields : Fields) :
    Labelling DocumentError (Option FieldSet) :=
  if fields.isEmpty then return none
  else if addTypename && (Entries.get? "__typename" fields).isNone then do
    let typename := Field.plainLeaf (← newLabel)
    return some ⟨← newLabel, Entries.put "__typename" typename fields⟩
  else return some ⟨← newLabel, fields⟩

/-- Puts the fields of a fragment under the guard of the fragment. -/
def Fields.within (guard : Option Guard) (fields : Fields) : Labelling DocumentError Fields :=
  match guard with
  | none => return fields
  | some guard => fields.mapM fun (name, field) => do
    return (name, field.within guard (← newLabel))

mutual
def Fields.resolve (around : Surroundings) (path : List String) (into : Fields) :
    List Selection → Resolving Fields
  | [] => return into
  | selection :: rest => do
    let into ← Fields.resolveOne around path into selection
    Fields.resolve around path into rest
termination_by structural selections => selections

def Fields.resolveOne (around : Surroundings) (path : List String) (into : Fields) :
    Selection → Resolving Fields
  | .field aliasName name arguments directives selections => do
    Resolving.use (Directive.variableNames directives)
    Resolving.use (arguments.flatMap fun entry => entry.2.variableNames)
    let response := responseName aliasName name
    let fields ← Fields.resolve around (path ++ [response]) [] selections
    Resolving.labelling do
      let below ← FieldSet.below? around.addTypename fields
      let field :=
        Field.of (← newLabel) (.ofSelection aliasName name arguments directives) below
      Fields.combine path into [(response, field)]
  | .spread fragment directives => do
    Resolving.use (Directive.variableNames directives)
    let set ← around.spread path fragment
    Resolving.labelling do
      let fields ← Fields.within (Guard.ofDirectives? directives) set.fields
      Fields.combine path into fields
  | .inline directives selections => do
    Resolving.use (Directive.variableNames directives)
    let fields ← Fields.resolve around path [] selections
    Resolving.labelling do
      let fields ← Fields.within (Guard.ofDirectives? directives) fields
      Fields.combine path into fields
termination_by structural selection => selection
end

/-- The fields of a fragment, resolved now unless they were before.  `opened`
holds the fragments around the spread, each of which is defined, so `depth` counts
the definitions that are not open. -/
def spreadWith (addTypename : Bool) (definitions : Table Fragment) :
    (depth : Nat) → (opened : List String) → List String → String → Resolving FieldSet
  | depth, opened, path, name => do
    match (← get).fragments.get? name with
    | some set => return set
    | none =>
      if opened.contains name then throw (.fragmentCycle (opened ++ [name]))
      else
        match depth, definitions.get? name with
        | depth + 1, some fragment =>
          Resolving.use (Directive.variableNames fragment.directives)
          let spread := spreadWith addTypename definitions depth (opened ++ [name])
          let fields ← Fields.resolve ⟨addTypename, spread⟩ path [] fragment.selections
          let set : FieldSet := ⟨← Resolving.labelling newLabel, fields⟩
          Resolving.keep name set
          return set
        | _, _ => throw (.unknownFragment name)

/-- The fields of an operation or a fragment document. -/
structure Resolved where
  root : FieldSet
  /-- Variables in the order of their first use. -/
  used : List String
  /-- A label above all labels of the fields. -/
  nextLabel : Nat

def FieldSet.resolve (addTypename : Bool) (definitions : Table Fragment)
    (selections : List Selection) : Except DocumentError Resolved := do
  let around := ⟨addTypename, spreadWith addTypename definitions definitions.size []⟩
  let (fields, state) ← Fields.resolve around [] [] selections ⟨0, [], Table.empty⟩
  if fields.isEmpty then throw .noFields
  return ⟨⟨state.nextLabel, fields⟩, state.used, state.nextLabel + 1⟩

end ResponseGraph
