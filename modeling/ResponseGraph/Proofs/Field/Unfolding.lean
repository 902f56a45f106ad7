import ResponseGraph.Proofs.Field.Shared

/-!
Fragments within fragments.

Selections unfold if every spread in them opens a fragment that is defined and is not open
around the spread already, and if the selections of that fragment unfold in turn.  This is the
case exactly if each fragment they reach is defined and none of them reaches itself.

How many fragments may be opened inside each other is bounded where spreads are resolved.  The
bound is never reached, whatever the definitions are: what a spread gives is the same under every
bound that is large enough for the fragments that are not open.
-/

namespace ResponseGraph
namespace Selection

/-- Selections are reached from the inside, list by list. -/
@[elab_as_elim]
theorem induction {motive : Selection → Prop}
    (field : ∀ aliasName name arguments directives selections,
      (∀ inner ∈ selections, motive inner) →
        motive (.field aliasName name arguments directives selections))
    (spread : ∀ fragment directives, motive (.spread fragment directives))
    (inline : ∀ directives selections, (∀ inner ∈ selections, motive inner) →
      motive (.inline directives selections)) :
    (selection : Selection) → motive selection
  | .field aliasName name arguments directives selections =>
    field aliasName name arguments directives selections fun inner _ =>
      induction field spread inline inner
  | .spread fragment directives => spread fragment directives
  | .inline directives selections =>
    inline directives selections fun inner _ => induction field spread inline inner

/-- A fragment is spread in the selection, or in a fragment that it reaches. -/
inductive Reaches (definitions : Table Fragment) : Selection → String → Prop
  | spread (name : String) (directives : List Directive) :
    Reaches definitions (.spread name directives) name
  | within {name other : String} {directives : List Directive} {fragment : Fragment}
    {inner : Selection} (defined : definitions.get? other = some fragment)
    (member : inner ∈ fragment.selections) (reaches : Reaches definitions inner name) :
    Reaches definitions (.spread other directives) name
  | field {aliasName : Option String} {label name : String} {arguments : List (String × Literal)}
    {directives : List Directive} {selections : List Selection} {inner : Selection}
    (member : inner ∈ selections) (reaches : Reaches definitions inner name) :
    Reaches definitions (.field aliasName label arguments directives selections) name
  | inline {name : String} {directives : List Directive} {selections : List Selection}
    {inner : Selection} (member : inner ∈ selections) (reaches : Reaches definitions inner name) :
    Reaches definitions (.inline directives selections) name

/-- Every spread opens a fragment that is defined and not open, and that unfolds in turn. -/
inductive Unfolds (definitions : Table Fragment) : List String → Selection → Prop
  | field {opened : List String} (aliasName : Option String) (name : String)
    (arguments : List (String × Literal)) (directives : List Directive)
    {selections : List Selection}
    (below : ∀ inner ∈ selections, Unfolds definitions opened inner) :
    Unfolds definitions opened (.field aliasName name arguments directives selections)
  | spread {opened : List String} {name : String} (directives : List Directive)
    {fragment : Fragment} (closed : name ∉ opened)
    (defined : definitions.get? name = some fragment)
    (below : ∀ inner ∈ fragment.selections, Unfolds definitions (opened ++ [name]) inner) :
    Unfolds definitions opened (.spread name directives)
  | inline {opened : List String} (directives : List Directive) {selections : List Selection}
    (below : ∀ inner ∈ selections, Unfolds definitions opened inner) :
    Unfolds definitions opened (.inline directives selections)

variable {definitions : Table Fragment} {opened : List String} {selection : Selection}
  {name : String} {fragment : Fragment}

namespace Unfolds

/-- No fragment that is open is reached. -/
theorem not_reaches (unfolds : selection.Unfolds definitions opened) (member : name ∈ opened) :
    ¬ selection.Reaches definitions name := by
  intro reaches
  induction reaches generalizing opened with
  | spread name directives =>
    cases unfolds with
    | spread _ closed => exact closed member
  | within defined inside _ ih =>
    cases unfolds with
    | spread _ _ defined' below =>
      rw [defined] at defined'
      cases defined'
      exact ih (below _ inside) (List.mem_append_left _ member)
  | field inside _ ih =>
    cases unfolds with
    | field _ _ _ _ below => exact ih (below _ inside) member
  | inline inside _ ih =>
    cases unfolds with
    | inline _ below => exact ih (below _ inside) member

/-- Every fragment that is reached is opened somewhere. -/
theorem exists_opened (unfolds : selection.Unfolds definitions opened)
    (reaches : selection.Reaches definitions name) :
    ∃ fragment around, definitions.get? name = some fragment ∧
      ∀ inner ∈ fragment.selections, inner.Unfolds definitions (around ++ [name]) := by
  induction reaches generalizing opened with
  | spread name directives =>
    cases unfolds with
    | spread _ _ defined below => exact ⟨_, _, defined, below⟩
  | within defined inside _ ih =>
    cases unfolds with
    | spread _ _ defined' below =>
      rw [defined] at defined'
      cases defined'
      exact ih (below _ inside)
  | field inside _ ih =>
    cases unfolds with
    | field _ _ _ _ below => exact ih (below _ inside)
  | inline inside _ ih =>
    cases unfolds with
    | inline _ below => exact ih (below _ inside)

end Unfolds

/-- The fragments that a selection reaches are defined, and none of them reaches itself. -/
structure Grounded (definitions : Table Fragment) (selection : Selection) : Prop where
  defined : ∀ name, selection.Reaches definitions name → definitions.contains name
  acyclic : ∀ name fragment, selection.Reaches definitions name →
    definitions.get? name = some fragment →
    ∀ inner ∈ fragment.selections, ¬ inner.Reaches definitions name

theorem Grounded.inner {inner : Selection} (grounded : selection.Grounded definitions)
    (below : ∀ name, inner.Reaches definitions name → selection.Reaches definitions name) :
    inner.Grounded definitions :=
  ⟨fun name reaches => grounded.defined name (below name reaches),
    fun name fragment reaches => grounded.acyclic name fragment (below name reaches)⟩

/-- What is grounded unfolds, as long as it reaches no fragment that is open. -/
theorem Grounded.unfolds (grounded : selection.Grounded definitions)
    (fresh : ∀ name ∈ opened, ¬ selection.Reaches definitions name) :
    selection.Unfolds definitions opened := by
  -- Each fragment that is opened leaves one less to open.
  induction opened using
    (measure fun opened => (Shapes.unopened definitions opened).length).wf.induction
    generalizing selection
  next opened ih =>
    induction selection using induction with
    | field aliasName name arguments directives selections below =>
      exact .field aliasName name arguments directives fun inner member =>
        below inner member (grounded.inner fun _ => .field member)
          fun name open_ reaches => fresh name open_ (.field member reaches)
    | inline directives selections below =>
      exact .inline directives fun inner member =>
        below inner member (grounded.inner fun _ => .inline member)
          fun name open_ reaches => fresh name open_ (.inline member reaches)
    | spread name directives =>
      obtain ⟨fragment, defined⟩ := Option.isSome_iff_exists.mp
        (grounded.defined name (.spread name directives))
      have closed : name ∉ opened := fun open_ => fresh name open_ (.spread name directives)
      have fewer := Shapes.length_unopened_lt (by simpa using closed) defined
      refine .spread directives closed defined fun inner member => ?_
      refine ih _ fewer (grounded.inner fun _ => .within defined member) fun other open_ => ?_
      rcases List.mem_append.mp open_ with before | here
      · exact fun reaches => fresh other before (.within defined member reaches)
      · rw [List.mem_singleton.mp here]
        exact grounded.acyclic name fragment (.spread name directives) defined inner member

theorem unfolds_iff_grounded :
    selection.Unfolds definitions [] ↔ selection.Grounded definitions := by
  constructor
  · intro unfolds
    refine ⟨fun name reaches => ?_, fun name fragment reaches defined inner member => ?_⟩
    · obtain ⟨fragment, -, defined, -⟩ := unfolds.exists_opened reaches
      exact Option.isSome_of_eq_some defined
    · obtain ⟨found, around, defined', below⟩ := unfolds.exists_opened reaches
      rw [defined] at defined'
      cases defined'
      exact (below inner member).not_reaches
        (List.mem_append_right _ (List.mem_singleton_self name))
  · exact fun grounded => grounded.unfolds fun name member => absurd member List.not_mem_nil

end Selection

namespace Resolving

variable {addTypename : Bool} {definitions : Table Fragment} {depth more : Nat}
  {opened : List String}

/-- A spread gives the same under two bounds if what is spread within its fragment does. -/
theorem spreadWith_congr
    (inner : ∀ name fragment, ¬ opened.contains name → definitions.get? name = some fragment →
      ∃ rest rest', depth = rest + 1 ∧ more = rest' + 1 ∧
        spreadWith addTypename definitions rest (opened ++ [name]) =
          spreadWith addTypename definitions rest' (opened ++ [name])) :
    spreadWith addTypename definitions depth opened =
      spreadWith addTypename definitions more opened := by
  funext path name state
  cases present : state.fragments.get? name with
  | some set => rw [spreadWith_of_get? present, spreadWith_of_get? present]
  | none =>
    rw [spreadWith_of_absent present, spreadWith_of_absent present]
    by_cases cyclic : opened.contains name
    · rw [if_pos cyclic, if_pos cyclic]
    · rw [if_neg cyclic, if_neg cyclic]
      cases defined : definitions.get? name with
      | none => cases depth <;> cases more <;> rfl
      | some fragment =>
        obtain ⟨rest, rest', rfl, rfl, same⟩ := inner name fragment cyclic defined
        dsimp only
        rw [same]

/-- Bounds that are large enough for the fragments that are not open are never reached. -/
theorem spreadWith_eq (room : (Shapes.unopened definitions opened).length ≤ depth)
    (room' : (Shapes.unopened definitions opened).length ≤ more) :
    spreadWith addTypename definitions depth opened =
      spreadWith addTypename definitions more opened := by
  induction depth generalizing more opened with
  | zero =>
    refine spreadWith_congr fun name fragment closed defined => ?_
    have fewer := Shapes.length_unopened_lt closed defined
    omega
  | succ depth ih =>
    refine spreadWith_congr fun name fragment closed defined => ?_
    have fewer := Shapes.length_unopened_lt closed defined
    exact ⟨depth, more - 1, rfl, by omega, ih (by omega) (by omega)⟩

end Resolving
end ResponseGraph
