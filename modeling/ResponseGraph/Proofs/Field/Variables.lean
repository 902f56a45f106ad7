import ResponseGraph.Proofs.Argument.Variables
import ResponseGraph.Proofs.Field.Prepared
import ResponseGraph.Proofs.Field.Shared

/-!
The variables of resolved fields.

A variable gets into a field from its arguments, from its directives, or from the directives of
what is around it, and every one of these is listed when it is met.  Merging fields keeps the
arguments of one of them and the guards of both.  So the variables of the fields of a plan are
among those that the plan lists as used (`Plan.draws_on_used`).
-/

namespace ResponseGraph

/-! ## Properties of all heads -/

mutual
/-- The property holds of the head of a shape and of all heads below. -/
def Shape.All (holds : FieldHead → Prop) : Shape → Prop
  | .leaf head => holds head
  | .composite head _ fields => holds head ∧ Shapes.All holds fields
termination_by structural shape => shape

def Shapes.All (holds : FieldHead → Prop) : Shapes → Prop
  | [] => True
  | (_, shape) :: rest => shape.All holds ∧ Shapes.All holds rest
termination_by structural shapes => shapes
end

/-- The property holds of the heads of the fields at any depth, excluded ones among them. -/
def Fields.All (holds : FieldHead → Prop) (fields : Fields) : Prop :=
  Shapes.All holds (Fields.shapes fields)

section

variable {holds : FieldHead → Prop} {name : String} {shape : Shape} {shapes : Shapes}

theorem Shape.All.head (all : shape.All holds) : holds shape.head := by
  cases shape with
  | leaf => exact all
  | composite => exact all.1

theorem Shape.All.fields (all : shape.All holds) {fields : Shapes}
    (found : shape.fields? = some fields) : Shapes.All holds fields := by
  cases shape with
  | leaf => cases found
  | composite =>
    cases found
    exact all.2

theorem Shape.all_of {head : FieldHead} (here : holds head) {below : Option Shapes}
    (all : ∀ fields, below = some fields → Shapes.All holds fields) :
    (Shape.of head below).All holds := by
  cases below with
  | none => exact here
  | some fields => exact ⟨here, all fields rfl⟩

namespace Shapes.All

theorem nil : Shapes.All holds [] := trivial

theorem of_get? (all : Shapes.All holds shapes) (found : Entries.get? name shapes = some shape) :
    shape.All holds := by
  induction shapes with
  | nil => cases found
  | cons entry rest ih =>
    obtain ⟨key, other⟩ := entry
    rw [Entries.get?_cons] at found
    split at found
    · cases found
      exact all.1
    · exact ih all.2 found

theorem put (all : Shapes.All holds shapes) (new : shape.All holds) :
    Shapes.All holds (Entries.put name shape shapes) := by
  induction shapes with
  | nil => exact ⟨new, trivial⟩
  | cons entry rest ih =>
    obtain ⟨key, other⟩ := entry
    unfold Entries.put
    split
    · exact ⟨new, all.2⟩
    · exact ⟨all.1, ih all.2⟩

/-- What all heads have is kept under a guard if one head keeps it. -/
theorem within {guard : Guard}
    (keeps : ∀ head, holds head → holds { head with guards := Guard.within guard head.guards })
    (all : Shapes.All holds shapes) : Shapes.All holds (Shapes.within (some guard) shapes) := by
  induction shapes with
  | nil => trivial
  | cons entry rest ih =>
    obtain ⟨key, other⟩ := entry
    refine ⟨?_, ih all.2⟩
    cases other with
    | leaf head => exact keeps head all.1
    | composite head traits fields => exact ⟨keeps head all.1.1, all.1.2⟩

theorem below (plain : holds ⟨none, none, [], false⟩) (all : Shapes.All holds shapes)
    {addTypename : Bool} {fields : Shapes}
    (found : Shapes.below? addTypename shapes = some fields) : Shapes.All holds fields := by
  unfold Shapes.below? at found
  split at found
  · cases found
  · split at found
    · cases found
      exact all.put plain
    · cases found
      exact all

end Shapes.All

mutual
/-- What all heads have is kept by merging if merging two heads keeps it. -/
theorem Shape.All.combine
    (keeps : ∀ path a b head, holds a → holds b → FieldHead.combine path a b = .ok head →
      holds head) {path : List String} {existing : Shape} (all : existing.All holds) :
    (incoming : Shape) → incoming.All holds → {merged : Shape} →
    Shape.combine path existing incoming = .ok merged → merged.All holds
  | .leaf head, incoming, merged, h => by
    obtain ⟨joined, combined, h⟩ := exists_of_bind_eq_ok h
    cases h
    exact Shape.all_of (keeps _ _ _ _ all.head incoming combined) fun fields found =>
      all.fields found
  | .composite head traits fields, incoming, merged, h => by
    rw [Shape.combine] at h
    obtain ⟨joined, combined, h⟩ := exists_of_bind_eq_ok h
    have here := keeps _ _ _ _ all.head incoming.1 combined
    split at h
    · cases h
      exact ⟨here, incoming.2⟩
    · next old found =>
      obtain ⟨both, inner, h⟩ := exists_of_bind_eq_ok h
      cases h
      have below := Shapes.All.combine keeps (all.fields found) fields incoming.2 inner
      exact ⟨here, below⟩

theorem Shapes.All.combine
    (keeps : ∀ path a b head, holds a → holds b → FieldHead.combine path a b = .ok head →
      holds head) {path : List String} {into : Shapes} (all : Shapes.All holds into) :
    (incoming : Shapes) → Shapes.All holds incoming → {merged : Shapes} →
    Shapes.combine path into incoming = .ok merged → Shapes.All holds merged
  | [], _, merged, h => by
    cases h
    exact all
  | (name, shape) :: rest, incoming, merged, h => by
    rw [Shapes.combine] at h
    obtain ⟨joined, first, h⟩ := exists_of_bind_eq_ok h
    have here : joined.All holds := by
      split at first
      · cases first
        exact incoming.1
      · next existing found =>
        exact Shape.All.combine keeps (all.of_get? found) shape incoming.1 first
    exact Shapes.All.combine keeps (all.put here) rest incoming.2 h
end

end

/-! ## The variables of heads -/

namespace Guard

/-- The variables of the conditions. -/
def variableNames (guard : Guard) : List String :=
  guard.flatMap fun condition => condition.value.variableNames

theorem mem_union {guard : Guard} {guards more : List Guard} (h : guard ∈ union guards more) :
    guard ∈ guards ∨ guard ∈ more := by
  have fold (acc : List Guard) (member : guard ∈ more.foldl (fun acc guard =>
      if acc.any (·.same guard) then acc else acc ++ [guard]) acc) :
    guard ∈ acc ∨ guard ∈ more := by
    clear h
    induction more generalizing acc with
    | nil => exact Or.inl member
    | cons first rest ih =>
      rcases ih _ member with old | later
      · dsimp only at old
        split at old
        · exact Or.inl old
        · rcases List.mem_append.mp old with old | new
          · exact Or.inl old
          · exact Or.inr (List.mem_singleton.mp new ▸ List.mem_cons_self)
      · exact Or.inr (List.mem_cons_of_mem _ later)
  unfold union at h
  split at h
  · cases h
  · exact fold guards h

theorem mem_within {guard outer : Guard} {guards : List Guard} (h : guard ∈ within outer guards) :
    guard = outer ∨ ∃ inner ∈ guards, guard = inner ++ outer := by
  unfold within at h
  split at h
  · exact Or.inl (List.mem_singleton.mp h)
  · obtain ⟨inner, member, rfl⟩ := List.mem_map.mp h
    exact Or.inr ⟨inner, member, rfl⟩

theorem variableNames_append (guard outer : Guard) :
    (guard ++ outer).variableNames = guard.variableNames ++ outer.variableNames :=
  List.flatMap_append

/-- The variables of a guard are variables of its directives. -/
theorem variableNames_of_ofDirectives? {directives : List Directive} {guard : Guard}
    (h : ofDirectives? directives = some guard) :
    guard.variableNames ⊆ Directive.variableNames directives := by
  have conditions : guard = directives.filterMap Directive.condition? := by
    unfold ofDirectives? at h
    cases listed : directives.filterMap Directive.condition? with
    | nil =>
      rw [listed] at h
      cases h
    | cons first rest =>
      rw [listed] at h
      cases h
      rfl
  intro name member
  obtain ⟨condition, listed, inside⟩ := List.mem_flatMap.mp member
  rw [conditions] at listed
  obtain ⟨directive, written, made⟩ := List.mem_filterMap.mp listed
  refine List.mem_flatMap.mpr ⟨directive, written, ?_⟩
  unfold Directive.condition? at made
  obtain ⟨⟨key, value⟩, last, made⟩ := Option.bind_eq_some_iff.mp made
  have argument : (key, value) ∈ directive.arguments :=
    (List.mem_filter.mp (List.mem_of_getLast? last)).1
  refine List.mem_flatMap.mpr ⟨(key, value), argument, Literal.variableNames_toArgument value ?_⟩
  dsimp only at made
  split at made
  · cases made
    exact inside
  · split at made
    · cases made
      exact inside
    · cases made

end Guard

/-- The variables of the arguments and of the guards are among the names. -/
structure FieldHead.DrawsOn (names : List String) (head : FieldHead) : Prop where
  arguments : ∀ arguments, head.arguments = some arguments → arguments.variableNames ⊆ names
  guards : ∀ guard ∈ head.guards, guard.variableNames ⊆ names

namespace FieldHead

variable {names : List String} {head : FieldHead}

theorem drawsOn_plain (names : List String) : DrawsOn names ⟨none, none, [], false⟩ :=
  ⟨fun _ given => (nomatch given), fun _ member => absurd member List.not_mem_nil⟩

theorem DrawsOn.combine {path : List String} {a b : FieldHead} (left : a.DrawsOn names)
    (right : b.DrawsOn names) (h : FieldHead.combine path a b = .ok head) : head.DrawsOn names := by
  unfold FieldHead.combine at h
  split at h
  · cases h
  · split at h
    · cases h
    · cases h
      exact ⟨left.arguments, fun guard member =>
        (Guard.mem_union member).elim (left.guards guard) (right.guards guard)⟩

theorem DrawsOn.within (draws : head.DrawsOn names) {guard : Guard}
    (outer : guard.variableNames ⊆ names) :
    DrawsOn names { head with guards := Guard.within guard head.guards } := by
  refine ⟨draws.arguments, fun other member => ?_⟩
  rcases Guard.mem_within member with rfl | ⟨inner, listed, rfl⟩
  · exact outer
  · rw [Guard.variableNames_append]
    exact List.append_subset.mpr ⟨draws.guards inner listed, outer⟩

theorem drawsOn_ofSelection (aliasName : Option String) (name : String)
    {arguments : List (String × Literal)} {directives : List Directive}
    (written : Directive.variableNames directives ⊆ names)
    (given : arguments.flatMap (fun entry => entry.2.variableNames) ⊆ names) :
    (FieldHead.ofSelection aliasName name arguments directives).DrawsOn names := by
  have guards : ∀ guard ∈ (Guard.ofDirectives? directives).toList, guard.variableNames ⊆ names :=
    fun guard member => List.Subset.trans
      (Guard.variableNames_of_ofDirectives? (Option.mem_toList.mp member)) written
  unfold ofSelection
  split
  · exact ⟨fun _ given => (nomatch given), guards⟩
  · refine ⟨fun found e => ?_, guards⟩
    dsimp only at e
    split at e
    · cases e
    · cases e
      refine List.Subset.trans (Argument.namesOfMembers_sort_subset _) fun other member => ?_
      obtain ⟨entry, listed, inside⟩ := Argument.mem_namesOfMembers.mp member
      obtain ⟨⟨key, literal⟩, argument, rfl⟩ := List.mem_map.mp listed
      exact given (List.mem_flatMap.mpr
        ⟨(key, literal), argument, Literal.variableNames_toArgument literal inside⟩)

end FieldHead

/-! ## The variables that are read -/

namespace Shapes

variable {names met : List String} {around : Around}

/-- What is read draws on the variables that are met, and so on any names among which they are. -/
def Read.Draws (names : List String) (read : Read) : Prop :=
  ∀ shapes met, read = .ok (shapes, met) → met ⊆ names → All (FieldHead.DrawsOn names) shapes

theorem Read.Draws.make {read : Read} (draws : read.Draws names)
    {make : Shapes → Except DocumentError Shapes}
    (makes : met ⊆ names → ∀ shapes made, All (FieldHead.DrawsOn names) shapes →
      make shapes = .ok made → All (FieldHead.DrawsOn names) made) :
    (read.make met make).Draws names := by
  intro shapes all h subset
  obtain ⟨⟨inner, others⟩, found, h⟩ := exists_of_bind_eq_ok h
  obtain ⟨made, done, h⟩ := exists_of_bind_eq_ok h
  cases h
  obtain ⟨here, below⟩ := List.append_subset.mp subset
  exact makes here inner _ (draws inner others found below) done

theorem draws_within {shapes : Shapes} {directives : List Directive}
    (all : All (FieldHead.DrawsOn names) shapes)
    (written : Directive.variableNames directives ⊆ names) :
    All (FieldHead.DrawsOn names) (within (Guard.ofDirectives? directives) shapes) := by
  cases given : Guard.ofDirectives? directives with
  | none => exact all
  | some guard =>
    have outer := List.Subset.trans (Guard.variableNames_of_ofDirectives? given) written
    exact all.within fun _ draws => draws.within outer

/-- Whatever is spread draws on the variables that are met within it. -/
def Around.Draw (names : List String) (around : Around) : Prop :=
  ∀ path name, (around.spread path name).Draws names

mutual
theorem draws_ofSelection (around_draws : around.Draw names) (path : List String) :
    (selection : Selection) → (ofSelection around path selection).Draws names
  | .field aliasName name arguments directives selections => by
    rw [ofSelection_field]
    refine (draws_ofSelections around_draws _ selections .nil).make ?_
    intro subset shapes made all h
    cases h
    obtain ⟨written, given⟩ := List.append_subset.mp subset
    refine ⟨Shape.all_of (FieldHead.drawsOn_ofSelection _ _ written given) ?_, trivial⟩
    exact fun fields found => all.below (FieldHead.drawsOn_plain names) found
  | .spread fragment directives => by
    rw [ofSelection_spread]
    refine (around_draws path fragment).make ?_
    intro written shapes made all h
    cases h
    exact draws_within all written
  | .inline directives selections => by
    rw [ofSelection_inline]
    refine (draws_ofSelections around_draws _ selections .nil).make ?_
    intro written shapes made all h
    cases h
    exact draws_within all written

theorem draws_ofSelections (around_draws : around.Draw names) (path : List String) :
    (selections : List Selection) → {into : Shapes} → All (FieldHead.DrawsOn names) into →
    (ofSelections around path into selections).Draws names
  | [], into, start => by
    intro shapes met h _
    cases h
    exact start
  | selection :: rest, into, start => by
    intro shapes met h subset
    rw [ofSelections] at h
    obtain ⟨⟨incoming, first⟩, found, h⟩ := exists_of_bind_eq_ok h
    obtain ⟨merged, combined, h⟩ := exists_of_bind_eq_ok h
    obtain ⟨⟨last, more⟩, later, h⟩ := exists_of_bind_eq_ok h
    cases h
    obtain ⟨here, others⟩ := List.append_subset.mp subset
    have new := draws_ofSelection around_draws path selection incoming first found here
    have both := start.combine (fun _ _ _ _ => FieldHead.DrawsOn.combine) incoming new combined
    exact draws_ofSelections around_draws path rest both _ _ later others
end

theorem draw_ofSpread (addTypename : Bool) (definitions : Table Fragment) (opened : List String) :
    Around.Draw names ⟨addTypename, ofSpread addTypename definitions opened⟩ := by
  induction opened using (measure fun opened => (unopened definitions opened).length).wf.induction
  next opened ih =>
    intro path name
    dsimp only
    by_cases closed : name ∈ opened
    · intro shapes met h
      rw [ofSpread, dif_pos (by simpa using closed)] at h
      cases h
    · cases defined : definitions.get? name with
      | none =>
        intro shapes met h
        rw [ofSpread_of_get?_none (by simpa using closed) defined] at h
        cases h
      | some fragment =>
        rw [ofSpread_of_get? closed defined]
        have fewer := length_unopened_lt (by simpa using closed) defined
        refine (draws_ofSelections (ih _ fewer) path fragment.selections .nil).make ?_
        intro _ shapes made all h
        cases h
        exact all

/-- The variables of the fields of a document are among those that are listed. -/
theorem draws_ofDocument {addTypename : Bool} {definitions : Table Fragment}
    {selections : List Selection} {shapes : Shapes}
    (h : ofDocument addTypename definitions selections = .ok (shapes, names)) :
    All (FieldHead.DrawsOn names) shapes := by
  obtain ⟨⟨read, met⟩, found, h⟩ := exists_of_bind_eq_ok h
  dsimp only at h
  split at h
  · cases h
  · cases h
    exact draws_ofSelections (draw_ofSpread _ _ _) [] selections .nil _ _ found
      fun name member => Resolving.mem_record.mpr (Or.inr member)

end Shapes

/-- The variables of resolved fields are among those that are used. -/
theorem FieldSet.draws_on_used {addTypename : Bool} {definitions : Table Fragment}
    {selections : List Selection} {resolved : Resolved}
    (h : FieldSet.resolve addTypename definitions selections = .ok resolved) :
    Fields.All (FieldHead.DrawsOn resolved.used) resolved.root.fields := by
  have same := FieldSet.paired_resolve addTypename definitions selections
  rw [h] at same
  generalize read : Shapes.ofDocument addTypename definitions selections = result at same
  cases same with
  | ok shown =>
    rw [shown.2, Fields.All, shown.1]
    exact Shapes.draws_ofDocument read

/-! ## Plans -/

/-- The variables of the fields of a plan are among those that it uses. -/
theorem Plan.draws_on_used {addTypename strict : Bool} {key : DocumentKey} {plan : Plan}
    (h : Plan.ofKey addTypename strict key = .ok plan) :
    Fields.All (FieldHead.DrawsOn plan.used) plan.root.fields := by
  obtain ⟨definitions, selections, resolved, made, root, used, -⟩ := Plan.exists_resolve_of_ofKey h
  rw [root, used]
  exact FieldSet.draws_on_used made

end ResponseGraph
