import ResponseGraph.Proofs.Field.Rearranged
import ResponseGraph.Proofs.Field.Unfolding

/-!
Well-formed selections.

Resolving succeeds for the selections that are well-formed and for no others: the fragments that
they reach are defined, no fragment among these reaches itself, and selections of fields at one
path of response names agree on what they store.

That all pairs of selections are compared, although fields are merged one after the other, is
seen on outlines.  The outline of what was merged so far covers the selections of fields that were
met, and agreement is an equivalence, so a selection that disagrees with one of them disagrees
with the outline.
-/

namespace ResponseGraph

/-! ## Selections of fields by path -/

namespace Selection

/-- A field is selected at a path of response names, through fields, spreads and inline
fragments. -/
inductive At (definitions : Table Fragment) : Selection → List String → FieldHead → Prop
  | here (aliasName : Option String) (name : String) (arguments : List (String × Literal))
    (directives : List Directive) (selections : List Selection) :
    At definitions (.field aliasName name arguments directives selections)
      [responseName aliasName name] (.ofSelection aliasName name arguments directives)
  | inside {aliasName : Option String} {name : String} {arguments : List (String × Literal)}
    {directives : List Directive} {selections : List Selection} {inner : Selection}
    {path : List String} {head : FieldHead} (member : inner ∈ selections)
    (selected : At definitions inner path head) :
    At definitions (.field aliasName name arguments directives selections)
      (responseName aliasName name :: path) head
  | inline {directives : List Directive} {selections : List Selection} {inner : Selection}
    {path : List String} {head : FieldHead} (member : inner ∈ selections)
    (selected : At definitions inner path head) :
    At definitions (.inline directives selections) path head
  | spread {name : String} {directives : List Directive} {fragment : Fragment}
    {inner : Selection} {path : List String} {head : FieldHead}
    (defined : definitions.get? name = some fragment) (member : inner ∈ fragment.selections)
    (selected : At definitions inner path head) :
    At definitions (.spread name directives) path head

/- Only a field may lack a selection set. -/
mutual
def full : Selection → Bool
  | .field _ _ _ _ selections => allFull selections
  | .spread _ _ => true
  | .inline _ selections => !selections.isEmpty && allFull selections
termination_by structural selection => selection

def allFull : List Selection → Bool
  | [] => true
  | selection :: rest => full selection && allFull rest
termination_by structural selections => selections
end

end Selection

namespace Selections

/-- A field is selected at a path by one of the selections. -/
def At (definitions : Table Fragment) (selections : List Selection) (path : List String)
    (head : FieldHead) : Prop :=
  ∃ selection ∈ selections, selection.At definitions path head

/-- A fragment is reached from one of the selections. -/
def Reaches (definitions : Table Fragment) (selections : List Selection) (name : String) : Prop :=
  ∃ selection ∈ selections, selection.Reaches definitions name

/-- A selection set that is not empty, as no other one within it is. -/
def full (selections : List Selection) : Bool :=
  !selections.isEmpty && Selection.allFull selections

/-- What resolving asks of selections. -/
structure WellFormed (definitions : Table Fragment) (selections : List Selection) : Prop where
  defined : ∀ name, Reaches definitions selections name → definitions.contains name
  acyclic : ∀ name fragment, Reaches definitions selections name →
    definitions.get? name = some fragment → ¬ Reaches definitions fragment.selections name
  agree : ∀ path head other, At definitions selections path head →
    At definitions selections path other → head.Agrees other

variable {definitions : Table Fragment} {selections rest : List Selection} {selection : Selection}
  {path : List String} {head : FieldHead}

theorem at_cons : At definitions (selection :: rest) path head ↔
    selection.At definitions path head ∨ At definitions rest path head := by
  exact List.exists_mem_cons_iff ..

theorem grounded_iff : (∀ selection ∈ selections, selection.Grounded definitions) ↔
    (∀ name, Reaches definitions selections name → definitions.contains name) ∧
      ∀ name fragment, Reaches definitions selections name →
        definitions.get? name = some fragment → ¬ Reaches definitions fragment.selections name := by
  constructor
  · intro grounded
    refine ⟨?_, ?_⟩
    · rintro name ⟨selection, member, reaches⟩
      exact (grounded selection member).defined name reaches
    · rintro name fragment ⟨selection, member, reaches⟩ defined ⟨inner, inside, again⟩
      exact (grounded selection member).acyclic name fragment reaches defined inner inside again
  · rintro ⟨defined, acyclic⟩ selection member
    exact ⟨fun name reaches => defined name ⟨selection, member, reaches⟩,
      fun name fragment reaches found inner inside again =>
        acyclic name fragment ⟨selection, member, reaches⟩ found ⟨inner, inside, again⟩⟩

theorem allFull_iff :
    Selection.allFull selections ↔ ∀ selection ∈ selections, selection.full := by
  induction selections with
  | nil => exact iff_of_true rfl fun _ member => absurd member List.not_mem_nil
  | cons selection rest ih => rw [Selection.allFull, Bool.and_eq_true, ih, List.forall_mem_cons]

theorem full_iff :
    full selections ↔ selections ≠ [] ∧ ∀ selection ∈ selections, selection.full := by
  rw [full, Bool.and_eq_true, allFull_iff, Bool.not_eq_true', List.isEmpty_eq_false_iff]

end Selections

/-- Where selection sets are not empty, every selection that unfolds selects a field. -/
theorem Selection.Unfolds.exists_at {definitions : Table Fragment} {opened : List String}
    {selection : Selection} (unfolds : selection.Unfolds definitions opened)
    (fragments : ∀ name fragment, definitions.get? name = some fragment →
      Selections.full fragment.selections) (full : selection.full) :
    ∃ path head, selection.At definitions path head := by
  induction unfolds with
  | field aliasName name arguments directives => exact ⟨_, _, .here ..⟩
  | spread directives _ defined _ ih =>
    obtain ⟨some, each⟩ := Selections.full_iff.mp (fragments _ _ defined)
    obtain ⟨inner, member⟩ := List.exists_mem_of_ne_nil _ some
    obtain ⟨path, head, selected⟩ := ih inner member (each inner member)
    exact ⟨path, head, .spread defined member selected⟩
  | inline directives _ ih =>
    obtain ⟨some, each⟩ := Selections.full_iff.mp full
    obtain ⟨inner, member⟩ := List.exists_mem_of_ne_nil _ some
    obtain ⟨path, head, selected⟩ := ih inner member (each inner member)
    exact ⟨path, head, .inline member selected⟩

/-! ## Outlines that cover selections -/

namespace Outline

/-- Selections of fields at paths. -/
abbrev Occurring := List String → FieldHead → Prop

/-- All that occurs at one path agrees. -/
def Occurring.Agree (occurs : Occurring) : Prop :=
  ∀ path head other, occurs path head → occurs path other → head.Agrees other

/-- The outline has a head at just the paths where one occurs, and agrees with it. -/
structure Covers (outline : Outline) (occurs : Occurring) : Prop where
  found : ∀ path head, occurs path head → ∃ other, outline path = some other ∧ other.Agrees head
  occurs : ∀ path other, outline path = some other → ∃ head, occurs path head ∧ other.Agrees head

namespace Covers

variable {a b : Outline} {first second : Occurring}

theorem agree (covers : a.Covers first) : first.Agree := by
  intro path head other here here'
  obtain ⟨found, at_path, agrees⟩ := covers.found path head here
  obtain ⟨found', at_path', agrees'⟩ := covers.found path other here'
  rw [at_path] at at_path'
  cases at_path'
  exact agrees.symm.trans agrees'

theorem congr (covers : a.Covers first) (same : ∀ path head, first path head ↔ second path head) :
    a.Covers second := by
  refine ⟨fun path head here => covers.found path head ((same path head).mpr here),
    fun path other at_path => ?_⟩
  obtain ⟨head, here, agrees⟩ := covers.occurs path other at_path
  exact ⟨head, (same path head).mp here, agrees⟩

/-- Outlines can be merged if what they cover agrees. -/
theorem compatible (covers : a.Covers first) (covers' : b.Covers second)
    (agree : ∀ path head other, first path head → second path other → head.Agrees other) :
    Compatible a b := by
  intro path head other at_path at_path'
  obtain ⟨found, here, agrees⟩ := covers.occurs path head at_path
  obtain ⟨found', here', agrees'⟩ := covers'.occurs path other at_path'
  exact (agrees.trans (agree path found found' here here')).trans agrees'.symm

/-- Merged outlines cover what either of them covers. -/
theorem join (covers : a.Covers first) (covers' : b.Covers second) (compatible : Compatible a b) :
    (a.join b).Covers fun path head => first path head ∨ second path head := by
  refine ⟨fun path head either => ?_, fun path other at_path => ?_⟩
  · unfold Outline.join
    rcases either with here | here
    · obtain ⟨found, at_path, agrees⟩ := covers.found path head here
      rw [at_path]
      cases b path with
      | none => exact ⟨found, rfl, agrees⟩
      | some other => exact ⟨_, rfl, (found.agrees_join other).symm.trans agrees⟩
    · obtain ⟨found, at_path, agrees⟩ := covers'.found path head here
      have both := fun other => compatible path other found
      rw [at_path]
      cases at_first : a path with
      | none => exact ⟨found, rfl, agrees⟩
      | some other =>
        exact ⟨_, rfl, ((other.agrees_join found).symm.trans (both other at_first at_path)).trans
          agrees⟩
  · unfold Outline.join at at_path
    cases at_first : a path with
    | none =>
      rw [at_first] at at_path
      obtain ⟨head, here, agrees⟩ := covers'.occurs path other at_path
      exact ⟨head, Or.inr here, agrees⟩
    | some found =>
      obtain ⟨head, here, agrees⟩ := covers.occurs path found at_first
      refine ⟨head, Or.inl here, ?_⟩
      rw [at_first] at at_path
      cases at_second : b path with
      | none =>
        rw [at_second] at at_path
        cases at_path
        exact agrees
      | some last =>
        rw [at_second] at at_path
        cases at_path
        exact (found.agrees_join last).symm.trans agrees

end Covers

theorem covers_nil : (Shapes.at? []).Covers fun _ _ => False := by
  rw [Shapes.at?_nil]
  exact ⟨fun _ _ impossible => impossible.elim, fun _ _ at_path => nomatch at_path⟩

/-- A guard changes nothing of what fields agree on. -/
theorem Covers.within {shapes : Shapes} {occurs : Occurring}
    (covers : (Shapes.at? shapes).Covers occurs) (guard : Option Guard) :
    (Shapes.at? (Shapes.within guard shapes)).Covers occurs := by
  cases guard with
  | none => exact covers
  | some guard =>
    have guarded (path : List String) :
        Option.Rel FieldHead.Agrees (Shapes.at? (Shapes.within (some guard) shapes) path)
          (Shapes.at? shapes path) := by
      match path with
      | [] => exact .none
      | [name] =>
        rw [Shapes.at?_within]
        cases Shapes.at? shapes [name] with
        | none => exact .none
        | some head => exact .some ⟨FieldHead.sameArguments_refl head, rfl⟩
      | name :: label :: path =>
        rw [Shapes.at?_within]
        dsimp only
        cases Shapes.at? shapes (name :: label :: path) with
        | none => exact .none
        | some head => exact .some (.refl head)
    refine ⟨fun path head here => ?_, fun path other at_path => ?_⟩
    · obtain ⟨found, at_path, agrees⟩ := covers.found path head here
      have alike := guarded path
      rw [at_path] at alike
      generalize Shapes.at? (Shapes.within (some guard) shapes) path = x at alike ⊢
      cases alike with
      | some alike => exact ⟨_, rfl, alike.trans agrees⟩
    · have alike := guarded path
      rw [at_path] at alike
      generalize same : Shapes.at? shapes path = x at alike
      cases alike with
      | some alike =>
        obtain ⟨head, here, agrees⟩ := covers.occurs path _ same
        exact ⟨head, here, alike.trans agrees⟩

end Outline

/-! ## What reading tells -/

namespace Shapes

open Outline

/-- Shapes that are read cover what occurs, and nothing is read exactly if a fragment does not
unfold or if there is a disagreement. -/
inductive Read.Tells (unfolds : Prop) (occurs : Occurring) : Read → Prop
  | ok {shapes : Shapes} {names : List String} (sound : unfolds)
    (covers : (at? shapes).Covers occurs) : Tells unfolds occurs (.ok (shapes, names))
  | error (ill : ¬ (unfolds ∧ occurs.Agree)) (problem : DocumentError) :
    Tells unfolds occurs (.error problem)

namespace Read.Tells

variable {unfolds more : Prop} {occurs others : Occurring} {read : Read}

theorem congr (tells : read.Tells unfolds occurs) (sound : unfolds ↔ more)
    (same : ∀ path head, occurs path head ↔ others path head) : read.Tells more others := by
  cases tells with
  | ok here covers => exact .ok (sound.mp here) (covers.congr same)
  | error ill problem =>
    refine .error (fun both => ill ⟨sound.mpr both.1, fun path head other here here' => ?_⟩) problem
    exact both.2 path head other ((same path head).mp here) ((same path other).mp here')

/-- Something is made of the shapes. -/
theorem make {names : List String} {make : Shapes → Except DocumentError Shapes}
    (tells : read.Tells unfolds occurs) (others : Occurring) (agree : others.Agree → occurs.Agree)
    (next : ∀ shapes met, read = .ok (shapes, met) → (at? shapes).Covers occurs →
      (∃ made, make shapes = .ok made ∧ (at? made).Covers others) ∨
        (∃ problem, make shapes = .error problem) ∧ ¬ others.Agree) :
    (read.make names make).Tells unfolds others := by
  cases tells with
  | error ill problem =>
    exact .error (fun both => ill ⟨both.1, agree both.2⟩) problem
  | @ok shapes met sound covers =>
    show Tells _ _ (make shapes >>= fun made => pure (made, names ++ met))
    rcases next shapes met rfl covers with ⟨made, here, covers'⟩ | ⟨⟨problem, here⟩, ill⟩
    · rw [here]
      exact .ok sound covers'
    · rw [here]
      exact .error (fun both => ill both.2) problem

/-- More is read after the shapes. -/
theorem andThen {second : Shapes → Read} (tells : read.Tells unfolds occurs) (more : Prop)
    (agree : others.Agree → occurs.Agree)
    (next : ∀ shapes met, read = .ok (shapes, met) → (at? shapes).Covers occurs →
      (second shapes).Tells more others) :
    (read.andThen second).Tells (unfolds ∧ more) others := by
  cases tells with
  | error ill problem => exact .error (fun both => ill ⟨both.1.1, agree both.2⟩) problem
  | @ok shapes met sound covers =>
    show Tells _ _ (second shapes >>= fun result => pure (result.1, met ++ result.2))
    have later := next shapes met rfl covers
    generalize second shapes = outcome at later ⊢
    cases later with
    | ok sound' covers' => exact .ok ⟨sound, sound'⟩ covers'
    | error ill problem => exact .error (fun both => ill ⟨both.1.2, both.2⟩) problem

end Read.Tells

/-- What is read of every spread tells whether its fragment unfolds and what it selects. -/
structure Around.Tells (definitions : Table Fragment) (opened : List String) (around : Around) :
    Prop where
  plain : around.addTypename = false
  exact : around.Exact
  spread : ∀ path name directives, (around.spread path name).Tells
    (Selection.Unfolds definitions opened (.spread name directives))
    (Selection.At definitions (.spread name directives))

variable {definitions : Table Fragment} {opened : List String} {around : Around}

theorem at?_singleton_head (name : String) (head : FieldHead) (fields? : Option Shapes) :
    at? [(name, Shape.of head fields?)] [name] = some head := by
  rw [at?, Entries.get?_cons, if_pos rfl]
  exact congrArg some (Shape.head_of head fields?)

theorem at?_singleton_below (name : String) (head : FieldHead) (fields? : Option Shapes)
    (label : String) (path : List String) :
    at? [(name, Shape.of head fields?)] (name :: label :: path) =
      at? (fields?.getD []) (label :: path) := by
  rw [at?, Entries.get?_cons, if_pos rfl]
  dsimp only
  rw [Shape.at?, Shape.inner_of]
  rfl

theorem eq_of_at?_singleton {name label : String} {shape : Shape} {path : List String}
    {head : FieldHead} (found : at? [(name, shape)] (label :: path) = some head) : label = name := by
  rw [at?, Entries.get?_cons] at found
  by_cases same : name = label
  · exact same.symm
  · rw [if_neg same] at found
    cases found

/-- A field stands above the shapes of its sub-selection. -/
theorem covers_field {aliasName : Option String} {name : String}
    {arguments : List (String × Literal)} {directives : List Directive}
    {selections : List Selection} {shapes : Shapes}
    (covers : (at? shapes).Covers (Selections.At definitions selections)) :
    (at? [(responseName aliasName name, Shape.of
        (.ofSelection aliasName name arguments directives) (below? false shapes))]).Covers
      (Selection.At definitions (.field aliasName name arguments directives selections)) := by
  have fields : (below? false shapes).getD [] = shapes := by
    unfold below?
    cases shapes <;> rfl
  refine ⟨fun path head selected => ?_, fun path other at_path => ?_⟩
  · cases selected with
    | here => exact ⟨_, at?_singleton_head .., .refl _⟩
    | @inside _ _ _ _ _ inner path _ member selected =>
      obtain ⟨found, at_path, agrees⟩ := covers.found path head ⟨inner, member, selected⟩
      cases path with
      | nil => cases at_path
      | cons label path =>
        rw [at?_singleton_below, fields]
        exact ⟨found, at_path, agrees⟩
  · match path with
    | [] => cases at_path
    | [label] =>
      obtain rfl := eq_of_at?_singleton at_path
      rw [at?_singleton_head] at at_path
      cases at_path
      exact ⟨_, .here .., .refl _⟩
    | label :: next :: path =>
      obtain rfl := eq_of_at?_singleton at_path
      rw [at?_singleton_below, fields] at at_path
      obtain ⟨head, ⟨inner, member, selected⟩, agrees⟩ := covers.occurs _ other at_path
      exact ⟨head, .inside member selected, agrees⟩

mutual
theorem tells_ofSelection (tells : around.Tells definitions opened) : (selection : Selection) →
    (path : List String) → (ofSelection around path selection).Tells
      (selection.Unfolds definitions opened) (selection.At definitions)
  | .field aliasName name arguments directives selections, path => by
    rw [ofSelection_field, tells.plain]
    have inner := tells_ofSelections tells selections (path ++ [responseName aliasName name]) .nil
      covers_nil
    refine ((inner.congr Iff.rfl fun _ _ => iff_of_eq (false_or _)).make
      (Selection.At definitions (.field aliasName name arguments directives selections))
      ?_ ?_).congr ?_ fun _ _ => Iff.rfl
    · intro agree path head other selected selected'
      obtain ⟨first, member, selected⟩ := selected
      obtain ⟨second, member', selected'⟩ := selected'
      exact agree _ head other (.inside member selected) (.inside member' selected')
    · exact fun shapes met _ covers => Or.inl ⟨_, rfl, covers_field covers⟩
    · refine ⟨fun below => .field _ _ _ _ below, fun unfolds => ?_⟩
      cases unfolds with
      | field _ _ _ _ below => exact below
  | .spread name directives, path => by
    rw [ofSelection_spread]
    exact (tells.spread path name directives).make _ id fun shapes met _ covers =>
      Or.inl ⟨_, rfl, covers.within _⟩
  | .inline directives selections, path => by
    rw [ofSelection_inline]
    have inner := tells_ofSelections tells selections path .nil covers_nil
    refine ((inner.congr Iff.rfl fun _ _ => iff_of_eq (false_or _)).make
      (Selections.At definitions selections) id ?_).congr ?_ fun path head => ?_
    · exact fun shapes met _ covers => Or.inl ⟨_, rfl, covers.within _⟩
    · refine ⟨fun below => .inline _ below, fun unfolds => ?_⟩
      cases unfolds with
      | inline _ below => exact below
    · constructor
      · rintro ⟨inner, member, selected⟩
        exact .inline member selected
      · intro selected
        cases selected with
        | inline member selected => exact ⟨_, member, selected⟩

/-- Selections are read into shapes that cover what was selected before. -/
theorem tells_ofSelections (tells : around.Tells definitions opened) :
    (selections : List Selection) → (path : List String) → {into : Shapes} →
    {before : Occurring} → into.Exact → (at? into).Covers before →
    (ofSelections around path into selections).Tells
      (∀ selection ∈ selections, selection.Unfolds definitions opened)
      fun path head => before path head ∨ Selections.At definitions selections path head
  | [], path, into, before, exact, covers =>
    .ok (fun _ member => absurd member List.not_mem_nil)
      (covers.congr fun path head => ⟨Or.inl, fun either => either.resolve_right fun none => by
        obtain ⟨_, member, -⟩ := none
        exact List.not_mem_nil member⟩)
  | selection :: rest, path, into, before, exact, covers => by
    rw [ofSelections_cons]
    have here := tells_ofSelection tells selection path
    -- The selection by itself is read first, and then merged into what there is.
    have added : (add around path into selection).Tells (selection.Unfolds definitions opened)
        fun path head => before path head ∨ selection.At definitions path head := by
      refine here.make _ (fun agree path head other selected selected' =>
        agree path head other (Or.inr selected) (Or.inr selected')) ?_
      intro shapes met read incoming
      have merges := @merges_combine path into shapes (exact_ofSelection tells.exact selection read)
      generalize combine path into shapes = outcome at merges ⊢
      cases merges with
      | @ok merged compatible joined =>
        refine Or.inl ⟨merged, rfl, ?_⟩
        rw [joined]
        exact covers.join incoming compatible
      | error conflict problem =>
        refine Or.inr ⟨⟨problem, rfl⟩, fun agree => conflict ?_⟩
        exact covers.compatible incoming fun path head other old new =>
          agree path head other (Or.inl old) (Or.inr new)
    have both (path : List String) (head : FieldHead) :
        ((before path head ∨ selection.At definitions path head) ∨
          Selections.At definitions rest path head) ↔
        (before path head ∨ Selections.At definitions (selection :: rest) path head) := by
      rw [Selections.at_cons, or_assoc]
    refine (added.andThen (∀ selection ∈ rest, selection.Unfolds definitions opened) ?_
      fun shapes met read covers' => ?_).congr List.forall_mem_cons.symm both
    · exact fun agree path head other old new => agree path head other (Or.inl old) (Or.inl new)
    · exact tells_ofSelections tells rest path (exact_add tells.exact exact read) covers'
end

/-- A spread is read where its fragment unfolds. -/
theorem tells_ofSpread (definitions : Table Fragment) (opened : List String) :
    Around.Tells definitions opened ⟨false, ofSpread false definitions opened⟩ := by
  induction opened using (measure fun opened => (unopened definitions opened).length).wf.induction
  next opened ih =>
    refine ⟨rfl, exact_ofSpread false definitions opened, fun path name directives => ?_⟩
    show (ofSpread false definitions opened path name).Tells _ _
    by_cases cyclic : opened.contains name
    · rw [ofSpread, dif_pos cyclic]
      refine .error (fun both => ?_) _
      cases both.1 with
      | spread _ closed => exact closed (by simpa using cyclic)
    · cases defined : definitions.get? name with
      | none =>
        rw [ofSpread_of_get?_none cyclic defined]
        refine .error (fun both => ?_) _
        cases both.1 with
        | spread _ _ defined' =>
          rw [defined] at defined'
          cases defined'
      | some fragment =>
        have closed : name ∉ opened := by simpa using cyclic
        rw [ofSpread_of_get? closed defined]
        have inner := tells_ofSelections (ih _ (length_unopened_lt cyclic defined))
          fragment.selections path .nil covers_nil
        refine (inner.make _ id fun shapes met _ covers => Or.inl ⟨_, rfl, covers⟩).congr ?_
          fun path head => ?_
        · refine ⟨fun below => .spread directives closed defined below, fun unfolds => ?_⟩
          cases unfolds with
          | spread _ _ defined' below =>
            rw [defined] at defined'
            cases defined'
            exact below
        · rw [false_or]
          constructor
          · rintro ⟨inner, member, selected⟩
            exact .spread defined member selected
          · intro selected
            cases selected with
            | spread defined' member selected =>
              rw [defined] at defined'
              cases defined'
              exact ⟨_, member, selected⟩

/-- A document in which no selection set is empty is read exactly if it is well-formed. -/
theorem ofDocument_iff {selections : List Selection} (full : Selections.full selections)
    (fragments : ∀ name fragment, definitions.get? name = some fragment →
      Selections.full fragment.selections) :
    (∃ read, ofDocument false definitions selections = .ok read) ↔
      Selections.WellFormed definitions selections := by
  have tells := (tells_ofSelections (tells_ofSpread definitions []) selections [] .nil
    covers_nil).congr Iff.rfl fun _ _ => iff_of_eq (false_or _)
  have well : Selections.WellFormed definitions selections ↔
      (∀ selection ∈ selections, selection.Unfolds definitions []) ∧
        Occurring.Agree (Selections.At definitions selections) := by
    simp only [Selection.unfolds_iff_grounded]
    rw [Selections.grounded_iff]
    exact ⟨fun well => ⟨⟨well.defined, well.acyclic⟩, well.agree⟩,
      fun both => ⟨both.1.1, both.1.2, both.2⟩⟩
  rw [well]
  unfold ofDocument
  dsimp only
  generalize ofSelections _ _ _ _ = read at tells ⊢
  cases tells with
  | error ill problem => exact iff_of_false (fun ⟨read, h⟩ => nomatch h) ill
  | @ok shapes names unfolds covers =>
    refine iff_of_true ?_ ⟨unfolds, covers.agree⟩
    obtain ⟨some, each⟩ := Selections.full_iff.mp full
    obtain ⟨selection, member⟩ := List.exists_mem_of_ne_nil _ some
    obtain ⟨path, head, selected⟩ :=
      (unfolds selection member).exists_at fragments (each selection member)
    obtain ⟨other, at_path, -⟩ := covers.found path head ⟨selection, member, selected⟩
    cases shapes with
    | nil =>
      rw [at?_nil] at at_path
      cases at_path
    | cons entry rest => exact ⟨_, rfl⟩

end Shapes

/-! ## Resolving -/

/-- Resolving comes to an end, and it succeeds exactly for well-formed selections.  The bound on
fragments that are open inside each other is never reached, for any definitions: under every
larger bound selections are resolved alike. -/
theorem FieldSet.resolve_ok_iff_wellFormed {definitions : Table Fragment}
    {selections : List Selection} (full : Selections.full selections)
    (fragments : ∀ name fragment, definitions.get? name = some fragment →
      Selections.full fragment.selections) :
    (∀ depth, definitions.size ≤ depth →
        Fields.resolve ⟨false, spreadWith false definitions depth []⟩ [] [] selections =
          Fields.resolve ⟨false, spreadWith false definitions definitions.size []⟩ [] []
            selections) ∧
      ((∃ resolved, FieldSet.resolve false definitions selections = .ok resolved) ↔
        Selections.WellFormed definitions selections) := by
  have room : (Shapes.unopened definitions []).length ≤ definitions.size :=
    Nat.le_trans (List.length_filter_le _ _) (Nat.le_of_eq (List.length_map _))
  refine ⟨fun depth larger => ?_, ?_⟩
  · rw [Resolving.spreadWith_eq (Nat.le_trans room larger) room]
  · rw [← Shapes.ofDocument_iff full fragments]
    have paired := FieldSet.paired_resolve false definitions selections
    generalize FieldSet.resolve false definitions selections = resolved at paired ⊢
    generalize Shapes.ofDocument false definitions selections = read at paired ⊢
    cases paired with
    | error problem => exact iff_of_false (fun ⟨_, h⟩ => nomatch h) fun ⟨_, h⟩ => nomatch h
    | ok _ => exact iff_of_true ⟨_, rfl⟩ ⟨_, rfl⟩

/-- A fragment that spreads itself does no harm until it is reached. -/
theorem FieldSet.resolve_ok_iff_wellFormed_of_loop :
    let id : Selection := .field none "id" [] [] []
    let definitions := (Table.empty.insert "User" (Fragment.mk "User" []
        [id, .field none "friend" [] [] [.inline [] [id]]])).insert "Loop"
      (Fragment.mk "Loop" [] [id, .spread "Loop" []])
    let user (selections : List Selection) : List Selection :=
      [.field none "user" [] [] selections]
    Selections.WellFormed definitions (user [.spread "User" [], id]) ∧
      ¬ Selections.WellFormed definitions (user [.spread "Loop" [], id]) := by
  intro id definitions user
  have fragments (name : String) (fragment : Fragment)
      (defined : definitions.get? name = some fragment) : Selections.full fragment.selections := by
    have all : definitions.toList.all fun entry => Selections.full entry.2.selections := by
      decide +kernel
    exact List.all_eq_true.mp all (name, fragment) (Entries.mem_of_get? defined)
  have full (fragment : String) : Selections.full (user [.spread fragment [], id]) := rfl
  constructor
  · refine (FieldSet.resolve_ok_iff_wellFormed (full "User") fragments).2.mp ?_
    have succeeds : (FieldSet.resolve false definitions
        (user [.spread "User" [], id])).toOption.isSome := by
      decide +kernel
    obtain ⟨resolved, found⟩ := Option.isSome_iff_exists.mp succeeds
    exact ⟨resolved, eq_ok_of_toOption found⟩
  · refine fun well => ?_
    obtain ⟨resolved, found⟩ :=
      (FieldSet.resolve_ok_iff_wellFormed (full "Loop") fragments).2.mpr well
    have fails : (FieldSet.resolve false definitions
        (user [.spread "Loop" [], id])).toOption.isNone := by
      decide +kernel
    rw [found] at fails
    cases fails

end ResponseGraph
