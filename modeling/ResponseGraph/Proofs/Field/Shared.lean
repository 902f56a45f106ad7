import ResponseGraph.Proofs.Field.Replayed
import ResponseGraph.Proofs.Field.Unlabelled

/-!
Fragments that are resolved once.

Resolving takes the fields of a fragment from the first spread at every further one, and it does
not merge an object with itself.  `Shapes.ofDocument` does neither.  The results are the same, for
two reasons.  Fields are merged as their shapes are.  And a fragment that is read again gives what
it gave before, which resolving keeps true (`displays_resolve`, `displays_spreadWith`).
-/

namespace ResponseGraph

open Labels

section Resolving

variable {scene : Scene} {opened : List String} {around : Surroundings}
  {spread : List String → String → Shapes.Read} {labels : Labels} {state : Resolution}
  {into : Fields} {path : List String}

/-- Resolving and reading come to the same. -/
def Displays (scene : Scene) (opened : List String) (spread : List String → String → Shapes.Read)
    (path : List String) (state : Resolution) (action : Resolving Fields)
    (reader : Shapes.Reader) : Prop :=
  Paired (fun result read => Shown scene opened reader state result.1 result.2 read)
    (action state) (reader spread path)

/-- Fields that a computation with labels gives for shapes. -/
def Labels.Forms (next : Nat) (action : Labelling DocumentError Fields)
    (shapes : Except DocumentError Shapes) : Prop :=
  Paired (fun made shapes => Fields.shapes made.1 = shapes) (action next) shapes

/-- Reading somewhere else comes to the same there. -/
theorem Displays.moved {reader : Shapes.Reader} {action : Resolving Fields}
    (move : List String → List String)
    (h : Displays scene opened spread (move path) state action reader) :
    Displays scene opened spread path state action fun spread path => reader spread (move path) :=
  Paired.mono h fun _ _ shown => shown.moved move

theorem use_append (names more : List String) (action : Resolving Fields) :
    (Resolving.use names >>= fun _ => Resolving.use more >>= fun _ => action) =
      Resolving.use (names ++ more) >>= fun _ => action := by
  funext state
  show action { state with used := Resolving.record (Resolving.record state.used names) more } = _
  rw [← Resolving.record_append]
  rfl

theorem Displays.make {reader : Shapes.Reader} {action : Resolving Fields} (names : List String)
    {finish : Fields → Labelling DocumentError Fields}
    (make : List String → Shapes → Except DocumentError Shapes)
    (first : Displays scene opened spread path (state.recording names) action reader)
    (second : ∀ fields later met, action (state.recording names) = .ok (fields, later) →
      reader spread path = .ok (Fields.shapes fields, met) →
      Labels.Forms later.nextLabel (finish fields) (make path (Fields.shapes fields)))
    (independent : ∀ path path' shapes shapes', make path shapes = .ok shapes' →
      make path' shapes = .ok shapes') :
    Displays scene opened spread path state
      (Resolving.use names >>= fun _ => action >>= fun fields =>
        Resolving.labelling (finish fields))
      (fun spread path => (reader spread path).make names (make path)) := by
  refine Paired.bind_of_eq first ?_
  rintro ⟨fields, later⟩ ⟨shapes, met⟩ made read shown
  obtain rfl : Fields.shapes fields = shapes := shown.shapes
  have taken : Resolving.labelling (finish fields) later = finish fields later.nextLabel >>=
      fun result => .ok (result.1, { later with nextLabel := result.2 }) := by
    unfold Resolving.labelling
    cases finish fields later.nextLabel <;> rfl
  show Paired _ (Resolving.labelling (finish fields) later) _
  rw [taken]
  refine Paired.bind_of_eq (second fields later met made read) ?_
  intro result shapes' _ given same
  exact .ok (shown.make same fun path' => independent path path' _ _ given)

/-- Fields that are put under a guard and added. -/
theorem forms_under {incoming : Fields} {others : Occurrences} {next : Nat}
    (directives : List Directive) (free : labels.Below next) (known : Fields.Proper labels into)
    (exact : (Fields.shapes into).Exact) (makes : scene.Makes others labels incoming)
    (exact' : (Fields.shapes incoming).Exact) :
    Labels.Forms next
      (do
        let fields ← Fields.within (Guard.ofDirectives? directives) incoming
        Fields.combine path into fields)
      (Shapes.combine path (Fields.shapes into)
        (Shapes.within (Guard.ofDirectives? directives) (Fields.shapes incoming))) := by
  obtain ⟨made, last, given, shapes⟩ :=
    Fields.within_eq_ok (Guard.ofDirectives? directives) incoming next
  obtain ⟨more, extended, free', makes'⟩ := Scene.gives_within directives free makes made last given
  have merged := @Fields.paired_combine more last path into made free' (known.mono extended)
    makes'.1 exact (shapes ▸ exact'.within _)
  rw [shapes] at merged
  show Paired _ (Except.bind _ _) _
  rw [given]
  exact merged

/-- A field that is added. -/
theorem forms_field {fields : Fields} {selections : List Selection} {next : Nat}
    (aliasName : Option String) (name : String) (arguments : List (String × Literal))
    (directives : List Directive) (free : labels.Below next) (known : Fields.Proper labels into)
    (exact : (Fields.shapes into).Exact)
    (makes : scene.Makes (scene.occurs selections) labels fields)
    (exact' : (Fields.shapes fields).Exact) :
    Labels.Forms next
      (do
        let below ← FieldSet.below? scene.addTypename fields
        let field :=
          Field.of (← newLabel) (.ofSelection aliasName name arguments directives) below
        Fields.combine path into [(responseName aliasName name, field)])
      (Shapes.combine path (Fields.shapes into) [(responseName aliasName name,
        .of (.ofSelection aliasName name arguments directives)
          (Shapes.below? scene.addTypename (Fields.shapes fields)))]) := by
  obtain ⟨set?, last, given, shapes⟩ := FieldSet.below?_eq_ok scene.addTypename fields next
  obtain ⟨more, extended, free', -, below⟩ := Scene.gives_below free makes set? last given
  obtain ⟨most, extended', free'', held⟩ := @gives_newLabel DocumentError more last free'
    (fun label => .field (.of label (.ofSelection aliasName name arguments directives) set?))
    last (last + 1) rfl
  have known' : Fields.Proper most [(responseName aliasName name,
      .of last (.ofSelection aliasName name arguments directives) set?)] :=
    ⟨List.pairwise_singleton _ _,
      Field.known_of held fun set present => (below set present).1.mono extended', trivial⟩
  have single : Shapes.Exact [(responseName aliasName name,
      .of (.ofSelection aliasName name arguments directives)
        (Shapes.below? scene.addTypename (Fields.shapes fields)))] :=
    .singleton (.of (FieldHead.exact_ofSelection ..) fun fields found => exact'.below found)
  have same : Fields.shapes [(responseName aliasName name,
      .of last (.ofSelection aliasName name arguments directives) set?)] =
      [(responseName aliasName name, .of (.ofSelection aliasName name arguments directives)
        (Shapes.below? scene.addTypename (Fields.shapes fields)))] := by
    rw [Fields.shapes, Field.shape_of, shapes]
    rfl
  have merged := @Fields.paired_combine most (last + 1) path into _ free''
    (known.mono (extended.trans extended')) known' exact (same ▸ single)
  rw [same] at merged
  show Paired _ (Except.bind _ _) _
  rw [given]
  exact merged

/-- What a spread stands for is resolved once, and read again and again. -/
structure Mirrors (scene : Scene) (opened : List String) (around : Surroundings)
    (spread : List String → String → Shapes.Read) : Prop where
  serves : scene.Serves around
  exact : Shapes.Around.Exact ⟨scene.addTypename, spread⟩
  spread : ∀ {labels : Labels} {state : Resolution} (path : List String) (name : String),
    scene.Keeps labels state → state.Tidy scene opened →
      Displays scene opened spread path state (FieldSet.fields <$> around.spread path name)
        fun spread path => spread path name

mutual
theorem displays_resolve (mirrors : Mirrors scene opened around spread) (path : List String) :
    (selections : List Selection) → {labels : Labels} → {state : Resolution} → {into : Fields} →
    scene.Keeps labels state → Fields.Proper labels into → (Fields.shapes into).Exact →
    state.Tidy scene opened →
    Displays scene opened spread path state (Fields.resolve around path into selections)
      (Shapes.reader scene (Fields.shapes into) selections)
  | [], _, _, _, _, _, _, tidy => .ok (.pure tidy)
  | selection :: rest, _, _, into, keeps, known, exact, tidy => by
    unfold Displays Shapes.reader
    simp only [Shapes.ofSelections_cons]
    refine (displays_resolveOne mirrors path selection keeps known exact tidy).bind_of_eq ?_
    rintro ⟨middle, later⟩ ⟨merged, first⟩ made read shown
    obtain rfl : Fields.shapes middle = merged := shown.shapes
    obtain ⟨more, extended, keeps', adds⟩ :=
      Scene.gives_resolveOne mirrors.serves path selection keeps known middle later made
    have second := displays_resolve mirrors path rest keeps' adds.1
      (Shapes.exact_add mirrors.exact exact read) shown.tidy
    have extra : Fields.resolve around path middle rest later =
        Fields.resolve around path middle rest later >>= pure := (bind_pure _).symm
    show Paired _ (Fields.resolve around path middle rest later) _
    rw [extra]
    refine second.bind ?_
    rintro result ⟨shapes, others⟩ shown'
    exact .ok (shown.andThen (fun merged => Shapes.reader scene merged rest) shown')

theorem displays_resolveOne (mirrors : Mirrors scene opened around spread) (path : List String) :
    (selection : Selection) → {labels : Labels} → {state : Resolution} → {into : Fields} →
    scene.Keeps labels state → Fields.Proper labels into → (Fields.shapes into).Exact →
    state.Tidy scene opened →
    Displays scene opened spread path state (Fields.resolveOne around path into selection)
      fun spread path => Shapes.add ⟨scene.addTypename, spread⟩ path (Fields.shapes into) selection
  | .field aliasName name arguments directives selections, _, state, into, keeps, known, exact,
      tidy => by
    unfold Fields.resolveOne
    simp only [Shapes.add_field]
    rw [use_append]
    have keeps := keeps.recording (Directive.variableNames directives ++
      arguments.flatMap fun entry => entry.2.variableNames)
    refine Displays.make _ (fun path shapes => Shapes.combine path (Fields.shapes into)
      [(responseName aliasName name, .of (.ofSelection aliasName name arguments directives)
        (Shapes.below? scene.addTypename shapes))])
      ((displays_resolve mirrors (path ++ [responseName aliasName name]) selections keeps
        Fields.proper_nil .nil (tidy.recording _)).moved (· ++ [responseName aliasName name])) ?_
      fun _ _ _ _ h => Shapes.combine_path _ h
    intro fields later met made read
    obtain ⟨more, extended, keeps', adds⟩ := Scene.gives_resolve mirrors.serves _ selections
      keeps Fields.proper_nil fields later made
    rw [mirrors.serves.addTypename]
    exact forms_field aliasName name arguments directives keeps'.free (known.mono extended) exact
      adds.makes (Shapes.exact_ofSelections mirrors.exact selections .nil read)
  | .spread fragment directives, _, state, into, keeps, known, exact, tidy => by
    unfold Fields.resolveOne
    simp only [Shapes.add_spread]
    have keeps := keeps.recording (Directive.variableNames directives)
    have taken (finish : Fields → Resolving Fields) :
        (do finish (← around.spread path fragment).fields) =
          (FieldSet.fields <$> around.spread path fragment) >>= finish := (bind_map_left ..).symm
    rw [taken fun fields => Resolving.labelling (do
      let fields ← Fields.within (Guard.ofDirectives? directives) fields
      Fields.combine path into fields)]
    refine Displays.make _ (fun path shapes => Shapes.combine path (Fields.shapes into)
        (Shapes.within (Guard.ofDirectives? directives) shapes))
      (mirrors.spread path fragment keeps (tidy.recording _)) ?_
      fun _ _ _ _ h => Shapes.combine_path _ h
    intro fields later met made read
    obtain ⟨⟨set, between⟩, made, same⟩ := exists_of_bind_eq_ok made
    cases same
    obtain ⟨more, extended, keeps', stands, definition, defined, select⟩ :=
      mirrors.serves.spread path fragment keeps set later made
    exact forms_under directives keeps'.free (known.mono extended) exact ⟨stands.proper, select⟩
      (mirrors.exact path fragment _ _ read)
  | .inline directives selections, _, _, into, keeps, known, exact, tidy => by
    unfold Fields.resolveOne
    simp only [Shapes.add_inline]
    have keeps := keeps.recording (Directive.variableNames directives)
    refine Displays.make _ (fun path shapes => Shapes.combine path (Fields.shapes into)
        (Shapes.within (Guard.ofDirectives? directives) shapes))
      (displays_resolve mirrors path selections keeps Fields.proper_nil .nil (tidy.recording _)) ?_
      fun _ _ _ _ h => Shapes.combine_path _ h
    intro fields later met made read
    obtain ⟨more, extended, keeps', adds⟩ := Scene.gives_resolve mirrors.serves path selections
      keeps Fields.proper_nil fields later made
    exact forms_under directives keeps'.free (known.mono extended) exact adds.makes
      (Shapes.exact_ofSelections mirrors.exact selections .nil read)
end

/-- A fragment that has been resolved is read again as it was. -/
theorem displays_kept {set : FieldSet} {name : String} (tidy : state.Tidy scene opened)
    (present : state.fragments.get? name = some set) (path : List String) :
    Displays scene opened (Shapes.ofSpread scene.addTypename scene.definitions opened) path state
      (pure set.fields) fun spread path => spread path name := by
  obtain ⟨names, read, known⟩ := tidy.replays opened tidy.opened name set present path
  unfold Displays
  simp only
  rw [read]
  refine .ok ⟨rfl, (Resolving.record_of_subset known).symm, .refl state, tidy, ?_⟩
  intro spread path last grows replays
  exact replays name set (grows.fragments name set present) path

section Spreads

variable {addTypename : Bool} {definitions : Table Fragment} {depth : Nat}
  {opened path : List String} {name : String} {state : Resolution}

theorem get_bind (next : Resolution → Resolving FieldSet) :
    (get >>= next) state = next state state := rfl

theorem spreadWith_of_get? {set : FieldSet} (present : state.fragments.get? name = some set) :
    spreadWith addTypename definitions depth opened path name state = .ok (set, state) := by
  unfold spreadWith
  rw [get_bind]
  simp only [present]
  rfl

theorem spreadWith_of_absent (absent : state.fragments.get? name = none) :
    spreadWith addTypename definitions depth opened path name state =
      if opened.contains name then .error (.fragmentCycle (opened ++ [name]))
      else
        match depth, definitions.get? name with
        | depth + 1, some fragment => do
          let (fields, later) ← Fields.resolve
            ⟨addTypename, spreadWith addTypename definitions depth (opened ++ [name])⟩ path []
            fragment.selections (state.recording (Directive.variableNames fragment.directives))
          return (⟨later.nextLabel, fields⟩, later.keeping name ⟨later.nextLabel, fields⟩)
        | _, _ => .error (.unknownFragment name) := by
  unfold spreadWith
  rw [get_bind]
  simp only [absent]
  by_cases cyclic : opened.contains name
  · simp only [if_pos cyclic]
    rfl
  · simp only [if_neg cyclic]
    cases depth with
    | zero => rfl
    | succ depth => cases definitions.get? name <;> rfl

end Spreads

/-- A spread that resolves its fragment, if what is spread within the fragment does so. -/
theorem displays_spread {depth : Nat} {name : String} (path : List String)
    (keeps : scene.Keeps labels state) (tidy : state.Tidy scene opened)
    (inner : ¬ opened.contains name → ∀ fragment, scene.definitions.get? name = some fragment →
      ∃ rest, depth = rest + 1 ∧ Mirrors scene (opened ++ [name])
        ⟨scene.addTypename, spreadWith scene.addTypename scene.definitions rest (opened ++ [name])⟩
        (Shapes.ofSpread scene.addTypename scene.definitions (opened ++ [name]))) :
    Displays scene opened (Shapes.ofSpread scene.addTypename scene.definitions opened) path state
      (FieldSet.fields <$> spreadWith scene.addTypename scene.definitions depth opened path name)
      fun spread path => spread path name := by
  show Paired _ (Except.bind (spreadWith _ _ _ _ _ _ state) _) (Shapes.ofSpread _ _ _ _ _)
  cases present : state.fragments.get? name with
  | some set =>
    rw [spreadWith_of_get? present]
    exact displays_kept tidy present path
  | none =>
    rw [spreadWith_of_absent present]
    by_cases cyclic : opened.contains name
    · rw [if_pos cyclic, Shapes.ofSpread, dif_pos cyclic]
      exact .error _
    · rw [if_neg cyclic]
      cases defined : scene.definitions.get? name with
      | none =>
        rw [Shapes.ofSpread_of_get?_none cyclic defined]
        cases depth <;> exact .error _
      | some fragment =>
        obtain ⟨rest, rfl, mirrors⟩ := inner cyclic fragment defined
        have closed : name ∉ opened := by simpa using cyclic
        have lacks : state.Tidy scene (opened ++ [name]) :=
          ⟨tidy.opened.append present, tidy.replays⟩
        have resolved := displays_resolve mirrors path fragment.selections
          (keeps.recording (Directive.variableNames fragment.directives)) Fields.proper_nil .nil
          (lacks.recording _)
        rw [Shapes.ofSpread_of_get? closed defined]
        show Paired _ ((_ >>= _) >>= _) _
        rw [bind_assoc]
        refine resolved.bind ?_
        rintro ⟨fields, later⟩ ⟨shapes, met⟩ shown
        exact .ok (shown.keep closed defined)

/-- A fragment is resolved once, and read at every spread. -/
theorem displays_spreadWith (scene : Scene) (depth : Nat) {opened : List String} {labels : Labels}
    {state : Resolution} (path : List String) (name : String)
    (room : (Shapes.unopened scene.definitions opened).length ≤ depth)
    (keeps : scene.Keeps labels state) (tidy : state.Tidy scene opened) :
    Displays scene opened (Shapes.ofSpread scene.addTypename scene.definitions opened) path state
      (FieldSet.fields <$> spreadWith scene.addTypename scene.definitions depth opened path name)
      fun spread path => spread path name := by
  induction depth generalizing opened path name labels state with
  | zero =>
    refine displays_spread path keeps tidy fun closed fragment defined => ?_
    have fewer := Shapes.length_unopened_lt closed defined
    omega
  | succ depth ih =>
    refine displays_spread path keeps tidy fun closed fragment defined => ⟨depth, rfl, ?_⟩
    have fewer := Shapes.length_unopened_lt closed defined
    exact
      { serves := ⟨rfl, fun path other keeps => Scene.gives_spreadWith scene _ _ path other keeps⟩
        exact := Shapes.exact_ofSpread _ _ _
        spread := fun path other keeps tidy => ih path other (by omega) keeps tidy }

end Resolving

/-- The fields that are resolved are those of a plain reading of the document, with its variables
in their order, or there is the same error. -/
theorem FieldSet.paired_resolve (addTypename : Bool) (definitions : Table Fragment)
    (selections : List Selection) :
    Paired (fun resolved read => Fields.shapes resolved.root.fields = read.1 ∧
        resolved.used = read.2)
      (FieldSet.resolve addTypename definitions selections)
      (Shapes.ofDocument addTypename definitions selections) := by
  have room : (Shapes.unopened definitions []).length ≤ definitions.size :=
    Nat.le_trans (List.length_filter_le _ _) (Nat.le_of_eq (List.length_map _))
  have mirrors : Mirrors ⟨Table.empty, addTypename, definitions⟩ []
      ⟨addTypename, spreadWith addTypename definitions definitions.size []⟩
      (Shapes.ofSpread addTypename definitions []) :=
    { serves := ⟨rfl, fun path name keeps =>
        Scene.gives_spreadWith ⟨Table.empty, addTypename, definitions⟩ _ _ path name keeps⟩
      exact := Shapes.exact_ofSpread _ _ _
      spread := fun path name keeps tidy => displays_spreadWith _ _ path name room keeps tidy }
  have keeps : Scene.Keeps ⟨Table.empty, addTypename, definitions⟩ (fun _ => none)
      ⟨0, [], Table.empty⟩ :=
    ⟨below_none, fun name set present => by cases present⟩
  have tidy : Resolution.Tidy ⟨Table.empty, addTypename, definitions⟩ []
      ⟨0, [], Table.empty⟩ :=
    ⟨fun name member => (List.not_mem_nil member).elim, fun _ _ _ _ present => nomatch present⟩
  have resolved := displays_resolve mirrors [] selections keeps Fields.proper_nil .nil tidy
  refine resolved.bind ?_
  rintro ⟨fields, later⟩ ⟨shapes, names⟩ shown
  obtain rfl : Fields.shapes fields = shapes := shown.shapes
  by_cases empty : fields.isEmpty
  · simp only [Fields.isEmpty_shapes, if_pos empty]
    exact .error _
  · simp only [Fields.isEmpty_shapes, if_neg empty]
    exact .ok ⟨rfl, shown.used⟩

/-- Fragments that are resolved once are the fragments that are read at every spread. -/
theorem FieldSet.resolve_eq_ofDocument (addTypename : Bool) (definitions : Table Fragment)
    (selections : List Selection) :
    (FieldSet.resolve addTypename definitions selections).map
        (fun resolved => (Fields.shapes resolved.root.fields, resolved.used)) =
      Shapes.ofDocument addTypename definitions selections := by
  have same := FieldSet.paired_resolve addTypename definitions selections
  generalize FieldSet.resolve addTypename definitions selections = resolved at same ⊢
  generalize Shapes.ofDocument addTypename definitions selections = read at same ⊢
  cases same with
  | error problem => rfl
  | ok h => exact congrArg Except.ok (Prod.ext h.1 h.2)

end ResponseGraph
