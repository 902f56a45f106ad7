import ResponseGraph.Proofs.Field.Combined

/-!
Resolved selections.

Resolving keeps an invariant (`Resolution.Keeps`): the labels from the counter on are free,
and every fragment that has been resolved has a known set that stands for its selections.
Under it the fields that come out of a selection are proper, and stand for whatever occurs
in the selection besides what the fields stood for before.
-/

namespace ResponseGraph

open Labels
open Selection (Occurs OccursBelow)

/-- The environment of one document under the variables of one request. -/
structure Scene where
  bindings : Bindings
  addTypename : Bool
  definitions : Table Fragment

namespace Scene

variable (scene : Scene)

abbrev occurs (selections : List Selection) : Occurrences := Occurs scene.definitions selections

abbrev below (selections : List Selection) : Occurrences :=
  OccursBelow scene.addTypename scene.definitions selections

/-- The fields stand for the occurrences. -/
abbrev Selects (occurs : Occurrences) (fields : Fields) : Prop :=
  Fields.Select scene.bindings scene.below occurs fields

/-- The set of a fragment. -/
def Stands (name : String) (labels : Labels) (set : FieldSet) : Prop :=
  set.Known labels ∧ ∃ definition, scene.definitions.get? name = some definition ∧
    scene.Selects (scene.occurs definition.selections) set.fields

/-- Fields that got whatever occurs elsewhere. -/
def Adds (into : Fields) (others : Occurrences) (labels : Labels) (fields : Fields) : Prop :=
  Fields.Proper labels fields ∧ ∀ occurs, scene.Selects occurs into →
    scene.Selects (fun name guard inner => occurs name guard inner ∨ others name guard inner) fields

/-- The fields stand for the occurrences, and are proper. -/
def Makes (occurs : Occurrences) (labels : Labels) (fields : Fields) : Prop :=
  Fields.Proper labels fields ∧ scene.Selects occurs fields

structure Keeps (labels : Labels) (state : Resolution) : Prop where
  free : labels.Below state.nextLabel
  fragments : ∀ name set, state.fragments.get? name = some set → scene.Stands name labels set

/-- Whatever resolving gives has the property, and the invariant is kept. -/
def Gives {α : Type} (labels : Labels) (state : Resolution) (action : Resolving α)
    (post : Labels → α → Prop) : Prop :=
  ∀ result state', action state = .ok (result, state') →
    ∃ more, labels.Extends more ∧ scene.Keeps more state' ∧ post more result

variable {scene} {α β : Type} {labels more : Labels} {state : Resolution}

theorem Stands.mono {name : String} {set : FieldSet} (h : scene.Stands name labels set)
    (extended : labels.Extends more) : scene.Stands name more set := ⟨h.1.mono extended, h.2⟩

theorem gives_pure {post : Labels → α → Prop} {result : α} (keeps : scene.Keeps labels state)
    (h : post labels result) : scene.Gives labels state (pure result) post := by
  intro result state' e
  cases e
  exact ⟨labels, .refl labels, keeps, h⟩

theorem gives_throw {post : Labels → α → Prop} (problem : DocumentError) :
    scene.Gives labels state (throw problem) post := by
  intro result state' e
  cases e

theorem Gives.bind {action : Resolving α} {continue' : α → Resolving β}
    {middle : Labels → α → Prop} {post : Labels → β → Prop}
    (first : scene.Gives labels state action middle)
    (second : ∀ more state' result, labels.Extends more → scene.Keeps more state' →
      middle more result → scene.Gives more state' (continue' result) post) :
    scene.Gives labels state (action >>= continue') post := by
  intro result state' e
  change (action state).bind _ = _ at e
  cases made : action state with
  | error problem =>
    rw [made] at e
    cases e
  | ok pair =>
    obtain ⟨found, between⟩ := pair
    rw [made] at e
    obtain ⟨more, extended, keeps, holds⟩ := first found between made
    obtain ⟨most, extended', keeps', holds'⟩ :=
      second more between found extended keeps holds result state' e
    exact ⟨most, extended.trans extended', keeps', holds'⟩

theorem Gives.imp {action : Resolving α} {first second : Labels → α → Prop}
    (h : scene.Gives labels state action first)
    (imp : ∀ more result, labels.Extends more → first more result → second more result) :
    scene.Gives labels state action second := by
  intro result state' e
  obtain ⟨more, extended, keeps, holds⟩ := h result state' e
  exact ⟨more, extended, keeps, imp more result extended holds⟩

/-- A computation that takes labels, as a step of resolving. -/
theorem gives_labelling {action : Labelling DocumentError α} {post : Labels → α → Prop}
    (keeps : scene.Keeps labels state) (h : labels.Gives state.nextLabel action post) :
    scene.Gives labels state (Resolving.labelling action) post := by
  intro result state' e
  unfold Resolving.labelling at e
  cases made : action state.nextLabel with
  | error problem =>
    rw [made] at e
    cases e
  | ok pair =>
    rw [made] at e
    cases e
    obtain ⟨more, extended, free, holds⟩ := h _ _ made
    exact ⟨more, extended, ⟨free, fun name set present =>
      (keeps.fragments name set present).mono extended⟩, holds⟩

/-- Recording names changes nothing that the invariant speaks of. -/
theorem gives_use {names : List String} {action : Resolving α} {post : Labels → α → Prop}
    (keeps : scene.Keeps labels state)
    (h : ∀ state', scene.Keeps labels state' → scene.Gives labels state' action post) :
    scene.Gives labels state (Resolving.use names >>= fun _ => action) post :=
  fun result state' e => h { state with used := Resolving.record state.used names }
    ⟨keeps.free, keeps.fragments⟩ result state' e

theorem gives_keep {name : String} {set : FieldSet} (keeps : scene.Keeps labels state)
    (stands : scene.Stands name labels set) :
    scene.Gives labels state (Resolving.keep name set) fun _ _ => True := by
  intro result state' e
  cases e
  refine ⟨labels, .refl labels, ⟨keeps.free, fun other found present => ?_⟩, trivial⟩
  rw [Table.get?_insert] at present
  split at present
  · next same =>
    cases present
    exact same ▸ stands
  · exact keeps.fragments other found present

end Scene

/-! ## Selections with a guard -/

theorem Directive.guard_eq {directives : List Directive} {guard : Guard}
    (h : Guard.ofDirectives? directives = some guard) : Directive.guard directives = guard := by
  unfold Guard.ofDirectives? at h
  unfold Directive.guard
  split at h
  · cases h
  · cases h
    rfl

theorem Directive.guard_eq_nil {directives : List Directive}
    (h : Guard.ofDirectives? directives = none) : Directive.guard directives = [] := by
  unfold Guard.ofDirectives? at h
  unfold Directive.guard
  split at h
  · assumption
  · cases h

theorem Guard.passes_ofDirectives {bindings : Bindings} (directives : List Directive) :
    Guard.Passes bindings (Guard.ofDirectives? directives).toList ↔
      Guard.holds bindings (Directive.guard directives) = .ok true := by
  cases found : Guard.ofDirectives? directives with
  | none =>
    rw [Directive.guard_eq_nil found]
    exact iff_of_true Guard.passes_nil rfl
  | some guard =>
    rw [Directive.guard_eq found]
    exact Guard.passes_singleton

namespace Field

variable {bindings : Bindings} {below : List Selection → Occurrences}
  {here : Guard → List Selection → Prop} {labels : Labels}

theorem known_within {field : Field} (known : field.Known labels) {guard : Guard} {label : Nat}
    (held : labels label = some (.field (field.within guard label))) :
    (field.within guard label).Known labels := by
  cases field with
  | leaf => exact held
  | composite => exact ⟨held, known.2⟩

theorem fair_within {outer : Guard} {head : FieldHead} (fair : head.Fair bindings here) :
    FieldHead.Fair bindings (fun guard inner => ∃ own, guard = own ++ outer ∧ here own inner)
      { head with guards := Guard.within outer head.guards } := by
  refine ⟨fair.1, ?_⟩
  show Guard.Passes bindings (Guard.within outer head.guards) ↔ _
  rw [Guard.passes_within, fair.2]
  constructor
  · intro h
    obtain ⟨⟨own, inner, found, held⟩, held'⟩ := h
    exact ⟨own ++ outer, inner, ⟨own, rfl, found⟩, Guard.holds_append.mpr ⟨held, held'⟩⟩
  · intro h
    obtain ⟨_, inner, ⟨own, rfl, found⟩, held⟩ := h
    rw [Guard.holds_append] at held
    exact ⟨⟨own, inner, found, held.1⟩, held.2⟩

theorem occursWithin_under {outer : Guard} :
    occursWithin below (fun guard inner => ∃ own, guard = own ++ outer ∧ here own inner) =
      occursWithin below here := by
  funext name guard inner
  refine propext ⟨?_, ?_⟩
  · intro h
    obtain ⟨_, selections, ⟨own, rfl, found⟩, occurs⟩ := h
    exact ⟨own, selections, found, occurs⟩
  · intro h
    obtain ⟨own, selections, found, occurs⟩ := h
    exact ⟨own ++ outer, selections, ⟨own, rfl, found⟩, occurs⟩

theorem stands_within {outer : Guard} {label : Nat} {field : Field}
    (stands : field.Stands bindings below here) :
    (field.within outer label).Stands bindings below
      fun guard inner => ∃ own, guard = own ++ outer ∧ here own inner := by
  cases field with
  | leaf =>
    refine ⟨fair_within stands.1, ?_⟩
    rw [occursWithin_under]
    exact stands.2
  | composite =>
    refine ⟨fair_within stands.1, ?_⟩
    rw [occursWithin_under]
    exact stands.2

end Field

/-- Fields inside a selection with a guard. -/
theorem Fields.gives_mapM_within {bindings : Bindings} {below : List Selection → Occurrences}
    {ε : Type} (outer : Guard) (fields : Fields) {labels : Labels} {next : Nat}
    {occurs : Occurrences} (free : labels.Below next) (known : Fields.Known labels fields)
    (stands : Fields.Stands bindings below occurs fields) :
    labels.Gives next (fields.mapM fun (name, field) => do
        return (name, field.within outer (← newLabel)) : Labelling ε Fields) fun more made =>
      made.map Prod.fst = fields.map Prod.fst ∧ Fields.Known more made ∧
        Fields.Stands bindings below (occurs.under outer) made := by
  induction fields generalizing labels next with
  | nil => exact gives_pure free ⟨rfl, trivial, trivial⟩
  | cons entry rest ih =>
    obtain ⟨name, field⟩ := entry
    rw [List.mapM_cons]
    refine Labels.Gives.bind (?_ : Labels.Gives _ _ _ fun more made => made.1 = name ∧
      made.2.Known more ∧ made.2.Stands bindings below (occurs.under outer name)) ?_
    · refine (gives_newLabel free fun label => .field (field.within outer label)).bind
        fun more next' label extended free' held => gives_pure free' ⟨rfl, ?_, ?_⟩
      · exact Field.known_within (known.1.mono extended) held
      · exact Field.stands_within stands.1
    · intro more next' first extended free' made
      refine (ih free' (Fields.Known.mono extended rest known.2) stands.2).bind
        fun most last others extended' free'' more => gives_pure free'' ?_
      obtain ⟨name', field'⟩ := first
      obtain ⟨rfl, known', stands'⟩ := made
      refine ⟨?_, ⟨known'.mono extended', more.2.1⟩, ⟨stands', more.2.2⟩⟩
      rw [List.map_cons, List.map_cons, more.1]

namespace Scene

variable {scene : Scene} {labels : Labels} {next : Nat} {fields : Fields} {occurs : Occurrences}

/-- The fields of a spread or an inline fragment. -/
theorem gives_within (directives : List Directive) (free : labels.Below next)
    (makes : scene.Makes occurs labels fields) :
    labels.Gives next (Fields.within (Guard.ofDirectives? directives) fields)
      (scene.Makes (occurs.under (Directive.guard directives))) := by
  unfold Fields.within
  split
  · next plain =>
    rw [Directive.guard_eq_nil plain]
    have same : occurs.under [] = occurs := by
      funext name guard inner
      simp [Occurrences.under]
    rw [same]
    exact Labels.gives_pure free makes
  · next guard conditional =>
    rw [Directive.guard_eq conditional]
    intro made last e
    obtain ⟨more, extended, free', names, known, stands⟩ :=
      Fields.gives_mapM_within guard fields free makes.1.known makes.2.stands made last e
    refine ⟨more, extended, free', ⟨names ▸ makes.1.names, known⟩, fun name => ?_, stands⟩
    rw [names, makes.2.complete name]
    constructor
    · intro h
      obtain ⟨own, inner, found⟩ := h
      exact ⟨_, inner, own, rfl, found⟩
    · intro h
      obtain ⟨_, inner, own, rfl, found⟩ := h
      exact ⟨own, inner, found⟩

/-- A type name is added to a set that lacks one. -/
theorem makes_typename {selections : List Selection} {label : Nat}
    (makes : scene.Makes (scene.occurs selections) labels fields) (full : fields ≠ [])
    (wanted : scene.addTypename = true) (lacking : Entries.get? "__typename" fields = none)
    (held : labels label = some (.field (.plainLeaf label))) :
    scene.Makes (scene.below selections) labels
      (Entries.put "__typename" (.plainLeaf label) fields) := by
  have nothing := makes.2.nothing lacking
  have something : ∃ name guard inner, scene.occurs selections name guard inner := by
    cases fields with
    | nil => exact absurd rfl full
    | cons entry rest => exact ⟨entry.1, (makes.2.complete entry.1).mp List.mem_cons_self⟩
  have same : (fun name guard inner => scene.occurs selections name guard inner ∨
      name = "__typename" ∧ guard = [] ∧ inner = []) = scene.below selections := by
    funext name guard inner
    unfold below OccursBelow
    simp only [wanted, something, nothing, not_false_eq_true, implies_true, and_true, true_and]
  refine ⟨makes.1.put held, ?_⟩
  rw [← same]
  refine makes.2.put makes.1.names ⟨[], [], rfl, rfl⟩
    ⟨⟨rfl, iff_of_true Guard.passes_nil ?_⟩, ?_⟩
  · exact ⟨[], [], Or.inr ⟨rfl, rfl⟩, rfl⟩
  · intro name guard inner h
    rcases h with ⟨outer, selections', here | ⟨-, rfl⟩, found⟩
    · exact nothing _ _ here
    · rcases found with found | ⟨-, -, -, -, ⟨name, guard, inner, found⟩, -⟩
      · exact Selection.not_occurs_nil found
      · exact Selection.not_occurs_nil found

/-- Nothing is added if no type name is wanted, or there is one. -/
theorem below_eq_occurs {selections : List Selection}
    (makes : scene.Makes (scene.occurs selections) labels fields)
    (present : ¬ (scene.addTypename && (Entries.get? "__typename" fields).isNone) = true) :
    scene.below selections = scene.occurs selections := by
  funext name guard inner
  refine propext ⟨fun found => found.resolve_right ?_, Or.inl⟩
  intro h
  obtain ⟨wanted, -, -, -, -, absent⟩ := h
  rw [wanted, Bool.true_and, Option.isNone_iff_eq_none, Entries.get?_eq_none_iff,
    Classical.not_not, makes.2.complete] at present
  obtain ⟨guard, inner, found⟩ := present
  exact absent guard inner found

/-- The set of a sub-selection stands for whatever occurs in it, type name included. -/
theorem gives_below {selections : List Selection} (free : labels.Below next)
    (makes : scene.Makes (scene.occurs selections) labels fields) :
    labels.Gives next (FieldSet.below? scene.addTypename fields) fun more below? =>
      (below? = none → ∀ name guard inner, ¬ scene.below selections name guard inner) ∧
      ∀ set, below? = some set → set.Known more ∧
        scene.Selects (scene.below selections) set.fields := by
  unfold FieldSet.below?
  split
  · next empty =>
    refine Labels.gives_pure free ⟨fun _ name guard inner found => ?_, fun _ e => by cases e⟩
    rw [List.isEmpty_iff.mp empty] at makes
    rcases found with found | ⟨-, -, -, -, ⟨name, guard, inner, found⟩, -⟩
    · exact List.not_mem_nil ((makes.2.complete _).mpr ⟨guard, inner, found⟩)
    · exact List.not_mem_nil ((makes.2.complete _).mpr ⟨guard, inner, found⟩)
  · next full =>
    split
    · next lacking =>
      rw [Bool.and_eq_true, Option.isNone_iff_eq_none] at lacking
      refine (gives_newLabel free fun label => .field (.plainLeaf label)).bind
        fun more next' label extended free' held => ?_
      refine (gives_newLabel free' fun _ => .set
        (Entries.put "__typename" (.plainLeaf label) fields)).bind
        fun most last set extended' free'' held' => Labels.gives_pure free'' ⟨nofun, fun _ e => ?_⟩
      cases e
      have made := makes_typename ⟨makes.1.mono (extended.trans extended'), makes.2⟩
        (fun none => full (List.isEmpty_iff.mpr none)) lacking.1 lacking.2 (extended' _ _ held)
      exact ⟨⟨held', made.1⟩, made.2⟩
    · next present =>
      rw [below_eq_occurs makes present]
      refine (gives_newLabel free fun _ => .set fields).bind
        fun more next' label extended free' held =>
        Labels.gives_pure free' ⟨nofun, fun _ e => ?_⟩
      cases e
      exact ⟨⟨held, makes.1.mono extended⟩, makes.2⟩

/-! ## Selections -/

variable {labels more : Labels} {state : Resolution} {into middle : Fields}
    {others rest : Occurrences}

theorem Adds.trans (first : scene.Adds into others labels middle)
    (second : scene.Adds middle rest more fields) :
    scene.Adds into (fun name guard inner => others name guard inner ∨ rest name guard inner) more
      fields := by
  refine ⟨second.1, fun occurs select => ?_⟩
  have both := second.2 _ (first.2 occurs select)
  simp only [or_assoc] at both
  exact both

/-- What is added to nothing is made. -/
theorem Adds.makes (h : scene.Adds [] others labels fields) : scene.Makes others labels fields := by
  have nothing : scene.Selects (fun _ _ _ => False) [] := by
    refine ⟨fun name => iff_of_false List.not_mem_nil ?_, trivial⟩
    intro given
    obtain ⟨guard, inner, impossible⟩ := given
    exact impossible
  have all := h.2 _ nothing
  simp only [false_or] at all
  exact ⟨h.1, all⟩

theorem gives_adds {incoming : Fields} {path : List String} (free : labels.Below next)
    (known : Fields.Proper labels into) (makes : scene.Makes others labels incoming) :
    labels.Gives next (Fields.combine path into incoming) (scene.Adds into others) := by
  intro fields last e
  obtain ⟨more, extended, free', joined⟩ :=
    gives_combine_all path into incoming free known makes.1 fields last e
  exact ⟨more, extended, free', joined.1, fun occurs select => joined.2 _ _ select makes.2⟩

/-- Fields inside a selection are put under its guard and added. -/
theorem gives_under {incoming : Fields} {path : List String} (directives : List Directive)
    (keeps : scene.Keeps labels state) (known : Fields.Proper labels into)
    (makes : scene.Makes others labels incoming) :
    scene.Gives labels state (Resolving.labelling do
        let fields ← Fields.within (Guard.ofDirectives? directives) incoming
        Fields.combine path into fields)
      (scene.Adds into (others.under (Directive.guard directives))) :=
  gives_labelling keeps ((gives_within directives keeps.free makes).bind
    fun _ _ _ extended free made => gives_adds free (known.mono extended) made)

/-- The field of a selection. -/
theorem stands_ofSelection (aliasName : Option String) (name : String)
    (arguments : List (String × Literal)) (directives : List Directive) (label : Nat)
    {selections : List Selection} {below? : Option FieldSet}
    (none : below? = none → ∀ name guard inner, ¬ scene.below selections name guard inner)
    (some : ∀ set, below? = some set → scene.Selects (scene.below selections) set.fields) :
    (Field.of label (.ofSelection aliasName name arguments directives) below?).Stands scene.bindings
      scene.below fun guard inner => guard = Directive.guard directives ∧ inner = selections := by
  have within : occursWithin scene.below (fun guard inner =>
      guard = Directive.guard directives ∧ inner = selections) = scene.below selections := by
    funext name guard inner
    refine propext ⟨?_, fun found => ⟨_, selections, ⟨rfl, rfl⟩, found⟩⟩
    intro h
    obtain ⟨outer, _, ⟨-, rfl⟩, found⟩ := h
    exact found
  refine Field.stands_of ?_ (within ▸ none) (within ▸ some)
  have guards : (FieldHead.ofSelection aliasName name arguments directives).guards =
      (Guard.ofDirectives? directives).toList := by
    unfold FieldHead.ofSelection
    split <;> rfl
  refine ⟨?_, ?_⟩
  · unfold FieldHead.ofSelection
    split <;> rfl
  · rw [guards, Guard.passes_ofDirectives]
    exact ⟨fun held => ⟨_, selections, ⟨rfl, rfl⟩, held⟩,
      fun ⟨_, _, ⟨same, _⟩, held⟩ => same ▸ held⟩

/-- A field is added to the fields before it. -/
theorem gives_field {aliasName : Option String} {name : String}
    {arguments : List (String × Literal)} {directives : List Directive} {path : List String}
    {selections : List Selection} (keeps : scene.Keeps labels state)
    (known : Fields.Proper labels into)
    (makes : scene.Makes (scene.occurs selections) labels fields) :
    scene.Gives labels state (Resolving.labelling do
        let below ← FieldSet.below? scene.addTypename fields
        let field :=
          Field.of (← newLabel) (.ofSelection aliasName name arguments directives) below
        Fields.combine path into [(responseName aliasName name, field)])
      (scene.Adds into (scene.occurs [.field aliasName name arguments directives selections])) := by
  refine gives_labelling keeps ((gives_below keeps.free makes).bind
    fun more next' below? extended free below => ?_)
  refine (gives_newLabel free fun label => .field (.of label
    (.ofSelection aliasName name arguments directives) below?)).bind
    fun most last label extended' free' held => ?_
  refine gives_adds free' (known.mono (extended.trans extended'))
    ⟨⟨List.pairwise_singleton _ _, ?_, trivial⟩, ?_⟩
  · exact Field.known_of held fun set present => (below.2 set present).1.mono extended'
  · have stands := stands_ofSelection aliasName name arguments directives label below.1
      fun set present => (below.2 set present).2
    refine ⟨fun other => ?_, ?_, trivial⟩
    · simp only [List.map_cons, List.map_nil, List.mem_singleton, Selection.occurs_field]
      exact ⟨fun same => ⟨_, _, same, rfl, rfl⟩, fun ⟨_, _, same, _⟩ => same⟩
    · have same : scene.occurs [.field aliasName name arguments directives selections]
          (responseName aliasName name) =
            fun guard inner => guard = Directive.guard directives ∧ inner = selections := by
        funext guard inner
        exact propext (Selection.occurs_field.trans (and_iff_right rfl))
      rw [same]
      exact stands

/-- Spreads stand for the selections of their fragments. -/
structure Serves (scene : Scene) (around : Surroundings) : Prop where
  addTypename : around.addTypename = scene.addTypename
  spread : ∀ {labels : Labels} {state : Resolution} (path : List String) (name : String),
    scene.Keeps labels state →
      scene.Gives labels state (around.spread path name) (scene.Stands name)

mutual
theorem gives_resolve {around : Surroundings} (serves : scene.Serves around) (path : List String) :
    (selections : List Selection) → {labels : Labels} → {state : Resolution} → {into : Fields} →
    scene.Keeps labels state → Fields.Proper labels into →
    scene.Gives labels state (Fields.resolve around path into selections)
      (scene.Adds into (scene.occurs selections))
  | [], _, _, _, keeps, known => by
    refine gives_pure keeps ⟨known, fun occurs select => select.or_left fun _ _ _ => ?_⟩
    exact Selection.not_occurs_nil
  | selection :: rest, _, _, _, keeps, known => by
    have split : scene.occurs (selection :: rest) = fun name guard inner =>
        scene.occurs [selection] name guard inner ∨ scene.occurs rest name guard inner := by
      funext name guard inner
      exact propext Selection.occurs_cons
    rw [split]
    refine (gives_resolveOne serves path selection keeps known).bind
      fun more state' middle extended keeps' first => ?_
    exact (gives_resolve serves path rest keeps' first.1).imp fun _ _ _ second => first.trans second

theorem gives_resolveOne {around : Surroundings} (serves : scene.Serves around)
    (path : List String) :
    (selection : Selection) → {labels : Labels} → {state : Resolution} → {into : Fields} →
    scene.Keeps labels state → Fields.Proper labels into →
    scene.Gives labels state (Fields.resolveOne around path into selection)
      (scene.Adds into (scene.occurs [selection]))
  | .field aliasName name arguments directives selections, _, _, into, keeps, known => by
    refine gives_use keeps fun state keeps => gives_use keeps fun state keeps => ?_
    refine (gives_resolve serves (path ++ [responseName aliasName name]) selections keeps
      Fields.proper_nil).bind fun more state' fields extended keeps' made => ?_
    rw [serves.addTypename]
    exact gives_field keeps' (known.mono extended) made.makes
  | .spread fragment directives, _, _, into, keeps, known => by
    refine gives_use keeps fun state keeps => ?_
    refine (serves.spread path fragment keeps).bind fun more state' set extended keeps' stands => ?_
    obtain ⟨set, definition, defined, select⟩ := stands
    have same : scene.occurs [.spread fragment directives] =
        (scene.occurs definition.selections).under (Directive.guard directives) := by
      funext name guard inner
      exact propext (Selection.occurs_spread defined)
    rw [same]
    exact gives_under directives keeps' (known.mono extended) ⟨set.proper, select⟩
  | .inline directives selections, _, _, into, keeps, known => by
    refine gives_use keeps fun state keeps => ?_
    refine (gives_resolve serves path selections keeps Fields.proper_nil).bind
      fun more state' fields extended keeps' made => ?_
    have same : scene.occurs [.inline directives selections] =
        (scene.occurs selections).under (Directive.guard directives) := by
      funext name guard inner
      exact propext Selection.occurs_inline
    rw [same]
    exact gives_under directives keeps' (known.mono extended) made.makes
end

/-! ## Fragments and operations -/

theorem gives_get {post : Labels → α → Prop} {continue' : Resolution → Resolving α}
    (h : scene.Gives labels state (continue' state) post) :
    scene.Gives labels state (get >>= continue') post := h

/-- A fragment is resolved once, and taken from the state afterwards. -/
theorem gives_spreadWith (scene : Scene) (depth : Nat) (opened : List String)
    {labels : Labels} {state : Resolution} (path : List String) (name : String)
    (keeps : scene.Keeps labels state) :
    scene.Gives labels state
      (spreadWith scene.addTypename scene.definitions depth opened path name)
      (scene.Stands name) := by
  induction depth generalizing opened path name labels state with
  | zero =>
    unfold spreadWith
    refine gives_get ?_
    split
    · next set present => exact gives_pure keeps (keeps.fragments name set present)
    · split
      · exact gives_throw _
      · exact gives_throw _
  | succ depth ih =>
    unfold spreadWith
    refine gives_get ?_
    split
    · next set present => exact gives_pure keeps (keeps.fragments name set present)
    · split
      · exact gives_throw _
      · split
        · next remaining fragment same defined =>
          cases same
          refine gives_use keeps fun state keeps => ?_
          have serves : scene.Serves ⟨scene.addTypename,
              spreadWith scene.addTypename scene.definitions depth (opened ++ [name])⟩ :=
            ⟨rfl, fun path other keeps => ih (opened ++ [name]) path other keeps⟩
          refine (gives_resolve serves path fragment.selections keeps Fields.proper_nil).bind
            fun more state' fields extended keeps' made => ?_
          refine (gives_labelling keeps'
            (gives_newLabel keeps'.free fun _ => .set fields)).bind
            fun most last label extended' keeps'' held => ?_
          have stands : scene.Stands name most ⟨label, fields⟩ :=
            ⟨⟨held, made.1.mono extended'⟩, fragment, defined, made.makes.2⟩
          exact (gives_keep keeps'' stands).bind fun all final _ extended'' kept _ =>
            gives_pure kept (stands.mono extended'')
        · exact gives_throw _

end Scene

/-- The fields of a document are known, and stand for its selections. -/
theorem FieldSet.resolve_eq_ok {scene : Scene} {selections : List Selection} {resolved : Resolved}
    (h : FieldSet.resolve scene.addTypename scene.definitions selections = .ok resolved) :
    (∃ labels : Labels, resolved.root.Known labels ∧ labels.Below resolved.nextLabel) ∧
      scene.Selects (scene.occurs selections) resolved.root.fields := by
  have serves : scene.Serves ⟨scene.addTypename,
      spreadWith scene.addTypename scene.definitions scene.definitions.size []⟩ :=
    ⟨rfl, fun path name keeps => Scene.gives_spreadWith scene _ _ path name keeps⟩
  have keeps : scene.Keeps (fun _ => none) ⟨0, [], Table.empty⟩ :=
    ⟨below_none, fun name set present => by cases present⟩
  unfold FieldSet.resolve at h
  cases made : Fields.resolve ⟨scene.addTypename, spreadWith scene.addTypename scene.definitions
      scene.definitions.size []⟩ [] [] selections ⟨0, [], Table.empty⟩ with
  | error e =>
    simp only [made] at h
    cases h
  | ok pair =>
    obtain ⟨fields, state⟩ := pair
    obtain ⟨labels, -, kept, adds⟩ :=
      Scene.gives_resolve serves [] selections keeps Fields.proper_nil fields state made
    simp only [made] at h
    change (if fields.isEmpty then _ else _) = _ at h
    split at h
    · cases h
    · cases h
      refine ⟨⟨labels.assign state.nextLabel (.set fields), ⟨?_, ?_⟩, kept.free.assign _⟩,
        adds.makes.2⟩
      · exact assign_self _ _ _
      · exact adds.1.mono (kept.free.extends_assign _)

end ResponseGraph
