import ResponseGraph.Proofs.Field.Reading
import ResponseGraph.Proofs.Field.Resolved

/-!
Fragments that are read again.

A state of resolving is tidy if every fragment that has been resolved can be read again, at any
path and whatever else is open around it, with the shapes it has and with nothing but variables
that were met before (`Resolution.Tidy`).  What has been resolved shows the shapes that are read
(`Shown`): they are read now, and again ever after.  This is kept by one reading after another,
and when a fragment is resolved.
-/

namespace ResponseGraph

open Labels

/-! ## Variables -/

namespace Resolving

variable {used names : List String}

theorem record_append (used names more : List String) :
    record used (names ++ more) = record (record used names) more := List.foldl_append ..

theorem mem_record {name : String} : name ∈ record used names ↔ name ∈ used ∨ name ∈ names := by
  induction names generalizing used with
  | nil => simp [record]
  | cons first rest ih =>
    have next : record used (first :: rest) =
      record (if used.contains first then used else used ++ [first]) rest := rfl
    rw [next, ih]
    split
    · next known =>
      have member : first ∈ used := by simpa using known
      have told : name = first → name ∈ used := fun same => same ▸ member
      rw [List.mem_cons]
      tauto
    · rw [List.mem_append, List.mem_singleton, List.mem_cons, or_assoc]

/-- Names that are known are not recorded again. -/
theorem record_of_subset (known : names ⊆ used) : record used names = used := by
  induction names with
  | nil => rfl
  | cons first rest ih =>
    have first' : used.contains first := by simpa using known List.mem_cons_self
    show record (if used.contains first then used else used ++ [first]) rest = used
    rw [if_pos first']
    exact ih fun name member => known (List.mem_cons_of_mem _ member)

end Resolving

/-! ## Fragments that have been resolved -/

namespace Resolution

/-- Whatever has been used or resolved stays so. -/
structure Grows (state later : Resolution) : Prop where
  used : state.used ⊆ later.used
  fragments : ∀ name set, state.fragments.get? name = some set →
    later.fragments.get? name = some set

theorem Grows.refl (state : Resolution) : state.Grows state := ⟨List.Subset.refl _, fun _ _ => id⟩

theorem Grows.trans {state later last : Resolution} (first : state.Grows later)
    (second : later.Grows last) : state.Grows last :=
  ⟨List.Subset.trans first.used second.used,
    fun name set present => second.fragments name set (first.fragments name set present)⟩

/-- Each fragment that has been resolved is read at any path, with nothing but known variables. -/
def Replays (state : Resolution) (spread : List String → String → Shapes.Read) : Prop :=
  ∀ name set, state.fragments.get? name = some set → ∀ path, ∃ names,
    spread path name = .ok (Fields.shapes set.fields, names) ∧ names ⊆ state.used

/-- None of the fragments has been resolved. -/
def Lacks (state : Resolution) (names : List String) : Prop :=
  ∀ name ∈ names, state.fragments.get? name = none

theorem Lacks.append {state : Resolution} {names : List String} {name : String}
    (lacks : state.Lacks names) (absent : state.fragments.get? name = none) :
    state.Lacks (names ++ [name]) := by
  intro other member
  rcases List.mem_append.mp member with member | single
  · exact lacks other member
  · rw [List.mem_singleton.mp single]
    exact absent

/-- The open fragments have not been resolved, and those that have are read again whatever else
is open around them. -/
structure Tidy (scene : Scene) (opened : List String) (state : Resolution) : Prop where
  opened : state.Lacks opened
  replays : ∀ others, state.Lacks others →
    state.Replays (Shapes.ofSpread scene.addTypename scene.definitions others)

end Resolution

namespace Shapes

/-- A way to read shapes at a path, given what spreads stand for. -/
abbrev Reader := (List String → String → Read) → List String → Read

end Shapes

/-- Resolving led from one state to another and gave the fields, and the reader reads their
shapes: now, with the variables that were recorded, and ever after, with known ones. -/
structure Shown (scene : Scene) (opened : List String) (reader : Shapes.Reader)
    (state : Resolution) (fields : Fields) (later : Resolution) (read : Shapes × List String) :
    Prop where
  shapes : Fields.shapes fields = read.1
  used : later.used = Resolving.record state.used read.2
  grows : state.Grows later
  tidy : later.Tidy scene opened
  again : ∀ spread path last, later.Grows last → last.Replays spread → ∃ names,
    reader spread path = .ok (read.1, names) ∧ names ⊆ last.used

namespace Shown

variable {scene : Scene} {opened : List String} {state later last : Resolution}
  {fields : Fields} {read : Shapes × List String}

theorem pure (tidy : state.Tidy scene opened) :
    Shown scene opened (fun _ _ => .ok (Fields.shapes fields, [])) state fields state
      (Fields.shapes fields, []) where
  shapes := rfl
  used := rfl
  grows := .refl state
  tidy := tidy
  again := fun _ _ _ _ _ => ⟨[], rfl, List.nil_subset _⟩

/-- One reader after another. -/
theorem andThen {first : Shapes.Reader} (second : Shapes → Shapes.Reader) {middle : Fields}
    {shapes : Shapes} {names : List String}
    (h : Shown scene opened first state middle later (shapes, names))
    (h' : Shown scene opened (second shapes) later fields last read) :
    Shown scene opened
      (fun spread path => (first spread path).andThen fun shapes => second shapes spread path)
      state fields last (read.1, names ++ read.2) where
  shapes := h'.shapes
  used := by rw [h'.used, h.used, Resolving.record_append]
  grows := h.grows.trans h'.grows
  tidy := h'.tidy
  again := by
    intro spread path final grows replays
    obtain ⟨names, here, known⟩ := h.again spread path final (h'.grows.trans grows) replays
    obtain ⟨others, there, known'⟩ := h'.again spread path final grows replays
    refine ⟨names ++ others, ?_, List.append_subset.mpr ⟨known, known'⟩⟩
    rw [here]
    show (second shapes spread path >>= _) = _
    rw [there]
    rfl

end Shown

namespace Resolution

/-- The state after names have been recorded. -/
def recording (state : Resolution) (names : List String) : Resolution :=
  { state with used := Resolving.record state.used names }

theorem grows_recording (state : Resolution) (names : List String) :
    state.Grows (state.recording names) :=
  ⟨fun _ member => Resolving.mem_record.mpr (Or.inl member), fun _ _ => id⟩

theorem Tidy.recording {scene : Scene} {opened : List String} {state : Resolution}
    (tidy : state.Tidy scene opened) (names : List String) :
    (state.recording names).Tidy scene opened := by
  refine ⟨tidy.opened, fun others lacks name set present path => ?_⟩
  obtain ⟨met, read, known⟩ := tidy.replays others lacks name set present path
  exact ⟨met, read, List.Subset.trans known (state.grows_recording names).used⟩

end Resolution

theorem Scene.Keeps.recording {scene : Scene} {labels : Labels} {state : Resolution}
    (keeps : scene.Keeps labels state) (names : List String) :
    scene.Keeps labels (state.recording names) := ⟨keeps.free, keeps.fragments⟩

/-- Variables are recorded, shapes are read, and something is made of them that does not depend
on the path. -/
theorem Shown.make {scene : Scene} {opened : List String} {reader : Shapes.Reader}
    {state later : Resolution} {fields made : Fields} {shapes shapes' : Shapes}
    {names met : List String} {label : Nat}
    {make : List String → Shapes → Except DocumentError Shapes}
    (h : Shown scene opened reader (state.recording names) fields later (shapes, met))
    (same : Fields.shapes made = shapes') (ok : ∀ path, make path shapes = .ok shapes') :
    Shown scene opened (fun spread path => (reader spread path).make names (make path)) state made
      { later with nextLabel := label }
      (shapes', names ++ met) where
  shapes := same
  used := by
    rw [Resolving.record_append]
    exact h.used
  grows := (state.grows_recording names).trans ⟨h.grows.used, h.grows.fragments⟩
  tidy := ⟨h.tidy.opened, h.tidy.replays⟩
  again := by
    intro spread path last grows replays
    obtain ⟨met', here, known⟩ := h.again spread path last ⟨grows.used, grows.fragments⟩ replays
    refine ⟨names ++ met', ?_, List.append_subset.mpr ⟨fun name member => ?_, known⟩⟩
    · rw [here]
      show (make path shapes >>= _) = _
      rw [ok path]
      rfl
    · exact grows.used (h.grows.used (Resolving.mem_record.mpr (Or.inr member)))

/-- The reader may read at another path. -/
theorem Shown.moved {scene : Scene} {opened : List String} {reader : Shapes.Reader}
    {state later : Resolution} {fields : Fields} {read : Shapes × List String}
    (move : List String → List String) (h : Shown scene opened reader state fields later read) :
    Shown scene opened (fun spread path => reader spread (move path)) state fields later read :=
  ⟨h.shapes, h.used, h.grows, h.tidy, fun spread path => h.again spread (move path)⟩

/-- The shapes of selections, besides others. -/
abbrev Shapes.reader (scene : Scene) (into : Shapes) (selections : List Selection) :
    Shapes.Reader :=
  fun spread path => Shapes.ofSelections ⟨scene.addTypename, spread⟩ path into selections

section Fragments

variable {scene : Scene} {opened : List String} {state : Resolution}

namespace Resolution

/-- The state after a fragment has been resolved. -/
def keeping (state : Resolution) (name : String) (set : FieldSet) : Resolution :=
  { state with
    nextLabel := state.nextLabel + 1
    fragments := state.fragments.insert name set }

variable {later : Resolution} {name : String} {set : FieldSet}

theorem grows_keeping (absent : later.fragments.get? name = none) (set : FieldSet) :
    later.Grows (later.keeping name set) := by
  refine ⟨List.Subset.refl _, fun other found present => ?_⟩
  have different : name ≠ other := by
    rintro rfl
    rw [absent] at present
    cases present
  rw [keeping, Table.get?_insert, if_neg different, present]

/-- Whatever was open around a fragment is still open after it. -/
theorem Tidy.keeping (closed : name ∉ opened) (tidy : later.Tidy scene (opened ++ [name]))
    (replay : ∀ others, later.Lacks others → name ∉ others → ∀ path, ∃ names,
      Shapes.ofSpread scene.addTypename scene.definitions others path name =
        .ok (Fields.shapes set.fields, names) ∧ names ⊆ later.used) :
    (later.keeping name set).Tidy scene opened := by
  have get? (other : String) : (later.keeping name set).fragments.get? other =
      if name = other then some set else later.fragments.get? other := Table.get?_insert ..
  constructor
  · intro other member
    have different : name ≠ other := fun same => closed (same ▸ member)
    rw [get?, if_neg different]
    exact tidy.opened other (List.mem_append.mpr (Or.inl member))
  · intro others lacks
    have outside : name ∉ others := by
      intro member
      have none := lacks name member
      rw [get?, if_pos rfl] at none
      cases none
    have before : later.Lacks others := by
      intro other member
      have none := lacks other member
      have different : name ≠ other := fun same => outside (same ▸ member)
      rwa [get?, if_neg different] at none
    intro other found present path
    rw [get?] at present
    split at present
    · next same =>
      subst same
      cases present
      exact replay others before outside path
    · exact tidy.replays others before other found present path

end Resolution

/-- A fragment that is resolved where it is not open. -/
theorem Shown.keep {name : String} {fragment : Fragment} {fields : Fields} {later : Resolution}
    {label : Nat} {shapes : Shapes} {met : List String} (closed : name ∉ opened)
    (defined : scene.definitions.get? name = some fragment)
    (h : Shown scene (opened ++ [name]) (Shapes.reader scene [] fragment.selections)
      (state.recording (Directive.variableNames fragment.directives)) fields later (shapes, met)) :
    Shown scene opened (fun spread path => spread path name) state fields
      (later.keeping name ⟨label, fields⟩)
      (shapes, Directive.variableNames fragment.directives ++ met) := by
  obtain rfl : Fields.shapes fields = shapes := h.shapes
  have absent : later.fragments.get? name = none :=
    h.tidy.opened name (List.mem_append.mpr (Or.inr List.mem_cons_self))
  refine ⟨rfl, ?_, ?_, h.tidy.keeping closed ?_, ?_⟩
  · rw [Resolving.record_append]
    exact h.used
  · exact ((state.grows_recording _).trans h.grows).trans (Resolution.grows_keeping absent _)
  · intro others lacks outside path
    -- Around the fragment the others are open, and it is itself.
    obtain ⟨names, read, known⟩ := h.again
      (Shapes.ofSpread scene.addTypename scene.definitions (others ++ [name])) path later
      (.refl later) (h.tidy.replays _ (lacks.append absent))
    refine ⟨Directive.variableNames fragment.directives ++ names, ?_,
      List.append_subset.mpr ⟨fun used member => ?_, known⟩⟩
    · rw [Shapes.ofSpread_of_get? outside defined]
      show Shapes.Read.make _ _ (Shapes.reader scene [] fragment.selections _ path) = _
      rw [read]
      rfl
    · exact h.grows.used (Resolving.mem_record.mpr (Or.inr member))
  · intro spread path last grows replays
    exact replays name ⟨label, fields⟩
      (grows.fragments _ _ (by rw [Resolution.keeping, Table.get?_insert, if_pos rfl])) path

end Fragments

end ResponseGraph
