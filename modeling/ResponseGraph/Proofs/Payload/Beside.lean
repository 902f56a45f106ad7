import ResponseGraph.Proofs.Payload.Settled
import ResponseGraph.Proofs.Payload.Tour

/-!
What a merge leaves alone.

A visit is beside a path of a node if it is neither at the path nor below it, and if what it
brings above the path has room for what is stored there: an object has, and so has a list that
is long enough, but no leaf, null or entity.  If all visits of a merge are beside a path, the
data at the path is the same before and after (`Framed`).

The payload need not say one thing about each place, so nothing is known of the shape of what is
written on the way.  What carries the proof instead is that the steps of the path are of the
same kinds as those of the walk wherever something is stored, so no container that the walk comes
through gives way.
-/

namespace ResponseGraph

open Nodes NodeId Visit

namespace Content

/-- What is stored at the step may stay when the content is brought. -/
def Admits : Content → Step → Prop
  | .object, _ => True
  | .list length, .index i => i < length
  | _, _ => False

instance (content : Content) (step : Step) : Decidable (content.Admits step) := by
  unfold Admits
  split <;> infer_instance

end Content

namespace Visit

/-- The visit is not at the path of the node or below it, and what it brings above the path
admits what is there. -/
def Beside (id : NodeId) (path : Path) : Visit → Prop
  | .brought site content =>
    site.container = id → ¬ path <+: site.path ∧
      ∀ rest ∈ Path.stripBase? site.path path, ∀ step ∈ rest.head?, content.Admits step
  | .entered _ _ _ _ => True

instance (id : NodeId) (path : Path) (visit : Visit) : Decidable (visit.Beside id path) := by
  unfold Beside
  split <;> infer_instance

/-- The visit comes to the node. -/
def Comes (id : NodeId) : Visit → Prop
  | .brought site _ => site.container = id
  | .entered _ _ _ _ => False

instance (id : NodeId) (visit : Visit) : Decidable (visit.Comes id) := by
  unfold Comes
  split <;> infer_instance

theorem beside_of_not_comes {id : NodeId} {visit : Visit} (h : ¬ visit.Comes id) (path : Path) :
    visit.Beside id path := by
  cases visit with
  | brought site content => exact fun same => absurd same h
  | entered => trivial

/-- All visits that were seen are beside the path, and no list has it as an item. -/
structure Clear (id : NodeId) (path : Path) (seen : List Visit) : Prop where
  beside : ∀ visit ∈ seen, visit.Opens ∨ visit.Beside id path
  item : ∀ above i length, .brought ⟨id, above⟩ (.list length) ∈ seen →
    path = above ++ [.index i] → length ≤ i

namespace Clear

variable {id : NodeId} {path place above rest : Path} {step : Step} {content : Content}
  {seen more : List Visit}

theorem mono (h : Clear id path more) (subset : seen ⊆ more) : Clear id path seen :=
  ⟨fun visit member => h.beside visit (subset member),
    fun above i length member => h.item above i length (subset member)⟩

theorem admits (h : Clear id path seen) (around : .brought ⟨id, above⟩ content ∈ seen)
    (e : path = above ++ step :: rest) : content.Admits step := by
  rcases h.beside _ around with ⟨-, rfl⟩ | beside
  · trivial
  · exact (beside rfl).2 _ ((Path.stripBase?_eq_some_iff _ _ _).mpr e) step rfl

/-- A path leads through a place that was seen, or the two are apart. -/
theorem cases (h : Clear id path seen) (here : .brought ⟨id, place⟩ content ∈ seen)
    (other : content ≠ .object) :
    Path.Apart place path ∨
      ∃ step rest, path = place ++ step :: rest ∧ content.Admits step := by
  have outside : ¬ path <+: place := by
    rcases h.beside _ here with ⟨-, object⟩ | beside
    · exact absurd object other
    · exact (beside rfl).1
  rcases Path.cases place path with ⟨rest, e⟩ | ⟨step, rest, rfl⟩ | apart
  · cases rest with
    | nil =>
      rw [List.append_nil] at e
      exact absurd (e ▸ List.prefix_refl path) outside
    | cons step rest => exact Or.inr ⟨step, rest, e, h.admits here e⟩
  · exact absurd (List.prefix_append _ _) outside
  · exact Or.inl apart

theorem apart (h : Clear id path seen) (here : .brought ⟨id, place⟩ content ∈ seen)
    (closed : ∀ step, ¬ content.Admits step) : Path.Apart place path := by
  refine (h.cases here fun object => ?_).resolve_right fun given => ?_
  · subst object
    exact closed default trivial
  · obtain ⟨step, -, -, admits⟩ := given
    exact closed step admits

/-- A path that leads through a list goes on below one of its items. -/
theorem cases_list (h : Clear id path seen) {length : Nat}
    (here : .brought ⟨id, place⟩ (.list length) ∈ seen) :
    Path.Apart place path ∨
      ∃ i step rest, path = place ++ .index i :: step :: rest ∧ i < length := by
  refine (h.cases here fun object => by cases object).imp_right fun given => ?_
  obtain ⟨step, rest, e, admits⟩ := given
  cases step with
  | key name => exact admits.elim
  | index i =>
    cases rest with
    | nil => exact absurd (h.item place i length here e) (Nat.not_le.mpr admits)
    | cons next rest => exact ⟨i, next, rest, e, admits⟩

end Clear

/-- If the tour is beside the path, so is all that a merge sees. -/
theorem clear_of_toured {identify : Json → Option NodeId} {visits seen : List Visit}
    {walk walk' : Walk} {root id : NodeId} {path : Path}
    (toured : Toured identify visits walk [.brought (.root root) .object] walk' seen)
    (itemized : Itemized visits) (beside : ∀ visit ∈ visits, visit.Beside id path) :
    Clear id path seen := by
  refine ⟨fun visit member => ?_, fun above i length member e => ?_⟩
  · cases visit with
    | entered => exact Or.inl trivial
    | brought site content =>
      exact (toured.mem_or_opens member).symm.imp_right fun made => beside _ made
  · have made : .brought ⟨id, above⟩ (.list length) ∈ visits :=
      (toured.mem_or_opens member).resolve_right fun opens => by cases opens.2
    refine Nat.not_lt.mp fun inside => ?_
    obtain ⟨content, item⟩ := itemized _ length made i inside
    exact (beside _ item rfl).1 (e ▸ List.prefix_refl path)

/-- What a merge sees besides its tour names no entity. -/
theorem mem_of_toured {identify : Json → Option NodeId} {visits seen : List Visit}
    {walk walk' : Walk} {root id : NodeId} {visit : Visit}
    (toured : Toured identify visits walk [.brought (.root root) .object] walk' seen)
    (member : visit ∈ seen) (entity : id ∈ visit.entity?) : visit ∈ visits := by
  cases visit with
  | entered => cases entity
  | brought site content =>
    refine (toured.mem_or_opens member).resolve_right fun opens => ?_
    obtain ⟨-, rfl⟩ := opens
    cases entity

theorem Named.of_toured {identify : Json → Option NodeId} {visits seen : List Visit}
    {walk walk' : Walk} {root : NodeId} (named : Named visits)
    (toured : Toured identify visits walk [.brought (.root root) .object] walk' seen) :
    Named seen := fun visit member id entity =>
  named visit (mem_of_toured toured member entity) id entity

end Visit

/-! ## What stays -/

/-- The nodes still have what `base` has at a path, and the path goes on by a key wherever an
object was seen above it. -/
structure Framed (base : Nodes) (id : NodeId) (path : Path) (nodes : Nodes) (seen : List Visit) :
    Prop where
  kept : nodes.read id path = base.read id path
  keyed : ∀ above step rest, path = above ++ step :: rest → .brought ⟨id, above⟩ .object ∈ seen →
    (base.read id path).isSome → ∃ name, step = .key name

/-- From what is not a list only a key leads on. -/
theorem Nodes.exists_key {nodes : Nodes} {id : NodeId} {above rest : Path} {step : Step}
    (noList : ∀ value, nodes.read id above = some value → value.list? = none)
    (stored : (nodes.read id (above ++ step :: rest)).isSome) : ∃ name, step = .key name := by
  obtain ⟨found, stored⟩ := Option.isSome_iff_exists.mp stored
  rw [read_append] at stored
  obtain ⟨value, held, stored⟩ := Option.bind_eq_some_iff.mp stored
  cases step with
  | key name => exact ⟨name, rfl⟩
  | index i =>
    rw [Value.get?_cons, Value.step?_index,
      Value.items_of_list?_eq_none (noList value held)] at stored
    cases stored

namespace Framed

variable {base nodes : Nodes} {id container : NodeId} {path place : Path} {value : Value}
  {seen : List Visit}

theorem start {root : NodeId} (rooted : nodes.Rooted) (whole : Whole root) :
    Framed nodes id path nodes [.brought (.root root) .object] := by
  refine ⟨rfl, fun above step rest e member stored => ?_⟩
  cases List.mem_singleton.mp member
  rw [e] at stored
  exact Nodes.exists_key (fun value held => (rooted id whole value held).1) stored

/-- A write inside what was seen leaves a path that is apart from it. -/
theorem write (h : Framed base id path nodes seen) (clear : Clear id path seen)
    (enclosed : Enclosed seen ⟨container, place⟩)
    (apart : container = id → Path.Apart place path) :
    Framed base id path (nodes.write container place value) seen := by
  refine ⟨?_, h.keyed⟩
  by_cases same : container = id
  · subst same
    rw [← h.kept]
    refine read_write_eq (apart rfl) ?_ ?_
    -- Something is stored at the path, so where it parts from the place it goes on by a step of
    -- the same kind, and the container there does not give way.
    · intro found stored above step rest e along outer held
      obtain ⟨beyond, rfl⟩ := along
      obtain ⟨content, around, leads⟩ := enclosed above step rest e
      cases beyond with
      | nil =>
        rw [List.append_nil] at apart
        exact absurd ⟨_, e.symm⟩ (apart rfl).2
      | cons next beyond =>
        have there : (base.read container (above ++ next :: beyond)).isSome := by
          rw [← h.kept, stored]
          rfl
        rw [read_append, held, Option.bind_some, Value.get?_cons] at stored
        obtain ⟨below, taken, -⟩ := Option.bind_eq_some_iff.mp stored
        have admits := clear.admits around rfl
        rcases Content.leads_cases leads with ⟨rfl, name, rfl⟩ | ⟨length, i, rfl, rfl, -⟩
        · obtain ⟨other, rfl⟩ := h.keyed above next beyond rfl around there
          exact Value.bears_of_step?_key taken name
        · cases next with
          | key other => exact admits.elim
          | index j => exact Value.bears_of_step?_index taken i
    -- All items of a list that was seen are visited, so the path is none of those that a write
    -- further on may fill up.
    · intro fills
      obtain ⟨above, i, j, rest, e, rfl, lt⟩ := fills
      obtain ⟨content, around, leads⟩ := enclosed above (.index i) rest e
      rcases Content.leads_cases leads with ⟨-, name, e⟩ | ⟨length, k, rfl, e, inside⟩
      · cases e
      · cases e
        have := clear.item above j length around rfl
        omega
  · rw [read_write_of_ne same, h.kept]

end Framed

namespace Walk

variable {identify : Json → Option NodeId} {walk walk' : Walk} {seen seen' : List Visit}
  {place : Place} {content : Content} {base : Nodes} {id : NodeId} {path : Path}

/-! ## Steps beside a path -/

/-- A list that is fitted is resized, if anything is written. -/
theorem Fitted.draft {previous : Option (List Value)} {length : Nat}
    (h : Fitted walk place previous length walk') :
    walk'.draft = walk.draft ∨ walk'.draft = walk.draft.set place.container place.path
      (.list (Value.resize (previous.getD []) length)) := by
  cases h with
  | kept => exact Or.inl rfl
  | made stored | grown stored | cut stored =>
    subst stored
    exact Or.inr rfl

/-- Below an index there is what the items of a list have, if there is a list. -/
theorem get?_items (stored : Option Value) (i : Nat) (rest : Path) :
    (Value.list ((list? stored).getD [])).get? (.index i :: rest) =
      stored.bind fun value => value.get? (.index i :: rest) := by
  cases stored with
  | none => rfl
  | some value => cases value <;> rfl

/-- A write for a visit that is apart from the path leaves it. -/
theorem Touches.kept (h : Touches walk place content walk')
    (framed : Framed base id path walk.draft.node? seen) (clear : Clear id path seen)
    (enclosed : Enclosed seen place.site)
    (apart : place.container = id → Path.Apart place.path path) :
    Nodes.read walk'.draft.node? id path = base.read id path := by
  rcases h.written with e | ⟨value, e⟩
  · rw [e, framed.kept]
  · rw [e, Draft.nodes_set_write]
    exact (framed.write clear enclosed apart).kept

theorem Fitted.kept_path {length : Nat}
    (h : Fitted walk place (list? (walk.stored? place)) length walk')
    (framed : Framed base id path walk.draft.node? seen)
    (clear : Clear id path (.brought place.site (.list length) :: seen))
    (enclosed : Enclosed seen place.site) :
    Nodes.read walk'.draft.node? id path = base.read id path := by
  have touches : Touches walk place (.list length) walk' := h.touches
  have before := clear.mono (List.subset_cons_self _ seen)
  by_cases same : place.container = id
  · subst same
    rcases clear.cases_list List.mem_cons_self with apart | ⟨i, step, rest, rfl, inside⟩
    · exact touches.kept framed before enclosed fun _ => apart
    · change Nodes.read _ _ (place.path ++ _) = Nodes.read _ _ (place.path ++ _)
      rcases h.draft with e | e
      · rw [e]
        exact framed.kept
      · rw [e, Draft.nodes_set_write, read_write_append, Value.get?_resize_below _ inside,
          get?_items, ← read_stored]
        exact framed.kept
  · exact touches.kept framed before enclosed fun e => absurd e same

theorem Brings.kept (h : Brings identify walk place content walk')
    (framed : Framed base id path walk.draft.node? seen)
    (clear : Clear id path (.brought place.site content :: seen))
    (enclosed : Enclosed seen place.site) :
    Nodes.read walk'.draft.node? id path = base.read id path := by
  have before := clear.mono (List.subset_cons_self _ seen)
  have closed : (∀ step, ¬ content.Admits step) → place.container = id →
      Path.Apart place.path path := by
    intro closed same
    subst same
    exact clear.apart List.mem_cons_self closed
  cases content with
  | object =>
    cases h
    exact framed.kept
  | list length =>
    cases h
    exact (fitted ..).kept_path framed clear enclosed
  | leaf | null | entity | misfit =>
    exact h.touches.kept framed before enclosed (closed fun _ admits => admits)

theorem Step.framed (h : Step identify walk seen walk' seen') (named : Named seen')
    (orderly : Orderly walk seen) (clear : Clear id path seen')
    (framed : Framed base id path walk.draft.node? seen) :
    Framed base id path walk'.draft.node? seen' := by
  cases h with
  | warned warnings => exact framed
  | @grown place name arguments other around address fresh =>
    have missing := orderly.sound.nodes.eq_none_of_not_linked address fresh
    refine ⟨?_, framed.keyed⟩
    rw [nodes_grow, read_sprout missing rfl, framed.kept]
  | @brought place content _ due brings =>
    refine ⟨brings.kept framed clear (due.enclosed orderly.nested), ?_⟩
    intro above step rest e member stored
    rcases List.mem_cons.mp member with new | old
    · cases new
      cases brings with
      | object noList noEntity =>
        rw [← framed.kept, e] at stored
        refine Nodes.exists_key (fun value held => ?_) stored
        change walk.stored? place = some value at held
        rw [held] at noList
        exact noList
    · exact framed.keyed above step rest e old stored
  | @entered site other set fields members around =>
    refine ⟨framed.kept, fun above step rest e member stored => ?_⟩
    simp only [List.mem_cons, reduceCtorEq, false_or] at member
    rcases member with new | old
    · cases new
      have whole : Whole id :=
        named _ (List.mem_cons_of_mem _ (List.mem_cons_of_mem _ around)) id rfl
      rw [← framed.kept, e] at stored
      exact Nodes.exists_key (fun value held => (orderly.rooted id whole value held).1) stored
    · exact framed.keyed above step rest e old stored

theorem Run.framed (h : Run identify walk seen walk' seen') (named : Named seen')
    (orderly : Orderly walk seen) (clear : Clear id path seen')
    (framed : Framed base id path walk.draft.node? seen) :
    Framed base id path walk'.draft.node? seen' := by
  induction h with
  | refl => exact framed
  | tail run step ih =>
    have kept := step.seen_subset
    exact step.framed named (run.orderly (named.mono kept) orderly) clear
      (ih (named.mono kept) (clear.mono kept))

end Walk

/-! ## Changes beside a path -/

namespace Framed

variable {base : Nodes} {id : NodeId} {path : Path} {draft : Draft} {change : LinkChange}
  {changes : List LinkChange} {seen : List Visit}

/-- A change writes at most where an entity or null was brought. -/
theorem apply (h : Framed base id path draft.node? seen) (clear : Clear id path seen)
    (nested : Nested seen) (accounted : Accounted (change :: changes) seen) :
    Framed base id path (draft.apply change).node? seen := by
  cases change with
  | detach container place target =>
    refine ⟨?_, h.keyed⟩
    rw [Draft.read_apply_detach, h.kept]
  | relink container place next =>
    obtain ⟨content, brought, decides⟩ :=
      accounted.relinked container place next List.mem_cons_self
    refine ⟨?_, h.keyed⟩
    rw [Draft.read_apply_relink]
    refine (h.write clear (nested.enclosed _ content brought) fun same => ?_).kept
    subst same
    refine clear.apart brought fun step admits => ?_
    cases content <;> first | exact admits | cases decides

theorem applyAll (h : Framed base id path draft.node? seen) (clear : Clear id path seen)
    (nested : Nested seen) (accounted : Accounted changes seen) :
    Framed base id path (draft.applyAll changes).node? seen := by
  induction changes generalizing draft with
  | nil => exact h
  | cons change changes ih => exact ih (h.apply clear nested accounted) accounted.tail

end Framed

theorem Draft.rooted_applyAll {draft : Draft} {changes : List LinkChange} {seen : List Visit}
    (rooted : Nodes.Rooted draft.node?) (nested : Nested seen)
    (accounted : Accounted changes seen) : Nodes.Rooted (draft.applyAll changes).node? := by
  induction changes generalizing draft with
  | nil => exact rooted
  | cons change changes ih => exact ih (rooted_apply rooted nested accounted) accounted.tail

namespace Walk

variable {walk : Walk} {seen : List Visit} {base : Nodes} {id : NodeId} {path : Path}

theorem Orderly.rooted_finish (h : Orderly walk seen) : Nodes.Rooted walk.finish.node? :=
  Draft.collectOrphans_induct (motive := fun nodes _ => Nodes.Rooted nodes)
    (fun _ _ _ _ kept => kept) (fun _ id _ _ _ _ kept => kept.collected id) _
    (Draft.rooted_applyAll h.rooted h.nested h.accounted)

/-- Whatever is left of a node in the end is there as it was. -/
theorem Orderly.kept_finish (h : Orderly walk seen) (clear : Clear id path seen)
    (framed : Framed base id path walk.draft.node? seen) (has : Nodes.Has walk.finish.node? id) :
    Nodes.read walk.finish.node? id path = base.read id path := by
  unfold finish at has ⊢
  rw [Draft.read_collectOrphans _ has]
  exact (framed.applyAll clear h.nested h.accounted).kept

end Walk
end ResponseGraph
