import ResponseGraph.Proofs.Payload.Beside
import ResponseGraph.Proofs.Payload.Settled

/-!
Places that a consistent payload does not touch.

A path of a node is untouched if nothing but objects was brought to it or below it, and nothing
above it but lists that have it inside.  Such a path has what it had before, and that does not
depend on the order in which the payload is walked.  There is one exception: an item that a list
did not have is null.

A site that is seen for the first time is untouched until then (`untouched_of_unseen`).
-/

namespace ResponseGraph

open Nodes NodeId Visit

/-- Whatever is not an object was brought elsewhere, or it is a list and the path goes into one
of its items. -/
def Visit.Untouched (seen : List Visit) (id : NodeId) (path : Path) : Prop :=
  ∀ place content, .brought ⟨id, place⟩ content ∈ seen → content ≠ .object →
    Path.Apart place path ∨
      ∃ length i rest, content = .list length ∧ i < length ∧ path = place ++ .index i :: rest

/-- The path is an item of a list that was seen. -/
def Visit.Itemed (seen : List Visit) (id : NodeId) (path : Path) : Prop :=
  ∃ above i length, path = above ++ [.index i] ∧ i < length ∧
    .brought ⟨id, above⟩ (.list length) ∈ seen

/-- At the path there is what was there before, or null for an item that a list did not have. -/
def Nodes.Stays (base nodes : Nodes) (seen : List Visit) (id : NodeId) (path : Path) : Prop :=
  nodes.read id path = base.read id path ∨
    base.read id path = none ∧ nodes.read id path = some .null ∧ Itemed seen id path

/-- Untouched paths have what they had. -/
def Intact (base nodes : Nodes) (seen : List Visit) : Prop :=
  ∀ id path, Untouched seen id path → base.Stays nodes seen id path

namespace Visit

variable {seen more : List Visit} {id : NodeId} {path : Path} {site : Site}

theorem Untouched.of_brought (h : Untouched more id path)
    (within : ∀ site content, .brought site content ∈ seen → .brought site content ∈ more) :
    Untouched seen id path := fun place content member => h place content (within _ _ member)

theorem Untouched.mono (h : Untouched more id path) (subset : seen ⊆ more) :
    Untouched seen id path := h.of_brought fun _ _ member => subset member

theorem Itemed.of_brought (h : Itemed seen id path)
    (within : ∀ site content, .brought site content ∈ seen → .brought site content ∈ more) :
    Itemed more id path := by
  obtain ⟨above, i, length, e, inside, member⟩ := h
  exact ⟨above, i, length, e, inside, within _ _ member⟩

/-- A path inside what was seen is untouched if nothing but objects was brought to it or below. -/
theorem untouched_of_objects (consistent : Consistent seen) (enclosed : Enclosed seen site)
    (objects : ∀ rest content, .brought ⟨site.container, site.path ++ rest⟩ content ∈ seen →
      content = .object) : Untouched seen site.container site.path := by
  intro place content member other
  rcases Path.cases place site.path with ⟨rest, e⟩ | ⟨step, rest, rfl⟩ | apart
  · cases rest with
    | nil =>
      refine absurd (objects [] content ?_) other
      rw [e]
      simpa using member
    | cons step rest =>
      obtain ⟨around, above, leads⟩ := enclosed place step rest e
      have leads := leads.of_agrees (consistent _ _ _ member above)
      rcases Content.leads_cases leads with ⟨object, -⟩ | ⟨length, i, list, rfl, inside⟩
      · exact absurd object other
      · exact Or.inr ⟨length, i, rest, list, inside, e⟩
  · exact absurd (objects (step :: rest) content member) other
  · exact Or.inl apart

/-- What is brought to an untouched path for the first time comes to what was there before. -/
theorem untouched_of_unseen (nested : Nested seen) (consistent : Consistent seen)
    (enclosed : Enclosed seen site) (unseen : ∀ content, .brought site content ∉ seen) :
    Untouched seen site.container site.path := by
  refine untouched_of_objects consistent enclosed fun rest content member => ?_
  cases rest with
  | nil =>
    rw [List.append_nil] at member
    exact absurd member (unseen content)
  | cons step rest =>
    obtain ⟨around, above, -⟩ := nested.enclosed _ content member site.path step rest rfl
    exact absurd above (unseen around)

end Visit

namespace Shaped

variable {nodes : Nodes} {seen : List Visit} {site : Site} {path : Path}

/-- A write inside what was seen leaves every path apart from it: no list has to be filled up. -/
theorem read_write_apart (h : Shaped nodes seen) (enclosed : Enclosed seen site) (value : Value)
    (apart : Path.Apart site.path path) :
    (nodes.write site.container site.path value).read site.container path =
      nodes.read site.container path := by
  have bears : nodes.Bears site.container site.path := h.bears enclosed
  cases held : nodes.read site.container path with
  | some found => exact Nodes.read_write_apart bears apart held
  | none =>
    refine Option.eq_none_iff_forall_ne_some.mpr fun found read => ?_
    rcases of_read_write apart read with old | ⟨-, above, i, j, rest, e, rfl, lt⟩
    · rw [held] at old
      cases old
    · obtain ⟨content, around, leads⟩ := enclosed above (.index i) rest e
      obtain ⟨items, list, long⟩ : ∃ items, nodes.read site.container above =
          some (.list items) ∧ i < items.length := by
        rcases Content.leads_cases leads with ⟨-, name, e⟩ | ⟨length, k, rfl, e, inside⟩
        · cases e
        · cases e
          obtain ⟨items, list, long⟩ := h _ _ around
          exact ⟨items, list, by omega⟩
      rw [read_append, list, Option.bind_some, Value.get?_cons, Value.step?_index,
        show (Value.list items).items = items from rfl, List.getElem?_eq_getElem (by omega)] at held
      cases held

end Shaped

namespace Nodes.Stays

variable {base nodes nodes' : Nodes} {seen more : List Visit} {id : NodeId} {path : Path}

theorem of_brought (h : base.Stays nodes seen id path)
    (within : ∀ site content, .brought site content ∈ seen → .brought site content ∈ more) :
    base.Stays nodes more id path :=
  h.imp_right fun filled => And.imp_right (And.imp_right (Itemed.of_brought · within)) filled

theorem mono (h : base.Stays nodes seen id path) (subset : seen ⊆ more) :
    base.Stays nodes more id path := h.of_brought fun _ _ member => subset member

theorem of_eq (h : base.Stays nodes seen id path)
    (same : nodes'.read id path = nodes.read id path) : base.Stays nodes' seen id path := by
  unfold Stays
  rwa [same]

/-- An item that was not there is null from now on. -/
theorem fill (h : base.Stays nodes seen id path)
    (filled : nodes'.read id path = some ((nodes.read id path).getD .null))
    (item : Itemed seen id path) : base.Stays nodes' seen id path := by
  cases held : nodes.read id path with
  | some value =>
    rw [held] at filled
    exact h.of_eq (filled.trans held.symm)
  | none =>
    rw [held] at filled
    rcases h with same | ⟨-, stored, -⟩
    · exact Or.inr ⟨same.symm.trans held, filled, item⟩
    · rw [held] at stored
      cases stored

end Nodes.Stays

namespace Intact

variable {base nodes : Nodes} {seen more : List Visit} {site : Site}

/-- A write where something other than an object is brought leaves what is untouched. -/
theorem write (h : Intact base nodes seen) (shaped : Shaped nodes seen)
    (enclosed : Enclosed seen site) (value : Value) (subset : seen ⊆ more) {id : NodeId}
    {path : Path} (untouched : Untouched more id path)
    (apart : site.container = id → Path.Apart site.path path) :
    base.Stays (nodes.write site.container site.path value) more id path := by
  refine ((h id path (untouched.mono subset)).mono subset).of_eq ?_
  by_cases same : site.container = id
  · subst same
    exact shaped.read_write_apart enclosed value (apart rfl)
  · exact read_write_of_ne same

end Intact

namespace Walk

variable {identify : Json → Option NodeId} {walk walk' : Walk} {seen seen' : List Visit}
  {place : Place} {content : Content} {base : Nodes}

/-- A list that takes its length keeps the items for which there is room. -/
theorem Fitted.intact {length : Nat}
    (h : Fitted walk place (list? (walk.stored? place)) length walk')
    (intact : Intact base walk.draft.node? seen) (shaped : Shaped walk.draft.node? seen)
    (enclosed : Enclosed seen place.site) :
    Intact base walk'.draft.node? (.brought place.site (.list length) :: seen) := by
  have subset := List.subset_cons_self (Visit.brought place.site (.list length)) seen
  intro id path untouched
  have before := (intact id path (untouched.mono subset)).mono subset
  rcases h.draft with e | e
  · rw [e]
    exact before
  · rw [e, Draft.nodes_set_write]
    by_cases same : place.container = id
    · subst same
      rcases untouched place.path _ List.mem_cons_self (fun e => by cases e) with
        apart | ⟨_, i, rest, e, inside, rfl⟩
      · exact intact.write shaped enclosed _ subset untouched fun _ => apart
      · cases e
        have read : Nodes.read walk.draft.node? place.container (place.path ++ .index i :: rest) =
            (Value.list ((list? (walk.stored? place)).getD [])).get? (.index i :: rest) := by
          rw [read_stored, get?_items]
        cases rest with
        | nil =>
          refine before.fill ?_ ⟨place.path, i, length, rfl, inside, List.mem_cons_self⟩
          rw [read_write_append, read, Value.get?_resize_item _ inside]
        | cons step rest =>
          refine before.of_eq ?_
          rw [read_write_append, read, Value.get?_resize_below _ inside]
    · exact intact.write shaped enclosed _ subset untouched fun e => absurd e same

theorem Brings.intact (h : Brings identify walk place content walk')
    (intact : Intact base walk.draft.node? seen) (shaped : Shaped walk.draft.node? seen)
    (enclosed : Enclosed seen place.site) :
    Intact base walk'.draft.node? (.brought place.site content :: seen) := by
  have subset := List.subset_cons_self (Visit.brought place.site content) seen
  cases content with
  | list length =>
    cases h
    exact (fitted ..).intact intact shaped enclosed
  | object =>
    cases h
    exact fun id path untouched => (intact id path (untouched.mono subset)).mono subset
  | leaf | null | entity | misfit =>
    intro id path untouched
    rcases h.touches.written with e | ⟨value, e⟩
    · rw [e]
      exact (intact id path (untouched.mono subset)).mono subset
    · rw [e, Draft.nodes_set_write]
      refine intact.write shaped enclosed value subset untouched fun same => ?_
      subst same
      refine (untouched place.path _ List.mem_cons_self fun e => by cases e).resolve_right ?_
      rintro ⟨_, _, _, e, -⟩
      cases e

/-- A step of a consistent walk leaves what it does not touch. -/
theorem Step.intact (h : Step identify walk seen walk' seen') (formed : Formed walk seen)
    (intact : Intact base walk.draft.node? seen) : Intact base walk'.draft.node? seen' := by
  have subset := h.seen_subset
  cases h with
  | warned warnings => exact intact
  | grown name around address fresh =>
    have missing := formed.sound.nodes.eq_none_of_not_linked address fresh
    intro id path untouched
    refine (intact id path untouched).of_eq ?_
    rw [nodes_grow, read_sprout missing rfl]
  | brought due brings => exact brings.intact intact formed.shaped (due.enclosed formed.nested)
  | entered => exact fun id path untouched => (intact id path (untouched.mono subset)).mono subset

end Walk

namespace Forming

variable {seen : List Visit} {draft : Draft} {change : LinkChange} {changes : List LinkChange}
  {base : Nodes}

/-- A change of a reference is made where something was brought. -/
theorem intact (h : Forming draft (change :: changes) seen) (nested : Nested seen)
    (intact : Intact base draft.node? seen) : Intact base (draft.apply change).node? seen := by
  intro id path untouched
  cases change with
  | detach container place target =>
    exact (intact id path untouched).of_eq (Draft.read_apply_detach _ _ _ _ _ _)
  | relink container place next =>
    obtain ⟨content, brought, decides⟩ :=
      h.accounted.relinked container place next List.mem_cons_self
    have written := intact.write h.shaped (nested.enclosed _ content brought) (.referring next)
      (List.Subset.refl _) untouched fun same => by
        subst same
        refine (untouched place content brought fun e => ?_).resolve_right ?_
        · subst e
          cases decides
        · rintro ⟨_, _, _, rfl, -⟩
          cases decides
    exact written.of_eq (Draft.read_apply_relink _ _ _ _ _ _)

theorem intact_applyAll (h : Forming draft changes seen) (nested : Nested seen)
    (consistent : Consistent seen) (intact : Intact base draft.node? seen) :
    Intact base (draft.applyAll changes).node? seen := by
  induction changes generalizing draft with
  | nil => exact intact
  | cons change changes ih =>
    exact ih (h.apply nested consistent) (h.intact nested intact)

end Forming
end ResponseGraph
