import ResponseGraph.Proofs.Payload.Attended
import ResponseGraph.Proofs.Payload.Covered
import ResponseGraph.Proofs.Payload.Moored
import ResponseGraph.Proofs.Payload.Untouched

/-!
Objects and lists that are stored.

A list or an entity that a payload brings is stored at its place.  An object without an id is
not stored by itself: its place is taken when something else is brought below it.  If nothing
but such objects is brought there, the place keeps what it had, and that may be null.

Nothing is asked of links without a reference here, so a value without sub-selection may come
to where something is linked.
-/

namespace ResponseGraph

open Nodes NodeId Visit

namespace Content

/-- An object or a list. -/
def Composite : Content → Prop
  | .list _ | .object | .entity _ => True
  | _ => False

variable {content : Content} {stored : Option Value}

theorem object_iff_of_agrees {other : Content} (same : other.agrees content) :
    other = .object ↔ content = .object := by
  constructor
  · rintro rfl
    cases content <;> first | rfl | cases same
  · rintro rfl
    exact eq_object_of_agrees same

theorem Composite.of_agrees {other : Content} (h : content.Composite)
    (same : other.agrees content) : other.Composite := by
  cases content with
  | list | object | entity => cases other <;> trivial
  | leaf | null | misfit => exact h.elim

/-- Something is stored for whatever is not an object without an id. -/
theorem Holds.isSome (h : content.Holds stored) (other : content ≠ .object) : stored.isSome := by
  obtain ⟨fits, refers⟩ := h
  cases content with
  | leaf | null | list =>
    obtain ⟨value, rfl, -⟩ := fits
    rfl
  | object => exact absurd rfl other
  | entity id =>
    rw [refers _ rfl]
    rfl
  | misfit => exact fits.elim

theorem Holds.occupied (h : content.Holds stored) (composite : content.Composite)
    (other : content ≠ .object) : Walk.occupied stored := by
  obtain ⟨fits, refers⟩ := h
  cases content with
  | list length =>
    obtain ⟨items, rfl, -⟩ := fits
    rfl
  | object => exact absurd rfl other
  | entity id =>
    rw [refers _ rfl]
    rfl
  | leaf | null | misfit => exact composite.elim

end Content

/-- What is stored above something is neither absent nor null. -/
theorem Nodes.occupied_of_below {nodes : Nodes} {id : NodeId} {path rest : Path} {step : Step}
    (stored : (nodes.read id (path ++ step :: rest)).isSome) :
    Walk.occupied (nodes.read id path) := by
  rw [read_append] at stored
  by_contra empty
  rcases Walk.occupied_eq_false.mp (Bool.eq_false_iff.mpr empty) with e | e
  · rw [e] at stored
    cases stored
  · rw [e, Option.bind_some, Value.get?_null_cons] at stored
    cases stored

namespace Visit

/-- Nothing but objects without an id is brought below the site. -/
def Hollow (seen : List Visit) (site : Site) : Prop :=
  ∀ step rest content, .brought ⟨site.container, site.path ++ step :: rest⟩ content ∈ seen →
    content = .object

variable {seen all : List Visit} {site : Site}

theorem Hollow.untouched (h : Hollow seen site) (nested : Nested seen)
    (consistent : Consistent seen) (here : .brought site .object ∈ seen) :
    Untouched seen site.container site.path := by
  refine untouched_of_objects consistent (nested.enclosed site _ here) fun rest content member => ?_
  cases rest with
  | nil =>
    rw [List.append_nil] at member
    exact Content.eq_object_of_agrees (consistent _ _ _ member here)
  | cons step rest => exact h step rest content member

/-- What was seen of a payload tells whether a site is hollow. -/
theorem hollow_iff (within : seen ⊆ all)
    (covers : ∀ site content, .brought site content ∈ all →
      ∃ other, .brought site other ∈ seen ∧ other.agrees content) :
    Hollow seen site ↔ Hollow all site := by
  constructor
  · intro hollow step rest content member
    obtain ⟨other, here, same⟩ := covers _ content member
    exact (Content.object_iff_of_agrees same).mp (hollow step rest other here)
  · exact fun hollow step rest content member => hollow step rest content (within member)

end Visit

/-- Stored values stay or are null where there was nothing. -/
theorem Nodes.Stays.occupied_iff {base nodes : Nodes} {seen : List Visit} {id : NodeId}
    {path : Path}
    (h : base.Stays nodes seen id path) :
    Walk.occupied (nodes.read id path) ↔ Walk.occupied (base.read id path) := by
  rcases h with same | ⟨missing, filled, -⟩
  · rw [same]
  · rw [missing, filled]
    exact Iff.rfl

namespace Walk

/-- What holds between the steps of a consistent walk that starts at a node to which nothing
refers, over a draft whose references are linked. -/
structure Furnished (root : NodeId) (base : Nodes) (walk : Walk) (seen : List Visit) : Prop where
  formed : Formed walk seen
  attended : Attended root walk seen
  tied : Tied root walk seen
  intact : Intact base walk.draft.node? seen

variable {identify : Json → Option NodeId} {walk walk' : Walk} {seen seen' : List Visit}
  {base : Nodes} {root : NodeId}

theorem Step.furnished (h : Step identify walk seen walk' seen') (unnamed : identify .null = none)
    (whole : Whole root) (named : Named seen') (distinct : Distinct root seen')
    (consistent : Consistent seen') (furnished : Furnished root base walk seen) :
    Furnished root base walk' seen' :=
  ⟨h.formed unnamed named consistent furnished.formed, h.attended named furnished.attended,
    h.tied whole distinct furnished.formed.sound furnished.tied,
    h.intact furnished.formed furnished.intact⟩

theorem Run.furnished (h : Run identify walk seen walk' seen') (unnamed : identify .null = none)
    (whole : Whole root) (named : Named seen') (distinct : Distinct root seen')
    (consistent : Consistent seen') (furnished : Furnished root base walk seen) :
    Furnished root base walk' seen' := by
  induction h with
  | refl => exact furnished
  | tail run step ih =>
    have kept := step.seen_subset
    exact step.furnished unnamed whole named distinct consistent
      (ih (named.mono kept) (distinct.mono kept) (consistent.mono kept))

namespace Furnished

variable {site : Site} {content : Content}

theorem start {draft : Draft} (sound : Nodes.Sound (fun _ => False) draft.node?)
    (rooted : Nodes.Rooted draft.node?) (whole : Whole root) (backed : Backed draft.node?)
    (attended : Nodes.Attended root (fun _ => False) draft.node?) (aloof : draft.Aloof root) :
    Furnished root draft.node? (.ofDraft draft) [.brought (.root root) .object] :=
  ⟨.start sound rooted whole, .start sound whole backed attended, .start aloof,
    fun _ _ _ => Or.inl rfl⟩

theorem backed (h : Furnished root base walk seen) (consistent : Consistent seen) :
    Backed (walk.draft.applyAll walk.changes).node? :=
  Draft.backed_applyAll h.formed.nested consistent h.formed.accounted h.formed.sound.applicable
    h.attended.severed h.attended.backed

/-- Whatever was seen is still there after the collection. -/
theorem read_finish (h : Furnished root base walk seen) (consistent : Consistent seen)
    (member : .brought site content ∈ seen) (path : Path) :
    Nodes.read walk.finish.node? site.container path =
      Nodes.read (walk.draft.applyAll walk.changes).node? site.container path :=
  ((h.tied.kept h.formed consistent (h.backed consistent)).2 _
    (h.tied.held site content member)).2 path

/-- An object without an id is stored if something was, or if something else is below it. -/
theorem occupied_object (h : Furnished root base walk seen) (consistent : Consistent seen)
    (member : .brought site .object ∈ seen) :
    occupied (Nodes.read walk.finish.node? site.container site.path) ↔
      (Hollow seen site → occupied (base.read site.container site.path)) := by
  rw [h.read_finish consistent member]
  by_cases hollow : Hollow seen site
  · have stays := h.formed.forming.intact_applyAll h.formed.nested consistent h.intact _ _
      (hollow.untouched h.formed.nested consistent member)
    rw [stays.occupied_iff]
    exact ⟨fun before _ => before, fun before => before hollow⟩
  · refine iff_of_true ?_ fun impossible => absurd impossible hollow
    obtain ⟨step, rest, content, below, other⟩ : ∃ step rest content,
        .brought ⟨site.container, site.path ++ step :: rest⟩ content ∈ seen ∧
          content ≠ .object := by
      simpa [Hollow] using hollow
    exact Nodes.occupied_of_below ((h.formed.holds consistent below).isSome other)

/-- Every object and list that was seen is stored, but for hollow objects where nothing was. -/
theorem occupied_iff (h : Furnished root base walk seen) (consistent : Consistent seen)
    (member : .brought site content ∈ seen) (composite : content.Composite) :
    occupied (Nodes.read walk.finish.node? site.container site.path) ↔
      (content = .object → Hollow seen site → occupied (base.read site.container site.path)) := by
  by_cases object : content = .object
  · subst object
    rw [h.occupied_object consistent member]
    exact ⟨fun stored _ => stored, fun stored => stored rfl⟩
  · refine iff_of_true ?_ fun e => absurd e object
    rw [h.read_finish consistent member]
    exact (h.formed.holds consistent member).occupied composite object

end Furnished
end Walk
end ResponseGraph
