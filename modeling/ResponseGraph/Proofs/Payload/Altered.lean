import ResponseGraph.Proofs.Draft.Counted
import ResponseGraph.Proofs.Payload.Distinct
import ResponseGraph.Proofs.Payload.Moored

/-!
Nodes that a payload alters.

A consistent payload alters a node if it brings something to a place of the node that was
not stored there before.  Whatever a walk counts as edited is altered: the first write into a
node is made where what is brought was not stored, and so is the first change of a
reference.  A node that is made on the way is one that the payload comes to.
-/

namespace ResponseGraph

open Nodes NodeId Visit

/-- Something is brought to the node that was not stored there. -/
def Altered (base : Nodes) (visits : List Visit) (id : NodeId) : Prop :=
  ∃ path content, .brought ⟨id, path⟩ content ∈ visits ∧ ¬ content.Holds (base.read id path)

theorem Altered.mono {base : Nodes} {visits more : List Visit} {id : NodeId}
    (h : Altered base visits id) (subset : visits ⊆ more) : Altered base more id := by
  obtain ⟨path, content, member, differs⟩ := h
  exact ⟨path, content, subset member, differs⟩

theorem Content.Fits.of_readAlike {content : Content} {value value' : Value}
    (fits : content.Fits (some value)) (alike : value.ReadAlike value') (distinct : value.distinct)
    (distinct' : value'.distinct) (leaf : ∀ payload, content = .leaf payload → payload.distinct) :
    content.Fits (some value') := by
  have top := alike.top
  have flat (h : value = .null ∨ ∃ id, value = .reference id) :
      value' = .null ∨ ∃ id, value' = .reference id := by
    rcases h with rfl | ⟨id, rfl⟩
    · exact Or.inl (Value.eq_null_of_sameTop top)
    · exact Or.inr ⟨id, Value.eq_reference_of_sameTop top⟩
  cases content with
  | leaf payload =>
    obtain ⟨held, e, same⟩ := fits
    cases e
    have named := leaf payload rfl
    have like := (Value.sameAsJson_iff distinct named).mp same
    exact ⟨value', rfl, (Value.sameAsJson_iff distinct' named).mpr (alike.symm.trans like)⟩
  | null =>
    obtain ⟨held, e, null⟩ := fits
    cases e
    exact ⟨value', rfl, flat null⟩
  | list length =>
    obtain ⟨items, e, long⟩ := fits
    cases e
    cases value' with
    | list others => exact ⟨others, rfl, (beq_iff_eq.mp top).symm.trans long⟩
    | _ => cases top
  | object =>
    obtain ⟨noList, noEntity⟩ := fits value rfl
    intro found e
    cases e
    exact ⟨Value.list?_of_sameTop top noList, (Value.reference?_of_sameTop top).trans noEntity⟩
  | entity id =>
    intro found e
    cases e
    exact flat (fits value rfl)
  | misfit => exact fits.elim

/-- A content that is stored cannot tell values that are read alike. -/
theorem Content.Holds.of_readAlike {content : Content} {stored stored' : Option Value}
    (holds : content.Holds stored) (alike : Option.Rel Value.ReadAlike stored stored')
    (distinct : ∀ value, stored = some value → value.distinct)
    (distinct' : ∀ value, stored' = some value → value.distinct)
    (leaf : ∀ payload, content = .leaf payload → payload.distinct) : content.Holds stored' := by
  obtain ⟨fits, refers⟩ := holds
  cases alike with
  | none => exact ⟨fits, refers⟩
  | some alike =>
    refine ⟨fits.of_readAlike alike (distinct _ rfl) (distinct' _ rfl) leaf, fun next decides => ?_⟩
    have e := Option.some.inj (refers next decides)
    have top := alike.top
    rw [e] at top
    cases next with
    | none => exact congrArg some (Value.eq_null_of_sameTop top)
    | some id => exact congrArg some (Value.eq_reference_of_sameTop top)

namespace Walk

/-- What a walk counts as edited so far, and what it will. -/
structure Counted (root : NodeId) (base : Nodes) (walk : Walk) (seen : List Visit) : Prop where
  edited : ∀ id, walk.draft.edited.contains id → Altered base seen id
  unedited : ∀ id, ¬ walk.draft.edited.contains id → ∀ path,
    Nodes.read walk.draft.node? id path = base.read id path
  relinked : ∀ id path next, .relink id path next ∈ walk.changes → Altered base seen id
  origin : ∀ id, Nodes.Has walk.draft.node? id →
    base.Has id ∨ Held root walk.draft.node? seen id

variable {identify : Json → Option NodeId} {walk walk' : Walk} {seen seen' : List Visit}
  {place : Place} {content : Content} {base : Nodes} {root : NodeId}

theorem not_mem_changes_detachBelow {first? : Option Nat} {id : NodeId} {path : Path}
    {next : Option NodeId} (h : .relink id path next ∈ (walk.detachBelow place first?).changes) :
    .relink id path next ∈ walk.changes :=
  (mem_changes_detachBelow.mp h).resolve_right fun ⟨_, _, _, e⟩ => by cases e

theorem Fitted.relinks {previous : Option (List Value)} {length : Nat}
    (h : Fitted walk place previous length walk') {id : NodeId} {path : Path}
    {next : Option NodeId} (member : .relink id path next ∈ walk'.changes) :
    .relink id path next ∈ walk.changes := by
  cases h with
  | made | kept | grown => exact member
  | cut =>
    have before := not_mem_changes_detachBelow member
    exact before

/-- A change of a reference is found only where another thing is stored. -/
theorem Brings.relinks (h : Brings identify walk place content walk') {id : NodeId} {path : Path}
    {next : Option NodeId} (member : .relink id path next ∈ walk'.changes) :
    .relink id path next ∈ walk.changes ∨
      (id = place.container ∧ ¬ content.Holds (walk.stored? place)) := by
  cases h with
  | leaf payload =>
    unfold Walk.leaf at member
    split at member <;> exact Or.inl member
  | unlink stored =>
    rcases List.mem_append.mp member with old | new
    · exact Or.inl old
    · cases List.mem_singleton.mp new
      refine Or.inr ⟨rfl, fun holds => ?_⟩
      rw [holds.2 none rfl] at stored
      cases stored
  | clear => exact Or.inl (not_mem_changes_detachBelow member)
  | fill | keep | object | same => exact Or.inl member
  | list length => exact Or.inl ((fitted ..).relinks member)
  | @refer other payload named stored differs =>
    rcases List.mem_append.mp member with old | new
    · exact Or.inl old
    · cases List.mem_singleton.mp new
      refine Or.inr ⟨rfl, fun holds => differs ?_⟩
      rw [holds.2 (some other) rfl]
      rfl

/-- Where something is brought that is not stored, the node is altered. -/
theorem Counted.altered (h : Counted root base walk seen)
    (differs : ¬ content.Holds (walk.stored? place)) :
    Altered base (.brought place.site content :: seen) place.container := by
  by_cases edited : walk.draft.edited.contains place.container
  · exact (h.edited _ edited).mono (List.subset_cons_self _ _)
  · have read : walk.stored? place = base.read place.container place.path :=
      h.unedited _ edited place.path
    rw [read] at differs
    exact ⟨place.path, content, List.mem_cons_self, differs⟩

theorem Counted.brought (h : Counted root base walk seen) (unnamed : identify .null = none)
    (same : content.agrees content)
    (held : ∀ site content, .brought site content ∈ seen →
      Held root walk.draft.node? seen site.container)
    (due : Due walk seen place.site) (brings : Brings identify walk place content walk') :
    Counted root base walk' (.brought place.site content :: seen) := by
  have old := List.subset_cons_self (Visit.brought place.site content) seen
  have touches := brings.touches
  have relinked : ∀ id path next, .relink id path next ∈ walk'.changes →
      Altered base (.brought place.site content :: seen) id := by
    intro id path next member
    rcases brings.relinks member with before | ⟨rfl, differs⟩
    · exact (h.relinked id path next before).mono old
    · exact h.altered differs
  have kept : ∀ id link, link ∈ Nodes.links walk.draft.node? .outbound id →
      link ∈ Nodes.links walk'.draft.node? .outbound id := by
    intro id link member
    rw [touches.links]
    exact member
  have origin : ∀ id, Nodes.Has walk.draft.node? id →
      base.Has id ∨ Held root walk'.draft.node? (.brought place.site content :: seen) id :=
    fun id has => (h.origin id has).imp_right fun held => held.mono old kept
  rcases brings.settles unnamed same with ⟨e, -⟩ | ⟨value, e, -, differs⟩
  · rw [e] at origin
    refine ⟨fun id edited => ?_, ?_, relinked, ?_⟩
    · rw [e] at edited
      exact (h.edited id edited).mono old
    · rw [e]
      exact h.unedited
    · rw [e]
      exact origin
  · refine ⟨fun id edited => ?_, fun id unedited path => ?_, relinked, fun id has => ?_⟩
    · rw [e, Draft.contains_edited_set] at edited
      rcases edited with rfl | edited
      · exact h.altered fun holds => differs holds.1
      · exact (h.edited id edited).mono old
    · rw [e, Draft.contains_edited_set, not_or] at unedited
      rw [e, Draft.nodes_set_write, read_write_of_ne unedited.1]
      exact h.unedited id unedited.2 path
    · rw [e, Draft.has_set] at has
      rcases has with rfl | has
      · exact Or.inr ((due.held held).mono old kept)
      · exact origin id has

theorem Counted.grow {name : String} {arguments : Arguments} {id : NodeId}
    (h : Counted root base walk seen) (moored : Moored root base walk seen)
    (around : .brought place.site .object ∈ seen)
    (address :
      NodeId.parameterized place.container (place.step (.key name)).path arguments = .ok id)
    (fresh : ⟨id, (place.step (.key name)).path⟩ ∉
      Nodes.links walk.draft.node? .outbound place.container) :
    Counted root base (walk.grow (place.step (.key name)) id) seen := by
  have missing := moored.linked.sound.nodes.eq_none_of_not_linked address fresh
  have nodes := nodes_grow walk (place.step (.key name)) id
  have kept : ∀ other link, link ∈ Nodes.links walk.draft.node? .outbound other → link ∈
      Nodes.links (walk.grow (place.step (.key name)) id).draft.node? .outbound other := by
    intro other link member
    rw [nodes, mem_outbound_sprout missing rfl]
    exact Or.inl member
  refine ⟨h.edited, fun other unedited path => ?_, h.relinked, fun other has => ?_⟩
  · rw [nodes, read_sprout missing rfl]
    exact h.unedited other unedited path
  · rw [nodes, has_sprout] at has
    have all := fun {other} (held : Held root walk.draft.node? seen other) =>
      held.mono (List.Subset.refl _) kept
    rcases has with e | e | has
    · subst e
      exact Or.inr (all (moored.held _ _ around))
    · subst e
      refine Or.inr (.value name around ?_ (NodeId.not_whole_of_parameterized address))
      rw [nodes, mem_outbound_sprout missing rfl]
      exact Or.inr ⟨rfl, rfl⟩
    · exact (h.origin other has).imp_right all

theorem Step.counted (h : Step identify walk seen walk' seen') (unnamed : identify .null = none)
    (consistent : Consistent seen') (moored : Moored root base walk seen)
    (counted : Counted root base walk seen) : Counted root base walk' seen' := by
  cases h with
  | warned warnings =>
    exact ⟨counted.edited, counted.unedited, counted.relinked, counted.origin⟩
  | grown name around address fresh => exact counted.grow moored around address fresh
  | brought due brings =>
    exact counted.brought unnamed
      (consistent _ _ _ List.mem_cons_self List.mem_cons_self) moored.held due brings
  | @entered site id set fields members around =>
    have old : seen ⊆ .brought (.root id) .object :: .entered id set fields members :: seen :=
      List.subset_cons_of_subset _ (List.subset_cons_self _ _)
    exact ⟨fun id edited => (counted.edited id edited).mono old, counted.unedited,
      fun id path next member => (counted.relinked id path next member).mono old,
      fun id has => (counted.origin id has).imp_right fun held => held.mono old fun _ _ member =>
        member⟩

theorem Run.counted (h : Run identify walk seen walk' seen') (unnamed : identify .null = none)
    (whole : Whole root) (named : Named seen') (distinct : Distinct root seen')
    (consistent : Consistent seen') (bare : Bare base seen') (moored : Moored root base walk seen)
    (counted : Counted root base walk seen) : Counted root base walk' seen' := by
  induction h with
  | refl => exact counted
  | tail run step ih =>
    have kept := step.seen_subset
    have between := run.moored unnamed whole (named.mono kept) (distinct.mono kept)
      (consistent.mono kept) (bare.mono kept) moored
    exact step.counted unnamed consistent between
      (ih (named.mono kept) (distinct.mono kept) (consistent.mono kept) (bare.mono kept))

theorem Counted.start (root : NodeId) (graph : Graph) (seen : List Visit) :
    Counted root graph.node? (.ofDraft (.ofGraph graph)) seen :=
  ⟨fun _ edited => (by cases edited), fun _ _ _ => rfl,
    fun _ _ _ member => absurd member List.not_mem_nil, fun _ has => Or.inl has⟩

/-- Whatever exists when the changes are made was there before, or the merge comes to it. -/
theorem Counted.origin_applyAll (h : Counted root base walk seen)
    (moored : Moored root base walk seen) {id : NodeId}
    (has : Nodes.Has (walk.draft.applyAll walk.changes).node? id) :
    base.Has id ∨ Held root walk.draft.node? seen id := by
  have accounted := moored.linked.accounted
  rcases Draft.has_of_applyAll has with old | ⟨change, member, rfl | ⟨container, path, rfl⟩⟩
  · exact h.origin id old
  · refine Or.inr ?_
    cases change with
    | detach container path target =>
      obtain ⟨above, step, rest, content, -, around, -⟩ := accounted.detached _ _ _ member
      exact moored.held _ _ around
    | relink container path next =>
      obtain ⟨content, brought, -⟩ := accounted.relinked _ _ _ member
      exact moored.held _ _ brought
  · obtain ⟨content, brought, decides⟩ := accounted.relinked _ _ _ member
    cases content <;> cases decides
    exact Or.inr (.entity brought)

/-- What counts as edited in the end is altered, or it was there and was removed. -/
theorem Counted.finish (h : Counted root base walk seen) (moored : Moored root base walk seen)
    (consistent : Consistent seen) {id : NodeId} (edited : walk.finish.edited.contains id) :
    Altered base seen id ∨ (base.Has id ∧ ¬ Nodes.Has walk.finish.node? id) := by
  rcases Draft.contains_edited_collectOrphans edited with now | ⟨has, gone⟩
  · rcases Draft.contains_edited_applyAll now with before | ⟨path, next, member⟩
    · exact Or.inl (h.edited id before)
    · exact Or.inl (h.relinked id path next member)
  · refine Or.inr ⟨(h.origin_applyAll moored has).resolve_right fun held => gone ?_, gone⟩
    exact ((moored.kept consistent).2 id held).1.mpr has

end Walk
end ResponseGraph
