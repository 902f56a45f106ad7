import ResponseGraph.Proofs.Draft.Kept
import ResponseGraph.Proofs.Payload.Settled

/-!
Nodes that a merge came to.

Whatever a merge sees belongs to the root of the operation, to an entity that was brought,
or to the value of a field with arguments that is linked from something seen before.  If
nothing refers to the root, all these nodes are still there after the collection, and they
hold what was brought.
-/

namespace ResponseGraph

open Nodes NodeId Visit

/-- What the merge comes to in the node is linked from elsewhere, or will be. -/
inductive Visit.Held (root : NodeId) (nodes : Nodes) (seen : List Visit) : NodeId → Prop
  | root : Held root nodes seen root
  | entity {site : Site} {id : NodeId} (around : .brought site (.entity id) ∈ seen) :
    Held root nodes seen id
  | value {site : Site} {id : NodeId} (name : String) (around : .brought site .object ∈ seen)
    (linked : ⟨id, (site.step (.key name)).path⟩ ∈ nodes.links .outbound site.container)
    (apart : ¬ Whole id) : Held root nodes seen id

theorem Visit.Held.mono {root id : NodeId} {nodes more : Nodes} {seen seen' : List Visit}
    (h : Held root nodes seen id) (subset : seen ⊆ seen')
    (kept : ∀ id link, link ∈ nodes.links .outbound id → link ∈ more.links .outbound id) :
    Held root more seen' id := by
  cases h with
  | root => exact .root
  | entity around => exact .entity (subset around)
  | value name around linked apart => exact .value name (subset around) (kept _ _ linked) apart

/-- No entity that is brought is the root. -/
def Visit.Distinct (root : NodeId) (visits : List Visit) : Prop :=
  ∀ visit ∈ visits, ∀ id ∈ visit.entity?, id ≠ root

instance (root : NodeId) (visits : List Visit) : Decidable (Distinct root visits) := by
  unfold Distinct
  infer_instance

theorem Visit.Distinct.mono {root : NodeId} {visits more : List Visit} (h : Distinct root more)
    (subset : visits ⊆ more) : Distinct root visits := fun visit member => h visit (subset member)

namespace Walk

/-- What holds between the steps of any walk that starts at a node to which nothing refers. -/
structure Tied (root : NodeId) (walk : Walk) (seen : List Visit) : Prop where
  held : ∀ site content, .brought site content ∈ seen →
    Held root walk.draft.node? seen site.container
  aloof : walk.draft.Aloof root
  spares : ∀ change ∈ walk.changes, Draft.Spares root change

/-- What holds between the steps of a consistent walk that starts at a node to which nothing
refers. -/
structure Moored (root : NodeId) (base : Nodes) (walk : Walk) (seen : List Visit) : Prop
    extends Tied root walk seen where
  linked : Walk.Linked base walk seen

variable {identify : Json → Option NodeId} {walk walk' : Walk} {seen seen' : List Visit}
  {place : Place} {content : Content} {base : Nodes} {root : NodeId}

theorem Due.held {site : Site} (due : Due walk seen site)
    (held : ∀ site content, .brought site content ∈ seen →
      Held root walk.draft.node? seen site.container) :
    Held root walk.draft.node? seen site.container := by
  cases due with
  | @member site name around => exact held site _ around
  | @item site length index around inside => exact held site _ around
  | value name around address linked =>
    exact .value name around linked (NodeId.not_whole_of_parameterized address)

theorem Touches.aloof (h : Touches walk place content walk') (aloof : walk.draft.Aloof root) :
    walk'.draft.Aloof root := by
  rcases h.written with e | ⟨value, e⟩
  · rw [e]
    exact aloof
  · rw [e]
    exact aloof.set _ _ _

theorem Touches.spares (h : Touches walk place content walk') (aloof : walk.draft.Aloof root)
    (spares : ∀ change ∈ walk.changes, Draft.Spares root change)
    (distinct : ∀ id, content = .entity id → id ≠ root) :
    ∀ change ∈ walk'.changes, Draft.Spares root change := by
  intro change member
  rcases h.collected change member with old | ⟨path, target, rfl, linked⟩ | rfl | ⟨id, rfl, named⟩
  · exact spares change old
  · intro same
    subst same
    exact aloof.unlinked _ _ linked
  · exact fun e => by cases e
  · intro e
    cases e
    exact distinct _ named rfl

theorem Tied.brought (h : Tied root walk seen)
    (distinct : Distinct root (.brought place.site content :: seen))
    (due : Due walk seen place.site) (brings : Brings identify walk place content walk') :
    Tied root walk' (.brought place.site content :: seen) := by
  have touches := brings.touches
  have kept : ∀ id link, link ∈ Nodes.links walk.draft.node? .outbound id →
      link ∈ Nodes.links walk'.draft.node? .outbound id := by
    intro id link member
    rw [touches.links]
    exact member
  have old := List.subset_cons_self (Visit.brought place.site content) seen
  refine ⟨fun site found member => ?_, touches.aloof h.aloof,
    touches.spares h.aloof h.spares fun id e => ?_⟩
  · rcases List.mem_cons.mp member with e | member
    · cases e
      exact (due.held h.held).mono old kept
    · exact (h.held site found member).mono old kept
  · subst e
    exact distinct _ List.mem_cons_self id rfl

theorem Tied.grow {name : String} {arguments : Arguments} {id : NodeId}
    (h : Tied root walk seen) (whole : Whole root) (missing : walk.draft.node? id = none)
    (address :
      NodeId.parameterized place.container (place.step (.key name)).path arguments = .ok id) :
    Tied root (walk.grow (place.step (.key name)) id) seen := by
  have nodes := nodes_grow walk (place.step (.key name)) id
  refine ⟨fun site content member => ?_, ⟨fun other path member => ?_, h.aloof.kept⟩, h.spares⟩
  · refine (h.held site content member).mono (List.Subset.refl _) fun other link old => ?_
    rw [nodes, mem_outbound_sprout missing rfl]
    exact Or.inl old
  · rw [nodes, mem_outbound_sprout missing rfl] at member
    rcases member with old | ⟨-, e⟩
    · exact h.aloof.unlinked other path old
    · cases e
      exact NodeId.not_whole_of_parameterized address whole

theorem Tied.enter {site : Site} {id : NodeId} {set : Nat} {fields : Fields}
    {members : List (String × Json)} (h : Tied root walk seen)
    (around : .brought site (.entity id) ∈ seen) :
    Tied root (walk.mark id set)
      (.brought (.root id) .object :: .entered id set fields members :: seen) := by
  have old : seen ⊆ .brought (.root id) .object :: .entered id set fields members :: seen :=
    List.subset_cons_of_subset _ (List.subset_cons_self _ _)
  refine ⟨fun other content member => ?_, h.aloof, h.spares⟩
  simp only [List.mem_cons, reduceCtorEq, false_or] at member
  rcases member with e | member
  · cases e
    exact .entity (old around)
  · exact (h.held other content member).mono old fun _ _ member => member

theorem Step.tied (h : Step identify walk seen walk' seen') (whole : Whole root)
    (distinct : Distinct root seen') (sound : Walk.Sound walk seen) (tied : Tied root walk seen) :
    Tied root walk' seen' := by
  cases h with
  | warned warnings => exact ⟨tied.held, tied.aloof, tied.spares⟩
  | grown name around address fresh =>
    exact tied.grow whole (sound.nodes.eq_none_of_not_linked address fresh) address
  | brought due brings => exact tied.brought distinct due brings
  | entered set fields members around => exact tied.enter around

theorem Run.tied (h : Run identify walk seen walk' seen') (whole : Whole root)
    (named : Named seen') (distinct : Distinct root seen') (sound : Walk.Sound walk seen)
    (tied : Tied root walk seen) : Tied root walk' seen' := by
  induction h with
  | refl => exact tied
  | tail run step ih =>
    have kept := step.seen_subset
    exact step.tied whole distinct (run.sound (named.mono kept) sound)
      (ih (named.mono kept) (distinct.mono kept))

theorem Tied.start {draft : Draft} (aloof : draft.Aloof root) :
    Tied root (.ofDraft draft) [.brought (.root root) .object] := by
  refine ⟨fun site content member => ?_, aloof, fun _ member => absurd member List.not_mem_nil⟩
  cases List.mem_singleton.mp member
  exact .root

theorem Step.moored (h : Step identify walk seen walk' seen') (unnamed : identify .null = none)
    (whole : Whole root) (named : Named seen') (distinct : Distinct root seen')
    (consistent : Consistent seen') (bare : Bare base seen') (moored : Moored root base walk seen) :
    Moored root base walk' seen' :=
  ⟨h.tied whole distinct moored.linked.sound moored.toTied,
    h.linked unnamed named consistent bare moored.linked⟩

theorem Run.moored (h : Run identify walk seen walk' seen') (unnamed : identify .null = none)
    (whole : Whole root) (named : Named seen') (distinct : Distinct root seen')
    (consistent : Consistent seen') (bare : Bare base seen') (moored : Moored root base walk seen) :
    Moored root base walk' seen' := by
  induction h with
  | refl => exact moored
  | tail run step ih =>
    have kept := step.seen_subset
    exact step.moored unnamed whole named distinct consistent bare
      (ih (named.mono kept) (distinct.mono kept) (consistent.mono kept) (bare.mono kept))

theorem Moored.start {draft : Draft}
    (linked : Linked draft.node? (.ofDraft draft) [.brought (.root root) .object])
    (aloof : draft.Aloof root) :
    Moored root draft.node? (.ofDraft draft) [.brought (.root root) .object] :=
  ⟨.start aloof, linked⟩

end Walk

/-! ## What is left of a merge -/

namespace Content

/-- What is stored in the end for the content. -/
def Holds (content : Content) (stored : Option Value) : Prop :=
  content.Fits stored ∧ ∀ next, content.next? = some next → stored = some (.referring next)

/-- What holds one of two positions that carry the same thing holds the other. -/
theorem Holds.of_agrees {content other : Content} {stored : Option Value}
    (holds : other.Holds stored) (same : other.agrees content) : content.Holds stored := by
  cases content with
  | leaf payload =>
    refine ⟨?_, fun next decides => by cases decides⟩
    cases other with
    | leaf payload' =>
      obtain ⟨value, held, equal⟩ := holds.1
      exact ⟨value, held, Value.sameAsJson_trans value equal same⟩
    | null =>
      refine ⟨.null, holds.2 none rfl, ?_⟩
      cases payload <;> first | rfl | cases same
    | _ => cases same
  | null =>
    cases other with
    | leaf payload' =>
      obtain ⟨value, rfl, equal⟩ := holds.1
      have written : Content.Written (.leaf payload') value := equal
      rw [show value = .referring none from written.eq_referring same rfl]
      exact ⟨⟨.null, rfl, Or.inl rfl⟩, fun next decides => by cases decides; rfl⟩
    | null => exact holds
    | _ => cases same
  | list length => exact eq_list_of_agrees same ▸ holds
  | object => exact eq_object_of_agrees same ▸ holds
  | entity id => exact eq_entity_of_agrees same ▸ holds
  | misfit => cases other <;> cases same

end Content

namespace Walk.Formed

variable {walk : Walk} {seen : List Visit}

/-- The changes leave the links to values of fields with arguments that were seen. -/
theorem keeps_value {site : Site} {id : NodeId} (h : walk.Formed seen)
    (consistent : Consistent seen) (enclosed : Enclosed seen site) (apart : ¬ Whole id)
    (linked : ⟨id, site.path⟩ ∈ Nodes.links walk.draft.node? .outbound site.container) :
    ⟨id, site.path⟩ ∈
      Nodes.links (walk.draft.applyAll walk.changes).node? .outbound site.container :=
  (Draft.mem_value_applyAll h.sound.draft h.sound.applicable apart).mpr ⟨linked, fun detached =>
      (h.accounted.detached _ _ _ detached).not_enclosed consistent enclosed⟩

/-- When the changes are made, all that was seen is stored. -/
theorem holds (h : walk.Formed seen) (consistent : Consistent seen) {site : Site}
    {content : Content} (member : .brought site content ∈ seen) : content.Holds
      (Nodes.read (walk.draft.applyAll walk.changes).node? site.container site.path) := by
  have formed := h.forming.applyAll h.nested consistent
  exact ⟨formed.shaped site content member, fun next decides =>
    (formed.delivered site content next member decides).resolve_right List.not_mem_nil⟩

end Walk.Formed

namespace Walk.Tied

variable {walk : Walk} {seen : List Visit} {root : NodeId}

/-- When the changes are made and every reference is linked, whatever the merge comes to is
linked from the root, at some distance. -/
theorem group (h : walk.Tied root seen) (formed : walk.Formed seen) (consistent : Consistent seen)
    (backed : Nodes.Backed (walk.draft.applyAll walk.changes).node?) :
    Nodes.Moored root (Held root walk.draft.node? seen)
      (walk.draft.applyAll walk.changes).node? := by
  intro id held
  cases held with
  | root => exact Or.inl rfl
  | @entity site _ around =>
    have stored := (formed.holds consistent around).2 _ rfl
    exact Or.inr ⟨site.container, site.path, h.held _ _ around, (backed _ _ _ stored).1⟩
  | @value site _ name around linked apart =>
    have enclosed : Enclosed seen (site.step (.key name)) :=
      formed.nested.enclosed_step around trivial
    have kept := formed.keeps_value consistent enclosed apart linked
    exact Or.inr ⟨site.container, _, h.held _ _ around, kept⟩

/-- Whatever the merge comes to survives the collection as it is. -/
theorem kept (h : walk.Tied root seen) (formed : walk.Formed seen) (consistent : Consistent seen)
    (backed : Nodes.Backed (walk.draft.applyAll walk.changes).node?) :
    Nodes.Aloof root walk.finish.node? ∧ ∀ id, Held root walk.draft.node? seen id →
      (Nodes.Has walk.finish.node? id ↔
        Nodes.Has (walk.draft.applyAll walk.changes).node? id) ∧
      ∀ path, Nodes.read walk.finish.node? id path =
        Nodes.read (walk.draft.applyAll walk.changes).node? id path :=
  (h.aloof.applyAll h.spares).collectOrphans formed.sound.applyAll
    (h.group formed consistent backed)

/-- All that was seen is stored in the end, and so are the nodes that it belongs to. -/
theorem finish (h : walk.Tied root seen) (formed : walk.Formed seen) (consistent : Consistent seen)
    (backed : Nodes.Backed (walk.draft.applyAll walk.changes).node?) :
    Nodes.Aloof root walk.finish.node? ∧ ∀ site content, .brought site content ∈ seen →
      content.Holds (Nodes.read walk.finish.node? site.container site.path) ∧
        (site.container ≠ root → Nodes.Has walk.finish.node? site.container) := by
  obtain ⟨free, kept⟩ := h.kept formed consistent backed
  refine ⟨free, fun site content member => ?_⟩
  have held := h.held site content member
  obtain ⟨has, read⟩ := kept site.container held
  refine ⟨?_, fun other => ?_⟩
  · rw [read]
    exact formed.holds consistent member
  · obtain ⟨container, path, -, linked⟩ :=
      (h.group formed consistent backed _ held).resolve_left other
    exact has.mpr (has_of_mem ((formed.sound.applyAll.mirrored _ _ _).mp linked))

end Walk.Tied

namespace Walk.Moored

variable {base : Nodes} {walk : Walk} {seen : List Visit} {root : NodeId}

theorem backed (h : walk.Moored root base seen) (consistent : Consistent seen) :
    Nodes.Backed (walk.draft.applyAll walk.changes).node? :=
  (h.linked.settling.applyAll h.linked.nested consistent).linked.stored

theorem kept (h : walk.Moored root base seen) (consistent : Consistent seen) :
    Nodes.Aloof root walk.finish.node? ∧ ∀ id, Held root walk.draft.node? seen id →
      (Nodes.Has walk.finish.node? id ↔
        Nodes.Has (walk.draft.applyAll walk.changes).node? id) ∧
      ∀ path, Nodes.read walk.finish.node? id path =
        Nodes.read (walk.draft.applyAll walk.changes).node? id path :=
  h.toTied.kept h.linked.toFormed consistent (h.backed consistent)

theorem finish (h : walk.Moored root base seen) (consistent : Consistent seen) :
    Nodes.Aloof root walk.finish.node? ∧ ∀ site content, .brought site content ∈ seen →
      content.Holds (Nodes.read walk.finish.node? site.container site.path) ∧
        (site.container ≠ root → Nodes.Has walk.finish.node? site.container) :=
  h.toTied.finish h.linked.toFormed consistent (h.backed consistent)

end Walk.Moored
end ResponseGraph
