import ResponseGraph.Proofs.Payload.CutOff
import ResponseGraph.Proofs.Payload.Moored

/-!
Payloads that suit what is stored.

Whether a position of a payload can be brought to a site depends on what is stored there.  If the
payload is consistent, it depends on what was stored there before the walk: what the walk itself
has stored suits whatever else it brings to the site.

`Walk.Steady` is all that holds between the steps of a clean walk and speaks of nothing but the
nodes before the walk and what was seen.
-/

namespace ResponseGraph

open Nodes NodeId Visit

namespace Content

/-- The content can be brought to where this is stored. -/
def Suits : Content → Option Value → Prop
  | .leaf _, _ | .null, _ => True
  | .list _, stored => Walk.list? stored = none → Walk.occupied stored = false
  | .object, stored => Walk.list? stored = none ∧ Walk.entity? stored = none
  | .entity _, stored => Walk.entity? stored = none → Walk.occupied stored = false
  | .misfit, _ => False

variable {content other : Content} {stored : Option Value}

/-- Null is as good as nothing. -/
theorem suits_null : content.Suits (some .null) ↔ content.Suits none := by
  cases content <;> exact Iff.rfl

theorem Suits.of_agrees (h : other.Suits stored) (same : other.agrees content) :
    content.Suits stored := by
  cases content with
  | leaf | null => trivial
  | list length => exact eq_list_of_agrees same ▸ h
  | object => exact eq_object_of_agrees same ▸ h
  | entity id => exact eq_entity_of_agrees same ▸ h
  | misfit => cases other <;> cases same

/-- What was brought once can be brought again. -/
theorem Fits.suits (h : content.Fits stored) : content.Suits stored := by
  cases content with
  | leaf | null => trivial
  | list length =>
    obtain ⟨items, rfl, -⟩ := h
    exact fun noList => by cases noList
  | object => exact Walk.of_fits_object h
  | entity id =>
    intro noEntity
    cases stored with
    | none => rfl
    | some value =>
      rcases h value rfl with rfl | ⟨other, rfl⟩
      · rfl
      · cases noEntity
  | misfit => exact h

end Content

theorem Nodes.Stays.suits {base nodes : Nodes} {seen : List Visit} {id : NodeId} {path : Path}
    (h : base.Stays nodes seen id path) {content : Content} :
    content.Suits (nodes.read id path) ↔ content.Suits (base.read id path) := by
  rcases h with same | ⟨missing, filled, -⟩
  · rw [same]
  · rw [missing, filled]
    exact Content.suits_null

/-- Whatever is brought suits what was stored before. -/
def Suited (base : Nodes) (visits : List Visit) : Prop :=
  ∀ site content, .brought site content ∈ visits →
    content.Suits (base.read site.container site.path)

/-- What is known of the visits of a clean payload.  Neither null nor the root is an entity, and
no entity looks like the value of a field with arguments. -/
structure Visit.Clean (identify : Json → Option NodeId) (root : NodeId) (base : Nodes)
    (visits : List Visit) : Prop where
  unnamed : identify .null = none
  whole : Whole root
  named : Named visits
  distinct : Visit.Distinct root visits
  consistent : Consistent visits
  spared : Walk.Spared base visits
  rooted : base.Rooted

theorem Visit.Clean.mono {identify : Json → Option NodeId} {root : NodeId} {base : Nodes}
    {visits more : List Visit} (h : Clean identify root base more) (subset : visits ⊆ more) :
    Clean identify root base visits :=
  ⟨h.unnamed, h.whole, h.named.mono subset, h.distinct.mono subset, h.consistent.mono subset,
    h.spared.mono subset, h.rooted⟩

namespace Walk

variable {identify : Json → Option NodeId} {walk walk' : Walk} {seen seen' : List Visit}
  {place : Place} {content : Content} {base : Nodes} {root : NodeId}

theorem Brings.suits (h : Brings identify walk place content walk') :
    content.Suits (walk.stored? place) := by
  cases h with
  | leaf | unlink | clear | fill | keep => trivial
  | object noList noEntity => exact ⟨noList, noEntity⟩
  | list length stored => exact stored
  | refer named stored => exact stored
  | same named stored =>
    intro noEntity
    rw [noEntity] at stored
    cases stored

/-- Whatever comes to a site suits what was there before exactly if it suits what is there now. -/
theorem Linked.suits_iff (h : Linked base walk seen) (intact : Intact base walk.draft.node? seen)
    (suited : Suited base seen) (consistent : Consistent seen) (due : Due walk seen place.site)
    (same : ∀ other, .brought place.site other ∈ seen → other.agrees content) :
    content.Suits (walk.stored? place) ↔ content.Suits (base.read place.container place.path) := by
  by_cases unseen : ∀ other, .brought place.site other ∉ seen
  · exact (h.stays intact consistent due unseen).suits
  · obtain ⟨other, member⟩ := Classical.not_forall_not.mp unseen
    have agrees := same other member
    have now : other.Fits (walk.stored? place) := h.shaped _ _ member
    exact iff_of_true (now.suits.of_agrees agrees) ((suited _ _ member).of_agrees agrees)

theorem Linked.suited (h : Linked base walk seen) (intact : Intact base walk.draft.node? seen)
    (suited : Suited base seen) (consistent : Consistent (.brought place.site content :: seen))
    (due : Due walk seen place.site) (brings : Brings identify walk place content walk') :
    Suited base (.brought place.site content :: seen) := by
  have old := List.subset_cons_self (Visit.brought place.site content) seen
  intro site found member
  rcases List.mem_cons.mp member with e | before
  · cases e
    refine (h.suits_iff intact suited (consistent.mono old) due fun other member => ?_).mp
      brings.suits
    exact consistent _ _ _ (old member) List.mem_cons_self
  · exact suited site found before

theorem Step.suited (h : Step identify walk seen walk' seen') (rooted : base.Rooted)
    (named : Named seen') (consistent : Consistent seen') (linked : Linked base walk seen)
    (intact : Intact base walk.draft.node? seen) (suited : Suited base seen) :
    Suited base seen' := by
  cases h with
  | warned | grown => exact suited
  | brought due brings => exact linked.suited intact suited consistent due brings
  | @entered site id set fields members around =>
    intro other found member
    simp only [List.mem_cons, reduceCtorEq, false_or] at member
    rcases member with e | member
    · cases e
      have entity : Whole id :=
        named _ (List.mem_cons_of_mem _ (List.mem_cons_of_mem _ around)) id rfl
      have fits : Content.object.Fits (base.read id []) := rooted id entity
      exact fits.suits
    · exact suited other found member

theorem suited_start (rooted : base.Rooted) (whole : Whole root) :
    Suited base [.brought (.root root) .object] := by
  intro site content member
  cases List.mem_singleton.mp member
  have fits : Content.object.Fits (base.read root []) := rooted root whole
  exact fits.suits

/-- The root exists if it existed before, or if it has got data or links. -/
def Present (root : NodeId) (base nodes : Nodes) : Prop :=
  nodes.Has root ↔ base.Has root ∨ (nodes.read root []).isSome ∨
    ∃ link, link ∈ nodes.links .outbound root

theorem Present.refl (root : NodeId) (nodes : Nodes) : Present root nodes nodes := by
  refine ⟨Or.inl, ?_⟩
  rintro (has | data | ⟨link, member⟩)
  · exact has
  · obtain ⟨value, stored⟩ := Option.isSome_iff_exists.mp data
    exact has_of_read stored
  · exact has_of_mem member

theorem Present.write {nodes : Nodes} (h : Present root base nodes) (id : NodeId) (path : Path)
    (value : Value) : Present root base (nodes.write id path value) := by
  unfold Present
  rw [show (nodes.write id path value).Has root ↔ id = root ∨ nodes.Has root from has_put]
  by_cases e : id = root
  · subst e
    rw [read_write]
    exact iff_of_true (Or.inl rfl) (Or.inr (Or.inl rfl))
  · rw [read_write_of_ne e, links_write, or_iff_right e]
    exact h

theorem Present.sprout {nodes : Nodes} {container id : NodeId} {path : Path} {node : Node}
    (h : Present root base nodes) (missing : nodes id = none) (data : node.data = none)
    (outbound : node.outbound = []) (other : id ≠ root) :
    Present root base (nodes.sprout container path id node) := by
  unfold Present
  rw [has_sprout, read_sprout missing data, or_iff_right (a := id = root) other]
  simp only [mem_outbound_sprout missing outbound]
  by_cases e : container = root
  · exact iff_of_true (Or.inl e) (Or.inr (Or.inr ⟨⟨id, path⟩, Or.inr ⟨e, rfl⟩⟩))
  · simp only [e, false_or, false_and, or_false]
    exact h

/-- What holds between the steps of a clean walk, in whatever order they are taken. -/
structure Steady (root : NodeId) (base : Nodes) (walk : Walk) (seen : List Visit) : Prop where
  moored : Walk.Moored root base walk seen
  intact : Intact base walk.draft.node? seen
  cutting : Cutting base walk seen
  suited : Suited base seen
  present : Present root base walk.draft.node?

theorem Step.steady (h : Step identify walk seen walk' seen') (clean : Clean identify root base seen')
    (steady : Steady root base walk seen) : Steady root base walk' seen' := by
  obtain ⟨unnamed, whole, named, distinct, consistent, spared, rooted⟩ := clean
  have linked := steady.moored.linked
  refine ⟨h.moored unnamed whole named distinct consistent spared.bare steady.moored,
    h.intact linked.toFormed steady.intact,
    h.cutting steady.cutting linked steady.intact unnamed consistent spared,
    h.suited rooted named consistent linked steady.intact steady.suited, ?_⟩
  cases h with
  | warned | entered => exact steady.present
  | grown name around address fresh =>
    have missing := linked.sound.nodes.eq_none_of_not_linked address fresh
    rw [nodes_grow]
    refine steady.present.sprout missing rfl rfl fun e => ?_
    exact NodeId.not_whole_of_parameterized address (e ▸ whole)
  | brought due brings =>
    rcases brings.touches.written with e | ⟨value, e⟩
    · rw [e]
      exact steady.present
    · rw [e, Draft.nodes_set_write]
      exact steady.present.write _ _ _

theorem Run.steady (h : Run identify walk seen walk' seen')
    (clean : Clean identify root base seen') (steady : Steady root base walk seen) :
    Steady root base walk' seen' := by
  induction h with
  | refl => exact steady
  | tail run step ih => exact step.steady clean (ih (clean.mono step.seen_subset))

theorem Steady.start {draft : Draft}
    (moored : Moored root draft.node? (.ofDraft draft) [.brought (.root root) .object])
    (rooted : Nodes.Rooted draft.node?) (whole : Whole root) :
    Steady root draft.node? (.ofDraft draft) [.brought (.root root) .object] :=
  ⟨moored, fun _ _ _ => Or.inl rfl, .start draft root, suited_start rooted whole,
    .refl root draft.node?⟩

end Walk
end ResponseGraph
