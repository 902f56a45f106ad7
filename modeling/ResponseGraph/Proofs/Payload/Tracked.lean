import ResponseGraph.Proofs.Payload.Storable

/-!
Walks that are tracked.

A walk may start at any root, and a root may be the address of a field that the payload comes to
later, when its node is made anew and what was written there is lost.  So a walk is tracked only
below entities.  A node that is tracked there is an entity or linked from one that is tracked
(`Tethered`), and it is never made anew.

Positions that are not tracked write into the same nodes.  They say the same of each place as the
tracked ones, and where they part from them they go on by a step of the same kind.  So whatever is
tracked keeps the shape that was brought, and refers to what it was to refer to, or will.
-/

namespace ResponseGraph

open Nodes NodeId Visit

/-- Nothing gives way on the part of a path that leads to something seen as well, wherever the path
goes from there. -/
theorem Shaped.bears_beside {nodes : Nodes} {all seen : List Visit} {site : Site}
    (h : Shaped nodes seen) (within : seen ⊆ all) (consistent : Consistent all)
    (nested : Nested seen) (enclosed : Enclosed all site) {place : Path} {found : Content}
    (member : .brought ⟨site.container, place⟩ found ∈ seen)
    (apart : Path.Apart site.path place) : nodes.BearsBeside site.container site.path place := by
  rintro above step rest e ⟨beyond, rfl⟩ value held
  cases beyond with
  | nil =>
    rw [List.append_nil] at apart
    exact absurd ⟨_, e.symm⟩ apart.2
  | cons next beyond =>
    obtain ⟨other, there, -⟩ := nested.enclosed _ found member above next beyond rfl
    exact (h _ other there).bears (enclosed.leads consistent within above step rest other e there)
      held

/-! ## Tethers -/

/-- A tracked node for the value of a field with arguments is linked from a tracked node. -/
def Tethered (nodes : Nodes) (seen : List Visit) : Prop :=
  ∀ site content, .brought site content ∈ seen → ∀ container path arguments,
    NodeId.parameterized container path arguments = .ok site.container →
    ⟨site.container, path⟩ ∈ nodes.links .outbound container ∧
      ∃ place found, .brought ⟨container, place⟩ found ∈ seen

namespace Tethered

variable {nodes more : Nodes} {seen : List Visit} {site : Site} {content : Content}
  {container id : NodeId} {path : Path} {arguments : Arguments}

theorem of_links (h : Tethered nodes seen)
    (links : ∀ id, more.links .outbound id = nodes.links .outbound id) : Tethered more seen := by
  intro site content member container path arguments address
  rw [links]
  exact h site content member container path arguments address

theorem cons (h : Tethered nodes seen)
    (here : ∀ container path arguments,
      NodeId.parameterized container path arguments = .ok site.container →
      ⟨site.container, path⟩ ∈ nodes.links .outbound container ∧
        ∃ place found, .brought ⟨container, place⟩ found ∈ seen) :
    Tethered nodes (.brought site content :: seen) := by
  intro other found member container path arguments address
  have linked : ⟨other.container, path⟩ ∈ nodes.links .outbound container ∧
      ∃ place found, .brought ⟨container, place⟩ found ∈ seen := by
    rcases List.mem_cons.mp member with e | old
    · cases e
      exact here container path arguments address
    · exact h other found old container path arguments address
  obtain ⟨linked, place, found, around⟩ := linked
  exact ⟨linked, place, found, List.mem_cons_of_mem _ around⟩

/-- What is due inside something tracked is tethered. -/
theorem brought {walk : Walk} (h : Tethered walk.draft.node? seen)
    (due : Walk.Due walk seen site) :
    Tethered walk.draft.node? (.brought site content :: seen) := by
  refine h.cons fun container path arguments address => ?_
  cases due with
  | @member site name around => exact h site _ around container path arguments address
  | @item site length index around inside => exact h site _ around container path arguments address
  | @value site name arguments' id around address' linked =>
    obtain ⟨rfl, rfl⟩ := NodeId.parameterized_inj address address'
    exact ⟨linked, site.path, _, around⟩

/-- Nothing that is tracked is made anew. -/
theorem ne_of_fresh (h : Tethered nodes seen)
    (address : NodeId.parameterized container path arguments = .ok id)
    (fresh : ⟨id, path⟩ ∉ nodes.links .outbound container)
    (member : .brought site content ∈ seen) : site.container ≠ id := by
  rintro rfl
  exact fresh (h site content member container path arguments address).1

theorem sprout {node : Node} (h : Tethered nodes seen)
    (address : NodeId.parameterized container path arguments = .ok id)
    (fresh : ⟨id, path⟩ ∉ nodes.links .outbound container) (empty : node.outbound = []) :
    Tethered (nodes.sprout container path id node) seen := by
  intro site content member source place arguments' address'
  obtain ⟨linked, beside, found, around⟩ := h site content member source place arguments' address'
  refine ⟨(mem_outbound_sprout_anew address empty).mpr (Or.inl ⟨?_, linked⟩), beside, found, around⟩
  exact h.ne_of_fresh address fresh around

end Tethered

theorem Nodes.read_sprout_of_ne {nodes : Nodes} {container id other : NodeId} {path beside : Path}
    {node : Node} (ne : other ≠ id) :
    (nodes.sprout container path id node).read other beside = nodes.read other beside := by
  unfold sprout
  rw [read_put (Node.data_addLink _ _ _)]
  unfold read Nodes.put
  rw [if_neg (Ne.symm ne)]

/-! ## Tracked walks -/

/-- What is known of a payload before it is merged. -/
structure Visit.Sincere (identify : Json → Option NodeId) (all : List Visit) : Prop where
  unnamed : identify .null = none
  named : Named all
  coherent : Coherent all
  nested : Nested (storable all)

namespace Walk

/-- What holds between the steps of a walk of which the positions in `seen` are tracked. -/
structure Tracked (all : List Visit) (walk : Walk) (seen : List Visit) : Prop where
  within : seen ⊆ storable all
  nested : Nested seen
  shaped : Shaped walk.draft.node? seen
  delivered : Delivered walk.draft.node? walk.changes seen
  accounted : Accounted walk.changes (storable all)
  upheld : Upheld walk.draft.node?
  tethered : Tethered walk.draft.node? seen

namespace Tracked

variable {identify : Json → Option NodeId} {all seen : List Visit} {walk walk' : Walk}
  {place : Place} {content : Content} {id : NodeId} {set : Nat}

theorem start {draft : Draft} (upheld : Upheld draft.node?) :
    Tracked all (.ofDraft draft) [] := by
  refine ⟨List.nil_subset _, ⟨?_, ?_⟩, ?_, ?_, ⟨?_, ?_⟩, upheld, ?_⟩
  · exact fun _ _ member => absurd member List.not_mem_nil
  · exact fun _ _ member => absurd member List.not_mem_nil
  · exact fun _ _ member => absurd member List.not_mem_nil
  · exact fun _ _ _ member => absurd member List.not_mem_nil
  · exact fun _ _ _ member => absurd member List.not_mem_nil
  · exact fun _ _ _ member => absurd member List.not_mem_nil
  · exact fun _ _ member => absurd member List.not_mem_nil

theorem warn (h : Tracked all walk seen) (warnings : List String) :
    Tracked all { walk with warnings } seen :=
  ⟨h.within, h.nested, h.shaped, h.delivered, h.accounted, h.upheld, h.tethered⟩

/-- What is tracked stays so when something is brought anywhere. -/
theorem bring (h : Tracked all walk seen) (sincere : Sincere identify all)
    (here : .brought place.site content ∈ storable all)
    (brings : Brings identify walk place content walk') : Tracked all walk' seen := by
  have consistent := sincere.coherent.consistent
  have enclosed := sincere.nested.enclosed _ content here
  have accounted : Accounted walk'.changes (storable all) :=
    (brings.accounted h.accounted).mono (List.cons_subset.mpr ⟨here, List.Subset.refl _⟩)
  have tethered := h.tethered.of_links fun id => brings.touches.links .outbound id
  have kept := brings.changes_subset
  rcases brings.settles sincere.unnamed (consistent _ _ _ here here) with
    ⟨e, -⟩ | ⟨value, e, written, differs⟩
  · refine ⟨h.within, h.nested, ?_, ?_, accounted, ?_, tethered⟩
    · rw [e]
      exact h.shaped
    · rw [e]
      exact h.delivered.mono kept
    · rw [e]
      exact h.upheld
  · have same (other : Content) (member : .brought place.site other ∈ seen) :
        content.agrees other := consistent _ _ _ here (h.within member)
    have leaf := h.shaped.nothing_below h.nested
      (consistent.mono (List.cons_subset.mpr ⟨here, h.within⟩)) differs written
    have leads := enclosed.leads consistent h.within
    have bears (beside : Path) (other : Content)
        (member : .brought ⟨place.site.container, beside⟩ other ∈ seen)
        (apart : Path.Apart place.site.path beside) :=
      h.shaped.bears_beside h.within consistent h.nested enclosed member apart
    refine ⟨h.within, h.nested, ?_, ?_, accounted, ?_, tethered⟩
    · rw [e, Draft.nodes_set_write]
      exact h.shaped.write_of_leads leads bears same leaf written
    · rw [e, Draft.nodes_set_write]
      exact h.delivered.write_of_leads leads bears same leaf written
        fun change member => Or.inl (kept member)
    · rw [e, Draft.nodes_set_write]
      refine h.upheld.write fun whole => ?_
      refine sincere.nested.starts_with_key enclosed whole fun root => ?_
      have object : content = .object := by
        refine sincere.nested.root place.container content ?_ whole
        rw [show Site.root place.container = place.site from congrArg (Site.mk _) root.symm]
        exact here
      rw [object] at written
      exact written

/-- A position that is due inside something tracked may be tracked too. -/
theorem brought (h : Tracked all walk seen) (sincere : Sincere identify all)
    (here : .brought place.site content ∈ storable all) (due : Due walk seen place.site)
    (brings : Brings identify walk place content walk') :
    Tracked all walk' (.brought place.site content :: seen) := by
  have later := h.bring sincere here brings
  have consistent := sincere.coherent.consistent
  have same := consistent _ _ _ here here
  have nested := (Step.brought due brings).nested h.nested
  refine ⟨List.cons_subset.mpr ⟨here, h.within⟩, nested, later.shaped.cons ?_,
    later.delivered.cons fun next decides => brings.delivers decides, later.accounted,
    later.upheld, ?_⟩
  · rcases brings.settles sincere.unnamed same with ⟨e, fits⟩ | ⟨value, e, written, -⟩
    · rw [e]
      exact fits
    · rw [e, Draft.nodes_set_write]
      show content.Fits (Nodes.read (Nodes.write _ place.container place.path value) place.container
        place.path)
      rw [Nodes.read_write_self]
      exact written.fits same
  · exact (h.tethered.brought due).of_links fun id => brings.touches.links .outbound id

theorem grow (h : Tracked all walk seen) {arguments : Arguments}
    (address : NodeId.parameterized place.container place.path arguments = .ok id)
    (fresh : ⟨id, place.path⟩ ∉ Nodes.links walk.draft.node? .outbound place.container) :
    Tracked all (walk.grow place id) seen := by
  have nodes := nodes_grow walk place id
  have ne {site : Site} {content : Content} (member : .brought site content ∈ seen) :
      site.container ≠ id := h.tethered.ne_of_fresh address fresh member
  refine ⟨h.within, h.nested, fun site content member => ?_,
    fun site content next member decides => ?_, h.accounted, ?_, ?_⟩
  · rw [nodes, read_sprout_of_ne (ne member)]
    exact h.shaped site content member
  · rw [nodes, read_sprout_of_ne (ne member)]
    exact h.delivered site content next member decides
  · rw [nodes]
    exact h.upheld.sprout address fresh rfl rfl rfl rfl
  · rw [nodes]
    exact h.tethered.sprout address fresh rfl

/-- Below an entity everything is tracked. -/
theorem enter (h : Tracked all walk seen) (whole : Whole id)
    (here : .brought (.root id) .object ∈ storable all) :
    Tracked all (walk.mark id set) (.brought (.root id) .object :: seen) := by
  have old := List.subset_cons_self (Visit.brought (.root id) .object) seen
  refine ⟨List.cons_subset.mpr ⟨here, h.within⟩, ⟨fun site content member => ?_,
    fun other content member wholeOther => ?_⟩, h.shaped.cons (h.upheld.rooted id whole),
    h.delivered.cons (fun next decides => by cases decides), h.accounted, h.upheld,
    h.tethered.cons fun container path arguments address => ?_⟩
  · rcases List.mem_cons.mp member with e | member
    · cases e
      exact enclosed_root _ id
    · exact (h.nested.enclosed site content member).mono old
  · rcases List.mem_cons.mp member with e | member
    · cases e
      rfl
    · exact h.nested.root other content member wholeOther
  · exact absurd whole (NodeId.not_whole_of_parameterized address)

end Tracked
end Walk
end ResponseGraph
