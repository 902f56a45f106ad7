import ResponseGraph.Proofs.Draft.Collected

/-!
Nodes that something refers to.

A node is collected when it loses its last inbound link.  So a node that stays either is the
root, or something links it: this is what changes of links and collections keep up.  While
changes are waiting, a node may be linked by one of them only.
-/

namespace ResponseGraph

open Nodes

/-- Every node is the root, or waits for something, or is linked. -/
def Nodes.Attended (root : NodeId) (waiting : NodeId → Prop) (nodes : Nodes) : Prop :=
  ∀ id, nodes.Has id → id = root ∨ waiting id ∨ nodes.links .inbound id ≠ []

namespace Nodes

variable {nodes : Nodes} {root : NodeId} {waiting later : NodeId → Prop}

theorem Attended.mono (h : Attended root waiting nodes) (weaker : ∀ id, waiting id → later id) :
    Attended root later nodes := fun id has =>
  (h id has).imp_right fun some => some.imp_left (weaker id)

/-- When a node goes, those that it leaves without links have to wait. -/
theorem Attended.collected (h : Attended root waiting nodes) {id : NodeId}
    (kept : ∀ other, id ≠ other → waiting other → later other)
    (left : ∀ other path, ⟨other, path⟩ ∈ nodes.links .outbound id → id ≠ other →
      nodes.Has other → (nodes.collected id).links .inbound other = [] → later other) :
    Attended root later (nodes.collected id) := by
  intro other has
  obtain ⟨ne, before⟩ := has_collected.mp has
  by_cases none : (nodes.collected id).links .inbound other = []
  · rcases h other before with same | waits | some
    · exact Or.inl same
    · exact Or.inr (Or.inl (kept other ne waits))
    · obtain ⟨path, linked⟩ := exists_link_of_collected has some none
      exact Or.inr (Or.inl (left other path linked ne before none))
  · exact Or.inr (Or.inr none)

theorem Attended.of_links {others : Nodes} (h : Attended root waiting others)
    (has : ∀ id, nodes.Has id → others.Has id)
    (links : ∀ id, nodes.links .inbound id = others.links .inbound id) :
    Attended root waiting nodes := by
  intro id here
  rw [links]
  exact h id (has id here)

end Nodes

namespace Draft

/-- Some change will link the node. -/
def Awaited (changes : List LinkChange) (id : NodeId) : Prop :=
  ∃ container path, .relink container path (some id) ∈ changes

/-- The node exists, or it will. -/
def Met (root : NodeId) (awaited : NodeId → Prop) (draft : Draft) (id : NodeId) : Prop :=
  id = root ∨ awaited id ∨ Nodes.Has draft.node? id

/-- Every node of the draft is the root, or an orphan, or awaited, or linked. -/
def Attended (root : NodeId) (awaited : NodeId → Prop) (draft : Draft) : Prop :=
  Nodes.Attended root (fun id => draft.orphans.contains id ∨ awaited id) draft.node?

variable {draft : Draft} {root container target : NodeId} {path : Path}
  {awaited later : NodeId → Prop} {change : LinkChange} {changes : List LinkChange}

theorem Attended.set (h : draft.Attended root awaited) (met : draft.Met root awaited container)
    (path : Path) (value : Value) : (draft.set container path value).Attended root awaited := by
  intro id has
  rw [links_set]
  rcases (has_set _ _ _ _ _).mp has with rfl | before
  · rcases met with same | waits | exists_
    · exact Or.inl same
    · exact Or.inr (Or.inl (Or.inr waits))
    · exact h container exists_
  · exact h id before

theorem Attended.unlink (h : draft.Attended root awaited) (met : draft.Met root awaited container)
    (path : Path) (target : NodeId) :
    (draft.unlink container path target).Attended root awaited := by
  intro id has
  by_cases none : Nodes.links (draft.unlink container path target).node? .inbound id = []
  · dsimp only
    rw [contains_orphans_unlink]
    by_cases same : target = id
    · exact Or.inr (Or.inl (Or.inl (Or.inr ⟨same, has, none⟩)))
    · have unlinked : Nodes.links draft.node? .inbound id = [] := by
        refine List.eq_nil_iff_forall_not_mem.mpr fun link member => ?_
        have stays : link ∈ Nodes.links (draft.unlink container path target).node? .inbound id :=
          (mem_links_unlink _ _ _ _ _ _ _).mpr ⟨member, by simp, by simp [same]⟩
        rw [none] at stays
        cases stays
      have before (here : Nodes.Has draft.node? id) := (h id here).imp_right
        fun waits => waits.resolve_right fun some => some unlinked
      rcases (has_unlink _ _ _ _ _).mp has with rfl | here
      · rcases met with same | waits | here
        · exact Or.inl same
        · exact Or.inr (Or.inl (Or.inr waits))
        · exact (before here).imp_right fun waits => Or.inl (waits.imp_left Or.inl)
      · exact (before here).imp_right fun waits => Or.inl (waits.imp_left Or.inl)
  · exact Or.inr (Or.inr none)

theorem Attended.unlinkPrevious (h : draft.Attended root awaited)
    (met : draft.Met root awaited container) (path : Path) (previous : Option NodeId) :
    (draft.unlinkPrevious container path previous).Attended root awaited := by
  cases previous with
  | none => exact h
  | some target => exact h.unlink met path target

/-- A node that is linked now need not be awaited any longer. -/
theorem Attended.linkNext (h : draft.Attended root awaited)
    (met : draft.Met root awaited container) (path : Path) (next : Option NodeId)
    (done : ∀ id, awaited id → later id ∨ next = some id) :
    (draft.linkNext container path next).Attended root later := by
  cases next with
  | none => exact Nodes.Attended.mono h fun id waits =>
      waits.imp_right fun awaits => (done id awaits).resolve_right fun e => by cases e
  | some target =>
    intro id has
    rw [nodes_linkNext] at has ⊢
    have linked (inbound : Nodes.links draft.node? .inbound id ≠ []) :
        Nodes.links (draft.link container path target).node? .inbound id ≠ [] := by
      obtain ⟨link, member⟩ := List.exists_mem_of_ne_nil _ inbound
      exact List.ne_nil_of_mem ((mem_links_link _ _ _ _ _ _ _).mpr (Or.inl member))
    by_cases here : target = id
    · have member := (mem_links_link draft container target id path .inbound ⟨container, path⟩).mpr
        (Or.inr (Or.inr ⟨here, rfl, rfl⟩))
      exact Or.inr (Or.inr (List.ne_nil_of_mem member))
    · have awaits (waits : awaited id) : later id :=
        (done id waits).resolve_right fun e => here (Option.some.inj e)
      have orphans : (draft.linkNext container path (some target)).orphans.contains id =
          draft.orphans.contains id := by
        show Table.contains (draft.orphans.erase target) id = _
        unfold Table.contains
        rw [Table.get?_erase, if_neg here]
      dsimp only
      rw [orphans]
      have before (present : Nodes.Has draft.node? id) :=
        (h id present).imp_right fun waits => Or.imp (Or.imp_right awaits) linked waits
      rcases (has_link _ _ _ _ _).mp has with e | rfl | present
      · exact absurd e here
      · rcases met with same | waits | present
        · exact Or.inl same
        · exact Or.inr (Or.inl (Or.inr (awaits waits)))
        · exact before present
      · exact before present

/-- More is awaited when there are more changes. -/
theorem Awaited.mono {more : List LinkChange} (subset : changes ⊆ more) {id : NodeId}
    (h : Awaited changes id) : Awaited more id := by
  obtain ⟨container, path, member⟩ := h
  exact ⟨container, path, subset member⟩

theorem awaited_cons {id : NodeId} (h : Awaited (change :: changes) id) :
    Awaited changes id ∨ ∃ container path, change = .relink container path (some id) := by
  obtain ⟨container, path, member⟩ := h
  rcases List.mem_cons.mp member with e | member
  · exact Or.inr ⟨container, path, e.symm⟩
  · exact Or.inl ⟨container, path, member⟩

theorem Met.mono {draft' : Draft} {id : NodeId} (h : draft.Met root awaited id)
    (has : Nodes.Has draft.node? id → Nodes.Has draft'.node? id) : draft'.Met root awaited id :=
  h.imp_right fun some => some.imp_right has

/-- A change keeps every node attended, if its container is met. -/
theorem Attended.apply (h : draft.Attended root (Awaited (change :: changes)))
    (met : draft.Met root (Awaited (change :: changes)) change.container) :
    (draft.apply change).Attended root (Awaited changes) := by
  cases change with
  | detach container path target =>
    refine Nodes.Attended.mono (h.unlink met path target) fun id waits => ?_
    refine waits.imp_right fun awaits => (awaited_cons awaits).resolve_right ?_
    rintro ⟨_, _, e⟩
    cases e
  | relink container path next =>
    rw [apply_relink]
    have written : (draft.set container path ((next.map Value.reference).getD .null)).Met root
        (Awaited (.relink container path next :: changes)) container :=
      met.mono fun has => (has_set _ _ _ _ _).mpr (Or.inr has)
    refine (((h.set met path _).unlinkPrevious written path _).linkNext
      (written.mono has_unlinkPrevious) path next) fun id awaits => ?_
    refine (awaited_cons awaits).imp_right ?_
    rintro ⟨_, _, e⟩
    cases e
    rfl

/-- Whatever a change links exists from then on. -/
theorem Met.apply {id : NodeId} (h : draft.Met root (Awaited (change :: changes)) id) :
    (draft.apply change).Met root (Awaited changes) id := by
  rcases h with same | awaits | has
  · exact Or.inl same
  · rcases awaited_cons awaits with waits | ⟨container, path, rfl⟩
    · exact Or.inr (Or.inl waits)
    · refine Or.inr (Or.inr ?_)
      rw [apply_relink, nodes_linkNext, has_link]
      exact Or.inl rfl
  · exact Or.inr (Or.inr (has_apply has))

theorem Attended.applyAll (h : draft.Attended root (Awaited changes))
    (met : ∀ change ∈ changes, draft.Met root (Awaited changes) change.container) :
    Nodes.Attended root (fun id => (draft.applyAll changes).orphans.contains id)
      (draft.applyAll changes).node? := by
  induction changes generalizing draft with
  | nil =>
    refine Nodes.Attended.mono h fun id waits => waits.resolve_right ?_
    rintro ⟨_, _, member⟩
    exact List.not_mem_nil member
  | cons change changes ih =>
    refine ih (h.apply (met change List.mem_cons_self)) fun other member => ?_
    exact (met other (List.mem_cons_of_mem _ member)).apply

/-- After the collection every node but the root is linked. -/
theorem attended_collectOrphans
    (h : Nodes.Attended root (fun id => draft.orphans.contains id) draft.node?) :
    Nodes.Attended root (fun _ => False) draft.collectOrphans.node? := by
  refine Nodes.Attended.mono (collectOrphans_induct
    (motive := fun nodes stack => Nodes.Attended root (· ∈ stack) nodes) ?_ ?_ draft
    (Nodes.Attended.mono h fun id orphan => ?_)) fun _ => List.not_mem_nil
  · intro nodes id stack anchored attended other has
    rcases attended other has with same | waits | some
    · exact Or.inl same
    · rcases List.mem_cons.mp waits with rfl | waits
      · exact Or.inr (Or.inr (anchored has))
      · exact Or.inr (Or.inl waits)
    · exact Or.inr (Or.inr some)
  · intro nodes id stack more orphan removal attended
    refine attended.collected (fun other ne waits => ?_) fun other path member ne has none =>
      removal.orphaned other path member ne has none
    exact removal.kept ((List.mem_cons.mp waits).resolve_left (Ne.symm ne))
  · exact List.mem_reverse.mpr (Table.mem_keys_iff.mpr orphan)

end Draft
end ResponseGraph
