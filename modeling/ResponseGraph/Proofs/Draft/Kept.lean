import ResponseGraph.Proofs.Draft.Linked

/-!
Nodes that are kept.

Operations are rooted at a node to which nothing refers.  Such a node never becomes an
orphan, so it is not collected, and neither is any node that can be traced back to it by
links.
-/

namespace ResponseGraph

open Nodes NodeId

/-- Nothing refers to the node. -/
def Nodes.Aloof (root : NodeId) (nodes : Nodes) : Prop :=
  ∀ container path, ⟨root, path⟩ ∉ nodes.links .outbound container

namespace Draft

variable {root : NodeId} {draft : Draft}

/-- Nothing refers to the node, and it is no orphan. -/
structure Aloof (root : NodeId) (draft : Draft) : Prop where
  unlinked : Nodes.Aloof root draft.node?
  kept : ¬ draft.orphans.contains root

/-- The change does not speak of the node as what is referred to. -/
def Spares (root : NodeId) : LinkChange → Prop
  | .detach _ _ target => target ≠ root
  | .relink _ _ next => next ≠ some root

theorem aloof_ofGraph {graph : Graph} (h : Nodes.Aloof root graph.node?) :
    Aloof root (.ofGraph graph) :=
  ⟨h, by
    intro orphan
    cases orphan⟩

theorem Aloof.set (h : Aloof root draft) (id : NodeId) (path : Path) (value : Value) :
    Aloof root (draft.set id path value) := by
  refine ⟨fun container place member => ?_, h.kept⟩
  rw [links_set] at member
  exact h.unlinked container place member

theorem Aloof.unlink (h : Aloof root draft) {container target : NodeId} {path : Path}
    (other : target ≠ root) : Aloof root (draft.unlink container path target) := by
  refine ⟨fun source place member => ?_, fun orphan => ?_⟩
  · exact h.unlinked source place ((mem_links_unlink _ _ _ _ _ _ _).mp member).1
  · rcases (contains_orphans_unlink _ _ _ _ _).mp orphan with old | ⟨same, -⟩
    · exact h.kept old
    · exact other same

theorem Aloof.unlinkPrevious (h : Aloof root draft) {container : NodeId} {path : Path}
    {previous : Option NodeId} (other : previous ≠ some root) :
    Aloof root (draft.unlinkPrevious container path previous) := by
  cases previous with
  | none => exact h
  | some target => exact h.unlink fun same => other (congrArg some same)

theorem Aloof.linkNext (h : Aloof root draft) {container : NodeId} {path : Path}
    {next : Option NodeId} (other : next ≠ some root) :
    Aloof root (draft.linkNext container path next) := by
  refine ⟨fun source place member => ?_, fun orphan => ?_⟩
  · rcases (mem_outbound_linkNext _ _ _ _ _ _).mp member with old | ⟨-, target, rfl, e⟩
    · exact h.unlinked source place old
    · cases e
      exact other rfl
  · cases next with
    | none => exact h.kept orphan
    | some target =>
      refine h.kept ?_
      change (draft.orphans.erase target).contains root = true at orphan
      rw [Table.contains, Table.get?_erase, if_neg fun same => other (congrArg some same)] at orphan
      exact orphan

/-- A change that spares the node leaves it aloof. -/
theorem Aloof.apply (h : Aloof root draft) {change : LinkChange} (spares : Spares root change) :
    Aloof root (draft.apply change) := by
  cases change with
  | detach container path target => exact h.unlink spares
  | relink container path next =>
    rw [apply_relink]
    refine ((h.set _ _ _).unlinkPrevious fun same => ?_).linkNext spares
    exact h.unlinked _ _ (mem_of_linkedEntity? same).1

theorem Aloof.applyAll (h : Aloof root draft) {changes : List LinkChange}
    (spares : ∀ change ∈ changes, Spares root change) : Aloof root (draft.applyAll changes) := by
  induction changes generalizing draft with
  | nil => exact h
  | cons change changes ih =>
    exact ih (h.apply (spares change List.mem_cons_self))
      fun other member => spares other (List.mem_cons_of_mem _ member)

/-- A node that nothing refers to and that is no orphan is not collected. -/
theorem Aloof.has_collectOrphans (h : Aloof root draft) (has : Nodes.Has draft.node? root) :
    Nodes.Has draft.collectOrphans.node? root := by
  refine (collectOrphans_induct (motive := fun nodes stack =>
    root ∉ stack ∧ Nodes.Aloof root nodes ∧ nodes.Has root) ?_ ?_ draft ?_).2.2
  · intro nodes id stack _ given
    exact ⟨fun member => given.1 (List.mem_cons_of_mem _ member), given.2⟩
  · intro nodes id stack more orphan removal given
    obtain ⟨waits, aloof, has⟩ := given
    have other : id ≠ root := fun same => waits (same ▸ List.mem_cons_self)
    refine ⟨fun member => ?_, fun container path member => ?_, has_collected.mpr ⟨other, has⟩⟩
    · rcases removal.added root member with old | ⟨path, linked⟩
      · exact waits (List.mem_cons_of_mem _ old)
      · exact aloof id path linked
    · rw [outbound_collected] at member
      split at member
      · cases member
      · exact aloof container path member
  · exact ⟨fun member => h.kept (Table.mem_keys_iff.mp (List.mem_reverse.mp member)), h.unlinked,
      has⟩

end Draft

/-- Every node of a group but the root is linked from a node of the group. -/
def Nodes.Moored (root : NodeId) (group : NodeId → Prop) (nodes : Nodes) : Prop :=
  ∀ id, group id → id = root ∨ ∃ container path, group container ∧
    ⟨id, path⟩ ∈ nodes.links .outbound container

namespace Draft

variable {root : NodeId} {draft : Draft} {group : NodeId → Prop}

/-- A group that is moored to an aloof node survives the collection of orphans. -/
theorem Aloof.collectOrphans (h : Aloof root draft) (sound : draft.Sound)
    (moored : Nodes.Moored root group draft.node?) :
    Nodes.Aloof root draft.collectOrphans.node? ∧ ∀ id, group id →
      (Nodes.Has draft.collectOrphans.node? id ↔ Nodes.Has draft.node? id) ∧
      ∀ path, Nodes.read draft.collectOrphans.node? id path = Nodes.read draft.node? id path := by
  have kept := (sound.collectOrphans_induct (motive := fun nodes stack => root ∉ stack ∧
    Nodes.Aloof root nodes ∧ Nodes.Moored root group nodes ∧ ∀ id, group id →
      (nodes.Has id ↔ Nodes.Has draft.node? id) ∧
      ∀ path, nodes.read id path = Nodes.read draft.node? id path) ?_ ?_ ?_).2
  · exact ⟨kept.2.1, kept.2.2.2⟩
  · intro nodes id stack given
    obtain ⟨waits, rest⟩ := given
    exact ⟨fun member => waits (List.mem_cons_of_mem _ member), rest⟩
  · intro nodes id stack more sound orphan removal given
    obtain ⟨waits, aloof, moored, same⟩ := given
    have outside : ¬ group id := by
      intro inside
      rcases moored id inside with rfl | ⟨container, path, -, member⟩
      · exact waits List.mem_cons_self
      · rw [sound.mirrored, orphan] at member
        cases member
    have differs : ∀ other, group other → id ≠ other := by
      intro other inside e
      subst e
      exact outside inside
    refine ⟨fun member => ?_, fun container path member => ?_, fun other inside => ?_,
      fun other inside => ?_⟩
    · rcases removal.added root member with old | ⟨path, member⟩
      · exact waits (List.mem_cons_of_mem _ old)
      · exact aloof id path member
    · rw [outbound_collected] at member
      split at member
      · cases member
      · exact aloof container path member
    · refine (moored other inside).imp_right ?_
      intro given
      obtain ⟨container, path, anchored, member⟩ := given
      refine ⟨container, path, anchored, ?_⟩
      rw [outbound_collected, if_neg (differs container anchored)]
      exact member
    · rw [has_collected, and_iff_right (differs other inside), (same other inside).1]
      refine ⟨Iff.rfl, fun path => ?_⟩
      rw [read_collected, if_neg (differs other inside), (same other inside).2]
  · refine ⟨fun member => ?_, h.unlinked, moored, fun id _ => ⟨Iff.rfl, fun _ => rfl⟩⟩
    exact h.kept (Table.mem_keys_iff.mp (List.mem_reverse.mp member))

end Draft
end ResponseGraph
