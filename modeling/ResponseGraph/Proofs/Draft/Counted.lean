import ResponseGraph.Proofs.Draft.Edits
import ResponseGraph.Proofs.Draft.Linked

/-!
Nodes that count as edited.

A change of links counts a node as edited only where it writes a reference, and makes nodes
only at its two ends.  A collection counts exactly the nodes that it removes.
-/

namespace ResponseGraph

open Nodes

namespace Draft

theorem edited_dropInbound (draft : Draft) (container target : NodeId) (path : Path) :
    (draft.dropInbound container path target).1.edited = draft.edited := by
  unfold dropInbound
  split <;> rfl

theorem edited_unlink (draft : Draft) (container target : NodeId) (path : Path) :
    (draft.unlink container path target).edited = draft.edited := by
  have dropped := edited_dropInbound (draft.withoutOutbound container path target) container target
    path
  unfold unlink
  dsimp only
  split <;> exact dropped

theorem edited_unlinkPrevious (draft : Draft) (container : NodeId) (path : Path)
    (previous : Option NodeId) :
    (draft.unlinkPrevious container path previous).edited = draft.edited := by
  cases previous with
  | none => rfl
  | some target => exact edited_unlink draft container target path

theorem edited_linkNext (draft : Draft) (container : NodeId) (path : Path)
    (next : Option NodeId) : (draft.linkNext container path next).edited = draft.edited := by
  cases next <;> rfl

theorem contains_edited_set (draft : Draft) (id other : NodeId) (path : Path) (value : Value) :
    (draft.set id path value).edited.contains other ↔
      id = other ∨ draft.edited.contains other := by
  show (draft.edited.add id).contains other = true ↔ _
  rw [NameSet.contains_add, Bool.or_eq_true, decide_eq_true_iff]

theorem contains_edited_apply {draft : Draft} {change : LinkChange} {id : NodeId}
    (h : (draft.apply change).edited.contains id) :
    draft.edited.contains id ∨ ∃ path next, change = .relink id path next := by
  cases change with
  | detach container path target =>
    rw [show (draft.apply (.detach container path target)).edited = draft.edited from
      edited_unlink draft container target path] at h
    exact Or.inl h
  | relink container path next =>
    rw [apply_relink, edited_linkNext, edited_unlinkPrevious, contains_edited_set] at h
    rcases h with rfl | old
    · exact Or.inr ⟨path, next, rfl⟩
    · exact Or.inl old

theorem has_of_unlinkPrevious {draft : Draft} {container : NodeId} {path : Path}
    {previous : Option NodeId} {id : NodeId}
    (has : Nodes.Has (draft.unlinkPrevious container path previous).node? id) :
    Nodes.Has draft.node? id ∨ id = container := by
  cases previous with
  | none => exact Or.inl has
  | some target => exact ((has_unlink _ _ _ _ _).mp has).symm.imp_right Eq.symm

/-- A change of links makes no node but its ends. -/
theorem has_of_apply {draft : Draft} {change : LinkChange} {id : NodeId}
    (has : Nodes.Has (draft.apply change).node? id) :
    Nodes.Has draft.node? id ∨ id = change.container ∨
      ∃ container path, change = .relink container path (some id) := by
  cases change with
  | detach container path target =>
    exact ((has_unlink _ _ _ _ _).mp has).symm.imp_right fun e => Or.inl e.symm
  | relink container path next =>
    have before (here : Nodes.Has ((draft.set container path
        ((next.map Value.reference).getD .null)).unlinkPrevious container path
        (draft.linkedEntity? container path)).node? id) :
        Nodes.Has draft.node? id ∨ id = container := by
      rcases has_of_unlinkPrevious here with old | e
      · exact ((has_set _ _ _ _ _).mp old).symm.imp_right Eq.symm
      · exact Or.inr e
    rw [apply_relink] at has
    cases next with
    | none => exact (before has).imp_right Or.inl
    | some target =>
      rw [nodes_linkNext, has_link] at has
      rcases has with rfl | rfl | old
      · exact Or.inr (Or.inr ⟨container, path, rfl⟩)
      · exact Or.inr (Or.inl rfl)
      · exact (before old).imp_right Or.inl

theorem contains_edited_applyAll {draft : Draft} {changes : List LinkChange} {id : NodeId}
    (h : (draft.applyAll changes).edited.contains id) :
    draft.edited.contains id ∨ ∃ path next, .relink id path next ∈ changes := by
  induction changes generalizing draft with
  | nil => exact Or.inl h
  | cons change changes ih =>
    rcases ih h with now | ⟨path, next, member⟩
    · refine (contains_edited_apply now).imp_right ?_
      rintro ⟨path, next, rfl⟩
      exact ⟨path, next, List.mem_cons_self⟩
    · exact Or.inr ⟨path, next, List.mem_cons_of_mem _ member⟩

/-- A change of links leaves the data of whatever it does not count as edited. -/
theorem read_apply_of_unedited {draft : Draft} {change : LinkChange} {id : NodeId}
    (unedited : ¬ (draft.apply change).edited.contains id) (path : Path) :
    Nodes.read (draft.apply change).node? id path = Nodes.read draft.node? id path := by
  cases change with
  | detach container place target => exact read_apply_detach draft container target id place path
  | relink container place next =>
    refine read_apply_of_ne (fun same => unedited ?_) path
    subst same
    rw [apply_relink, edited_linkNext, edited_unlinkPrevious, contains_edited_set]
    exact Or.inl rfl

theorem read_applyAll_of_unedited {draft : Draft} {changes : List LinkChange} {id : NodeId}
    (unedited : ¬ (draft.applyAll changes).edited.contains id) (path : Path) :
    Nodes.read (draft.applyAll changes).node? id path = Nodes.read draft.node? id path := by
  induction changes generalizing draft with
  | nil => rfl
  | cons change changes ih =>
    refine (ih unedited).trans (read_apply_of_unedited (fun edited => unedited ?_) path)
    exact (edits_applyAll _ changes).contains_edited edited

theorem has_of_applyAll {draft : Draft} {changes : List LinkChange} {id : NodeId}
    (has : Nodes.Has (draft.applyAll changes).node? id) : Nodes.Has draft.node? id ∨
      ∃ change ∈ changes, id = change.container ∨
        ∃ container path, change = .relink container path (some id) := by
  induction changes generalizing draft with
  | nil => exact Or.inl has
  | cons change changes ih =>
    rcases ih has with now | ⟨other, member, made⟩
    · exact (has_of_apply now).imp_right fun made => ⟨change, List.mem_cons_self, made⟩
    · exact Or.inr ⟨other, List.mem_cons_of_mem _ member, made⟩

theorem edited_release (draft : Draft) (id : NodeId) (stack : List NodeId) (links : List Link) :
    (draft.release id stack links).1.edited = draft.edited := by
  induction links generalizing draft stack with
  | nil => rfl
  | cons link rest ih =>
    rw [release]
    dsimp only
    rw [ih, edited_dropInbound]

/-- What is collected counts as edited, and nothing that was not there comes back. -/
theorem edited_collectFrom {bound : Nat} {draft : Draft} {stack : List NodeId} {id : NodeId} :
    (Nodes.Has (draft.collectFrom bound stack).node? id → Nodes.Has draft.node? id) ∧
      ((draft.collectFrom bound stack).edited.contains id → draft.edited.contains id ∨
        (Nodes.Has draft.node? id ∧ ¬ Nodes.Has (draft.collectFrom bound stack).node? id)) := by
  refine collectFrom_rel (motive := fun draft final =>
    (Nodes.Has final.node? id → Nodes.Has draft.node? id) ∧ (final.edited.contains id →
      draft.edited.contains id ∨ (Nodes.Has draft.node? id ∧ ¬ Nodes.Has final.node? id)))
    (fun _ => ⟨fun has => has, Or.inl⟩) ?_ bound draft stack
  intro draft final first node stack found later
  rw [nodes_collected found, has_collected, edited_release] at later
  obtain ⟨back, counted⟩ := later
  refine ⟨fun has => (back has).2, fun edited => ?_⟩
  rcases counted edited with old | ⟨has, gone⟩
  · change (draft.edited.add first).contains id = true at old
    rw [NameSet.contains_add, Bool.or_eq_true, decide_eq_true_iff] at old
    rcases old with rfl | old
    · exact Or.inr ⟨has_of_some found, fun has => (back has).1 rfl⟩
    · exact Or.inl old
  · exact Or.inr ⟨has.2, gone⟩

theorem has_of_collectOrphans {draft : Draft} {id : NodeId}
    (has : Nodes.Has draft.collectOrphans.node? id) : Nodes.Has draft.node? id :=
  (@edited_collectFrom _ { draft with orphans := Table.empty } _ id).1 has

theorem contains_edited_collectOrphans {draft : Draft} {id : NodeId}
    (h : draft.collectOrphans.edited.contains id) : draft.edited.contains id ∨
      (Nodes.Has draft.node? id ∧ ¬ Nodes.Has draft.collectOrphans.node? id) :=
  (@edited_collectFrom _ { draft with orphans := Table.empty } _ id).2 h

end Draft
end ResponseGraph
