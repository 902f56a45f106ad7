import Mathlib.Logic.Relation
import ResponseGraph.Proofs.Draft.Ancestors

/-!
Edits of a draft.

Whatever is done to a draft comes down to a few kinds of edits.  Data is only written, and a
node only removed, by an edit that counts the node as edited.  Changes of links leave data
alone.  A node that is made for the value of a field with arguments is not counted as edited:
it has no data yet, though the node in whose place it comes may have had some.
-/

namespace ResponseGraph

open Nodes

namespace Nodes

/-- The data of a node, if there is any. -/
def data? (nodes : Nodes) (id : NodeId) : Option Value := (nodes id).bind Node.data

/-- A node for the value of a field with arguments that nothing was written into. -/
def Blank (nodes : Nodes) (id : NodeId) : Prop :=
  ∃ node, nodes id = some node ∧ node.kind = .parameterized ∧ node.data = none

theorem data?_current (nodes : Nodes) (id : NodeId) : (nodes.current id).data = nodes.data? id := by
  unfold current data?
  cases nodes id <;> rfl

theorem data?_put (nodes : Nodes) (id other : NodeId) (node : Node) :
    (nodes.put id node).data? other = if id = other then node.data else nodes.data? other := by
  unfold data? put
  split <;> rfl

end Nodes

namespace Draft

inductive Edit (draft : Draft) : Draft → Prop
  /-- A node that is missing is made as an entity first. -/
  | relinked {id : NodeId} {node : Node} (kind : node.kind = (current draft.node? id).kind)
    (data : node.data = (current draft.node? id).data) : Edit draft (draft.put id node)
  | written (id : NodeId) (path : Path) (value : Value) : Edit draft (draft.set id path value)
  | removed (id : NodeId) : Edit draft (draft.remove id)
  | made {id : NodeId} {node : Node} (kind : node.kind = .parameterized)
    (data : node.data = none) : Edit draft (draft.put id node)
  | orphaned (orphans : NameSet) : Edit draft { draft with orphans }

abbrev Edits : Draft → Draft → Prop := Relation.ReflTransGen Edit

theorem Edit.edits {draft draft' : Draft} (h : Edit draft draft') : Edits draft draft' := .single h

theorem edit_addLink (draft : Draft) (id : NodeId) (direction : Direction) (link : Link) :
    Edit draft (draft.update id fun node => node.addLink direction link) :=
  .relinked (Node.kind_addLink _ _ _) (Node.data_addLink _ _ _)

theorem edit_removeLink (draft : Draft) (id : NodeId) (direction : Direction) (link : Link) :
    Edit draft (draft.update id fun node => node.removeLink direction link) :=
  .relinked (Node.kind_removeLink _ _ _) (Node.data_removeLink _ _ _)

theorem edits_dropInbound (draft : Draft) (container target : NodeId) (path : Path) :
    Edits draft (draft.dropInbound container path target).1 := by
  unfold dropInbound
  split
  · exact .refl
  · next node found =>
    have here : current draft.node? target = node := current_of_some found
    refine (Edit.relinked ?_ ?_).edits
    · rw [Node.kind_removeLink, here]
    · rw [Node.data_removeLink, here]

theorem edits_unlink (draft : Draft) (container target : NodeId) (path : Path) :
    Edits draft (draft.unlink container path target) := by
  have dropped := (edit_removeLink draft container .outbound ⟨target, path⟩).edits.trans
    (edits_dropInbound _ container target path)
  unfold unlink
  dsimp only
  split
  · exact dropped.tail (.orphaned _)
  · exact dropped

theorem edits_unlinkPrevious (draft : Draft) (container : NodeId) (path : Path)
    (previous : Option NodeId) : Edits draft (draft.unlinkPrevious container path previous) := by
  cases previous with
  | none => exact .refl
  | some target => exact edits_unlink draft container target path

theorem edits_linkNext (draft : Draft) (container : NodeId) (path : Path) (next : Option NodeId) :
    Edits draft (draft.linkNext container path next) := by
  cases next with
  | none => exact .refl
  | some target =>
    have linked : Edits draft (draft.link container path target) :=
      (edit_addLink draft container _ _).edits.tail (edit_addLink _ target _ _)
    exact linked.tail (.orphaned _)

theorem edits_apply (draft : Draft) (change : LinkChange) : Edits draft (draft.apply change) := by
  cases change with
  | detach container path target => exact edits_unlink draft container target path
  | relink container path next =>
    rw [apply_relink]
    exact ((Edit.written _ _ _).edits.trans (edits_unlinkPrevious _ _ _ _)).trans
      (edits_linkNext _ _ _ _)

theorem edits_applyAll (draft : Draft) (changes : List LinkChange) :
    Edits draft (draft.applyAll changes) := by
  induction changes generalizing draft with
  | nil => exact .refl
  | cons change rest ih => exact (edits_apply draft change).trans (ih _)

theorem edits_release (draft : Draft) (id : NodeId) (stack : List NodeId) (links : List Link) :
    Edits draft (draft.release id stack links).1 := by
  induction links generalizing draft stack with
  | nil => exact .refl
  | cons link rest ih =>
    rw [release]
    exact (edits_dropInbound draft id link.node link.path).trans (ih _ _)

theorem edits_collectFrom (bound : Nat) (draft : Draft) (stack : List NodeId) :
    Edits draft (draft.collectFrom bound stack) :=
  collectFrom_rel (motive := Edits) (fun _ => .refl)
    (fun {_ _ id node} stack _ later =>
      ((Edit.removed id).edits.trans (edits_release _ id stack node.outbound)).trans later)
    bound draft stack

theorem edits_collectOrphans (draft : Draft) : Edits draft draft.collectOrphans :=
  (Edit.orphaned Table.empty).edits.trans (edits_collectFrom _ _ _)

/-! ## What is counted as edited -/

theorem Edit.contains_edited {draft draft' : Draft} (h : Edit draft draft') {id : NodeId}
    (edited : draft.edited.contains id) : draft'.edited.contains id := by
  have more (other : NodeId) : (draft.edited.add other).contains id = true := by
    rw [NameSet.contains_add, edited, Bool.or_true]
  cases h with
  | relinked | made | orphaned => exact edited
  | written other => exact more other
  | removed other => exact more other

theorem Edits.contains_edited {draft draft' : Draft} (h : Edits draft draft') {id : NodeId}
    (edited : draft.edited.contains id) : draft'.edited.contains id := by
  induction h with
  | refl => exact edited
  | tail _ edit ih => exact edit.contains_edited ih

/-- Only a node that is removed is gone. -/
theorem Edit.edited_of_gone {draft draft' : Draft} (h : Edit draft draft') {id : NodeId}
    (has : Nodes.Has draft.node? id) (gone : ¬ Nodes.Has draft'.node? id) :
    draft'.edited.contains id := by
  cases h with
  | relinked | made =>
    refine absurd ?_ gone
    rw [nodes_put, has_put]
    exact Or.inr has
  | written other path value =>
    refine absurd ?_ gone
    rw [has_set]
    exact Or.inr has
  | removed other =>
    have here : other = id := by
      refine Classical.not_not.mp fun ne => gone ?_
      unfold Nodes.Has
      rw [node?_remove, if_neg ne]
      exact has
    show (draft.edited.add other).contains id = true
    rw [NameSet.contains_add, decide_eq_true here, Bool.true_or]
  | orphaned => exact absurd has gone

theorem Edits.edited_of_gone {draft draft' : Draft} (h : Edits draft draft') {id : NodeId}
    (has : Nodes.Has draft.node? id) (gone : ¬ Nodes.Has draft'.node? id) :
    draft'.edited.contains id := by
  induction h with
  | refl => exact absurd has gone
  | @tail middle _ _ edit ih =>
    by_cases between : Nodes.Has middle.node? id
    · exact edit.edited_of_gone between gone
    · exact edit.contains_edited (ih between)

/-- What is counted as edited is in the draft, and what is not has the data of the base, unless
it is a blank node. -/
structure Tracked (base : Graph) (draft : Draft) : Prop where
  origin : draft.base = base
  changed : ∀ id, draft.edited.contains id → draft.changes.contains id
  kept : ∀ id, ¬ draft.edited.contains id →
    data? draft.node? id = data? base.node? id ∨ Blank draft.node? id

theorem tracked_ofGraph (base : Graph) : Tracked base (.ofGraph base) := by
  refine ⟨rfl, fun id edited => ?_, fun id unedited => .inl rfl⟩
  cases edited

/-- A node that counts as edited by now need not be what it was. -/
theorem Tracked.mark {base : Graph} {draft draft' : Draft} (h : Tracked base draft) {id : NodeId}
    (same : draft'.base = draft.base) (edited : draft'.edited = draft.edited.add id)
    {change : Option Node} (changes : draft'.changes = draft.changes.insert id change) :
    Tracked base draft' := by
  have others : ∀ other, id ≠ other → draft'.node? other = draft.node? other := by
    intro other ne
    unfold node?
    rw [changes, Table.get?_insert, if_neg ne, same]
  refine ⟨same.trans h.origin, fun other marked => ?_, fun other unmarked => ?_⟩
  · unfold Table.contains
    rw [changes, Table.get?_insert]
    split
    · rfl
    · next ne =>
      rw [edited, NameSet.contains_add, Bool.or_eq_true, decide_eq_true_iff] at marked
      exact h.changed other (marked.resolve_left ne)
  · rw [edited, NameSet.contains_add, Bool.or_eq_true, decide_eq_true_iff, not_or] at unmarked
    obtain ⟨ne, unmarked⟩ := unmarked
    unfold data? Blank
    rw [others other ne]
    exact h.kept other unmarked

theorem Tracked.put {base : Graph} {draft : Draft} (h : Tracked base draft) {id : NodeId}
    {node : Node} (kept : ¬ draft.edited.contains id →
      node.data = data? base.node? id ∨ node.kind = .parameterized ∧ node.data = none) :
    Tracked base (draft.put id node) := by
  refine ⟨h.origin, fun other edited => ?_, fun other unedited => ?_⟩
  · exact (contains_changes_put _ _ _ _).mpr (.inr (h.changed other edited))
  · rw [nodes_put, data?_put]
    by_cases e : id = other
    · subst e
      rw [if_pos rfl]
      exact (kept unedited).imp_right fun blank => ⟨node, if_pos rfl, blank⟩
    · rw [if_neg e]
      refine (h.kept other unedited).imp_right fun ⟨old, found, blank⟩ => ?_
      exact ⟨old, (if_neg e).trans found, blank⟩

theorem Edit.tracked {base : Graph} {draft draft' : Draft} (h : Edit draft draft')
    (tracked : Tracked base draft) : Tracked base draft' := by
  cases h with
  | @relinked id node kind data =>
    -- A blank node stays one when its links change.
    refine tracked.put fun unedited => ?_
    rw [data, data?_current]
    refine (tracked.kept id unedited).imp_right fun ⟨old, found, parameterized, blank⟩ => ?_
    rw [current_of_some found] at kind
    refine ⟨kind.trans parameterized, ?_⟩
    rw [data?, found]
    exact blank
  | written id path value => exact tracked.mark rfl rfl rfl
  | removed id => exact tracked.mark rfl rfl rfl
  | made kind data => exact tracked.put fun _ => .inr ⟨kind, data⟩
  | orphaned orphans => exact ⟨tracked.origin, tracked.changed, tracked.kept⟩

theorem Edits.tracked {base : Graph} {draft draft' : Draft} (h : Edits draft draft')
    (tracked : Tracked base draft) : Tracked base draft' := by
  induction h with
  | refl => exact tracked
  | tail _ edit ih => exact edit.tracked ih

end Draft
end ResponseGraph
