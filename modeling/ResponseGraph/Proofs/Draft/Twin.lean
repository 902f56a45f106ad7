import ResponseGraph.Proofs.Draft.Sound

/-!
Drafts with the same current nodes.

A draft may go on from earlier edits, or start anew from the graph that those edits made.
Twins are two such drafts.  They have the same current nodes and the same orphans, and one
of them counts the earlier edits among its own.  No operation of a draft looks at anything
else, so what is done to both leaves them twins.
-/

namespace ResponseGraph
namespace Draft

/-- The first draft has the earlier edits besides those of the second. -/
structure Twin (earlier : NameSet) (a b : Draft) : Prop where
  nodes : a.node? = b.node?
  orphans : a.orphans = b.orphans
  edited : ∀ id, a.edited.contains id ↔ earlier.contains id ∨ b.edited.contains id

namespace Twin

variable {earlier : NameSet} {a b : Draft}

/-- A draft without orphans and the draft that starts from its nodes. -/
theorem start {draft : Draft} {graph : Graph} (same : draft.node? = graph.node?)
    (orphans : draft.orphans = Table.empty) : Twin draft.edited draft (.ofGraph graph) := by
  refine ⟨same, orphans, fun id => ?_⟩
  have none : ¬ (ofGraph graph).edited.contains id := by
    intro member
    cases member
  rw [or_iff_left none]

theorem put (h : Twin earlier a b) (id : NodeId) (node : Node) :
    Twin earlier (a.put id node) (b.put id node) := by
  refine ⟨?_, h.orphans, h.edited⟩
  rw [nodes_put, nodes_put, h.nodes]

theorem update (h : Twin earlier a b) (id : NodeId) (f : Node → Node) :
    Twin earlier (a.update id f) (b.update id f) := by
  refine ⟨?_, h.orphans, h.edited⟩
  rw [nodes_update, nodes_update, h.nodes]

theorem edited_add (h : Twin earlier a b) (id other : NodeId) :
    (a.edited.add id).contains other ↔
      earlier.contains other ∨ (b.edited.add id).contains other := by
  rw [NameSet.contains_add, NameSet.contains_add, Bool.or_eq_true, Bool.or_eq_true, h.edited,
    or_left_comm]

theorem set (h : Twin earlier a b) (id : NodeId) (path : Path) (value : Value) :
    Twin earlier (a.set id path value) (b.set id path value) := by
  refine ⟨?_, h.orphans, h.edited_add id⟩
  rw [nodes_set, nodes_set, h.nodes]

theorem remove (h : Twin earlier a b) (id : NodeId) :
    Twin earlier (a.remove id) (b.remove id) := by
  refine ⟨funext fun other => ?_, h.orphans, h.edited_add id⟩
  rw [node?_remove, node?_remove, h.nodes]

theorem withOrphans (h : Twin earlier a b) (orphans : NameSet) :
    Twin earlier { a with orphans } { b with orphans } := ⟨h.nodes, rfl, h.edited⟩

/-! ## Links -/

theorem linkedEntity?_eq (h : Twin earlier a b) (container : NodeId) (path : Path) :
    a.linkedEntity? container path = b.linkedEntity? container path := by
  unfold linkedEntity?
  rw [h.nodes]

theorem dropInbound (h : Twin earlier a b) (container target : NodeId) (path : Path) :
    Twin earlier (a.dropInbound container path target).1 (b.dropInbound container path target).1 ∧
      (a.dropInbound container path target).2 = (b.dropInbound container path target).2 := by
  unfold Draft.dropInbound
  rw [h.nodes]
  split
  · exact ⟨h, rfl⟩
  · exact ⟨h.put _ _, rfl⟩

theorem unlink (h : Twin earlier a b) (container target : NodeId) (path : Path) :
    Twin earlier (a.unlink container path target) (b.unlink container path target) := by
  obtain ⟨dropped, orphaned⟩ := (h.update container fun node =>
    node.removeLink .outbound ⟨target, path⟩).dropInbound container target path
  unfold Draft.unlink
  dsimp only
  rw [orphaned, dropped.orphans]
  split
  · exact dropped.withOrphans _
  · exact dropped

theorem unlinkPrevious (h : Twin earlier a b) (container : NodeId) (path : Path)
    (previous : Option NodeId) :
    Twin earlier (a.unlinkPrevious container path previous)
      (b.unlinkPrevious container path previous) := by
  cases previous with
  | none => exact h
  | some target => exact h.unlink container target path

theorem linkNext (h : Twin earlier a b) (container : NodeId) (path : Path) (next : Option NodeId) :
    Twin earlier (a.linkNext container path next) (b.linkNext container path next) := by
  cases next with
  | none => exact h
  | some target =>
    have linked : Twin earlier (a.link container path target) (b.link container path target) :=
      (h.update container _).update target _
    unfold Draft.linkNext
    dsimp only
    rw [linked.orphans]
    exact linked.withOrphans _

theorem apply (h : Twin earlier a b) (change : LinkChange) :
    Twin earlier (a.apply change) (b.apply change) := by
  cases change with
  | detach container path target => exact h.unlink container target path
  | relink container path next =>
    rw [apply_relink, apply_relink, h.linkedEntity?_eq]
    exact ((h.set container path _).unlinkPrevious container path _).linkNext container path next

theorem applyAll (h : Twin earlier a b) (changes : List LinkChange) :
    Twin earlier (a.applyAll changes) (b.applyAll changes) := by
  induction changes generalizing a b with
  | nil => exact h
  | cons change rest ih => exact ih (h.apply change)

/-! ## Collection -/

theorem release (h : Twin earlier a b) (id : NodeId) (stack : List NodeId) (links : List Link) :
    Twin earlier (a.release id stack links).1 (b.release id stack links).1 ∧
      (a.release id stack links).2 = (b.release id stack links).2 := by
  induction links generalizing a b stack with
  | nil => exact ⟨h, rfl⟩
  | cons link rest ih =>
    obtain ⟨dropped, orphaned⟩ := h.dropInbound id link.node link.path
    rw [Draft.release, Draft.release]
    dsimp only
    rw [orphaned]
    exact ih dropped _

theorem collectFrom (h : Twin earlier a b) (bound : Nat) (stack : List NodeId) :
    Twin earlier (a.collectFrom bound stack) (b.collectFrom bound stack) := by
  induction bound generalizing a b stack with
  | zero => exact h
  | succ bound ih =>
    cases stack with
    | nil => exact h
    | cons id stack =>
      rw [Draft.collectFrom, Draft.collectFrom, h.nodes]
      split
      · exact ih h stack
      · next node _ =>
        split
        · obtain ⟨released, rest⟩ := (h.remove id).release id stack node.outbound
          dsimp only
          rw [rest]
          exact ih released _
        · exact ih h stack

theorem collectOrphans (h : Twin earlier a b) :
    Twin earlier a.collectOrphans b.collectOrphans := by
  have start := h.withOrphans Table.empty
  have bound : ({ a with orphans := Table.empty } : Draft).outboundCount =
      ({ b with orphans := Table.empty } : Draft).outboundCount := by
    unfold outboundCount
    rw [graph_congr start.nodes]
  unfold Draft.collectOrphans collect
  rw [h.orphans, bound]
  exact start.collectFrom _ _

end Twin

/-! ## Orphans -/

theorem orphans_release (draft : Draft) (id : NodeId) (stack : List NodeId) (links : List Link) :
    (draft.release id stack links).1.orphans = draft.orphans := by
  induction links generalizing draft stack with
  | nil => rfl
  | cons link rest ih =>
    rw [release]
    dsimp only
    rw [ih, orphans_dropInbound]

theorem orphans_collectFrom (bound : Nat) (draft : Draft) (stack : List NodeId) :
    (draft.collectFrom bound stack).orphans = draft.orphans :=
  collectFrom_rel (motive := fun draft final => final.orphans = draft.orphans) (fun _ => rfl)
    (fun stack _ same => same.trans (orphans_release _ _ stack _)) bound draft stack

/-- A collection leaves no orphans behind. -/
theorem orphans_collectOrphans (draft : Draft) : draft.collectOrphans.orphans = Table.empty :=
  orphans_collectFrom _ _ _

end Draft
end ResponseGraph
