import ResponseGraph.Proofs.Draft.Supported

/-!
Nodes that are copied into a draft.

A node that was copied counts as new to everyone who holds the base, so no node is to be copied
that stays what it was.  For each operation of a draft the lemmas below name the nodes that it may
copy.  A change of links copies the ends of the links that come and go (`Copies`), a collection the
nodes that it removes and those that they link, and a commit the nodes above an edited one.
-/

namespace ResponseGraph

open Nodes NodeId
open Relation (ReflTransGen)

namespace Draft

variable {draft : Draft} {container target id : NodeId} {path : Path} {next : Option NodeId}
  {change : LinkChange} {changes : List LinkChange}

theorem contains_changes_set (draft : Draft) (id other : NodeId) (path : Path) (value : Value) :
    (draft.set id path value).changes.contains other ↔
      other = id ∨ draft.changes.contains other :=
  contains_changes_put _ _ _ _

theorem contains_changes_remove (draft : Draft) (id other : NodeId) :
    (draft.remove id).changes.contains other ↔ other = id ∨ draft.changes.contains other := by
  unfold remove Table.contains
  rw [Table.get?_insert]
  by_cases e : id = other
  · simp [e]
  · rw [if_neg e]
    exact (or_iff_right fun same => e same.symm).symm

/-! ## Changes of links -/

theorem of_contains_changes_dropInbound
    (h : (draft.dropInbound container path target).1.changes.contains id) :
    id = target ∨ draft.changes.contains id := by
  unfold dropInbound at h
  split at h
  · exact .inr h
  · exact (contains_changes_put _ _ _ _).mp h

theorem of_contains_changes_unlink (h : (draft.unlink container path target).changes.contains id) :
    id = container ∨ id = target ∨ draft.changes.contains id := by
  have dropped : ((draft.withoutOutbound container path target).dropInbound container path
      target).1.changes.contains id := by
    unfold unlink at h
    dsimp only at h
    split at h <;> exact h
  rcases of_contains_changes_dropInbound dropped with e | before
  · exact .inr (.inl e)
  · exact ((contains_changes_put _ _ _ _).mp before).imp_right .inr

theorem of_contains_changes_unlinkPrevious {previous : Option NodeId}
    (h : (draft.unlinkPrevious container path previous).changes.contains id) :
    id = container ∨ previous = some id ∨ draft.changes.contains id := by
  cases previous with
  | none => exact .inr (.inr h)
  | some target =>
    refine (of_contains_changes_unlink h).imp_right fun rest => rest.imp_left fun e => ?_
    exact congrArg some e.symm

theorem of_contains_changes_linkNext
    (h : (draft.linkNext container path next).changes.contains id) :
    id = container ∨ next = some id ∨ draft.changes.contains id := by
  cases next with
  | none => exact .inr (.inr h)
  | some target =>
    change (draft.link container path target).changes.contains id at h
    rcases (contains_changes_put _ _ _ _).mp h with e | before
    · exact .inr (.inl (congrArg some e.symm))
    · exact ((contains_changes_put _ _ _ _).mp before).imp_right .inr

/-- The nodes that changes of links may copy, with the links as they are before. -/
inductive Copies (nodes : Nodes) (changes : List LinkChange) : NodeId → Prop
  | container {change : LinkChange} (member : change ∈ changes) :
    Copies nodes changes change.container
  | detached {container id : NodeId} {path : Path} (member : .detach container path id ∈ changes) :
    Copies nodes changes id
  | next {container id : NodeId} {path : Path}
    (member : .relink container path (some id) ∈ changes) : Copies nodes changes id
  | previous {container id : NodeId} {path : Path} {next : Option NodeId}
    (member : .relink container path next ∈ changes)
    (linked : ⟨id, path⟩ ∈ nodes.links .outbound container) (whole : Whole id) :
    Copies nodes changes id

/-- A change of links copies its container and the other ends of its links. -/
theorem of_contains_changes_apply (sound : draft.Sound) (here : change ∈ changes)
    (h : (draft.apply change).changes.contains id) :
    draft.changes.contains id ∨ Copies draft.node? changes id := by
  cases change with
  | detach container path target =>
    rcases of_contains_changes_unlink h with e | e | before
    · subst e
      exact .inr (.container here)
    · subst e
      exact .inr (.detached here)
    · exact .inl before
  | relink container path next =>
    rw [apply_relink] at h
    rcases of_contains_changes_linkNext h with e | e | before
    · subst e
      exact .inr (.container here)
    · subst e
      exact .inr (.next here)
    · rcases of_contains_changes_unlinkPrevious before with e | previous | before
      · subst e
        exact .inr (.container here)
      · obtain ⟨linked, whole⟩ := linkedEntity?_eq_some sound previous
        exact .inr (.previous here linked whole)
      · rcases (contains_changes_set _ _ _ _ _).mp before with e | before
        · subst e
          exact .inr (.container here)
        · exact .inl before

/-- A link comes only where a place is relinked. -/
theorem of_mem_outbound_apply {link : Link}
    (h : link ∈ Nodes.links (draft.apply change).node? .outbound id) :
    link ∈ Nodes.links draft.node? .outbound id ∨
      change = .relink id link.path (some link.node) := by
  cases change with
  | detach container path target => exact .inl ((mem_outbound_apply_detach _ _ _ _ _ _).mp h).1
  | relink container path next =>
    rcases (mem_outbound_apply_relink _ _ _ _ _ _).mp h with ⟨old, -⟩ | ⟨e, target, e', e''⟩
    · exact .inl old
    · subst e e' e''
      exact .inr rfl

theorem of_mem_outbound_applyAll {link : Link}
    (h : link ∈ Nodes.links (draft.applyAll changes).node? .outbound id) :
    link ∈ Nodes.links draft.node? .outbound id ∨
      .relink id link.path (some link.node) ∈ changes := by
  induction changes generalizing draft with
  | nil => exact .inl h
  | cons change changes ih =>
    rcases ih h with now | later
    · rcases of_mem_outbound_apply now with before | rfl
      · exact .inl before
      · exact .inr List.mem_cons_self
    · exact .inr (List.mem_cons_of_mem _ later)

/-- Whatever is linked after the first change was linked before, or the change links it. -/
theorem Copies.cons (h : Copies (draft.apply change).node? changes id) :
    Copies draft.node? (change :: changes) id := by
  cases h with
  | container member => exact .container (List.mem_cons_of_mem _ member)
  | detached member => exact .detached (List.mem_cons_of_mem _ member)
  | next member => exact .next (List.mem_cons_of_mem _ member)
  | previous member linked whole =>
    rcases of_mem_outbound_apply linked with before | rfl
    · exact .previous (List.mem_cons_of_mem _ member) before whole
    · exact .next List.mem_cons_self

theorem of_contains_changes_applyAll (sound : draft.Sound)
    (applicable : ∀ change ∈ changes, Applicable draft.node? change)
    (h : (draft.applyAll changes).changes.contains id) :
    draft.changes.contains id ∨ Copies draft.node? changes id := by
  induction changes generalizing draft with
  | nil => exact .inl h
  | cons change changes ih =>
    have rest : ∀ other ∈ changes, Applicable (draft.apply change).node? other :=
      fun other member => (applicable other (List.mem_cons_of_mem _ member)).mono fun _ => has_apply
    rcases ih (sound.apply (applicable change List.mem_cons_self)) rest h with now | copies
    · exact of_contains_changes_apply sound List.mem_cons_self now
    · exact .inr copies.cons

/-- A node in which a place is relinked is written. -/
theorem edited_applyAll_of_relink (member : .relink id path next ∈ changes) :
    (draft.applyAll changes).edited.contains id := by
  induction changes generalizing draft with
  | nil => cases member
  | cons change changes ih =>
    rcases List.mem_cons.mp member with rfl | later
    · have now : (draft.apply (.relink id path next)).edited.contains id := by
        rw [apply_relink, edited_linkNext, edited_unlinkPrevious, contains_edited_set]
        exact .inl rfl
      exact (edits_applyAll _ changes).contains_edited now
    · exact ih later

/-! ## Collections -/

theorem of_contains_changes_release {stack : List NodeId} {links : List Link} {other : NodeId}
    (h : (draft.release id stack links).1.changes.contains other) :
    (∃ path, ⟨other, path⟩ ∈ links) ∨ draft.changes.contains other := by
  induction links generalizing draft stack with
  | nil => exact .inr h
  | cons link rest ih =>
    rw [release] at h
    dsimp only at h
    rcases ih h with ⟨path, later⟩ | now
    · exact .inl ⟨path, List.mem_cons_of_mem _ later⟩
    · rcases of_contains_changes_dropInbound now with rfl | before
      · exact .inl ⟨link.path, List.mem_cons_self⟩
      · exact .inr before

end Draft

/-- The node is gone, or it was linked from a node that is gone. -/
def Nodes.Bereft (nodes later : Nodes) (id : NodeId) : Prop :=
  Loses nodes later id ∨
    ∃ source path, Loses nodes later source ∧ ⟨id, path⟩ ∈ nodes.links .outbound source

theorem Nodes.Bereft.mono {nodes later last : Nodes} {id : NodeId} (h : Bereft nodes later id)
    (fewer : ∀ id, last.Has id → later.Has id) : Bereft nodes last id := by
  have lost {id : NodeId} (gone : Loses nodes later id) : Loses nodes last id :=
    ⟨gone.1, fun has => gone.2 (fewer id has)⟩
  exact h.imp lost fun ⟨source, path, gone, linked⟩ => ⟨source, path, lost gone, linked⟩

namespace Collecting

variable {start : Draft} {candidate : NodeId → Prop} {state next : Collecting}

/-- A collection copies only what it leaves bereft. -/
def Confined (start : Draft) (state : Collecting) : Prop :=
  ∀ id, state.draft.changes.contains id →
    start.changes.contains id ∨ Bereft start.node? state.draft.node? id

theorem Step.confined (sinks : Sinks start candidate state) (confined : Confined start state)
    (step : Step state next) : Confined start next := by
  cases step with
  | skip before after stays => exact confined
  | @remove draft id node before after found orphan =>
    intro other copied
    have nodes := Draft.nodes_collected found (before ++ after)
    have has : Nodes.Has draft.node? id := has_of_some found
    have gone : Loses start.node? (Nodes.collected draft.node? id) id :=
      ⟨sinks.shed.has has, fun there => (has_collected.mp there).1 rfl⟩
    dsimp only at copied ⊢
    rw [nodes]
    rcases Draft.of_contains_changes_release copied with ⟨path, linked⟩ | removed
    · refine .inr (.inr ⟨id, path, gone, ?_⟩)
      rw [← sinks.shed.outbound has, links_of_some found]
      exact linked
    · rcases (Draft.contains_changes_remove _ _ _).mp removed with rfl | old
      · exact .inr (.inl gone)
      · refine (confined other old).imp_right fun bereft => bereft.mono fun _ there => ?_
        exact (has_collected.mp there).2

theorem confined_of_steps (mirrored : Mirrored start.node?) (sinks : Sinks start candidate state)
    (confined : Confined start state) (steps : ReflTransGen Step state next) :
    Confined start next := by
  induction steps with
  | refl => exact confined
  | tail steps step ih => exact step.confined (sinks.run mirrored steps) ih

end Collecting

namespace Draft

variable {draft : Draft} {id : NodeId}

theorem of_contains_changes_collectOrphans (mirrored : Mirrored draft.node?)
    (h : draft.collectOrphans.changes.contains id) :
    draft.changes.contains id ∨ Bereft draft.node? draft.collectOrphans.node? id := by
  have all (id : NodeId) : id ∈ draft.orphans.keys.reverse ↔ draft.orphans.contains id :=
    List.mem_reverse.trans Table.mem_keys_iff
  exact Collecting.confined_of_steps mirrored (Collecting.sinks_start mirrored all)
    (fun _ copied => .inl copied) (Collecting.steps_collectFrom (Nat.le_refl _)) id h

/-! ## Commits -/

/-- Only what is listed is copied, and only that is put on the stack. -/
theorem of_ownAll {seen : NameSet} {stack ids : List NodeId} :
    ((draft.ownAll seen stack ids).1.changes.contains id →
      id ∈ ids ∨ draft.changes.contains id) ∧
    (id ∈ (draft.ownAll seen stack ids).2.2 → id ∈ ids ∨ id ∈ stack) := by
  induction ids generalizing draft seen stack with
  | nil => exact ⟨.inr, .inr⟩
  | cons first rest ih =>
    have listed {before : Prop} (h : id ∈ rest ∨ before) : id ∈ first :: rest ∨ before :=
      h.imp_left (List.mem_cons_of_mem _)
    rw [ownAll]
    split
    · exact ⟨fun h => listed (ih.1 h), fun h => listed (ih.2 h)⟩
    · split
      · exact ⟨fun h => listed (ih.1 h), fun h => listed (ih.2 h)⟩
      · refine ⟨fun h => ?_, fun h => ?_⟩
        · rcases ih.1 h with later | now
          · exact listed (.inl later)
          · rcases (contains_changes_put _ _ _ _).mp now with rfl | before
            · exact .inl List.mem_cons_self
            · exact .inr before
        · rcases ih.2 h with later | now
          · exact listed (.inl later)
          · rcases List.mem_cons.mp now with rfl | before
            · exact .inl List.mem_cons_self
            · exact .inr before

/-- The search goes up from what is on the stack. -/
theorem of_contains_changes_ownAncestorsFrom {first : NodeId → Prop} {bound : Nat} {seen : NameSet}
    {stack : List NodeId} (above : ∀ id ∈ stack, Nodes.Above draft.node? first id)
    (h : (draft.ownAncestorsFrom bound seen stack).changes.contains id) :
    draft.changes.contains id ∨ Nodes.Above draft.node? first id := by
  induction bound generalizing draft seen stack with
  | zero => exact .inl h
  | succ bound ih =>
    cases stack with
    | nil => exact .inl h
    | cons top stack =>
      have below : ∀ id ∈ stack, Nodes.Above draft.node? first id :=
        fun id member => above id (List.mem_cons_of_mem _ member)
      rw [ownAncestorsFrom] at h
      split at h
      · exact ih below h
      · next node found =>
        have nodes := nodes_ownAll draft seen stack (node.inbound.map Link.node)
        have up : ∀ id ∈ node.inbound.map Link.node, Nodes.Above draft.node? first id := by
          intro id member
          obtain ⟨link, linked, rfl⟩ := List.mem_map.mp member
          refine (above top List.mem_cons_self).up ?_
          rw [links_of_some found]
          exact linked
        rw [← nodes] at up below ⊢
        rcases ih (fun id member => (of_ownAll.2 member).elim (up id) (below id)) h with
          now | climbed
        · exact (of_ownAll.1 now).symm.imp_right (up id)
        · exact .inr climbed

/-- A commit copies the nodes above those that count as edited. -/
theorem of_contains_changes_ownAncestors (h : draft.ownAncestors.changes.contains id) :
    draft.changes.contains id ∨
      Nodes.Above draft.node? (fun id => draft.edited.contains id) id := by
  refine of_contains_changes_ownAncestorsFrom (fun id member => .first ?_) h
  exact Table.mem_keys_iff.mp (List.mem_reverse.mp member)

end Draft
end ResponseGraph
