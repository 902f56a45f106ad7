import ResponseGraph.Proofs.Draft.Counted
import ResponseGraph.Proofs.Draft.Upheld

/-!
Drafts that differ in the order of links.

Two drafts are level if they have the same nodes, up to the order in which links are listed, the
same orphans and the same edits.  Whoever changes links does not see the difference, as long as no
place links two entities.

A change that was made may be made again.  The place that it relinks is settled then: it holds the
reference, links that entity and no other, and the entity is no orphan.  Relinking a settled place
takes the link away and puts it back, which changes nothing but the order.
-/

namespace ResponseGraph

open NodeId (Whole)

/-- The same node, with its links in any order. -/
structure Node.Shuffled (node more : Node) : Prop where
  kind : node.kind = more.kind
  data : node.data = more.data
  links : ∀ direction, (node.links direction).Perm (more.links direction)

namespace Nodes

/-- The same nodes, with their links in any order. -/
def Shuffled (nodes more : Nodes) : Prop := ∀ id, Option.Rel Node.Shuffled (nodes id) (more id)

/-- The same nodes, whatever the order of links and how often they are listed. -/
structure Level (nodes more : Nodes) : Prop where
  has : ∀ id, nodes.Has id ↔ more.Has id
  frame : nodes.frame = more.frame
  links : ∀ direction id link, link ∈ nodes.links direction id ↔ link ∈ more.links direction id

namespace Level

variable {nodes more : Nodes}

theorem refl (nodes : Nodes) : Level nodes nodes := ⟨fun _ => Iff.rfl, rfl, fun _ _ _ => Iff.rfl⟩

theorem symm (h : Level nodes more) : Level more nodes :=
  ⟨fun id => (h.has id).symm, h.frame.symm, fun way id link => (h.links way id link).symm⟩

theorem trans {most : Nodes} (h : Level nodes more) (h' : Level more most) : Level nodes most :=
  ⟨fun id => (h.has id).trans (h'.has id), h.frame.trans h'.frame,
    fun way id link => (h.links way id link).trans (h'.links way id link)⟩

theorem links_eq_nil (h : Level nodes more) {direction : Direction} {id : NodeId} :
    nodes.links direction id = [] ↔ more.links direction id = [] := by
  simp only [List.eq_nil_iff_forall_not_mem, h.links]

theorem shuffled (h : Level nodes more) (one : nodes.Nodup) (two : more.Nodup) :
    Shuffled nodes more := by
  intro id
  have has := h.has id
  unfold Has at has
  cases found : nodes id with
  | none =>
    rw [found] at has
    have found' : more id = none := Option.not_isSome_iff_eq_none.mp fun there => by
      cases has.mpr there
    rw [found']
    exact .none
  | some node =>
    rw [found] at has
    obtain ⟨node', found'⟩ := Option.isSome_iff_exists.mp (has.mp rfl)
    rw [found']
    have frame := congrFun h.frame id
    rw [frame_of_some found, frame_of_some found'] at frame
    injection frame with kind data
    refine .some ⟨kind, data, fun way => ?_⟩
    have same := h.links way id
    have one := one way id
    have two := two way id
    rw [links_of_some found] at same one
    rw [links_of_some found'] at same two
    exact (List.perm_ext_iff_of_nodup one two).mpr same

end Level
end Nodes

open Nodes

namespace Draft

/-- The same draft, up to the order of links. -/
structure Level (a b : Draft) : Prop where
  nodes : Nodes.Level a.node? b.node?
  edited : a.edited = b.edited
  orphans : a.orphans = b.orphans

namespace Level

variable {a b : Draft} {container target : NodeId} {path : Path} {next : Option NodeId}
  {change : LinkChange}

theorem refl (draft : Draft) : Level draft draft := ⟨.refl _, rfl, rfl⟩

theorem trans {c : Draft} (h : Level a b) (h' : Level b c) : Level a c :=
  ⟨h.nodes.trans h'.nodes, h.edited.trans h'.edited, h.orphans.trans h'.orphans⟩

theorem set (h : Level a b) (id : NodeId) (path : Path) (value : Value) :
    Level (a.set id path value) (b.set id path value) := by
  refine ⟨⟨fun other => ?_, ?_, fun way other link => ?_⟩, ?_, h.orphans⟩
  · rw [has_set, has_set, h.nodes.has]
  · funext other
    rw [nodes_set_write, nodes_set_write, frame_write, frame_write, h.nodes.frame]
  · rw [links_set, links_set, h.nodes.links]
  · show a.edited.add id = b.edited.add id
    rw [h.edited]

theorem unlink (h : Level a b) (container target : NodeId) (path : Path) :
    Level (a.unlink container path target) (b.unlink container path target) := by
  have nodes : Nodes.Level (a.unlink container path target).node?
      (b.unlink container path target).node? := by
    refine ⟨fun other => ?_, ?_, fun way other link => ?_⟩
    · rw [has_unlink, has_unlink, h.nodes.has]
    · rw [frame_unlink, frame_unlink, h.nodes.frame]
    · rw [mem_links_unlink, mem_links_unlink, h.nodes.links]
  refine ⟨nodes, ?_, NameSet.ext fun id => ?_⟩
  · rw [edited_unlink, edited_unlink, h.edited]
  · rw [contains_orphans_unlink, contains_orphans_unlink, h.orphans, nodes.has,
      nodes.links_eq_nil]

theorem unlinkPrevious (h : Level a b) (container : NodeId) (path : Path)
    (previous : Option NodeId) :
    Level (a.unlinkPrevious container path previous)
      (b.unlinkPrevious container path previous) := by
  cases previous with
  | none => exact h
  | some target => exact h.unlink container target path

theorem linkNext (h : Level a b) (container : NodeId) (path : Path) (next : Option NodeId) :
    Level (a.linkNext container path next) (b.linkNext container path next) := by
  cases next with
  | none => exact h
  | some target =>
    refine ⟨?_, ?_, ?_⟩
    · rw [nodes_linkNext, nodes_linkNext]
      refine ⟨fun other => ?_, ?_, fun way other link => ?_⟩
      · rw [has_link, has_link, h.nodes.has]
      · rw [frame_link, frame_link, h.nodes.frame]
      · rw [mem_links_link, mem_links_link, h.nodes.links]
    · rw [edited_linkNext, edited_linkNext, h.edited]
    · show a.orphans.erase target = b.orphans.erase target
      rw [h.orphans]

theorem linkedEntity?_eq (h : Level a b) (one : Upheld a.node?) (two : Upheld b.node?)
    (container : NodeId) (path : Path) :
    a.linkedEntity? container path = b.linkedEntity? container path :=
  Option.ext fun target => by
    rw [one.linkedEntity?_iff, two.linkedEntity?_iff, h.nodes.links]

theorem apply (h : Level a b) (one : Upheld a.node?) (two : Upheld b.node?)
    (change : LinkChange) : Level (a.apply change) (b.apply change) := by
  cases change with
  | detach container path target => exact h.unlink container target path
  | relink container path next =>
    rw [apply_relink, apply_relink, h.linkedEntity?_eq one two]
    exact ((h.set container path _).unlinkPrevious container path _).linkNext container path next

end Level
end Draft
end ResponseGraph
