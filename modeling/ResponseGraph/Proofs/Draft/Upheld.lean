import ResponseGraph.Proofs.Draft.Single

/-!
Nodes below any root.

An operation may be rooted at any id, also at one that belongs to the value of a field with
arguments.  Nothing need link such a root, and when a payload comes to the field its node is made
anew.  What the old node linked keeps inbound links that no longer come from anywhere, so the nodes
are not sound.

`Nodes.Upheld` is what every merge keeps all the same.  Every outbound link has its other end, no
place links two entities, and whatever is linked is an entity exactly if its id has no separator.
Kind and data of a node are its frame, which changes of links leave as it is.
-/

namespace ResponseGraph

open NodeId (Whole)

namespace Nodes

variable {nodes more : Nodes} {id container target : NodeId} {path : Path}

/-! ## Frames -/

/-- What a node is besides its links.  One that is missing would be made as an entity. -/
def frame (nodes : Nodes) (id : NodeId) : NodeKind × Option Value :=
  ((nodes.current id).kind, (nodes.current id).data)

theorem frame_of_some {node : Node} (h : nodes id = some node) :
    nodes.frame id = (node.kind, node.data) := by
  rw [frame, current_of_some h]

theorem frame_of_none (h : nodes id = none) : nodes.frame id = (.entity, none) := by
  rw [frame, current, h]
  rfl

theorem frame_put (nodes : Nodes) (id other : NodeId) (node : Node) :
    (nodes.put id node).frame other =
      if id = other then (node.kind, node.data) else nodes.frame other := by
  unfold frame current put
  split <;> rfl

theorem frame_put_of_same {node : Node} (kind : node.kind = (nodes.current id).kind)
    (data : node.data = (nodes.current id).data) : (nodes.put id node).frame = nodes.frame := by
  funext other
  rw [frame_put]
  split
  · next e => rw [← e, kind, data, frame]
  · rfl

theorem frame_write (nodes : Nodes) (id other : NodeId) (path : Path) (value : Value) :
    (nodes.write id path value).frame other =
      if id = other then
        ((nodes.frame id).1, some (((nodes.frame id).2.getD .null).set path value))
      else nodes.frame other :=
  frame_put nodes id other _

theorem frame_cut (gone : NodeId → Link → Bool) (nodes : Nodes) :
    (nodes.cut gone).frame = nodes.frame := by
  funext other
  unfold frame current cut
  cases nodes other <;> rfl

theorem read_eq_frame (nodes : Nodes) (id : NodeId) (path : Path) :
    nodes.read id path = (nodes.frame id).2.bind fun data => data.get? path := by
  unfold read frame current
  cases nodes id <;> rfl

theorem read_of_frame (frames : more.frame = nodes.frame) (id : NodeId) (path : Path) :
    more.read id path = nodes.read id path := by
  rw [read_eq_frame, read_eq_frame, frames]

/-! ## Link lists -/

/-- No list of links holds a link twice. -/
def Nodup (nodes : Nodes) : Prop := ∀ direction id, (nodes.links direction id).Nodup

theorem Nodup.put (h : Nodup nodes) {node : Node}
    (distinct : ∀ direction, (node.links direction).Nodup) : Nodup (nodes.put id node) := by
  intro direction other
  rw [links_put]
  split
  · exact distinct direction
  · exact h direction other

theorem Nodup.current (h : Nodup nodes) (id : NodeId) (direction : Direction) :
    ((nodes.current id).links direction).Nodup := by
  rw [links_current]
  exact h direction id

theorem Nodup.addLink (h : Nodup nodes) (id : NodeId) (direction : Direction)
    (link : Link) : Nodup (nodes.put id ((nodes.current id).addLink direction link)) :=
  h.put (Node.nodup_addLink (h.current id) direction link)

theorem Nodup.removeLink (h : Nodup nodes) (id : NodeId) (direction : Direction)
    (link : Link) : Nodup (nodes.put id ((nodes.current id).removeLink direction link)) :=
  h.put (Node.nodup_removeLink (h.current id) direction link)

theorem Nodup.cut (h : Nodup nodes) (gone : NodeId → Link → Bool) :
    Nodup (nodes.cut gone) := fun direction id =>
  (links_cut_sublist gone nodes direction id).nodup (h direction id)

theorem Nodup.drop (h : Nodup nodes) (id : NodeId) : Nodup (nodes.drop id) := by
  intro direction other
  rw [links_drop]
  split
  · exact List.nodup_nil
  · exact h direction other

/-! ## What every merge keeps -/

/-- Every outbound link has its other end. -/
def Answered (nodes : Nodes) : Prop := ∀ container target path,
  ⟨target, path⟩ ∈ nodes.links .outbound container → ⟨container, path⟩ ∈ nodes.links .inbound target

structure Upheld (nodes : Nodes) : Prop where
  nodup : Nodup nodes
  answered : Answered nodes
  addressed : ∀ container target path, ⟨target, path⟩ ∈ nodes.links .outbound container →
    ¬ Whole target → ∃ arguments, NodeId.parameterized container path arguments = .ok target
  value : ∀ container target path, ⟨target, path⟩ ∈ nodes.links .outbound container →
    ¬ Whole target → (nodes.frame target).1 = .parameterized
  entity : ∀ id, Whole id → (nodes.frame id).1 = .entity
  single : Single nodes
  rooted : Rooted nodes

theorem frame_sprout (nodes : Nodes) (container id : NodeId) (path : Path) {node : Node}
    (kind : node.kind = .parameterized) (data : node.data = none) (other : NodeId) :
    (nodes.sprout container path id node).frame other =
      if id = other then (.parameterized, none) else nodes.frame other := by
  unfold sprout
  dsimp only
  rw [frame_put_of_same (Node.kind_addLink _ _ _) (Node.data_addLink _ _ _), frame_put, kind, data]

/-- A node that is made for an address gives up what the old node there linked. -/
theorem mem_outbound_sprout_anew {node : Node} {arguments : Arguments} {other : NodeId}
    {link : Link}
    (address : NodeId.parameterized container path arguments = .ok id)
    (empty : node.outbound = []) :
    link ∈ (nodes.sprout container path id node).links .outbound other ↔
      (other ≠ id ∧ link ∈ nodes.links .outbound other) ∨
        (other = container ∧ link = ⟨id, path⟩) := by
  unfold sprout
  dsimp only
  rw [mem_links_put_addLink, links_put]
  by_cases e : id = other
  · subst e
    simp [Node.links, empty, NodeId.parameterized_ne_container address, eq_comm]
  · simp [e, Ne.symm e, eq_comm]

namespace Upheld

theorem empty : Upheld fun _ => none := by
  refine ⟨fun _ _ => List.nodup_nil, ?_, ?_, ?_, fun _ _ => rfl, ?_, ?_⟩
  · exact fun _ _ _ member => absurd member List.not_mem_nil
  · exact fun _ _ _ member => absurd member List.not_mem_nil
  · exact fun _ _ _ member => absurd member List.not_mem_nil
  · exact fun _ _ _ _ _ _ member => absurd member List.not_mem_nil
  · exact fun _ _ _ stored => by cases stored

/-- Links come and go, and new ones lead to entities. -/
theorem relinked (h : Upheld nodes) (frames : more.frame = nodes.frame)
    (nodup : Nodup more) (answered : Answered more) (single : Single more)
    (linked : ∀ container target path, ⟨target, path⟩ ∈ more.links .outbound container →
      ⟨target, path⟩ ∈ nodes.links .outbound container ∨ Whole target) : Upheld more := by
  refine ⟨nodup, answered, fun container target path member apart => ?_,
    fun container target path member apart => ?_, fun id whole => ?_, single, ?_⟩
  · exact h.addressed _ _ _ ((linked _ _ _ member).resolve_right apart) apart
  · rw [frames]
    exact h.value _ _ _ ((linked _ _ _ member).resolve_right apart) apart
  · rw [frames]
    exact h.entity id whole
  · intro id whole value stored
    rw [read_of_frame frames] at stored
    exact h.rooted id whole value stored

/-- A write keeps entities from holding a list or a reference if it goes to a member of theirs. -/
theorem write (h : Upheld nodes) {value : Value}
    (inside : Whole id → ∃ name rest, path = .key name :: rest) :
    Upheld (nodes.write id path value) := by
  have kinds (other : NodeId) :
      ((nodes.write id path value).frame other).1 = (nodes.frame other).1 := by
    rw [frame_write]
    split
    · next e => rw [e]
    · rfl
  refine ⟨fun way other => ?_, fun container target place => ?_, fun container target place => ?_,
    fun container target place => ?_, fun other => ?_, fun other place one two => ?_,
    h.rooted.write inside⟩
  · rw [links_write]
    exact h.nodup way other
  · rw [links_write, links_write]
    exact h.answered container target place
  · rw [links_write]
    exact h.addressed container target place
  · rw [links_write, kinds]
    exact h.value container target place
  · rw [kinds]
    exact h.entity other
  · rw [links_write]
    exact h.single other place one two

/-- Nothing is linked that does not exist. -/
theorem has_target (h : Upheld nodes)
    (linked : ⟨target, path⟩ ∈ nodes.links .outbound container) : nodes.Has target :=
  has_of_mem (h.answered container target path linked)

/-- An address is linked only from the place that it tells. -/
theorem source_eq (h : Upheld nodes) {arguments : Arguments} {other : NodeId} {place : Path}
    (address : NodeId.parameterized container path arguments = .ok target)
    (linked : ⟨target, place⟩ ∈ nodes.links .outbound other) :
    other = container ∧ place = path := by
  obtain ⟨arguments', address'⟩ :=
    h.addressed other target place linked (NodeId.not_whole_of_parameterized address)
  exact NodeId.parameterized_inj address' address

/-- The node of a field with arguments is made and linked, in place of a node that nothing
links. -/
theorem sprout {node : Node} (h : Upheld nodes) {arguments : Arguments}
    (address : NodeId.parameterized container path arguments = .ok id)
    (fresh : ⟨id, path⟩ ∉ nodes.links .outbound container)
    (inbound : node.inbound = [⟨container, path⟩]) (outbound : node.outbound = [])
    (kind : node.kind = .parameterized) (data : node.data = none) :
    Upheld (nodes.sprout container path id node) := by
  have name := NodeId.not_whole_of_parameterized address
  have apart := NodeId.parameterized_ne_container address
  have links {other : NodeId} {link : Link} :
      link ∈ (nodes.sprout container path id node).links .outbound other ↔
        (other ≠ id ∧ link ∈ nodes.links .outbound other) ∨
          (other = container ∧ link = ⟨id, path⟩) :=
    mem_outbound_sprout_anew address outbound
  have unlinked {other : NodeId} {place : Path}
      (linked : ⟨id, place⟩ ∈ nodes.links .outbound other) : False := by
    obtain ⟨rfl, rfl⟩ := h.source_eq address linked
    exact fresh linked
  have frames := frame_sprout nodes container id path kind data
  refine ⟨?_, ?_, ?_, ?_, ?_, ?_, ?_⟩
  · refine (h.nodup.put fun direction => ?_).addLink _ _ _
    cases direction
    · simp [Node.links, inbound]
    · simp [Node.links, outbound]
  · intro other target place member
    unfold Nodes.sprout
    dsimp only
    rw [mem_links_put_addLink, links_put]
    refine Or.inl ?_
    rcases links.mp member with ⟨-, old⟩ | ⟨rfl, e⟩
    · rw [if_neg fun e => unlinked (e ▸ old)]
      exact h.answered other target place old
    · cases e
      rw [if_pos rfl, Node.links, inbound]
      exact List.mem_singleton.mpr rfl
  · intro other target place member apart
    rcases links.mp member with ⟨-, old⟩ | ⟨rfl, e⟩
    · exact h.addressed other target place old apart
    · cases e
      exact ⟨arguments, address⟩
  · intro other target place member apart
    rw [frames]
    split
    · rfl
    · next ne =>
      rcases links.mp member with ⟨-, old⟩ | ⟨-, e⟩
      · exact h.value other target place old apart
      · cases e
        exact absurd rfl ne
  · intro other whole
    rw [frames, if_neg fun e : id = other => name (e ▸ whole)]
    exact h.entity other whole
  · refine h.single.of_subset fun other place target whole member => ?_
    rcases links.mp member with ⟨-, old⟩ | ⟨-, e⟩
    · exact old
    · cases e
      exact absurd whole name
  · intro other whole value stored
    rw [read_eq_frame, frames, if_neg fun e : id = other => name (e ▸ whole),
      ← read_eq_frame] at stored
    exact h.rooted other whole value stored

/-- A node without inbound links can go. -/
theorem collected (h : Upheld nodes) (orphan : nodes.links .inbound id = []) :
    Upheld (nodes.collected id) := by
  have old {other target : NodeId} {place : Path}
      (linked : ⟨target, place⟩ ∈ (nodes.collected id).links .outbound other) :
      other ≠ id ∧ target ≠ id ∧ ⟨target, place⟩ ∈ nodes.links .outbound other := by
    rw [outbound_collected] at linked
    split at linked
    · cases linked
    · next ne =>
      refine ⟨Ne.symm ne, fun e => ?_, linked⟩
      have back := h.answered other target place linked
      rw [e, orphan] at back
      cases back
  have frames {other : NodeId} (ne : other ≠ id) :
      (nodes.collected id).frame other = nodes.frame other := by
    unfold Nodes.collected
    rw [frame_cut]
    unfold frame current drop
    rw [if_neg (Ne.symm ne)]
  refine ⟨(h.nodup.drop id).cut _, ?_, ?_, ?_, ?_, ?_, h.rooted.collected id⟩
  · intro other target place member
    obtain ⟨ne, there, before⟩ := old member
    exact mem_inbound_collected.mpr ⟨Ne.symm there, h.answered _ _ _ before, fun back => ne back.1⟩
  · exact fun other target place member => h.addressed other target place (old member).2.2
  · intro other target place member apart
    obtain ⟨-, there, before⟩ := old member
    rw [frames there]
    exact h.value other target place before apart
  · intro other whole
    by_cases e : other = id
    · rw [e, frame_of_none (collected_eq_none nodes id)]
    · rw [frames e]
      exact h.entity other whole
  · exact h.single.of_subset fun other place target _ member => (old member).2.2

end Upheld
end Nodes

open Nodes

namespace Draft

variable {draft : Draft} {container target id : NodeId} {path : Path} {next : Option NodeId}
  {change : LinkChange} {changes : List LinkChange}

/-! ## Frames and link lists after a change of links -/

theorem frame_unlink (draft : Draft) (container target : NodeId) (path : Path) :
    Nodes.frame (draft.unlink container path target).node? = Nodes.frame draft.node? := by
  rw [nodes_unlink, nodes_dropInbound, frame_cut]
  unfold withoutOutbound
  rw [nodes_update, frame_put_of_same (Node.kind_removeLink _ _ _) (Node.data_removeLink _ _ _)]

theorem frame_link (draft : Draft) (container target : NodeId) (path : Path) :
    Nodes.frame (draft.link container path target).node? = Nodes.frame draft.node? := by
  unfold link
  rw [nodes_update, frame_put_of_same (Node.kind_addLink _ _ _) (Node.data_addLink _ _ _),
    nodes_update, frame_put_of_same (Node.kind_addLink _ _ _) (Node.data_addLink _ _ _)]

theorem frame_unlinkPrevious (draft : Draft) (container : NodeId) (path : Path)
    (previous : Option NodeId) :
    Nodes.frame (draft.unlinkPrevious container path previous).node? =
      Nodes.frame draft.node? := by
  cases previous with
  | none => rfl
  | some target => exact frame_unlink draft container target path

theorem frame_linkNext (draft : Draft) (container : NodeId) (path : Path) (next : Option NodeId) :
    Nodes.frame (draft.linkNext container path next).node? = Nodes.frame draft.node? := by
  cases next with
  | none => rfl
  | some target => exact frame_link draft container target path

/-- Relinking a place writes there and leaves all other data. -/
theorem frame_apply_relink (draft : Draft) (container : NodeId) (path : Path)
    (next : Option NodeId) :
    Nodes.frame (draft.apply (.relink container path next)).node? =
      Nodes.frame (Nodes.write draft.node? container path (.referring next)) := by
  rw [apply_relink, frame_linkNext, frame_unlinkPrevious, nodes_set_write]
  rfl

theorem nodup_unlink (h : Nodes.Nodup draft.node?) (container target : NodeId)
    (path : Path) : Nodes.Nodup (draft.unlink container path target).node? := by
  rw [nodes_unlink, nodes_dropInbound]
  unfold withoutOutbound
  rw [nodes_update]
  exact (h.removeLink _ _ _).cut _

theorem nodup_link (h : Nodes.Nodup draft.node?) (container target : NodeId)
    (path : Path) : Nodes.Nodup (draft.link container path target).node? := by
  unfold link
  rw [nodes_update, nodes_update]
  exact (h.addLink _ _ _).addLink _ _ _

end Draft

namespace Nodes.Upheld

open Draft

variable {draft : Draft} {container target id : NodeId} {path : Path} {next : Option NodeId}
  {change : LinkChange} {changes : List LinkChange}

/-! ## Changes of links -/

theorem isEntity (h : Nodes.Upheld draft.node?)
    (linked : ⟨target, path⟩ ∈ Nodes.links draft.node? .outbound container) :
    (draft.node? target).any Node.isEntity = true ↔ Whole target := by
  obtain ⟨node, found⟩ := Option.isSome_iff_exists.mp (h.has_target linked)
  rw [found, Option.any_some]
  have kind : (Nodes.frame draft.node? target).1 = node.kind := by rw [frame_of_some found]
  by_cases whole : Whole target
  · rw [h.entity target whole] at kind
    simp [Node.isEntity, whole, ← kind]
  · rw [h.value _ _ _ linked whole] at kind
    simp [Node.isEntity, whole, ← kind]

/-- The entity that is linked at a place is the only one. -/
theorem linkedEntity?_iff (h : Nodes.Upheld draft.node?) :
    draft.linkedEntity? container path = some target ↔
      ⟨target, path⟩ ∈ Nodes.links draft.node? .outbound container ∧ Whole target := by
  constructor
  · intro linked
    obtain ⟨member, entity⟩ := mem_of_linkedEntity? linked
    exact ⟨member, (h.isEntity member).mp entity⟩
  · rintro ⟨member, whole⟩
    obtain ⟨node, found⟩ := Option.isSome_iff_exists.mp (has_of_mem member)
    have entity := (h.isEntity member).mpr whole
    cases linked : draft.linkedEntity? container path with
    | some other =>
      obtain ⟨member', entity'⟩ := mem_of_linkedEntity? linked
      rw [h.single _ _ _ _ whole ((h.isEntity member').mp entity') member member']
    | none =>
      unfold linkedEntity? at linked
      rw [found] at linked
      change (List.find? _ node.outbound).bind _ = none at linked
      rw [links_of_some found] at member
      cases held : node.outbound.find? (fun link => link.path = path &&
        (draft.node? link.node).any Node.isEntity) with
      | some link =>
        rw [held] at linked
        cases linked
      | none =>
        refine absurd ?_ (List.find?_eq_none.mp held _ member)
        rw [Bool.and_eq_true, decide_eq_true_eq]
        exact ⟨rfl, entity⟩

theorem unlink (h : Nodes.Upheld draft.node?) (container target : NodeId) (path : Path) :
    Nodes.Upheld (draft.unlink container path target).node? := by
  have links (way : Direction) (other : NodeId) (found : Link) :=
    mem_links_unlink draft container target other path way found
  refine h.relinked (frame_unlink draft container target path)
    (nodup_unlink h.nodup container target path) ?_ ?_ ?_
  · intro other end' place member
    obtain ⟨old, outbound, -⟩ := (links _ _ _).mp member
    refine (links _ _ _).mpr ⟨h.answered _ _ _ old, by simp, ?_⟩
    rintro ⟨rfl, -, e⟩
    cases e
    exact outbound ⟨rfl, rfl, rfl⟩
  · exact h.single.of_subset fun _ _ _ _ member => ((links _ _ _).mp member).1
  · exact fun _ _ _ member => Or.inl ((links _ _ _).mp member).1

theorem unlinkPrevious (h : Nodes.Upheld draft.node?) (container : NodeId) (path : Path)
    (previous : Option NodeId) :
    Nodes.Upheld (draft.unlinkPrevious container path previous).node? := by
  cases previous with
  | none => exact h
  | some target => exact h.unlink container target path

/-- An entity is linked from a place that links none. -/
theorem linkNext (h : Nodes.Upheld draft.node?)
    (whole : ∀ target, next = some target → Whole target)
    (free : ∀ target, Whole target →
      ⟨target, path⟩ ∉ Nodes.links draft.node? .outbound container) :
    Nodes.Upheld (draft.linkNext container path next).node? := by
  cases next with
  | none => exact h
  | some target =>
    have links (way : Direction) (other : NodeId) (found : Link) :=
      mem_links_link draft container target other path way found
    rw [nodes_linkNext]
    refine h.relinked (frame_link draft container target path)
      (nodup_link h.nodup container target path) ?_ ?_ ?_
    · intro other end' place member
      refine (links _ _ _).mpr ?_
      rcases (links _ _ _).mp member with old | ⟨rfl, -, e⟩ | ⟨-, e, -⟩
      · exact Or.inl (h.answered _ _ _ old)
      · cases e
        exact Or.inr (Or.inr ⟨rfl, rfl, rfl⟩)
      · cases e
    · intro other place one two wholeOne wholeTwo member member'
      rcases (links _ _ _).mp member with old | ⟨rfl, -, e⟩ | ⟨-, e, -⟩
      · rcases (links _ _ _).mp member' with old' | ⟨rfl, -, e⟩ | ⟨-, e, -⟩
        · exact h.single _ _ _ _ wholeOne wholeTwo old old'
        · cases e
          exact absurd old (free one wholeOne)
        · cases e
      · cases e
        rcases (links _ _ _).mp member' with old' | ⟨-, -, e⟩ | ⟨-, e, -⟩
        · exact absurd old' (free two wholeTwo)
        · cases e
          rfl
        · cases e
      · cases e
    · intro other end' place member
      rcases (links _ _ _).mp member with old | ⟨-, -, e⟩ | ⟨-, e, -⟩
      · exact Or.inl old
      · cases e
        exact Or.inr (whole _ rfl)
      · cases e

/-- Where a place is relinked, the previous entity no longer is. -/
theorem not_mem_unlinkPrevious (h : Nodes.Upheld draft.node?) (value : Value)
    (whole : Whole target) :
    ⟨target, path⟩ ∉ Nodes.links ((draft.set container path value).unlinkPrevious container path
      (draft.linkedEntity? container path)).node? .outbound container := by
  intro member
  rw [mem_outbound_unlinkPrevious, links_set] at member
  exact member.2 ⟨rfl, target, h.linkedEntity?_iff.mpr ⟨member.1, whole⟩, rfl⟩

end Nodes.Upheld

/-- The change refers to an entity or to nothing, and does not replace the data of an entity as a
whole. -/
def LinkChange.Seemly : LinkChange → Prop
  | .detach _ _ _ => True
  | .relink container path next => (∀ target, next = some target → Whole target) ∧
      (Whole container → ∃ name rest, path = .key name :: rest)

namespace Nodes.Upheld

open Draft

variable {draft : Draft} {change : LinkChange} {changes : List LinkChange}

theorem apply (h : Nodes.Upheld draft.node?) (seemly : change.Seemly) :
    Nodes.Upheld (draft.apply change).node? := by
  cases change with
  | detach container path target => exact h.unlink container target path
  | relink container path next =>
    rw [apply_relink]
    have written : Nodes.Upheld (draft.set container path (.referring next)).node? := by
      rw [nodes_set_write]
      exact h.write seemly.2
    exact (written.unlinkPrevious container path _).linkNext seemly.1 fun _ whole =>
      h.not_mem_unlinkPrevious _ whole

theorem applyAll (h : Nodes.Upheld draft.node?) (seemly : ∀ change ∈ changes, change.Seemly) :
    Nodes.Upheld (draft.applyAll changes).node? := by
  induction changes generalizing draft with
  | nil => exact h
  | cons change changes ih =>
    exact ih (h.apply (seemly change List.mem_cons_self))
      fun other member => seemly other (List.mem_cons_of_mem _ member)

theorem collectOrphans (h : Nodes.Upheld draft.node?) :
    Nodes.Upheld draft.collectOrphans.node? :=
  collectOrphans_induct (motive := fun nodes _ => Nodes.Upheld nodes)
    (fun _ _ _ _ kept => kept) (fun _ _ _ _ orphan _ kept => kept.collected orphan) draft h

end Nodes.Upheld
end ResponseGraph
