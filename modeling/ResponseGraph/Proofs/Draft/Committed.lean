import ResponseGraph.Proofs.Draft.Collected

/-!
Committed graphs.

Copying nodes into a draft changes none of them, and a transformer changes nothing but
data.  So a commit takes sound nodes to a sound graph, and a sound graph is verified.
-/

namespace ResponseGraph

open Nodes

/-! ## Copying -/

namespace Draft

theorem nodes_own {draft : Draft} {id : NodeId} (has : Nodes.Has draft.node? id) :
    (draft.own id).node? = draft.node? := by
  funext other
  obtain ⟨node, found⟩ := Option.isSome_iff_exists.mp has
  unfold own
  rw [node?_update]
  split
  · next e => rw [← e, found, Option.getD_some]
  · rfl

theorem nodes_ownAll (draft : Draft) (seen : NameSet) (stack ids : List NodeId) :
    (draft.ownAll seen stack ids).1.node? = draft.node? := by
  induction ids generalizing draft seen stack with
  | nil => rfl
  | cons id rest ih =>
    rw [ownAll]
    split
    · exact ih _ _ _
    · split
      · exact ih _ _ _
      · next present =>
        rw [ih, nodes_own]
        rw [Nodes.Has, ← Option.not_isNone, Bool.not_eq_true']
        exact Bool.eq_false_iff.mpr present

theorem ownAncestorsFrom_nil (bound : Nat) (draft : Draft) (seen : NameSet) :
    ownAncestorsFrom bound draft seen [] = draft := by
  cases bound <;> rfl

theorem nodes_ownAncestorsFrom (bound : Nat) (draft : Draft) (seen : NameSet)
    (stack : List NodeId) : (ownAncestorsFrom bound draft seen stack).node? = draft.node? := by
  induction bound generalizing draft seen stack with
  | zero => rfl
  | succ bound ih =>
    cases stack with
    | nil => rfl
    | cons id stack =>
      rw [ownAncestorsFrom]
      split
      · exact ih _ _ _
      · dsimp only
        rw [ih, nodes_ownAll]

/-- Copying changes no node. -/
theorem nodes_ownAncestors (draft : Draft) : draft.ownAncestors.node? = draft.node? :=
  nodes_ownAncestorsFrom _ _ _ _

/-- The draft that a commit makes into a graph. -/
def transforming (transform : Option (Value → Value)) (draft : Draft) : Draft :=
  { draft with changes := draft.changes.map fun id change =>
      change.map (transformed transform draft.edited id) }

theorem get?_changes_transforming (transform : Option (Value → Value)) (draft : Draft)
    (id : NodeId) : (draft.transforming transform).changes.get? id =
      (draft.changes.get? id).map fun change =>
        change.map (transformed transform draft.edited id) :=
  Entries.get?_map (fun id change => Option.map (transformed transform draft.edited id) change) _ _

theorem node?_transforming (transform : Option (Value → Value)) (draft : Draft) (id : NodeId) :
    (draft.transforming transform).node? id =
      match draft.changes.get? id with
      | some change => change.map (transformed transform draft.edited id)
      | none => draft.base.node? id := by
  unfold node?
  rw [get?_changes_transforming]
  cases draft.changes.get? id <;> rfl

theorem nodes_transforming_none (draft : Draft) :
    (draft.transforming none).node? = draft.node? := by
  funext id
  rw [node?_transforming]
  unfold node?
  cases draft.changes.get? id with
  | none => rfl
  | some change => cases change <;> rfl

/-- What a commit results in unless it fails. -/
def committed (transform : Option (Value → Value)) (draft : Draft) : Commit :=
  let draft := draft.ownAncestors.transforming transform
  let copied := (draft.changes.toList.filter fun (_, change) => change.isSome).map Prod.fst
  ⟨draft.graph, draft.edited, NameSet.ofList copied⟩

theorem eq_committed {transform : Option (Value → Value)} {frozen : Bool} {draft : Draft}
    {commit : Commit} (h : draft.commit transform frozen = .ok commit) :
    commit = draft.committed transform := by
  unfold Draft.commit at h
  cases frozen with
  | false =>
    cases h
    rfl
  | true =>
    dsimp only at h
    rw [if_pos rfl] at h
    cases verified : (draft.ownAncestors.transforming transform).graph.verify with
    | error e =>
      unfold transforming at verified
      rw [verified] at h
      cases h
    | ok _ =>
      unfold transforming at verified
      rw [verified] at h
      cases h
      rfl

/-- The nodes that are not those of the base are those in the draft. -/
theorem contains_copied {transform : Option (Value → Value)} {draft : Draft} {id : NodeId} :
    (draft.committed transform).copied.contains id ↔
      ∃ node, draft.ownAncestors.changes.get? id = some (some node) := by
  unfold committed
  dsimp only
  rw [NameSet.contains_ofList, List.mem_map]
  constructor
  · rintro ⟨⟨name, change⟩, member, rfl⟩
    obtain ⟨member, some⟩ := List.mem_filter.mp member
    have found :
        (draft.ownAncestors.transforming transform).changes.get? name = Option.some change :=
      Entries.get?_of_mem (Table.increasing _).nodup member
    rw [get?_changes_transforming, Option.map_eq_some_iff] at found
    obtain ⟨kept, present, rfl⟩ := found
    rw [Option.isSome_map] at some
    obtain ⟨node, rfl⟩ := Option.isSome_iff_exists.mp some
    exact ⟨node, present⟩
  · rintro ⟨node, present⟩
    have found := get?_changes_transforming transform draft.ownAncestors id
    rw [present] at found
    exact ⟨(id, _), List.mem_filter.mpr ⟨Entries.mem_of_get? found, rfl⟩, rfl⟩

/-- The graph of a successful commit. -/
theorem graph_commit {transform : Option (Value → Value)} {frozen : Bool} {draft : Draft}
    {commit : Commit} (h : draft.commit transform frozen = .ok commit) :
    commit.graph = (draft.ownAncestors.transforming transform).graph :=
  congrArg Commit.graph (eq_committed h)

/-- A commit fails only if it verifies the graph. -/
theorem commit_eq_ok (transform : Option (Value → Value)) (frozen : Bool) (draft : Draft)
    (h : (draft.ownAncestors.transforming transform).graph.verify = .ok ()) :
    ∃ commit, draft.commit transform frozen = .ok commit := by
  unfold Draft.commit
  cases frozen with
  | false => exact ⟨_, rfl⟩
  | true =>
    dsimp only
    rw [if_pos rfl]
    unfold transforming at h
    rw [h]
    exact ⟨_, rfl⟩

/-- Without a transformer a graph has the nodes of the draft. -/
theorem nodes_commit_none {frozen : Bool} {draft : Draft} {commit : Commit}
    (h : draft.commit none frozen = .ok commit) : commit.graph.node? = draft.node? := by
  rw [graph_commit h, nodes_graph, nodes_transforming_none, nodes_ownAncestors]

end Draft

/-! ## Sound graphs -/

namespace Nodes

/-- The nodes without their data. -/
def shapes (nodes : Nodes) : Nodes := fun id =>
  (nodes id).map fun node => { node with data := none }

variable {nodes others : Nodes} {pending : NodeId → Prop}

theorem links_shapes (nodes : Nodes) (direction : Direction) (id : NodeId) :
    nodes.shapes.links direction id = nodes.links direction id := by
  unfold links shapes
  cases nodes id <;> cases direction <;> rfl

theorem has_shapes {id : NodeId} : nodes.shapes.Has id ↔ nodes.Has id := by
  unfold Has shapes
  rw [Option.isSome_map]

theorem shapes_eq_some {id : NodeId} {shape : Node} :
    nodes.shapes id = some shape ↔
      ∃ node, nodes id = some node ∧ { node with data := none } = shape := Option.map_eq_some_iff

/-- Data has no part in being sound. -/
theorem Sound.of_shapes (h : Sound pending others) (same : nodes.shapes = others.shapes) :
    Sound pending nodes := by
  have links : ∀ way id, nodes.links way id = others.links way id := by
    intro way id
    rw [← links_shapes, same, links_shapes]
  have node : ∀ id node, nodes id = some node →
      ∃ other, others id = some other ∧ other.kind = node.kind := by
    intro id node found
    have shape := shapes_eq_some.mpr ⟨node, found, rfl⟩
    rw [same, shapes_eq_some] at shape
    obtain ⟨other, present, equal⟩ := shape
    exact ⟨other, present, by injection equal⟩
  refine ⟨⟨?_, ?_⟩, ?_, ?_, ?_⟩
  · intro direction id
    rw [links]
    exact h.distinct direction id
  · intro id found lookup
    obtain ⟨other, present, kind⟩ := node id found lookup
    rw [← kind]
    exact h.kind id other present
  · intro container target path
    rw [links, links]
    exact h.mirrored container target path
  · intro container target path
    rw [links]
    exact h.addressed container target path
  · intro id has name
    obtain ⟨found, lookup⟩ := Option.isSome_iff_exists.mp has
    obtain ⟨other, present, -⟩ := node id found lookup
    rw [links]
    exact h.anchored id (has_of_some present) name

end Nodes

theorem Draft.shapes_transforming (transform : Option (Value → Value)) (draft : Draft) :
    Nodes.shapes (draft.transforming transform).node? = Nodes.shapes draft.node? := by
  funext id
  unfold Nodes.shapes
  rw [node?_transforming]
  unfold node?
  cases draft.changes.get? id with
  | none => rfl
  | some change =>
    cases change with
    | none => rfl
    | some node =>
      simp only [Option.map_some, Option.some.injEq]
      unfold transformed
      split
      · split <;> rfl
      · rfl

namespace Graph

/-- The nodes of a graph are sound, and none is pending. -/
def Sound (graph : Graph) : Prop := Nodes.Sound (fun _ => False) graph.node?

theorem sound_empty : Sound empty := by
  have links : ∀ way id, Nodes.links empty.node? way id = [] := fun _ _ => rfl
  constructor
  · constructor
    · intro direction id
      rw [links]
      exact List.nodup_nil
    · intro id node found
      cases found
  · intro container target path
    rw [links, links]
    exact iff_of_false List.not_mem_nil List.not_mem_nil
  · intro container target path member
    cases member
  · intro id has
    cases has

variable {graph : Graph}

theorem node?_of_mem {id : NodeId} {node : Node} (h : (id, node) ∈ graph.toList) :
    graph.node? id = some node := Entries.get?_of_mem graph.increasing.nodup h

theorem verifyOutbound_eq_ok {id : NodeId} {link : Link} :
    graph.verifyOutbound id link = .ok () ↔
      ⟨id, link.path⟩ ∈ Nodes.links graph.node? .inbound link.node := by
  unfold verifyOutbound
  cases found : graph.node? link.node with
  | none => simp [links_of_none found]
  | some target => simp [links_of_some found, Node.hasLink_iff]

theorem verifyInbound_eq_ok {id : NodeId} {link : Link} :
    graph.verifyInbound id link = .ok () ↔
      ⟨id, link.path⟩ ∈ Nodes.links graph.node? .outbound link.node := by
  unfold verifyInbound
  cases found : graph.node? link.node with
  | none => simp [links_of_none found]
  | some source => simp [links_of_some found, Node.hasLink_iff]

/-- To verify a graph is to check that the two ends of every reference agree. -/
theorem verify_eq_ok : graph.verify = .ok () ↔ Nodes.Mirrored graph.node? := by
  constructor
  · intro verified
    have checked {id : NodeId} {node : Node} (found : graph.node? id = some node) :
        graph.verifyNode id node = .ok () :=
      of_forM_eq_ok verified (id, node) (Entries.mem_of_get? found)
    intro container target path
    constructor
    · intro member
      obtain ⟨node, found⟩ := Option.isSome_iff_exists.mp (has_of_mem member)
      obtain ⟨_, outbound, -⟩ := exists_of_bind_eq_ok (checked found)
      rw [links_of_some found] at member
      exact verifyOutbound_eq_ok.mp (of_forM_eq_ok outbound ⟨target, path⟩ member)
    · intro member
      obtain ⟨node, found⟩ := Option.isSome_iff_exists.mp (has_of_mem member)
      obtain ⟨_, -, inbound⟩ := exists_of_bind_eq_ok (checked found)
      rw [links_of_some found] at member
      exact verifyInbound_eq_ok.mp (of_forM_eq_ok inbound ⟨container, path⟩ member)
  · intro mirrored
    refine forM_eq_ok fun (id, node) member => ?_
    have links := links_of_some (node?_of_mem member)
    have outbound : node.outbound.forM (graph.verifyOutbound id) = .ok () :=
      forM_eq_ok fun link inside => verifyOutbound_eq_ok.mpr
        ((mirrored id link.node link.path).mp (by rw [links]; exact inside))
    have inbound : node.inbound.forM (graph.verifyInbound id) = .ok () :=
      forM_eq_ok fun link inside => verifyInbound_eq_ok.mpr
        ((mirrored link.node id link.path).mpr (by rw [links]; exact inside))
    show graph.verifyNode id node = .ok ()
    unfold verifyNode
    rw [outbound]
    exact inbound

/-- The two ends of every reference of a sound graph agree. -/
theorem Sound.verify (h : graph.Sound) : graph.verify = .ok () := verify_eq_ok.mpr h.mirrored

theorem Sound.nodup (h : graph.Sound) {id : NodeId} {node : Node}
    (found : graph.node? id = some node) :
    node.inbound.Nodup ∧ node.outbound.Nodup := by
  have inbound := h.distinct .inbound id
  have outbound := h.distinct .outbound id
  rw [links_of_some found] at inbound outbound
  exact ⟨inbound, outbound⟩

end Graph

namespace Draft

variable {draft : Draft}

theorem sound_transforming (h : Nodes.Sound (fun _ => False) draft.node?)
    (transform : Option (Value → Value)) :
    (draft.ownAncestors.transforming transform).graph.Sound := by
  unfold Graph.Sound
  rw [nodes_graph]
  refine Nodes.Sound.of_shapes ?_ (shapes_transforming transform draft.ownAncestors)
  rw [nodes_ownAncestors]
  exact h

/-- A commit of sound nodes makes a sound graph. -/
theorem sound_commit (h : Nodes.Sound (fun _ => False) draft.node?)
    {transform : Option (Value → Value)} {frozen : Bool} {commit : Commit}
    (committed : draft.commit transform frozen = .ok commit) : commit.graph.Sound := by
  rw [graph_commit committed]
  exact sound_transforming h transform

/-- No commit of sound nodes fails. -/
theorem exists_commit (h : Nodes.Sound (fun _ => False) draft.node?)
    (transform : Option (Value → Value)) (frozen : Bool) :
    ∃ commit, draft.commit transform frozen = .ok commit :=
  commit_eq_ok transform frozen draft (sound_transforming h transform).verify

end Draft
end ResponseGraph
