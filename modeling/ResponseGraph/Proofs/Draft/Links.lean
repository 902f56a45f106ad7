import ResponseGraph.Draft.Commit

/-!
Links of current nodes.

What matters about a graph or a draft is which node an id has now, a function from ids
to nodes.  `Nodes.links` lists the links of an id, none if it has no node.  The lemmas
below say what each operation of a draft does to the links and to which ids have a
node.
-/

namespace ResponseGraph

/-- Which node an id has. -/
abbrev Nodes := NodeId → Option Node

namespace Nodes

def links (nodes : Nodes) (direction : Direction) (id : NodeId) : List Link :=
  (nodes id).elim [] fun node => node.links direction

def Has (nodes : Nodes) (id : NodeId) : Prop := (nodes id).isSome

/-- One node replaced. -/
def put (nodes : Nodes) (id : NodeId) (node : Node) : Nodes := fun other =>
  if id = other then some node else nodes other

/-- The node of an id, or the one that is made for an id without one. -/
def current (nodes : Nodes) (id : NodeId) : Node := (nodes id).getD (.bare .entity)

theorem links_of_some {nodes : Nodes} {id : NodeId} {node : Node} (h : nodes id = some node)
    (direction : Direction) : nodes.links direction id = node.links direction := by
  rw [links, h, Option.elim_some]

theorem links_of_none {nodes : Nodes} {id : NodeId} (h : nodes id = none)
    (direction : Direction) : nodes.links direction id = [] := by
  rw [links, h, Option.elim_none]

/-- A node that is made has no links. -/
theorem links_current (nodes : Nodes) (direction : Direction) (id : NodeId) :
    (nodes.current id).links direction = nodes.links direction id := by
  unfold current links
  cases nodes id
  · cases direction <;> rfl
  · rfl

theorem current_of_some {nodes : Nodes} {id : NodeId} {node : Node} (h : nodes id = some node) :
    nodes.current id = node := by
  rw [current, h, Option.getD_some]

theorem has_of_some {nodes : Nodes} {id : NodeId} {node : Node} (h : nodes id = some node) :
    nodes.Has id := by
  rw [Has, h, Option.isSome_some]

theorem has_of_not_isNone {nodes : Nodes} {id : NodeId} (h : ¬ (nodes id).isNone) :
    nodes.Has id :=
  Option.isSome_iff_ne_none.mpr fun missing => h (Option.isNone_iff_eq_none.mpr missing)

theorem has_of_mem {nodes : Nodes} {direction : Direction} {id : NodeId} {link : Link}
    (h : link ∈ nodes.links direction id) : nodes.Has id := by
  cases found : nodes id with
  | none =>
    rw [links_of_none found] at h
    cases h
  | some node => exact has_of_some found

theorem has_put {nodes : Nodes} {id other : NodeId} {node : Node} :
    (nodes.put id node).Has other ↔ id = other ∨ nodes.Has other := by
  unfold Has put
  by_cases h : id = other <;> simp [h]

theorem links_put (nodes : Nodes) (id other : NodeId) (node : Node) (direction : Direction) :
    (nodes.put id node).links direction other =
      if id = other then node.links direction else nodes.links direction other := by
  unfold links put
  by_cases h : id = other <;> simp [h]

/-- Nodes that are replaced by nodes with the same links leave all links as they are. -/
theorem links_put_of_same {nodes : Nodes} {id : NodeId} {node : Node}
    (h : ∀ direction, node.links direction = nodes.links direction id) (direction : Direction)
    (other : NodeId) : (nodes.put id node).links direction other = nodes.links direction other := by
  rw [links_put]
  split
  · next e => rw [h, e]
  · rfl

theorem mem_links_put_addLink (nodes : Nodes) (id other : NodeId) (direction way : Direction)
    (link found : Link) :
    found ∈ (nodes.put id ((nodes.current id).addLink direction link)).links way other ↔
      found ∈ nodes.links way other ∨ (id = other ∧ direction = way ∧ found = link) := by
  rw [links_put]
  by_cases h : id = other
  · subst h
    rw [if_pos rfl, Node.mem_links_addLink, links_current]
    simp
  · simp [h]

theorem mem_links_put_removeLink (nodes : Nodes) (id other : NodeId) (direction way : Direction)
    (link found : Link) :
    found ∈ (nodes.put id ((nodes.current id).removeLink direction link)).links way other ↔
      found ∈ nodes.links way other ∧ ¬(id = other ∧ direction = way ∧ found = link) := by
  rw [links_put]
  by_cases h : id = other
  · subst h
    rw [if_pos rfl, Node.mem_links_removeLink, links_current]
    simp
  · simp [h]

/-- A node is made and linked from a place of a container. -/
def sprout (nodes : Nodes) (container : NodeId) (path : Path) (id : NodeId) (node : Node) : Nodes :=
  let nodes := nodes.put id node
  nodes.put container ((nodes.current container).addLink .outbound ⟨id, path⟩)

theorem has_sprout {nodes : Nodes} {container id other : NodeId} {path : Path} {node : Node} :
    (nodes.sprout container path id node).Has other ↔
      container = other ∨ id = other ∨ nodes.Has other := by
  unfold sprout
  rw [has_put, has_put]

end Nodes

namespace Node

theorem nodup_addLink {node : Node} (h : ∀ way, (node.links way).Nodup) (direction : Direction)
    (link : Link) (way : Direction) : ((node.addLink direction link).links way).Nodup := by
  unfold addLink
  split
  · exact h way
  · next fresh =>
    rw [hasLink_iff] at fresh
    rw [links_setLinks]
    split
    · refine List.nodup_append.mpr ⟨h direction, by simp, ?_⟩
      intro a ha b hb e
      subst e
      rw [List.mem_singleton] at hb
      exact fresh (hb ▸ ha)
    · exact h way

theorem nodup_removeLink {node : Node} (h : ∀ way, (node.links way).Nodup) (direction : Direction)
    (link : Link) (way : Direction) : ((node.removeLink direction link).links way).Nodup := by
  unfold removeLink
  rw [links_setLinks]
  split
  · exact (h direction).filter _
  · exact h way

@[simp] theorem kind_setLinks (node : Node) (links : List Link) (direction : Direction) :
    (node.setLinks links direction).kind = node.kind := by
  cases direction <;> rfl

@[simp] theorem kind_addLink (node : Node) (direction : Direction) (link : Link) :
    (node.addLink direction link).kind = node.kind := by
  unfold addLink
  split
  · rfl
  · exact kind_setLinks _ _ _

@[simp] theorem kind_removeLink (node : Node) (direction : Direction) (link : Link) :
    (node.removeLink direction link).kind = node.kind := kind_setLinks _ _ _

@[simp] theorem data_setLinks (node : Node) (links : List Link) (direction : Direction) :
    (node.setLinks links direction).data = node.data := by
  cases direction <;> rfl

@[simp] theorem data_addLink (node : Node) (direction : Direction) (link : Link) :
    (node.addLink direction link).data = node.data := by
  unfold addLink
  split
  · rfl
  · exact data_setLinks _ _ _

@[simp] theorem data_removeLink (node : Node) (direction : Direction) (link : Link) :
    (node.removeLink direction link).data = node.data := data_setLinks _ _ _

end Node

/-- A graph is its nodes. -/
theorem Graph.eq_of_nodes {graph graph' : Graph} (same : graph.node? = graph'.node?) :
    graph = graph' := Table.ext (congrFun same)

namespace Draft

open Nodes

theorem nodes_put (draft : Draft) (id : NodeId) (node : Node) :
    (draft.put id node).node? = Nodes.put draft.node? id node :=
  funext fun other => node?_put draft id other node

theorem nodes_update (draft : Draft) (id : NodeId) (f : Node → Node) :
    (draft.update id f).node? = Nodes.put draft.node? id (f (Nodes.current draft.node? id)) :=
  funext fun other => node?_update draft id other f

theorem nodes_set (draft : Draft) (id : NodeId) (path : Path) (value : Value) :
    (draft.set id path value).node? =
      Nodes.put draft.node? id ((Nodes.current draft.node? id).set path value) :=
  funext fun other => node?_set draft id other path value

theorem nodes_graph (draft : Draft) : draft.graph.node? = draft.node? :=
  funext (node?_graph draft)

theorem graph_congr {draft draft' : Draft} (same : draft.node? = draft'.node?) :
    draft.graph = draft'.graph :=
  Graph.eq_of_nodes (by rw [nodes_graph, nodes_graph, same])

theorem links_set (draft : Draft) (id : NodeId) (path : Path) (value : Value)
    (direction : Direction) (other : NodeId) :
    Nodes.links (draft.set id path value).node? direction other =
      Nodes.links draft.node? direction other := by
  rw [nodes_set]
  refine links_put_of_same (fun way => ?_) direction other
  rw [← links_current]
  cases way <;> rfl

/-- A relation that goes back over each removal holds of a draft and what is collected from it. -/
theorem collectFrom_rel {motive : Draft → Draft → Prop} (refl : ∀ draft, motive draft draft)
    (remove : ∀ {draft final : Draft} {id : NodeId} {node : Node} (stack : List NodeId),
      draft.node? id = some node →
      motive ((draft.remove id).release id stack node.outbound).1 final → motive draft final)
    (bound : Nat) (draft : Draft) (stack : List NodeId) :
    motive draft (draft.collectFrom bound stack) := by
  induction bound generalizing draft stack with
  | zero => exact refl draft
  | succ bound ih =>
    cases stack with
    | nil => exact refl draft
    | cons id stack =>
      rw [collectFrom]
      split
      · exact ih draft stack
      · next node found =>
        split
        · exact remove stack found (ih _ _)
        · exact ih draft stack

/-- Only the inbound link is dropped, and only from a node that exists. -/
theorem mem_links_dropInbound (draft : Draft) (container target other : NodeId) (path : Path)
    (way : Direction) (found : Link) :
    found ∈ Nodes.links (draft.dropInbound container path target).1.node? way other ↔
      found ∈ Nodes.links draft.node? way other ∧
        ¬(target = other ∧ .inbound = way ∧ found = ⟨container, path⟩) := by
  unfold dropInbound
  split
  · next missing =>
    refine ⟨fun h => ⟨h, ?_⟩, And.left⟩
    intro given
    obtain ⟨rfl, -, -⟩ := given
    rw [links_of_none missing] at h
    cases h
  · next node present =>
    rw [nodes_put, ← current_of_some present]
    exact mem_links_put_removeLink _ _ _ _ _ _ _

theorem has_dropInbound (draft : Draft) (container target other : NodeId) (path : Path) :
    Nodes.Has (draft.dropInbound container path target).1.node? other ↔
      Nodes.Has draft.node? other := by
  unfold dropInbound
  split
  · rfl
  · next node present =>
    rw [nodes_put, has_put]
    refine or_iff_right_of_imp ?_
    intro e
    subst e
    exact has_of_some present

/-- The target is reported when no inbound link is left. -/
theorem dropInbound_snd (draft : Draft) (container target : NodeId) (path : Path) :
    (draft.dropInbound container path target).2 = true ↔
      Nodes.Has draft.node? target ∧
        Nodes.links (draft.dropInbound container path target).1.node? .inbound target = [] := by
  unfold dropInbound
  split
  · next missing => simp [Nodes.Has, missing]
  · next node present =>
    rw [nodes_put, links_put, if_pos rfl]
    simp [Nodes.Has, present, Node.links]

end Draft
end ResponseGraph
