import ResponseGraph.Graph

/-!
Drafts.

A draft is a graph under construction: a base graph, and the nodes made or changed
since.  The base stays as it is.  A node is copied into the draft before it is
changed, so the nodes of the draft are exactly those that a commit replaces.

A draft also keeps two sets of ids: the nodes whose data was written or that were
removed, and the nodes that lost their last inbound link and may have to go.
-/

namespace ResponseGraph

structure Draft where
  base : Graph
  /-- The nodes that replace those of the base; nothing stands for a removed
  node. -/
  changes : Table (Option Node)
  edited : NameSet
  orphans : NameSet

namespace Draft

def ofGraph (base : Graph) : Draft := ⟨base, Table.empty, Table.empty, Table.empty⟩

/-- The current version of a node. -/
def node? (draft : Draft) (id : NodeId) : Option Node :=
  match draft.changes.get? id with
  | some change => change
  | none => draft.base.node? id

def get? (draft : Draft) (id : NodeId) (path : Path) : Option Value :=
  (draft.node? id).bind fun node => node.get? path

def put (draft : Draft) (id : NodeId) (node : Node) : Draft :=
  { draft with changes := draft.changes.insert id (some node) }

def remove (draft : Draft) (id : NodeId) : Draft :=
  { draft with changes := draft.changes.insert id none, edited := draft.edited.add id }

/-- Changes a node in the draft.  A node that does not exist is an entity without
links and data. -/
def update (draft : Draft) (id : NodeId) (f : Node → Node) : Draft :=
  draft.put id (f ((draft.node? id).getD (.bare .entity)))

/-- Copies a node into the draft. -/
def own (draft : Draft) (id : NodeId) : Draft := draft.update id fun node => node

/-- Writes into the data of a node, which counts as edited from then on. -/
def set (draft : Draft) (id : NodeId) (path : Path) (value : Value) : Draft :=
  { draft with edited := draft.edited.add id }.update id fun node => node.set path value

/-- A graph after the changes in a list. -/
def applyChanges (graph : Graph) : List (NodeId × Option Node) → Graph
  | [] => graph
  | (id, none) :: rest => applyChanges (graph.erase id) rest
  | (id, some node) :: rest => applyChanges (graph.insert id node) rest

/-- All current nodes. -/
def graph (draft : Draft) : Graph := applyChanges draft.base draft.changes.toList

/-! ## Look-up

Every operation is described by what it does to `node?`. -/

theorem node?_ofGraph (base : Graph) (id : NodeId) :
    (ofGraph base).node? id = base.node? id := rfl

theorem node?_put (draft : Draft) (id other : NodeId) (node : Node) :
    (draft.put id node).node? other = if id = other then some node else draft.node? other := by
  unfold node? put
  rw [Table.get?_insert]
  by_cases h : id = other <;> simp [h]

theorem node?_remove (draft : Draft) (id other : NodeId) :
    (draft.remove id).node? other = if id = other then none else draft.node? other := by
  unfold node? remove
  rw [Table.get?_insert]
  by_cases h : id = other <;> simp [h]

theorem node?_update (draft : Draft) (id other : NodeId) (f : Node → Node) :
    (draft.update id f).node? other =
      if id = other then some (f ((draft.node? id).getD (.bare .entity)))
      else draft.node? other :=
  node?_put draft id other _

theorem node?_set (draft : Draft) (id other : NodeId) (path : Path) (value : Value) :
    (draft.set id path value).node? other =
      if id = other then some (((draft.node? id).getD (.bare .entity)).set path value)
      else draft.node? other :=
  node?_update _ id other _

theorem node?_applyChanges (graph : Graph) (changes : List (NodeId × Option Node))
    (h : Entries.Increasing changes) (id : NodeId) :
    (applyChanges graph changes).node? id =
      (Entries.get? id changes).getD (graph.node? id) := by
  induction changes generalizing graph with
  | nil => rfl
  | cons head rest ih =>
    obtain ⟨key, change⟩ := head
    obtain ⟨above, tail⟩ := List.pairwise_cons.mp h
    have step : (applyChanges graph ((key, change) :: rest)).node? id =
        (Entries.get? id rest).getD (if key = id then change else graph.node? id) := by
      cases change
      · rw [applyChanges, ih _ tail, Graph.node?_erase]
      · rw [applyChanges, ih _ tail, Graph.node?_insert]
    rw [step, Entries.get?_cons]
    by_cases he : key = id
    · subst he
      rw [Entries.get?_eq_none_of_forall_lt above, if_pos rfl, if_pos rfl]
      rfl
    · rw [if_neg he, if_neg he]

/-- The graph of a draft holds its current nodes. -/
theorem node?_graph (draft : Draft) (id : NodeId) : draft.graph.node? id = draft.node? id := by
  have h := node?_applyChanges draft.base draft.changes.toList draft.changes.increasing id
  unfold graph node?
  rw [h]
  change (draft.changes.get? id).getD _ = _
  cases draft.changes.get? id <;> rfl

end Draft
end ResponseGraph
