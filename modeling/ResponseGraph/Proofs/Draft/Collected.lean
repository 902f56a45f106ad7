import ResponseGraph.Proofs.Basic
import ResponseGraph.Proofs.Draft.Sound

/-!
Collection of nodes.

A step of a collection takes an id off a stack.  A node that has inbound links stays.
One that has none is removed, and with it go the other ends of its links
(`Nodes.collected`).  `Draft.collectFrom_induct` is the induction over such steps: the
bound of `collect` is large enough for the stack to run empty, so what every step
preserves holds in the end with an empty stack.
-/

namespace ResponseGraph

open NodeId (Whole)

namespace Nodes

variable {nodes : Nodes} {pending : NodeId → Prop}

/-- Nodes without some of their inbound links. -/
def cut (gone : NodeId → Link → Bool) (nodes : Nodes) : Nodes := fun other =>
  (nodes other).map fun node =>
    { node with inbound := node.inbound.filter fun link => !gone other link }

theorem cut_cut (gone more : NodeId → Link → Bool) (nodes : Nodes) :
    (nodes.cut gone).cut more = nodes.cut fun id link => gone id link || more id link := by
  funext other
  unfold cut
  cases nodes other with
  | none => rfl
  | some node => simp [Bool.and_comm]

/-- A node that loses no link stays as it is. -/
theorem cut_of_kept {gone : NodeId → Link → Bool} {id : NodeId}
    (h : ∀ link, gone id link = false) : nodes.cut gone id = nodes id := by
  unfold cut
  cases nodes id with
  | none => rfl
  | some node =>
    have all : (node.inbound.filter fun link => !gone id link) = node.inbound :=
      List.filter_eq_self.mpr fun link _ => by rw [h]; rfl
    rw [Option.map_some, all]

theorem has_cut {gone : NodeId → Link → Bool} {id : NodeId} :
    (nodes.cut gone).Has id ↔ nodes.Has id := by
  unfold Has cut
  rw [Option.isSome_map]

theorem outbound_cut (gone : NodeId → Link → Bool) (nodes : Nodes) (id : NodeId) :
    (nodes.cut gone).links .outbound id = nodes.links .outbound id := by
  unfold links cut
  cases nodes id <;> rfl

theorem inbound_cut (gone : NodeId → Link → Bool) (nodes : Nodes) (id : NodeId) :
    (nodes.cut gone).links .inbound id =
      (nodes.links .inbound id).filter fun link => !gone id link := by
  unfold links cut
  cases nodes id <;> rfl

theorem links_cut_sublist (gone : NodeId → Link → Bool) (nodes : Nodes) (direction : Direction)
    (id : NodeId) : ((nodes.cut gone).links direction id).Sublist (nodes.links direction id) := by
  cases direction with
  | inbound => exact (inbound_cut gone nodes id).symm ▸ List.filter_sublist
  | outbound => exact (outbound_cut gone nodes id).symm ▸ List.Sublist.refl _

/-- Nodes with one of them removed. -/
def drop (nodes : Nodes) (id : NodeId) : Nodes := fun other =>
  if id = other then none else nodes other

theorem links_drop (nodes : Nodes) (direction : Direction) (id other : NodeId) :
    (nodes.drop id).links direction other =
      if id = other then [] else nodes.links direction other := by
  unfold links drop
  split <;> rfl

/-- The link comes from a node whose outbound links are `links`. -/
def comesBack (id : NodeId) (links : List Link) (other : NodeId) (link : Link) : Bool :=
  link.node == id && links.contains ⟨other, link.path⟩

theorem comesBack_iff {id other : NodeId} {links : List Link} {link : Link} :
    comesBack id links other link = true ↔ link.node = id ∧ ⟨other, link.path⟩ ∈ links := by
  simp [comesBack]

/-- Nodes with one of them collected. -/
def collected (nodes : Nodes) (id : NodeId) : Nodes :=
  (nodes.drop id).cut (comesBack id (nodes.links .outbound id))

theorem collected_eq_none (nodes : Nodes) (id : NodeId) : nodes.collected id id = none := by
  simp [collected, cut, drop]

/-- Every other node keeps all but inbound links. -/
theorem collected_of_ne {id other : NodeId} (h : id ≠ other) :
    nodes.collected id other = (nodes other).map fun node =>
      { node with
        inbound := node.inbound.filter fun link =>
          !comesBack id (nodes.links .outbound id) other link } := by
  rw [collected, cut, drop, if_neg h]

theorem has_collected {id other : NodeId} :
    (nodes.collected id).Has other ↔ id ≠ other ∧ nodes.Has other := by
  unfold collected
  rw [has_cut]
  unfold Has drop
  by_cases h : id = other <;> simp [h]

theorem outbound_collected (nodes : Nodes) (id other : NodeId) :
    (nodes.collected id).links .outbound other =
      if id = other then [] else nodes.links .outbound other := by
  unfold collected
  rw [outbound_cut, links_drop]

theorem mem_inbound_collected {id other : NodeId} {link : Link} :
    link ∈ (nodes.collected id).links .inbound other ↔
      id ≠ other ∧ link ∈ nodes.links .inbound other ∧
        ¬(link.node = id ∧ ⟨other, link.path⟩ ∈ nodes.links .outbound id) := by
  unfold collected
  rw [inbound_cut, List.mem_filter, links_drop, Bool.not_eq_true', ← Bool.not_eq_true,
    comesBack_iff]
  by_cases h : id = other <;> simp [h]

/-- The last inbound link of a node came from the node that goes. -/
theorem exists_link_of_collected {id other : NodeId} (has : (nodes.collected id).Has other)
    (some : nodes.links .inbound other ≠ [])
    (none : (nodes.collected id).links .inbound other = []) :
    ∃ path, ⟨other, path⟩ ∈ nodes.links .outbound id := by
  obtain ⟨link, member⟩ := List.exists_mem_of_ne_nil _ some
  have gone : link ∉ (nodes.collected id).links .inbound other := by
    rw [none]
    exact List.not_mem_nil
  rw [mem_inbound_collected] at gone
  have back := Classical.not_not.mp fun stays => gone ⟨(has_collected.mp has).1, member, stays⟩
  exact ⟨link.path, back.2⟩

theorem Proper.collected (h : Proper nodes) (id : NodeId) : Proper (nodes.collected id) := by
  constructor
  · intro direction other
    have sublist := links_cut_sublist (comesBack id (nodes.links .outbound id)) (nodes.drop id)
      direction other
    refine sublist.nodup ?_
    rw [links_drop]
    split
    · exact List.nodup_nil
    · exact h.distinct direction other
  · intro other node found
    by_cases e : id = other
    · rw [← e, collected_eq_none] at found
      cases found
    · rw [collected_of_ne e, Option.map_eq_some_iff] at found
      obtain ⟨before, present, rfl⟩ := found
      exact h.kind other before present

/-- Without inbound links a node leaves no link without its other end. -/
theorem Mirrored.collected (h : Mirrored nodes) {id : NodeId}
    (orphan : nodes.links .inbound id = []) : Mirrored (nodes.collected id) := by
  intro container target path
  rw [mem_inbound_collected, outbound_collected]
  by_cases e : id = container
  · subst e
    rw [if_pos rfl, ← h]
    simp
  · rw [if_neg e, ← h]
    constructor
    · intro member
      refine ⟨?_, member, fun back => e back.1.symm⟩
      intro same
      subst same
      rw [h, orphan] at member
      cases member
    · exact fun member => member.2.1

/-- A node without inbound links can go, if those that it leaves without inbound links
are pending. -/
theorem Sound.collected {more : NodeId → Prop} (h : Sound pending nodes) {id : NodeId}
    (orphan : nodes.links .inbound id = [])
    (kept : ∀ other, id ≠ other → pending other → more other)
    (left : ∀ other path, ⟨other, path⟩ ∈ nodes.links .outbound id → nodes.Has other →
      (nodes.collected id).links .inbound other = [] → more other) :
    Sound more (nodes.collected id) := by
  refine ⟨h.toProper.collected id, Mirrored.collected h.mirrored orphan, ?_, ?_⟩
  · intro container target path member
    rw [outbound_collected] at member
    split at member
    · cases member
    · exact h.addressed container target path member
  · intro other has name
    obtain ⟨ne, before⟩ := has_collected.mp has
    by_cases none : (nodes.collected id).links .inbound other = []
    · refine Or.inl ?_
      rcases h.anchored other before name with waiting | some
      · exact kept other ne waiting
      · obtain ⟨path, linked⟩ := exists_link_of_collected has some none
        exact left other path linked before none
    · exact Or.inr none

end Nodes

open Nodes

namespace Draft

theorem nodes_remove (draft : Draft) (id : NodeId) :
    (draft.remove id).node? = Nodes.drop draft.node? id :=
  funext fun other => node?_remove draft id other

theorem nodes_dropInbound (draft : Draft) (container target : NodeId) (path : Path) :
    (draft.dropInbound container path target).1.node? =
      Nodes.cut (fun other link => decide (target = other ∧ link = ⟨container, path⟩))
        draft.node? := by
  funext other
  unfold dropInbound
  split
  · next missing =>
    by_cases e : target = other
    · unfold Nodes.cut
      rw [← e, missing]
      rfl
    · exact (cut_of_kept fun link => by simp [e]).symm
  · next node present =>
    rw [node?_put]
    by_cases e : target = other
    · unfold Nodes.cut
      rw [if_pos e, ← e, present]
      simp [Node.removeLink, Node.setLinks, Node.links]
    · rw [if_neg e]
      exact (cut_of_kept fun link => by simp [e]).symm

theorem nodes_release (draft : Draft) (id : NodeId) (stack : List NodeId) (links : List Link) :
    (draft.release id stack links).1.node? = Nodes.cut (comesBack id links) draft.node? := by
  induction links generalizing draft stack with
  | nil =>
    funext other
    exact (cut_of_kept fun link => by simp [comesBack]).symm
  | cons link rest ih =>
    rw [release]
    dsimp only
    rw [ih, nodes_dropInbound, cut_cut]
    congr 1
    funext other found
    rw [Bool.eq_iff_iff]
    obtain ⟨target, path⟩ := link
    obtain ⟨source, place⟩ := found
    simp only [comesBack, Bool.or_eq_true, decide_eq_true_eq, Bool.and_eq_true, beq_iff_eq,
      List.contains_eq_mem, List.mem_cons, Link.mk.injEq]
    constructor
    · intro h
      rcases h with ⟨rfl, rfl, rfl⟩ | ⟨rfl, member⟩
      · exact ⟨rfl, Or.inl ⟨rfl, rfl⟩⟩
      · exact ⟨rfl, Or.inr member⟩
    · intro h
      rcases h with ⟨rfl, ⟨rfl, rfl⟩ | member⟩
      · exact Or.inl ⟨rfl, rfl, rfl⟩
      · exact Or.inr ⟨rfl, member⟩

theorem mem_stack_release {draft : Draft} {id other : NodeId} {stack : List NodeId}
    {links : List Link} (h : other ∈ (draft.release id stack links).2) :
    other ∈ stack ∨ ∃ path, ⟨other, path⟩ ∈ links := by
  induction links generalizing draft stack with
  | nil => exact Or.inl h
  | cons link rest ih =>
    rw [release] at h
    dsimp only at h
    rcases ih h with old | ⟨path, member⟩
    · split at old
      · rcases List.mem_cons.mp old with rfl | old
        · exact Or.inr ⟨link.path, List.mem_cons_self⟩
        · exact Or.inl old
      · exact Or.inl old
    · exact Or.inr ⟨path, List.mem_cons_of_mem _ member⟩

theorem stack_subset_release (draft : Draft) (id : NodeId) (stack : List NodeId)
    (links : List Link) : stack ⊆ (draft.release id stack links).2 := by
  induction links generalizing draft stack with
  | nil => exact fun _ member => member
  | cons link rest ih =>
    rw [release]
    dsimp only
    refine List.Subset.trans ?_ (ih _ _)
    split
    · exact List.subset_cons_self _ _
    · exact fun _ member => member

/-- Whoever is left without inbound links is put on the stack. -/
theorem mem_stack_release_of_orphaned {draft : Draft} {id other : NodeId} {path : Path}
    {stack : List NodeId} {links : List Link} (member : ⟨other, path⟩ ∈ links)
    (has : Nodes.Has draft.node? other)
    (none : Nodes.links (draft.release id stack links).1.node? .inbound other = []) :
    other ∈ (draft.release id stack links).2 := by
  induction links generalizing draft stack path with
  | nil => cases member
  | cons link rest ih =>
    rw [release] at none ⊢
    dsimp only at none ⊢
    have kept := (has_dropInbound draft id link.node other link.path).mpr has
    by_cases later : ∃ path, ⟨other, path⟩ ∈ rest
    · obtain ⟨path, member⟩ := later
      exact ih member kept none
    · have here : link.node = other := by
        rcases List.mem_cons.mp member with e | member
        · rw [← e]
        · exact absurd ⟨path, member⟩ later
      have empty : Nodes.links (draft.dropInbound id link.path link.node).1.node? .inbound other =
          [] := by
        rw [nodes_release, inbound_cut, List.filter_eq_nil_iff] at none
        refine List.eq_nil_iff_forall_not_mem.mpr fun found inside => none found inside ?_
        rw [Bool.not_eq_true', ← Bool.not_eq_true, comesBack_iff]
        exact fun back => later ⟨found.path, back.2⟩
      have reported : (draft.dropInbound id link.path link.node).2 = true := by
        rw [dropInbound_snd, here]
        rw [here] at empty
        exact ⟨has, empty⟩
      rw [if_pos reported]
      exact stack_subset_release _ _ _ _ (here ▸ List.mem_cons_self)

theorem length_release_le (draft : Draft) (id : NodeId) (stack : List NodeId)
    (links : List Link) :
    (draft.release id stack links).2.length ≤ stack.length + links.length := by
  induction links generalizing draft stack with
  | nil => exact Nat.le_refl _
  | cons link rest ih =>
    rw [release]
    dsimp only
    refine Nat.le_trans (ih _ _) ?_
    split
    · rw [List.length_cons, List.length_cons]
      omega
    · rw [List.length_cons]
      omega

theorem graph_put (draft : Draft) (id : NodeId) (node : Node) :
    (draft.put id node).graph = draft.graph.insert id node :=
  Table.ext fun other => by
    have h : (draft.put id node).graph.node? other =
      Graph.node? (draft.graph.insert id node) other := by
      rw [node?_graph, node?_put, Graph.node?_insert, node?_graph]
    exact h

theorem graph_remove (draft : Draft) (id : NodeId) :
    (draft.remove id).graph = draft.graph.erase id :=
  Table.ext fun other => by
    have h : (draft.remove id).graph.node? other = Graph.node? (draft.graph.erase id) other := by
      rw [node?_graph, node?_remove, Graph.node?_erase, node?_graph]
    exact h

theorem outboundCount_put (draft : Draft) (id : NodeId) (node : Node) :
    (draft.put id node).outboundCount + (Nodes.links draft.node? .outbound id).length =
      draft.outboundCount + node.outbound.length := by
  have total := Entries.total_insert (fun node : Node => node.outbound.length) id node
    draft.graph.increasing
  have found : Entries.get? id draft.graph.entries = draft.node? id := node?_graph draft id
  have count : (draft.node? id).elim 0 (fun node => node.outbound.length) =
      (Nodes.links draft.node? .outbound id).length := by
    unfold Nodes.links
    cases draft.node? id <;> rfl
  rw [found, count] at total
  unfold outboundCount
  rw [graph_put]
  exact total

theorem outboundCount_remove {draft : Draft} {id : NodeId} {node : Node}
    (found : draft.node? id = some node) :
    (draft.remove id).outboundCount + node.outbound.length = draft.outboundCount := by
  have total := Entries.total_erase (fun node : Node => node.outbound.length) id
    draft.graph.increasing
  have lookup : Entries.get? id draft.graph.entries = some node := by
    rw [← found]
    exact node?_graph draft id
  rw [lookup] at total
  unfold outboundCount
  rw [graph_remove]
  exact total

theorem outboundCount_dropInbound (draft : Draft) (container target : NodeId) (path : Path) :
    (draft.dropInbound container path target).1.outboundCount = draft.outboundCount := by
  unfold dropInbound
  split
  · rfl
  · next node present =>
    have count := outboundCount_put draft target (node.removeLink .inbound ⟨container, path⟩)
    rw [links_of_some present] at count
    exact Nat.add_right_cancel count

theorem outboundCount_release (draft : Draft) (id : NodeId) (stack : List NodeId)
    (links : List Link) : (draft.release id stack links).1.outboundCount = draft.outboundCount := by
  induction links generalizing draft stack with
  | nil => rfl
  | cons link rest ih =>
    rw [release]
    dsimp only
    rw [ih, outboundCount_dropInbound]

/-- A node is removed and released: it is collected. -/
theorem nodes_collected {draft : Draft} {id : NodeId} {node : Node}
    (found : draft.node? id = some node) (stack : List NodeId) :
    ((draft.remove id).release id stack node.outbound).1.node? =
      Nodes.collected draft.node? id := by
  have links : Nodes.links draft.node? .outbound id = node.outbound := links_of_some found _
  rw [nodes_release, nodes_remove, ← links]
  rfl

/-- The links of a removed node make up for what it puts on the stack. -/
theorem length_removed_le {draft : Draft} {id : NodeId} {node : Node}
    (found : draft.node? id = some node) (stack : List NodeId) :
    ((draft.remove id).release id stack node.outbound).2.length +
        ((draft.remove id).release id stack node.outbound).1.outboundCount ≤
      stack.length + draft.outboundCount := by
  have left := length_release_le (draft.remove id) id stack node.outbound
  have count := outboundCount_release (draft.remove id) id stack node.outbound
  have removed := outboundCount_remove found
  omega

/-- What is left of the work when a node is removed. -/
structure Removal (nodes : Nodes) (id : NodeId) (stack more : List NodeId) : Prop where
  has : nodes.Has id
  kept : stack ⊆ more
  added : ∀ other ∈ more, other ∈ stack ∨ ∃ path, ⟨other, path⟩ ∈ nodes.links .outbound id
  orphaned : ∀ other path, ⟨other, path⟩ ∈ nodes.links .outbound id → id ≠ other →
    nodes.Has other → (nodes.collected id).links .inbound other = [] → other ∈ more

theorem removal {draft : Draft} {id : NodeId} {node : Node} (found : draft.node? id = some node)
    (stack : List NodeId) :
    Removal draft.node? id stack ((draft.remove id).release id stack node.outbound).2 := by
  have links : Nodes.links draft.node? .outbound id = node.outbound := links_of_some found _
  refine ⟨has_of_some found, stack_subset_release _ _ _ _, ?_, ?_⟩
  · intro other member
    rw [links]
    exact mem_stack_release member
  · intro other path member ne has none
    rw [links] at member
    refine mem_stack_release_of_orphaned member ?_ ?_
    · rw [nodes_remove]
      unfold Nodes.Has Nodes.drop
      rw [if_neg ne]
      exact has
    · rw [nodes_release, nodes_remove, ← links]
      exact none

theorem collectFrom_nil (bound : Nat) (draft : Draft) : draft.collectFrom bound [] = draft := by
  cases bound <;> rfl

theorem collectFrom_induct {motive : Nodes → List NodeId → Prop}
    (skip : ∀ nodes id stack, (nodes.Has id → nodes.links .inbound id ≠ []) →
      motive nodes (id :: stack) → motive nodes stack)
    (step : ∀ nodes id stack more, nodes.links .inbound id = [] → Removal nodes id stack more →
      motive nodes (id :: stack) → motive (nodes.collected id) more)
    {bound : Nat} {draft : Draft} {stack : List NodeId}
    (enough : stack.length + draft.outboundCount ≤ bound) (start : motive draft.node? stack) :
    motive (collectFrom bound draft stack).node? [] := by
  induction bound generalizing draft stack with
  | zero =>
    have empty : stack = [] := List.length_eq_zero_iff.mp (by omega)
    exact empty ▸ start
  | succ bound ih =>
    cases stack with
    | nil => exact start
    | cons id stack =>
      rw [List.length_cons] at enough
      rw [collectFrom]
      split
      · next missing =>
        refine ih (by omega) (skip _ id _ (fun has => ?_) start)
        rw [Nodes.Has, missing] at has
        cases has
      · next node found =>
        have links := links_of_some found
        split
        · next orphan =>
          have inbound : Nodes.links draft.node? .inbound id = [] := by
            rw [links]
            exact List.isEmpty_iff.mp orphan
          have left := length_removed_le found stack
          refine ih (by omega) ?_
          rw [nodes_collected found]
          exact step _ id stack _ inbound (removal found stack) start
        · next anchored =>
          refine ih (by omega) (skip _ id _ (fun _ => ?_) start)
          rw [links]
          exact fun empty => anchored (List.isEmpty_iff.mpr empty)

/-- The steps of collecting orphans. -/
theorem collectOrphans_induct {motive : Nodes → List NodeId → Prop}
    (skip : ∀ nodes id stack, (nodes.Has id → nodes.links .inbound id ≠ []) →
      motive nodes (id :: stack) → motive nodes stack)
    (step : ∀ nodes id stack more, nodes.links .inbound id = [] → Removal nodes id stack more →
      motive nodes (id :: stack) → motive (nodes.collected id) more)
    (draft : Draft) (start : motive draft.node? draft.orphans.keys.reverse) :
    motive draft.collectOrphans.node? [] :=
  collectFrom_induct skip step (Nat.le_refl _) start

/-- Collecting orphans keeps the nodes sound but for the stack. -/
theorem Sound.collectOrphans_induct {motive : Nodes → List NodeId → Prop} {draft : Draft}
    (h : draft.Sound) (skip : ∀ nodes id stack, motive nodes (id :: stack) → motive nodes stack)
    (step : ∀ nodes id stack more, Nodes.Sound (· ∈ id :: stack) nodes →
      nodes.links .inbound id = [] → Removal nodes id stack more → motive nodes (id :: stack) →
      motive (nodes.collected id) more)
    (start : motive draft.node? draft.orphans.keys.reverse) :
    Nodes.Sound (fun _ => False) draft.collectOrphans.node? ∧
      motive draft.collectOrphans.node? [] := by
  have both := Draft.collectOrphans_induct
    (motive := fun nodes stack => Nodes.Sound (· ∈ stack) nodes ∧ motive nodes stack) ?_ ?_ draft
    ⟨Nodes.Sound.mono h fun id orphan => List.mem_reverse.mpr (Table.mem_keys_iff.mpr orphan),
      start⟩
  · exact ⟨both.1.mono fun _ => List.not_mem_nil, both.2⟩
  · intro nodes id stack anchored given
    obtain ⟨sound, held⟩ := given
    refine ⟨{ sound with anchored := fun other has name => ?_ }, skip nodes id stack held⟩
    rcases sound.anchored other has name with waiting | some
    · rcases List.mem_cons.mp waiting with rfl | waiting
      · exact Or.inr (anchored has)
      · exact Or.inl waiting
    · exact Or.inr some
  · intro nodes id stack more orphan removal given
    obtain ⟨sound, held⟩ := given
    refine ⟨sound.collected orphan ?_ ?_, step nodes id stack more sound orphan removal held⟩
    · intro other ne waiting
      exact removal.kept ((List.mem_cons.mp waiting).resolve_left (Ne.symm ne))
    · intro other path member has none
      refine removal.orphaned other path member ?_ has none
      intro e
      subst e
      rw [sound.mirrored, orphan] at member
      cases member

/-- No node is pending when the orphans are collected. -/
theorem Sound.collectOrphans {draft : Draft} (h : draft.Sound) :
    Nodes.Sound (fun _ => False) draft.collectOrphans.node? :=
  (h.collectOrphans_induct (motive := fun _ _ => True) (fun _ _ _ _ => trivial)
    (fun _ _ _ _ _ _ _ _ => trivial) trivial).1

/-- A node that stays keeps its outbound links. -/
theorem outbound_collectOrphans (draft : Draft) {id : NodeId}
    (has : Nodes.Has draft.collectOrphans.node? id) :
    Nodes.links draft.collectOrphans.node? .outbound id = Nodes.links draft.node? .outbound id := by
  refine collectOrphans_induct (motive := fun nodes _ => nodes.Has id →
    nodes.links .outbound id = Nodes.links draft.node? .outbound id) ?_ ?_ draft (fun _ => rfl) has
  · exact fun _ _ _ _ kept => kept
  · intro nodes other stack more orphan removal kept stays
    obtain ⟨ne, before⟩ := has_collected.mp stays
    rw [outbound_collected, if_neg ne]
    exact kept before

end Draft
end ResponseGraph
