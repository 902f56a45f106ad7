import ResponseGraph.Proofs.Draft.Committed

/-!
Copied ancestors.

A commit goes up the inbound links from the edited nodes.  It keeps a stack of nodes still to
be looked at and a set of all ids met so far, so no node is put on the stack twice and the
stack runs empty within the bound.  Then the ids met are closed under inbound links, and
every one of them that stands for a node was copied.
-/

namespace ResponseGraph

/-- The ids from which inbound links lead to one of the first ids. -/
inductive Nodes.Above (nodes : Nodes) (first : NodeId → Prop) : NodeId → Prop
  | first {id : NodeId} (h : first id) : Above nodes first id
  | up {id : NodeId} {link : Link} (above : Above nodes first id)
    (linked : link ∈ nodes.links .inbound id) : Above nodes first link.node

namespace Draft

theorem contains_changes_put (draft : Draft) (id other : NodeId) (node : Node) :
    (draft.put id node).changes.contains other ↔ other = id ∨ draft.changes.contains other := by
  unfold put Table.contains
  rw [Table.get?_insert]
  by_cases e : id = other
  · simp [e]
  · rw [if_neg e]
    exact (or_iff_right fun same => e same.symm).symm

/-- Copying leaves the base and the edited ids as they are. -/
def Alike (draft draft' : Draft) : Prop :=
  draft'.base = draft.base ∧ draft'.edited = draft.edited ∧
    ∀ id, draft.changes.contains id → draft'.changes.contains id

theorem Alike.refl (draft : Draft) : Alike draft draft := ⟨rfl, rfl, fun _ kept => kept⟩

theorem Alike.trans {draft middle draft' : Draft} (first : Alike draft middle)
    (second : Alike middle draft') : Alike draft draft' :=
  ⟨second.1.trans first.1, second.2.1.trans first.2.1,
    fun id kept => second.2.2 id (first.2.2 id kept)⟩

theorem alike_own (draft : Draft) (id : NodeId) : Alike draft (draft.own id) :=
  ⟨rfl, rfl, fun _ kept => (contains_changes_put _ _ _ _).mpr (.inr kept)⟩

theorem alike_ownAll (draft : Draft) (seen : NameSet) (stack ids : List NodeId) :
    Alike draft (draft.ownAll seen stack ids).1 := by
  induction ids generalizing draft seen stack with
  | nil => exact .refl draft
  | cons id rest ih =>
    rw [ownAll]
    split
    · exact ih _ _ _
    · split
      · exact ih _ _ _
      · exact (alike_own draft id).trans (ih _ _ _)

theorem alike_ownAncestorsFrom (bound : Nat) (draft : Draft) (seen : NameSet)
    (stack : List NodeId) : Alike draft (ownAncestorsFrom bound draft seen stack) := by
  induction bound generalizing draft seen stack with
  | zero => exact .refl draft
  | succ bound ih =>
    cases stack with
    | nil => exact .refl draft
    | cons id stack =>
      rw [ownAncestorsFrom]
      split
      · exact ih _ _ _
      · exact (alike_ownAll _ _ _ _).trans (ih _ _ _)

theorem alike_ownAncestors (draft : Draft) : Alike draft draft.ownAncestors :=
  alike_ownAncestorsFrom _ _ _ _

/-! ## The ids met -/

/-- How many nodes were not met yet. -/
def unseen (draft : Draft) (seen : NameSet) : Nat :=
  (draft.graph.keys.filter fun id => !seen.contains id).length

theorem unseen_congr {draft draft' : Draft} (same : draft'.node? = draft.node?) (seen : NameSet) :
    draft'.unseen seen = draft.unseen seen := by
  rw [unseen, graph_congr same, unseen]

theorem unseen_le (draft : Draft) (seen : NameSet) : draft.unseen seen ≤ draft.graph.size := by
  have keys : draft.graph.keys.length = draft.graph.size := List.length_map _
  rw [← keys]
  exact List.length_filter_le _ _

theorem filter_unseen_add (seen : NameSet) (id : NodeId) (keys : List NodeId) :
    (keys.filter fun other => !(seen.add id).contains other) =
      (keys.filter fun other => !seen.contains other).filter fun other => decide (id ≠ other) := by
  rw [List.filter_filter]
  refine List.filter_congr fun other _ => ?_
  rw [NameSet.contains_add, Bool.not_or, decide_not]

theorem unseen_add_le (draft : Draft) (seen : NameSet) (id : NodeId) :
    draft.unseen (seen.add id) ≤ draft.unseen seen := by
  unfold unseen
  rw [filter_unseen_add]
  exact List.length_filter_le _ _

theorem unseen_add_lt {draft : Draft} {seen : NameSet} {id : NodeId}
    (has : Nodes.Has draft.node? id) (unmet : ¬ seen.contains id) :
    draft.unseen (seen.add id) < draft.unseen seen := by
  have member : id ∈ draft.graph.keys := by
    have present : (draft.graph.node? id).isSome := by
      rw [node?_graph]
      exact has
    exact Table.mem_keys_iff.mpr present
  unfold unseen
  rw [filter_unseen_add, List.length_filter_lt_length_iff_exists]
  exact ⟨id, List.mem_filter.mpr ⟨member, by simpa using unmet⟩, by simp⟩

/-- What the search for ancestors has reached.  Every node met is copied, and it is still to
be looked at, or its inbound links lead to ids that were met or are the next to be met. -/
structure Climbed (draft : Draft) (seen : NameSet) (stack next : List NodeId) : Prop where
  copied : ∀ id, seen.contains id → Nodes.Has draft.node? id → draft.changes.contains id
  followed : ∀ id, seen.contains id → id ∈ stack ∨
    ∀ link ∈ Nodes.links draft.node? .inbound id, seen.contains link.node ∨ link.node ∈ next

namespace Climbed

variable {draft : Draft} {seen : NameSet} {stack rest : List NodeId} {id : NodeId}

theorem skip (h : Climbed draft seen stack (id :: rest)) (met : seen.contains id) :
    Climbed draft seen stack rest := by
  refine ⟨h.copied, fun other present => (h.followed other present).imp_right ?_⟩
  intro follows link linked
  rcases follows link linked with found | member
  · exact .inl found
  · rcases List.mem_cons.mp member with e | member
    · exact .inl (e ▸ met)
    · exact .inr member

theorem contains_add_iff {other : NodeId} :
    (seen.add id).contains other ↔ id = other ∨ seen.contains other := by
  rw [NameSet.contains_add, Bool.or_eq_true, decide_eq_true_iff]

/-- What is met anew has no links to follow or is put on the stack. -/
theorem meet (h : Climbed draft seen stack (id :: rest)) {draft' : Draft} {stack' : List NodeId}
    (nodes : draft'.node? = draft.node?)
    (kept : ∀ other, draft.changes.contains other → draft'.changes.contains other)
    (copied : Nodes.Has draft.node? id → draft'.changes.contains id ∧ id ∈ stack')
    (stacked : stack ⊆ stack') : Climbed draft' (seen.add id) stack' rest := by
  refine ⟨fun other met has => ?_, fun other met => ?_⟩
  · rw [nodes] at has
    rcases contains_add_iff.mp met with e | met
    · exact e ▸ (copied (e ▸ has)).1
    · exact kept other (h.copied other met has)
  · rw [nodes]
    rcases contains_add_iff.mp met with e | met
    · subst e
      by_cases has : Nodes.Has draft.node? id
      · exact .inl (copied has).2
      · refine .inr fun link linked => absurd (Nodes.has_of_mem linked) has
    · refine (h.followed other met).imp (fun member => stacked member) fun follows link linked => ?_
      rcases follows link linked with found | member
      · exact .inl (contains_add_iff.mpr (.inr found))
      · rcases List.mem_cons.mp member with e | member
        · exact .inl (contains_add_iff.mpr (.inl e.symm))
        · exact .inr member

/-- A node is taken off the stack when its links are the next to be followed. -/
theorem pop {next : List NodeId} (h : Climbed draft seen (id :: stack) [])
    (leads : ∀ link ∈ Nodes.links draft.node? .inbound id, link.node ∈ next) :
    Climbed draft seen stack next := by
  refine ⟨h.copied, fun other met => ?_⟩
  rcases h.followed other met with member | follows
  · rcases List.mem_cons.mp member with e | member
    · subst e
      exact .inr fun link linked => .inr (leads link linked)
    · exact .inl member
  · refine .inr fun link linked => (follows link linked).imp_right fun none => ?_
    cases none

theorem ownAll {next : List NodeId} (h : Climbed draft seen stack next) :
    Climbed (draft.ownAll seen stack next).1 (draft.ownAll seen stack next).2.1
      (draft.ownAll seen stack next).2.2 [] := by
  induction next generalizing draft seen stack with
  | nil => exact h
  | cons id rest ih =>
    rw [Draft.ownAll]
    split
    · next met => exact ih (h.skip met)
    · split
      · next missing =>
        refine ih (h.meet rfl (fun _ kept => kept) (fun has => ?_) fun _ member => member)
        rw [Nodes.Has, Option.isSome_iff_ne_none] at has
        exact absurd (Option.isNone_iff_eq_none.mp missing) has
      · next present =>
        have has : Nodes.Has draft.node? id := Nodes.has_of_not_isNone present
        exact ih (h.meet (nodes_own has) (alike_own draft id).2.2
          (fun _ => ⟨(contains_changes_put _ _ _ _).mpr (.inl rfl), List.mem_cons_self⟩)
          (List.subset_cons_self _ _))

end Climbed

theorem seen_ownAll (draft : Draft) (seen : NameSet) (stack next : List NodeId) {id : NodeId}
    (met : seen.contains id) : (draft.ownAll seen stack next).2.1.contains id := by
  induction next generalizing draft seen stack with
  | nil => exact met
  | cons other rest ih =>
    rw [ownAll]
    split
    · exact ih _ _ _ met
    · split <;> exact ih _ _ _ (Climbed.contains_add_iff.mpr (.inr met))

/-- What comes onto the stack was not met before. -/
theorem length_ownAll_le (draft : Draft) (seen : NameSet) (stack next : List NodeId) :
    (draft.ownAll seen stack next).2.2.length +
        draft.unseen (draft.ownAll seen stack next).2.1 ≤ stack.length + draft.unseen seen := by
  induction next generalizing draft seen stack with
  | nil => exact Nat.le_refl _
  | cons id rest ih =>
    rw [ownAll]
    split
    · exact ih _ _ _
    · next unmet =>
      split
      · have le := unseen_add_le draft seen id
        have rest := ih draft (seen.add id) stack
        omega
      · next present =>
        have has : Nodes.Has draft.node? id := Nodes.has_of_not_isNone present
        have lt := unseen_add_lt has unmet
        have rest := ih (draft.own id) (seen.add id) (id :: stack)
        rw [unseen_congr (nodes_own has), unseen_congr (nodes_own has), List.length_cons] at rest
        omega

theorem Climbed.ownAncestorsFrom {bound : Nat} {draft : Draft} {seen : NameSet}
    {stack : List NodeId} (h : Climbed draft seen stack [])
    (enough : stack.length + draft.unseen seen ≤ bound) :
    ∃ seen', (∀ id, seen.contains id → seen'.contains id) ∧
      Climbed (draft.ownAncestorsFrom bound seen stack) seen' [] [] := by
  induction bound generalizing draft seen stack with
  | zero =>
    have empty : stack = [] := List.eq_nil_of_length_eq_zero (by omega)
    exact ⟨seen, fun _ met => met, empty ▸ h⟩
  | succ bound ih =>
    cases stack with
    | nil => exact ⟨seen, fun _ met => met, h⟩
    | cons id stack =>
      rw [List.length_cons] at enough
      rw [Draft.ownAncestorsFrom]
      split
      · next missing =>
        refine ih (h.pop fun link linked => ?_) (by omega)
        rw [Nodes.links_of_none missing] at linked
        cases linked
      · next node found =>
        have popped : Climbed draft seen stack (node.inbound.map Link.node) := by
          refine h.pop fun link linked => ?_
          rw [Nodes.links_of_some found] at linked
          exact List.mem_map_of_mem linked
        -- What is put on the stack is no longer unseen, so the bound still suffices.
        have le := length_ownAll_le draft seen stack (node.inbound.map Link.node)
        obtain ⟨seen', more, climbed⟩ := ih popped.ownAll (by
          rw [unseen_congr (nodes_ownAll _ _ _ _)]
          omega)
        exact ⟨seen', fun other met => more other (seen_ownAll _ _ _ _ met), climbed⟩

/-- If the edited nodes are in the draft, a commit has all nodes that lead to one in it. -/
theorem contains_changes_ownAncestors {draft : Draft}
    (edited : ∀ id, draft.edited.contains id → draft.changes.contains id) {id : NodeId}
    (above : Nodes.Above draft.node? (fun id => draft.edited.contains id) id)
    (has : Nodes.Has draft.node? id) : draft.ownAncestors.changes.contains id := by
  have start : Climbed draft draft.edited draft.edited.keys.reverse [] := by
    refine ⟨fun id met _ => edited id met, fun id met => .inl ?_⟩
    exact List.mem_reverse.mpr (Table.mem_keys_iff.mpr met)
  have enough : draft.edited.keys.reverse.length + draft.unseen draft.edited ≤
      draft.edited.size + draft.graph.size := by
    have length : draft.edited.keys.length = draft.edited.size := List.length_map _
    rw [List.length_reverse, length]
    exact Nat.add_le_add_left (unseen_le _ _) _
  obtain ⟨seen, more, climbed⟩ := start.ownAncestorsFrom enough
  have nodes := nodes_ownAncestors draft
  unfold ownAncestors at nodes
  obtain ⟨copied, followed⟩ := climbed
  rw [nodes] at copied followed
  have met : seen.contains id := by
    clear has
    induction above with
    | first h => exact more _ h
    | up _ linked ih =>
      rcases followed _ ih with none | follows
      · cases none
      · exact (follows _ linked).resolve_right List.not_mem_nil
  exact copied id met has

end Draft
end ResponseGraph
