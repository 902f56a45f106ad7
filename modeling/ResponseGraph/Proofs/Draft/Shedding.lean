import ResponseGraph.Proofs.Draft.Upheld

/-!
Nodes that are shed.

What a collection removes does not depend on the order in which it looks at waiting ids.  Gone
is the least set that has every candidate without inbound links, and every node whose inbound
links all go with it.  A link goes with its source, and only if the source has it as an outbound
link.  So it is enough that every outbound link has its other end (`Nodes.Answered`): an inbound
link that comes from nowhere is never taken away.

`Nodes.Shedding` is what holds between two steps.  A node without inbound links that is still
there is waiting, unless it had none from the start and nobody asked for it.
-/

namespace ResponseGraph
namespace Nodes

variable {nodes later : Nodes} {candidate gone : NodeId → Prop} {stack more : List NodeId}
  {id other : NodeId} {link : Link}

/-! ## What goes -/

/-- A node of the first that is no longer there. -/
def Loses (nodes later : Nodes) (id : NodeId) : Prop := nodes.Has id ∧ ¬ later.Has id

instance (nodes : Nodes) : DecidablePred nodes.Has := fun id =>
  inferInstanceAs (Decidable ((nodes id).isSome = true))

instance (nodes later : Nodes) : DecidablePred (Loses nodes later) := fun id =>
  inferInstanceAs (Decidable (nodes.Has id ∧ ¬ later.Has id))

/-- The link goes with its source, which has it. -/
def Released (nodes : Nodes) (gone : NodeId → Prop) (id : NodeId) (link : Link) : Prop :=
  gone link.node ∧ ⟨id, link.path⟩ ∈ nodes.links .outbound link.node

instance (nodes : Nodes) [DecidablePred gone] (id : NodeId) :
    DecidablePred (Released nodes gone id) := fun link =>
  inferInstanceAs (Decidable (gone link.node ∧ ⟨id, link.path⟩ ∈ nodes.links .outbound link.node))

/-- If these are gone, none of the others has to go. -/
structure Sheds (nodes : Nodes) (candidate gone : NodeId → Prop) : Prop where
  orphaned : ∀ id, candidate id → nodes.Has id → nodes.links .inbound id = [] → gone id
  released : ∀ id, nodes.links .inbound id ≠ [] →
    (∀ link ∈ nodes.links .inbound id, Released nodes gone id link) → gone id

/-! ## Between two steps -/

/-- Nodes from which some are gone while others are waiting.  Those that are left keep everything
but the links that went. -/
structure Shedding (nodes : Nodes) (candidate : NodeId → Prop) (later : Nodes)
    (waiting : List NodeId) : Prop where
  left : ∀ id node, later id = some node → ∃ old, nodes id = some old ∧
    node = { old with
      inbound := old.inbound.filter fun link => ¬ Released nodes (Loses nodes later) id link }
  due : ∀ id ∈ waiting, candidate id ∨ nodes.links .inbound id ≠ []
  caught : ∀ id, later.Has id → later.links .inbound id = [] →
    id ∈ waiting ∨ (nodes.links .inbound id = [] ∧ ¬ candidate id)
  least : ∀ gone, Sheds nodes candidate gone → ∀ id, Loses nodes later id → gone id

namespace Shedding

theorem has (h : Shedding nodes candidate later stack) (has : later.Has id) : nodes.Has id := by
  obtain ⟨node, found⟩ := Option.isSome_iff_exists.mp has
  obtain ⟨old, present, -⟩ := h.left id node found
  exact has_of_some present

theorem frame (h : Shedding nodes candidate later stack) (has : later.Has id) :
    later.frame id = nodes.frame id := by
  obtain ⟨node, found⟩ := Option.isSome_iff_exists.mp has
  obtain ⟨old, present, rfl⟩ := h.left id node found
  rw [frame_of_some found, frame_of_some present]

theorem outbound (h : Shedding nodes candidate later stack) (has : later.Has id) :
    later.links .outbound id = nodes.links .outbound id := by
  obtain ⟨node, found⟩ := Option.isSome_iff_exists.mp has
  obtain ⟨old, present, rfl⟩ := h.left id node found
  rw [links_of_some found, links_of_some present]
  rfl

theorem mem_inbound (h : Shedding nodes candidate later stack) (has : later.Has id) :
    link ∈ later.links .inbound id ↔
      link ∈ nodes.links .inbound id ∧ ¬ Released nodes (Loses nodes later) id link := by
  obtain ⟨node, found⟩ := Option.isSome_iff_exists.mp has
  obtain ⟨old, present, rfl⟩ := h.left id node found
  rw [links_of_some found, links_of_some present]
  exact List.mem_filter.trans (and_congr_right fun _ => decide_eq_true_iff)

theorem start (nodes : Nodes) (all : ∀ id, id ∈ stack ↔ candidate id) :
    Shedding nodes candidate nodes stack where
  left id node found := by
    refine ⟨node, found, ?_⟩
    rw [List.filter_eq_self.mpr]
    exact fun link _ => decide_eq_true fun released => released.1.2 released.1.1
  due id member := Or.inl ((all id).mp member)
  caught id _ none := by
    by_cases chosen : candidate id
    · exact Or.inl ((all id).mpr chosen)
    · exact Or.inr ⟨none, chosen⟩
  least _ _ _ lost := absurd lost.1 lost.2

/-- The same ids wait, in whatever order. -/
theorem wait (h : Shedding nodes candidate later stack) (same : ∀ id, id ∈ stack ↔ id ∈ more) :
    Shedding nodes candidate later more :=
  { h with
    due := fun id member => h.due id ((same id).mpr member)
    caught := fun id has none => (h.caught id has none).imp_left (same id).mp }

/-- A waiting id that need not go no longer waits. -/
theorem skip (h : Shedding nodes candidate later (id :: stack))
    (stays : later.Has id → later.links .inbound id ≠ []) :
    Shedding nodes candidate later stack :=
  { h with
    due := fun other member => h.due other (List.mem_cons_of_mem _ member)
    caught := fun other has none => by
      refine (h.caught other has none).imp_left fun waits => ?_
      refine (List.mem_cons.mp waits).resolve_left fun e => ?_
      subst e
      exact stays has none }

theorem loses_collected (h : Shedding nodes candidate later stack) (has : later.Has id) :
    Loses nodes (later.collected id) other ↔ Loses nodes later other ∨ id = other := by
  unfold Loses
  rw [has_collected]
  by_cases e : id = other
  · subst e
    simp [h.has has]
  · simp [e]

/-- A node that goes releases its own links and no others. -/
theorem released_collected (h : Shedding nodes candidate later stack) (has : later.Has id) :
    Released nodes (Loses nodes (later.collected id)) other link ↔
      Released nodes (Loses nodes later) other link ∨
        (link.node = id ∧ ⟨other, link.path⟩ ∈ later.links .outbound id) := by
  unfold Released
  rw [h.loses_collected has, h.outbound has, or_and_right]
  refine or_congr_right ⟨?_, ?_⟩
  · rintro ⟨rfl, linked⟩
    exact ⟨rfl, linked⟩
  · rintro ⟨rfl, linked⟩
    exact ⟨rfl, linked⟩

/-- A waiting node without inbound links goes. -/
theorem collected (h : Shedding nodes candidate later (id :: stack)) (answered : Answered nodes)
    (orphan : later.links .inbound id = []) (removal : Draft.Removal later id stack more) :
    Shedding nodes candidate (later.collected id) more where
  left other node found := by
    have ne : id ≠ other := fun e => by
      rw [← e, collected_eq_none] at found
      cases found
    rw [collected_of_ne ne, Option.map_eq_some_iff] at found
    obtain ⟨before, present, rfl⟩ := found
    obtain ⟨old, original, rfl⟩ := h.left other before present
    refine ⟨old, original, ?_⟩
    congr 1
    rw [List.filter_filter]
    refine List.filter_congr fun link _ => ?_
    rw [Bool.eq_iff_iff, Bool.and_eq_true, Bool.not_eq_true', ← Bool.not_eq_true, comesBack_iff,
      decide_eq_true_iff, decide_eq_true_iff, h.released_collected removal.has, not_or]
    exact and_comm
  due other member := by
    rcases removal.added other member with old | ⟨path, linked⟩
    · exact h.due other (List.mem_cons_of_mem _ old)
    · rw [h.outbound removal.has] at linked
      exact Or.inr (List.ne_nil_of_mem (answered id other path linked))
  caught other there none := by
    obtain ⟨ne, before⟩ := has_collected.mp there
    by_cases empty : later.links .inbound other = []
    · refine (h.caught other before empty).imp_left fun waits => ?_
      exact removal.kept ((List.mem_cons.mp waits).resolve_left (Ne.symm ne))
    · obtain ⟨path, linked⟩ := exists_link_of_collected there empty none
      exact Or.inl (removal.orphaned other path linked ne before none)
  least gone sheds other lost := by
    rcases (h.loses_collected removal.has).mp lost with old | rfl
    · exact h.least gone sheds other old
    · by_cases empty : nodes.links .inbound id = []
      · exact sheds.orphaned id
          ((h.due id List.mem_cons_self).resolve_right (not_not_intro empty)) lost.1 empty
      · refine sheds.released id empty fun link member => ?_
        have released : Released nodes (Loses nodes later) id link := by
          by_contra kept
          have there := (h.mem_inbound removal.has).mpr ⟨member, kept⟩
          rw [orphan] at there
          cases there
        exact ⟨h.least gone sheds _ released.1, released.2⟩

/-- When no id is waiting, none has to go any more. -/
theorem sheds (h : Shedding nodes candidate later []) :
    Sheds nodes candidate (Loses nodes later) where
  orphaned id chosen has none := by
    refine ⟨has, fun there => ?_⟩
    have empty : later.links .inbound id = [] :=
      List.eq_nil_iff_forall_not_mem.mpr fun link member => by
        have before := ((h.mem_inbound there).mp member).1
        rw [none] at before
        cases before
    exact ((h.caught id there empty).resolve_left List.not_mem_nil).2 chosen
  released id some all := by
    obtain ⟨link, member⟩ := List.exists_mem_of_ne_nil _ some
    refine ⟨has_of_mem member, fun there => ?_⟩
    have empty : later.links .inbound id = [] :=
      List.eq_nil_iff_forall_not_mem.mpr fun other member => by
        obtain ⟨before, kept⟩ := (h.mem_inbound there).mp member
        exact kept (all other before)
    exact some ((h.caught id there empty).resolve_left List.not_mem_nil).1

end Shedding
end Nodes
end ResponseGraph
