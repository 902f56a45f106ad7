import ResponseGraph.Proofs.Draft.Level
import ResponseGraph.Proofs.Draft.Shedding
import ResponseGraph.Proofs.Draft.Twin

/-!
Collecting level drafts.

A collection follows links in the order in which they are listed, but what it removes does not
depend on that (`Nodes.Shedding`).  So level drafts lose the same nodes when their orphans are
collected, and stay level.
-/

namespace ResponseGraph
namespace Nodes

variable {nodes later : Nodes} {candidate gone : NodeId → Prop}

namespace Level

variable {others final : Nodes}

theorem sheds (h : Level nodes others) (sheds : Sheds nodes candidate gone) :
    Sheds others candidate gone := by
  refine ⟨fun id chosen has none => ?_, fun id some all => ?_⟩
  · exact sheds.orphaned id chosen ((h.has id).mpr has) (h.links_eq_nil.mpr none)
  · refine sheds.released id (fun none => some (h.links_eq_nil.mp none)) fun link member => ?_
    obtain ⟨lost, linked⟩ := all link ((h.links _ _ _).mp member)
    exact ⟨lost, (h.links _ _ _).mpr linked⟩

/-- Level nodes lose the same. -/
theorem loses_iff (h : Level nodes others) (shed : Shedding nodes candidate later [])
    (shed' : Shedding others candidate final []) (id : NodeId) :
    Loses nodes later id ↔ Loses others final id :=
  ⟨shed.least _ (h.symm.sheds shed'.sheds) id, shed'.least _ (h.sheds shed.sheds) id⟩

theorem shed (h : Level nodes others) (shed : Shedding nodes candidate later [])
    (shed' : Shedding others candidate final []) : Level later final := by
  have lost := h.loses_iff shed shed'
  have has (id : NodeId) : later.Has id ↔ final.Has id := by
    constructor
    · intro there
      by_contra gone
      exact ((lost id).mpr ⟨(h.has id).mp (shed.has there), gone⟩).2 there
    · intro there
      by_contra gone
      exact ((lost id).mp ⟨(h.has id).mpr (shed'.has there), gone⟩).2 there
  have missing {some : Nodes} {id : NodeId} (gone : ¬ some.Has id) : some id = none :=
    Option.not_isSome_iff_eq_none.mp gone
  refine ⟨has, funext fun id => ?_, fun way id link => ?_⟩
  · by_cases there : later.Has id
    · rw [shed.frame there, shed'.frame ((has id).mp there), h.frame]
    · have gone : ¬ final.Has id := there ∘ (has id).mpr
      rw [frame_of_none (missing there), frame_of_none (missing gone)]
  · by_cases there : later.Has id
    · have there' := (has id).mp there
      cases way with
      | outbound => rw [shed.outbound there, shed'.outbound there', h.links]
      | inbound =>
        rw [shed.mem_inbound there, shed'.mem_inbound there', h.links]
        unfold Released
        rw [lost, h.links]
    · have gone : ¬ final.Has id := there ∘ (has id).mpr
      rw [links_of_none (missing there), links_of_none (missing gone)]

end Level
end Nodes

open Nodes

namespace Draft

variable {draft a b : Draft}

theorem shedding_collectOrphans (answered : Nodes.Answered draft.node?) :
    Shedding draft.node? (fun id => draft.orphans.contains id) draft.collectOrphans.node? [] := by
  refine collectOrphans_induct (motive := fun nodes stack =>
    Shedding draft.node? (fun id => draft.orphans.contains id) nodes stack) ?_ ?_ draft ?_
  · exact fun nodes id stack stays shed => shed.skip stays
  · exact fun nodes id stack more orphan removal shed => shed.collected answered orphan removal
  · exact .start _ fun id => List.mem_reverse.trans Table.mem_keys_iff

theorem contains_edited_collectOrphans_iff {id : NodeId} :
    draft.collectOrphans.edited.contains id ↔ draft.edited.contains id ∨
      Loses draft.node? draft.collectOrphans.node? id := by
  refine ⟨contains_edited_collectOrphans, ?_⟩
  rintro (before | lost)
  · exact (edits_collectOrphans draft).contains_edited before
  · exact (edits_collectOrphans draft).edited_of_gone lost.1 lost.2

/-- Level drafts are level when their orphans are collected. -/
theorem Level.collectOrphans (h : Level a b) (one : Upheld a.node?) (two : Upheld b.node?) :
    Level a.collectOrphans b.collectOrphans := by
  have shed := shedding_collectOrphans one.answered
  have shed' := shedding_collectOrphans two.answered
  rw [← h.orphans] at shed'
  refine ⟨h.nodes.shed shed shed', NameSet.ext fun id => ?_, ?_⟩
  · rw [contains_edited_collectOrphans_iff, contains_edited_collectOrphans_iff, h.edited,
      h.nodes.loses_iff shed shed']
  · rw [orphans_collectOrphans, orphans_collectOrphans]

end Draft
end ResponseGraph
