import Mathlib.Logic.Relation
import ResponseGraph.Proofs.Draft.Counted
import ResponseGraph.Proofs.Draft.Shedding

/-!
Nodes that lose all their support.

A collection looks at waiting ids one by one.  Here a step may take any of them
(`Collecting.Step`), so the steps of `Draft.collect` are one way among many to run the list
empty.  Every way ends, and all of them end alike.

Where links agree at both ends, a link goes as soon as its source does.  So gone is the least set
that has every candidate without inbound links, and every node whose inbound links all come from
the set (`Nodes.Falls`).  In particular two nodes that link each other keep each other.
-/

namespace ResponseGraph

open Relation (ReflTransGen)

namespace Nodes

/-! ## What goes and what remains -/

/-- If these are gone, none of the others has to go. -/
structure Falls (nodes : Nodes) (candidate gone : NodeId → Prop) : Prop where
  orphaned : ∀ id, candidate id → nodes.Has id → nodes.links .inbound id = [] → gone id
  unsupported : ∀ id, nodes.links .inbound id ≠ [] →
    (∀ link ∈ nodes.links .inbound id, gone link.node) → gone id

/-- Nodes without those that are gone: the others keep everything but the links from them. -/
def Remains (nodes later : Nodes) : Prop := ∀ id node, later id = some node →
  ∃ old, nodes id = some old ∧
    node = { old with inbound := old.inbound.filter fun link => (later link.node).isSome }

variable {nodes later : Nodes} {candidate gone : NodeId → Prop} {waiting : List NodeId}
  {id : NodeId} {link : Link}

theorem Remains.has (h : Remains nodes later) (has : later.Has id) : nodes.Has id := by
  obtain ⟨node, found⟩ := Option.isSome_iff_exists.mp has
  obtain ⟨old, present, -⟩ := h id node found
  exact has_of_some present

/-- It is enough to know which nodes are gone. -/
theorem Remains.ext {other : Nodes} (h : Remains nodes later) (h' : Remains nodes other)
    (same : ∀ id, later.Has id ↔ other.Has id) : later = other := by
  have sources : (fun link : Link => (later link.node).isSome) =
      fun link => (other link.node).isSome :=
    funext fun link => Bool.eq_iff_iff.mpr (same link.node)
  funext id
  cases found : later id with
  | none =>
    refine (Option.not_isSome_iff_eq_none.mp fun has => ?_).symm
    have there := (same id).mpr has
    rw [Has, found] at there
    cases there
  | some node =>
    obtain ⟨node', found'⟩ := Option.isSome_iff_exists.mp ((same id).mp (has_of_some found))
    obtain ⟨old, present, rfl⟩ := h id node found
    obtain ⟨old', present', rfl⟩ := h' id node' found'
    rw [present, Option.some.injEq] at present'
    rw [found', ← present', sources]

/-! ## Links that agree at both ends -/

theorem Mirrored.answered (h : Mirrored nodes) : Answered nodes :=
  fun container target path => (h container target path).mp

/-- Every inbound link comes from a node, and goes with it. -/
theorem Mirrored.released_iff (h : Mirrored nodes) (member : link ∈ nodes.links .inbound id) :
    Released nodes gone id link ↔ gone link.node :=
  and_iff_left ((h link.node id link.path).mpr member)

theorem Mirrored.sheds_iff (h : Mirrored nodes) :
    Sheds nodes candidate gone ↔ Falls nodes candidate gone := by
  constructor
  · rintro ⟨orphaned, released⟩
    refine ⟨orphaned, fun id some all => released id some fun link member => ?_⟩
    exact (h.released_iff member).mpr (all link member)
  · rintro ⟨orphaned, unsupported⟩
    refine ⟨orphaned, fun id some all => unsupported id some fun link member => ?_⟩
    exact (h.released_iff member).mp (all link member)

theorem Shedding.remains (h : Shedding nodes candidate later waiting) (mirrored : Mirrored nodes) :
    Remains nodes later := by
  intro id node found
  obtain ⟨old, present, rfl⟩ := h.left id node found
  refine ⟨old, present, ?_⟩
  congr 1
  refine List.filter_congr fun link member => ?_
  have inbound : link ∈ nodes.links .inbound id := by
    rw [links_of_some present]
    exact member
  have source : nodes.Has link.node := has_of_mem ((mirrored _ _ _).mpr inbound)
  rw [Bool.eq_iff_iff, decide_eq_true_iff, mirrored.released_iff inbound]
  show ¬ Loses nodes later link.node ↔ later.Has link.node
  unfold Loses
  rw [and_iff_right source, not_not]

end Nodes

open Nodes

/-! ## Steps of a collection -/

/-- A draft, and the ids still to be looked at. -/
structure Collecting where
  draft : Draft
  waiting : List NodeId

namespace Collecting

/-- Any waiting id is looked at, and its node removed if it has no inbound links. -/
inductive Step : Collecting → Collecting → Prop
  | skip {draft : Draft} {id : NodeId} (before after : List NodeId)
    (stays : Nodes.Has draft.node? id → Nodes.links draft.node? .inbound id ≠ []) :
    Step ⟨draft, before ++ id :: after⟩ ⟨draft, before ++ after⟩
  | remove {draft : Draft} {id : NodeId} {node : Node} (before after : List NodeId)
    (found : draft.node? id = some node) (orphan : node.inbound = []) :
    Step ⟨draft, before ++ id :: after⟩
      ⟨((draft.remove id).release id (before ++ after) node.outbound).1,
        ((draft.remove id).release id (before ++ after) node.outbound).2⟩

/-- A bound for the number of steps. -/
def work (state : Collecting) : Nat := state.waiting.length + state.draft.outboundCount

variable {state next : Collecting}

theorem Step.work_lt (h : Step state next) : next.work < state.work := by
  cases h with
  | skip before after stays =>
    simp only [work, List.length_append, List.length_cons]
    omega
  | remove before after found orphan =>
    have left := Draft.length_removed_le found (before ++ after)
    simp only [work, List.length_append, List.length_cons] at left ⊢
    omega

/-- There is no endless collection. -/
theorem acc_step (state : Collecting) : Acc (fun next state => Step state next) state :=
  Subrelation.accessible (fun step => Step.work_lt step)
    ((InvImage.wf work Nat.lt_wfRel.wf).apply state)

/-- As long as an id is waiting there is a step. -/
theorem exists_step (some : state.waiting ≠ []) : ∃ next, Step state next := by
  obtain ⟨draft, waiting⟩ := state
  obtain ⟨id, rest, rfl⟩ := List.exists_cons_of_ne_nil some
  cases found : draft.node? id with
  | none =>
    refine ⟨_, .skip [] rest fun has => ?_⟩
    rw [Has, found] at has
    cases has
  | some node =>
    by_cases orphan : node.inbound = []
    · exact ⟨_, .remove [] rest found orphan⟩
    · refine ⟨_, .skip [] rest fun _ => ?_⟩
      rw [links_of_some found]
      exact orphan

/-- To collect is to run the list empty, each time with its first id. -/
theorem steps_collectFrom {bound : Nat} {draft : Draft} {stack : List NodeId}
    (enough : stack.length + draft.outboundCount ≤ bound) :
    ReflTransGen Step ⟨draft, stack⟩ ⟨draft.collectFrom bound stack, []⟩ := by
  induction bound generalizing draft stack with
  | zero =>
    have empty : stack = [] := List.length_eq_zero_iff.mp (by omega)
    subst empty
    exact .refl
  | succ bound ih =>
    cases stack with
    | nil => exact .refl
    | cons id stack =>
      rw [List.length_cons] at enough
      rw [Draft.collectFrom]
      split
      · next missing =>
        have later := @ih draft stack (by omega)
        refine .head (.skip [] stack fun has => ?_) later
        rw [Has, missing] at has
        cases has
      · next node found =>
        split
        · next orphan =>
          have left := Draft.length_removed_le found stack
          have later := @ih ((draft.remove id).release id stack node.outbound).1
            ((draft.remove id).release id stack node.outbound).2 (by omega)
          exact .head (.remove [] stack found (List.isEmpty_iff.mp orphan)) later
        · next anchored =>
          have later := @ih draft stack (by omega)
          refine .head (.skip [] stack fun _ => ?_) later
          rw [links_of_some found]
          exact fun empty => anchored (List.isEmpty_iff.mpr empty)

/-! ## Runs -/

/-- Nodes are shed, and exactly those that are gone were counted as edited. -/
structure Sinks (start : Draft) (candidate : NodeId → Prop) (state : Collecting) : Prop where
  mirrored : Mirrored state.draft.node?
  shed : Shedding start.node? candidate state.draft.node? state.waiting
  edited : ∀ id, state.draft.edited.contains id ↔
    start.edited.contains id ∨ Loses start.node? state.draft.node? id

variable {start : Draft} {candidate : NodeId → Prop}

theorem sinks_start (mirrored : Mirrored start.node?) {ids : List NodeId}
    (all : ∀ id, id ∈ ids ↔ candidate id) :
    Sinks start candidate ⟨{ start with orphans := Table.empty }, ids⟩ :=
  ⟨mirrored, .start _ all, fun _ => (or_iff_left fun lost => lost.2 lost.1).symm⟩

theorem Sinks.step (mirrored : Mirrored start.node?) (h : Sinks start candidate state)
    (step : Step state next) : Sinks start candidate next := by
  cases step with
  | @skip draft id before after stays =>
    have front := h.shed.wait fun _ => List.perm_middle.mem_iff
    exact ⟨h.mirrored, front.skip stays, h.edited⟩
  | @remove draft id node before after found orphan =>
    have has : Nodes.Has draft.node? id := has_of_some found
    have empty : Nodes.links draft.node? .inbound id = [] := by
      rw [links_of_some found]
      exact orphan
    have front := h.shed.wait fun _ => List.perm_middle.mem_iff
    have gone := front.collected mirrored.answered empty (Draft.removal found (before ++ after))
    have nodes := Draft.nodes_collected found (before ++ after)
    refine ⟨?_, ?_, fun other => ?_⟩
    · dsimp only
      rw [nodes]
      exact h.mirrored.collected empty
    · dsimp only
      rw [nodes]
      exact gone
    · have counted := h.edited other
      dsimp only at counted ⊢
      rw [Draft.edited_release, nodes, h.shed.loses_collected has]
      show (draft.edited.add id).contains other = true ↔ _
      rw [NameSet.contains_add, Bool.or_eq_true, decide_eq_true_iff, counted]
      exact or_comm.trans or_assoc

theorem Sinks.run (mirrored : Mirrored start.node?) (h : Sinks start candidate state)
    (steps : ReflTransGen Step state next) : Sinks start candidate next := by
  induction steps with
  | refl => exact h
  | tail _ step ih => exact ih.step mirrored step

end Collecting

/-! ## The result -/

/-- `final` is `start` without the least set of nodes that have to go. -/
structure Draft.Relieved (candidate : NodeId → Prop) (start final : Draft) : Prop where
  falls : Falls start.node? candidate (Loses start.node? final.node?)
  least : ∀ gone, Falls start.node? candidate gone →
    ∀ id, Loses start.node? final.node? id → gone id
  remains : Remains start.node? final.node?
  verified : final.graph.verify = .ok ()
  edited : ∀ id, final.edited.contains id ↔
    start.edited.contains id ∨ Loses start.node? final.node? id

theorem Draft.mirrored_of_verify {draft : Draft} (verified : draft.graph.verify = .ok ()) :
    Mirrored draft.node? := by
  have mirrored := Graph.verify_eq_ok.mp verified
  rwa [funext (node?_graph draft)] at mirrored

theorem Collecting.Sinks.relieved {start final : Draft} {candidate : NodeId → Prop}
    (mirrored : Mirrored start.node?) (h : Sinks start candidate ⟨final, []⟩) :
    start.Relieved candidate final where
  falls := mirrored.sheds_iff.mp h.shed.sheds
  least gone falls := h.shed.least gone (mirrored.sheds_iff.mpr falls)
  remains := h.shed.remains mirrored
  verified := Graph.verify_eq_ok.mpr (by
    rw [funext (Draft.node?_graph final)]
    exact h.mirrored)
  edited := h.edited

namespace Draft

variable {start final other : Draft} {candidate : NodeId → Prop}

theorem Relieved.has (h : start.Relieved candidate final) (h' : start.Relieved candidate other)
    {id : NodeId} (has : Nodes.Has final.node? id) : Nodes.Has other.node? id := by
  by_contra lost
  exact (h'.least _ h.falls id ⟨h.remains.has has, lost⟩).2 has

/-- There is one way to be relieved. -/
theorem Relieved.nodes_eq (h : start.Relieved candidate final)
    (h' : start.Relieved candidate other) : final.node? = other.node? :=
  h.remains.ext h'.remains fun _ => ⟨h.has h', h'.has h⟩

/-- The orphans of a draft whose links agree are collected together with all that loses its
support, and with nothing else.  Whatever the order in which the orphans are listed and in
which waiting ids are looked at, the collection ends, and it ends like `collectOrphans`. -/
theorem relieved_collectOrphans {draft : Draft} (verified : draft.graph.verify = .ok ()) :
    draft.Relieved (fun id => draft.orphans.contains id) draft.collectOrphans ∧
      ∀ ids : List NodeId, (∀ id, id ∈ ids ↔ draft.orphans.contains id) →
        Acc (fun next state => Collecting.Step state next)
          ⟨{ draft with orphans := Table.empty }, ids⟩ ∧
        ∀ state, ReflTransGen Collecting.Step ⟨{ draft with orphans := Table.empty }, ids⟩ state →
          if state.waiting = [] then
            state.draft.node? = draft.collectOrphans.node? ∧
              draft.Relieved (fun id => draft.orphans.contains id) state.draft
          else ∃ next, Collecting.Step state next := by
  have mirrored := mirrored_of_verify verified
  have run {ids : List NodeId} (all : ∀ id, id ∈ ids ↔ draft.orphans.contains id)
      {final : Draft} (steps : ReflTransGen Collecting.Step
        ⟨{ draft with orphans := Table.empty }, ids⟩ ⟨final, []⟩) :
      draft.Relieved (fun id => draft.orphans.contains id) final := by
    exact ((Collecting.sinks_start mirrored all).run mirrored steps).relieved mirrored
  have queued (id : NodeId) : id ∈ draft.orphans.keys.reverse ↔ draft.orphans.contains id :=
    List.mem_reverse.trans Table.mem_keys_iff
  have collected := run queued (Collecting.steps_collectFrom (Nat.le_refl _))
  refine ⟨collected, fun ids all => ⟨Collecting.acc_step _, fun state steps => ?_⟩⟩
  split
  · next empty =>
    obtain ⟨final, waiting⟩ := state
    subst empty
    have relieved := run all steps
    exact ⟨relieved.nodes_eq collected, relieved⟩
  · next waits => exact Collecting.exists_step waits

/-- `2` and `3` keep each other when `1` goes, and `2` keeps `5` when `4` goes after `1`.  The
candidate `7` is linked, the candidate `9` does not exist, and `6` is no candidate. -/
theorem relieved_collectOrphans_cycle :
    ∃ draft : Draft, draft.graph.verify = .ok () ∧ draft.orphans.keys = ["1", "7", "9"] ∧
      draft.Relieved (fun id => draft.orphans.contains id) draft.collectOrphans ∧
      ["1", "2", "3", "4", "5", "6", "7"].filter
        (fun id => (draft.collectOrphans.node? id).isNone) = ["1", "4"] ∧
      Nodes.links draft.collectOrphans.node? .inbound "5" = [⟨"2", [.key "z"]⟩] := by
  let node (inbound outbound : List (NodeId × String)) : Node :=
    let links (ends : List (NodeId × String)) : List Link :=
      ends.map fun (id, name) => ⟨id, [.key name]⟩
    ⟨.entity, links inbound, links outbound, none⟩
  let draft : Draft :=
    { ofGraph (Table.ofList [("1", node [] [("2", "a"), ("3", "b"), ("4", "c")]),
        ("2", node [("1", "a"), ("3", "x")] [("3", "y"), ("5", "z")]),
        ("3", node [("1", "b"), ("2", "y")] [("2", "x")]),
        ("4", node [("1", "c")] [("5", "d"), ("5", "e")]),
        ("5", node [("4", "d"), ("2", "z"), ("4", "e")] []),
        ("6", node [] [("7", "f")]), ("7", node [("6", "f")] [])]) with
      orphans := NameSet.ofList ["1", "7", "9"] }
  have verified : draft.graph.verify = .ok () := eq_ok_of_toBool (by decide +kernel)
  exact ⟨draft, verified, by decide +kernel, (relieved_collectOrphans verified).1,
    by decide +kernel, by decide +kernel⟩

end Draft
end ResponseGraph
