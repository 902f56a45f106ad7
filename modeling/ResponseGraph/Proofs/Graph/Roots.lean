import ResponseGraph.Proofs.Graph.Edited
import ResponseGraph.Proofs.Payload.Unreferred

/-!
Roots of writes.

A write may be rooted at any node, and no node is marked as the root of anything.  What keeps a
root is that nothing lost a reference to it.  A write that takes away the last reference to its
own root collects it, with whatever the same write has stored there.
-/

namespace ResponseGraph

open Nodes NodeId

variable {cache : Cache} {graph : Graph} {request : Request} {payload : Json} {entry : Registered}
  {outcome : Outcome}

/-- A write that stores something in its root keeps the root, unless the last reference to it is
gone: then a node or the payload has referred to the root, and in a graph that is reached nothing
refers to it afterwards. -/
theorem Cache.write_keeps_root (prepared : (cache.prepare request).2 = .ok entry)
    (written : (cache.write graph request payload).2.2 = .ok outcome)
    (stores : ∃ visit ∈ entry.visits cache payload, visit.StoresIn entry.operation.root) :
    outcome.commit.graph.contains entry.operation.root ∨
      ((∃ container path,
          ⟨entry.operation.root, path⟩ ∈ Nodes.links graph.node? .outbound container) ∨
        ∃ visit ∈ entry.visits cache payload, visit.Refers entry.operation.root) ∧
      (graph.Reached → entry.Plain cache payload → ∀ container path,
        ⟨entry.operation.root, path⟩ ∉
          Nodes.links outcome.commit.graph.node? .outbound container) := by
  obtain ⟨batch, warnings, merged, committed⟩ := Cache.write_eq_ok prepared written
  refine or_iff_not_imp_left.mpr fun gone => ⟨?_, fun reached plain container path member => ?_⟩
  · refine Classical.not_not.mp fun unreferred => gone ?_
    rw [not_or] at unreferred
    have aloof : Nodes.Aloof entry.operation.root graph.node? :=
      fun container path member => unreferred.1 ⟨container, path, member⟩
    rw [Batch.has_commit committed]
    exact Draft.has_root_merge (Draft.aloof_ofGraph aloof)
      (fun visit member refers => unreferred.2 ⟨visit, member, refers⟩) stores
      (Batch.draft_merge merged)
  · have sound := (Graph.Becomes.write prepared plain written).sound reached.sound
    exact gone (has_of_mem ((sound.mirrored _ _ _).mp member))

/-- Two users are friends, and a write rooted at one of them, whom only the other refers to,
gives her a name.  The other goes on referring to her. -/
theorem Cache.write_keeps_root_of_friend :
    ∃ (cache : Cache) (graph : Graph) (request : Request) (payload : Json) (outcome : Outcome),
      graph.Reached ∧ request.root = "1" ∧
      (cache.write graph request payload).2.2 = .ok outcome ∧
      outcome.commit.graph.contains "1" := by
  let cache := Cache.new .default
  let user (id : String) (members : List (String × Json)) :=
    Json.object (("id", .string id) :: members)
  let friends := Json.object [("me", user "2" [("friend", user "1" [])])]
  let first := Request.query "\x7b me \x7b id friend \x7b id \x7d \x7d \x7d"
  let request := Request.fragment "fragment Name on User \x7b name \x7d" "1"
  let payload := Json.object [("name", .string "x")]
  let stores (entry : Registered) := (entry.visits cache payload).any
    fun visit => decide (visit.StoresIn entry.operation.root)
  let again (graph : Graph) := cache.test request payload (fun entry =>
    decide (entry.operation.root = "1" ∧ entry.Plain cache payload) && stores entry)
    (fun graph => decide (⟨"1", [.key "friend"]⟩ ∈ Nodes.links graph.node? .outbound "2")) graph
  have test : cache.test first friends (fun entry => decide (entry.Plain cache friends)) again
      .empty := by
    decide +kernel
  obtain ⟨entry, start, prepared, plain, done, test⟩ := Cache.exists_of_test test
  have reached := Graph.Reached.step .empty (.write prepared (of_decide_eq_true plain) done)
  obtain ⟨entry', outcome, prepared', allowed, written, linked⟩ := Cache.exists_of_test test
  obtain ⟨holds, stored⟩ := (Bool.and_eq_true _ _).mp allowed
  obtain ⟨root, plain'⟩ := of_decide_eq_true holds
  obtain ⟨visit, member, stored⟩ := List.any_eq_true.mp stored
  have kept := Cache.write_keeps_root prepared' written
    ⟨visit, member, of_decide_eq_true stored⟩
  rw [root] at kept
  refine ⟨cache, _, request, payload, outcome, reached, rfl, written, kept.resolve_right ?_⟩
  exact fun lost => lost.2 reached plain' _ _ (of_decide_eq_true linked)

/-- A write rooted at a user, to whom only her best friend refers, stores her name, and brings the
best friend without a friend.  The last reference to her is gone, and so is she. -/
theorem Cache.root_collected_of_lost_friend :
    ∃ (cache : Cache) (graph : Graph) (request : Request) (payload : Json) (entry : Registered)
      (outcome : Outcome), cache.identity = Identity.byId ∧
      Graph.ReachedBy (fun _ cache _ _ => cache.identity = Identity.byId) graph ∧
      (graph.node? request.root).any Node.isEntity ∧
      (cache.prepare request).2 = .ok entry ∧ entry.operation.root = request.root ∧
      (cache.write graph request payload).2.2 = .ok outcome ∧
      (∃ visit ∈ entry.visits cache payload, visit.StoresIn entry.operation.root) ∧
      ¬ outcome.commit.graph.contains entry.operation.root := by
  let cache := Cache.new .default
  let user (id : String) (members : List (String × Json)) :=
    Json.object (("id", .string id) :: members)
  let friends := Json.object [("me", user "2" [("friend", user "1" [])])]
  let first := Request.query "\x7b me \x7b id friend \x7b id \x7d \x7d \x7d"
  let request := Request.fragment
    "fragment Best on User \x7b name best \x7b id friend \x7b id \x7d \x7d \x7d" "1"
  let payload := Json.object [("name", .string "x"), ("best", user "2" [("friend", .null)])]
  let stores (entry : Registered) := (entry.visits cache payload).any
    fun visit => decide (visit.StoresIn entry.operation.root)
  let again (graph : Graph) := (graph.node? request.root).any Node.isEntity &&
    cache.test request payload (fun entry => decide (entry.operation.root = "1") && stores entry)
      (fun graph => !graph.contains "1") graph
  have test : cache.test first friends (fun _ => true) again .empty := by
    decide +kernel
  obtain ⟨entry, start, prepared, -, done, test⟩ := Cache.exists_of_test test
  have reached : Graph.ReachedBy (fun _ cache _ _ => cache.identity = Identity.byId)
      start.commit.graph := .write .empty prepared rfl done
  obtain ⟨entity, test⟩ := (Bool.and_eq_true _ _).mp test
  obtain ⟨entry', outcome, prepared', allowed, written, gone⟩ := Cache.exists_of_test test
  obtain ⟨root, stored⟩ := (Bool.and_eq_true _ _).mp allowed
  have root := of_decide_eq_true root
  obtain ⟨visit, member, stored⟩ := List.any_eq_true.mp stored
  refine ⟨cache, _, request, payload, entry', outcome, rfl, reached, entity, prepared', root,
    written, ⟨visit, member, of_decide_eq_true stored⟩, ?_⟩
  rw [root]
  simpa using gone

end ResponseGraph
