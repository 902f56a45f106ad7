import ResponseGraph.Proofs.Field.Prepared
import ResponseGraph.Proofs.Graph.References
import ResponseGraph.Proofs.Payload.ReadBack

/-!
Queries that are read back.

Nothing ever refers to the root of queries if no entity has its id, so it is never
collected, nor is anything that a query stores below it.  After a clean write the selection
of the query gives back the payload, whatever was written before.
-/

namespace ResponseGraph

open NodeId

/-- The payload is clean and belongs to the root of queries, which is the id of no entity. -/
structure Registered.CleanQuery (entry : Registered) (cache : Cache) (graph : Graph)
    (payload : Json) : Prop where
  clean : entry.Clean cache graph payload
  query : entry.operation.root = queryRoot
  distinct : Visit.Distinct queryRoot (entry.visits cache payload)

instance (entry : Registered) (cache : Cache) (graph : Graph) (payload : Json) :
    Decidable (entry.CleanQuery cache graph payload) :=
  decidable_of_iff
    (entry.Clean cache graph payload ∧ entry.operation.root = queryRoot ∧
      Visit.Distinct queryRoot (entry.visits cache payload))
    ⟨fun ⟨clean, query, distinct⟩ => ⟨clean, query, distinct⟩,
      fun query => ⟨query.clean, query.query, query.distinct⟩⟩

/-- Every object below the root is an entity or has a field that is stored in it. -/
def Registered.anchored (entry : Registered) (cache : Cache) : Json → Bool
  | .object members =>
    Fields.anchored cache.identity.nonempty members entry.operation.selection.fields
  | _ => true

/-- What the selection of an operation keeps of a payload. -/
def Operation.cut (operation : Operation) (payload : Json) : Json :=
  payload.cut fun members => Fields.cut members operation.selection.fields

namespace Graph

/-- What the selection of an operation reads in a graph. -/
def follow (graph : Graph) (operation : Operation) : Option Json :=
  (Fields.follow graph.node? (.root operation.root) operation.selection.fields).map .object

/-- Clean queries have left a graph to whose root nothing refers. -/
structure Queried (graph : Graph) : Prop where
  faithful : graph.Faithful
  aloof : Nodes.Aloof queryRoot graph.node?

theorem queried_empty : Queried empty :=
  ⟨faithful_empty, fun _ _ member => absurd member List.not_mem_nil⟩

variable {graph : Graph} {cache : Cache} {request : Request} {payload : Json} {entry : Registered}
  {outcome : Outcome}

/-- Nothing refers to the root at which a query starts. -/
theorem Queried.moored (queried : graph.Queried) :
    Walk.Moored queryRoot graph.node? (.ofDraft (.ofGraph graph))
      [.brought (.root queryRoot) .object] := by
  have start : Walk.Linked (Draft.node? (.ofGraph graph)) (.ofDraft (.ofGraph graph))
      [.brought (.root queryRoot) .object] :=
    .start queried.faithful.sound queried.faithful.rooted queried.faithful.linked whole_queryRoot
  exact .start start (Draft.aloof_ofGraph queried.aloof)

/-- What is known of the draft after a clean query was merged. -/
theorem Queried.merge {batch : Batch} {warnings : List String} (queried : graph.Queried)
    (clean : entry.CleanQuery cache graph payload)
    (merged : (Batch.ofGraph graph).merge cache entry payload = .ok (batch, warnings)) :
    ∃ members walk seen, payload = .object members ∧ batch.draft = walk.finish ∧
      Traced cache.identity.nonempty (entry.visits cache payload)
        (.ofDraft (.ofGraph graph)) [.brought (.root entry.operation.root) .object] walk seen ∧
      seen ⊆ entry.visits cache payload ∧
      Walked seen (Fields.visits false cache.identity.nonempty (.root entry.operation.root) members
        entry.operation.selection.fields) ∧
      walk.Moored queryRoot graph.node? seen := by
  obtain ⟨members, walk, seen, object, finished, traced, within, walked, -⟩ :=
    Batch.merge_clean queried.faithful clean.clean merged
  refine ⟨members, walk, seen, object, finished, traced, within, walked, ?_⟩
  rw [clean.query] at traced
  exact traced.run.moored clean.clean.unnamed (by decide +kernel) (clean.clean.plain.2.mono within)
    (clean.distinct.mono within) (clean.clean.consistent.mono within)
    ((clean.clean.bareOf queried.faithful.sound).mono within) queried.moored

/-- A clean query leaves its root as it is, and stores what was seen of the payload. -/
theorem Queried.write (queried : graph.Queried) (prepared : (cache.prepare request).2 = .ok entry)
    (clean : entry.CleanQuery cache graph payload)
    (written : (cache.write graph request payload).2.2 = .ok outcome) :
    outcome.commit.graph.Queried ∧
      (entry.operation.Labelled →
        Stored queryRoot outcome.commit.graph.node? (entry.visits cache payload)) := by
  have faithful := queried.faithful.write prepared clean.clean written
  obtain ⟨batch, warnings, merged, committed⟩ := Cache.write_eq_ok prepared written
  obtain ⟨members, walk, seen, rfl, finished, traced, within, walked, moored⟩ :=
    queried.merge clean merged
  have consistent := clean.clean.consistent
  have nodes : outcome.commit.graph.node? = walk.finish.node? := by
    rw [Batch.nodes_commit clean.clean.untransformed committed, finished]
  obtain ⟨aloof, held⟩ := moored.finish (consistent.mono within)
  rw [← nodes] at aloof held
  have agrees : ∀ site other content, .brought site other ∈ seen →
      .brought site content ∈ entry.visits cache (.object members) → other.agrees content :=
    fun site other content here => consistent site other content (within here)
  refine ⟨⟨faithful, aloof⟩, fun ⟨labels, known⟩ => ⟨fun site content member => ?_,
    fun id member other => ?_, clean.distinct⟩⟩
  · obtain ⟨found, here, same⟩ := traced.covers within walked agrees known.proper.known member
    exact (held site found here).1.of_agrees same
  · obtain ⟨found, here, -⟩ := traced.covers within walked agrees known.proper.known member
    exact (held (.root id) found here).2 other

namespace ReachedBy

theorem queried (h : ReachedBy Registered.CleanQuery graph) : graph.Queried := by
  induction h with
  | empty => exact queried_empty
  | write _ prepared clean written ih => exact (ih.write prepared clean written).1

/-- What a clean query wrote is read back by its selection. -/
theorem reads_back (h : ReachedBy Registered.CleanQuery graph) (grown : cache.registry.Grown)
    (prepared : (cache.prepare request).2 = .ok entry)
    (clean : entry.CleanQuery cache graph payload) (anchored : entry.anchored cache payload)
    (written : (cache.write graph request payload).2.2 = .ok outcome) :
    ∃ result, outcome.commit.graph.follow entry.operation = some result ∧
      result.same (entry.operation.cut payload) := by
  obtain ⟨labels, known⟩ := grown.known prepared
  have stored := (h.queried.write prepared clean written).2 ⟨labels, known⟩
  obtain ⟨batch, warnings, merged, -⟩ := Cache.write_eq_ok prepared written
  obtain ⟨members, walk, seen, rfl, -⟩ := Draft.merge_traced (Batch.draft_merge merged)
  obtain ⟨result, followed, same⟩ := Fields.follow_stored entry.operation.selection.fields
    (.root entry.operation.root) members ⟨known.proper.names, known.proper.known⟩
    (stored.mono fun _ member => List.mem_cons_of_mem _ member) anchored
  exact ⟨.object result, congrArg (Option.map Json.object) followed, same⟩

/-- The second of two clean queries renames one friend, drops another, and says nothing of the
nick, which is then read as null. -/
theorem reads_back_after_two_writes :
    ∃ (graph graph' : Graph) (entry : Registered) (payload result : Json),
      ReachedBy Registered.CleanQuery graph ∧ ReachedBy Registered.CleanQuery graph' ∧
      graph'.follow entry.operation = some result ∧
      result.same (entry.operation.cut payload) ∧
      (entry.operation.cut payload).same (.object [
        ("me", .object [("id", .string "1"), ("nick", .null),
          ("friends", .array [.object [("id", .string "3"), ("name", .string "d")]])]),
        ("photo", .object [("url", .string "y")])]) := by
  let cache := Cache.new .default
  let request := Request.query
    "\x7b me: viewer \x7b id nick friends \x7b id name \x7d \x7d photo(size: 1) \x7b url \x7d \x7d"
  let friend (id name : String) := Json.object [("id", .string id), ("name", .string name)]
  let payload (me : List (String × Json)) (url : String) := Json.object
    [("me", .object (("id", .string "1") :: me)), ("photo", .object [("url", .string url)])]
  let first := payload [("nick", .string "a"),
    ("friends", .array [friend "2" "b", friend "3" "c"])] "x"
  let second := payload [("friends", .array [friend "3" "d"])] "y"
  let kept := Json.object [
    ("me", .object [("id", .string "1"), ("nick", .null),
      ("friends", .array [.object [("id", .string "3"), ("name", .string "d")]])]),
    ("photo", .object [("url", .string "y")])]
  let again (graph : Graph) := cache.test request second
    (fun entry => decide (entry.CleanQuery cache graph second) && entry.anchored cache second &&
      (entry.operation.cut second).same kept) (fun _ => true) graph
  have test : cache.test request first
      (fun entry => decide (entry.CleanQuery cache .empty first)) again .empty := by
    decide +kernel
  obtain ⟨entry, outcome, prepared, clean, written, test⟩ := Cache.exists_of_test test
  have reached := ReachedBy.write .empty prepared (of_decide_eq_true clean) written
  obtain ⟨entry', outcome', prepared', checked, written', -⟩ := Cache.exists_of_test test
  rw [Bool.and_eq_true, Bool.and_eq_true] at checked
  obtain ⟨⟨clean', anchored⟩, same⟩ := checked
  obtain ⟨result, followed, back⟩ :=
    reached.reads_back .empty prepared' (of_decide_eq_true clean') anchored written'
  exact ⟨_, _, entry', second, result, reached,
    reached.write prepared' (of_decide_eq_true clean') written', followed, back, same⟩

end ReachedBy
end Graph
end ResponseGraph
