import ResponseGraph.Proofs.Field.Prepared
import ResponseGraph.Proofs.Graph.Leftover
import ResponseGraph.Proofs.Payload.Beside
import ResponseGraph.Proofs.Payload.Furnished

/-!
What is stored for objects and lists.

After a query whose payload says one thing about each place, a reader finds a value wherever the
payload has a list or an entity.  Where it has an object without an id he finds one unless
nothing was stored there and nothing else than such objects is below: then the place is left
as it was, and if it was null, the object is read as null.
-/

namespace ResponseGraph

open Nodes NodeId Visit

/-- The payload is stored as it is, belongs to the root of queries, which is the id of no entity,
and says one thing about each place. -/
structure Registered.UnambiguousQuery (entry : Registered) (cache : Cache) (_graph : Graph)
    (payload : Json) : Prop where
  untransformed : cache.transform = none
  unnamed : cache.identity.nonempty .null = none
  query : entry.ConsistentQuery cache payload
  distinct : Visit.Distinct queryRoot (entry.visits cache payload)

instance (entry : Registered) (cache : Cache) (graph : Graph) (payload : Json) :
    Decidable (entry.UnambiguousQuery cache graph payload) :=
  decidable_of_iff
    (cache.transform.isNone ∧ cache.identity.nonempty .null = none ∧
      entry.ConsistentQuery cache payload ∧ Visit.Distinct queryRoot (entry.visits cache payload))
    ⟨fun ⟨untransformed, unnamed, query, distinct⟩ =>
        ⟨Option.isNone_iff_eq_none.mp untransformed, unnamed, query, distinct⟩,
      fun query => ⟨Option.isNone_iff_eq_none.mpr query.untransformed, query.unnamed, query.query,
        query.distinct⟩⟩

theorem Registered.UnambiguousQuery.conserving {entry : Registered} {cache : Cache} {graph : Graph}
    {payload : Json} (h : entry.UnambiguousQuery cache graph payload) :
    entry.ConservingQuery cache graph payload := by
  refine ⟨fun f given => ?_, h.query⟩
  rw [h.untransformed] at given
  cases given

namespace Graph

/-- Every reference is linked, and nothing refers to the root of queries. -/
structure Founded (graph : Graph) : Prop where
  kept : graph.Kept
  rooted : Nodes.Rooted graph.node?
  aloof : Nodes.Aloof queryRoot graph.node?

theorem founded_empty : Founded empty :=
  ⟨kept_empty, faithful_empty.rooted, fun _ _ member => absurd member List.not_mem_nil⟩

variable {graph : Graph} {cache : Cache} {request : Request} {payload : Json} {entry : Registered}
  {outcome : Outcome}

/-- What is known of the walk of an unambiguous query. -/
theorem Founded.merge {batch : Batch} {warnings : List String} (founded : graph.Founded)
    (query : entry.UnambiguousQuery cache graph payload)
    (merged : (Batch.ofGraph graph).merge cache entry payload = .ok (batch, warnings)) :
    ∃ members walk seen, payload = .object members ∧ batch.draft = walk.finish ∧
      Traced cache.identity.nonempty (entry.visits cache payload)
        (.ofDraft (.ofGraph graph)) [.brought (.root entry.operation.root) .object] walk seen ∧
      seen ⊆ entry.visits cache payload ∧
      Walked seen (Fields.visits false cache.identity.nonempty (.root entry.operation.root) members
        entry.operation.selection.fields) ∧
      walk.Furnished queryRoot graph.node? seen := by
  obtain ⟨members, walk, seen, rfl, finished, traced, within, walked⟩ :=
    Draft.merge_traced (Batch.draft_merge merged)
  refine ⟨members, walk, seen, rfl, finished, traced, within, walked, ?_⟩
  have start : Walk.Furnished queryRoot (Draft.node? (.ofGraph graph)) (.ofDraft (.ofGraph graph))
      [.brought (.root queryRoot) .object] :=
    .start founded.kept.sound founded.rooted whole_queryRoot founded.kept.backed
      founded.kept.attended (Draft.aloof_ofGraph founded.aloof)
  rw [query.query.query] at traced
  exact traced.run.furnished query.unnamed whole_queryRoot (query.query.named.mono within)
    (query.distinct.mono within) (query.query.consistent.mono within) start

theorem Founded.write (founded : graph.Founded)
    (prepared : (cache.prepare request).2 = .ok entry)
    (query : entry.UnambiguousQuery cache graph payload)
    (written : (cache.write graph request payload).2.2 = .ok outcome) :
    outcome.commit.graph.Founded := by
  have kept := founded.kept.write prepared query.conserving written
  obtain ⟨batch, warnings, merged, committed⟩ := Cache.write_eq_ok prepared written
  obtain ⟨members, walk, seen, rfl, finished, traced, within, walked, furnished⟩ :=
    founded.merge query merged
  have consistent := query.query.consistent.mono within
  refine ⟨kept, ?_, ?_⟩
  all_goals rw [Batch.nodes_commit query.untransformed committed, finished]
  · exact furnished.formed.rooted_finish
  · exact (furnished.tied.finish furnished.formed consistent (furnished.backed consistent)).1

namespace ReachedBy

theorem founded (h : ReachedBy Registered.UnambiguousQuery graph) : graph.Founded := by
  induction h with
  | empty => exact founded_empty
  | write _ prepared query written ih => exact ih.write prepared query written

/-- Wherever the payload of a query has an object or a list, something other than null is stored,
unless it is an object without an id where nothing was stored and nothing but such objects is
below. -/
theorem composite_is_stored (h : ReachedBy Registered.UnambiguousQuery graph)
    (grown : cache.registry.Grown) (prepared : (cache.prepare request).2 = .ok entry)
    (query : entry.UnambiguousQuery cache graph payload)
    (written : (cache.write graph request payload).2.2 = .ok outcome) {site : Site}
    {content : Content} (member : .brought site content ∈ entry.visits cache payload)
    (composite : content.Composite) :
    Walk.occupied (Nodes.read outcome.commit.graph.node? site.container site.path) ↔
      (content = .object → Hollow (entry.visits cache payload) site →
        Walk.occupied (Nodes.read graph.node? site.container site.path)) := by
  obtain ⟨batch, warnings, merged, committed⟩ := Cache.write_eq_ok prepared written
  obtain ⟨members, walk, seen, rfl, finished, traced, within, walked, furnished⟩ :=
    h.founded.merge query merged
  obtain ⟨labels, known⟩ := grown.known prepared
  have consistent := query.query.consistent
  have covers (site : Site) (content : Content)
      (member : .brought site content ∈ entry.visits cache (.object members)) :
      ∃ other, .brought site other ∈ seen ∧ other.agrees content :=
    traced.covers within walked (fun site other content here =>
      consistent site other content (within here)) known.proper.known member
  obtain ⟨other, here, same⟩ := covers site content member
  rw [Batch.nodes_commit query.untransformed committed, finished,
    furnished.occupied_iff (consistent.mono within) here (composite.of_agrees same),
    Content.object_iff_of_agrees same, hollow_iff within covers]

/-- A user was null.  An object without an id comes to its place, and all that it has is the value
of a field with arguments, so the user is still null.  A box comes with a list, and both are
stored. -/
theorem composite_is_stored_but_for_user :
    ∃ (graph graph' : Graph) (visits : List Visit), ReachedBy Registered.UnambiguousQuery graph ∧
      .brought ⟨queryRoot, [.key "user"]⟩ .object ∈ visits ∧
      ¬ Walk.occupied (Nodes.read graph'.node? queryRoot [.key "user"]) ∧
      Hollow visits ⟨queryRoot, [.key "user"]⟩ ∧
      Walk.occupied (Nodes.read graph'.node? queryRoot [.key "box"]) ∧
      Walk.occupied (Nodes.read graph'.node? queryRoot [.key "box", .key "tags"]) := by
  let cache := Cache.new .default
  let first := Request.query "\x7b user \x7b name \x7d \x7d"
  let second := Request.query
    "\x7b user \x7b posts(first: 1) \x7b total \x7d \x7d box \x7b tags \x7b name \x7d \x7d \x7d"
  let nobody := Json.object [("user", .null)]
  let payload := Json.object [
    ("user", .object [("posts", .object [("total", .number (.int 1))])]),
    ("box", .object [("tags", .array [])])]
  let site (path : List String) : Site := ⟨queryRoot, path.map .key⟩
  let brings (entry : Registered) (path : List String) (content : Content) :=
    (entry.visits cache payload).any (Visit.brings (site path) fun other => other.agrees content)
  let allowed (graph : Graph) (entry : Registered) :=
    decide (entry.UnambiguousQuery cache graph payload) && brings entry ["user"] .object &&
      brings entry ["box"] .object && brings entry ["box", "tags"] (.list 0)
  let missing (graph : Graph) :=
    !Walk.occupied (Nodes.read graph.node? queryRoot [.key "user"])
  have test : cache.test first nobody
      (fun entry => decide (entry.UnambiguousQuery cache .empty nobody))
      (fun graph => cache.test second payload (allowed graph) missing graph) .empty := by
    decide +kernel
  obtain ⟨entry, outcome, prepared, query, written, test⟩ := Cache.exists_of_test test
  obtain ⟨entry', outcome', prepared', checked, written', absent⟩ := Cache.exists_of_test test
  have reached := ReachedBy.write .empty prepared (of_decide_eq_true query) written
  simp only [allowed, Bool.and_eq_true] at checked
  obtain ⟨⟨⟨query', user⟩, box⟩, tags⟩ := checked
  have query' := of_decide_eq_true query'
  obtain ⟨content, user, same⟩ := exists_of_brings user
  obtain rfl := Content.eq_object_of_agrees same
  obtain ⟨content, box, same⟩ := exists_of_brings box
  obtain rfl := Content.eq_object_of_agrees same
  obtain ⟨content, tags, same⟩ := exists_of_brings tags
  obtain rfl := Content.eq_list_of_agrees same
  have stored {site : Site} {content : Content} (member) (composite) :=
    @composite_is_stored _ _ _ _ _ _ reached .empty prepared' query' written' site content member
      composite
  rw [Bool.not_eq_true', ← Bool.not_eq_true] at absent
  refine ⟨_, outcome'.commit.graph, entry'.visits cache payload, reached, user, absent, ?_, ?_,
    (stored tags trivial).mpr fun e => by cases e⟩
  · by_contra filled
    exact absent ((stored user trivial).mpr fun _ hollow => absurd hollow filled)
  · refine (stored box trivial).mpr fun _ hollow => ?_
    cases hollow (.key "tags") [] _ tags

end ReachedBy
end Graph
end ResponseGraph
