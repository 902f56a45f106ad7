import ResponseGraph.Proofs.Graph.ReadBack
import ResponseGraph.Proofs.Payload.Idle

/-!
Repeated writes.

A clean query leaves a graph that holds its payload.  So the same write finds nothing to do on
that graph, and its commit gives the very same nodes.
-/

namespace ResponseGraph

open NodeId

/-- Committing an untouched draft of a sound graph gives the graph, with nothing edited or
copied. -/
theorem Draft.commit_ofGraph {graph : Graph} (sound : graph.Sound)
    (transform : Option (Value → Value)) (frozen : Bool) :
    (ofGraph graph).commit transform frozen = .ok ⟨graph, Table.empty, Table.empty⟩ := by
  have start : Nodes.Sound (fun _ => False) (ofGraph graph).node? := sound
  obtain ⟨commit, done⟩ := Draft.exists_commit start transform frozen
  have own : (ofGraph graph).ownAncestors = ofGraph graph := by
    unfold ownAncestors
    exact ownAncestorsFrom_nil _ _ _
  rw [done, eq_committed done]
  unfold committed
  rw [own]
  rfl

namespace Cache

/-- The cache after a write has the registry that preparing the request has left. -/
theorem write_fst (cache : Cache) (graph : Graph) (request : Request) (payload : Json) :
    (cache.write graph request payload).1 = (cache.prepare request).1 := by
  unfold write
  split
  · next found => rw [found]
  · next found => rw [found]

/-- A request that was prepared is prepared to the same operation by the cache that it left. -/
theorem prepare_again {cache : Cache} {request : Request} {entry : Registered}
    (prepared : (cache.prepare request).2 = .ok entry) :
    ∃ later again, (cache.prepare request).1.prepare request = (later, .ok again) ∧
      again.operation = entry.operation ∧ later.identity = cache.identity := by
  have made : cache.registry.prepare cache.config request =
      ((cache.registry.prepare cache.config request).1, .ok entry) := Prod.ext rfl prepared
  obtain ⟨again, found, same⟩ := Registry.prepare_again made
  exact ⟨_, again, Prod.ext rfl found, same, rfl⟩

end Cache

namespace Graph

variable {graph : Graph} {cache : Cache} {request : Request} {payload : Json} {entry : Registered}
  {outcome : Outcome}

/-- Writing what a graph holds gives the graph. -/
theorem writeEntry_stored (sound : graph.Sound)
    (unnamed : cache.identity.nonempty .null = none)
    (stored : Stored queryRoot graph.node? (entry.visits cache payload))
    {members : List (String × Json)} (object : payload = .object members) :
    ∃ again, (cache.writeEntry graph entry payload).2 = .ok again ∧
      again.commit = ⟨graph, Table.empty, Table.empty⟩ := by
  subst object
  obtain ⟨warnings, merged⟩ := Draft.merge_stored unnamed sound whole_queryRoot stored
  have batched : (Batch.ofGraph graph).merge cache entry (.object members) =
      .ok (⟨.ofGraph graph, [entry], warnings⟩, warnings) := by
    unfold Batch.merge
    dsimp only [Batch.ofGraph]
    rw [merged]
    rfl
  unfold Cache.writeEntry
  rw [batched]
  unfold Batch.commit
  dsimp only
  rw [Draft.commit_ofGraph sound]
  exact ⟨_, rfl, rfl⟩

namespace ReachedBy

/-- The same clean query once more edits nothing, and every node is the very same. -/
theorem repeated_write_changes_nothing (h : ReachedBy Registered.CleanQuery graph)
    (grown : cache.registry.Grown) (prepared : (cache.prepare request).2 = .ok entry)
    (clean : entry.CleanQuery cache graph payload)
    (written : (cache.write graph request payload).2.2 = .ok outcome) :
    ∃ again, ((cache.write graph request payload).1.write outcome.commit.graph request
        payload).2.2 = .ok again ∧
      again.commit.graph = outcome.commit.graph ∧ again.commit.edited = Table.empty ∧
      again.commit.copied = Table.empty := by
  obtain ⟨queried, held⟩ := h.queried.write prepared clean written
  have stored := held (grown.known prepared)
  obtain ⟨batch, warnings, merged, -⟩ := Cache.write_eq_ok prepared written
  obtain ⟨members, -, -, object, -⟩ := Draft.merge_traced (Batch.draft_merge merged)
  obtain ⟨later, entry', prepared', operation, identity⟩ := Cache.prepare_again prepared
  have unnamed : later.identity.nonempty .null = none := identity ▸ clean.clean.unnamed
  have stored : Stored queryRoot outcome.commit.graph.node? (entry'.visits later payload) := by
    unfold Registered.visits
    rw [operation, identity]
    exact stored
  obtain ⟨again, done, commit⟩ :=
    writeEntry_stored queried.faithful.sound unnamed stored object
  refine ⟨again, ?_, by rw [commit], by rw [commit], by rw [commit]⟩
  rw [Cache.write_fst, Cache.write, prepared']
  exact done

/-- A list of friends takes the place of a longer one, and is written once more. -/
theorem repeated_write_changes_nothing_of_shorter_list :
    ∃ (graph : Graph) (cache : Cache) (request : Request) (payload : Json)
      (outcome again : Outcome), ReachedBy Registered.CleanQuery graph ∧
      graph.keys = ["1", "2", "3", "ROOT_QUERY", "ROOT_QUERY❖[\"photo\"]❖\x7b\"size\":1\x7d"] ∧
      (cache.write graph request payload).2.2 = .ok outcome ∧
      outcome.commit.graph.keys =
        ["1", "3", "ROOT_QUERY", "ROOT_QUERY❖[\"photo\"]❖\x7b\"size\":1\x7d"] ∧
      ((cache.write graph request payload).1.write outcome.commit.graph request
        payload).2.2 = .ok again ∧
      again.commit.graph = outcome.commit.graph ∧ again.commit.edited = Table.empty ∧
      again.commit.copied = Table.empty := by
  let cache := Cache.new .default
  let request := Request.query
    "\x7b viewer \x7b id nick friends \x7b id \x7d \x7d photo(size: 1) \x7b url \x7d \x7d"
  let payload (friends : List String) (url : String) := Json.object
    [("viewer", .object [("id", .string "1"), ("friends", .array (friends.map fun id =>
      .object [("id", .string id)]))]), ("photo", .object [("url", .string url)])]
  let photo := "ROOT_QUERY❖[\"photo\"]❖\x7b\"size\":1\x7d"
  let write (friends : List String) (url : String) (passes : Graph → Bool) (graph : Graph) :=
    cache.test request (payload friends url)
      (fun entry => decide (entry.CleanQuery cache graph (payload friends url))) passes graph
  have test : write ["2", "3"] "x" (fun graph =>
      decide (graph.keys = ["1", "2", "3", "ROOT_QUERY", photo]) &&
        write ["3"] "y" (fun graph => decide (graph.keys = ["1", "3", "ROOT_QUERY", photo]))
          graph) .empty := by
    decide +kernel
  obtain ⟨entry, first, prepared, clean, written, test⟩ := Cache.exists_of_test test
  obtain ⟨before, test⟩ := (Bool.and_eq_true _ _).mp test
  obtain ⟨entry', second, prepared', clean', written', after⟩ := Cache.exists_of_test test
  have reached := ReachedBy.write .empty prepared (of_decide_eq_true clean) written
  obtain ⟨again, done, same⟩ := reached.repeated_write_changes_nothing .empty prepared'
    (of_decide_eq_true clean') written'
  exact ⟨_, cache, request, payload ["3"] "y", second, again, reached, of_decide_eq_true before,
    written', of_decide_eq_true after, done, same⟩

end ReachedBy
end Graph
end ResponseGraph
