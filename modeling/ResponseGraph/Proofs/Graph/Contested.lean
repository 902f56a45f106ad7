import ResponseGraph.Proofs.Graph.Frame
import ResponseGraph.Proofs.Graph.Visibility
import ResponseGraph.Proofs.Payload.Contested

/-!
Which of several fields prevails.

A query may ask for one field of the root under several names, and its payload may have different
entities there.  What is stored in the end is the last one that differs from what was stored
before the write.  So the last field prevails unless it repeats what was stored and another one
does not: then the other one prevails, though it comes earlier.
-/

namespace ResponseGraph

open Nodes NodeId Visit

/-- The payload belongs to the root of queries and names no entity like the root, or like the
value of a field with arguments. -/
structure Registered.DistinctQuery (entry : Registered) (cache : Cache) (_graph : Graph)
    (payload : Json) : Prop where
  query : entry.operation.root = queryRoot
  named : Named (entry.toured cache payload)
  distinct : Distinct queryRoot (entry.toured cache payload)

instance (entry : Registered) (cache : Cache) (graph : Graph) (payload : Json) :
    Decidable (entry.DistinctQuery cache graph payload) :=
  decidable_of_iff
    (entry.operation.root = queryRoot ∧ Named (entry.toured cache payload) ∧
      Distinct queryRoot (entry.toured cache payload))
    ⟨fun ⟨query, named, distinct⟩ => ⟨query, named, distinct⟩,
      fun query => ⟨query.query, query.named, query.distinct⟩⟩

/-- What the fields of the operation that are stored under one name refer to, in their order. -/
def Registered.choices (entry : Registered) (cache : Cache) (members : List (String × Json))
    (name : String) : List (Option NodeId) :=
  Fields.choices cache.identity.nonempty name members entry.operation.selection.fields

/-- All fields of the operation that are stored under the name have a selection, and a payload that
is null or an entity. -/
def Registered.Decides (entry : Registered) (cache : Cache) (members : List (String × Json))
    (name : String) : Prop :=
  ∀ field ∈ entry.operation.selection.fields, field.2.targets name field.1 →
    field.2.decides cache.identity.nonempty (payloadOf members field.1)

instance (entry : Registered) (cache : Cache) (members : List (String × Json)) (name : String) :
    Decidable (entry.Decides cache members name) := by
  unfold Registered.Decides
  infer_instance

/-- The tour comes to the member for the fields that decide it, in their order. -/
theorem Registered.DistinctQuery.chosen_toured {entry : Registered} {cache : Cache} {graph : Graph}
    {members : List (String × Json)} {name : String}
    (query : entry.DistinctQuery cache graph (.object members))
    (decides : entry.Decides cache members name) :
    (∀ visit ∈ entry.toured cache (.object members), visit.Minds queryRoot name) ∧
      chosen ⟨queryRoot, [.key name]⟩ (entry.toured cache (.object members)) =
        entry.choices cache members name := by
  have root : entry.toured cache (.object members) = (Fields.tour cache.identity.nonempty
      (.root queryRoot) members entry.operation.selection.fields []).1 := by
    rw [← query.query]
    rfl
  have foreign := query.distinct
  rw [root] at foreign ⊢
  exact Fields.chosen_tour whole_queryRoot _ _ foreign decides

namespace Graph

/-- The entity that the root of queries refers to under the name. -/
def referred (graph : Graph) (name : String) : Option NodeId :=
  Nodes.referred graph.node? queryRoot name

/-- Nothing refers to the root of queries, and no node links two entities from one path. -/
structure Outward (graph : Graph) : Prop where
  sound : graph.Sound
  aloof : Nodes.Aloof queryRoot graph.node?
  single : Nodes.Single graph.node?

theorem outward_empty : Outward empty :=
  ⟨sound_empty, fun _ _ member => absurd member List.not_mem_nil,
    fun _ _ _ _ _ _ member => absurd member List.not_mem_nil⟩

theorem Outward.start {graph : Graph} (outward : graph.Outward) :
    Walk.Sound (.ofDraft (.ofGraph graph)) [.brought (.root queryRoot) .object] := by
  have nodes : Nodes.Sound (fun _ => False) (Draft.node? (.ofGraph graph)) := outward.sound
  exact .start nodes whole_queryRoot

variable {graph : Graph} {cache : Cache} {request : Request} {payload : Json} {entry : Registered}
  {outcome : Outcome}

/-- What is known of the walk of a query. -/
theorem Outward.merge {batch : Batch} {warnings : List String} (outward : graph.Outward)
    (query : entry.DistinctQuery cache graph payload)
    (merged : (Batch.ofGraph graph).merge cache entry payload = .ok (batch, warnings)) :
    ∃ walk seen, batch.draft = walk.finish ∧
      Toured cache.identity.nonempty (entry.toured cache payload) (.ofDraft (.ofGraph graph))
        [.brought (.root queryRoot) .object] walk seen ∧
      Named seen ∧ walk.Sound seen ∧ walk.Tied queryRoot seen ∧
      Nodes.Single walk.draft.node? := by
  obtain ⟨walk, seen, finished, toured⟩ := Draft.merge_toured (Batch.draft_merge merged)
  change Toured _ (entry.toured cache payload) _ [.brought (.root entry.operation.root) .object]
    walk seen at toured
  rw [query.query] at toured
  have named := query.named.of_toured toured
  have start := outward.start
  have tied := toured.run.tied whole_queryRoot named (query.distinct.of_toured toured) start
    (.start (Draft.aloof_ofGraph outward.aloof))
  refine ⟨walk, seen, finished, toured, named, toured.run.sound named start, tied, ?_⟩
  exact outward.single.of_subset fun id path target whole =>
    (toured.run.mem_entity named start whole).mp

/-- Whatever a transformer does to the data, the links of the graph are those of the walk. -/
theorem Outward.write (outward : graph.Outward) (prepared : (cache.prepare request).2 = .ok entry)
    (query : entry.DistinctQuery cache graph payload)
    (written : (cache.write graph request payload).2.2 = .ok outcome) :
    outcome.commit.graph.Outward := by
  obtain ⟨batch, warnings, merged, committed⟩ := Cache.write_eq_ok prepared written
  obtain ⟨walk, seen, finished, -, -, sound, tied, single⟩ := outward.merge query merged
  have moored : Nodes.Moored queryRoot (· = queryRoot)
      (walk.draft.applyAll walk.changes).node? := fun id same => Or.inl same
  have aloof := (tied.aloof.applyAll tied.spares).collectOrphans sound.applyAll moored
  have only : Nodes.Single walk.finish.node? :=
    Draft.Single.collectOrphans (Draft.Single.applyAll sound.draft sound.applicable single)
  have links (direction : Direction) (id : NodeId) :
      Nodes.links outcome.commit.graph.node? direction id =
        Nodes.links walk.finish.node? direction id := by
    rw [Draft.eq_committed (Batch.commit_eq_ok committed), Draft.links_committed, finished]
  refine ⟨?_, fun container path member => ?_, only.of_subset fun id path target _ member => ?_⟩
  · have whole : batch.Sound := by
      unfold Batch.Sound
      rw [finished]
      exact sound.finish
    exact whole.commit committed
  · rw [links] at member
    exact aloof.1 container path member
  · rw [← links]
    exact member

namespace ReachedBy

theorem outward (h : ReachedBy Registered.DistinctQuery graph) : graph.Outward := by
  induction h with
  | empty => exact outward_empty
  | write _ prepared query written ih => exact ih.write prepared query written

/-- If null or entities come to a member of the root, the last of them that differs from what was
referred to before is stored, and it is the only entity that is linked there.  Nothing changes if
none differs.  So it is the last of all that prevails, unless it repeats what was there and another
one does not. -/
theorem last_difference_prevails (h : ReachedBy Registered.DistinctQuery graph)
    (untransformed : cache.transform = none) (unnamed : cache.identity.nonempty .null = none)
    {members : List (String × Json)} (prepared : (cache.prepare request).2 = .ok entry)
    (query : entry.DistinctQuery cache graph (.object members))
    (written : (cache.write graph request (.object members)).2.2 = .ok outcome) {name : String}
    (decides : entry.Decides cache members name) (decided : entry.choices cache members name ≠ []) :
    Nodes.read outcome.commit.graph.node? queryRoot [.key name] =
        some (.referring (prevailing (graph.referred name) (entry.choices cache members name))) ∧
      (∀ target, Whole target →
        (⟨target, [.key name]⟩ ∈ Nodes.links outcome.commit.graph.node? .outbound queryRoot ↔
          if ∀ next ∈ entry.choices cache members name, next = graph.referred name then
            ⟨target, [.key name]⟩ ∈ Nodes.links graph.node? .outbound queryRoot
          else prevailing (graph.referred name) (entry.choices cache members name) =
            some target)) ∧
      ∀ last, (entry.choices cache members name).getLast? = some last →
        (prevailing (graph.referred name) (entry.choices cache members name) = last ↔
          last ≠ graph.referred name ∨
            ∀ next ∈ entry.choices cache members name, next = graph.referred name) := by
  have outward := h.outward
  obtain ⟨batch, warnings, merged, committed⟩ := Cache.write_eq_ok prepared written
  obtain ⟨walk, seen, finished, toured, named, sound, tied, single⟩ := outward.merge query merged
  have start := outward.start
  obtain ⟨minds, choices⟩ := query.chosen_toured decides
  have standing := toured.run.standing named start unnamed (minds_of_toured minds toured)
    (.start (.ofGraph graph) queryRoot name)
  have order : (chosen ⟨queryRoot, [.key name]⟩ seen).reverse =
      entry.choices cache members name := by
    have nothing : chosen ⟨queryRoot, [.key name]⟩ [.brought (.root queryRoot) .object] = [] :=
      chosen_cons_none (chooses_eq_none rfl _ _) []
    rw [toured.order, choices, nothing, List.append_nil, List.reverse_reverse]
  obtain ⟨stored, linked⟩ := standing.applyAll sound single order decided
  have has : Nodes.Has walk.finish.node? queryRoot :=
    (tied.aloof.applyAll tied.spares).has_collectOrphans (has_of_read stored)
  have nodes : outcome.commit.graph.node? =
      (walk.draft.applyAll walk.changes).collectOrphans.node? := by
    rw [Batch.nodes_commit untransformed committed, finished]
    rfl
  rw [nodes, Draft.read_collectOrphans _ has, Draft.outbound_collectOrphans _ has]
  refine ⟨stored, fun target given => ?_, fun last => prevailing_eq_iff⟩
  rw [linked target given, toured.run.mem_entity named start given]
  rfl

/-- The first user was viewer and owner.  A second one comes as viewer and then the first one again,
and so the second one stays.  A third one comes as owner and then a fourth one, and so the fourth
one stays. -/
theorem last_difference_prevails_of_viewer :
    ∃ (graph graph' : Graph), ReachedBy Registered.DistinctQuery graph ∧
      graph.referred "viewer" = some "1" ∧ graph.referred "owner" = some "1" ∧
      Nodes.read graph'.node? queryRoot [.key "viewer"] = some (.reference "2") ∧
      ⟨"1", [.key "viewer"]⟩ ∉ Nodes.links graph'.node? .outbound queryRoot ∧
      Nodes.read graph'.node? queryRoot [.key "owner"] = some (.reference "4") ∧
      ⟨"3", [.key "owner"]⟩ ∉ Nodes.links graph'.node? .outbound queryRoot := by
  let cache := Cache.new .default
  let first := Request.query "\x7b viewer \x7b id \x7d owner \x7b id \x7d \x7d"
  let second := Request.query "\x7b a: viewer \x7b id \x7d b: viewer \x7b id \x7d
    c: owner \x7b id \x7d d: owner \x7b id \x7d \x7d"
  let user (id : String) := Json.object [("id", .string id)]
  let before := Json.object [("viewer", user "1"), ("owner", user "1")]
  let members := [("a", user "2"), ("b", user "1"), ("c", user "3"), ("d", user "4")]
  let after := Json.object members
  let chooses (entry : Registered) (name : String) (choices : List (Option NodeId)) :=
    decide (entry.Decides cache members name ∧ entry.choices cache members name = choices)
  let allowed (graph : Graph) (entry : Registered) :=
    decide (entry.DistinctQuery cache graph after) &&
      chooses entry "viewer" [some "2", some "1"] && chooses entry "owner" [some "3", some "4"]
  let one (graph : Graph) :=
    decide (graph.referred "viewer" = some "1" ∧ graph.referred "owner" = some "1")
  have test : cache.test first before
      (fun entry => decide (entry.DistinctQuery cache .empty before))
      (fun graph => one graph && cache.test second after (allowed graph) (fun _ => true) graph)
      .empty := by
    decide +kernel
  obtain ⟨entry, outcome, prepared, query, written, test⟩ := Cache.exists_of_test test
  obtain ⟨held, test⟩ := (Bool.and_eq_true _ _).mp test
  obtain ⟨viewer, owner⟩ := of_decide_eq_true held
  obtain ⟨entry', outcome', prepared', checked, written', -⟩ := Cache.exists_of_test test
  simp only [allowed, chooses, Bool.and_eq_true, decide_eq_true_eq] at checked
  obtain ⟨⟨query', decides, choices⟩, decides', choices'⟩ := checked
  have reached := ReachedBy.write .empty prepared (of_decide_eq_true query) written
  obtain ⟨stored, linked, -⟩ := reached.last_difference_prevails rfl rfl prepared' query' written'
    decides (by rw [choices]; exact List.cons_ne_nil _ _)
  obtain ⟨stored', owns, -⟩ := reached.last_difference_prevails rfl rfl prepared' query' written'
    decides' (by rw [choices']; exact List.cons_ne_nil _ _)
  rw [choices, viewer] at stored linked
  rw [choices', owner] at stored' owns
  have one : Whole "1" := by decide +kernel
  have three : Whole "3" := by decide +kernel
  refine ⟨outcome.commit.graph, outcome'.commit.graph, reached, viewer, owner, stored, ?_, stored',
    ?_⟩
  · rw [linked "1" one, if_neg (by decide)]
    decide
  · rw [owns "3" three, if_neg (by decide)]
    decide

end ReachedBy
end Graph
end ResponseGraph
