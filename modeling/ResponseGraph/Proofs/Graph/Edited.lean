import ResponseGraph.Proofs.Graph.ReadBack
import ResponseGraph.Proofs.Graph.Visibility
import ResponseGraph.Proofs.Payload.Altered

/-!
What counts as edited.

Whoever reads a graph looks again at the nodes that count as edited.  A node that is gone after
a commit, or that has other data, is among them, with one exception: the data of a node is lost
uncounted if a node for the value of a field with arguments is made in its place.  After a clean
query on a graph of clean queries there are no others among them.
-/

namespace ResponseGraph

open Nodes NodeId

/-- The payload of a clean query, in which no object repeats a name. -/
structure Registered.TidyQuery (entry : Registered) (cache : Cache) (graph : Graph)
    (payload : Json) : Prop where
  query : entry.CleanQuery cache graph payload
  distinct : payload.distinct

instance (entry : Registered) (cache : Cache) (graph : Graph) (payload : Json) :
    Decidable (entry.TidyQuery cache graph payload) :=
  decidable_of_iff (entry.CleanQuery cache graph payload ∧ payload.distinct)
    ⟨fun ⟨query, distinct⟩ => ⟨query, distinct⟩, fun tidy => ⟨tidy.query, tidy.distinct⟩⟩

namespace Graph

/-- Clean queries have left a graph in which no object repeats a name. -/
structure Tidy (graph : Graph) : Prop where
  queried : graph.Queried
  once : NamedOnce graph.node?

theorem tidy_empty : Tidy empty := ⟨queried_empty, fun _ _ stored => by cases stored⟩

variable {graph : Graph} {cache : Cache} {request : Request} {payload : Json} {entry : Registered}
  {outcome : Outcome} {batch : Batch} {warnings : List String}

/-- What is known of the draft after the payload of a tidy query was merged. -/
theorem Tidy.merge (tidy : graph.Tidy) (clean : entry.TidyQuery cache graph payload)
    (merged : (Batch.ofGraph graph).merge cache entry payload = .ok (batch, warnings)) :
    ∃ (walk : Walk) (seen : List Visit), batch.draft = walk.finish ∧
      seen ⊆ entry.visits cache payload ∧ walk.Moored queryRoot graph.node? seen ∧
      walk.Counted queryRoot graph.node? seen ∧ NamedOnce walk.draft.node? := by
  obtain ⟨members, walk, seen, rfl, finished, traced, within, -, moored⟩ :=
    tidy.queried.merge clean.query merged
  have named := clean.query.clean.plain.2.mono within
  have unrepeated : Visit.Unrepeated seen := (Visit.unrepeated_ofPayload clean.distinct).mono within
  rw [clean.query.query] at traced
  refine ⟨walk, seen, finished, within, moored, ?_, ?_⟩
  · exact traced.run.counted clean.query.clean.unnamed whole_queryRoot named
      (clean.query.distinct.mono within) (clean.query.clean.consistent.mono within)
      ((clean.query.clean.bareOf tidy.queried.faithful.sound).mono within) tidy.queried.moored
      (.start queryRoot graph _)
  · exact traced.run.namedOnce unrepeated named tidy.queried.moored.linked.sound tidy.once

theorem Tidy.write (tidy : graph.Tidy) (prepared : (cache.prepare request).2 = .ok entry)
    (clean : entry.TidyQuery cache graph payload)
    (written : (cache.write graph request payload).2.2 = .ok outcome) :
    outcome.commit.graph.Tidy := by
  obtain ⟨batch, warnings, merged, committed⟩ := Cache.write_eq_ok prepared written
  obtain ⟨walk, seen, finished, -, -, -, once⟩ := tidy.merge clean merged
  refine ⟨(tidy.queried.write prepared clean.query written).1, ?_⟩
  rw [Batch.nodes_commit clean.query.clean.untransformed committed, finished]
  exact Walk.namedOnce_finish once

theorem ReachedBy.tidy (h : ReachedBy Registered.TidyQuery graph) : graph.Tidy := by
  induction h with
  | empty => exact tidy_empty
  | write _ prepared clean written ih => exact ih.write prepared clean written

end Graph

namespace Batch

variable {cache : Cache} {base : Graph} {merges : List (Registered × Json)} {batch : Batch}
  {outcome : Outcome} {entry : Registered} {payload : Json} {warnings : List String}

theorem edited_commit (committed : batch.commit cache = .ok outcome) :
    outcome.commit.edited = batch.draft.edited := by
  rw [Draft.eq_committed (commit_eq_ok committed)]
  exact (Draft.alike_ownAncestors batch.draft).2.1

theorem has_commit (committed : batch.commit cache = .ok outcome) (id : NodeId) :
    outcome.commit.graph.contains id ↔ Nodes.Has batch.draft.node? id := by
  rw [Draft.eq_committed (commit_eq_ok committed)]
  show Nodes.Has (Graph.node? _) id ↔ _
  rw [← has_shapes, Draft.shapes_committed cache.transform, has_shapes]

/-- A node that is not counted is not removed, and a query leaves its data. -/
theorem sameData_of_unedited (tidy : base.Tidy) (clean : entry.TidyQuery cache base payload)
    (merged : (ofGraph base).merge cache entry payload = .ok (batch, warnings)) {id : NodeId}
    (unedited : ¬ batch.draft.edited.contains id) :
    SameData base.node? batch.draft.node? id := by
  obtain ⟨walk, seen, finished, -, -, counted, -⟩ := tidy.merge clean merged
  have edits : Draft.Edits (.ofGraph base) batch.draft := Draft.edits_merge (draft_merge merged)
  refine sameData_of_eq tidy.once ?_
  rw [finished] at unedited edits ⊢
  rw [← read_nil, ← read_nil]
  by_cases has : Nodes.Has walk.finish.node? id
  · have collected := Draft.edits_collectOrphans (walk.draft.applyAll walk.changes)
    have applied := Draft.edits_applyAll walk.draft walk.changes
    have before : ¬ (walk.draft.applyAll walk.changes).edited.contains id :=
      fun edited => unedited (collected.contains_edited edited)
    have first : ¬ walk.draft.edited.contains id :=
      fun edited => before (applied.contains_edited edited)
    unfold Walk.finish at has ⊢
    rw [Draft.read_collectOrphans _ has, Draft.read_applyAll_of_unedited before]
    exact counted.unedited id first []
  · have gone (nodes : Nodes) (missing : ¬ nodes.Has id) : nodes.read id [] = none := by
      unfold Nodes.read
      rw [Option.not_isSome_iff_eq_none.mp missing, Option.bind_none]
    rw [gone _ has, gone base.node? fun before => unedited (edits.edited_of_gone before has)]

/-- What a query counts as edited is gone or has other data. -/
theorem changed_of_edited (tidy : base.Tidy) (clean : entry.TidyQuery cache base payload)
    (merged : (ofGraph base).merge cache entry payload = .ok (batch, warnings)) {id : NodeId}
    (edited : batch.draft.edited.contains id) :
    (base.contains id ∧ ¬ Nodes.Has batch.draft.node? id) ∨
      ¬ SameData base.node? batch.draft.node? id := by
  obtain ⟨walk, seen, finished, within, moored, counted, once⟩ := tidy.merge clean merged
  have consistent := clean.query.clean.consistent.mono within
  rw [finished] at edited ⊢
  rcases counted.finish moored consistent edited with ⟨path, content, brought, differs⟩ | gone
  · refine Or.inr fun same => differs ?_
    have once' := Walk.namedOnce_finish once
    have holds := ((moored.finish consistent).2 _ _ brought).1
    refine holds.of_readAlike (same.read tidy.once once' path) (fun _ => once'.read)
      (fun _ => tidy.once.read) fun payload e => ?_
    subst e
    exact Visit.unrepeated_ofPayload clean.distinct _ _ (within brought)
  · exact Or.inl gone

/-- After a query on a graph of clean queries those nodes count as edited that are gone or have
other data. -/
theorem contains_edited_iff (tidy : base.Tidy) (clean : entry.TidyQuery cache base payload)
    (merged : (ofGraph base).merge cache entry payload = .ok (batch, warnings)) (id : NodeId) :
    batch.draft.edited.contains id ↔ (base.contains id ∧ ¬ Nodes.Has batch.draft.node? id) ∨
      ¬ SameData base.node? batch.draft.node? id := by
  refine ⟨changed_of_edited tidy clean merged, ?_⟩
  rintro (⟨has, gone⟩ | differs)
  · have edits : Draft.Edits (.ofGraph base) batch.draft := Draft.edits_merge (draft_merge merged)
    exact edits.edited_of_gone has gone
  · exact Classical.not_not.mp fun unedited =>
      differs (sameData_of_unedited tidy clean merged unedited)

/-- What is gone after a commit counts as edited, and so does what has other data, except for
values of fields with arguments whose node was made anew and has no data.  After a clean query
on a graph of clean queries nothing else counts as edited. -/
theorem edited_tells_changes (merged : (ofGraph base).mergeAll cache merges = .ok batch)
    (committed : batch.commit cache = .ok outcome) (id : NodeId) :
    (base.contains id → ¬ outcome.commit.graph.contains id →
      outcome.commit.edited.contains id) ∧
    (data? base.node? id ≠ data? outcome.commit.graph.node? id →
      outcome.commit.edited.contains id ∨ Blank outcome.commit.graph.node? id) ∧
    ∀ entry payload, merges = [(entry, payload)] →
      Graph.ReachedBy Registered.TidyQuery base → entry.TidyQuery cache base payload →
      (outcome.commit.edited.contains id ↔
        (base.contains id ∧ ¬ outcome.commit.graph.contains id) ∨
          ¬ SameData base.node? outcome.commit.graph.node? id) := by
  have edits := edits_mergeAll merged
  have tracked : Draft.Tracked base batch.draft := edits.tracked (Draft.tracked_ofGraph base)
  have removed : base.contains id → ¬ outcome.commit.graph.contains id →
      outcome.commit.edited.contains id := by
    intro has gone
    rw [has_commit committed] at gone
    rw [edited_commit committed]
    exact edits.edited_of_gone has gone
  refine ⟨removed, fun differs => ?_, ?_⟩
  · refine or_iff_not_imp_left.mpr fun unedited => ?_
    rw [edited_commit committed] at unedited
    have same := Draft.node?_committed_of_unedited cache.transform unedited
    rw [← Draft.eq_committed (commit_eq_ok committed)] at same
    unfold data? at differs
    unfold Blank
    rw [same] at differs ⊢
    exact (tracked.kept id unedited).resolve_left (Ne.symm differs)
  · rintro entry payload rfl reached clean
    obtain ⟨⟨middle, warnings⟩, first, rest⟩ := exists_of_bind_eq_ok merged
    cases rest
    have nodes := nodes_commit clean.query.clean.untransformed committed
    have tidy := reached.tidy
    constructor
    · intro edited
      rw [edited_commit committed] at edited
      rw [nodes, has_commit committed]
      exact changed_of_edited tidy clean first edited
    · rintro (⟨has, gone⟩ | differs)
      · exact removed has gone
      · refine Classical.not_not.mp fun unedited => differs ?_
        rw [edited_commit committed] at unedited
        rw [nodes]
        exact sameData_of_unedited tidy clean first unedited

/-- The list of friends gets shorter and the friend that is left a new name: the user, who refers
to her at another place now, counts as edited with the two friends, and the root does not. -/
theorem edited_tells_changes_of_shorter_list :
    ∃ (cache : Cache) (base : Graph) (entry : Registered) (payload : Json) (batch : Batch)
      (outcome : Outcome), Graph.ReachedBy Registered.TidyQuery base ∧
      entry.TidyQuery cache base payload ∧
      (ofGraph base).mergeAll cache [(entry, payload)] = .ok batch ∧
      batch.commit cache = .ok outcome ∧ outcome.commit.edited.keys = ["1", "2", "3"] ∧
      ∀ id, id ∈ outcome.commit.edited.keys ↔
        (base.contains id ∧ ¬ outcome.commit.graph.contains id) ∨
          ¬ SameData base.node? outcome.commit.graph.node? id := by
  let cache := Cache.new .default
  let request := Request.query "\x7b viewer \x7b id friends \x7b id name \x7d \x7d \x7d"
  let friend (id name : String) := Json.object [("id", .string id), ("name", .string name)]
  let payload (friends : List Json) := Json.object
    [("viewer", .object [("id", .string "1"), ("friends", .array friends)])]
  let both := payload [friend "2" "a", friend "3" "b"]
  let one := payload [friend "3" "c"]
  let again (graph : Graph) := (cache.prepare request).2.toOption.any fun entry =>
    decide (entry.TidyQuery cache graph one) &&
      ((ofGraph graph).mergeAll cache [(entry, one)]).toOption.any fun batch =>
        (batch.commit cache).toOption.any fun outcome =>
          decide (outcome.commit.edited.keys = ["1", "2", "3"])
  have test : cache.test request both (fun entry => decide (entry.TidyQuery cache .empty both))
      again .empty := by
    decide +kernel
  obtain ⟨first, written, prepared, clean, done, test⟩ := Cache.exists_of_test test
  have reached := Graph.ReachedBy.write .empty prepared (of_decide_eq_true clean) done
  obtain ⟨entry, -, test⟩ := (Option.any_eq_true _ _).mp test
  obtain ⟨tidy, test⟩ := (Bool.and_eq_true _ _).mp test
  obtain ⟨batch, merged, test⟩ := (Option.any_eq_true _ _).mp test
  obtain ⟨outcome, committed, keys⟩ := (Option.any_eq_true _ _).mp test
  have merged := eq_ok_of_toOption merged
  have committed := eq_ok_of_toOption committed
  have tidy := of_decide_eq_true tidy
  refine ⟨cache, _, entry, one, batch, outcome, reached, tidy, merged, committed,
    of_decide_eq_true keys, fun id => ?_⟩
  rw [Table.mem_keys_iff]
  exact (edited_tells_changes merged committed id).2.2 entry one rfl reached tidy

end Batch
end ResponseGraph
