import ResponseGraph.Proofs.Graph.Edited
import ResponseGraph.Proofs.Graph.Leftover
import ResponseGraph.Proofs.Payload.Coherent

/-!
Queries with their fields in another order.

A payload that does not contradict itself is written with the fields of its query in any order,
or in none.  The nodes are the same then, with the same kinds, the same data up to the order of
members and the same links up to their order, and the same nodes count as edited.
-/

namespace ResponseGraph

open Nodes NodeId

/-- The payload of a query that does not contradict itself.  The labels of the fields tell them
apart, as those of every prepared operation do. -/
structure Registered.CoherentQuery (entry : Registered) (cache : Cache) (graph : Graph)
    (payload : Json) : Prop where
  untransformed : cache.transform = none
  /-- Null is no entity. -/
  unnamed : cache.identity.nonempty .null = none
  query : entry.operation.root = queryRoot
  labelled : entry.operation.Labelled
  named : Visit.Named (entry.visits cache payload)
  distinct : Visit.Distinct queryRoot (entry.visits cache payload)
  coherent : Visit.Coherent (entry.visits cache payload)
  spared : ∀ visit ∈ entry.visits cache payload, visit.Spares graph
  /-- No object repeats a name. -/
  unrepeated : payload.distinct

namespace Registered

variable {entry other : Registered} {cache : Cache} {graph : Graph} {payload : Json}

theorem TidyQuery.coherent (tidy : entry.TidyQuery cache graph payload)
    (labelled : entry.operation.Labelled) : entry.CoherentQuery cache graph payload := by
  obtain ⟨⟨clean, query, distinct⟩, unrepeated⟩ := tidy
  exact ⟨clean.untransformed, clean.unnamed, query, labelled, clean.plain.2, distinct,
    clean.consistent.coherent, clean.spared, unrepeated⟩

namespace CoherentQuery

theorem tidy (h : entry.CoherentQuery cache graph payload)
    (consistent : Visit.Consistent (entry.visits cache payload)) :
    entry.TidyQuery cache graph payload := by
  have whole : Whole entry.operation.root := h.query ▸ whole_queryRoot
  exact ⟨⟨⟨h.untransformed, h.unnamed, ⟨whole, h.named⟩, consistent, h.spared⟩, h.query,
    h.distinct⟩, h.unrepeated⟩

/-- A query in another order is as coherent. -/
theorem reordered (h : entry.CoherentQuery cache graph payload)
    (query : other.operation.root = queryRoot) (labelled : other.operation.Labelled)
    (same : Visit.SameBrought (entry.visits cache payload) (other.visits cache payload)) :
    other.CoherentQuery cache graph payload := by
  refine ⟨h.untransformed, h.unnamed, query, labelled, same.entities h.named,
    same.entities h.distinct, same.coherent h.coherent, fun visit member => ?_, h.unrepeated⟩
  cases visit with
  | entered => trivial
  | brought site content => exact h.spared _ ((same site content).mpr member)

theorem clean (h : entry.CoherentQuery cache graph payload) (sound : graph.Sound)
    (rooted : Nodes.Rooted graph.node?)
    (consistent : Visit.Consistent (entry.visits cache payload)) :
    Visit.Clean cache.identity.nonempty entry.operation.root graph.node?
      (entry.visits cache payload) := by
  rw [h.query]
  exact ⟨h.unnamed, whole_queryRoot, h.named, h.distinct, consistent,
    Visit.spared_of_spares sound h.spared, rooted⟩

end CoherentQuery
end Registered

namespace Graph

variable {graph : Graph} {cache : Cache} {request : Request} {payload : Json}
  {entry left right : Registered} {outcome outcome' : Outcome} {batch : Batch}
  {warnings : List String}

theorem Tidy.ready (tidy : graph.Tidy) (kept : graph.Kept)
    (query : entry.operation.root = queryRoot) :
    Draft.Ready entry.operation.root (.ofGraph graph) := by
  rw [query]
  exact ⟨tidy.queried.moored, tidy.once,
    .start kept.sound whole_queryRoot kept.backed kept.attended⟩

/-- A coherent payload that was merged is tidy. -/
theorem Tidy.tidyQuery (tidy : graph.Tidy) (kept : graph.Kept)
    (coherent : entry.CoherentQuery cache graph payload)
    (merged : (Batch.ofGraph graph).merge cache entry payload = .ok (batch, warnings)) :
    entry.TidyQuery cache graph payload := by
  obtain ⟨labels, known⟩ := coherent.labelled
  have clean := coherent.clean kept.sound tidy.queried.faithful.rooted
  exact coherent.tidy ((tidy.ready kept coherent.query).suited coherent.coherent clean
    known.proper.known (Batch.draft_merge merged)).1

/-- Coherent queries leave graphs that are tidy and hold no node without links. -/
theorem ReachedBy.tidy_of_coherent (h : ReachedBy Registered.CoherentQuery graph) :
    graph.Tidy ∧ graph.Kept := by
  induction h with
  | empty => exact ⟨tidy_empty, kept_empty⟩
  | write _ prepared coherent written ih =>
    obtain ⟨tidy, kept⟩ := ih
    obtain ⟨batch, warnings, merged, -⟩ := Cache.write_eq_ok prepared written
    have query := tidy.tidyQuery kept coherent merged
    refine ⟨tidy.write prepared query written, kept.write prepared ⟨?_, ?_⟩ written⟩
    · intro transform given
      rw [coherent.untransformed] at given
      cases given
    · exact ⟨coherent.query, coherent.named, query.query.clean.consistent⟩

end Graph

namespace Nodes.Alike

variable {nodes more : Nodes}

theorem has_iff (h : Nodes.Alike nodes more) (id : NodeId) : nodes.Has id ↔ more.Has id := by
  have here := h id
  unfold Nodes.Has
  generalize nodes id = node, more id = node' at here ⊢
  cases here with
  | none => exact Iff.rfl
  | some => exact iff_of_true rfl rfl

theorem sameData (h : Nodes.Alike nodes more) (id : NodeId) : SameData nodes more id := by
  have here := h id
  unfold SameData data?
  generalize nodes id = node, more id = node' at here ⊢
  cases here with
  | none => exact .none
  | some alike => exact alike.data

end Nodes.Alike

namespace Batch

variable {cache : Cache} {graph : Graph} {payload : Json} {left right : Registered}
  {batch batch' : Batch} {warnings warnings' : List String}

theorem merge_eq_ok {draft : Draft} (merged : Draft.merge cache.identity.nonempty
    left.operation.root left.operation.selection.fields payload (.ofGraph graph) =
      .ok (draft, warnings)) :
    ∃ batch, (ofGraph graph).merge cache left payload = .ok (batch, warnings) ∧
      batch.draft = draft := by
  have start : (ofGraph graph).draft.merge cache.identity.nonempty left.operation.root
      left.operation.selection.fields payload = .ok (draft, warnings) := merged
  unfold merge
  dsimp only
  rw [start]
  exact ⟨_, rfl, rfl⟩

/-- A coherent payload that was merged is merged with the fields in another order as well. -/
theorem merge_reordered (tidy : graph.Tidy) (kept : graph.Kept)
    (coherent : left.CoherentQuery cache graph payload)
    (coherent' : right.CoherentQuery cache graph payload)
    (same : Visit.SameBrought (left.visits cache payload) (right.visits cache payload))
    (merged : (ofGraph graph).merge cache left payload = .ok (batch, warnings)) :
    ∃ batch' warnings', (ofGraph graph).merge cache right payload = .ok (batch', warnings') ∧
      Nodes.Alike batch.draft.node? batch'.draft.node? := by
  obtain ⟨labels, known⟩ := coherent.labelled
  obtain ⟨labels', known'⟩ := coherent'.labelled
  have root : right.operation.root = left.operation.root :=
    coherent'.query.trans coherent.query.symm
  unfold Registered.visits at same
  rw [root] at same
  obtain ⟨draft, warnings', done, alike⟩ := (tidy.ready kept coherent.query).merge_reordered same
    coherent.coherent (coherent.clean kept.sound tidy.queried.faithful.rooted) coherent.unrepeated
    known.proper.known known'.proper.known (draft_merge merged)
  rw [← root] at done
  obtain ⟨batch', done', rfl⟩ := merge_eq_ok done
  exact ⟨batch', warnings', done', alike⟩

/-- In drafts that are alike the same nodes count as edited. -/
theorem edited_reordered (tidy : graph.Tidy) (clean : left.TidyQuery cache graph payload)
    (clean' : right.TidyQuery cache graph payload)
    (merged : (ofGraph graph).merge cache left payload = .ok (batch, warnings))
    (merged' : (ofGraph graph).merge cache right payload = .ok (batch', warnings'))
    (alike : Nodes.Alike batch.draft.node? batch'.draft.node?) :
    batch.draft.edited = batch'.draft.edited := by
  obtain ⟨walk, -, finished, -, -, -, once⟩ := tidy.merge clean merged
  obtain ⟨walk', -, finished', -, -, -, once'⟩ := tidy.merge clean' merged'
  have once := Walk.namedOnce_finish once
  have once' := Walk.namedOnce_finish once'
  rw [← finished] at once
  rw [← finished'] at once'
  have data (id : NodeId) : SameData graph.node? batch.draft.node? id ↔
      SameData graph.node? batch'.draft.node? id := by
    have here := alike.sameData id
    exact ⟨fun same => same.trans here tidy.once once once',
      fun same => same.trans (here.symm once once') tidy.once once' once⟩
  refine NameSet.ext fun id => ?_
  rw [contains_edited_iff tidy clean merged, contains_edited_iff tidy clean' merged',
    alike.has_iff, data]

end Batch

theorem Cache.writeEntry_eq_ok {cache : Cache} {graph : Graph} {entry : Registered}
    {payload : Json} {outcome : Outcome} :
    (cache.writeEntry graph entry payload).2 = .ok outcome ↔
      ∃ batch warnings, (Batch.ofGraph graph).merge cache entry payload = .ok (batch, warnings) ∧
        batch.commit cache = .ok outcome := by
  unfold writeEntry
  dsimp only
  constructor
  · intro h
    split at h
    · cases h
    · next batch warnings merged =>
      split at h
      · cases h
      · next committed =>
        cases h
        exact ⟨batch, warnings, merged, committed⟩
  · rintro ⟨batch, warnings, merged, committed⟩
    rw [merged]
    dsimp only
    rw [committed]

/-- Whatever is written with the fields in one order is written with them in another. -/
theorem Cache.writeEntry_reordered {cache : Cache} {graph : Graph} {left right : Registered}
    {payload : Json} {outcome : Outcome} (tidy : graph.Tidy) (kept : graph.Kept)
    (coherent : left.CoherentQuery cache graph payload)
    (coherent' : right.CoherentQuery cache graph payload)
    (same : Visit.SameBrought (left.visits cache payload) (right.visits cache payload))
    (written : (cache.writeEntry graph left payload).2 = .ok outcome) :
    ∃ outcome', (cache.writeEntry graph right payload).2 = .ok outcome' ∧
      Nodes.Alike outcome.commit.graph.node? outcome'.commit.graph.node? ∧
      outcome.commit.edited = outcome'.commit.edited := by
  obtain ⟨batch, warnings, merged, committed⟩ := writeEntry_eq_ok.mp written
  obtain ⟨batch', warnings', merged', alike⟩ :=
    Batch.merge_reordered tidy kept coherent coherent' same merged
  have clean := tidy.tidyQuery kept coherent merged
  have clean' := tidy.tidyQuery kept coherent' merged'
  obtain ⟨outcome', committed'⟩ :=
    ((Batch.sound_ofGraph kept.sound).merge clean'.query.clean.plain merged').exists_commit cache
  refine ⟨outcome', writeEntry_eq_ok.mpr ⟨batch', warnings', merged', committed'⟩, ?_, ?_⟩
  · rw [Batch.nodes_commit coherent.untransformed committed,
      Batch.nodes_commit coherent.untransformed committed']
    exact alike
  · rw [Batch.edited_commit committed, Batch.edited_commit committed']
    exact Batch.edited_reordered tidy clean clean' merged merged' alike

namespace Graph.ReachedBy

variable {graph : Graph} {cache : Cache} {payload : Json} {left right : Registered}

/-- The order of the fields of a query does not matter: a payload that does not contradict itself
is written in every order or in none.  Then there are the same nodes with the same kinds, the same
data up to the order of members and the same links up to their order, and the same nodes count as
edited. -/
theorem write_in_any_order (h : ReachedBy Registered.CoherentQuery graph)
    (coherent : left.CoherentQuery cache graph payload)
    (root : right.operation.root = left.operation.root) (labelled : right.operation.Labelled)
    (reordered : Fields.Reordered left.operation.selection.fields
      right.operation.selection.fields) :
    ((∃ outcome, (cache.writeEntry graph left payload).2 = .ok outcome) ↔
        ∃ outcome, (cache.writeEntry graph right payload).2 = .ok outcome) ∧
      ∀ outcome outcome', (cache.writeEntry graph left payload).2 = .ok outcome →
        (cache.writeEntry graph right payload).2 = .ok outcome' →
        Nodes.Alike outcome.commit.graph.node? outcome'.commit.graph.node? ∧
          outcome.commit.edited = outcome'.commit.edited := by
  obtain ⟨tidy, kept⟩ := h.tidy_of_coherent
  have same : Visit.SameBrought (left.visits cache payload) (right.visits cache payload) := by
    unfold Registered.visits
    rw [root]
    exact reordered.sameBrought_ofPayload _ _ payload
  have coherent' := coherent.reordered (root.trans coherent.query) labelled same
  refine ⟨⟨?_, ?_⟩, fun outcome outcome' written written' => ?_⟩
  · rintro ⟨outcome, written⟩
    obtain ⟨outcome', written', -⟩ :=
      Cache.writeEntry_reordered tidy kept coherent coherent' same written
    exact ⟨outcome', written'⟩
  · rintro ⟨outcome, written⟩
    obtain ⟨outcome', written', -⟩ :=
      Cache.writeEntry_reordered tidy kept coherent' coherent same.symm written
    exact ⟨outcome', written'⟩
  · obtain ⟨found, there, alike⟩ :=
      Cache.writeEntry_reordered tidy kept coherent coherent' same written
    rw [written'] at there
    cases there
    exact alike

/-- A user moves from one field to another.  With one order of the fields her node loses its only
link before it gets another, and with the other order it has two links in between. -/
theorem write_in_any_order_of_moved_user :
    ∃ (cache : Cache) (graph : Graph) (left right : Registered) (payload : Json)
      (outcome outcome' : Outcome), ReachedBy Registered.CoherentQuery graph ∧
      left.CoherentQuery cache graph payload ∧
      left.operation.selection.fields.map Prod.fst = ["viewer", "owner"] ∧
      right.operation.selection.fields.map Prod.fst = ["owner", "viewer"] ∧
      (cache.writeEntry graph left payload).2 = .ok outcome ∧
      (cache.writeEntry graph right payload).2 = .ok outcome' ∧
      outcome.commit.graph.keys = ["1", "ROOT_QUERY"] ∧
      Nodes.Alike outcome.commit.graph.node? outcome'.commit.graph.node? ∧
      outcome.commit.edited = outcome'.commit.edited := by
  let cache := Cache.new .default
  let request := Request.query "\x7b viewer \x7b id \x7d owner \x7b id \x7d \x7d"
  let user := Json.object [("id", .string "1")]
  let before := Json.object [("viewer", user), ("owner", .null)]
  let after := Json.object [("viewer", .null), ("owner", user)]
  let head : FieldHead := ⟨none, none, [], false⟩
  let below (label : Nat) : Fields := [("id", .leaf label head)]
  let field (label : Nat) := Field.composite label head (Fields.traits (below (label + 2)))
    (label + 1) (below (label + 2))
  let viewer := ("viewer", field 0)
  let owner := ("owner", field 3)
  let labels (fields : Fields) : Labels := fun label => match label with
    | 0 => some (.field (field 0))
    | 1 => some (.set (below 2))
    | 2 => some (.field (.leaf 2 head))
    | 3 => some (.field (field 3))
    | 4 => some (.set (below 5))
    | 5 => some (.field (.leaf 5 head))
    | _ => some (.set fields)
  let entry (fields : Fields) : Registered := ⟨0, request.key, queryRoot,
    ⟨.query, none, ⟨6, fields⟩, [], Table.empty, 7⟩, ⟨6, fields⟩, Table.empty⟩
  let left := entry [viewer, owner]
  let right := entry [owner, viewer]
  let moves (graph : Graph) := decide (left.TidyQuery cache graph after) &&
    (cache.writeEntry graph left after).2.toOption.any fun outcome =>
      decide (outcome.commit.graph.keys = ["1", "ROOT_QUERY"])
  have test : cache.test request before
      (fun entry => decide (entry.TidyQuery cache .empty before)) moves .empty := by
    decide +kernel
  obtain ⟨first, reply, prepared, clean, written, test⟩ := Cache.exists_of_test test
  obtain ⟨tidy, test⟩ := (Bool.and_eq_true _ _).mp test
  obtain ⟨outcome, done, keys⟩ := (Option.any_eq_true _ _).mp test
  have below_viewer (fields : Fields) : (field 0).Known (labels fields) :=
    ⟨rfl, rfl, rfl, List.nodup_singleton _, rfl, trivial⟩
  have below_owner (fields : Fields) : (field 3).Known (labels fields) :=
    ⟨rfl, rfl, rfl, List.nodup_singleton _, rfl, trivial⟩
  have known : left.operation.Labelled := ⟨labels [viewer, owner], rfl, by decide +kernel,
    below_viewer _, below_owner _, trivial⟩
  have known' : right.operation.Labelled := ⟨labels [owner, viewer], rfl, by decide +kernel,
    below_owner _, below_viewer _, trivial⟩
  have coherent := (of_decide_eq_true tidy).coherent known
  have reached := ReachedBy.write .empty prepared
    ((of_decide_eq_true clean).coherent (Registry.Grown.empty.known prepared)) written
  have root : right.operation.root = left.operation.root := rfl
  have reordered : Fields.Reordered left.operation.selection.fields
      right.operation.selection.fields := .swap viewer owner []
  have order := reached.write_in_any_order coherent root known' reordered
  have done := eq_ok_of_toOption done
  obtain ⟨outcome', done'⟩ := order.1.mp ⟨outcome, done⟩
  exact ⟨cache, _, left, right, after, outcome, outcome', reached, coherent, rfl, rfl, done, done',
    of_decide_eq_true keys, order.2 outcome outcome' done done'⟩

end Graph.ReachedBy

end ResponseGraph
