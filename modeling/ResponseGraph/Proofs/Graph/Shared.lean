import ResponseGraph.Proofs.Graph.Edited
import ResponseGraph.Proofs.Payload.Frugal

/-!
Nodes that a write shares with the graph before it.

Whoever holds a node of the graph before a write takes it for unchanged if the graph after it has
the very same node.  It is not enough that no changed node is shared.  If a node were copied that
stays what it was, every holder would look at it, and at all that leads to it, in vain.  After a
clean query on a graph of clean queries nothing is copied in vain.
-/

namespace ResponseGraph

open Nodes NodeId

namespace Graph

variable {graph : Graph} {id target : NodeId}

/-- A node above another one leads to it. -/
theorem leads_of_above {nodes : Nodes} (mirrored : Mirrored graph.node?)
    (links : ∀ id, Nodes.links nodes .inbound id = Nodes.links graph.node? .inbound id)
    {first : NodeId → Prop} (above : Nodes.Above nodes first id) :
    ∃ target, first target ∧ graph.Leads id target := by
  induction above with
  | @first id h => exact ⟨id, h, .here⟩
  | @up id link above linked ih =>
    obtain ⟨target, chosen, leads⟩ := ih
    rw [links] at linked
    have forth := (mirrored link.node id link.path).mpr linked
    exact ⟨target, chosen, (Leads.here.on forth).trans leads⟩

/-- Whatever a node leads to is the node itself or is led to from the end of one of its links. -/
theorem Leads.here_or_below (leads : graph.Leads id target) : target = id ∨
    ∃ link ∈ Nodes.links graph.node? .outbound id, graph.Leads link.node target := by
  induction leads with
  | here => exact .inl rfl
  | @on middle link leads linked ih =>
    rcases ih with rfl | ⟨first, out, below⟩
    · exact .inr ⟨link, linked, .here⟩
    · exact .inr ⟨first, out, below.on linked⟩

variable {cache : Cache} {request : Request} {payload : Json} {entry : Registered}
  {outcome : Outcome} {batch : Batch} {warnings : List String}

/-- What is copied when a clean query is merged counts as edited or has other links. -/
theorem Queried.relinks_of_copied (queried : graph.Queried)
    (query : entry.CleanQuery cache graph payload)
    (merged : (Batch.ofGraph graph).merge cache entry payload = .ok (batch, warnings))
    (copied : batch.draft.changes.contains id) :
    batch.draft.edited.contains id ∨ Relinks graph.node? batch.draft.node? id := by
  obtain ⟨members, walk, seen, -, finished, traced, within, -⟩ := queried.merge query merged
  have run := traced.run
  rw [query.query] at run
  have clean : Visit.Clean cache.identity.nonempty queryRoot graph.node? seen :=
    ⟨query.clean.unnamed, whole_queryRoot, query.clean.plain.2.mono within,
      query.distinct.mono within, query.clean.consistent.mono within,
      (Visit.spared_of_spares queried.faithful.sound query.clean.spared).mono within,
      queried.faithful.rooted⟩
  have start := @Walk.Steady.start _ (.ofGraph graph) queried.moored queried.faithful.rooted
    whole_queryRoot
  have frugal := run.frugal clean start (.start graph _)
  rw [finished] at copied ⊢
  exact frugal.finish (run.steady clean start) clean.consistent queried.faithful.linked copied

end Graph

/-- Of the nodes that are left, those are copied that are in the draft or above an edited one. -/
theorem Draft.contains_copied_iff {transform : Option (Value → Value)} {draft : Draft} {id : NodeId}
    (has : Nodes.Has draft.node? id) : (draft.committed transform).copied.contains id ↔
      draft.ownAncestors.changes.contains id := by
  rw [contains_copied]
  constructor
  · rintro ⟨node, found⟩
    rw [Table.contains, found]
    rfl
  · intro copied
    obtain ⟨change, found⟩ := Option.isSome_iff_exists.mp copied
    have here : draft.ownAncestors.node? id = change := by
      unfold node?
      rw [found]
    rw [nodes_ownAncestors] at here
    obtain ⟨node, present⟩ := Option.isSome_iff_exists.mp has
    exact ⟨node, by rw [found, ← here, present]⟩

/-- A commit shares the nodes that its draft did not copy and that lead to no edited one. -/
theorem Batch.shares_iff {base : Graph} {cache : Cache} {batch : Batch} {outcome : Outcome}
    (changed : ∀ id, batch.draft.edited.contains id → batch.draft.changes.contains id)
    (sound : outcome.commit.graph.Sound) (committed : batch.commit cache = .ok outcome)
    {id : NodeId} :
    outcome.commit.Shares base id ↔ base.contains id ∧ outcome.commit.graph.contains id ∧
      ¬ batch.draft.changes.contains id ∧ ∀ target, outcome.commit.graph.Leads id target →
        ¬ outcome.commit.edited.contains target := by
  have commit := Draft.eq_committed (commit_eq_ok committed)
  refine and_congr_right fun _ => and_congr_right fun present => ?_
  have has := (has_commit committed id).mp present
  have copied := @Draft.contains_copied_iff cache.transform _ _ has
  rw [← commit] at copied
  constructor
  · intro shared
    refine ⟨fun owned => shared (copied.mpr ?_), fun target leads => ?_⟩
    · exact (Draft.alike_ownAncestors batch.draft).2.2 id owned
    · rw [edited_commit committed]
      rw [commit] at sound shared leads
      exact Draft.not_edited_of_leads changed sound.verify has shared leads
  · rintro ⟨fresh, unedited⟩ owned
    rcases Draft.of_contains_changes_ownAncestors (copied.mp owned) with now | above
    · exact fresh now
    · have links (id : NodeId) : Nodes.links batch.draft.node? .inbound id =
          Nodes.links outcome.commit.graph.node? .inbound id := by
        rw [commit, Draft.links_committed]
      obtain ⟨target, edited, leads⟩ := Graph.leads_of_above sound.mirrored links above
      rw [← edited_commit committed] at edited
      exact unedited target leads edited

namespace Graph.ReachedBy

variable {graph : Graph} {cache : Cache} {request : Request} {payload : Json} {entry : Registered}
  {outcome : Outcome}

/-- On a graph of clean queries, a clean query leaves exactly those nodes the very same that have
the same data and the same links as before, whatever the order of the links, and whose links lead
to no node that counts as edited. -/
theorem unchanged_is_shared (h : ReachedBy Registered.TidyQuery graph)
    (prepared : (cache.prepare request).2 = .ok entry)
    (tidy : entry.TidyQuery cache graph payload)
    (written : (cache.write graph request payload).2.2 = .ok outcome) (id : NodeId) :
    outcome.commit.Shares graph id ↔
      graph.contains id ∧ outcome.commit.graph.contains id ∧
      SameData graph.node? outcome.commit.graph.node? id ∧
      (∀ way link, link ∈ Nodes.links graph.node? way id ↔
        link ∈ Nodes.links outcome.commit.graph.node? way id) ∧
      ∀ link ∈ Nodes.links outcome.commit.graph.node? .outbound id, ∀ target,
        outcome.commit.graph.Leads link.node target →
          ¬ outcome.commit.edited.contains target := by
  have queried := h.tidy.queried
  have sound := (queried.write prepared tidy.query written).1.faithful.sound
  obtain ⟨batch, warnings, merged, committed⟩ := Cache.write_eq_ok prepared written
  have tracked : Draft.Tracked graph batch.draft :=
    (Draft.edits_merge (Batch.draft_merge merged)).tracked (Draft.tracked_ofGraph graph)
  have nodes := Batch.nodes_commit tidy.query.clean.untransformed committed
  have shares := @Batch.shares_iff graph _ _ _ tracked.changed sound committed id
  constructor
  · intro shared
    obtain ⟨before, after, -, unedited⟩ := shares.mp shared
    have same : outcome.commit.graph.node? id = graph.node? id := by
      rw [Draft.eq_committed (Batch.commit_eq_ok committed), ← tracked.origin] at shared ⊢
      exact Draft.node?_committed_of_shares shared
    refine ⟨before, after, sameData_of_eq h.tidy.once ?_, fun way link => ?_,
      fun link linked target leads => unedited target ((Leads.here.on linked).trans leads)⟩
    · unfold data?
      rw [same]
    · unfold Nodes.links
      rw [same]
  · rintro ⟨before, after, data, links, below⟩
    -- The data is the same, so the node was not written.
    have written : ¬ batch.draft.edited.contains id := by
      intro edited
      rw [nodes] at data
      rcases Batch.changed_of_edited h.tidy tidy merged edited with ⟨-, gone⟩ | differs
      · exact gone ((Batch.has_commit committed id).mp after)
      · exact differs data
    refine shares.mpr ⟨before, after, fun copied => ?_, fun target leads => ?_⟩
    · have relinks :=
        (queried.relinks_of_copied tidy.query merged copied).resolve_left written
      rw [← nodes] at relinks
      obtain ⟨way, link, differs⟩ :=
        relinks.differs queried.faithful.sound.mirrored sound.mirrored
      exact differs (links way link)
    · rcases leads.here_or_below with rfl | ⟨link, linked, leads⟩
      · rw [Batch.edited_commit committed]
        exact written
      · exact below link linked target leads

/-- A user gets the pet of another one.  The other one stays the very same, though the pet that he
leads to does not: it counts as unedited, but it has another link. -/
theorem unchanged_is_shared_beside_new_link :
    ∃ (graph : Graph) (cache : Cache) (request : Request) (entry : Registered) (payload : Json)
      (outcome : Outcome), ReachedBy Registered.TidyQuery graph ∧
      (cache.prepare request).2 = .ok entry ∧ entry.TidyQuery cache graph payload ∧
      (cache.write graph request payload).2.2 = .ok outcome ∧
      outcome.commit.edited.keys = ["1", "3"] ∧ outcome.commit.graph.Leads "2" "4" ∧
      outcome.commit.Shares graph "2" ∧ ¬ outcome.commit.Shares graph "4" := by
  let cache := Cache.new .default
  let request := Request.query "\x7b users \x7b id pet \x7b id \x7d \x7d \x7d"
  let user (id pet : String) := Json.object
    [("id", .string id), ("pet", .object [("id", .string pet)])]
  let payload (pet : String) := Json.object [("users", .array [user "1" pet, user "2" "4"])]
  let again (graph : Graph) := (cache.prepare request).2.toOption.any fun entry =>
    decide (entry.TidyQuery cache graph (payload "4")) &&
      (cache.write graph request (payload "4")).2.2.toOption.any fun outcome =>
        ((data? graph.node? "2").any fun value =>
          (data? outcome.commit.graph.node? "2").any value.same) &&
        decide (outcome.commit.edited.keys = ["1", "3"] ∧ graph.contains "2" ∧
          outcome.commit.graph.contains "2" ∧
          (∀ way ∈ [Direction.inbound, .outbound], Nodes.links graph.node? way "2" =
            Nodes.links outcome.commit.graph.node? way "2") ∧
          Nodes.links outcome.commit.graph.node? .outbound "2" = [⟨"4", [.key "pet"]⟩] ∧
          Nodes.links outcome.commit.graph.node? .outbound "4" = [] ∧
          ¬ outcome.commit.edited.contains "4" ∧
          ⟨"1", [.key "pet"]⟩ ∉ Nodes.links graph.node? .inbound "4" ∧
          ⟨"1", [.key "pet"]⟩ ∈ Nodes.links outcome.commit.graph.node? .inbound "4")
  have test : cache.test request (payload "3")
      (fun entry => decide (entry.TidyQuery cache .empty (payload "3"))) again .empty := by
    decide +kernel
  obtain ⟨first, before, prepared, tidy, written, test⟩ := Cache.exists_of_test test
  have reached := ReachedBy.write .empty prepared (of_decide_eq_true tidy) written
  obtain ⟨entry, prepared, test⟩ := (Option.any_eq_true _ _).mp test
  obtain ⟨tidy, test⟩ := (Bool.and_eq_true _ _).mp test
  obtain ⟨outcome, written, test⟩ := (Option.any_eq_true _ _).mp test
  obtain ⟨data, test⟩ := (Bool.and_eq_true _ _).mp test
  obtain ⟨value, held, data⟩ := (Option.any_eq_true _ _).mp data
  obtain ⟨value', held', same⟩ := (Option.any_eq_true _ _).mp data
  have prepared := eq_ok_of_toOption prepared
  have tidy := of_decide_eq_true tidy
  have written := eq_ok_of_toOption written
  obtain ⟨edited, was, stays, links, out, leaf, unedited, missing, linked⟩ :=
    of_decide_eq_true test
  have pet : outcome.commit.graph.Leads "2" "4" :=
    @Leads.on _ _ _ ⟨"4", [.key "pet"]⟩ .here (out ▸ List.mem_singleton.mpr rfl)
  have shared := reached.unchanged_is_shared prepared tidy written
  refine ⟨_, cache, request, entry, payload "4", outcome, reached, prepared, tidy, written, edited,
    pet, (shared "2").mpr ⟨was, stays, ?_, fun way link => ?_, fun link out' target leads => ?_⟩,
    fun shares => ?_⟩
  · unfold SameData
    rw [held, held']
    exact .some same
  · rw [links way (by cases way <;> simp)]
  · rw [out, List.mem_singleton] at out'
    subst out'
    rcases leads.here_or_below with rfl | ⟨link, further, -⟩
    · exact unedited
    · rw [leaf] at further
      cases further
  · obtain ⟨-, -, -, all, -⟩ := (shared "4").mp shares
    exact missing ((all .inbound _).mpr linked)

end Graph.ReachedBy
end ResponseGraph
