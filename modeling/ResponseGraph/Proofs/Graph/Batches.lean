import ResponseGraph.Proofs.Draft.Ancestors
import ResponseGraph.Proofs.Graph.History
import ResponseGraph.Proofs.Payload.Twin

/-!
Batches.

Several payloads may be merged into one draft that is committed once, or each may be committed
before the next one is merged.  The draft of the batch and the draft that starts from the last
commit are twins, so they take every payload alike.  What a commit adds, copies of nodes, no
merge can see.
-/

namespace ResponseGraph

namespace Cache

/-- Merges all payloads into one draft of the graph and commits it. -/
def commitTogether (cache : Cache) (graph : Graph) (merges : List (Registered × Json)) :
    Except Error Outcome := do
  let batch ← (Batch.ofGraph graph).mergeAll cache merges
  batch.commit cache

/-- Commits every payload by itself, on top of the graph that the one before has left. -/
def commitEach (cache : Cache) (graph : Graph) :
    List (Registered × Json) → Except Error (List Outcome)
  | [] => .ok []
  | (entry, payload) :: rest => do
    let outcome ← (cache.writeEntry graph entry payload).2
    let outcomes ← cache.commitEach outcome.commit.graph rest
    return outcome :: outcomes

theorem writeEntry_eq (cache : Cache) (graph : Graph) (entry : Registered) (payload : Json) :
    (cache.writeEntry graph entry payload).2 =
      ((Batch.ofGraph graph).merge cache entry payload >>= fun merged =>
        merged.1.commit cache) := by
  unfold writeEntry
  cases (Batch.ofGraph graph).merge cache entry payload with
  | error e => rfl
  | ok merged =>
    obtain ⟨batch, warnings⟩ := merged
    dsimp only
    split
    · next failed => exact failed.symm
    · next committed => exact committed.symm

end Cache

/-- The graph that the last of the outcomes has left. -/
def Graph.after (graph : Graph) (outcomes : List Outcome) : Graph :=
  outcomes.foldl (fun _ outcome => outcome.commit.graph) graph

def Registered.sameSerial (entry other : Registered) : Bool := entry.serial == other.serial

/-- The first of the operations with one serial number. -/
def Registered.distinct (entries : List Registered) : List Registered :=
  entries.eraseDupsBy sameSerial

/-- One outcome for a batch of operations that a list of outcomes adds up to. -/
structure Outcome.Joins (graph : Graph) (entries : List Registered) (outcome : Outcome)
    (outcomes : List Outcome) : Prop where
  graph : outcome.commit.graph = graph.after outcomes
  edited : ∀ id, outcome.commit.edited.contains id ↔
    ∃ single ∈ outcomes, single.commit.edited.contains id
  warnings : outcome.warnings = outcomes.flatMap Outcome.warnings
  written : outcome.written = Registered.distinct entries

/-! ## Operations merged -/

/-- The operations of a batch after one more merge. -/
def Batch.record (written : List Registered) (entry : Registered) : List Registered :=
  if written.any fun other => other.serial == entry.serial then written else written ++ [entry]

/-- Every operation is recorded where it comes first. -/
theorem Batch.foldl_record (entries written : List Registered) :
    entries.foldl record written =
      written ++ Registered.distinct
        (entries.filter fun entry => !written.any fun other => other.serial == entry.serial) := by
  induction entries generalizing written with
  | nil => exact (List.append_nil _).symm
  | cons entry rest ih =>
    rw [List.foldl_cons, ih, record]
    split
    · next known => rw [List.filter_cons_of_neg (by rw [known]; simp)]
    · next unknown =>
      rw [Bool.not_eq_true] at unknown
      rw [List.filter_cons_of_pos (by rw [unknown]; rfl), Registered.distinct,
        Registered.distinct, List.eraseDupsBy_cons, List.append_assoc, List.singleton_append,
        List.filter_filter]
      congr 3
      refine List.filter_congr fun other _ => ?_
      rw [List.any_append, Bool.not_or, Bool.and_comm]
      congr 1
      rw [List.any_cons, List.any_nil, Bool.or_false, Bool.beq_comm]
      exact Bool.decide_eq_false.symm

/-! ## Merging into twins -/

namespace Batch

/-- A batch whose draft has the nodes of a graph, all orphans being removed. -/
structure StandsAt (batch : Batch) (graph : Graph) : Prop where
  nodes : batch.draft.node? = graph.node?
  orphans : batch.draft.orphans = Table.empty

/-- What one more payload makes of a batch, when `single` is the batch of this payload only. -/
structure Extends (batch : Batch) (entry : Registered) (batch' single : Batch) : Prop where
  twin : batch'.draft.Twin batch.draft.edited single.draft
  orphans : batch'.draft.orphans = Table.empty
  warnings : batch'.warnings = batch.warnings ++ single.warnings
  written : batch'.written = record batch.written entry

theorem StandsAt.merge {batch : Batch} {graph : Graph} (h : batch.StandsAt graph) (cache : Cache)
    (entry : Registered) (payload : Json) :
    Paired (fun x y => batch.Extends entry x.1 y.1) (batch.merge cache entry payload)
      ((ofGraph graph).merge cache entry payload) := by
  unfold Batch.merge
  refine ((Draft.Twin.start h.nodes h.orphans).merge cache.identity.nonempty entry.operation.root
    entry.operation.selection.fields payload).bind fun (draft, found) (single, told) related => ?_
  obtain ⟨twin, orphans, same⟩ := related
  dsimp only at twin orphans same
  subst same
  exact .ok ⟨twin, orphans, rfl, rfl⟩

/-- A batch that is committed without being verified. -/
theorem commit_unfrozen {cache : Cache} (unfrozen : cache.config.freezeSnapshots = false)
    (batch : Batch) : ∃ outcome, batch.commit cache = .ok outcome ∧
      outcome.commit.edited = batch.draft.edited ∧ outcome.written = batch.written ∧
      outcome.warnings = batch.warnings := by
  unfold Batch.commit
  rw [unfrozen]
  exact ⟨_, rfl, (Draft.alike_ownAncestors batch.draft).2.1, rfl, rfl⟩

/-- An outcome of a batch that goes on from `batch`, and the outcomes of the further merges. -/
structure Continues (batch : Batch) (graph : Graph) (entries : List Registered)
    (outcome : Outcome) (outcomes : List Outcome) : Prop where
  graph : outcome.commit.graph = graph.after outcomes
  edited : ∀ id, outcome.commit.edited.contains id ↔ batch.draft.edited.contains id ∨
    ∃ single ∈ outcomes, single.commit.edited.contains id
  warnings : outcome.warnings = batch.warnings ++ outcomes.flatMap Outcome.warnings
  written : outcome.written = entries.foldl record batch.written

theorem StandsAt.continues {cache : Cache} (untransformed : cache.transform = none)
    (unfrozen : cache.config.freezeSnapshots = false) {batch : Batch} {graph : Graph}
    (h : batch.StandsAt graph) (merges : List (Registered × Json)) :
    Paired (batch.Continues graph (merges.map Prod.fst))
      (batch.mergeAll cache merges >>= fun batch => batch.commit cache)
      (cache.commitEach graph merges) := by
  induction merges generalizing batch graph with
  | nil =>
    obtain ⟨outcome, committed, edited, written, warnings⟩ := commit_unfrozen unfrozen batch
    show Paired _ (batch.commit cache) (.ok [])
    rw [committed]
    refine .ok ⟨?_, fun id => ?_, ?_, written⟩
    · exact Graph.eq_of_nodes ((nodes_commit untransformed committed).trans h.nodes)
    · rw [edited]
      exact (or_iff_left (by simp)).symm
    · rw [warnings, List.flatMap_nil, List.append_nil]
  | cons merge rest ih =>
    obtain ⟨entry, payload⟩ := merge
    rw [Cache.commitEach, Cache.writeEntry_eq]
    show Paired _ ((batch.merge cache entry payload >>= _) >>= _) _
    rw [bind_assoc, bind_assoc]
    refine (h.merge cache entry payload).bind fun (batch', told) (single, found) extended => ?_
    dsimp only at extended ⊢
    obtain ⟨outcome, committed, edited, -, warnings⟩ := commit_unfrozen unfrozen single
    rw [committed, ← bind_pure (batch'.mergeAll cache rest >>= _)]
    -- The next payload finds the same nodes on both sides, since the commit in between only
    -- copies nodes.
    have stands : batch'.StandsAt outcome.commit.graph :=
      ⟨extended.twin.nodes.trans (nodes_commit untransformed committed).symm, extended.orphans⟩
    refine (ih stands).bind fun result outcomes further => .ok ⟨?_, fun id => ?_, ?_, ?_⟩
    · exact further.graph
    · rw [further.edited, extended.twin.edited, ← edited, or_assoc]
      simp only [List.mem_cons, exists_eq_or_imp]
    · rw [further.warnings, extended.warnings, List.flatMap_cons, warnings, List.append_assoc]
    · rw [further.written, extended.written, List.map_cons, List.foldl_cons]

end Batch

/-- Without a transformer, and without verifying, a batch of payloads and the payloads by
themselves fail with the same error or lead to the same graph. -/
theorem Cache.together_joins_each {cache : Cache} (untransformed : cache.transform = none)
    (unfrozen : cache.config.freezeSnapshots = false) (graph : Graph)
    (merges : List (Registered × Json)) :
    Paired (Outcome.Joins graph (merges.map Prod.fst)) (cache.commitTogether graph merges)
      (cache.commitEach graph merges) := by
  have stands : (Batch.ofGraph graph).StandsAt graph := ⟨rfl, rfl⟩
  refine (stands.continues untransformed unfrozen merges).mono fun outcome outcomes continued => ?_
  refine ⟨continued.graph, fun id => ?_, continued.warnings, ?_⟩
  · rw [continued.edited]
    refine or_iff_right fun edited => ?_
    cases edited
  · rw [continued.written, Batch.foldl_record]
    exact congrArg Registered.distinct (List.filter_eq_self.mpr fun _ _ => rfl)

/-- The second payload takes the place of the entity of the first one, which is collected, and
the third one brings the entity back. -/
theorem Cache.together_joins_each_brought_back :
    ∃ (cache : Cache) (merges : List (Registered × Json)) (outcome : Outcome)
      (outcomes : List Outcome), cache.commitTogether .empty merges = .ok outcome ∧
      cache.commitEach .empty merges = .ok outcomes ∧ outcomes.length = 3 ∧
      outcome.commit.graph.keys = ["1", "ROOT_QUERY"] ∧
      outcome.commit.edited.keys = ["1", "2", "ROOT_QUERY"] ∧
      Outcome.Joins .empty (merges.map Prod.fst) outcome outcomes := by
  let cache := Cache.new .default
  let request := Request.query "\x7b viewer \x7b id \x7d \x7d"
  let payload (id : String) := Json.object [("viewer", .object [("id", .string id)])]
  let merges (entry : Registered) :=
    [(entry, payload "1"), (entry, payload "2"), (entry, payload "1")]
  have test : (cache.prepare request).2.toOption.any fun entry =>
      ((cache.commitTogether .empty (merges entry)).toOption.any fun outcome =>
        decide (outcome.commit.graph.keys = ["1", "ROOT_QUERY"] ∧
          outcome.commit.edited.keys = ["1", "2", "ROOT_QUERY"])) &&
      (cache.commitEach .empty (merges entry)).toOption.any fun outcomes =>
        decide (outcomes.length = 3) := by
    decide +kernel
  obtain ⟨entry, -, test⟩ := Option.any_eq_true _ _ |>.mp test
  rw [Bool.and_eq_true] at test
  obtain ⟨outcome, together, keys⟩ := Option.any_eq_true _ _ |>.mp test.1
  obtain ⟨outcomes, each, length⟩ := Option.any_eq_true _ _ |>.mp test.2
  have joined := cache.together_joins_each rfl rfl .empty (merges entry)
  have together := eq_ok_of_toOption together
  have each := eq_ok_of_toOption each
  rw [together, each] at joined
  cases joined with
  | ok joins =>
    have keys := of_decide_eq_true keys
    exact ⟨cache, merges entry, outcome, outcomes, together, each, of_decide_eq_true length,
      keys.1, keys.2, joins⟩

end ResponseGraph
