import ResponseGraph.Cache
import ResponseGraph.Proofs.Migration.Sown
import ResponseGraph.Proofs.Payload.Sound

/-!
Histories of graphs.

A graph is reached from the empty one by writes, edits and migrations that succeed, with
any caches, operations, payloads and migrations.  All that is asked is that the names of
entities do not look like the names of values of fields with arguments.

Every reached graph is sound, so its references are verified at both ends.
-/

namespace ResponseGraph

open NodeId (Whole)

/-- All positions of a payload that an operation selects. -/
def Registered.visits (entry : Registered) (cache : Cache) (payload : Json) : List Visit :=
  Visit.ofPayload cache.identity.nonempty entry.operation.root entry.operation.selection.fields
    payload

/-- Neither the root of the operation nor an id that the cache gives to an object of the
payload has a separator. -/
def Registered.Plain (entry : Registered) (cache : Cache) (payload : Json) : Prop :=
  Whole entry.operation.root ∧ Visit.Named (entry.visits cache payload)

instance (entry : Registered) (cache : Cache) (payload : Json) :
    Decidable (entry.Plain cache payload) :=
  inferInstanceAs (Decidable (_ ∧ _))

namespace Batch

/-- Merges payloads one after another. -/
def mergeAll (cache : Cache) : List (Registered × Json) → Batch → Except Error Batch
  | [], batch => .ok batch
  | (entry, payload) :: rest, batch => do
    let (batch, _) ← batch.merge cache entry payload
    mergeAll cache rest batch

/-- The nodes of the draft are sound. -/
def Sound (batch : Batch) : Prop := Nodes.Sound (fun _ => False) batch.draft.node?

theorem draft_merge {cache : Cache} {entry : Registered} {payload : Json} {batch batch' : Batch}
    {warnings : List String} (h : batch.merge cache entry payload = .ok (batch', warnings)) :
    batch.draft.merge cache.identity.nonempty entry.operation.root
      entry.operation.selection.fields payload = .ok (batch'.draft, warnings) := by
  unfold merge at h
  obtain ⟨⟨draft, found⟩, merged, h⟩ := exists_of_bind_eq_ok h
  cases h
  exact merged

theorem Sound.merge {cache : Cache} {entry : Registered} {payload : Json} {batch batch' : Batch}
    {warnings : List String} (h : batch.Sound) (plain : entry.Plain cache payload)
    (merged : batch.merge cache entry payload = .ok (batch', warnings)) : batch'.Sound :=
  Draft.sound_merge h plain.1 plain.2 (draft_merge merged)

theorem Sound.mergeAll {cache : Cache} {merges : List (Registered × Json)} {batch batch' : Batch}
    (h : batch.Sound) (plain : ∀ merge ∈ merges, merge.1.Plain cache merge.2)
    (merged : batch.mergeAll cache merges = .ok batch') : batch'.Sound := by
  induction merges generalizing batch with
  | nil =>
    cases merged
    exact h
  | cons merge rest ih =>
    obtain ⟨entry, payload⟩ := merge
    obtain ⟨⟨middle, warnings⟩, first, merged⟩ := exists_of_bind_eq_ok merged
    exact ih (h.merge (plain _ List.mem_cons_self) first)
      (fun merge member => plain merge (List.mem_cons_of_mem _ member)) merged

theorem sound_ofGraph {graph : Graph} (h : graph.Sound) : (ofGraph graph).Sound := h

theorem commit_eq_ok {cache : Cache} {batch : Batch} {outcome : Outcome}
    (h : batch.commit cache = .ok outcome) :
    batch.draft.commit cache.transform cache.config.freezeSnapshots = .ok outcome.commit := by
  unfold commit at h
  split at h
  · next commit committed =>
    cases h
    exact committed
  · cases h

/-- Without a transformer a commit leaves the nodes of the draft as they are. -/
theorem nodes_commit {cache : Cache} {batch : Batch} {outcome : Outcome}
    (untransformed : cache.transform = none) (h : batch.commit cache = .ok outcome) :
    outcome.commit.graph.node? = batch.draft.node? := by
  have commit := commit_eq_ok h
  rw [untransformed] at commit
  exact Draft.nodes_commit_none commit

/-- The commit of a sound batch makes a sound graph. -/
theorem Sound.commit {cache : Cache} {batch : Batch} {outcome : Outcome} (h : batch.Sound)
    (committed : batch.commit cache = .ok outcome) : outcome.commit.graph.Sound :=
  Draft.sound_commit h (commit_eq_ok committed)

/-- The commit of a sound batch does not fail. -/
theorem Sound.exists_commit {batch : Batch} (h : batch.Sound) (cache : Cache) :
    ∃ outcome, batch.commit cache = .ok outcome := by
  obtain ⟨commit, committed⟩ := Draft.exists_commit h cache.transform cache.config.freezeSnapshots
  unfold Batch.commit
  rw [committed]
  exact ⟨_, rfl⟩

end Batch

/-- A successful write merges one payload and commits. -/
theorem Cache.write_eq_ok {cache : Cache} {graph : Graph} {request : Request} {payload : Json}
    {entry : Registered} {outcome : Outcome} (prepared : (cache.prepare request).2 = .ok entry)
    (h : (cache.write graph request payload).2.2 = .ok outcome) :
    ∃ batch warnings, (Batch.ofGraph graph).merge cache entry payload = .ok (batch, warnings) ∧
      batch.commit cache = .ok outcome := by
  unfold write at h
  split at h
  · cases h
  · next cache' entry' found =>
    rw [found] at prepared
    cases prepared
    have config : cache'.config = cache.config := congrArg (fun pair => pair.1.config) found.symm
    have identity : cache'.identity = cache.identity :=
      congrArg (fun pair => pair.1.identity) found.symm
    have transform : cache'.transform = cache.transform :=
      congrArg (fun pair => pair.1.transform) found.symm
    have same : cache' = { cache with registry := cache'.registry } := by
      cases cache'
      cases config
      cases identity
      cases transform
      rfl
    rw [same] at h
    unfold writeEntry at h
    dsimp only at h
    split at h
    · cases h
    · next batch warnings merged =>
      split at h
      · cases h
      · next committed =>
        cases h
        exact ⟨batch, warnings, merged, committed⟩

/-- A write by an operation that is allowed succeeds, and its graph passes a test. -/
def Cache.test (cache : Cache) (request : Request) (payload : Json) (allowed : Registered → Bool)
    (passes : Graph → Bool) (graph : Graph) : Bool :=
  (cache.prepare request).2.toOption.any allowed &&
    (cache.write graph request payload).2.2.toOption.any fun outcome => passes outcome.commit.graph

theorem Cache.exists_of_test {cache : Cache} {request : Request} {payload : Json}
    {allowed : Registered → Bool} {passes : Graph → Bool} {graph : Graph}
    (h : cache.test request payload allowed passes graph) :
    ∃ entry outcome, (cache.prepare request).2 = .ok entry ∧ allowed entry ∧
      (cache.write graph request payload).2.2 = .ok outcome ∧ passes outcome.commit.graph := by
  rw [test, Bool.and_eq_true] at h
  obtain ⟨ready, wrote⟩ := h
  cases prepared : (cache.prepare request).2 with
  | error e =>
    rw [prepared] at ready
    cases ready
  | ok entry =>
    rw [prepared] at ready
    cases written : (cache.write graph request payload).2.2 with
    | error e =>
      rw [written] at wrote
      cases wrote
    | ok outcome =>
      rw [written] at wrote
      exact ⟨entry, outcome, rfl, ready, rfl, wrote⟩

namespace Graph

/-- A step of a history. -/
inductive Becomes (graph : Graph) : Graph → Prop
  | write {cache : Cache} {request : Request} {payload : Json} {entry : Registered}
    {outcome : Outcome} (prepared : (cache.prepare request).2 = .ok entry)
    (plain : entry.Plain cache payload)
    (written : (cache.write graph request payload).2.2 = .ok outcome) :
    Becomes graph outcome.commit.graph
  | edit {cache : Cache} {merges : List (Registered × Json)} {batch : Batch} {outcome : Outcome}
    (plain : ∀ merge ∈ merges, merge.1.Plain cache merge.2)
    (merged : (Batch.ofGraph graph).mergeAll cache merges = .ok batch)
    (committed : batch.commit cache = .ok outcome) : Becomes graph outcome.commit.graph
  | migrate {migrations : Migrations} {state : Migrating}
    (migrated : graph.migrate migrations = (state, .ok ())) : Becomes graph state.graph

inductive Reached : Graph → Prop
  | empty : Reached .empty
  | step {graph graph' : Graph} (reached : Reached graph) (step : Becomes graph graph') :
    Reached graph'

theorem Becomes.sound {graph graph' : Graph} (h : Becomes graph graph') (sound : graph.Sound) :
    graph'.Sound := by
  have start := Batch.sound_ofGraph sound
  cases h with
  | write prepared plain written =>
    obtain ⟨batch, warnings, merged, committed⟩ := Cache.write_eq_ok prepared written
    exact (start.merge plain merged).commit committed
  | edit plain merged committed => exact (start.mergeAll plain merged).commit committed
  | migrate migrated => exact sound_migrate sound migrated

theorem Reached.sound {graph : Graph} (h : Reached graph) : graph.Sound := by
  induction h with
  | empty => exact sound_empty
  | step _ step ih => exact step.sound ih

/-- References keep both of their ends through every history, no list of links holds a
link twice, and so no commit of an edit fails, whether it verifies the graph or not. -/
theorem Reached.references_agree {graph : Graph} (h : Reached graph) :
    graph.verify = .ok () ∧
      (∀ id node, graph.node? id = some node → node.inbound.Nodup ∧ node.outbound.Nodup) ∧
      ∀ (cache : Cache) (merges : List (Registered × Json)) (batch : Batch),
        (∀ merge ∈ merges, merge.1.Plain cache merge.2) →
        (Batch.ofGraph graph).mergeAll cache merges = .ok batch →
        ∃ outcome, batch.commit cache = .ok outcome := by
  refine ⟨h.sound.verify, fun id node found => h.sound.nodup found, ?_⟩
  intro cache merges batch plain merged
  exact ((Batch.sound_ofGraph h.sound).mergeAll plain merged).exists_commit cache

/-- Two writes, of which the second takes the place of the entity that the first one stored:
its node and the node of its photo are collected. -/
theorem references_agree_after_two_writes :
    ∃ graph, Reached graph ∧
      graph.keys = ["2", "2❖[\"photo\"]❖\x7b\"size\":1\x7d", "ROOT_QUERY"] ∧
      graph.verify = .ok () := by
  let cache := Cache.new .default
  let request := Request.query "\x7b viewer \x7b id photo(size: 1) \x7d \x7d"
  let payload (id : String) :=
    Json.object [("viewer", .object [("id", .string id), ("photo", .string "a")])]
  let keys := ["2", "2❖[\"photo\"]❖\x7b\"size\":1\x7d", "ROOT_QUERY"]
  let write (id : String) (passes : Graph → Bool) := cache.test request (payload id)
    (fun entry => decide (entry.Plain cache (payload id))) passes
  have test : write "1" (write "2" fun graph => decide (graph.keys = keys)) .empty := by
    decide +kernel
  obtain ⟨entry, first, prepared, plain, written, test⟩ := Cache.exists_of_test test
  obtain ⟨entry', second, prepared', plain', written', same⟩ := Cache.exists_of_test test
  have reached := Reached.step (.step .empty (.write prepared (of_decide_eq_true plain) written))
    (.write prepared' (of_decide_eq_true plain') written')
  exact ⟨_, reached, of_decide_eq_true same, reached.references_agree.1⟩

end Graph
end ResponseGraph
