import ResponseGraph.Proofs.Field.Prepared
import ResponseGraph.Proofs.Graph.References
import ResponseGraph.Proofs.Payload.InStep

/-!
Skipping is an optimisation.

A write goes into an entity once for every set of fields.  If the payload does not contradict
itself, a write that goes into every object fails in the same way, or it gives the same nodes with
the same kinds and data, the same links up to their order, and edits the same nodes.

It gives them in another way.  A reference of a skipped member is found to be changed once more,
and all changes are made after the walk, when those before have been made.
-/

namespace ResponseGraph

open Nodes NodeId

/-- A payload that does not contradict itself.  The labels of the fields tell them apart, as those
of every prepared operation do. -/
structure Registered.Sincere (entry : Registered) (cache : Cache) (_graph : Graph)
    (payload : Json) : Prop where
  untransformed : cache.transform = none
  /-- Null is no entity. -/
  unnamed : cache.identity.nonempty .null = none
  labelled : entry.operation.Labelled
  named : Visit.Named (entry.visits cache payload)
  coherent : Visit.Coherent (entry.visits cache payload)

namespace Registered

variable {entry : Registered} {cache : Cache} {graph : Graph} {payload : Json}

theorem Clean.sincere (clean : entry.Clean cache graph payload)
    (labelled : entry.operation.Labelled) : entry.Sincere cache graph payload :=
  ⟨clean.untransformed, clean.unnamed, labelled, clean.plain.2, clean.consistent.coherent⟩

theorem Sincere.merge_level (sincere : entry.Sincere cache graph payload)
    (upheld : Upheld graph.node?) :
    Paired (fun skipped afresh => Upheld skipped.1.node? ∧ Upheld afresh.1.node? ∧
        Draft.Level skipped.1 afresh.1)
      ((Draft.ofGraph graph).merge cache.identity.nonempty entry.operation.root
        entry.operation.selection.fields payload)
      ((Draft.ofGraph graph).mergeAfresh cache.identity.nonempty entry.operation.root
        entry.operation.selection.fields payload) := by
  obtain ⟨labels, known⟩ := sincere.labelled
  exact Draft.merge_level upheld sincere.unnamed sincere.named sincere.coherent known.proper.known

end Registered

namespace Graph.ReachedBy

variable {graph : Graph} {entry : Registered} {cache : Cache} {payload : Json}

theorem upheld (h : ReachedBy Registered.Sincere graph) : Upheld graph.node? := by
  induction h with
  | empty => exact .empty
  | write _ prepared sincere written ih =>
    obtain ⟨batch, warnings, merged, committed⟩ := Cache.write_eq_ok prepared written
    rw [Batch.nodes_commit sincere.untransformed committed]
    obtain ⟨-, -, upheld, -⟩ :=
      (sincere.merge_level ih).exists_of_eq_ok (Batch.draft_merge merged)
    exact upheld

/-- To skip an entity that was merged with the same set is only an optimisation. -/
theorem merge_skips_nothing_new (h : ReachedBy Registered.Sincere graph)
    (sincere : entry.Sincere cache graph payload) :
    Paired (fun skipped afresh => Nodes.Shuffled skipped.1.node? afresh.1.node? ∧
        skipped.1.edited = afresh.1.edited)
      ((Draft.ofGraph graph).merge cache.identity.nonempty entry.operation.root
        entry.operation.selection.fields payload)
      ((Draft.ofGraph graph).mergeAfresh cache.identity.nonempty entry.operation.root
        entry.operation.selection.fields payload) :=
  (sincere.merge_level h.upheld).mono fun _ _ => fun ⟨one, two, level⟩ =>
    ⟨level.nodes.shuffled one.nodup two.nodup, level.edited⟩

/-- A user is listed twice, with another best friend than before.  The write finds the change of
the friend once, and a write that does not skip finds it twice. -/
theorem merge_skips_nothing_new_of_repeated_user :
    ∃ (graph : Graph) (entry : Registered) (cache : Cache) (payload : Json) (walk more : Walk),
      ReachedBy Registered.Sincere graph ∧ entry.Sincere cache graph payload ∧
      (Draft.ofGraph graph).merge cache.identity.nonempty entry.operation.root
        entry.operation.selection.fields payload = .ok (walk.finish, walk.warnings) ∧
      (Draft.ofGraph graph).mergeAfresh cache.identity.nonempty entry.operation.root
        entry.operation.selection.fields payload = .ok (more.finish, more.warnings) ∧
      walk.changes.length = 2 ∧ more.changes.length = 3 ∧
      Nodes.Shuffled walk.finish.node? more.finish.node? ∧
      walk.finish.edited = more.finish.edited := by
  let cache := Cache.new .default
  let request := Request.query "\x7b users \x7b id best \x7b id \x7d \x7d \x7d"
  let user (id best : String) := Json.object [("id", .string id),
    ("best", .object [("id", .string best)])]
  let before := Json.object [("users", .array [user "1" "2"])]
  let members := [("users", Json.array [user "1" "3", user "1" "3"])]
  let walk (graph : Graph) (entry : Registered) :=
    Fields.merge cache.identity.nonempty (.root entry.operation.root) members
      entry.operation.selection.fields (.ofDraft (.ofGraph graph))
  let more (graph : Graph) (entry : Registered) :=
    Fields.mergeAfresh cache.identity.nonempty (.root entry.operation.root) members
      entry.operation.selection.fields (.ofDraft (.ofGraph graph))
  let finds (graph : Graph) (entry : Registered) : Bool :=
    (walk graph entry).toOption.any (fun walk => walk.changes.length == 2) &&
      (more graph entry).toOption.any fun more => more.changes.length == 3
  let write (payload : Json) (allowed : Graph → Registered → Bool) (passes : Graph → Bool)
      (graph : Graph) :=
    cache.test request payload
      (fun entry => decide (entry.Clean cache graph payload) && allowed graph entry) passes graph
  have test : write before (fun _ _ => true) (write (.object members) finds fun _ => true)
      .empty := by
    decide +kernel
  obtain ⟨entry, first, prepared, clean, written, test⟩ := Cache.exists_of_test test
  obtain ⟨entry', second, prepared', clean', -, -⟩ := Cache.exists_of_test test
  obtain ⟨clean, -⟩ := (Bool.and_eq_true _ _).mp clean
  obtain ⟨clean', found⟩ := (Bool.and_eq_true _ _).mp clean'
  obtain ⟨once, twice⟩ := (Bool.and_eq_true _ _).mp found
  obtain ⟨done, walked, two⟩ := (Option.any_eq_true _ _).mp once
  obtain ⟨again, walked', three⟩ := (Option.any_eq_true _ _).mp twice
  have reached := ReachedBy.write .empty prepared
    ((of_decide_eq_true clean).sincere (Registry.Grown.empty.known prepared)) written
  have sincere := (of_decide_eq_true clean').sincere (Registry.Grown.empty.known prepared')
  have skips := reached.merge_skips_nothing_new sincere
  have merged : (Draft.ofGraph first.commit.graph).merge cache.identity.nonempty
      entry'.operation.root entry'.operation.selection.fields (.object members) =
        .ok (done.finish, done.warnings) := congrArg (· >>= _) (eq_ok_of_toOption walked)
  have merged' : (Draft.ofGraph first.commit.graph).mergeAfresh cache.identity.nonempty
      entry'.operation.root entry'.operation.selection.fields (.object members) =
        .ok (again.finish, again.warnings) := congrArg (· >>= _) (eq_ok_of_toOption walked')
  obtain ⟨other, made, same⟩ := skips.exists_of_eq_ok merged
  rw [merged'] at made
  cases made
  exact ⟨_, entry', cache, .object members, done, again, reached, sincere, merged, merged',
    beq_iff_eq.mp two, beq_iff_eq.mp three, same⟩

end Graph.ReachedBy
end ResponseGraph
