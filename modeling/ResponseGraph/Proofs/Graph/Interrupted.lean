import ResponseGraph.Proofs.Graph.Upgraded

/-!
Migrations that fail.

A migration changes the graph where it is, and a seed with a variable in its arguments shows only
when the migration comes to it.  What was done by then stays.  Whether there is such a seed does
not depend on the order of the entities, but what the graph holds after the failure does.
-/

namespace ResponseGraph
namespace Graph

open NodeId

variable {graph : Graph} {migrations : Migrations} {order : List (NodeId × String)}

/-- A migration fails in one order if it fails in another. -/
theorem migrateIn_eq_error_iff (perm : order.Perm graph.typedEntities) :
    (∃ state e, graph.migrateIn migrations order = (state, .error e)) ↔
      ∃ entity ∈ graph.typedEntities, ∃ seed ∈ migrations.seedsOf entity.2, ¬ seed.Closed := by
  rcases migrateIn_cases migrations perm with ⟨closed, last, done, -⟩ |
    ⟨stop, first, e, last, -, failed, -⟩
  · refine iff_of_false ?_ ?_
    · rintro ⟨state, e, failed⟩
      cases done.symm.trans failed
    · rintro ⟨entity, typed, seed, member, stuck⟩
      exact stuck (closed entity typed seed member)
  · have typed := perm.mem_iff.mp first.entity_mem
    exact iff_of_true ⟨last, e, failed⟩ ⟨_, typed, _, first.seed_mem, first.stuck⟩

/-- A migration that fails names the first variable of the seed where it stopped.  The entities
before were migrated, and of the last one the fields were changed and the earlier seeds were sown.
Everything else is as it was. -/
theorem migrateIn_stops (perm : order.Perm graph.typedEntities) {state : Migrating}
    {e : UsageError} (failed : graph.migrateIn migrations order = (state, .error e)) :
    ∃ stop : Stop, stop.Of migrations order ∧
      (∃ name, stop.seed.arguments.openVariable? = some name ∧ e = .openVariable name) ∧
      state.graph.node? = stop.nodes migrations graph.node? ∧
      ∀ id, (∀ entity ∈ stop.done ++ [stop.entity], ¬ migrations.Share entity id) →
        state.graph.node? id = graph.node? id := by
  rcases migrateIn_cases migrations perm with ⟨-, last, done, -⟩ |
    ⟨stop, first, e', last, missing, failed', nodes⟩
  · cases failed.symm.trans done
  · cases failed.symm.trans failed'
    refine ⟨stop, first, Seed.address_eq_error_iff.mp missing, nodes, fun id apart => ?_⟩
    have notHere := apart stop.entity (List.mem_append_right _ List.mem_cons_self)
    have notDone : ∀ entity ∈ stop.done, ¬ migrations.Share entity id :=
      fun entity member => apart entity (List.mem_append_left _ member)
    have among : stop.earlier ⊆ migrations.seedsOf stop.entity.2 := by
      rw [first.seeds]
      exact List.subset_append_left _ _
    rw [nodes]
    unfold Stop.nodes
    rw [(Nodes.localTo_sowAll among).outside _ id notHere,
      (Nodes.localTo_revise migrations stop.entity).outside _ id fun same => notHere (Or.inl same),
      Nodes.migrateAll_of_not_share notDone]

/-- The variable over which a migration fails. -/
def openVariable? : Except UsageError Unit → Option String
  | .error (.openVariable name) => some name
  | _ => none

theorem eq_error_of_openVariable? {result : Except UsageError Unit} {name : String}
    (h : openVariable? result = some name) : result = .error (.openVariable name) := by
  unfold openVariable? at h
  split at h
  · cases h
    rfl
  · cases h

/-- The name of a user, if the graph has it. -/
def name? (graph : Graph) (id : NodeId) : Option String :=
  (((graph.node? id).bind Node.data).bind (Value.member? "name")).bind Value.string?

/-- A user is stored, and a migration writes names in capital letters and seeds a field of the root
for a page that is not bound.  It fails at the root, before or after it comes to the user. -/
theorem exists_interrupted : ∃ graph migrations state state', Reached graph ∧
    graph.migrate migrations = (state, .error (.openVariable "page")) ∧
    graph.migrateIn migrations graph.typedEntities.reverse =
      (state', .error (.openVariable "page")) ∧
    graph.name? "1" = some "ada" ∧ state.graph.name? "1" = some "ADA" ∧
    state'.graph.name? "1" = some "ada" := by
  let cache := Cache.new .default
  let request := Request.query "\x7b viewer \x7b __typename id name \x7d \x7d"
  let payload := Json.object [("viewer", .object [("__typename", .string "User"),
    ("id", .string "1"), ("name", .string "ada")])]
  let migrations := (Migrations.empty.addField "User" "name" .upper).addSeed "Query"
    ⟨[.key "feed"], [("page", .variable "page")], .null⟩
  let passes (graph : Graph) := decide (
    openVariable? (graph.migrate migrations).2 = some "page" ∧
    openVariable? (graph.migrateIn migrations graph.typedEntities.reverse).2 = some "page" ∧
    graph.name? "1" = some "ada" ∧
    (graph.migrate migrations).1.graph.name? "1" = some "ADA" ∧
    (graph.migrateIn migrations graph.typedEntities.reverse).1.graph.name? "1" = some "ada")
  have test : cache.test request payload (fun entry => decide (entry.Plain cache payload)) passes
      .empty := by
    decide +kernel
  obtain ⟨entry, outcome, prepared, plain, written, test⟩ := Cache.exists_of_test test
  obtain ⟨here, there, names⟩ := of_decide_eq_true test
  have reached := Reached.step .empty (.write prepared (of_decide_eq_true plain) written)
  exact ⟨_, migrations, _, _, reached, Prod.ext rfl (eq_error_of_openVariable? here),
    Prod.ext rfl (eq_error_of_openVariable? there), names⟩

/-- The migration of that user stops at the seed for the page. -/
theorem migrateIn_stops_at_page : ∃ (graph : Graph) (migrations : Migrations) (state : Migrating)
    (stop : Stop), Reached graph ∧
    graph.migrate migrations = (state, .error (.openVariable "page")) ∧
    stop.Of migrations graph.typedEntities ∧
    stop.seed.arguments.openVariable? = some "page" ∧
    state.graph.node? = stop.nodes migrations graph.node? := by
  obtain ⟨graph, migrations, state, -, reached, failed, -⟩ := exists_interrupted
  obtain ⟨stop, first, ⟨name, found, same⟩, nodes, -⟩ := migrateIn_stops (List.Perm.refl _) failed
  cases same
  exact ⟨graph, migrations, state, stop, reached, failed, first, found, nodes⟩

/-- The graph after a failure is not the graph before, and not the same for every order. -/
theorem changed_by_failed_migration : ∃ graph migrations state state', Reached graph ∧
    graph.migrate migrations = (state, .error (.openVariable "page")) ∧ state.graph ≠ graph ∧
    graph.migrateIn migrations graph.typedEntities.reverse =
      (state', .error (.openVariable "page")) ∧ state'.graph ≠ state.graph := by
  obtain ⟨graph, migrations, state, state', reached, failed, failed', before, after, other⟩ :=
    exists_interrupted
  refine ⟨graph, migrations, state, state', reached, failed, fun same => ?_, failed',
    fun same => ?_⟩
  · rw [same, before] at after
    exact absurd after (by decide)
  · rw [same, after] at other
    exact absurd other (by decide)

end Graph
end ResponseGraph
