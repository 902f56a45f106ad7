import Mathlib.Data.Fintype.Card
import Mathlib.Data.Set.Finite.Basic
import Mathlib.Order.WellFounded
import ResponseGraph.Proofs.Graph.References
import ResponseGraph.Proofs.Graph.Visibility
import ResponseGraph.Proofs.Payload.Attended

/-!
What a collection leaves.

A merge collects the nodes that nothing links any longer.  So whatever is left is linked from
the root, at some distance, unless references go round in a circle: entities that refer to each
other keep each other, and all that they lead to, even when nothing else does.
-/

namespace ResponseGraph

open Nodes NodeId

/-- The transformer brings no reference that was not there. -/
def Transform.Conserves (f : Transform) : Prop :=
  ∀ value path id, (f value).get? path = some (.reference id) →
    value.get? path = some (.reference id)

namespace Graph

/-- The node leads back to itself. -/
def OnCycle (graph : Graph) (id : NodeId) : Prop :=
  ∃ link ∈ Nodes.links graph.node? .outbound id, graph.Leads link.node id

variable {graph : Graph} {root id : NodeId}

/-- If all nodes but the root are linked, a node can be traced back to the root or to a cycle. -/
theorem leads_from_root_or_cycle (sound : graph.Sound)
    (attended : Nodes.Attended root (fun _ => False) graph.node?) (has : graph.contains id) :
    graph.Leads root id ∨ ∃ middle, graph.OnCycle middle ∧ graph.Leads middle id := by
  refine or_iff_not_imp_right.mpr fun acyclic => ?_
  let Above := { other : NodeId // graph.contains other ∧ graph.Leads other id }
  let Before (a b : Above) : Prop :=
    ∃ link ∈ Nodes.links graph.node? .outbound a.1, graph.Leads link.node b.1
  have finite : Finite Above := by
    refine Set.Finite.subset (List.finite_toSet graph.keys) fun other here => ?_
    exact Table.mem_keys_iff.mpr here.1
  have transitive : IsTrans Above Before := by
    refine ⟨fun a b c first second => ?_⟩
    obtain ⟨link, linked, leads⟩ := first
    obtain ⟨next, linked', leads'⟩ := second
    exact ⟨link, linked, (leads.on linked').trans leads'⟩
  have irreflexive : Std.Irrefl Before :=
    ⟨fun a cycle => acyclic ⟨a.1, cycle, a.2.2⟩⟩
  -- A first one of the nodes that lead to the given one is linked from no other.
  obtain ⟨⟨first, present, leads⟩, -, least⟩ :=
    (Finite.wellFounded_of_trans_of_irrefl Before).has_min Set.univ ⟨⟨id, has, .here⟩, trivial⟩
  rcases attended first present with rfl | impossible | linked
  · exact leads
  · exact impossible.elim
  · obtain ⟨link, member⟩ := List.exists_mem_of_ne_nil _ linked
    have forth := (sound.mirrored link.node first link.path).mpr member
    have above : graph.Leads link.node id := (Leads.here.on forth).trans leads
    exact absurd ⟨_, forth, .here⟩
      (least ⟨link.node, has_of_mem forth, above⟩ trivial)

end Graph

/-! ## Commits -/

namespace Draft

theorem read_transformed (transform : Option (Value → Value)) (edited : NameSet) (id : NodeId)
    (node : Node) (path : Path) : (transformed transform edited id node).get? path = node.get? path ∨
      ∃ f, transform = some f ∧
        (transformed transform edited id node).get? path =
          node.data.bind fun data => (f data).get? path := by
  unfold transformed
  cases transform with
  | none => exact Or.inl rfl
  | some f =>
    dsimp only
    split
    · refine Or.inr ⟨f, rfl, ?_⟩
      unfold Node.get?
      cases node.data <;> rfl
    · exact Or.inl rfl

/-- A commit brings no reference if the transformer brings none. -/
theorem reference_of_committed {transform : Option (Value → Value)} {draft : Draft}
    (conserves : ∀ f, transform = some f → Transform.Conserves f) {id target : NodeId} {path : Path}
    (stored : Nodes.read (draft.committed transform).graph.node? id path =
      some (.reference target)) :
    Nodes.read draft.node? id path = some (.reference target) := by
  have same : draft.ownAncestors.node? id = draft.node? id := by rw [nodes_ownAncestors]
  unfold committed at stored
  dsimp only at stored
  unfold Nodes.read at stored ⊢
  rw [node?_graph, node?_transforming] at stored
  rw [← same]
  unfold node?
  cases found : draft.ownAncestors.changes.get? id with
  | none =>
    rw [found] at stored
    exact stored
  | some change =>
    rw [found] at stored
    cases change with
    | none => cases stored
    | some node =>
      change (transformed _ _ _ node).get? path = _ at stored
      show node.get? path = _
      rcases read_transformed transform draft.ownAncestors.edited id node path with e | ⟨f, given, e⟩
      · rw [← e, stored]
      · rw [stored] at e
        obtain ⟨data, held, here⟩ := Option.bind_eq_some_iff.mp e.symm
        unfold Node.get?
        rw [held]
        exact conserves f given data path target here

end Draft

/-! ## Writes -/

/-- The payload belongs to the root of queries and says one thing about each place. -/
structure Registered.ConsistentQuery (entry : Registered) (cache : Cache) (payload : Json) :
    Prop where
  query : entry.operation.root = queryRoot
  named : Visit.Named (entry.visits cache payload)
  consistent : Visit.Consistent (entry.visits cache payload)

instance (entry : Registered) (cache : Cache) (payload : Json) :
    Decidable (entry.ConsistentQuery cache payload) :=
  decidable_of_iff
    (entry.operation.root = queryRoot ∧ Visit.Named (entry.visits cache payload) ∧
      Visit.Consistent (entry.visits cache payload))
    ⟨fun ⟨query, named, consistent⟩ => ⟨query, named, consistent⟩,
      fun query => ⟨query.query, query.named, query.consistent⟩⟩

/-- The transformer of the cache, if there is one, brings no reference. -/
def Cache.Conserves (cache : Cache) : Prop := ∀ f, cache.transform = some f → Transform.Conserves f

/-- The write of a consistent query by a cache that brings no references by itself. -/
structure Registered.ConservingQuery (entry : Registered) (cache : Cache) (_graph : Graph)
    (payload : Json) : Prop where
  conserves : cache.Conserves
  query : entry.ConsistentQuery cache payload

namespace Graph

/-- Every reference is linked, and so is every node but the root of queries. -/
structure Kept (graph : Graph) : Prop where
  sound : graph.Sound
  backed : Backed graph.node?
  attended : Nodes.Attended queryRoot (fun _ => False) graph.node?

theorem kept_empty : Kept empty :=
  ⟨sound_empty, fun _ _ _ stored => (by cases stored), fun _ has => (by cases has)⟩

variable {graph : Graph} {cache : Cache} {request : Request} {payload : Json} {entry : Registered}
  {outcome : Outcome}

theorem Kept.write (kept : graph.Kept) (prepared : (cache.prepare request).2 = .ok entry)
    (clean : entry.ConservingQuery cache graph payload)
    (written : (cache.write graph request payload).2.2 = .ok outcome) :
    outcome.commit.graph.Kept := by
  obtain ⟨conserves, clean⟩ := clean
  obtain ⟨batch, warnings, merged, committed⟩ := Cache.write_eq_ok prepared written
  obtain ⟨members, walk, seen, -, finished, traced, within, -⟩ :=
    Draft.merge_traced (Batch.draft_merge merged)
  have plain : entry.Plain cache payload := ⟨clean.query ▸ whole_queryRoot, clean.named⟩
  rw [clean.query] at traced
  have start : Walk.Attended queryRoot (.ofDraft (.ofGraph graph))
      [.brought (.root queryRoot) .object] :=
    .start kept.sound whole_queryRoot kept.backed kept.attended
  have done := (traced.run.attended (clean.named.mono within) start).finish
    (clean.consistent.mono within)
  rw [← finished] at done
  have commit := Draft.eq_committed (Batch.commit_eq_ok committed)
  refine ⟨((Batch.sound_ofGraph kept.sound).merge plain merged).commit committed, ?_, ?_⟩
  · intro id path target stored
    rw [commit] at stored ⊢
    rw [Draft.links_committed]
    exact done.1 id path target (Draft.reference_of_committed conserves stored)
  · rw [commit]
    refine done.2.of_links (fun id has => ?_) fun id => Draft.links_committed _ _ _ _
    rw [← has_shapes, Draft.shapes_committed, has_shapes] at has
    exact has

namespace ReachedBy

theorem kept (h : ReachedBy Registered.ConservingQuery graph) : graph.Kept := by
  induction h with
  | empty => exact kept_empty
  | write _ prepared clean written ih => exact ih.write prepared clean written

/-- Every node that is left by consistent queries can be reached from the root, or from a node on
a cycle of references. -/
theorem reached_from_root_or_cycle (h : ReachedBy Registered.ConservingQuery graph) {id : NodeId}
    (has : graph.contains id) :
    graph.Leads queryRoot id ∨ ∃ middle, graph.OnCycle middle ∧ graph.Leads middle id :=
  leads_from_root_or_cycle h.kept.sound h.kept.attended has

/-- Two users are friends of each other, and then the root refers to neither.  Both are left. -/
theorem reached_from_root_or_cycle_of_friends :
    ∃ graph, ReachedBy Registered.ConservingQuery graph ∧
      graph.keys = ["1", "2", "ROOT_QUERY"] ∧ ¬ graph.Leads queryRoot "1" ∧
      ∃ middle, graph.OnCycle middle ∧ graph.Leads middle "1" := by
  let cache := Cache.new .default
  let request := Request.query "\x7b me \x7b id friend \x7b id friend \x7b id \x7d \x7d \x7d \x7d"
  let user (id : String) (members : List (String × Json)) :=
    Json.object (("id", .string id) :: members)
  let friends := Json.object [("me", user "1" [("friend", user "2" [("friend", user "1" [])])])]
  let nobody := Json.object [("me", .null)]
  let write (payload : Json) := cache.test request payload
    fun entry => decide (entry.ConsistentQuery cache payload)
  let left (graph : Graph) := decide (graph.keys = ["1", "2", "ROOT_QUERY"]) &&
    decide (Nodes.links graph.node? .outbound queryRoot = [])
  have test : write friends (write nobody left) .empty := by decide +kernel
  obtain ⟨entry, first, prepared, clean, written, test⟩ := Cache.exists_of_test test
  obtain ⟨entry', second, prepared', clean', written', test⟩ := Cache.exists_of_test test
  have conserves : cache.Conserves := fun _ given => by cases given
  have consistent : entry.ConservingQuery cache .empty friends :=
    ⟨conserves, of_decide_eq_true clean⟩
  have consistent' : entry'.ConservingQuery cache first.commit.graph nobody :=
    ⟨conserves, of_decide_eq_true clean'⟩
  have reached := ReachedBy.write (.write .empty prepared consistent written) prepared'
    consistent' written'
  obtain ⟨keys, alone⟩ := (Bool.and_eq_true _ _).mp test
  have keys := of_decide_eq_true keys
  have stays (target : NodeId) (leads : second.commit.graph.Leads queryRoot target) :
      target = queryRoot := by
    induction leads with
    | here => rfl
    | on _ linked same =>
      rw [same, of_decide_eq_true alone] at linked
      cases linked
  have apart : ¬ second.commit.graph.Leads queryRoot "1" :=
    fun leads => absurd (stays "1" leads) (by decide +kernel)
  have has : second.commit.graph.contains "1" := by
    rw [← Table.mem_keys_iff, keys]
    exact List.mem_cons_self
  exact ⟨_, reached, keys, apart, (reached.reached_from_root_or_cycle has).resolve_left apart⟩

end ReachedBy
end Graph
end ResponseGraph
