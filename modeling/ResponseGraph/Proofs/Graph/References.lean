import ResponseGraph.Proofs.Graph.History
import ResponseGraph.Proofs.Payload.CutOff

/-!
References in the data and in the lists of links.

A write is clean if the payload says one thing about each place, and if no value without
sub-selection lands where something is linked.  After clean writes the data of a node
refers to an entity exactly where the node links one, so no reference leads to a node
that was collected.
-/

namespace ResponseGraph

open Nodes NodeId

/-- A value without sub-selection lands neither on a reference to an entity nor above any
reference. -/
def Visit.Spares (graph : Graph) : Visit → Prop
  | .brought site (.leaf _) =>
    ∀ link ∈ Nodes.links graph.node? .outbound site.container, site.path <+: link.path →
      link.path = site.path ∧ ¬(graph.node? link.node).any Node.isEntity
  | _ => True

instance (graph : Graph) (visit : Visit) : Decidable (visit.Spares graph) := by
  unfold Visit.Spares
  split <;> infer_instance

/-- What a payload asks of the graph so that writing it is clean. -/
structure Registered.Clean (entry : Registered) (cache : Cache) (graph : Graph) (payload : Json) :
    Prop where
  untransformed : cache.transform = none
  /-- Null is no entity. -/
  unnamed : cache.identity.nonempty .null = none
  plain : entry.Plain cache payload
  consistent : Visit.Consistent (entry.visits cache payload)
  spared : ∀ visit ∈ entry.visits cache payload, visit.Spares graph

theorem Registered.clean_iff {entry : Registered} {cache : Cache} {graph : Graph} {payload : Json} :
    entry.Clean cache graph payload ↔ cache.transform.isNone ∧
      cache.identity.nonempty .null = none ∧ entry.Plain cache payload ∧
      Visit.Consistent (entry.visits cache payload) ∧
      ∀ visit ∈ entry.visits cache payload, visit.Spares graph := by
  rw [Option.isNone_iff_eq_none]
  exact ⟨fun clean => ⟨clean.1, clean.2, clean.3, clean.4, clean.5⟩,
    fun ⟨untransformed, unnamed, plain, consistent, spared⟩ =>
      ⟨untransformed, unnamed, plain, consistent, spared⟩⟩

instance (entry : Registered) (cache : Cache) (graph : Graph) (payload : Json) :
    Decidable (entry.Clean cache graph payload) :=
  decidable_of_iff _ Registered.clean_iff.symm

namespace Graph

/-- The data of the nodes and their links say the same. -/
structure Faithful (graph : Graph) : Prop where
  sound : graph.Sound
  linked : Nodes.Linked (fun _ _ _ => False) graph.node?
  rooted : Nodes.Rooted graph.node?

theorem faithful_empty : Faithful empty := by
  refine ⟨sound_empty, ⟨fun id path target stored => ?_, fun id path target member => ?_⟩,
    fun id _ value stored => ?_⟩
  · cases stored
  · cases member
  · cases stored

theorem Sound.isEntity {graph : Graph} (h : graph.Sound) {id : NodeId}
    (has : Nodes.Has graph.node? id) : (graph.node? id).any Node.isEntity = true ↔ Whole id := by
  obtain ⟨node, found⟩ := Option.isSome_iff_exists.mp has
  rw [found, Option.any_some, ← h.kind id node found]
  exact beq_iff_eq

end Graph

theorem Visit.spared_of_spares {graph : Graph} {visits : List Visit} (sound : graph.Sound)
    (h : ∀ visit ∈ visits, visit.Spares graph) : Walk.Spared graph.node? visits := by
  intro site value member rest target linked
  obtain ⟨here, other⟩ := h _ member _ linked (List.prefix_append _ _)
  have has := has_of_mem ((sound.mirrored _ _ _).mp linked)
  exact ⟨List.append_right_eq_self.mp here, fun whole => other ((sound.isEntity has).mpr whole)⟩

/-- A clean payload overwrites no reference by a value without sub-selection. -/
theorem Registered.Clean.bareOf {entry : Registered} {cache : Cache} {graph : Graph}
    {payload : Json}
    (clean : entry.Clean cache graph payload) (sound : graph.Sound) :
    Walk.Bare graph.node? (entry.visits cache payload) :=
  (Visit.spared_of_spares sound clean.spared).bare

/-- What is known of the draft after a clean merge. -/
theorem Batch.merge_clean {entry : Registered} {cache : Cache} {graph : Graph} {payload : Json}
    {batch : Batch} {warnings : List String} (faithful : graph.Faithful)
    (clean : entry.Clean cache graph payload)
    (merged : (Batch.ofGraph graph).merge cache entry payload = .ok (batch, warnings)) :
    ∃ members walk seen, payload = .object members ∧ batch.draft = walk.finish ∧
      Traced cache.identity.nonempty (entry.visits cache payload)
        (.ofDraft (.ofGraph graph)) [.brought (.root entry.operation.root) .object] walk seen ∧
      seen ⊆ entry.visits cache payload ∧
      Walked seen (Fields.visits false cache.identity.nonempty (.root entry.operation.root) members
        entry.operation.selection.fields) ∧
      walk.Linked graph.node? seen := by
  obtain ⟨members, walk, seen, object, finished, traced, within, walked⟩ :=
    Draft.merge_traced (draft_merge merged)
  refine ⟨members, walk, seen, object, finished, traced, within, walked, ?_⟩
  have start : Walk.Linked (Draft.node? (.ofGraph graph)) (.ofDraft (.ofGraph graph))
      [.brought (.root entry.operation.root) .object] :=
    .start faithful.sound faithful.rooted faithful.linked clean.plain.1
  exact traced.run.linked clean.unnamed (clean.plain.2.mono within) (clean.consistent.mono within)
    ((clean.bareOf faithful.sound).mono within) start

namespace Graph

/-- The graph comes of writes that are allowed. -/
inductive ReachedBy (allowed : Registered → Cache → Graph → Json → Prop) : Graph → Prop
  | empty : ReachedBy allowed .empty
  | write {graph : Graph} {cache : Cache} {request : Request} {payload : Json} {entry : Registered}
    {outcome : Outcome} (reached : ReachedBy allowed graph)
    (prepared : (cache.prepare request).2 = .ok entry) (allows : allowed entry cache graph payload)
    (written : (cache.write graph request payload).2.2 = .ok outcome) :
    ReachedBy allowed outcome.commit.graph

/-- A clean write leaves data and links that say the same. -/
theorem Faithful.write {graph : Graph} {cache : Cache} {request : Request} {payload : Json}
    {entry : Registered} {outcome : Outcome} (faithful : graph.Faithful)
    (prepared : (cache.prepare request).2 = .ok entry) (clean : entry.Clean cache graph payload)
    (written : (cache.write graph request payload).2.2 = .ok outcome) :
    outcome.commit.graph.Faithful := by
  obtain ⟨batch, warnings, merged, committed⟩ := Cache.write_eq_ok prepared written
  obtain ⟨members, walk, seen, -, finished, -, within, -, linked⟩ :=
    Batch.merge_clean faithful clean merged
  have kept := linked.finish (clean.consistent.mono within)
  have sound := ((Batch.sound_ofGraph faithful.sound).merge clean.plain merged).commit committed
  have nodes := Batch.nodes_commit clean.untransformed committed
  rw [← finished, ← nodes] at kept
  exact ⟨sound, kept.1, kept.2⟩

namespace ReachedBy

theorem faithful {graph : Graph} (h : ReachedBy Registered.Clean graph) : graph.Faithful := by
  induction h with
  | empty => exact faithful_empty
  | write _ prepared clean written ih => exact ih.write prepared clean written

/-- The data of a node refers to an entity exactly where the node links an entity that
exists. -/
theorem reference_iff_linked {graph : Graph} (h : ReachedBy Registered.Clean graph)
    {id : NodeId} {node : Node} (found : graph.node? id = some node) (path : Path)
    (target : NodeId) :
    node.get? path = some (.reference target) ↔
      ⟨target, path⟩ ∈ node.outbound ∧
        ∃ entity, graph.node? target = some entity ∧ entity.kind = .entity := by
  have faithful := h.faithful
  have read : Nodes.read graph.node? id path = node.get? path := by
    unfold Nodes.read
    rw [found, Option.bind_some]
  have links : Nodes.links graph.node? .outbound id = node.outbound := links_of_some found _
  rw [← read, ← links]
  constructor
  · intro stored
    obtain ⟨member, whole⟩ := faithful.linked.stored id path target stored
    obtain ⟨entity, present⟩ := Option.isSome_iff_exists.mp
      (has_of_mem ((faithful.sound.mirrored id target path).mp member))
    exact ⟨member, entity, present, (faithful.sound.kind target entity present).mpr whole⟩
  · intro given
    obtain ⟨member, entity, present, kind⟩ := given
    have whole := (faithful.sound.kind target entity present).mp kind
    exact (faithful.linked.linked id path target member whole).resolve_right fun impossible =>
      impossible

/-- Two clean writes, of which the second makes the list of users shorter: the user that is
left is referred to at its new place, and the other one is collected. -/
theorem reference_iff_linked_after_two_writes :
    ∃ graph node, ReachedBy Registered.Clean graph ∧ graph.node? "1" = none ∧
      graph.node? queryRoot = some node ∧
      node.get? [.key "users", .index 0] = some (.reference "2") := by
  let cache := Cache.new .default
  let request := Request.query "\x7b users \x7b id name \x7d \x7d"
  let user (id : String) := Json.object [("id", .string id), ("name", .string "a")]
  let payload (ids : List String) := Json.object [("users", .array (ids.map user))]
  let write (ids : List String) (passes : Graph → Bool) (graph : Graph) :=
    cache.test request (payload ids) (fun entry => decide (entry.Clean cache graph (payload ids)))
      passes graph
  let holds (graph : Graph) := (graph.node? "1").isNone && (graph.node? "2").any Node.isEntity &&
    (graph.node? queryRoot).any fun node =>
      decide (⟨"2", [.key "users", .index 0]⟩ ∈ node.outbound)
  have test : write ["1", "2"] (write ["2"] holds) .empty := by decide +kernel
  obtain ⟨entry, first, prepared, clean, written, test⟩ := Cache.exists_of_test test
  obtain ⟨entry', second, prepared', clean', written', test⟩ := Cache.exists_of_test test
  have reached := ReachedBy.write (.write .empty prepared (of_decide_eq_true clean) written)
    prepared' (of_decide_eq_true clean') written'
  rw [Bool.and_eq_true, Bool.and_eq_true, Option.isNone_iff_eq_none, Option.any_eq_true,
    Option.any_eq_true] at test
  obtain ⟨⟨collected, entity, present, kind⟩, root, found, linked⟩ := test
  have referred := reached.reference_iff_linked found [.key "users", .index 0] "2"
  refine ⟨_, root, reached, collected, found, referred.mpr ⟨of_decide_eq_true linked, ?_⟩⟩
  exact ⟨entity, present, beq_iff_eq.mp kind⟩

end ReachedBy
end Graph
end ResponseGraph
