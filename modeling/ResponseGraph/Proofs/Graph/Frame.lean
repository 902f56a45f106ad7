import ResponseGraph.Proofs.Graph.References
import ResponseGraph.Proofs.Payload.Beside

/-!
What a write leaves alone.

A write has a tour, the places of nodes that it comes to in walking its payload.  The data of a
node stays as it is at every path that the tour is beside, and all of it stays if the tour does
not come to the node.  That holds whatever the payload says and whatever was written before, as
long as no name of an entity looks like the name of a value of a field with arguments, and no
data is transformed.
-/

namespace ResponseGraph

open NodeId

/-- The visits that a write of the payload makes. -/
def Registered.toured (entry : Registered) (cache : Cache) (payload : Json) : List Visit :=
  Visit.toured cache.identity.nonempty entry.operation.root entry.operation.selection.fields
    payload

/-- The payload is stored as it is, and neither the root of the operation nor an entity that the
write comes to has a separator in its id. -/
structure Registered.Straight (entry : Registered) (cache : Cache) (payload : Json) : Prop where
  untransformed : cache.transform = none
  root : Whole entry.operation.root
  named : Visit.Named (entry.toured cache payload)

theorem Registered.straight_iff {entry : Registered} {cache : Cache} {payload : Json} :
    entry.Straight cache payload ↔ cache.transform.isNone ∧ Whole entry.operation.root ∧
      Visit.Named (entry.toured cache payload) := by
  rw [Option.isNone_iff_eq_none]
  exact ⟨fun straight => ⟨straight.1, straight.2, straight.3⟩,
    fun ⟨untransformed, root, named⟩ => ⟨untransformed, root, named⟩⟩

instance (entry : Registered) (cache : Cache) (payload : Json) :
    Decidable (entry.Straight cache payload) :=
  decidable_of_iff _ Registered.straight_iff.symm

namespace Graph

/-- The graph is sound, and at the root of an entity there is neither a list nor a reference. -/
structure Orderly (graph : Graph) : Prop where
  sound : graph.Sound
  rooted : Nodes.Rooted graph.node?

theorem orderly_empty : Orderly empty := ⟨sound_empty, faithful_empty.rooted⟩

variable {graph : Graph} {cache : Cache} {request : Request} {payload : Json} {entry : Registered}
  {outcome : Outcome}

/-- A straight write leaves an orderly graph.  Of a node that is there in the end, it leaves the
data at every path that its tour is beside. -/
theorem Orderly.write (orderly : graph.Orderly) (prepared : (cache.prepare request).2 = .ok entry)
    (straight : entry.Straight cache payload)
    (written : (cache.write graph request payload).2.2 = .ok outcome) :
    outcome.commit.graph.Orderly ∧ ∀ id path,
      (∀ visit ∈ entry.toured cache payload, visit.Beside id path) →
      Nodes.Has outcome.commit.graph.node? id →
      Nodes.read outcome.commit.graph.node? id path = Nodes.read graph.node? id path := by
  obtain ⟨batch, warnings, merged, committed⟩ := Cache.write_eq_ok prepared written
  obtain ⟨walk, seen, finished, toured⟩ := Draft.merge_toured (Batch.draft_merge merged)
  have nodes : outcome.commit.graph.node? = walk.finish.node? := by
    rw [Batch.nodes_commit straight.untransformed committed, finished]
  have named := straight.named.of_toured toured
  have start : Walk.Orderly (.ofDraft (.ofGraph graph))
      [.brought (.root entry.operation.root) .object] :=
    .start orderly.sound orderly.rooted straight.root
  have walked := toured.run.orderly named start
  refine ⟨⟨?_, ?_⟩, fun id path beside has => ?_⟩
  · show Nodes.Sound _ outcome.commit.graph.node?
    rw [nodes]
    exact walked.sound.finish
  · rw [nodes]
    exact walked.rooted_finish
  · rw [nodes] at has ⊢
    have clear := Visit.clear_of_toured toured (Visit.itemized_toured _ _ _ _) beside
    have framed := toured.run.framed named start clear (.start orderly.rooted straight.root)
    exact walked.kept_finish clear framed has

/-- The graph comes of straight writes. -/
abbrev ReachedStraight (graph : Graph) : Prop :=
  graph.ReachedBy fun entry cache _ payload => entry.Straight cache payload

theorem ReachedStraight.orderly (h : graph.ReachedStraight) : graph.Orderly := by
  induction h with
  | empty => exact orderly_empty
  | write _ prepared straight written ih => exact (ih.write prepared straight written).1

/-- A write leaves the data of a node at every path that its tour is beside, and all data of a
node that its tour does not come to. -/
theorem ReachedStraight.write_leaves_rest (h : graph.ReachedStraight)
    (prepared : (cache.prepare request).2 = .ok entry) (straight : entry.Straight cache payload)
    (written : (cache.write graph request payload).2.2 = .ok outcome) {id : NodeId}
    {node node' : Node} (before : graph.node? id = some node)
    (after : outcome.commit.graph.node? id = some node') :
    (∀ path, (∀ visit ∈ entry.toured cache payload, visit.Beside id path) →
      node'.get? path = node.get? path) ∧
    ((∀ visit ∈ entry.toured cache payload, ¬ visit.Comes id) → node'.data = node.data) := by
  have has : Nodes.Has outcome.commit.graph.node? id := Nodes.has_of_some after
  have kept : ∀ path, (∀ visit ∈ entry.toured cache payload, visit.Beside id path) →
      node'.get? path = node.get? path := by
    intro path beside
    have read := (h.orderly.write prepared straight written).2 id path beside has
    unfold Nodes.read at read
    rwa [before, after] at read
  refine ⟨kept, fun away => ?_⟩
  have whole := kept [] fun visit member => Visit.beside_of_not_comes (away visit member) []
  rwa [Node.get?_nil, Node.get?_nil] at whole

/-- The second write makes a list longer, fills in a box and leaves an entity out.  What the box
and the list held besides is there as before, and so is the entity. -/
theorem ReachedStraight.write_leaves_rest_of_siblings :
    ∃ (graph : Graph) (outcome : Outcome) (node node' entity entity' : Node),
      graph.ReachedStraight ∧
      graph.node? queryRoot = some node ∧ outcome.commit.graph.node? queryRoot = some node' ∧
      (node.get? [.key "rows", .index 0, .key "y"]).isSome ∧
      node'.get? [.key "rows", .index 0, .key "y"] = node.get? [.key "rows", .index 0, .key "y"] ∧
      (node.get? [.key "box", .key "b"]).isSome ∧
      node'.get? [.key "box", .key "b"] = node.get? [.key "box", .key "b"] ∧
      graph.node? "1" = some entity ∧ outcome.commit.graph.node? "1" = some entity' ∧
      entity'.data = entity.data := by
  let cache := Cache.new .default
  let first := Request.query "\x7b me \x7b id nick \x7d box \x7b a b \x7d rows \x7b x y \x7d \x7d"
  let second := Request.query "\x7b box \x7b a \x7d rows \x7b x \x7d \x7d"
  let row (x y : String) := Json.object [("x", .string x), ("y", .string y)]
  let stored := Json.object [("me", .object [("id", .string "1"), ("nick", .string "n")]),
    ("box", .object [("a", .string "a"), ("b", .string "b")]), ("rows", .array [row "x" "y"])]
  let payload := Json.object [("box", .object [("a", .string "c")]),
    ("rows", .array [.object [("x", .string "z")], .object [("x", .string "x")]])]
  let y : Path := [.key "rows", .index 0, .key "y"]
  let b : Path := [.key "box", .key "b"]
  let there (graph : Graph) := ((graph.node? queryRoot).any fun node =>
    (node.get? y).isSome && (node.get? b).isSome) && (graph.node? "1").isSome
  let beside (entry : Registered) := decide (entry.Straight cache payload ∧
    ∀ visit ∈ entry.toured cache payload, visit.Beside queryRoot y ∧ visit.Beside queryRoot b ∧
      ¬ visit.Comes "1")
  have test : cache.test first stored (fun entry => decide (entry.Straight cache stored))
      (fun graph => there graph && cache.test second payload beside there graph) .empty := by
    decide +kernel
  obtain ⟨entry, outcome, prepared, straight, written, test⟩ := Cache.exists_of_test test
  obtain ⟨before, test⟩ := (Bool.and_eq_true _ _).mp test
  obtain ⟨entry', outcome', prepared', tour, written', after⟩ := Cache.exists_of_test test
  obtain ⟨straight', away⟩ := of_decide_eq_true tour
  have reached : outcome.commit.graph.ReachedStraight :=
    .write .empty prepared (of_decide_eq_true straight) written
  rw [Bool.and_eq_true, Option.any_eq_true, Option.isSome_iff_exists] at before after
  obtain ⟨⟨node, root, held⟩, entity, one⟩ := before
  obtain ⟨⟨node', root', -⟩, entity', one'⟩ := after
  obtain ⟨heldY, heldB⟩ := (Bool.and_eq_true _ _).mp held
  obtain ⟨kept, -⟩ := reached.write_leaves_rest prepared' straight' written' root root'
  obtain ⟨-, whole⟩ := reached.write_leaves_rest prepared' straight' written' one one'
  exact ⟨_, outcome', node, node', entity, entity', reached, root, root',
    heldY, kept y fun visit member => (away visit member).1,
    heldB, kept b fun visit member => (away visit member).2.1, one, one',
    whole fun visit member => (away visit member).2.2⟩

end Graph
end ResponseGraph
