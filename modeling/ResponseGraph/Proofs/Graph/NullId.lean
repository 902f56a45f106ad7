import ResponseGraph.Proofs.Graph.References
import ResponseGraph.Proofs.Payload.Arrivals
import ResponseGraph.Proofs.Payload.Attended

/-!
Ids for null.

An identity function should give no id to null, and a merge that comes to a null with an id
reports it.  There is one exception.  The check compares the id with what is stored, so a null
whose id is the very id that the place refers to passes: the place becomes null, and its link
stays (`Fields.Reaches.null_with_id`).

A place refers to the id of null only if an object came with that id before.  Graphs that come
of payloads without such objects therefore report every id of null.
-/

namespace ResponseGraph

open Nodes NodeId Walk

/-! ## Ids to which nothing refers -/

/-- No place refers to the id. -/
def Nodes.Shuns (nodes : Nodes) (target : NodeId) : Prop :=
  ∀ id path, nodes.read id path ≠ some (.reference target)

/-- The id is brought to no site. -/
def Visit.Avoids (target : NodeId) (visits : List Visit) : Prop :=
  ∀ visit ∈ visits, ∀ site, visit ≠ .brought site (.entity target)

/-- What is read after a node is made was there before. -/
theorem Nodes.of_read_sprout {nodes : Nodes} {container id other : NodeId} {path beside : Path}
    {node : Node} {value : Value} (empty : node.data = none)
    (stored : (nodes.sprout container path id node).read other beside = some value) :
    nodes.read other beside = some value := by
  unfold sprout at stored
  rw [read_put (Node.data_addLink _ _ _)] at stored
  unfold read Nodes.put at stored
  split at stored
  · rw [Option.bind_some, Node.get?, empty] at stored
    cases stored
  · exact stored

namespace Walk

variable {identify : Json → Option NodeId} {walk walk' : Walk} {seen seen' : List Visit}
  {target : NodeId}

/-- A reference in the data was there before the walk. -/
theorem Step.reference_of_read (h : Step identify walk seen walk' seen') {id : NodeId} {path : Path}
    (stored : Nodes.read walk'.draft.node? id path = some (.reference target)) :
    Nodes.read walk.draft.node? id path = some (.reference target) := by
  cases h with
  | warned | entered => exact stored
  | grown =>
    rw [nodes_grow] at stored
    exact of_read_sprout rfl stored
  | brought due brings => exact brings.reference_of_read stored

theorem Step.accounted (h : Step identify walk seen walk' seen')
    (accounted : Accounted walk.changes seen) : Accounted walk'.changes seen' := by
  cases h with
  | warned | grown => exact accounted
  | brought due brings => exact brings.accounted accounted
  | entered set fields members around =>
    exact accounted.mono fun _ member => List.mem_cons_of_mem _ (List.mem_cons_of_mem _ member)

theorem Run.shuns (h : Run identify walk seen walk' seen')
    (shuns : Nodes.Shuns walk.draft.node? target) : Nodes.Shuns walk'.draft.node? target :=
  h.preserves (motive := fun walk _ => Nodes.Shuns walk.draft.node? target)
    (fun step shuns id path stored => shuns id path (step.reference_of_read stored)) shuns

theorem Run.accounted (h : Run identify walk seen walk' seen')
    (accounted : Accounted walk.changes seen) : Accounted walk'.changes seen' :=
  h.preserves (motive := fun walk seen => Accounted walk.changes seen) Step.accounted accounted

end Walk

namespace Draft

variable {draft : Draft} {target : NodeId}

theorem shuns_apply {change : LinkChange} (shuns : Nodes.Shuns draft.node? target)
    (other : ∀ container path, change ≠ .relink container path (some target)) :
    Nodes.Shuns (draft.apply change).node? target := by
  intro id path stored
  cases change with
  | detach container place entity =>
    rw [read_apply_detach] at stored
    exact shuns id path stored
  | relink container place next =>
    rcases reference_of_apply_relink stored with ⟨rfl, rfl, rfl⟩ | ⟨-, old⟩
    · exact other _ _ rfl
    · exact shuns id path old

theorem shuns_applyAll {changes : List LinkChange} (shuns : Nodes.Shuns draft.node? target)
    (other : ∀ container path, .relink container path (some target) ∉ changes) :
    Nodes.Shuns (draft.applyAll changes).node? target := by
  induction changes generalizing draft with
  | nil => exact shuns
  | cons change changes ih =>
    refine ih (shuns_apply shuns fun container path e => ?_) fun container path member => ?_
    · exact other container path (e ▸ List.mem_cons_self)
    · exact other container path (List.mem_cons_of_mem _ member)

theorem shuns_collectOrphans (shuns : Nodes.Shuns draft.node? target) :
    Nodes.Shuns draft.collectOrphans.node? target := by
  intro id path stored
  rw [read_collectOrphans draft (has_of_read stored)] at stored
  exact shuns id path stored

/-- A payload in which nothing has the id brings no reference to it. -/
theorem shuns_merge {identify : Json → Option NodeId} {root : NodeId} {fields : Fields}
    {payload : Json} {draft' : Draft} {warnings : List String}
    (shuns : Nodes.Shuns draft.node? target)
    (avoids : Visit.Avoids target (Visit.ofPayload identify root fields payload))
    (merged : draft.merge identify root fields payload = .ok (draft', warnings)) :
    Nodes.Shuns draft'.node? target := by
  obtain ⟨members, walk, seen, -, rfl, traced, within, -⟩ := merge_traced merged
  have accounted : Accounted walk.changes seen := traced.run.accounted
    ⟨fun _ _ _ member => absurd member List.not_mem_nil,
      fun _ _ _ member => absurd member List.not_mem_nil⟩
  refine shuns_collectOrphans (shuns_applyAll (traced.run.shuns shuns) ?_)
  intro container path member
  obtain ⟨content, brought, decides⟩ := accounted.relinked container path _ member
  cases content with
  | entity id =>
    cases decides
    exact avoids _ (within brought) _ rfl
  | _ => cases decides

end Draft

/-! ## Null with an id -/

section Null

variable {identify : Json → Option NodeId} {place : Place} {members : List (String × Json)}
  {fields : Fields} {walk : Walk} {arrival : Arrival} {nil : NodeId}

/-- What becomes of a null that has an id. -/
theorem Walk.Arrival.merge_null_with_id (named : identify .null = some nil)
    (null : arrival.payload = .null) (noList : list? arrival.stored? = none) :
    (arrival.stored? = some (.reference nil) ∧
        arrival.merge identify = .ok (arrival.walk.clear arrival.place)) ∨
      (arrival.stored? ≠ some (.reference nil) ∧ ∃ e, arrival.merge identify = .error e) := by
  have merge : arrival.merge identify =
      arrival.walk.null identify arrival.place arrival.stored? := by
    unfold Arrival.merge
    rw [null, value]
    rw [show arrival.walk.stored? arrival.place = arrival.stored? from rfl, noList]
    exact if_neg Bool.false_ne_true
  rw [merge]
  unfold Walk.null
  rw [named]
  cases stored : entity? arrival.stored? with
  | none =>
    refine Or.inr ⟨fun same => ?_, ?_⟩
    · rw [entity?_eq_some.mpr same] at stored
      cases stored
    · dsimp only
      split <;> exact ⟨_, rfl⟩
  | some old =>
    rw [entity?_eq_some] at stored
    dsimp only
    by_cases same : nil = old
    · rw [if_pos same, same]
      exact Or.inl ⟨stored, rfl⟩
    · rw [if_neg same]
      refine Or.inr ⟨fun e => same ?_, _, rfl⟩
      rw [stored] at e
      cases e
      rfl

/-- A merge that comes to a null with an id fails, unless the place refers to that id. -/
theorem Fields.Reaches.null_fails (h : Fields.Reaches identify place members fields walk arrival)
    (named : identify .null = some nil) (null : arrival.payload = .null)
    (noList : list? arrival.stored? = none) (other : arrival.stored? ≠ some (.reference nil)) :
    ∃ e, Fields.merge identify place members fields walk = .error e := by
  rcases Arrival.merge_null_with_id named null noList with ⟨same, -⟩ | ⟨-, e, fails⟩
  · exact absurd same other
  · exact ⟨e, h.error fails⟩

end Null

/-- A write with the identity function in whose payload nothing has the id. -/
structure Registered.Avoids (identity : Identity) (target : NodeId) (entry : Registered)
    (cache : Cache) (_ : Graph) (payload : Json) : Prop where
  identity : cache.identity = identity
  untransformed : cache.transform = none
  avoids : Visit.Avoids target (entry.visits cache payload)

namespace Graph

theorem shuns_empty (target : NodeId) : Nodes.Shuns Graph.empty.node? target := by
  intro id path stored
  cases stored

/-- Nothing refers to an id that no object of any payload had. -/
theorem ReachedBy.shuns {identity : Identity} {target : NodeId} {graph : Graph}
    (h : graph.ReachedBy (Registered.Avoids identity target)) :
    Nodes.Shuns graph.node? target := by
  induction h with
  | empty => exact shuns_empty target
  | write _ prepared allows written ih =>
    obtain ⟨batch, warnings, merged, committed⟩ := Cache.write_eq_ok prepared written
    have before : Nodes.Shuns (Batch.ofGraph _).draft.node? target := ih
    have shuns := Draft.shuns_merge before allows.avoids (Batch.draft_merge merged)
    rwa [← Batch.nodes_commit allows.untransformed committed] at shuns

end Graph

/-- A null that has an id, at a place where no list is stored, makes a merge fail unless the place
refers to that very id.  There the null is stored over the reference, and the link of the place is
left.  No place refers to the id if the graph comes of payloads in which no object has it, and
then every null with an id makes the merge fail. -/
theorem Fields.Reaches.null_with_id {identity : Identity} {nil : NodeId} {cache : Cache}
    {graph : Graph} {entry : Registered} {members : List (String × Json)} {arrival : Arrival}
    (named : identity.nonempty .null = some nil) (same : cache.identity = identity)
    (reaches : Fields.Reaches identity.nonempty (.root entry.operation.root) members
      entry.operation.selection.fields (.ofDraft (.ofGraph graph)) arrival)
    (null : arrival.payload = .null) (noList : list? arrival.stored? = none) :
    (arrival.stored? = some (.reference nil) →
        arrival.merge identity.nonempty = .ok (arrival.walk.clear arrival.place)) ∧
      (arrival.stored? ≠ some (.reference nil) →
        ∃ e, (Batch.ofGraph graph).merge cache entry (.object members) = .error e) ∧
      (graph.ReachedBy (Registered.Avoids identity nil) →
        ∃ e, (Batch.ofGraph graph).merge cache entry (.object members) = .error e) := by
  have fails (other : arrival.stored? ≠ some (.reference nil)) :
      ∃ e, (Batch.ofGraph graph).merge cache entry (.object members) = .error e := by
    obtain ⟨e, failed⟩ := reaches.null_fails named null noList other
    refine ⟨e, ?_⟩
    unfold Batch.merge Draft.merge
    rw [same]
    dsimp only [Batch.ofGraph]
    rw [failed]
    rfl
  refine ⟨fun stored => ?_, fails, fun reached => fails fun stored => ?_⟩
  · rcases Arrival.merge_null_with_id named null noList with ⟨-, merged⟩ | ⟨other, -⟩
    · exact merged
    · exact absurd stored other
  · -- Nothing is referred to while a payload is walked that was not referred to before.
    have opened : .brought (Place.root entry.operation.root).site .object ∈
        [Visit.brought (.root entry.operation.root) .object] := List.mem_cons_self
    obtain ⟨seen, ends⟩ := reaches.run opened fun _ _ member => absurd member List.not_mem_nil
    exact ends.run.shuns reached.shuns _ _ stored

/-- With one id for everything, a null takes the place of a user.  The place then holds null and
still has its link to the user. -/
theorem Fields.Reaches.null_with_id_of_user :
    ∃ (cache : Cache) (graph : Graph) (entry : Registered) (arrival : Arrival) (outcome : Outcome)
      (node : Node),
      graph.ReachedBy (fun _ cache' _ _ => cache'.identity = cache.identity) ∧
      Fields.Reaches cache.identity.nonempty (.root entry.operation.root) [("user", .null)]
        entry.operation.selection.fields (.ofDraft (.ofGraph graph)) arrival ∧
      arrival.merge cache.identity.nonempty = .ok (arrival.walk.clear arrival.place) ∧
      (cache.writeEntry graph entry (.object [("user", .null)])).2 = .ok outcome ∧
      outcome.commit.graph.node? queryRoot = some node ∧
      node.get? [.key "user"] = some .null ∧ ⟨"x", [.key "user"]⟩ ∈ node.outbound := by
  let cache : Cache := { Cache.new .default with identity := Identity.const "x" }
  let request := Request.query "\x7b user \x7b id \x7d \x7d"
  let user := Json.object [("user", .object [("id", .string "1")])]
  let nothing := Json.object [("user", .null)]
  let head : FieldHead := ⟨none, none, [], false⟩
  let below : Fields := [("id", .leaf 2 head)]
  let fields : Fields := [("user", .composite 0 head (Fields.traits below) 1 below)]
  let entry : Registered := ⟨0, request.key, queryRoot,
    ⟨.query, none, ⟨3, fields⟩, [], Table.empty, 4⟩, ⟨3, fields⟩, Table.empty⟩
  let place := (Place.root queryRoot).step (.key "user")
  let keeps (node : Node) := (node.get? place.path).any Value.isNull &&
    decide (⟨"x", place.path⟩ ∈ node.outbound)
  let clears (graph : Graph) :=
    decide (entity? ((Walk.ofDraft (.ofGraph graph)).stored? place) = some "x") &&
    (cache.writeEntry graph entry nothing).2.toOption.any fun outcome =>
      (outcome.commit.graph.node? queryRoot).any keeps
  have test : cache.test request user (fun _ => true) clears .empty := by decide +kernel
  obtain ⟨_, first, prepared, -, written, test⟩ := Cache.exists_of_test test
  obtain ⟨refers, test⟩ := (Bool.and_eq_true _ _).mp test
  obtain ⟨outcome, done, test⟩ := (Option.any_eq_true _ _).mp test
  obtain ⟨node, found, test⟩ := (Option.any_eq_true _ _).mp test
  obtain ⟨cleared, linked⟩ := (Bool.and_eq_true _ _).mp test
  let arrival : Arrival :=
    ⟨place, 1, below, .null, .ofDraft (.ofGraph first.commit.graph)⟩
  have reaches : Fields.Reaches cache.identity.nonempty (.root entry.operation.root)
      [("user", .null)] entry.operation.selection.fields (.ofDraft (.ofGraph first.commit.graph))
      arrival :=
    .field (.field [] [] rfl rfl rfl)
  have stored : arrival.stored? = some (.reference "x") :=
    entity?_eq_some.mp (of_decide_eq_true refers)
  have noList : list? arrival.stored? = none := by
    rw [stored]
    rfl
  have merged := (reaches.null_with_id rfl rfl rfl noList).1 stored
  refine ⟨cache, first.commit.graph, entry, arrival, outcome, node,
    .write .empty prepared rfl written, reaches, merged, eq_ok_of_toOption done, found, ?_,
    of_decide_eq_true linked⟩
  obtain ⟨value, held, null⟩ := (Option.any_eq_true _ _).mp cleared
  cases value <;> cases null
  exact held

end ResponseGraph
