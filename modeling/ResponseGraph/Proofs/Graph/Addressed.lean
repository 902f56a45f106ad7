import ResponseGraph.Proofs.Graph.History

/-!
Where the values of fields with arguments are.

The node for the value of a field with arguments is never looked for: its id is computed from the
node that the field belongs to, the path of the field there and the arguments.  So whatever is not
at its address is lost.  In a graph that is reached every such node is at its address, linked from
the place that the address tells and from nowhere else, and no other node has an id of this kind.
-/

namespace ResponseGraph

open NodeId (Whole IsAddress)

namespace Nodes

variable {nodes : Nodes} {id : NodeId}

theorem Sound.address (h : Sound (fun _ => False) nodes) {container : NodeId} {path : Path}
    (linked : ⟨id, path⟩ ∈ nodes.links .outbound container) (apart : ¬ Whole id) :
    IsAddress container path id := by
  obtain ⟨arguments, address⟩ := h.addressed container id path linked apart
  exact NodeId.isAddress_of_parameterized address

/-- The value of a field with arguments is linked once: an address tells its container and its
path, and no link is there twice. -/
theorem Sound.exists_inbound_eq (h : Sound (fun _ => False) nodes) (has : nodes.Has id)
    (apart : ¬ Whole id) : ∃ link, nodes.links .inbound id = [link] := by
  have some := (h.anchored id has apart).resolve_left not_false
  have distinct := h.distinct .inbound id
  obtain ⟨link, others, inbound⟩ := List.exists_cons_of_ne_nil some
  rw [inbound] at distinct
  refine ⟨link, ?_⟩
  have alone : others = [] := by
    refine List.eq_nil_iff_forall_not_mem.mpr fun other member => ?_
    have first := (h.mirrored link.node id link.path).mpr (inbound ▸ List.mem_cons_self)
    have second := (h.mirrored other.node id other.path).mpr
      (inbound ▸ List.mem_cons_of_mem link member)
    obtain ⟨arguments, address⟩ := h.addressed _ _ _ first apart
    obtain ⟨arguments', address'⟩ := h.addressed _ _ _ second apart
    obtain ⟨container, path⟩ := NodeId.parameterized_inj address address'
    have same : link = other := by
      cases link
      cases other
      cases container
      cases path
      rfl
    exact (List.nodup_cons.mp distinct).1 (same ▸ member)
  rw [inbound, alone]

end Nodes

open Nodes

namespace Graph

/-- Every node for the value of a field with arguments has one inbound link, its address is that
of the place where the link comes from, and that place links it.  Every node with an id that has a
separator is such a node, and every link to such an id leads to the address of its place. -/
theorem Reached.values_at_addresses {graph : Graph} (h : Reached graph) :
    (∀ id node, graph.node? id = some node → node.kind = .parameterized →
      ∃ container path owner, node.inbound = [⟨container, path⟩] ∧ IsAddress container path id ∧
        graph.node? container = some owner ∧ ⟨id, path⟩ ∈ owner.outbound) ∧
    (∀ id node, graph.node? id = some node → NodeId.separator ∈ id.toList →
      node.kind = .parameterized) ∧
    ∀ container owner link, graph.node? container = some owner → link ∈ owner.outbound →
      NodeId.separator ∈ link.node.toList → IsAddress container link.path link.node := by
  have sound := h.sound
  refine ⟨fun id node found kind => ?_, fun id node found inside => ?_,
    fun container owner link found member inside => ?_⟩
  · have apart : ¬ Whole id := fun whole => by
      rw [(sound.kind id node found).mpr whole] at kind
      cases kind
    obtain ⟨link, inbound⟩ := sound.exists_inbound_eq (has_of_some found) apart
    have back : ⟨link.node, link.path⟩ ∈ Nodes.links graph.node? .inbound id :=
      inbound ▸ List.mem_cons_self
    have forth := (sound.mirrored _ _ _).mpr back
    obtain ⟨owner, present⟩ := Option.isSome_iff_exists.mp (has_of_mem forth)
    refine ⟨link.node, link.path, owner, ?_, sound.address forth apart, present, ?_⟩
    · rw [links_of_some found] at inbound
      exact inbound
    · rw [links_of_some present] at forth
      exact forth
  · cases kind : node.kind with
    | parameterized => rfl
    | entity => exact absurd inside ((sound.kind id node found).mp kind)
  · have linked : ⟨link.node, link.path⟩ ∈ Nodes.links graph.node? .outbound container := by
      rw [links_of_some found]
      exact member
    exact sound.address linked fun whole => whole inside

/-- A write and an edit store a user with posts, where the edit takes the place of the first user,
and a migration adds another field of the root of queries.  The value of the posts is at its
address below the second user. -/
theorem values_at_addresses_of_posts :
    ∃ graph node, Reached graph ∧
      graph.keys = ["2", "2❖[\"posts\"]❖\x7b\"first\":1\x7d", "ROOT_QUERY",
        "ROOT_QUERY❖[\"feed\"]❖\x7b\"page\":3\x7d"] ∧
      graph.node? "2❖[\"posts\"]❖\x7b\"first\":1\x7d" = some node ∧ node.kind = .parameterized ∧
      ∃ container path owner, node.inbound = [⟨container, path⟩] ∧
        IsAddress container path "2❖[\"posts\"]❖\x7b\"first\":1\x7d" ∧
        graph.node? container = some owner ∧
        ⟨"2❖[\"posts\"]❖\x7b\"first\":1\x7d", path⟩ ∈ owner.outbound := by
  let posts := "2❖[\"posts\"]❖\x7b\"first\":1\x7d"
  let keys := ["2", posts, "ROOT_QUERY", "ROOT_QUERY❖[\"feed\"]❖\x7b\"page\":3\x7d"]
  let cache := Cache.new .default
  let request := Request.query "\x7b user \x7b id posts(first: 1) \x7b total \x7d \x7d \x7d"
  let payload (id : String) := Json.object [("user", .object [("id", .string id),
    ("posts", .object [("total", .nat 2)])])]
  let seed : Seed := ⟨[.key "feed"], [("page", .number (.int 3))], .null⟩
  let migrations := Migrations.empty.addSeed "Query" seed
  let kept (graph : Graph) := decide (graph.keys = keys) &&
    (graph.node? posts).any fun node => decide (node.kind = .parameterized)
  let migrates (graph : Graph) :=
    (graph.migrate migrations).2.toBool && kept (graph.migrate migrations).1.graph
  let edits (entry : Registered) (graph : Graph) :=
    decide (entry.Plain cache (payload "2")) &&
      ((Batch.ofGraph graph).mergeAll cache [(entry, payload "2")]).toOption.any fun batch =>
        (batch.commit cache).toOption.any fun outcome => migrates outcome.commit.graph
  have test : (cache.prepare request).2.toOption.any fun entry =>
      decide (entry.Plain cache (payload "1")) &&
        (cache.write .empty request (payload "1")).2.2.toOption.any fun outcome =>
          edits entry outcome.commit.graph := by
    decide +kernel
  obtain ⟨entry, prepared, test⟩ := Option.any_eq_true _ _ |>.mp test
  obtain ⟨plain, test⟩ := (Bool.and_eq_true _ _).mp test
  obtain ⟨first, written, test⟩ := Option.any_eq_true _ _ |>.mp test
  obtain ⟨plain', test⟩ := (Bool.and_eq_true _ _).mp test
  obtain ⟨batch, merged, test⟩ := Option.any_eq_true _ _ |>.mp test
  obtain ⟨second, committed, test⟩ := Option.any_eq_true _ _ |>.mp test
  obtain ⟨migrated, test⟩ := (Bool.and_eq_true _ _).mp test
  obtain ⟨same, test⟩ := (Bool.and_eq_true _ _).mp test
  obtain ⟨node, found, kind⟩ := Option.any_eq_true _ _ |>.mp test
  have start := Reached.step .empty (.write (eq_ok_of_toOption prepared) (of_decide_eq_true plain)
    (eq_ok_of_toOption written))
  have edited := Reached.step start (.edit (fun merge member => by
    rw [List.mem_singleton.mp member]
    exact of_decide_eq_true plain') (eq_ok_of_toOption merged) (eq_ok_of_toOption committed))
  have reached := Reached.step edited (.migrate (Prod.ext rfl (eq_ok_of_toBool migrated)))
  exact ⟨_, node, reached, of_decide_eq_true same, found, of_decide_eq_true kind,
    reached.values_at_addresses.1 posts node found (of_decide_eq_true kind)⟩

end Graph
end ResponseGraph
