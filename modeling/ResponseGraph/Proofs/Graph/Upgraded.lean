import ResponseGraph.Proofs.Graph.History

/-!
What a migration makes of a graph.

A table of nodes may be gone through in any order, so a migration is taken here with any order of
its entities.  Of a graph that is reached it always makes the same graph.  `Graph.Upgrade` says
which, without an order: entities that hold data have the fields of their type changed and the
seeds of their type linked, a seed makes a node only where there is none, and nothing else happens.
The types are those before the migration, also where a field change rewrites the type name.
-/

namespace ResponseGraph

open Nodes NodeId

/-! ## Types of entities -/

/-- The type of an entity that holds data: the text of its type name, or that of the root of
queries. -/
def Node.HasType (node : Node) (id : NodeId) (type : String) : Prop :=
  node.kind = .entity ∧ ∃ data, node.data = some data ∧
    (data.member? "__typename" = some (.string type) ∨
      (∀ name, data.member? "__typename" ≠ some (.string name)) ∧
        id = queryRoot ∧ type = "Query")

namespace Node

variable {node : Node} {id : NodeId} {type : String}

theorem type?_of_data {data : Value} (given : node.data = some data) : node.type? id =
    match (data.member? "__typename").bind Value.string? with
    | some name => some name
    | none => if isQueryRoot id then some "Query" else none := by
  unfold Node.type?
  rw [given]
  rfl

theorem hasType_iff : node.HasType id type ↔ node.isEntity ∧ node.type? id = some type := by
  have named (value : Option Value) (name : String) :
      value.bind Value.string? = some name ↔ value = some (.string name) := by
    cases value with
    | none => simp
    | some value => cases value <;> simp [Value.string?]
  unfold HasType Node.isEntity
  rw [beq_iff_eq]
  refine and_congr_right fun _ => ?_
  cases given : node.data with
  | none =>
    have untyped : node.type? id = none := by
      unfold Node.type?
      rw [given]
      rfl
    simp [untyped]
  | some data =>
    rw [type?_of_data given]
    simp only [Option.some.injEq, exists_eq_left']
    cases found : (data.member? "__typename").bind Value.string? with
    | some name =>
      have there := (named _ _).mp found
      simp [there]
    | none =>
      have nowhere : ∀ name, data.member? "__typename" ≠ some (.string name) := by
        intro name there
        rw [(named _ _).mpr there] at found
        cases found
      rw [or_iff_right (nowhere type), and_iff_right nowhere, @eq_comm _ type]
      dsimp only
      split
      · next root => rw [and_iff_right (beq_iff_eq.mp root), Option.some.injEq]
      · next other => simpa using fun same _ => other (beq_iff_eq.mpr same)

end Node

namespace Graph

variable {graph : Graph} {id : NodeId} {type : String}

theorem mem_typedEntities_iff : (id, type) ∈ graph.typedEntities ↔
    ∃ node, graph.node? id = some node ∧ node.HasType id type := by
  rw [mem_typedEntities]
  exact exists_congr fun node => and_congr_right fun _ => Node.hasType_iff.symm

/-- Entities have whole ids, and a graph has one node for each id. -/
theorem Sound.separate (h : graph.Sound) : Separate graph.typedEntities := by
  constructor
  · refine List.pairwise_map.mpr (List.Pairwise.filterMap _ ?_
      (List.pairwise_map.mp graph.increasing.nodup))
    rintro ⟨id, node⟩ ⟨other, node'⟩ apart entity typed entity' typed' same
    dsimp only at typed typed' apart
    split at typed
    · split at typed'
      · obtain ⟨type, -, rfl⟩ := Option.map_eq_some_iff.mp typed
        obtain ⟨type', -, rfl⟩ := Option.map_eq_some_iff.mp typed'
        exact apart same
      · cases typed'
    · cases typed
  · rintro ⟨id, type⟩ member
    obtain ⟨node, found, typed⟩ := mem_typedEntities_iff.mp member
    exact (h.kind id node found).mp typed.1

/-! ## Migrations in any order -/

/-- A migration that comes to the entities in the given order. -/
def migrateIn (graph : Graph) (migrations : Migrations) (order : List (NodeId × String)) :
    Migrating × Except UsageError Unit :=
  Migrating.migrateAll migrations ⟨graph, Table.empty⟩ order

variable {migrations : Migrations} {order : List (NodeId × String)}

theorem has_of_perm (perm : order.Perm graph.typedEntities) :
    ∀ entity ∈ order, Has graph.node? entity.1 :=
  fun _ member => has_of_mem_typedEntities (perm.mem_iff.mp member)

/-- A migration either comes to the end, or to a seed without an address. -/
theorem migrateIn_cases (migrations : Migrations) (perm : order.Perm graph.typedEntities) :
    ((∀ entity ∈ graph.typedEntities, ∀ seed ∈ migrations.seedsOf entity.2, seed.Closed) ∧
        ∃ state, graph.migrateIn migrations order = (state, .ok ()) ∧
          state.graph.node? = Nodes.migrateAll migrations graph.node? order) ∨
      ∃ stop : Stop, stop.Of migrations order ∧ ∃ e state,
        stop.seed.address stop.entity.1 = .error e ∧
        graph.migrateIn migrations order = (state, .error e) ∧
        state.graph.node? = stop.nodes migrations graph.node? := by
  refine (Migrating.migrateAll_cases ⟨graph, Table.empty⟩ (has_of_perm perm)).imp_left ?_
  exact And.imp_left fun closed entity member => closed entity (perm.mem_iff.mpr member)

theorem exists_migrateIn (closed : migrations.Closed) (perm : order.Perm graph.typedEntities) :
    ∃ state, graph.migrateIn migrations order = (state, .ok ()) ∧
      state.graph.node? = Nodes.migrateAll migrations graph.node? order := by
  rcases migrateIn_cases migrations perm with ⟨-, done⟩ | ⟨stop, first, -⟩
  · exact done
  · exact absurd (closed _ _ first.seed_mem) first.stuck

/-- If a migration comes to the end in one order, it does so in every order and with the same
graph. -/
theorem Sound.migrateIn_perm (h : graph.Sound) {order' : List (NodeId × String)}
    (perm : order.Perm graph.typedEntities) (perm' : order'.Perm graph.typedEntities)
    {state : Migrating} (migrated : graph.migrateIn migrations order = (state, .ok ())) :
    ∃ state', graph.migrateIn migrations order' = (state', .ok ()) ∧
      state'.graph = state.graph := by
  rcases migrateIn_cases migrations perm with ⟨closed, last, done, nodes⟩ |
    ⟨-, -, e, last, -, failed, -⟩
  · cases migrated.symm.trans done
    rcases migrateIn_cases migrations perm' with ⟨-, last', done', nodes'⟩ | ⟨stop, first, -⟩
    · refine ⟨last', done', Graph.eq_of_nodes ?_⟩
      rw [nodes, nodes', migrateAll_perm h.separate perm, migrateAll_perm h.separate perm']
    · have typed := perm'.mem_iff.mp first.entity_mem
      exact absurd (closed _ typed _ first.seed_mem) first.stuck
  · cases migrated.symm.trans failed

/-- A migration that does not fail is a step of a history, whatever its order. -/
theorem Reached.migrateIn (h : Reached graph) (perm : order.Perm graph.typedEntities)
    {state : Migrating} (migrated : graph.migrateIn migrations order = (state, .ok ())) :
    Reached state.graph := by
  obtain ⟨state', ordered, same⟩ := h.sound.migrateIn_perm perm (List.Perm.refl _) migrated
  exact same ▸ h.step (.migrate ordered)

/-- What a migration makes of a graph. -/
structure Upgrade (migrations : Migrations) (graph upgraded : Graph) : Prop where
  /-- The changes of the type are made in the order of their declaration, each on the results of
  those before it.  Links are added at the end, each for a seed of the type and none twice. -/
  entity : ∀ {id node type}, graph.node? id = some node → node.HasType id type → ∃ added,
    upgraded.node? id = some { node with
      data := node.data.map (Migrating.changeFields (migrations.changesOf type)),
      outbound := node.outbound ++ added } ∧
    (node.outbound ++ added).Nodup ∧ ∀ link ∈ added, ∃ seed ∈ migrations.seedsOf type,
      seed.address id = .ok link.node ∧ link.path = seed.path
  /-- Every seed of the type has an address, and the entity and that node refer to each other. -/
  linked : ∀ {id node type seed}, graph.node? id = some node → node.HasType id type →
    seed ∈ migrations.seedsOf type → ∃ target, seed.address id = .ok target ∧
      ⟨target, seed.path⟩ ∈ Nodes.links upgraded.node? .outbound id ∧
      ⟨id, seed.path⟩ ∈ Nodes.links upgraded.node? .inbound target
  /-- A node that was at the address is as it was.  Otherwise the first of all seeds with this path
  and these arguments makes one. -/
  seeded : ∀ {id node type earlier seed later target}, graph.node? id = some node →
    node.HasType id type → migrations.seedsOf type = earlier ++ seed :: later →
    (∀ other ∈ earlier, ¬ other.Alike seed) → seed.address id = .ok target →
    upgraded.node? target =
      some ((graph.node? target).getD ⟨.parameterized, [⟨id, seed.path⟩], [], some seed.value⟩)
  rest : ∀ {other}, (∀ id node type, graph.node? id = some node → node.HasType id type →
      other ≠ id ∧ ∀ seed ∈ migrations.seedsOf type, seed.address id ≠ .ok other) →
    upgraded.node? other = graph.node? other

/-- The nodes that a migration makes of a sound graph are an upgrade. -/
theorem Sound.upgrade (h : graph.Sound) (closed : migrations.Closed) {upgraded : Graph}
    (migrated : upgraded.node? = Nodes.migrateAll migrations graph.node? graph.typedEntities) :
    Upgrade migrations graph upgraded := by
  have sown {id : NodeId} (type : String) {node : Node} (found : graph.node? id = some node) :
      Sown id (migrations.seedsOf type) (Nodes.revise migrations graph.node? (id, type))
        (Nodes.migrateEntity migrations graph.node? (id, type)) :=
    Nodes.Sound.migrateEntity h (id, type) (has_of_some found) (closed type)
  have share {id other : NodeId} {type : String} {node : Node}
      (found : graph.node? id = some node) (typed : node.HasType id type)
      (here : migrations.Share (id, type) other) : upgraded.node? other =
        Nodes.migrateEntity migrations graph.node? (id, type) other := by
    rw [migrated]
    exact migrateAll_of_share h.separate (mem_typedEntities_iff.mpr ⟨node, found, typed⟩) here _
  constructor
  · intro id node type found typed
    have held := typed
    obtain ⟨-, data, given, -⟩ := held
    have revised := revise_of_data migrations (id, type) found given
    obtain ⟨added, last, among⟩ := (sown type found).extended _ revised
    have distinct := (sown type found).sound.distinct .outbound id
    rw [Nodes.links_of_some last] at distinct
    refine ⟨added, ?_, distinct, among⟩
    rw [share found typed (Or.inl rfl), last, given]
    rfl
  · intro id node type seed found typed member
    obtain ⟨target, address⟩ := Seed.exists_address_iff.mpr (closed type seed member)
    have forth := (sown type found).linked seed member target address
    have back := ((sown type found).sound.mirrored _ _ _).mp forth
    refine ⟨target, address, ?_, ?_⟩
    · unfold Nodes.links at forth ⊢
      rw [share found typed (Or.inl rfl)]
      exact forth
    · unfold Nodes.links at back ⊢
      rw [share found typed (Or.inr ⟨seed, member, address⟩)]
      exact back
  · intro id node type earlier seed later target found typed seeds fresh address
    have member : seed ∈ migrations.seedsOf type := by
      rw [seeds]
      exact List.mem_append_right _ List.mem_cons_self
    have apart := Seed.address_ne_container address
    have unrevised : Nodes.revise migrations graph.node? (id, type) target =
        graph.node? target := (localTo_revise migrations (id, type)).outside _ _ apart
    rw [share found typed (Or.inr ⟨seed, member, address⟩)]
    cases present : graph.node? target with
    | some old =>
      have kept := (sown type found).kept target apart
        (has_of_some (unrevised.trans present))
      rw [kept, unrevised, present, Option.getD_some]
    | none =>
      have first : ∀ other ∈ earlier, other.address id ≠ .ok target :=
        fun other before same => fresh other before ((Seed.address_eq_iff_alike address).mp same)
      exact (sown type found).made earlier seed later target seeds address first
        (unrevised.trans present)
  · intro other apart
    rw [migrated]
    refine migrateAll_of_not_share (fun (id, type) member here => ?_) _
    obtain ⟨node, found, typed⟩ := mem_typedEntities_iff.mp member
    obtain ⟨notEntity, notSeed⟩ := apart id node type found typed
    rcases here with same | ⟨seed, inside, address⟩
    · exact notEntity same
    · exact notSeed seed inside address

theorem Sound.exists_upgrade (h : graph.Sound) (closed : migrations.Closed)
    (perm : order.Perm graph.typedEntities) :
    ∃ state, graph.migrateIn migrations order = (state, .ok ()) ∧
      Upgrade migrations graph state.graph := by
  obtain ⟨state, migrated, nodes⟩ := exists_migrateIn closed perm
  refine ⟨state, migrated, h.upgrade closed ?_⟩
  rw [nodes, migrateAll_perm h.separate perm]

/-- Seeds that an upgrade has linked are found when the same seeds come again. -/
theorem Upgrade.linked_again {upgraded : Graph} (h : Upgrade migrations graph upgraded)
    (sound : upgraded.Sound) (unchanging : ∀ type, migrations.fields.get? type = none)
    (typed : (id, type) ∈ upgraded.typedEntities) :
    Migrating.Linked upgraded.node? id (migrations.seedsOf type) := by
  obtain ⟨node, found, typed⟩ := mem_typedEntities_iff.mp typed
  have whole : Whole id := (sound.kind id node found).mp typed.1
  have unchanged (type : String) :
      Migrating.changeFields (migrations.changesOf type) = fun data => data := by
    unfold Migrations.changesOf
    rw [unchanging]
    rfl
  have before : ∃ old, graph.node? id = some old ∧ old.HasType id type := by
    by_cases named : ∃ old type', graph.node? id = some old ∧ old.HasType id type'
    · obtain ⟨old, type', present, typed'⟩ := named
      obtain ⟨added, here, -⟩ := h.entity present typed'
      cases found.symm.trans here
      refine ⟨old, present, ?_⟩
      rw [unchanged, Option.map_id'] at typed
      exact typed
    · refine ⟨node, ?_, typed⟩
      rw [← found]
      refine (h.rest fun container old type' present typed' => ⟨?_, ?_⟩).symm
      · rintro rfl
        exact named ⟨old, type', present, typed'⟩
      · exact fun seed _ address => Seed.not_whole_of_address address whole
  obtain ⟨old, present, typed⟩ := before
  intro seed member
  obtain ⟨target, address, forth, -⟩ := h.linked present typed member
  exact ⟨target, address, forth⟩

/-- In whatever order a migration comes to the entities of a reached graph, it makes the same
upgrade.  A migration of seeds only changes nothing when it is done again. -/
theorem Reached.migrate_in_any_order (h : Reached graph) (closed : migrations.Closed)
    (perm : order.Perm graph.typedEntities) :
    ∃ state, graph.migrateIn migrations order = (state, .ok ()) ∧
      Upgrade migrations graph state.graph ∧
      state.graph = (graph.migrate migrations).1.graph ∧
      ((∀ type, migrations.fields.get? type = none) →
        ∀ again, again.Perm state.graph.typedEntities →
          state.graph.migrateIn migrations again = (⟨state.graph, Table.empty⟩, .ok ())) := by
  obtain ⟨state, migrated, upgrade⟩ := h.sound.exists_upgrade closed perm
  obtain ⟨state', ordered, same⟩ :=
    h.sound.migrateIn_perm perm (List.Perm.refl graph.typedEntities) migrated
  refine ⟨state, migrated, upgrade, ?_, fun unchanging again perm' => ?_⟩
  · rw [← same]
    exact (congrArg (fun result => result.1.graph) ordered).symm
  · refine Migrating.migrateAll_of_linked unchanging fun entity member => ?_
    exact upgrade.linked_again (h.migrateIn perm migrated).sound unchanging
      (perm'.mem_iff.mp member)

/-- A user has a large avatar, and a migration that comes to the root first seeds a large one and
two small ones.  The large one stays, and the first of the small ones is made. -/
theorem migrate_in_any_order_of_avatars : ∃ graph migrations state, Reached graph ∧
    graph.typedEntities = [("1", "User"), ("ROOT_QUERY", "Query")] ∧
    graph.migrateIn migrations [("ROOT_QUERY", "Query"), ("1", "User")] = (state, .ok ()) ∧
    Upgrade migrations graph state.graph ∧
    ((state.graph.node? "1❖[\"avatar\"]❖\x7b\"size\":64\x7d").bind Node.data).bind Value.string? =
      some "large.png" ∧
    ((state.graph.node? "1❖[\"avatar\"]❖\x7b\"size\":32\x7d").bind Node.data).bind Value.string? =
      some "first.png" := by
  let cache := Cache.new .default
  let request := Request.query
    "\x7b version viewer \x7b __typename id name avatar(size: 64) \x7d \x7d"
  let payload := Json.object [("version", .nat 1),
    ("viewer", .object [("__typename", .string "User"), ("id", .string "1"),
      ("name", .string "ada"), ("avatar", .string "large.png")])]
  let avatar (size : Int) (file : String) : Seed :=
    ⟨[.key "avatar"], [("size", .number (.int size))], .string file⟩
  let migrations := ((((Migrations.empty.addField "User" "name" .upper).addField "Query" "version"
    (.set (.string "2"))).addSeed "User" (avatar 64 "other.png")).addSeed "User"
    (avatar 32 "first.png")).addSeed "User" (avatar 32 "second.png")
  have closed : migrations.Closed :=
    (((((Migrations.closed_empty.addField "User" "name" .upper).addField "Query" "version"
      (.set (.string "2"))).addSeed "User" (by decide)).addSeed "User" (by decide)).addSeed "User"
      (by decide))
  let order := [("1", "User"), ("ROOT_QUERY", "Query")]
  let avatarOf (id : NodeId) (graph : Graph) := ((graph.node? id).bind Node.data).bind Value.string?
  let expected (graph : Graph) :=
    decide (avatarOf "1❖[\"avatar\"]❖\x7b\"size\":64\x7d" graph = some "large.png") &&
      decide (avatarOf "1❖[\"avatar\"]❖\x7b\"size\":32\x7d" graph = some "first.png")
  let passes (graph : Graph) := decide (graph.typedEntities = order) &&
    expected (graph.migrateIn migrations order.reverse).1.graph
  have test : cache.test request payload (fun entry => decide (entry.Plain cache payload)) passes
      .empty := by
    decide +kernel
  obtain ⟨entry, outcome, prepared, plain, written, test⟩ := Cache.exists_of_test test
  obtain ⟨types, test⟩ := (Bool.and_eq_true _ _).mp test
  have reached := Reached.step .empty (.write prepared (of_decide_eq_true plain) written)
  have perm : order.reverse.Perm outcome.commit.graph.typedEntities := by
    rw [of_decide_eq_true types]
    exact List.reverse_perm order
  obtain ⟨state, migrated, upgrade, -⟩ := reached.migrate_in_any_order closed perm
  rw [migrated] at test
  obtain ⟨large, small⟩ := (Bool.and_eq_true _ _).mp test
  exact ⟨_, migrations, state, reached, of_decide_eq_true types, migrated, upgrade,
    of_decide_eq_true large, of_decide_eq_true small⟩

end Graph
end ResponseGraph
