import ResponseGraph.Proofs.Migration.Progress

/-!
What seeds leave behind.

A seed makes a node and puts it where its address says, whatever is there.  Nothing is lost by
that: in sound nodes the address of a field has a node exactly if the container links it, and then
the seed does nothing.  So all that happens is that nodes are made that were not there, and that
links are added to the end of the container's list.  A migration keeps a graph sound.
-/

namespace ResponseGraph

namespace Nodes

variable {nodes sown : Nodes} {container id : NodeId} {seed : Seed} {seeds : List Seed}

/-- What becomes of nodes when the seeds of a container are sown. -/
structure Sown (container : NodeId) (seeds : List Seed) (nodes sown : Nodes) : Prop where
  sound : Sound (fun _ => False) sown
  extended : ∀ node, nodes container = some node → ∃ added,
    sown container = some { node with outbound := node.outbound ++ added } ∧
      ∀ link ∈ added, ∃ seed ∈ seeds,
        seed.address container = .ok link.node ∧ link.path = seed.path
  linked : ∀ seed ∈ seeds, ∀ id, seed.address container = .ok id →
    ⟨id, seed.path⟩ ∈ sown.links .outbound container
  kept : ∀ id, id ≠ container → nodes.Has id → sown id = nodes id
  /-- The first seed with an address makes the node. -/
  made : ∀ earlier seed later id, seeds = earlier ++ seed :: later →
    seed.address container = .ok id → (∀ other ∈ earlier, other.address container ≠ .ok id) →
    nodes id = none → sown id = some (seedling container seed)

theorem sow_of_linked (address : seed.address container = .ok id)
    (linked : ⟨id, seed.path⟩ ∈ nodes.links .outbound container) :
    nodes.sow container seed = nodes := by
  unfold sow
  rw [address]
  exact if_pos linked

theorem sow_of_not_linked (address : seed.address container = .ok id)
    (fresh : ⟨id, seed.path⟩ ∉ nodes.links .outbound container) :
    nodes.sow container seed =
      nodes.sprout container seed.path id (seedling container seed) := by
  unfold sow
  rw [address]
  exact if_neg fresh

/-- The container of a new node gets a link at the end. -/
theorem sprout_container {node made : Node} {path : Path} (found : nodes container = some node)
    (apart : id ≠ container) (fresh : ⟨id, path⟩ ∉ nodes.links .outbound container) :
    nodes.sprout container path id made container =
      some { node with outbound := node.outbound ++ [⟨id, path⟩] } := by
  rw [links_of_some found] at fresh
  have kept : nodes.put id made container = some node := (if_neg apart).trans found
  unfold sprout
  rw [current_of_some kept, put, if_pos rfl, Node.addLink, if_neg]
  · rfl
  · rw [Node.hasLink_iff]
    exact fresh

theorem sprout_self {made : Node} {path : Path} (apart : id ≠ container) :
    nodes.sprout container path id made id = some made := by
  unfold sprout put
  rw [if_neg (Ne.symm apart), if_pos rfl]

theorem sprout_other {made : Node} {path : Path} {other : NodeId} (notContainer : other ≠ container)
    (notId : other ≠ id) : nodes.sprout container path id made other = nodes other := by
  unfold sprout put
  rw [if_neg (Ne.symm notContainer), if_neg (Ne.symm notId)]

/-- What one seed leaves behind. -/
theorem Sound.sow (h : Sound (fun _ => False) nodes) (has : nodes.Has container)
    (address : seed.address container = .ok id) :
    Sown container [seed] nodes (nodes.sow container seed) := by
  have apart := Seed.address_ne_container address
  have only {earlier later : List Seed} {other : Seed}
      (same : [seed] = earlier ++ other :: later) : other = seed := by
    cases earlier with
    | nil => exact (List.cons.inj same).1.symm
    | cons _ _ => cases (List.nil_eq_append_iff.mp (List.cons.inj same).2).2
  by_cases linked : ⟨id, seed.path⟩ ∈ nodes.links .outbound container
  · rw [sow_of_linked address linked]
    refine ⟨h, fun node found => ⟨[], ?_, fun _ member => (by cases member)⟩, ?_,
      fun _ _ _ => rfl, ?_⟩
    · rw [List.append_nil]
      exact found
    · intro other member target address'
      rw [List.mem_singleton.mp member] at address' ⊢
      cases address.symm.trans address'
      exact linked
    · intro earlier other later target same address' _ missing
      rw [only same] at address'
      cases address.symm.trans address'
      -- What is linked has a node.
      have back := (h.mirrored container id seed.path).mp linked
      rw [links_of_none missing] at back
      cases back
  · rw [sow_of_not_linked address linked]
    have missing := h.eq_none_of_not_linked address linked
    refine ⟨h.create address linked (Or.inr has) rfl rfl rfl, ?_, ?_, ?_, ?_⟩
    · intro node found
      refine ⟨[⟨id, seed.path⟩], sprout_container found apart linked, fun link member => ?_⟩
      rw [List.mem_singleton.mp member]
      exact ⟨seed, List.mem_cons_self, address, rfl⟩
    · intro other member target address'
      rw [List.mem_singleton.mp member] at address' ⊢
      cases address.symm.trans address'
      obtain ⟨node, found⟩ := Option.isSome_iff_exists.mp has
      rw [links_of_some (sprout_container found apart linked)]
      exact List.mem_append_right _ List.mem_cons_self
    · intro other notContainer present
      refine sprout_other notContainer fun same => ?_
      rw [same, Has, missing] at present
      cases present
    · intro earlier other later target same address' _ _
      rw [only same] at address' ⊢
      cases address.symm.trans address'
      exact sprout_self apart

theorem Sown.has (h : Sown container seeds nodes sown) (present : nodes.Has container) :
    sown.Has container := by
  obtain ⟨node, found⟩ := Option.isSome_iff_exists.mp present
  obtain ⟨added, here, -⟩ := h.extended node found
  exact has_of_some here

/-- A link that the container had is there still. -/
theorem Sown.mem_links (h : Sown container seeds nodes sown) {link : Link}
    (member : link ∈ nodes.links .outbound container) : link ∈ sown.links .outbound container := by
  obtain ⟨node, found⟩ := Option.isSome_iff_exists.mp (has_of_mem member)
  obtain ⟨added, here, -⟩ := h.extended node found
  rw [links_of_some found] at member
  rw [links_of_some here]
  exact List.mem_append_left added member

/-- What all seeds leave behind. -/
theorem Sound.sowAll (h : Sound (fun _ => False) nodes) (has : nodes.Has container)
    (closed : ∀ seed ∈ seeds, seed.Closed) :
    Sown container seeds nodes (seeds.foldl (Nodes.sow container) nodes) := by
  induction seeds generalizing nodes with
  | nil =>
    refine ⟨h, fun node found => ⟨[], ?_, fun _ member => (by cases member)⟩,
      fun _ member => (by cases member), fun _ _ _ => rfl, ?_⟩
    · rw [List.append_nil]
      exact found
    · intro earlier seed later id same
      cases (List.nil_eq_append_iff.mp same).2
  | cons seed rest ih =>
    obtain ⟨here, others⟩ := List.forall_mem_cons.mp closed
    obtain ⟨target, address⟩ := Seed.exists_address_iff.mpr here
    have first := h.sow has address
    have others := ih first.sound (first.has has) others
    rw [List.foldl_cons]
    refine ⟨others.sound, fun node found => ?_, ?_, fun id apart present => ?_, ?_⟩
    · obtain ⟨one, middle, among⟩ := first.extended node found
      obtain ⟨more, last, among'⟩ := others.extended _ middle
      refine ⟨one ++ more, ?_, fun link member => ?_⟩
      · rw [last, List.append_assoc]
      · rcases List.mem_append.mp member with member | member
        · obtain ⟨other, single, given⟩ := among link member
          rw [List.mem_singleton.mp single] at given
          exact ⟨seed, List.mem_cons_self, given⟩
        · obtain ⟨other, inside, given⟩ := among' link member
          exact ⟨other, List.mem_cons_of_mem _ inside, given⟩
    · refine List.forall_mem_cons.mpr ⟨fun id address' => ?_, others.linked⟩
      exact others.mem_links (first.linked seed List.mem_cons_self id address')
    · have same := first.kept id apart present
      rw [others.kept id apart (by rw [Has, same]; exact present), same]
    · intro earlier other later id same address' fresh missing
      have apart := Seed.address_ne_container address'
      cases earlier with
      | nil =>
        obtain ⟨rfl, rfl⟩ := List.cons.inj same
        have made := first.made [] seed [] id rfl address' fresh missing
        rw [others.kept id apart (has_of_some made), made]
      | cons head earlier =>
        obtain ⟨rfl, rfl⟩ := List.cons.inj same
        obtain ⟨notFirst, notOthers⟩ := List.forall_mem_cons.mp fresh
        refine others.made earlier other later id rfl address' notOthers ?_
        have outside := (localTo_sow container seed).outside nodes id fun given =>
          given.elim apart notFirst
        exact outside.trans missing

/-! ## Entities -/

variable {migrations : Migrations}

/-- Changed fields are no part of being sound. -/
theorem Sound.revise (h : Sound (fun _ => False) nodes) (migrations : Migrations)
    (entity : NodeId × String) : Sound (fun _ => False) (nodes.revise migrations entity) := by
  refine h.of_shapes (funext fun id => ?_)
  unfold Nodes.revise
  split
  · rfl
  · unfold shapes changeFields
    split
    · next same =>
      rw [same, Option.map_map]
      rfl
    · rfl

theorem revise_of_data (migrations : Migrations) (entity : NodeId × String) {node : Node}
    {data : Value} (found : nodes entity.1 = some node) (given : node.data = some data) :
    nodes.revise migrations entity entity.1 = some { node with
        data := some (Migrating.changeFields (migrations.changesOf entity.2) data) } := by
  unfold Nodes.revise Migrations.changesOf
  cases migrations.fields.get? entity.2 with
  | none =>
    refine found.trans (congrArg some ?_)
    cases node
    cases given
    rfl
  | some changes =>
    dsimp only
    unfold changeFields
    rw [if_pos rfl, found, Option.map_some, given, Option.getD_some, Option.getD_some]

/-- What the migration of an entity leaves behind. -/
theorem Sound.migrateEntity (h : Sound (fun _ => False) nodes) (entity : NodeId × String)
    (has : nodes.Has entity.1) (closed : ∀ seed ∈ migrations.seedsOf entity.2, seed.Closed) :
    Sown entity.1 (migrations.seedsOf entity.2) (nodes.revise migrations entity)
      (nodes.migrateEntity migrations entity) :=
  (h.revise migrations entity).sowAll (has.revise migrations entity) closed

theorem Sound.migrateAll (h : Sound (fun _ => False) nodes) {entities : List (NodeId × String)}
    (has : ∀ entity ∈ entities, nodes.Has entity.1)
    (closed : ∀ entity ∈ entities, ∀ seed ∈ migrations.seedsOf entity.2, seed.Closed) :
    Sound (fun _ => False) (nodes.migrateAll migrations entities) := by
  induction entities generalizing nodes with
  | nil => exact h
  | cons entity rest ih =>
    have present := has entity List.mem_cons_self
    have migrated := h.migrateEntity entity present (closed entity List.mem_cons_self)
    refine ih migrated.sound (fun other member => ?_)
      (fun other member => closed other (List.mem_cons_of_mem _ member))
    exact (has other (List.mem_cons_of_mem _ member)).migrateEntity migrations entity

end Nodes

/-! ## Seeds that were sown before -/

namespace Migrating

open Nodes

variable {state : Migrating} {container : NodeId} {migrations : Migrations}

/-- The container has the links of the seeds. -/
def Linked (nodes : Nodes) (container : NodeId) (seeds : List Seed) : Prop :=
  ∀ seed ∈ seeds, ∃ id, seed.address container = .ok id ∧
    ⟨id, seed.path⟩ ∈ nodes.links .outbound container

theorem sowAll_of_linked {seeds : List Seed}
    (linked : Linked state.graph.node? container seeds) :
    state.sowAll container seeds = (state, .ok ()) := by
  induction seeds with
  | nil => rfl
  | cons seed rest ih =>
    obtain ⟨⟨id, address, here⟩, later⟩ := List.forall_mem_cons.mp linked
    obtain ⟨state', sown⟩ := exists_sow state address
    have same : state' = state := by
      obtain ⟨id', address', ⟨-, same⟩ | ⟨fresh, -⟩⟩ := sow_cases (has_of_mem here) sown
      · exact same
      · cases address.symm.trans address'
        exact absurd here fresh
    rw [sowAll, sown, same]
    exact ih later

/-- A migration without field changes, all of whose seeds are linked, changes nothing. -/
theorem migrateAll_of_linked {entities : List (NodeId × String)}
    (unchanging : ∀ type, migrations.fields.get? type = none)
    (linked : ∀ entity ∈ entities,
      Linked state.graph.node? entity.1 (migrations.seedsOf entity.2)) :
    state.migrateAll migrations entities = (state, .ok ()) := by
  induction entities with
  | nil => rfl
  | cons entity rest ih =>
    obtain ⟨here, later⟩ := List.forall_mem_cons.mp linked
    have same : state.revise migrations entity = state := by
      unfold revise
      rw [unchanging]
    rw [migrateAll, migrateEntity_eq, same, sowAll_of_linked here]
    exact ih later

end Migrating

namespace Graph

open Nodes

theorem mem_typedEntities {graph : Graph} {id : NodeId} {type : String} :
    (id, type) ∈ graph.typedEntities ↔
      ∃ node, graph.node? id = some node ∧ node.isEntity ∧ node.type? id = some type := by
  unfold typedEntities
  rw [List.mem_filterMap]
  constructor
  · rintro ⟨⟨other, node⟩, member, typed⟩
    dsimp only at typed
    split at typed
    · next entity =>
      obtain ⟨found, given, same⟩ := Option.map_eq_some_iff.mp typed
      cases same
      exact ⟨node, node?_of_mem member, entity, given⟩
    · cases typed
  · rintro ⟨node, found, entity, given⟩
    refine ⟨(id, node), Entries.mem_of_get? found, ?_⟩
    dsimp only
    rw [if_pos entity, given]
    rfl

theorem has_of_mem_typedEntities {graph : Graph} {entity : NodeId × String}
    (h : entity ∈ graph.typedEntities) : Nodes.Has graph.node? entity.1 := by
  obtain ⟨node, found, -⟩ := mem_typedEntities.mp h
  exact has_of_some found

/-- A migration of a sound graph that does not fail makes a sound graph. -/
theorem sound_migrate {graph : Graph} {migrations : Migrations} {state : Migrating}
    (h : graph.Sound) (migrated : graph.migrate migrations = (state, .ok ())) :
    state.graph.Sound := by
  have has : ∀ entity ∈ graph.typedEntities, Nodes.Has graph.node? entity.1 :=
    fun _ => has_of_mem_typedEntities
  rcases Migrating.migrateAll_cases ⟨graph, Table.empty⟩ has with ⟨closed, last, done, nodes⟩ |
    ⟨-, -, e, last, -, failed, -⟩
  · cases migrated.symm.trans done
    unfold Graph.Sound
    rw [nodes]
    exact Nodes.Sound.migrateAll h has closed
  · cases migrated.symm.trans failed

end Graph
end ResponseGraph
