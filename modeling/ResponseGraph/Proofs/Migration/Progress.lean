import ResponseGraph.Proofs.Migration.Shares

/-!
How far a migration comes.

A migration goes through entities and, for each, through the seeds of its type.  It stops at the
first seed whose arguments have a variable left, since that seed has no address, and at nothing
else.  Up to there its nodes are those that `Nodes.migrateAll` and `Nodes.sow` tell; what comes
after was not looked at.
-/

namespace ResponseGraph

open Nodes

namespace Migrating

variable {state state' : Migrating} {container : NodeId} {seed : Seed}

theorem nodes_put (state : Migrating) (id : NodeId) (node : Node) :
    (state.put id node).graph.node? = Nodes.put state.graph.node? id node :=
  funext fun other => Graph.node?_insert state.graph id other node

theorem has_put {id other : NodeId} {node : Node} (has : Nodes.Has state.graph.node? other) :
    Nodes.Has (state.put id node).graph.node? other := by
  rw [nodes_put, Nodes.has_put]
  exact Or.inr has

theorem nodes_migrateFields (state : Migrating) (id : NodeId)
    (changes : List (String × FieldChange)) :
    (state.migrateFields id changes).graph.node? =
      Nodes.changeFields id changes state.graph.node? := by
  unfold migrateFields Nodes.changeFields
  cases found : state.graph.node? id with
  | none =>
    funext other
    dsimp only
    split
    · next same => rw [← same, found, Option.map_none]
    · rfl
  | some node => exact nodes_put state id _

/-- The fields of an entity are changed, if changes are declared for its type. -/
def revise (migrations : Migrations) (state : Migrating) (entity : NodeId × String) : Migrating :=
  match migrations.fields.get? entity.2 with
  | some changes => state.migrateFields entity.1 changes
  | none => state

theorem migrateEntity_eq (migrations : Migrations) (state : Migrating) (id : NodeId)
    (type : String) : state.migrateEntity migrations id type =
      (state.revise migrations (id, type)).sowAll id (migrations.seedsOf type) := rfl

theorem nodes_revise (migrations : Migrations) (state : Migrating) (entity : NodeId × String) :
    (state.revise migrations entity).graph.node? =
      Nodes.revise migrations state.graph.node? entity := by
  unfold revise Nodes.revise
  cases migrations.fields.get? entity.2 with
  | none => rfl
  | some changes => exact nodes_migrateFields state entity.1 changes

/-- Sowing makes and links a node unless it is linked. -/
theorem sow_cases (has : Nodes.Has state.graph.node? container)
    (h : state.sow container seed = .ok state') :
    ∃ id, seed.address container = .ok id ∧
      (⟨id, seed.path⟩ ∈ Nodes.links state.graph.node? .outbound container ∧ state' = state ∨
        ⟨id, seed.path⟩ ∉ Nodes.links state.graph.node? .outbound container ∧
          state'.graph.node? =
            Nodes.sprout state.graph.node? container seed.path id (seedling container seed)) := by
  unfold sow at h
  cases address : NodeId.parameterized container seed.path seed.arguments with
  | error e =>
    rw [address] at h
    cases h
  | ok id =>
    rw [address] at h
    refine ⟨id, address, ?_⟩
    have linked : ((state.graph.node? container).any fun node =>
        node.hasLink .outbound ⟨id, seed.path⟩) = true ↔
        ⟨id, seed.path⟩ ∈ Nodes.links state.graph.node? .outbound container := by
      unfold Nodes.links
      cases state.graph.node? container with
      | none => simp
      | some node => exact Node.hasLink_iff _ _ _
    change (if _ then _ else _) = _ at h
    split at h
    · next found =>
      cases h
      exact Or.inl ⟨linked.mp found, rfl⟩
    · next fresh =>
      refine Or.inr ⟨fun member => fresh (linked.mpr member), ?_⟩
      have kept : Nodes.Has (state.put id (seedling container seed)).graph.node? container :=
        has_put has
      obtain ⟨node, found⟩ := Option.isSome_iff_exists.mp kept
      have present : (state.put id
          ⟨.parameterized, [⟨container, seed.path⟩], [], some seed.value⟩).graph.node?
          container = some node := found
      rw [present] at h
      cases h
      unfold Nodes.sprout
      rw [nodes_put, nodes_put]
      rw [nodes_put] at found
      dsimp only
      rw [current_of_some found]
      rfl

theorem nodes_sow (has : Has state.graph.node? container)
    (sown : state.sow container seed = .ok state') :
    state'.graph.node? = Nodes.sow container state.graph.node? seed := by
  obtain ⟨id, address, ⟨linked, rfl⟩ | ⟨fresh, nodes⟩⟩ := sow_cases has sown
  · unfold Nodes.sow
    rw [address]
    exact (if_pos linked).symm
  · unfold Nodes.sow
    rw [address]
    exact nodes.trans (if_neg fresh).symm

theorem exists_sow (state : Migrating) {id : NodeId} (address : seed.address container = .ok id) :
    ∃ state', state.sow container seed = .ok state' := by
  unfold sow
  unfold Seed.address at address
  rw [address]
  dsimp only [bind, Except.bind]
  split
  · exact ⟨_, rfl⟩
  · split <;> exact ⟨_, rfl⟩

theorem sow_of_address_eq_error {e : UsageError} (missing : seed.address container = .error e) :
    state.sow container seed = .error e := by
  unfold sow
  unfold Seed.address at missing
  rw [missing]
  rfl

end Migrating

namespace Nodes

variable {nodes : Nodes} {id : NodeId}

theorem Has.sow (has : nodes.Has id) (container : NodeId) (seed : Seed) :
    (nodes.sow container seed).Has id := by
  unfold Nodes.sow
  split
  · exact has
  · split
    · exact has
    · exact has_sprout.mpr (Or.inr (Or.inr has))

theorem Has.sowAll (has : nodes.Has id) (container : NodeId) (seeds : List Seed) :
    Has (seeds.foldl (Nodes.sow container) nodes) id := by
  induction seeds generalizing nodes with
  | nil => exact has
  | cons seed rest ih => exact ih (has.sow container seed)

theorem Has.revise (has : nodes.Has id) (migrations : Migrations) (entity : NodeId × String) :
    (nodes.revise migrations entity).Has id := by
  unfold Nodes.revise
  split
  · exact has
  · unfold Nodes.changeFields Has
    dsimp only
    split
    · next same =>
      rw [same, Option.isSome_map]
      exact has
    · exact has

theorem Has.migrateEntity (has : nodes.Has id) (migrations : Migrations)
    (entity : NodeId × String) : (nodes.migrateEntity migrations entity).Has id :=
  (has.revise migrations entity).sowAll entity.1 (migrations.seedsOf entity.2)

end Nodes

/-! ## Where a migration stops -/

/-- A seed of an entity, with the entities and the seeds of its type before and after it. -/
structure Stop where
  done : List (NodeId × String)
  entity : NodeId × String
  rest : List (NodeId × String)
  earlier : List Seed
  seed : Seed
  later : List Seed

namespace Stop

variable {migrations : Migrations} {entities : List (NodeId × String)} {stop : Stop}

/-- The first seed with a variable left, in the order in which the entities are gone through. -/
structure Of (migrations : Migrations) (entities : List (NodeId × String)) (stop : Stop) :
    Prop where
  entities : entities = stop.done ++ stop.entity :: stop.rest
  seeds : migrations.seedsOf stop.entity.2 = stop.earlier ++ stop.seed :: stop.later
  done : ∀ entity ∈ stop.done, ∀ seed ∈ migrations.seedsOf entity.2, seed.Closed
  earlier : ∀ seed ∈ stop.earlier, seed.Closed
  stuck : ¬ stop.seed.Closed

/-- All entities before are migrated.  Of the entity itself the fields are changed, and the seeds
before the one without an address are sown. -/
def nodes (migrations : Migrations) (stop : Stop) (nodes : Nodes) : Nodes :=
  stop.earlier.foldl (Nodes.sow stop.entity.1)
    ((nodes.migrateAll migrations stop.done).revise migrations stop.entity)

theorem Of.entity_mem (h : stop.Of migrations entities) : stop.entity ∈ entities := by
  rw [h.entities]
  exact List.mem_append_right _ List.mem_cons_self

theorem Of.seed_mem (h : stop.Of migrations entities) :
    stop.seed ∈ migrations.seedsOf stop.entity.2 := by
  rw [h.seeds]
  exact List.mem_append_right _ List.mem_cons_self

theorem Of.cons {entity : NodeId × String} (h : stop.Of migrations entities)
    (closed : ∀ seed ∈ migrations.seedsOf entity.2, seed.Closed) :
    ({ stop with done := entity :: stop.done } : Stop).Of migrations (entity :: entities) :=
  ⟨congrArg (List.cons entity) h.entities, h.seeds, List.forall_mem_cons.mpr ⟨closed, h.done⟩,
    h.earlier, h.stuck⟩

end Stop

namespace Migrating

variable {state : Migrating} {container : NodeId}

/-- All seeds are sown, or those before the first one that has no address. -/
theorem sowAll_cases (has : Has state.graph.node? container) (seeds : List Seed) :
    ((∀ seed ∈ seeds, seed.Closed) ∧ ∃ state', state.sowAll container seeds = (state', .ok ()) ∧
        state'.graph.node? = seeds.foldl (Nodes.sow container) state.graph.node?) ∨
      ∃ earlier seed later, seeds = earlier ++ seed :: later ∧ (∀ sown ∈ earlier, sown.Closed) ∧
        ∃ e state', seed.address container = .error e ∧
          state.sowAll container seeds = (state', .error e) ∧
          state'.graph.node? = earlier.foldl (Nodes.sow container) state.graph.node? := by
  induction seeds generalizing state with
  | nil => exact Or.inl ⟨fun _ member => (by cases member), state, rfl, rfl⟩
  | cons seed rest ih =>
    rw [sowAll]
    cases address : seed.address container with
    | error e =>
      rw [sow_of_address_eq_error address]
      exact Or.inr ⟨[], seed, rest, rfl, fun _ member => (by cases member), e, state, address,
        rfl, rfl⟩
    | ok id =>
      obtain ⟨middle, sown⟩ := exists_sow state address
      have nodes := nodes_sow has sown
      have closed : seed.Closed := Seed.exists_address_iff.mp ⟨id, address⟩
      have kept : Has middle.graph.node? container := nodes ▸ Has.sow has container seed
      rw [sown, List.foldl_cons, ← nodes]
      rcases ih kept with ⟨all, done⟩ | ⟨earlier, stop, later, rfl, all, e, last, missing, done⟩
      · exact Or.inl ⟨List.forall_mem_cons.mpr ⟨closed, all⟩, done⟩
      · refine Or.inr ⟨seed :: earlier, stop, later, rfl, List.forall_mem_cons.mpr ⟨closed, all⟩,
          e, last, missing, ?_⟩
        rw [List.foldl_cons, ← nodes]
        exact done

variable {migrations : Migrations}

/-- All entities are migrated, unless a seed has no address. -/
theorem migrateAll_cases (state : Migrating) {entities : List (NodeId × String)}
    (has : ∀ entity ∈ entities, Has state.graph.node? entity.1) :
    ((∀ entity ∈ entities, ∀ seed ∈ migrations.seedsOf entity.2, seed.Closed) ∧
        ∃ state', state.migrateAll migrations entities = (state', .ok ()) ∧
          state'.graph.node? = Nodes.migrateAll migrations state.graph.node? entities) ∨
      ∃ stop : Stop, stop.Of migrations entities ∧ ∃ e state',
        stop.seed.address stop.entity.1 = .error e ∧
        state.migrateAll migrations entities = (state', .error e) ∧
        state'.graph.node? = stop.nodes migrations state.graph.node? := by
  induction entities generalizing state with
  | nil => exact Or.inl ⟨fun _ member => (by cases member), state, rfl, rfl⟩
  | cons entity rest ih =>
    obtain ⟨id, type⟩ := entity
    have here := has _ List.mem_cons_self
    have ready : Has (state.revise migrations (id, type)).graph.node? id := by
      rw [nodes_revise]
      exact here.revise migrations (id, type)
    rw [migrateAll, migrateEntity_eq]
    rcases sowAll_cases ready (migrations.seedsOf type) with ⟨closed, middle, sown, nodes⟩ |
      ⟨earlier, seed, later, seeds, closed, e, last, missing, sown, nodes⟩
    · have migrated : middle.graph.node? =
          Nodes.migrateEntity migrations state.graph.node? (id, type) := by
        rw [nodes, nodes_revise]
        rfl
      have kept : ∀ entity ∈ rest, Has middle.graph.node? entity.1 := fun entity member => by
        rw [migrated]
        exact (has entity (List.mem_cons_of_mem _ member)).migrateEntity migrations (id, type)
      rw [sown]
      dsimp only
      unfold Nodes.migrateAll
      rw [List.foldl_cons, ← migrated]
      rcases ih middle kept with ⟨all, done⟩ | ⟨stop, first, e, last, missing, failed, done⟩
      · exact Or.inl ⟨List.forall_mem_cons.mpr ⟨closed, all⟩, done⟩
      · refine Or.inr ⟨{ stop with done := (id, type) :: stop.done }, first.cons closed, e, last,
          missing, failed, ?_⟩
        rw [done, migrated]
        rfl
    · rw [sown]
      have stuck : ¬ seed.Closed := fun closed => by
        obtain ⟨target, found⟩ := Seed.exists_address_iff.mpr closed
        rw [missing] at found
        cases found
      refine Or.inr ⟨⟨[], (id, type), rest, earlier, seed, later⟩,
        ⟨rfl, seeds, fun _ member => (by cases member), closed, stuck⟩, e, last, missing, rfl, ?_⟩
      rw [nodes, nodes_revise]
      rfl

end Migrating
end ResponseGraph
