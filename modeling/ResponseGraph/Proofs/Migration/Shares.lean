import ResponseGraph.Migration
import ResponseGraph.Proofs.Argument.Variables
import ResponseGraph.Proofs.Draft.Committed

/-!
Migrations of single entities.

A migration writes into the graph as it goes from one entity to the next, so an entity may find
what was written for the entities before it.  But all that it reads and writes is its *share*: its
own node and the nodes at the addresses of its seeds.  An address tells its container, so different
entities have different shares, and each is migrated as if it were the only one
(`Nodes.migrateAll_of_share`).  The order of the entities has no part in the result.

What a migration does is said here as a function of nodes.  A migration of a graph fails at the
first seed that has no address, and up to there its nodes are those of the function.
-/

namespace ResponseGraph

open NodeId (Whole)

/-! ## Addresses of seeds -/

namespace Seed

variable {seed other : Seed} {container container' id : NodeId}

/-- The id of the node that the seed makes for a container. -/
def address (seed : Seed) (container : NodeId) : Except UsageError NodeId :=
  NodeId.parameterized container seed.path seed.arguments

/-- No variable is left in the arguments. -/
def Closed (seed : Seed) : Prop := seed.arguments.openVariable? = none

instance (seed : Seed) : Decidable seed.Closed := inferInstanceAs (Decidable (_ = _))

/-- Seeds of one field with the same arguments. -/
def Alike (seed other : Seed) : Prop :=
  seed.path = other.path ∧
    seed.arguments.toJson?.map Json.text = other.arguments.toJson?.map Json.text

theorem exists_address_iff : (∃ id, seed.address container = .ok id) ↔ seed.Closed := by
  unfold address Closed NodeId.parameterized
  rw [← Arguments.isSome_toJson?_iff]
  cases seed.arguments.toJson? <;> simp

/-- What is in the way of an address is the first variable that is left. -/
theorem address_eq_error_iff {e : UsageError} : seed.address container = .error e ↔
    ∃ name, seed.arguments.openVariable? = some name ∧ e = .openVariable name := by
  have closed := Arguments.isSome_toJson?_iff seed.arguments
  unfold address NodeId.parameterized
  cases found : seed.arguments.openVariable? with
  | none =>
    obtain ⟨json, written⟩ := Option.isSome_iff_exists.mp (closed.mpr found)
    simp [written]
  | some name =>
    have unwritten : seed.arguments.toJson? = none := by
      rw [← Option.not_isSome_iff_eq_none, closed, found]
      exact Option.some_ne_none name
    simp [unwritten, eq_comm]

theorem address_ne_container (h : seed.address container = .ok id) : id ≠ container :=
  NodeId.parameterized_ne_container h

theorem not_whole_of_address (h : seed.address container = .ok id) : ¬ Whole id :=
  NodeId.not_whole_of_parameterized h

theorem container_eq_of_address (h : seed.address container = .ok id)
    (h' : other.address container' = .ok id) : container = container' :=
  (NodeId.parameterized_inj h h').1

/-- Seeds of a container have one address exactly if they are alike. -/
theorem address_eq_iff_alike (h : seed.address container = .ok id) :
    other.address container = .ok id ↔ other.Alike seed := by
  have text {seed : Seed} : seed.address container = .ok id ↔
      ∃ json, seed.arguments.toJson? = some json ∧ String.ofList (container.toList ++
        NodeId.separator :: seed.path.toJson.write (NodeId.separator :: json.write [])) = id := by
    unfold address NodeId.parameterized
    cases seed.arguments.toJson? <;> simp
  obtain ⟨json, written, rfl⟩ := text.mp h
  unfold Alike
  rw [written]
  constructor
  · intro h'
    obtain ⟨json', written', same⟩ := text.mp h'
    have path := (NodeId.parameterized_inj h' h).2
    refine ⟨path, ?_⟩
    rw [path, Json.write_append seed.path.toJson, Json.write_append seed.path.toJson
      (NodeId.separator :: json.write [])] at same
    have rests := List.append_cancel_left (String.ofList_inj.mp same)
    have tails := List.append_cancel_left (List.cons.inj rests).2
    rw [written', Option.map_some, Option.map_some, Option.some.injEq, Json.text_eq_iff]
    exact (List.cons.inj tails).2
  · rintro ⟨path, same⟩
    obtain ⟨json', written', texts⟩ := Option.map_eq_some_iff.mp same
    refine text.mpr ⟨json', written', ?_⟩
    rw [path, Json.text_eq_iff.mp texts]

end Seed

namespace Migrations

/-- The seeds of a type as declared. -/
def seedsOf (migrations : Migrations) (type : String) : List Seed :=
  (migrations.seeds.get? type).getD []

/-- The field changes of a type as declared. -/
def changesOf (migrations : Migrations) (type : String) : List (String × FieldChange) :=
  (migrations.fields.get? type).getD []

/-- No seed has a variable in its arguments. -/
def Closed (migrations : Migrations) : Prop :=
  ∀ type, ∀ seed ∈ migrations.seedsOf type, seed.Closed

theorem closed_empty : empty.Closed := fun _ _ member => by cases member

theorem Closed.addField {migrations : Migrations} (h : migrations.Closed) (type field : String)
    (change : FieldChange) : (migrations.addField type field change).Closed := h

theorem Closed.addSeed {migrations : Migrations} (h : migrations.Closed) (type : String)
    {seed : Seed} (closed : seed.Closed) : (migrations.addSeed type seed).Closed := by
  intro other sown member
  unfold seedsOf Migrations.addSeed at member
  rw [Table.get?_insert] at member
  split at member
  · rcases List.mem_append.mp member with declared | added
    · exact h type sown declared
    · exact List.mem_singleton.mp added ▸ closed
  · exact h other sown member

/-- The nodes that the migration of an entity has to do with. -/
def Share (migrations : Migrations) (entity : NodeId × String) (id : NodeId) : Prop :=
  id = entity.1 ∨ ∃ seed ∈ migrations.seedsOf entity.2, seed.address entity.1 = .ok id

/-- Different entities have nothing in common. -/
theorem Share.container_eq {migrations : Migrations} {entity entity' : NodeId × String}
    {id : NodeId} (whole : Whole entity.1) (whole' : Whole entity'.1)
    (h : migrations.Share entity id) (h' : migrations.Share entity' id) : entity.1 = entity'.1 := by
  rcases h with rfl | ⟨seed, -, address⟩
  · rcases h' with same | ⟨seed', -, address'⟩
    · exact same
    · exact absurd whole (Seed.not_whole_of_address address')
  · rcases h' with rfl | ⟨seed', -, address'⟩
    · exact absurd whole' (Seed.not_whole_of_address address)
    · exact Seed.container_eq_of_address address address'

end Migrations

/-! ## Changes of a few nodes -/

namespace Nodes

/-- The function reads and writes only the nodes of some ids. -/
structure LocalTo (ids : NodeId → Prop) (f : Nodes → Nodes) : Prop where
  outside : ∀ (nodes : Nodes) id, ¬ ids id → f nodes id = nodes id
  inside : ∀ nodes nodes' : Nodes, (∀ id, ids id → nodes id = nodes' id) →
    ∀ id, ids id → f nodes id = f nodes' id

variable {ids more : NodeId → Prop} {f g : Nodes → Nodes}

theorem LocalTo.id : LocalTo ids fun nodes => nodes :=
  ⟨fun _ _ _ => rfl, fun _ _ same => same⟩

theorem LocalTo.comp (hf : LocalTo ids f) (hg : LocalTo ids g) :
    LocalTo ids fun nodes => f (g nodes) :=
  ⟨fun nodes id apart => (hf.outside (g nodes) id apart).trans (hg.outside nodes id apart),
    fun nodes nodes' same => hf.inside (g nodes) (g nodes') (hg.inside nodes nodes' same)⟩

theorem LocalTo.mono (h : LocalTo ids f) (among : ∀ id, ids id → more id) : LocalTo more f := by
  refine ⟨fun nodes id apart => h.outside nodes id fun given => apart (among id given), ?_⟩
  intro nodes nodes' same id given
  by_cases here : ids id
  · exact h.inside nodes nodes' (fun other given => same other (among other given)) id here
  · rw [h.outside nodes id here, h.outside nodes' id here, same id given]

theorem LocalTo.foldl {α : Type} {f : Nodes → α → Nodes} {list : List α}
    (h : ∀ x ∈ list, LocalTo ids fun nodes => f nodes x) :
    LocalTo ids fun nodes => list.foldl f nodes := by
  induction list with
  | nil => exact .id
  | cons x rest ih =>
    exact (ih fun y member => h y (List.mem_cons_of_mem x member)).comp (h x List.mem_cons_self)

section

variable {α : Type} {share : α → NodeId → Prop} {f : Nodes → α → Nodes} {list : List α}

theorem foldl_of_not_share (localTo : ∀ x, LocalTo (share x) fun nodes => f nodes x)
    {id : NodeId} (apart : ∀ x ∈ list, ¬ share x id) (nodes : Nodes) :
    list.foldl f nodes id = nodes id := by
  induction list generalizing nodes with
  | nil => rfl
  | cons x rest ih =>
    rw [List.foldl_cons, ih fun y member => apart y (List.mem_cons_of_mem x member)]
    exact (localTo x).outside nodes id (apart x List.mem_cons_self)

/-- If no two steps have a node in common, each finds its nodes as they were at first. -/
theorem foldl_of_share (localTo : ∀ x, LocalTo (share x) fun nodes => f nodes x)
    (apart : list.Pairwise fun x y => ∀ id, share x id → ¬ share y id) {x : α} (member : x ∈ list)
    {id : NodeId} (here : share x id) (nodes : Nodes) : list.foldl f nodes id = f nodes x id := by
  induction list generalizing nodes with
  | nil => cases member
  | cons first rest ih =>
    obtain ⟨others, rests⟩ := List.pairwise_cons.mp apart
    rw [List.foldl_cons]
    rcases List.mem_cons.mp member with rfl | later
    · exact foldl_of_not_share localTo (fun y inside => others y inside id here) _
    · rw [ih rests later]
      refine (localTo x).inside _ _ (fun other given => ?_) id here
      exact (localTo first).outside nodes other fun first => others x later other first given

end

/-! ## What a migration does to nodes -/

/-- The fields of a node are changed, if there is one. -/
def changeFields (id : NodeId) (changes : List (String × FieldChange)) (nodes : Nodes) : Nodes :=
  fun other =>
    if id = other then
      (nodes id).map fun node =>
        { node with data := some (Migrating.changeFields changes (node.data.getD .null)) }
    else nodes other

/-- The node that a seed makes. -/
def seedling (container : NodeId) (seed : Seed) : Node :=
  ⟨.parameterized, [⟨container, seed.path⟩], [], some seed.value⟩

/-- The node of a seed is made and linked unless the container has the link.  A seed without an
address is passed over. -/
def sow (container : NodeId) (nodes : Nodes) (seed : Seed) : Nodes :=
  match seed.address container with
  | .error _ => nodes
  | .ok id =>
    if ⟨id, seed.path⟩ ∈ nodes.links .outbound container then nodes
    else nodes.sprout container seed.path id (seedling container seed)

/-- The fields of an entity are changed, if changes are declared for its type. -/
def revise (migrations : Migrations) (nodes : Nodes) (entity : NodeId × String) : Nodes :=
  match migrations.fields.get? entity.2 with
  | none => nodes
  | some changes => nodes.changeFields entity.1 changes

def migrateEntity (migrations : Migrations) (nodes : Nodes) (entity : NodeId × String) : Nodes :=
  (migrations.seedsOf entity.2).foldl (sow entity.1) (nodes.revise migrations entity)

def migrateAll (migrations : Migrations) (nodes : Nodes) (entities : List (NodeId × String)) :
    Nodes :=
  entities.foldl (migrateEntity migrations) nodes

theorem localTo_changeFields (id : NodeId) (changes : List (String × FieldChange)) :
    LocalTo (fun other => other = id) (changeFields id changes) := by
  unfold changeFields
  refine ⟨fun nodes other apart => if_neg (Ne.symm apart), fun nodes nodes' same other here => ?_⟩
  subst here
  rw [if_pos rfl, if_pos rfl, same _ rfl]

theorem localTo_sow (container : NodeId) (seed : Seed) :
    LocalTo (fun id => id = container ∨ seed.address container = .ok id)
      fun nodes => sow container nodes seed := by
  unfold sow
  cases address : seed.address container with
  | error e => exact .id
  | ok target =>
    have apart := Seed.address_ne_container address
    dsimp only
    constructor
    · intro nodes id other
      obtain ⟨notContainer, notTarget⟩ := not_or.mp other
      split
      · rfl
      · unfold sprout put
        rw [if_neg (Ne.symm notContainer), if_neg fun same => notTarget (congrArg _ same)]
    · intro nodes nodes' same id here
      have present := same container (Or.inl rfl)
      have links : nodes.links .outbound container = nodes'.links .outbound container := by
        unfold Nodes.links
        rw [present]
      rw [links]
      split
      · exact same id here
      · unfold sprout put current
        dsimp only
        rw [if_neg apart, if_neg apart, present]
        split
        · rfl
        · split
          · rfl
          · exact same id here

theorem localTo_revise (migrations : Migrations) (entity : NodeId × String) :
    LocalTo (fun id => id = entity.1) fun nodes => revise migrations nodes entity := by
  unfold revise
  cases migrations.fields.get? entity.2 with
  | none => exact .id
  | some changes => exact localTo_changeFields entity.1 changes

theorem localTo_sowAll {migrations : Migrations} {entity : NodeId × String} {seeds : List Seed}
    (among : seeds ⊆ migrations.seedsOf entity.2) :
    LocalTo (migrations.Share entity) fun nodes => seeds.foldl (sow entity.1) nodes := by
  refine .foldl fun seed member => (localTo_sow entity.1 seed).mono fun id here => ?_
  exact here.imp_right fun address => ⟨seed, among member, address⟩

/-- An entity reads and writes its share. -/
theorem localTo_migrateEntity (migrations : Migrations) (entity : NodeId × String) :
    LocalTo (migrations.Share entity) fun nodes => migrateEntity migrations nodes entity :=
  (localTo_sowAll (List.Subset.refl _)).comp
    ((localTo_revise migrations entity).mono fun _ same => Or.inl same)

variable {migrations : Migrations} {entities order : List (NodeId × String)}

/-- The entities are named by whole ids, each once. -/
structure Separate (entities : List (NodeId × String)) : Prop where
  nodup : (entities.map Prod.fst).Nodup
  whole : ∀ entity ∈ entities, Whole entity.1

theorem Separate.perm (h : Separate entities) (perm : order.Perm entities) : Separate order :=
  ⟨(perm.map Prod.fst).nodup_iff.mpr h.nodup,
    fun entity member => h.whole entity (perm.mem_iff.mp member)⟩

theorem Separate.pairwise (h : Separate entities) : entities.Pairwise fun entity entity' =>
    ∀ id, migrations.Share entity id → ¬ migrations.Share entity' id := by
  refine (List.pairwise_map.mp h.nodup).imp_of_mem fun one two apart id here there => ?_
  exact apart (here.container_eq (h.whole _ one) (h.whole _ two) there)

/-- In its share an entity is migrated as if it were the only one. -/
theorem migrateAll_of_share (h : Separate entities) {entity : NodeId × String}
    (member : entity ∈ entities) {id : NodeId} (share : migrations.Share entity id)
    (nodes : Nodes) :
    nodes.migrateAll migrations entities id = nodes.migrateEntity migrations entity id :=
  foldl_of_share (localTo_migrateEntity migrations) h.pairwise member share nodes

/-- A migration leaves whatever is in no share. -/
theorem migrateAll_of_not_share {id : NodeId}
    (apart : ∀ entity ∈ entities, ¬ migrations.Share entity id) (nodes : Nodes) :
    nodes.migrateAll migrations entities id = nodes id :=
  foldl_of_not_share (localTo_migrateEntity migrations) apart nodes

/-- The order of the entities has no part in what becomes of the nodes. -/
theorem migrateAll_perm (h : Separate entities) (perm : order.Perm entities) (nodes : Nodes) :
    nodes.migrateAll migrations order = nodes.migrateAll migrations entities := by
  funext id
  by_cases shared : ∃ entity ∈ entities, migrations.Share entity id
  · obtain ⟨entity, member, share⟩ := shared
    rw [migrateAll_of_share h member share,
      migrateAll_of_share (h.perm perm) (perm.mem_iff.mpr member) share]
  · have apart : ∀ entity ∈ entities, ¬ migrations.Share entity id :=
      fun entity member share => shared ⟨entity, member, share⟩
    rw [migrateAll_of_not_share apart,
      migrateAll_of_not_share fun entity member => apart entity (perm.mem_iff.mp member)]

end Nodes
end ResponseGraph
