import ResponseGraph.Graph

/-!
Migrations.

A migration brings a stored graph to a newer shape.  For the entities of a type it
gives fields a new value, computed from the present one, and seeds the values of
fields with arguments that are not there yet.
-/

namespace ResponseGraph

/-- The new value of a field from its present value, if it has one. -/
abbrev FieldChange := Option Value → Value

namespace FieldChange

def set (value : Value) : FieldChange := fun _ => value

def orElse (value : Value) : FieldChange := fun present => present.getD value

/-- Capital letters of the Latin alphabet in a string; null for anything else. -/
def upper : FieldChange
  | some (.string s) => .string (s.map Char.toUpper)
  | _ => .null

def present : FieldChange := fun present => .bool present.isSome

def wrap : FieldChange := fun present => .list [present.getD .null]

end FieldChange

/-- The value of a field with arguments, for entities that lack it. -/
structure Seed where
  path : Path
  arguments : Arguments
  value : Value

/-- Migrations by type name. -/
structure Migrations where
  /-- Field changes in the order of their first declaration. -/
  fields : Table (List (String × FieldChange))
  seeds : Table (List Seed)

namespace Migrations

def empty : Migrations := ⟨Table.empty, Table.empty⟩

/-- A field that is declared again keeps its position and changes its
function. -/
def addField (migrations : Migrations) (type field : String) (change : FieldChange) :
    Migrations :=
  let declared := (migrations.fields.get? type).getD []
  { migrations with fields := migrations.fields.insert type (Entries.put field change declared) }

def addSeed (migrations : Migrations) (type : String) (seed : Seed) : Migrations :=
  let declared := (migrations.seeds.get? type).getD []
  { migrations with seeds := migrations.seeds.insert type (declared ++ [seed]) }

end Migrations

/-- The type of an entity with data: its type name, or that of the query root. -/
def Node.type? (id : NodeId) (node : Node) : Option String := do
  let data ← node.data
  match (data.member? "__typename").bind Value.string? with
  | some name => some name
  | none => if NodeId.isQueryRoot id then some "Query" else none

/-- A graph in migration, with the nodes that were touched. -/
structure Migrating where
  graph : Graph
  touched : NameSet

namespace Migrating

def put (state : Migrating) (id : NodeId) (node : Node) : Migrating :=
  ⟨state.graph.insert id node, state.touched.add id⟩

/-- Each change sees the results of those before it. -/
def changeFields (changes : List (String × FieldChange)) (data : Value) : Value :=
  changes.foldl (fun data (field, change) =>
    data.set [.key field] (change (data.member? field))) data

def migrateFields (id : NodeId) (changes : List (String × FieldChange)) (state : Migrating) :
    Migrating :=
  match state.graph.node? id with
  | none => state
  | some node =>
    state.put id { node with data := some (changeFields changes (node.data.getD .null)) }

/-- Makes and links the node of a seed unless the container has the link. -/
def sow (container : NodeId) (state : Migrating) (seed : Seed) : Except UsageError Migrating := do
  let id ← NodeId.parameterized container seed.path seed.arguments
  let linked := (state.graph.node? container).any fun node =>
    node.hasLink .outbound ⟨id, seed.path⟩
  if linked then return state
  let seeded : Node := ⟨.parameterized, [⟨container, seed.path⟩], [], some seed.value⟩
  let state := state.put id seeded
  match state.graph.node? container with
  | none => return state
  | some node => return state.put container (node.addLink .outbound ⟨id, seed.path⟩)

/-- Sows seeds up to the first that fails. -/
def sowAll (container : NodeId) (state : Migrating) :
    List Seed → Migrating × Except UsageError Unit
  | [] => (state, .ok ())
  | seed :: rest =>
    match state.sow container seed with
    | .error e => (state, .error e)
    | .ok state => sowAll container state rest

def migrateEntity (migrations : Migrations) (state : Migrating) (id : NodeId) (type : String) :
    Migrating × Except UsageError Unit :=
  let state := match migrations.fields.get? type with
    | some changes => state.migrateFields id changes
    | none => state
  state.sowAll id ((migrations.seeds.get? type).getD [])

/-- Migrates entities up to the first that fails. -/
def migrateAll (migrations : Migrations) (state : Migrating) :
    List (NodeId × String) → Migrating × Except UsageError Unit
  | [] => (state, .ok ())
  | (id, type) :: rest =>
    match state.migrateEntity migrations id type with
    | (state, .error e) => (state, .error e)
    | (state, .ok ()) => migrateAll migrations state rest

end Migrating

namespace Graph

/-- The entities that have a type, with their types. -/
def typedEntities (graph : Graph) : List (NodeId × String) :=
  graph.toList.filterMap fun (id, node) =>
    if node.isEntity then (node.type? id).map fun type => (id, type) else none

/-- Migrates the entities in the order of their ids.  Their types are those before
the migration.  What was done before a failure stays done. -/
def migrate (graph : Graph) (migrations : Migrations) : Migrating × Except UsageError Unit :=
  Migrating.migrateAll migrations ⟨graph, Table.empty⟩ graph.typedEntities

end Graph
end ResponseGraph
