import ResponseGraph.Field
import ResponseGraph.Payload.Place
import ResponseGraph.Draft.Collect

/-!
The steps of walking a payload.

A payload is walked together with the fields of an operation.  Values are written
into the draft as they are met.  Changes of references are collected and made after
the walk.  Each function here handles one position of the payload, without what is
below it.
-/

namespace ResponseGraph

structure Walk where
  draft : Draft
  /-- Changes of references in the order in which they were found. -/
  changes : List LinkChange
  warnings : List String
  /-- Entities with the sets they were merged with. -/
  visited : List (NodeId × Nat)

namespace Walk

def ofDraft (draft : Draft) : Walk := ⟨draft, [], [], []⟩

/-- What is stored at a place. -/
def stored? (walk : Walk) (place : Place) : Option Value :=
  walk.draft.get? place.container place.path

/-- Writes at a place right away. -/
def write (walk : Walk) (place : Place) (value : Value) : Walk :=
  { walk with draft := walk.draft.set place.container place.path value }

/-- The place refers to `next` once the walk is done. -/
def relink (walk : Walk) (place : Place) (next : Option NodeId) : Walk :=
  { walk with changes := walk.changes ++ [.relink place.container place.path next] }

/-- The link leads strictly below the path.  With `first?`, it leads into a list item
at that index or after it. -/
def leadsBelow (path : Path) (first? : Option Nat) (link : Link) : Bool :=
  match path.stripBase? link.path with
  | some (next :: _) => first?.all fun first => next.index?.any fun i => first ≤ i
  | _ => false

/-- Whatever is linked strictly below a place, or below its list items from `first?`
on, is detached once the walk is done. -/
def detachBelow (walk : Walk) (place : Place) (first? : Option Nat) : Walk :=
  let links := ((walk.draft.node? place.container).elim [] Node.outbound).filter
    (leadsBelow place.path first?)
  let changes := links.map fun link => .detach place.container link.path link.node
  { walk with changes := walk.changes ++ changes }

/-! ## Fields -/

/-- The member of an object for a response name.  A missing one counts as null and
is worth a warning. -/
def member (walk : Walk) (place : Place) (name : String) (members : List (String × Json)) :
    Walk × Json :=
  match Entries.get? name members with
  | some payload => (walk, payload)
  | none =>
    let position := (place.step (.key name)).payloadPath
    let warning := "Encountered undefined at " ++ position.dotted ++ ". Treating as null"
    ({ walk with warnings := walk.warnings ++ [warning] }, .null)

/-- The node for the value of a field with arguments, made and linked unless the
container has the link. -/
def parameterized (walk : Walk) (place : Place) (arguments : Arguments) :
    Except Error (Walk × Place) :=
  match NodeId.parameterized place.container place.path arguments with
  | .error e => .error (.usage e)
  | .ok id =>
    let linked := (walk.draft.node? place.container).any fun node =>
      node.hasLink .outbound ⟨id, place.path⟩
    if linked then .ok (walk, place.enter id)
    else
      let node := (Node.bare .parameterized).addLink .inbound ⟨place.container, place.path⟩
      let draft := (walk.draft.put id node).update place.container fun container =>
        container.addLink .outbound ⟨id, place.path⟩
      .ok ({ walk with draft }, place.enter id)

/-- The place of a field of an object at `place`.  Without arguments it is in the
same node, under the name of the schema. -/
def field (walk : Walk) (place : Place) (name : String) (head : FieldHead) :
    Except Error (Walk × Place) :=
  let place := place.step (.key (head.schemaName.getD name))
  match head.arguments with
  | none => .ok (walk, place)
  | some arguments => walk.parameterized place arguments

/-- A value without sub-selection is written unless it is what is stored. -/
def leaf (walk : Walk) (place : Place) (payload : Json) : Walk :=
  if (walk.stored? place).any fun value => value.sameAsJson payload then walk
  else walk.write place (.ofJson payload)

/-! ## Values with a sub-selection -/

/-- Something other than null is stored. -/
def occupied (previous : Option Value) : Bool := previous.any fun value => !value.isNull

/-- The entity that is stored, if it is one. -/
def entity? (previous : Option Value) : Option NodeId := previous.bind Value.reference?

def list? (previous : Option Value) : Option (List Value) := previous.bind Value.list?

/-- Null in place of whatever is stored. -/
def clear (walk : Walk) (place : Place) : Walk := (walk.detachBelow place none).write place .null

/-- Null at a place that holds no list. -/
def null (identify : Json → Option NodeId) (walk : Walk) (place : Place)
    (previous : Option Value) : Except Error Walk :=
  match identify .null, entity? previous with
  | none, some _ => .ok (walk.relink place none)
  | none, none =>
    if occupied previous then .ok (walk.clear place)
    else if previous.isNone then .ok (walk.write place .null)
    else .ok walk
  | some id, some old =>
    if id = old then .ok (walk.clear place)
    else .error (place.inconsistent "The identity function returned an id for a null payload")
  | some _, none =>
    if occupied previous then
      .error (place.misfit "Unsupported transition from a non-entity value to an entity" .null)
    else .error (place.inconsistent "The identity function returned an id for a null payload")

/-- Marks an entity as merged with a set, and gives the place of its members unless
it was merged with that set before. -/
def visit (walk : Walk) (place : Place) (set : Nat) (id : NodeId) : Walk × Option Place :=
  if walk.visited.contains (id, set) then (walk, none)
  else ({ walk with visited := (id, set) :: walk.visited }, some (place.enter id))

/-- An object at a place that holds no list.  The result has the place of the
members, if they are to be merged. -/
def object (identify : Json → Option NodeId) (set : Nat) (walk : Walk) (place : Place)
    (previous : Option Value) (members : List (String × Json)) :
    Except Error (Walk × Option Place) :=
  let payload := Json.object members
  match identify payload, entity? previous with
  | none, none => .ok (walk, some place)
  | none, some _ =>
    .error (place.misfit "Unsupported transition from an entity to a non-entity value" payload)
  | some id, none =>
    if occupied previous then
      .error (place.misfit "Unsupported transition from a non-entity value to an entity" payload)
    else .ok ((walk.relink place (some id)).visit place set id)
  | some id, some old =>
    let walk := if id = old then walk else walk.relink place (some id)
    .ok (walk.visit place set id)

/-- A list takes the length of the payload, and what was linked beyond it is
detached. -/
def fit (walk : Walk) (place : Place) (previous : Option (List Value)) (length : Nat) : Walk :=
  match previous with
  | none => walk.write place (.list (Value.resize [] length))
  | some items =>
    if items.length = length then walk
    else
      let walk := walk.write place (.list (Value.resize items length))
      if length < items.length then walk.detachBelow place (some length) else walk

end Walk
end ResponseGraph
