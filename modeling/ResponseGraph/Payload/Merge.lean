import ResponseGraph.Payload.Walk

/-!
Merging payloads.

The walk recurses on the fields, and at each composite field on the payload, which
is a list of lists of objects.  What happens at an object is a parameter of the
second recursion: it is the first one, at the fields below.

`Draft.merge` walks a payload, changes the references and removes the orphans.
-/

namespace ResponseGraph

namespace Walk

/-- Merges the members of an object at a place. -/
abbrev Descent := Place → List (String × Json) → Walk → Except Error Walk

mutual
def value (identify : Json → Option NodeId) (set : Nat) (descend : Descent) (place : Place) :
    Json → Walk → Except Error Walk
  | .null, walk =>
    let previous := walk.stored? place
    if (list? previous).isSome then .ok (walk.clear place)
    else walk.null identify place previous
  | .object members, walk =>
    let previous := walk.stored? place
    if (list? previous).isSome then
      .error (place.misfit "Unsupported transition from a list to a non-list value"
        (.object members))
    else do
      let (walk, below?) ← walk.object identify set place previous members
      match below? with
      | some below => descend below members walk
      | none => return walk
  | .array payloads, walk =>
    let previous := walk.stored? place
    if (list? previous).isNone && occupied previous then
      .error (place.misfit "Unsupported transition from a non-list to list value"
        (.array payloads))
    else
      items identify set descend place 0 payloads
        (walk.fit place (list? previous) payloads.length)
  | payload, _ =>
    .error (place.misfit
      "Received a scalar value for a field with a selection set; expected an object, a list or null"
      payload)
termination_by structural payload => payload

def items (identify : Json → Option NodeId) (set : Nat) (descend : Descent) (place : Place)
    (index : Nat) : List Json → Walk → Except Error Walk
  | [], walk => .ok walk
  | payload :: rest, walk => do
    let walk ← value identify set descend (place.step (.index index)) payload walk
    items identify set descend place (index + 1) rest walk
termination_by structural payloads => payloads
end

end Walk

mutual
def Field.merge (identify : Json → Option NodeId) (place : Place) (payload : Json) :
    Field → Walk → Except Error Walk
  | .leaf _ _, walk => .ok (walk.leaf place payload)
  | .composite _ _ _ set fields, walk =>
    Walk.value identify set
      (fun below members walk => Fields.merge identify below members fields walk)
      place payload walk
termination_by structural field => field

def Fields.merge (identify : Json → Option NodeId) (place : Place)
    (members : List (String × Json)) : Fields → Walk → Except Error Walk
  | [], walk => .ok walk
  | (name, field) :: rest, walk =>
    if field.head.excluded then Fields.merge identify place members rest walk
    else do
      let (walk, payload) := walk.member place name members
      let (walk, here) ← walk.field place name field.head
      let walk ← Field.merge identify here payload field walk
      Fields.merge identify place members rest walk
termination_by structural fields => fields
end

/-- The draft after a walk: its references are changed and its orphans removed. -/
def Walk.finish (walk : Walk) : Draft := (walk.draft.applyAll walk.changes).collectOrphans

/-- Merges a payload rooted at a node, and gives the warnings of the walk.
`identify` gives the id of an object that is an entity. -/
def Draft.merge (identify : Json → Option NodeId) (root : NodeId) (fields : Fields)
    (payload : Json) (draft : Draft) : Except Error (Draft × List String) :=
  match payload with
  | .object members => do
    let walk ← Fields.merge identify (.root root) members fields (.ofDraft draft)
    return (walk.finish, walk.warnings)
  | _ => .error ((Place.root root).misfit "Expected the operation payload to be an object" payload)

end ResponseGraph
