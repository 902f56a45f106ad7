import ResponseGraph.Payload.Merge

/-!
Positions of a payload.

A selection and a payload determine which places of the graph a merge comes to and
what it brings there.  `Fields.visits` lists these visits, by the same recursion as the
merge but without a graph.

An entity is brought to its place, and its members belong to the root of its own node.
A merge may skip the members of an entity that it has met with the same fields before.
The list therefore has two forms.  With `deep` it goes on below every entity, and lists
all positions of the payload.  Without, it stops at each entity, and tells by
`Visit.entered` how the members would go on.
-/

namespace ResponseGraph

/-- A place of the graph, wherever in a payload its value comes from. -/
structure Site where
  container : NodeId
  path : Path
deriving DecidableEq

namespace Site

def root (container : NodeId) : Site := ⟨container, []⟩

def step (site : Site) (step : Step) : Site := { site with path := site.path ++ [step] }

end Site

def Place.site (place : Place) : Site := ⟨place.container, place.path⟩

/-- The site of a field of an object. -/
def FieldHead.site (head : FieldHead) (site : Site) (name : String) : Except UsageError Site :=
  let site := site.step (.key (head.schemaName.getD name))
  match head.arguments with
  | none => .ok site
  | some arguments => (NodeId.parameterized site.container site.path arguments).map Site.root

/-- What a payload brings to a site. -/
inductive Content where
  /-- The value of a field without sub-selection. -/
  | leaf (payload : Json)
  | null
  | list (length : Nat)
  /-- Members that are stored at the site. -/
  | object
  | entity (id : NodeId)
  /-- Something that cannot be stored: a scalar where a selection goes on, or a field whose
  arguments are not known. -/
  | misfit

inductive Visit where
  | brought (site : Site) (content : Content)
  /-- The members of an entity come with the fields of a set. -/
  | entered (id : NodeId) (set : Nat) (fields : Fields) (members : List (String × Json))

/-- The payload of a field, null for a missing one. -/
def payloadOf (members : List (String × Json)) (name : String) : Json :=
  (Entries.get? name members).getD .null

namespace Visit

/-- The visits below an object at a site. -/
abbrev Below := Site → List (String × Json) → List Visit

def ofEntity (deep : Bool) (set : Nat) (fields : Fields) (below : Below) (id : NodeId)
    (members : List (String × Json)) : List Visit :=
  .brought (.root id) .object :: .entered id set fields members ::
    if deep then below (.root id) members else []

mutual
def ofValue (deep : Bool) (identify : Json → Option NodeId) (set : Nat) (fields : Fields)
    (below : Below) (site : Site) : Json → List Visit
  | .null => [.brought site .null]
  | .object members =>
    match identify (.object members) with
    | none => .brought site .object :: below site members
    | some id => .brought site (.entity id) :: ofEntity deep set fields below id members
  | .array payloads =>
    .brought site (.list payloads.length) ::
      ofItems deep identify set fields below site 0 payloads
  | _ => [.brought site .misfit]
termination_by structural payload => payload

def ofItems (deep : Bool) (identify : Json → Option NodeId) (set : Nat) (fields : Fields)
    (below : Below) (site : Site) (index : Nat) : List Json → List Visit
  | [] => []
  | payload :: rest =>
    ofValue deep identify set fields below (site.step (.index index)) payload ++
      ofItems deep identify set fields below site (index + 1) rest
termination_by structural payloads => payloads
end

end Visit

mutual
def Field.visits (deep : Bool) (identify : Json → Option NodeId) (site : Site) (payload : Json) :
    Field → List Visit
  | .leaf _ _ => [.brought site (.leaf payload)]
  | .composite _ _ _ set fields =>
    Visit.ofValue deep identify set fields
      (fun below members => Fields.visits deep identify below members fields) site payload
termination_by structural field => field

def Fields.visits (deep : Bool) (identify : Json → Option NodeId) (site : Site)
    (members : List (String × Json)) : Fields → List Visit
  | [] => []
  | (name, field) :: rest =>
    if field.head.excluded then Fields.visits deep identify site members rest
    else
      (match field.head.site site name with
        | .ok here => Field.visits deep identify here (payloadOf members name) field
        | .error _ => [.brought site .misfit]) ++
      Fields.visits deep identify site members rest
termination_by structural fields => fields
end

/-- The visits below an object that has the fields. -/
abbrev Fields.below (deep : Bool) (identify : Json → Option NodeId) (fields : Fields) :
    Visit.Below := fun site members => Fields.visits deep identify site members fields

/-- All positions of a payload.  The payload itself belongs to the root of the operation. -/
def Visit.ofPayload (identify : Json → Option NodeId) (root : NodeId) (fields : Fields) :
    Json → List Visit
  | .object members =>
    .brought (.root root) .object :: Fields.visits true identify (.root root) members fields
  | _ => []

end ResponseGraph
