import ResponseGraph.Proofs.Payload.Visits

/-!
Selections in another order.

`Fields.Reordered` is that two selections have the same fields, in any order and at any level.
Labels may differ: fields that are put in another order are other objects.  A payload comes to
the same places with both, and brings the same things there.
-/

namespace ResponseGraph

mutual
/-- The same field, with the fields of its selection in another order. -/
inductive Field.Reordered : Field → Field → Prop
  | leaf (label label' : Nat) (head : FieldHead) :
    Field.Reordered (.leaf label head) (.leaf label' head)
  | composite (label label' : Nat) (head : FieldHead) (traits traits' : Traits) (set set' : Nat)
    {fields fields' : List (String × Field)} (below : Fields.Reordered fields fields') :
    Field.Reordered (.composite label head traits set fields)
      (.composite label' head traits' set' fields')

/-- The same fields in another order, at any level. -/
inductive Fields.Reordered : List (String × Field) → List (String × Field) → Prop
  | nil : Fields.Reordered [] []
  | cons (name : String) {field field' : Field} {rest rest' : List (String × Field)}
    (here : Field.Reordered field field') (later : Fields.Reordered rest rest') :
    Fields.Reordered ((name, field) :: rest) ((name, field') :: rest')
  | swap (first second : String × Field) (rest : List (String × Field)) :
    Fields.Reordered (first :: second :: rest) (second :: first :: rest)
  | trans {fields between fields' : List (String × Field)}
    (first : Fields.Reordered fields between) (second : Fields.Reordered between fields') :
    Fields.Reordered fields fields'
end

theorem Field.Reordered.head {field field' : Field} (h : field.Reordered field') :
    field'.head = field.head := by
  cases h <;> rfl

namespace Visit

/-- The same is brought to the same sites. -/
def SameBrought (visits others : List Visit) : Prop :=
  ∀ site content, .brought site content ∈ visits ↔ .brought site content ∈ others

namespace SameBrought

variable {visits others more rest : List Visit}

theorem refl (visits : List Visit) : SameBrought visits visits := fun _ _ => Iff.rfl

theorem trans (first : SameBrought visits others) (second : SameBrought others more) :
    SameBrought visits more := fun site content =>
  (first site content).trans (second site content)

theorem append (first : SameBrought visits others) (second : SameBrought more rest) :
    SameBrought (visits ++ more) (others ++ rest) := fun site content => by
  rw [List.mem_append, List.mem_append, first site content, second site content]

theorem brought (h : SameBrought visits others) (site : Site) (content : Content) :
    SameBrought (.brought site content :: visits) (.brought site content :: others) :=
  append (refl [_]) h

theorem entered (h : SameBrought visits others) (id : NodeId) (set set' : Nat)
    (fields fields' : Fields) (members : List (String × Json)) :
    SameBrought (.entered id set fields members :: visits)
      (.entered id set' fields' members :: others) := fun site content => by
  simp [h site content]

theorem swap (visits others more : List Visit) :
    SameBrought (visits ++ (others ++ more)) (others ++ (visits ++ more)) := fun site content => by
  simp only [List.mem_append]
  exact or_left_comm

end SameBrought

/-- Of a site and the members there, below is the same. -/
def SameBelow (below below' : Below) : Prop :=
  ∀ site members, SameBrought (below site members) (below' site members)

variable {identify : Json → Option NodeId} {set set' : Nat} {fields fields' : Fields}
  {below below' : Below}

mutual
theorem ofValue_sameBrought (inner : SameBelow below below') : (payload : Json) → (site : Site) →
    SameBrought (ofValue true identify set fields below site payload)
      (ofValue true identify set' fields' below' site payload)
  | .null, _ | .bool _, _ | .number _, _ | .string _, _ => .refl _
  | .object members, site => by
    unfold ofValue
    split
    · exact (inner site members).brought site .object
    · next id _ =>
      exact (((inner (.root id) members).entered id set set' fields fields' members).brought
        (.root id) .object).brought site (.entity id)
  | .array payloads, site => (ofItems_sameBrought inner payloads site 0).brought site _

theorem ofItems_sameBrought (inner : SameBelow below below') : (payloads : List Json) →
    (site : Site) → (index : Nat) →
    SameBrought (ofItems true identify set fields below site index payloads)
      (ofItems true identify set' fields' below' site index payloads)
  | [], _, _ => .refl _
  | payload :: rest, site, index =>
    (ofValue_sameBrought inner payload (site.step (.index index))).append
      (ofItems_sameBrought inner rest site (index + 1))
end

end Visit

open Visit

/-- The visits of a field, if it is included. -/
def Field.visitsAt (identify : Json → Option NodeId) (site : Site) (members : List (String × Json))
    (name : String) (field : Field) : List Visit :=
  if field.head.excluded then []
  else
    match field.head.site site name with
    | .ok here => field.visits true identify here (payloadOf members name)
    | .error _ => [.brought site .misfit]

theorem Fields.visits_cons (identify : Json → Option NodeId) (site : Site)
    (members : List (String × Json)) (name : String) (field : Field) (rest : Fields) :
    Fields.visits true identify site members ((name, field) :: rest) =
      field.visitsAt identify site members name ++
        Fields.visits true identify site members rest := by
  rw [Fields.visits, Field.visitsAt]
  split <;> rfl

mutual
theorem Field.Reordered.sameBrought {identify : Json → Option NodeId} {field field' : Field} :
    field.Reordered field' → (site : Site) → (payload : Json) →
    SameBrought (field.visits true identify site payload) (field'.visits true identify site payload)
  | .leaf _ _ _, _, _ => .refl _
  | .composite _ _ _ _ _ _ _ below, site, payload =>
    ofValue_sameBrought (fun site members => Fields.Reordered.sameBrought below site members)
      payload site

/-- With the same fields in another order a payload brings the same. -/
theorem Fields.Reordered.sameBrought {identify : Json → Option NodeId} {fields fields' : Fields} :
    Fields.Reordered fields fields' → (site : Site) → (members : List (String × Json)) →
    SameBrought (Fields.visits true identify site members fields)
      (Fields.visits true identify site members fields')
  | .nil, _, _ => .refl _
  | .cons name here later, site, members => by
    rw [Fields.visits_cons, Fields.visits_cons]
    refine SameBrought.append ?_ (Fields.Reordered.sameBrought later site members)
    unfold Field.visitsAt
    rw [here.head]
    split
    · exact .refl _
    · split
      · exact Field.Reordered.sameBrought here _ _
      · exact .refl _
  | .swap _ _ _, site, members => by
    rw [Fields.visits_cons, Fields.visits_cons, Fields.visits_cons, Fields.visits_cons]
    exact .swap _ _ _
  | .trans first second, site, members =>
    (Fields.Reordered.sameBrought first site members).trans
      (Fields.Reordered.sameBrought second site members)
end

/-- All positions of a payload are the same for a selection in another order. -/
theorem Fields.Reordered.sameBrought_ofPayload {fields fields' : Fields}
    (h : Fields.Reordered fields fields') (identify : Json → Option NodeId) (root : NodeId)
    (payload : Json) :
    SameBrought (Visit.ofPayload identify root fields payload)
      (Visit.ofPayload identify root fields' payload) := by
  cases payload with
  | object members => exact (h.sameBrought (.root root) members).brought (.root root) .object
  | _ => exact .refl _

end ResponseGraph
