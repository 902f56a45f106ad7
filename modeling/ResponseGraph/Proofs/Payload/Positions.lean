import ResponseGraph.Proofs.Payload.Coherent

/-!
Positions that clash with what is stored.

The positions of a payload where a selection goes on are listed with the values that the payload
has there.  A position clashes with a stored value if a merge that came to it first would fail:
a scalar always does, and a list, an object or an entity clashes with a value of another kind.

A coherent payload suits what is stored exactly if none of its positions clashes
(`Visit.suited_iff`).
-/

namespace ResponseGraph

open Nodes NodeId Visit

mutual
/-- The positions of a value of a payload, with what the payload has there.  The members of an
entity belong to its own node. -/
def Json.positions (identify : Json → Option NodeId)
    (below : Site → List (String × Json) → List (Site × Json)) (site : Site) :
    Json → List (Site × Json)
  | .object members =>
    (site, .object members) :: below ((identify (.object members)).elim site Site.root) members
  | .array payloads => (site, .array payloads) :: Json.itemPositions identify below site 0 payloads
  | payload => [(site, payload)]
termination_by structural payload => payload

def Json.itemPositions (identify : Json → Option NodeId)
    (below : Site → List (String × Json) → List (Site × Json)) (site : Site) (index : Nat) :
    List Json → List (Site × Json)
  | [] => []
  | payload :: rest =>
    Json.positions identify below (site.step (.index index)) payload ++
      Json.itemPositions identify below site (index + 1) rest
termination_by structural payloads => payloads
end

mutual
def Field.positions (identify : Json → Option NodeId) (site : Site) (payload : Json) :
    Field → List (Site × Json)
  | .leaf _ _ => []
  | .composite _ _ _ _ fields =>
    Json.positions identify
      (fun below members => Fields.positions identify below members fields) site payload
termination_by structural field => field

/-- The positions below an object where a selection goes on. -/
def Fields.positions (identify : Json → Option NodeId) (site : Site)
    (members : List (String × Json)) : Fields → List (Site × Json)
  | [] => []
  | (name, field) :: rest =>
    if field.head.excluded then Fields.positions identify site members rest
    else
      (match field.head.site site name with
        | .ok here => Field.positions identify here (payloadOf members name) field
        | .error _ => []) ++
      Fields.positions identify site members rest
termination_by structural fields => fields
end

/-- The payload cannot be merged where this is stored. -/
def Json.clashes (identify : Json → Option NodeId) (stored : Option Value) : Json → Bool
  | .null => false
  | .bool _ | .number _ | .string _ => true
  | .array _ => stored.any fun value => !value.isNull && value.list?.isNone
  | .object members =>
    match identify (.object members) with
    | none => stored.any fun value => value.list?.isSome || value.reference?.isSome
    | some _ => stored.any fun value => !value.isNull && value.reference?.isNone

variable {identify : Json → Option NodeId}

/-- A payload clashes exactly if what it brings cannot be brought. -/
theorem Visit.suits_content_iff (payload : Json) (stored : Option Value) :
    (payload.content identify).Suits stored ↔ payload.clashes identify stored = false := by
  cases payload with
  | null => exact iff_of_true trivial rfl
  | bool | number | string => exact iff_of_false (fun suits => suits) Bool.noConfusion
  | array payloads =>
    show (Walk.list? stored = none → Walk.occupied stored = false) ↔ _
    cases stored with
    | none => exact iff_of_true (fun _ => rfl) rfl
    | some value => cases value <;> simp [Walk.list?, Walk.occupied, Json.clashes, Value.isNull,
        Value.list?]
  | object members =>
    cases named : identify (.object members) with
    | none =>
      rw [content_plain named]
      show Walk.list? stored = none ∧ Walk.entity? stored = none ↔ _
      simp only [Json.clashes, named]
      cases stored with
      | none => exact iff_of_true ⟨rfl, rfl⟩ rfl
      | some value => cases value <;> simp [Walk.list?, Walk.entity?, Value.list?, Value.reference?]
    | some id =>
      rw [content_named named]
      show (Walk.entity? stored = none → Walk.occupied stored = false) ↔ _
      simp only [Json.clashes, named]
      cases stored with
      | none => exact iff_of_true (fun _ => rfl) rfl
      | some value => cases value <;> simp [Walk.entity?, Walk.occupied, Value.isNull,
          Value.reference?]

/-! ## Positions and visits -/

namespace Visit

/-- A visit that is made of a position, or that cannot clash unless the payload contradicts
itself. -/
def Placed (identify : Json → Option NodeId) (all : List Visit) (positions : List (Site × Json)) :
    Visit → Prop
  | .brought site content =>
    (∃ payload, (site, payload) ∈ positions ∧ payload.content identify = content) ∨
      (∃ payload, content = .leaf payload) ∨
      (content = .object ∧ ∃ id around, site = .root id ∧ .brought around (.entity id) ∈ all) ∨
      (content = .misfit ∧ .brought site .object ∈ all)
  | .entered .. => True

variable {all : List Visit} {positions more : List (Site × Json)}

theorem Placed.mono {visit : Visit} (h : visit.Placed identify all positions)
    (subset : positions ⊆ more) : visit.Placed identify all more := by
  cases visit with
  | entered => trivial
  | brought site content =>
    refine h.imp_left ?_
    rintro ⟨payload, member, e⟩
    exact ⟨payload, subset member, e⟩

/-- The root of an entity that was brought is placed. -/
theorem placed_root {around : Site} {id : NodeId} (entity : .brought around (.entity id) ∈ all) :
    Placed identify all positions (.brought (.root id) .object) :=
  Or.inr (Or.inr (Or.inl ⟨rfl, id, around, rfl, entity⟩))

/-- All visits of a list are placed, and all positions are visited. -/
structure Places (identify : Json → Option NodeId) (all : List Visit)
    (positions : List (Site × Json)) (visits : List Visit) : Prop where
  placed : ∀ visit ∈ visits, visit.Placed identify all positions
  visited : ∀ site payload, (site, payload) ∈ positions →
    .brought site (payload.content identify) ∈ visits

namespace Places

variable {visits others : List Visit}

theorem nil : Places identify all [] [] :=
  ⟨fun _ member => absurd member List.not_mem_nil, fun _ _ member => absurd member List.not_mem_nil⟩

theorem append (first : Places identify all positions visits)
    (second : Places identify all more others) :
    Places identify all (positions ++ more) (visits ++ others) := by
  refine ⟨fun visit member => ?_, fun site payload member => ?_⟩
  · rcases List.mem_append.mp member with member | member
    · exact (first.placed visit member).mono (List.subset_append_left _ _)
    · exact (second.placed visit member).mono (List.subset_append_right _ _)
  · exact List.mem_append.mpr ((List.mem_append.mp member).imp (first.visited site payload)
      (second.visited site payload))

/-- A visit that is no position. -/
theorem cons {visit : Visit} (here : visit.Placed identify all positions)
    (rest : Places identify all positions visits) :
    Places identify all positions (visit :: visits) := by
  refine ⟨fun other member => ?_, fun site payload member => ?_⟩
  · rcases List.mem_cons.mp member with rfl | member
    · exact here
    · exact rest.placed other member
  · exact List.mem_cons_of_mem _ (rest.visited site payload member)

/-- A position and its visit. -/
theorem position {site : Site} {payload : Json} {content : Content}
    (same : payload.content identify = content) (rest : Places identify all positions visits) :
    Places identify all ((site, payload) :: positions) (.brought site content :: visits) := by
  subst same
  refine ⟨fun other member => ?_, fun found other member => ?_⟩
  · rcases List.mem_cons.mp member with rfl | member
    · exact Or.inl ⟨payload, List.mem_cons_self, rfl⟩
    · exact (rest.placed other member).mono (List.subset_cons_self _ _)
  · rcases List.mem_cons.mp member with e | member
    · cases e
      exact List.mem_cons_self
    · exact List.mem_cons_of_mem _ (rest.visited found other member)

end Places

/-- The positions below an object that was visited. -/
def PlacesBelow (identify : Json → Option NodeId) (all : List Visit) (fields : Fields) : Prop :=
  ∀ (site : Site) (members : List (String × Json)), .brought site .object ∈ all →
    Fields.visits true identify site members fields ⊆ all →
    Places identify all (Fields.positions identify site members fields)
      (Fields.visits true identify site members fields)

mutual
theorem places_value {set : Nat} {fields : Fields} (below : PlacesBelow identify all fields) :
    (payload : Json) → (site : Site) →
    ofValue true identify set fields (Fields.below true identify fields) site payload ⊆ all →
    Places identify all
      (payload.positions identify
        (fun site members => Fields.positions identify site members fields) site)
      (ofValue true identify set fields (Fields.below true identify fields) site payload)
  | .null, _, _ | .bool _, _, _ | .number _, _, _ | .string _, _, _ => .position rfl .nil
  | .object members, site, within => by
    unfold ofValue Json.positions at *
    split at within
    · next unnamed =>
      rw [unnamed]
      obtain ⟨here, within⟩ := List.cons_subset.mp within
      exact .position (content_plain unnamed) (below site members here within)
    · next id named =>
      rw [named]
      unfold ofEntity at within ⊢
      rw [if_pos rfl] at within ⊢
      obtain ⟨around, within⟩ := List.cons_subset.mp within
      obtain ⟨root, within⟩ := List.cons_subset.mp within
      obtain ⟨-, within⟩ := List.cons_subset.mp within
      exact .position (content_named named)
        (.cons (placed_root around) (.cons trivial (below (.root id) members root within)))
  | .array payloads, site, within => by
    unfold ofValue Json.positions at *
    exact .position rfl (places_items below payloads site 0 (List.cons_subset.mp within).2)

theorem places_items {set : Nat} {fields : Fields} (below : PlacesBelow identify all fields) :
    (payloads : List Json) → (site : Site) → (index : Nat) →
    ofItems true identify set fields (Fields.below true identify fields) site index payloads ⊆ all →
    Places identify all
      (Json.itemPositions identify
        (fun site members => Fields.positions identify site members fields) site index payloads)
      (ofItems true identify set fields (Fields.below true identify fields) site index payloads)
  | [], _, _, _ => .nil
  | payload :: rest, site, index, within => by
    unfold ofItems Json.itemPositions at *
    obtain ⟨here, later⟩ := List.append_subset.mp within
    exact (places_value below payload _ here).append
      (places_items below rest site (index + 1) later)
end

end Visit

mutual
theorem Field.places {all : List Visit} : (field : Field) → (site : Site) → (payload : Json) →
    Field.visits true identify site payload field ⊆ all →
    Places identify all (Field.positions identify site payload field)
      (Field.visits true identify site payload field)
  | .leaf _ _, _, payload, _ => .cons (Or.inr (Or.inl ⟨payload, rfl⟩)) .nil
  | .composite _ _ _ _ fields, site, payload, within =>
    places_value (fun _ members around => Fields.places fields _ members around) payload site within

theorem Fields.places {all : List Visit} : (fields : Fields) → (site : Site) →
    (members : List (String × Json)) → .brought site .object ∈ all →
    Fields.visits true identify site members fields ⊆ all →
    Places identify all (Fields.positions identify site members fields)
      (Fields.visits true identify site members fields)
  | [], _, _, _, _ => .nil
  | (name, field) :: rest, site, members, around, within => by
    unfold Fields.visits Fields.positions at *
    split
    · next excluded =>
      rw [if_pos excluded] at within
      exact Fields.places rest site members around within
    · next included =>
      rw [if_neg included] at within
      obtain ⟨here, later⟩ := List.append_subset.mp within
      refine Places.append ?_ (Fields.places rest site members around later)
      cases located : field.head.site site name with
      | ok below =>
        rw [located] at here
        exact Field.places field below _ here
      | error e => exact .cons (Or.inr (Or.inr (Or.inr ⟨rfl, around⟩))) .nil
end

/-- A coherent payload suits what is stored exactly if none of its positions clashes. -/
theorem Visit.suited_iff {root : NodeId} {fields : Fields} {members : List (String × Json)}
    {base : Nodes} (rooted : base.Rooted) (whole : Whole root)
    (named : Named (Visit.ofPayload identify root fields (.object members)))
    (coherent : Coherent (Visit.ofPayload identify root fields (.object members))) :
    Suited base (Visit.ofPayload identify root fields (.object members)) ↔
      ∀ site payload, (site, payload) ∈ Fields.positions identify (.root root) members fields →
        payload.clashes identify (base.read site.container site.path) = false := by
  have places : Places identify (Visit.ofPayload identify root fields (.object members))
      (Fields.positions identify (.root root) members fields)
      (Fields.visits true identify (.root root) members fields) :=
    Fields.places fields (.root root) members List.mem_cons_self (List.subset_cons_self _ _)
  have root_suits (id : NodeId) (whole : Whole id) :
      Content.object.Suits (base.read (Site.root id).container (Site.root id).path) :=
    Walk.of_fits_object fun value stored => rooted id whole value stored
  refine ⟨fun suited site payload member => ?_, fun fine site content member => ?_⟩
  · exact (suits_content_iff payload _).mp
      (suited _ _ (List.mem_cons_of_mem _ (places.visited site payload member)))
  · rcases List.mem_cons.mp member with e | inside
    · cases e
      exact root_suits root whole
    · rcases places.placed _ inside with ⟨payload, here, rfl⟩ | ⟨payload, rfl⟩ |
        ⟨rfl, id, around, rfl, entity⟩ | ⟨rfl, object⟩
      · exact (suits_content_iff payload _).mpr (fine site payload here)
      · trivial
      · exact root_suits id (named _ entity id rfl)
      · rcases coherent _ _ _ member object with same | ⟨-, e⟩
        · cases same
        · cases e

end ResponseGraph
