import ResponseGraph.Proofs.Field.Labels
import ResponseGraph.Proofs.Payload.Contents

/-!
Positions that a merge skipped.

A merge does not go into an entity again that it met with the same set.  The labels of known
fields tell sets apart, so the members it went into then were read by the same fields.  In a
consistent payload both come to the same sites, and so every site of the payload is seen,
skipped positions included (`Fields.covers`).
-/

namespace ResponseGraph

open Visit

/-- Entities are entered with the fields that the label of the set stands for. -/
def Keyed (labels : Labels) (visits : List Visit) : Prop :=
  ∀ id set fields members, .entered id set fields members ∈ visits → labels set = some (.set fields)

namespace Keyed

variable {labels : Labels} {visits more : List Visit}

theorem nil : Keyed labels [] := fun _ _ _ _ member => absurd member List.not_mem_nil

theorem append (first : Keyed labels visits) (second : Keyed labels more) :
    Keyed labels (visits ++ more) := fun id set fields members member =>
  (List.mem_append.mp member).elim (first id set fields members) (second id set fields members)

theorem brought {site : Site} {content : Content} (rest : Keyed labels visits) :
    Keyed labels (.brought site content :: visits) := fun id set fields members member =>
  rest id set fields members ((List.mem_cons.mp member).resolve_left fun e => by cases e)

theorem entered {id : NodeId} {set : Nat} {fields : Fields} {members : List (String × Json)}
    (held : labels set = some (.set fields)) (rest : Keyed labels visits) :
    Keyed labels (.entered id set fields members :: visits) := by
  intro other label found payload member
  rcases List.mem_cons.mp member with e | member
  · cases e
    exact held
  · exact rest other label found payload member

end Keyed

namespace Visit

variable {deep : Bool} {identify : Json → Option NodeId} {labels : Labels} {set : Nat}
  {fields : Fields} {below : Below}

theorem keyed_ofEntity (held : labels set = some (.set fields))
    (inner : ∀ site members, Keyed labels (below site members)) (id : NodeId)
    (members : List (String × Json)) :
    Keyed labels (ofEntity deep set fields below id members) := by
  refine (Keyed.entered held ?_).brought
  split
  · exact inner _ _
  · exact .nil

mutual
theorem keyed_ofValue (held : labels set = some (.set fields))
    (inner : ∀ site members, Keyed labels (below site members)) : (payload : Json) → (site : Site) →
    Keyed labels (ofValue deep identify set fields below site payload)
  | .null, _ | .bool _, _ | .number _, _ | .string _, _ => Keyed.nil.brought
  | .object members, site => by
    unfold ofValue
    split
    · exact (inner site members).brought
    · exact (keyed_ofEntity held inner _ members).brought
  | .array payloads, site => (keyed_ofItems held inner payloads site 0).brought

theorem keyed_ofItems (held : labels set = some (.set fields))
    (inner : ∀ site members, Keyed labels (below site members)) : (payloads : List Json) →
    (site : Site) → (index : Nat) →
    Keyed labels (ofItems deep identify set fields below site index payloads)
  | [], _, _ => .nil
  | payload :: rest, site, index =>
    (keyed_ofValue held inner payload (site.step (.index index))).append
      (keyed_ofItems held inner rest site (index + 1))
end

end Visit

mutual
theorem Field.keyed {deep : Bool} {identify : Json → Option NodeId} {labels : Labels} :
    (field : Field) → (site : Site) → (payload : Json) → field.Known labels →
    Keyed labels (Field.visits deep identify site payload field)
  | .leaf _ _, _, _, _ => Keyed.nil.brought
  | .composite _ _ _ _ fields, site, payload, known =>
    Visit.keyed_ofValue known.2.1
      (fun below members => Fields.keyed fields below members known.2.2.2.2) payload site

theorem Fields.keyed {deep : Bool} {identify : Json → Option NodeId} {labels : Labels} :
    (fields : Fields) → (site : Site) → (members : List (String × Json)) →
    Fields.Known labels fields → Keyed labels (Fields.visits deep identify site members fields)
  | [], _, _, _ => .nil
  | (name, field) :: rest, site, members, known => by
    unfold Fields.visits
    split
    · exact Fields.keyed rest site members known.2
    · refine Keyed.append ?_ (Fields.keyed rest site members known.2)
      split
      · next here _ => exact Field.keyed field here (payloadOf members name) known.1
      · exact Keyed.nil.brought
end

/-! ## Contents of payloads -/

/-- What a payload brings where a selection goes on. -/
def Json.content (identify : Json → Option NodeId) : Json → Content
  | .null => .null
  | .object members => (identify (.object members)).elim .object .entity
  | .array payloads => .list payloads.length
  | _ => .misfit

namespace Visit

variable {deep : Bool} {identify : Json → Option NodeId} {set : Nat} {fields : Fields}
    {below : Below}

theorem content_plain {members : List (String × Json)}
    (unnamed : identify (.object members) = none) :
    (Json.object members).content identify = .object := by
  show (identify (.object members)).elim Content.object Content.entity = _
  rw [unnamed, Option.elim_none]

theorem content_named {members : List (String × Json)} {id : NodeId}
    (named : identify (.object members) = some id) :
    (Json.object members).content identify = .entity id := by
  show (identify (.object members)).elim Content.object Content.entity = _
  rw [named, Option.elim_some]

theorem ofValue_brings (site : Site) (payload : Json) :
    .brought site (payload.content identify) ∈
      ofValue deep identify set fields below site payload := by
  cases payload with
  | object members =>
    unfold ofValue
    split
    · next unnamed =>
      rw [content_plain unnamed]
      exact List.mem_cons_self
    · next id named =>
      rw [content_named named]
      exact List.mem_cons_self
  | _ => exact List.mem_cons_self

/-- Only payloads of one kind have a content that a selection goes on from. -/
theorem content_cases (identify : Json → Option NodeId) (payload : Json) :
    (∃ members, payload = .object members ∧ identify (.object members) = none ∧
        payload.content identify = .object) ∨
      (∃ members id, payload = .object members ∧ identify (.object members) = some id ∧
        payload.content identify = .entity id) ∨
      (∃ payloads, payload = .array payloads ∧ payload.content identify = .list payloads.length) ∨
      payload.content identify = .null ∨ payload.content identify = .misfit := by
  cases payload with
  | object members =>
    cases named : identify (.object members) with
    | none => exact Or.inl ⟨members, rfl, named, content_plain named⟩
    | some id => exact Or.inr (Or.inl ⟨members, id, rfl, named, content_named named⟩)
  | array payloads => exact Or.inr (Or.inr (Or.inl ⟨payloads, rfl, rfl⟩))
  | null => exact Or.inr (Or.inr (Or.inr (Or.inl rfl)))
  | _ => exact Or.inr (Or.inr (Or.inr (Or.inr rfl)))

theorem of_content_object {payload : Json} (h : payload.content identify = .object) :
    ∃ members, payload = .object members ∧ identify (.object members) = none := by
  rcases content_cases identify payload with
    ⟨members, e, unnamed, -⟩ | ⟨_, _, _, _, e⟩ | ⟨_, _, e⟩ | e | e
  · exact ⟨members, e, unnamed⟩
  all_goals
    rw [e] at h
    cases h

theorem of_content_entity {payload : Json} {id : NodeId}
    (h : payload.content identify = .entity id) :
    ∃ members, payload = .object members ∧ identify (.object members) = some id := by
  rcases content_cases identify payload with
    ⟨_, _, _, e⟩ | ⟨members, other, object, named, e⟩ | ⟨_, _, e⟩ | e | e <;>
      rw [e] at h <;> cases h
  exact ⟨members, object, named⟩

theorem of_content_list {payload : Json} {length : Nat}
    (h : payload.content identify = .list length) :
    ∃ payloads, payload = .array payloads ∧ payloads.length = length := by
  rcases content_cases identify payload with
    ⟨_, _, _, e⟩ | ⟨_, _, _, _, e⟩ | ⟨payloads, array, e⟩ | e | e <;> rw [e] at h <;> cases h
  exact ⟨payloads, array, rfl⟩

end Visit

/-! ## What is seen instead of a skipped position -/

/-- Every site of the visits was seen. -/
def Covered (seen visits : List Visit) : Prop :=
  ∀ site content, .brought site content ∈ visits → ∃ other, .brought site other ∈ seen

namespace Covered

variable {seen visits more : List Visit}

theorem nil : Covered seen [] := fun _ _ member => absurd member List.not_mem_nil

theorem append (first : Covered seen visits) (second : Covered seen more) :
    Covered seen (visits ++ more) := fun site content member =>
  (List.mem_append.mp member).elim (first site content) (second site content)

theorem brought {site : Site} {content other : Content} (here : .brought site other ∈ seen)
    (rest : Covered seen visits) : Covered seen (.brought site content :: visits) := by
  intro place found member
  rcases List.mem_cons.mp member with e | member
  · cases e
    exact ⟨other, here⟩
  · exact rest place found member

theorem entered {id : NodeId} {set : Nat} {fields : Fields} {members : List (String × Json)}
    (rest : Covered seen visits) : Covered seen (.entered id set fields members :: visits) :=
  fun place found member =>
    rest place found ((List.mem_cons.mp member).resolve_left fun e => by cases e)

end Covered

/-- A merge that is done, of a payload whose sets are told apart by their labels.  What was seen
is the same as what the payload brings to the same site. -/
structure Finished (identify : Json → Option NodeId) (labels : Labels) (seen all : List Visit) :
    Prop where
  within : seen ⊆ all
  agrees : ∀ site other content, .brought site other ∈ seen → .brought site content ∈ all →
    other.agrees content
  keyed : Keyed labels all
  done : ∀ id set fields members, .entered id set fields members ∈ seen →
    Walked seen (Fields.visits false identify (.root id) members fields)

namespace Visit

variable {identify : Json → Option NodeId} {labels : Labels} {seen all : List Visit} {set : Nat}
  {fields : Fields}

/-- The members of an object are covered by whatever members were walked in its place. -/
def Descends (identify : Json → Option NodeId) (seen all : List Visit) (fields : Fields) : Prop :=
  ∀ (site : Site) (members others : List (String × Json)),
    Fields.visits true identify site members fields ⊆ all →
    Walked seen (Fields.visits false identify site others fields) →
    Covered seen (Fields.visits true identify site members fields)

mutual
theorem covers_value (finished : Finished identify labels seen all)
    (held : labels set = some (.set fields)) (descends : Descends identify seen all fields) :
    (payload other : Json) → (site : Site) →
    ofValue true identify set fields (Fields.below true identify fields) site payload ⊆ all →
    Walked seen (ofValue false identify set fields
      (Fields.below false identify fields) site other) →
    Covered seen (ofValue true identify set fields (Fields.below true identify fields) site payload)
  | .null, other, site, _, walked | .bool _, other, site, _, walked
  | .number _, other, site, _, walked | .string _, other, site, _, walked =>
    Covered.nil.brought (walked _ (ofValue_brings site other))
  | .object members, other, site, within, walked => by
    have here := walked _ (ofValue_brings site other)
    have agrees := finished.agrees _ _ _ here (within (ofValue_brings site _))
    cases named : identify (.object members) with
    | none =>
      rw [content_plain named] at agrees
      obtain ⟨others, rfl, unnamed⟩ := of_content_object (Content.eq_object_of_agrees agrees)
      unfold ofValue at within walked ⊢
      rw [named] at within ⊢
      rw [unnamed] at walked
      exact (descends site members others (fun _ member => within (List.mem_cons_of_mem _ member))
        fun _ member => walked _ (List.mem_cons_of_mem _ member)).brought here
    | some id =>
      rw [content_named named] at agrees
      obtain ⟨others, rfl, same⟩ := of_content_entity (Content.eq_entity_of_agrees agrees)
      unfold ofValue ofEntity at within walked ⊢
      rw [named] at within ⊢
      rw [same] at walked
      have inside : Visit.brought (.root id) .object ∈ seen :=
        walked _ (List.mem_cons_of_mem _ List.mem_cons_self)
      -- The entity was entered with this set, maybe at another position.
      obtain ⟨found, entered, member⟩ : Seen seen (.entered id set fields others) :=
        walked _ (List.mem_cons_of_mem _ (List.mem_cons_of_mem _ List.mem_cons_self))
      have label := finished.keyed id set found entered (finished.within member)
      rw [held] at label
      cases label
      refine Covered.brought here (Covered.brought inside (Covered.entered ?_))
      refine descends (.root id) members entered (fun _ member => within ?_)
        (finished.done id set fields entered member)
      exact List.mem_cons_of_mem _ (List.mem_cons_of_mem _ (List.mem_cons_of_mem _ member))
  | .array payloads, other, site, within, walked => by
    have here := walked _ (ofValue_brings site other)
    have agrees := finished.agrees _ _ _ here (within (ofValue_brings site _))
    obtain ⟨others, rfl, long⟩ := of_content_list (Content.eq_list_of_agrees agrees)
    exact (covers_items finished held descends payloads others site 0 long.symm
      (fun _ member => within (List.mem_cons_of_mem _ member))
      fun _ member => walked _ (List.mem_cons_of_mem _ member)).brought here

theorem covers_items (finished : Finished identify labels seen all)
    (held : labels set = some (.set fields)) (descends : Descends identify seen all fields) :
    (payloads others : List Json) → (site : Site) → (index : Nat) →
    payloads.length = others.length →
    ofItems true identify set fields (Fields.below true identify fields) site index payloads ⊆ all →
    Walked seen (ofItems false identify set fields
      (Fields.below false identify fields) site index others) →
    Covered seen (ofItems true identify set fields
      (Fields.below true identify fields) site index payloads)
  | [], _, _, _, _, _, _ => .nil
  | _ :: _, [], _, _, same, _, _ => absurd same (Nat.succ_ne_zero _)
  | payload :: rest, other :: others, site, index, same, within, walked =>
    (covers_value finished held descends payload other (site.step (.index index))
      (fun _ member => within (List.mem_append_left _ member))
      fun _ member => walked _ (List.mem_append_left _ member)).append
      (covers_items finished held descends rest others site (index + 1) (Nat.succ.inj same)
        (fun _ member => within (List.mem_append_right _ member))
        fun _ member => walked _ (List.mem_append_right _ member))
end

end Visit

mutual
/-- A position is covered if some payload was walked at its site with the same field. -/
theorem Field.covers {identify : Json → Option NodeId} {labels : Labels} {seen all : List Visit}
    (finished : Finished identify labels seen all) : (field : Field) → (site : Site) →
    (payload other : Json) → field.Known labels →
    Field.visits true identify site payload field ⊆ all →
    Walked seen (Field.visits false identify site other field) →
    Covered seen (Field.visits true identify site payload field)
  | .leaf _ _, _, _, _, _, _, walked => Covered.nil.brought (walked _ List.mem_cons_self)
  | .composite _ _ _ _ fields, site, payload, other, known, within, walked =>
    Visit.covers_value finished known.2.1
      (fun site members others => Fields.covers finished fields site members others known.2.2.2.2)
      payload other site within walked

theorem Fields.covers {identify : Json → Option NodeId} {labels : Labels} {seen all : List Visit}
    (finished : Finished identify labels seen all) : (fields : Fields) → (site : Site) →
    (members others : List (String × Json)) → Fields.Known labels fields →
    Fields.visits true identify site members fields ⊆ all →
    Walked seen (Fields.visits false identify site others fields) →
    Covered seen (Fields.visits true identify site members fields)
  | [], _, _, _, _, _, _ => .nil
  | (name, field) :: rest, site, members, others, known, within, walked => by
    unfold Fields.visits at within walked ⊢
    split
    · next excluded =>
      rw [if_pos excluded] at within walked
      exact Fields.covers finished rest site members others known.2 within walked
    · next included =>
      rw [if_neg included] at within walked
      refine Covered.append ?_ (Fields.covers finished rest site members others known.2
        (fun _ member => within (List.mem_append_right _ member))
        fun _ member => walked _ (List.mem_append_right _ member))
      have inside : _ ⊆ all := fun _ member => within (List.mem_append_left _ member)
      have here : Walked seen _ := fun _ member => walked _ (List.mem_append_left _ member)
      cases located : field.head.site site name with
      | ok below =>
        rw [located] at inside here
        exact Field.covers finished field below _ _ known.1 inside here
      | error _ =>
        rw [located] at here
        exact Covered.nil.brought (here _ List.mem_cons_self)
end

/-- Every position of a payload is seen by a merge that succeeds, if what was seen is the same as
what the payload brings. -/
theorem Traced.covers {identify : Json → Option NodeId} {root : NodeId} {labels : Labels}
    {fields : Fields} {members : List (String × Json)} {start walk : Walk} {seen : List Visit}
    (traced : Traced identify (Visit.ofPayload identify root fields (.object members)) start
      [.brought (.root root) .object] walk seen)
    (within : seen ⊆ Visit.ofPayload identify root fields (.object members))
    (walked : Walked seen (Fields.visits false identify (.root root) members fields))
    (agrees : ∀ site other content, .brought site other ∈ seen →
      .brought site content ∈ Visit.ofPayload identify root fields (.object members) →
      other.agrees content)
    (known : Fields.Known labels fields) {site : Site} {content : Content}
    (member : .brought site content ∈ Visit.ofPayload identify root fields (.object members)) :
    ∃ other, .brought site other ∈ seen ∧ other.agrees content := by
  have finished : Finished identify labels seen
    (Visit.ofPayload identify root fields (.object members)) :=
    ⟨within, agrees, (Fields.keyed fields _ members known).brought,
      fun id set fields members entered => (traced.done id set fields members entered).resolve_left
        fun start => by cases List.mem_singleton.mp start⟩
  have opened : .brought (.root root) .object ∈ seen :=
    traced.run.seen_subset (List.mem_singleton.mpr rfl)
  have covered : Covered seen (Visit.ofPayload identify root fields (.object members)) :=
    (Fields.covers finished fields (.root root) members members known
      (fun _ member => List.mem_cons_of_mem _ member) walked).brought opened
  obtain ⟨other, here⟩ := covered site content member
  exact ⟨other, here, agrees site other content here member⟩

end ResponseGraph
