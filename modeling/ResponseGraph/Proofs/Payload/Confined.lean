import ResponseGraph.Proofs.Payload.Beside
import ResponseGraph.Proofs.Payload.Covered
import ResponseGraph.Proofs.Payload.Moored

/-!
Where tours come to.

A tour stays inside the site where it starts, but for the nodes of entities that it brings and of
values of fields with arguments (`Tour.Confined`).  So a tour of the fields of a root comes to one
member of the root only for the fields that are stored there.  If these fields refer to entities
or to nothing, the tour makes one choice for each of them, in their order (`Fields.chosen_tour`).
-/

namespace ResponseGraph

open Nodes NodeId Visit

/-! ## Where a tour comes to -/

/-- The site is another one or below it, or it is in another node: that of an entity which is
brought as well, or of the value of a field with arguments. -/
def Site.Inside (visits : List Visit) (other site : Site) : Prop :=
  (site.container = other.container ∧ other.path <+: site.path) ∨ ¬ Whole site.container ∨
    ∃ around, .brought around (.entity site.container) ∈ visits

namespace Site.Inside

variable {site middle other : Site} {visits more : List Visit}

theorem mono (h : Inside visits other site) (subset : visits ⊆ more) : Inside more other site :=
  h.imp_right fun elsewhere => elsewhere.imp_right fun entity =>
    entity.imp fun _ member => subset member

theorem trans (h : Inside visits middle site) (outer : Inside visits other middle) :
    Inside visits other site := by
  rcases h with ⟨same, below⟩ | elsewhere
  · unfold Inside at outer ⊢
    rw [same]
    exact outer.imp_left (And.imp_right fun inside => inside.trans below)
  · exact Or.inr elsewhere

theorem refl (visits : List Visit) (site : Site) : Inside visits site site :=
  Or.inl ⟨rfl, List.prefix_refl _⟩

theorem step (visits : List Visit) (site : Site) (step : Step) :
    Inside visits site (site.step step) := Or.inl ⟨rfl, List.prefix_append _ _⟩

end Site.Inside

namespace Tour

variable {site other : Site} {tour first second : Tour} {identify : Json → Option NodeId}
  {set : Nat} {below : Below} {content : Content}

/-- All visits are inside the site. -/
def Confined (site : Site) (tour : Tour) : Prop := ∀ marks other content,
  .brought other content ∈ (tour marks).1 → Site.Inside (tour marks).1 site other

theorem Confined.of (h : Confined other tour) (outer : ∀ visits, Site.Inside visits site other) :
    Confined site tour :=
  fun marks place content member => (h marks place content member).trans (outer _)

theorem confined_idle : Confined site idle := fun _ _ _ member => absurd member List.not_mem_nil

theorem Confined.visit (h : Confined site tour) :
    Confined site (.visit (.brought site content) tour) := by
  intro marks place found member
  rcases List.mem_cons.mp member with e | later
  · cases e
    exact .refl _ site
  · exact (h marks place found later).mono (List.subset_cons_self _ _)

theorem Confined.andThen (h : Confined site first) (h' : Confined site second) :
    Confined site (first.andThen second) := by
  intro marks place found member
  rcases List.mem_append.mp member with here | later
  · exact (h marks place found here).mono (List.subset_append_left _ _)
  · exact (h' _ place found later).mono (List.subset_append_right _ _)

theorem Confined.once (h : Confined site tour) (id : NodeId) (set : Nat) :
    Confined site (.once id set tour) := by
  intro marks
  unfold Tour.once
  split
  · exact fun _ _ member => absurd member List.not_mem_nil
  · exact h _

/-- The members of an entity are inside wherever it is brought. -/
theorem Confined.entity {id : NodeId} (h : Confined (.root id) tour) :
    Confined site (.visit (.brought site (.entity id)) tour) := by
  intro marks place found member
  rcases List.mem_cons.mp member with e | later
  · cases e
    exact .refl _ site
  · refine ((h marks place found later).mono (List.subset_cons_self _ _)).trans ?_
    exact Or.inr (Or.inr ⟨site, List.mem_cons_self⟩)

mutual
theorem confined_ofValue (h : ∀ site members, Confined site (below site members)) {site : Site} :
    (payload : Json) → Confined site (ofValue identify set below site payload)
  | .null | .bool _ | .number _ | .string _ => confined_idle.visit
  | .object members => by
    unfold ofValue
    cases identify (.object members) with
    | none => exact (h site members).visit
    | some id => exact ((h (.root id) members).once id set).entity
  | .array payloads => (confined_ofItems h payloads).visit

theorem confined_ofItems (h : ∀ site members, Confined site (below site members)) {site : Site}
    {index : Nat} : (payloads : List Json) →
    Confined site (ofItems identify set below site index payloads)
  | [] => confined_idle
  | payload :: rest =>
    ((confined_ofValue h payload).of fun visits => .step visits site (.index index)).andThen
      (confined_ofItems h rest)
end

end Tour

/-- A field is inside its object, or it has a node of its own. -/
theorem FieldHead.inside_site {head : FieldHead} {site here : Site} {name : String}
    (located : head.site site name = .ok here) (visits : List Visit) :
    Site.Inside visits site here := by
  unfold FieldHead.site at located
  dsimp only at located
  split at located
  · cases located
    exact .step visits site _
  · obtain ⟨id, address, rfl⟩ := exists_of_map_eq_ok located
    exact Or.inr (Or.inl (NodeId.not_whole_of_parameterized address))

mutual
theorem Field.confined_tour {identify : Json → Option NodeId} {site : Site} {payload : Json} :
    (field : Field) → Tour.Confined site (Field.tour identify site payload field)
  | .leaf _ _ => Tour.confined_idle.visit
  | .composite _ _ _ _ fields =>
    Tour.confined_ofValue (fun _ _ => Fields.confined_tour fields) payload

theorem Fields.confined_tour {identify : Json → Option NodeId} {site : Site}
    {members : List (String × Json)} :
    (fields : Fields) → Tour.Confined site (Fields.tour identify site members fields)
  | [] => Tour.confined_idle
  | (name, field) :: rest => by
    unfold Fields.tour
    split
    · exact Fields.confined_tour rest
    · refine .andThen ?_ (Fields.confined_tour rest)
      split
      · next here located =>
        exact (Field.confined_tour field).of (FieldHead.inside_site located)
      · exact Tour.confined_idle.visit
end

/-! ## Choices -/

/-- The site is in another node or inside another member of the node. -/
def Site.Apart (site : Site) (id : NodeId) (name : String) : Prop :=
  site.container = id → ∃ other rest, site.path = .key other :: rest ∧ other ≠ name

/-- The visit decides what the member of a node refers to, or does not come to it. -/
def Visit.Minds (id : NodeId) (name : String) : Visit → Prop
  | .brought site content => site.Apart id name ∨ content = .misfit ∨
      (site = .root id ∧ content = .object) ∨
      site = ⟨id, [.key name]⟩ ∧ content.next?.isSome
  | .entered _ _ _ _ => True

/-- The field is included and stored under the name. -/
def Field.targets (name key : String) (field : Field) : Bool :=
  !field.head.excluded && field.head.arguments.isNone &&
    decide (field.head.schemaName.getD key = name)

/-- The field has a selection, and its payload is null or an entity. -/
def Field.decides (identify : Json → Option NodeId) (payload : Json) : Field → Bool
  | .leaf _ _ => false
  | .composite _ _ _ _ _ => (payload.content identify).next?.isSome

/-- What the fields of an object that are stored under one name refer to, in their order. -/
def Fields.choices (identify : Json → Option NodeId) (name : String)
    (members : List (String × Json)) (fields : Fields) : List (Option NodeId) :=
  (fields.filter fun entry => entry.2.targets name entry.1).filterMap fun entry =>
    ((payloadOf members entry.1).content identify).next?

section Choices

variable {identify : Json → Option NodeId} {root : NodeId} {name : String} {site here : Site}
  {visits : List Visit}

theorem Site.Inside.apart (h : Site.Inside visits site here) (start : site.Apart root name)
    (whole : Whole root) (foreign : Distinct root visits) : here.Apart root name := by
  intro same
  rcases h with ⟨container, rest, e⟩ | apart | ⟨around, member⟩
  · obtain ⟨other, below, path, ne⟩ := start (container.symm.trans same)
    refine ⟨other, below ++ rest, ?_, ne⟩
    rw [← e, path, List.cons_append]
  · exact absurd (same ▸ whole) apart
  · exact absurd same (foreign _ member _ rfl)

theorem Site.Apart.ne (h : here.Apart root name) : here ≠ ⟨root, [.key name]⟩ := by
  rintro rfl
  obtain ⟨other, rest, e, ne⟩ := h rfl
  cases e
  exact ne rfl

theorem Visit.chosen_eq_nil (apart : ∀ here content, .brought here content ∈ visits →
    here.Apart root name) : chosen ⟨root, [.key name]⟩ visits = [] := by
  refine List.filterMap_eq_nil_iff.mpr fun visit member => ?_
  cases visit with
  | entered => rfl
  | brought here content => exact if_neg (apart here content member).ne

/-- A tour that starts beside the member of the root does not come to it. -/
theorem Tour.Confined.apart {tour : Tour} (h : Tour.Confined site tour)
    (start : site.Apart root name) (whole : Whole root) {marks : List (NodeId × Nat)}
    (foreign : Distinct root (tour marks).1) {content : Content}
    (member : .brought here content ∈ (tour marks).1) : here.Apart root name :=
  (h marks here content member).apart start whole foreign

theorem Visit.minds_of_apart (apart : ∀ here content, .brought here content ∈ visits →
    here.Apart root name) : ∀ visit ∈ visits, visit.Minds root name := by
  intro visit member
  cases visit with
  | entered => trivial
  | brought here content => exact Or.inl (apart here content member)

/-- A choice is made at the member, and then the walk goes elsewhere. -/
theorem Visit.chosen_cons_of_apart {content : Content} (decides : content.next?.isSome)
    (apart : ∀ here content, .brought here content ∈ visits → here.Apart root name) :
    (∀ visit ∈ .brought ⟨root, [.key name]⟩ content :: visits, visit.Minds root name) ∧
      chosen ⟨root, [.key name]⟩ (.brought ⟨root, [.key name]⟩ content :: visits) =
        content.next?.toList := by
  refine ⟨fun visit member => ?_, ?_⟩
  · rcases List.mem_cons.mp member with rfl | later
    · exact Or.inr (Or.inr (Or.inr ⟨rfl, decides⟩))
    · exact minds_of_apart apart visit later
  · rw [chosen_cons, chosen_eq_nil apart, List.append_nil, chosen_singleton, chooses, if_pos rfl]

/-- A field that decides what its place refers to makes one choice there. -/
theorem Field.chosen_tour {payload : Json} {field : Field}
    (decides : field.decides identify payload) (whole : Whole root) {marks : List (NodeId × Nat)}
    (foreign : Distinct root (Field.tour identify ⟨root, [.key name]⟩ payload field marks).1) :
    (∀ visit ∈ (Field.tour identify ⟨root, [.key name]⟩ payload field marks).1,
      visit.Minds root name) ∧
    chosen ⟨root, [.key name]⟩ (Field.tour identify ⟨root, [.key name]⟩ payload field marks).1 =
      ((payload.content identify).next?).toList := by
  cases field with
  | leaf => cases decides
  | composite label head traits set fields =>
    change (payload.content identify).next?.isSome at decides
    unfold Field.tour at foreign ⊢
    cases payload with
    | null => exact chosen_cons_of_apart decides fun _ _ member => absurd member List.not_mem_nil
    | object members =>
      unfold Tour.ofValue at foreign ⊢
      cases named : identify (.object members) with
      | none =>
        rw [content_plain named] at decides
        cases decides
      | some id =>
        rw [named] at foreign
        rw [content_named named] at decides ⊢
        have other : id ≠ root := foreign _ List.mem_cons_self id rfl
        refine chosen_cons_of_apart decides fun here found member => ?_
        have confined : Tour.Confined (.root id)
            (.once id set (Fields.tour identify (.root id) members fields)) :=
          (Fields.confined_tour fields).once id set
        exact confined.apart (fun same => absurd same other) whole
          (foreign.mono (List.subset_cons_self _ _)) member
    | bool | number | string | array => cases decides

/-- A field that is stored elsewhere makes no choice at the member. -/
theorem FieldHead.apart_of_not_targets {field : Field} {key : String}
    (included : ¬ field.head.excluded) (other : ¬ field.targets name key)
    (located : field.head.site (.root root) key = .ok here) (whole : Whole root) :
    here.Apart root name := by
  unfold FieldHead.site at located
  dsimp only at located
  split at located
  · next missing =>
    cases located
    refine fun _ => ⟨field.head.schemaName.getD key, [], rfl, fun same => other ?_⟩
    simp [Field.targets, included, missing, same]
  · obtain ⟨id, address, rfl⟩ := exists_of_map_eq_ok located
    rintro rfl
    exact absurd whole (NodeId.not_whole_of_parameterized address)

theorem Field.site_of_targets (root : NodeId) {field : Field} {key : String}
    (targets : field.targets name key) :
    ¬ field.head.excluded ∧
      field.head.site (.root root) key = .ok ⟨root, [.key name]⟩ := by
  simp only [Field.targets, Bool.and_eq_true, Bool.not_eq_true', Option.isNone_iff_eq_none,
    decide_eq_true_eq] at targets
  obtain ⟨⟨included, missing⟩, same⟩ := targets
  refine ⟨Bool.eq_false_iff.mp included, ?_⟩
  unfold FieldHead.site
  rw [missing, same]
  rfl

theorem Fields.choices_cons (key : String) (field : Field) (members : List (String × Json))
    (rest : Fields) : Fields.choices identify name members ((key, field) :: rest) =
      (if field.targets name key then
        (((payloadOf members key).content identify).next?).toList else []) ++
      Fields.choices identify name members rest := by
  unfold Fields.choices
  by_cases targets : field.targets name key
  · rw [List.filter_cons_of_pos (by exact targets), if_pos targets, List.filterMap_cons]
    cases ((payloadOf members key).content identify).next? <;> rfl
  · rw [List.filter_cons_of_neg (by exact targets), if_neg targets, List.nil_append]

theorem Fields.chosen_tour {members : List (String × Json)} (whole : Whole root) :
    (fields : Fields) → (marks : List (NodeId × Nat)) →
    Distinct root (Fields.tour identify (.root root) members fields marks).1 →
    (∀ entry ∈ fields, entry.2.targets name entry.1 →
      entry.2.decides identify (payloadOf members entry.1)) →
    (∀ visit ∈ (Fields.tour identify (.root root) members fields marks).1,
      visit.Minds root name) ∧
    chosen ⟨root, [.key name]⟩ (Fields.tour identify (.root root) members fields marks).1 =
      Fields.choices identify name members fields
  | [], _, _, _ => ⟨fun _ member => absurd member List.not_mem_nil, rfl⟩
  | (key, field) :: rest, marks, foreign, decides => by
    have later := fun entry member => decides entry (List.mem_cons_of_mem _ member)
    rw [Fields.choices_cons]
    unfold Fields.tour at foreign ⊢
    by_cases targets : field.targets name key
    · obtain ⟨included, located⟩ := field.site_of_targets root targets
      rw [if_neg included, located] at foreign ⊢
      obtain ⟨minds, choice⟩ := Field.chosen_tour (decides _ List.mem_cons_self targets) whole
        (foreign.mono (List.subset_append_left _ _))
      obtain ⟨minds', choices⟩ := Fields.chosen_tour whole rest _
        (foreign.mono (List.subset_append_right _ _)) later
      refine ⟨fun visit member =>
        (List.mem_append.mp member).elim (minds visit) (minds' visit), ?_⟩
      rw [if_pos targets, ← choice, ← choices]
      exact chosen_append _ _ _
    · rw [if_neg targets, List.nil_append]
      split at foreign
      · next excluded =>
        rw [if_pos excluded]
        exact Fields.chosen_tour whole rest _ foreign later
      · next included =>
        rw [if_neg included]
        obtain ⟨minds, choices⟩ := Fields.chosen_tour whole rest _
          (foreign.mono (List.subset_append_right _ _)) later
        cases located : field.head.site (.root root) key with
        | error =>
          rw [located] at minds choices
          refine ⟨fun visit member => ?_,
            (chosen_cons_none (chooses_eq_none rfl _ _) _).trans choices⟩
          rcases List.mem_cons.mp member with rfl | member
          · exact Or.inr (Or.inl rfl)
          · exact minds visit member
        | ok here =>
          rw [located] at foreign minds choices
          have confined : Tour.Confined here
              (Field.tour identify here (payloadOf members key) field) :=
            Field.confined_tour field
          have start : here.Apart root name :=
            FieldHead.apart_of_not_targets included targets located whole
          have apart (place : Site) (content : Content) (member : .brought place content ∈
              (Field.tour identify here (payloadOf members key) field marks).1) :
              place.Apart root name :=
            confined.apart start whole (foreign.mono (List.subset_append_left _ _)) member
          refine ⟨fun visit member =>
            (List.mem_append.mp member).elim (minds_of_apart apart visit) (minds visit), ?_⟩
          rw [← choices]
          exact (chosen_append _ _ _).trans (by rw [chosen_eq_nil apart]; rfl)

variable {walk walk' : Walk} {seen : List Visit}

theorem Visit.Distinct.of_toured (distinct : Distinct root visits)
    (toured : Toured identify visits walk [.brought (.root root) .object] walk' seen) :
    Distinct root seen := fun visit member id entity =>
  distinct visit (mem_of_toured toured member entity) id entity

/-- The nodes that a merge opens are no members, so it comes to the member in its tour only. -/
theorem Visit.minds_of_toured (minds : ∀ visit ∈ visits, visit.Minds root name)
    (toured : Toured identify visits walk [.brought (.root root) .object] walk' seen) :
    ∀ visit ∈ seen, visit.Minds root name := by
  intro visit member
  cases visit with
  | entered => trivial
  | brought here content =>
    rcases toured.mem_or_opens member with made | ⟨path, rfl⟩
    · exact minds _ made
    · by_cases same : here.container = root
      · exact Or.inr (Or.inr (Or.inl ⟨congrArg₂ Site.mk same path, rfl⟩))
      · exact Or.inl fun e => absurd e same

end Choices

end ResponseGraph
