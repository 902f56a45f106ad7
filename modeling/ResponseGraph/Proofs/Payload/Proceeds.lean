import ResponseGraph.Proofs.Payload.Idle
import ResponseGraph.Proofs.Payload.Suited

/-!
Merges that succeed.

A clean payload of which every position suits what was stored before is merged without error, in
whatever order its fields come.  Besides, every node that is made on the way for a field with
arguments is one that the payload comes to.
-/

namespace ResponseGraph

open Nodes NodeId Visit

namespace Walk

/-- A steady walk over visits that are all known.  A node is linked that was not linked before
only if there is a visit of it. -/
structure Underway (root : NodeId) (base : Nodes) (all : List Visit) (walk : Walk)
    (seen : List Visit) : Prop where
  steady : Steady root base walk seen
  within : seen ⊆ all
  made : ∀ id link, link ∈ Nodes.links walk.draft.node? .outbound id →
    link ∈ base.links .outbound id ∨ ∃ content, .brought (.root link.node) content ∈ all

/-- A merge succeeds, and the walk is underway then. -/
def Proceeds (root : NodeId) (base : Nodes) (all seen : List Visit)
    (result : Except Error Walk) : Prop :=
  ∃ walk seen', result = .ok walk ∧ Underway root base all walk seen' ∧ seen ⊆ seen'

variable {identify : Json → Option NodeId} {root : NodeId} {base : Nodes}
  {all seen between : List Visit} {walk walk' : Walk} {place : Place} {content : Content}
  {set : Nat} {fields : Fields} {descend : Descent}

theorem Underway.proceeds (h : Underway root base all walk seen) :
    Proceeds root base all seen (.ok walk) := ⟨walk, seen, rfl, h, List.Subset.refl _⟩

theorem Proceeds.after {result : Except Error Walk} (h : Proceeds root base all between result)
    (subset : seen ⊆ between) : Proceeds root base all seen result := by
  obtain ⟨walk, seen', done, underway, kept⟩ := h
  exact ⟨walk, seen', done, underway, List.Subset.trans subset kept⟩

theorem Proceeds.bind {first : Except Error Walk} {next : Walk → Except Error Walk}
    (h : Proceeds root base all seen first)
    (rest : ∀ walk between, Underway root base all walk between → seen ⊆ between →
      Proceeds root base all between (next walk)) :
    Proceeds root base all seen (first >>= next) := by
  obtain ⟨middle, between, rfl, underway, kept⟩ := h
  exact (rest middle between underway kept).after kept

/-! ## Steps -/

theorem Underway.warn (h : Underway root base all walk seen)
    (clean : Clean identify root base all) (warnings : List String) :
    Underway root base all { walk with warnings } seen :=
  ⟨(Step.warned warnings).steady (clean.mono h.within) h.steady, h.within, h.made⟩

theorem Underway.bring (h : Underway root base all walk seen)
    (clean : Clean identify root base all) (due : Due walk seen place.site)
    (brings : Brings identify walk place content walk')
    (member : .brought place.site content ∈ all) :
    Underway root base all walk' (.brought place.site content :: seen) := by
  have within := List.cons_subset.mpr ⟨member, h.within⟩
  refine ⟨(Step.brought due brings).steady (clean.mono within) h.steady, within, ?_⟩
  intro id link linked
  rw [brings.touches.links] at linked
  exact h.made id link linked

theorem Underway.enter {site : Site} {id : NodeId} {members : List (String × Json)}
    (h : Underway root base all walk seen) (clean : Clean identify root base all)
    (around : .brought site (.entity id) ∈ seen)
    (member : .brought (.root id) .object ∈ all) (entered : .entered id set fields members ∈ all) :
    Underway root base all (walk.mark id set)
      (.brought (.root id) .object :: .entered id set fields members :: seen) := by
  have within := List.cons_subset.mpr ⟨member, List.cons_subset.mpr ⟨entered, h.within⟩⟩
  have step : Step identify walk seen (walk.mark id set) _ := .entered set fields members around
  exact ⟨step.steady (clean.mono within) h.steady, within, h.made⟩

theorem Underway.grow {name : String} {arguments : Arguments} {id : NodeId}
    (h : Underway root base all walk seen) (clean : Clean identify root base all)
    (around : .brought place.site .object ∈ seen)
    (address :
      NodeId.parameterized place.container (place.step (.key name)).path arguments = .ok id)
    (fresh : ⟨id, (place.step (.key name)).path⟩ ∉
      Nodes.links walk.draft.node? .outbound place.container)
    (member : .brought (.root id) content ∈ all) :
    Underway root base all (walk.grow (place.step (.key name)) id) seen := by
  have step : Step identify walk seen (walk.grow (place.step (.key name)) id) seen :=
    .grown name around address fresh
  have missing := h.steady.moored.linked.sound.nodes.eq_none_of_not_linked address fresh
  refine ⟨step.steady (clean.mono h.within) h.steady, h.within, fun other link linked => ?_⟩
  rw [nodes_grow, mem_outbound_sprout missing rfl] at linked
  rcases linked with old | ⟨-, rfl⟩
  · exact h.made other link old
  · exact Or.inr ⟨content, member⟩

/-- Whatever is brought to a due site suits what is stored there. -/
theorem Underway.suits (h : Underway root base all walk seen)
    (clean : Clean identify root base all) (suited : Suited base all)
    (due : Due walk seen place.site) (member : .brought place.site content ∈ all) :
    content.Suits (walk.stored? place) := by
  have consistent := clean.consistent
  refine (h.steady.moored.linked.suits_iff h.steady.intact h.steady.suited
    (consistent.mono h.within) due fun other visited => ?_).mpr (suited _ _ member)
  exact consistent _ _ _ (h.within visited) member

/-- The node of a field with arguments is made where it is not linked. -/
theorem parameterized_of_fresh {arguments : Arguments} {id : NodeId}
    (address : NodeId.parameterized place.container place.path arguments = .ok id)
    (fresh : ⟨id, place.path⟩ ∉ Nodes.links walk.draft.node? .outbound place.container) :
    walk.parameterized place arguments = .ok (walk.grow place id, place.enter id) := by
  unfold Walk.parameterized
  rw [address]
  exact if_neg fun has => fresh (any_hasLink_iff.mp has)

/-! ## Values -/

theorem null_succeeds (unnamed : identify .null = none) (set : Nat) (descend : Descent) (walk : Walk)
    (place : Place) :
    ∃ walk', value identify set descend place .null walk = .ok walk' := by
  unfold value
  dsimp only
  split
  · exact ⟨_, rfl⟩
  · unfold Walk.null
    rw [unnamed]
    cases entity? (walk.stored? place) with
    | some old => exact ⟨_, rfl⟩
    | none =>
      dsimp only
      split
      · exact ⟨_, rfl⟩
      · split <;> exact ⟨_, rfl⟩

theorem object_succeeds {members : List (String × Json)}
    (unnamed : identify (.object members) = none)
    (suits : Content.object.Suits (walk.stored? place)) :
    value identify set descend place (.object members) walk = descend place members walk := by
  obtain ⟨noList, noEntity⟩ := suits
  rw [value, noList]
  unfold object
  dsimp only
  rw [unnamed, noEntity]
  rfl

/-- An entity is marked where it suits, and then its members come or not. -/
theorem entity_succeeds (set : Nat) (descend : Descent) {members : List (String × Json)}
    {id : NodeId}
    (named : identify (.object members) = some id)
    (suits : (Content.entity id).Suits (walk.stored? place)) :
    ∃ middle entering below?, Brings identify walk place (.entity id) middle ∧
      (entering, below?) = middle.visit place set id ∧
      value identify set descend place (.object members) walk =
        below?.elim (.ok entering) fun below => descend below members entering := by
  have noList : list? (walk.stored? place) = none := by
    cases stored : walk.stored? place with
    | none => rfl
    | some found =>
      rw [stored] at suits
      cases found <;> first | rfl | cases suits rfl
  have resolves : ∃ result, walk.object identify set place (walk.stored? place) members =
      .ok result := by
    unfold object
    dsimp only
    rw [named]
    cases stored : entity? (walk.stored? place) with
    | some old => exact ⟨_, rfl⟩
    | none =>
      dsimp only
      rw [suits stored]
      exact ⟨_, rfl⟩
  obtain ⟨⟨entering, below?⟩, result⟩ := resolves
  rcases brings_object noList result with ⟨unnamed, -⟩ | ⟨other, middle, named', brings, visit⟩
  · rw [named] at unnamed
    cases unnamed
  · rw [named] at named'
    cases named'
    refine ⟨middle, entering, below?, brings, visit, ?_⟩
    rw [value, noList, result]
    cases below? <;> rfl

theorem list_succeeds {payloads : List Json}
    (suits : (Content.list payloads.length).Suits (walk.stored? place)) :
    value identify set descend place (.array payloads) walk =
      items identify set descend place 0 payloads
        (walk.fit place (list? (walk.stored? place)) payloads.length) := by
  rw [value]
  refine if_neg fun misfit => ?_
  obtain ⟨noList, full⟩ := (Bool.and_eq_true _ _).mp misfit
  rw [suits (Option.isNone_iff_eq_none.mp noList)] at full
  cases full

/-- Members that are all known are merged below an object that was seen. -/
def ProceedsBelow (identify : Json → Option NodeId) (root : NodeId) (base : Nodes)
    (all : List Visit) (fields : Fields) (descend : Descent) : Prop :=
  ∀ (place : Place) (members : List (String × Json)) (walk : Walk) (seen : List Visit),
    Underway root base all walk seen → .brought place.site .object ∈ seen →
    Fields.visits true identify place.site members fields ⊆ all →
    Proceeds root base all seen (descend place members walk)

theorem entity_proceeds (clean : Clean identify root base all) (suited : Suited base all)
    (below : ProceedsBelow identify root base all fields descend) {members : List (String × Json)}
    {id : NodeId} (named : identify (.object members) = some id)
    (underway : Underway root base all walk seen) (due : Due walk seen place.site)
    (within : .brought place.site (.entity id) ::
      ofEntity true set fields (Fields.below true identify fields) id members ⊆ all) :
    Proceeds root base all seen (value identify set descend place (.object members) walk) := by
  obtain ⟨here, within⟩ := List.cons_subset.mp within
  unfold ofEntity at within
  obtain ⟨opened, within⟩ := List.cons_subset.mp within
  obtain ⟨entered, inside⟩ := List.cons_subset.mp within
  obtain ⟨middle, entering, below?, brings, visit, e⟩ :=
    entity_succeeds set descend named (underway.suits clean suited due here)
  rw [e]
  have brought := underway.bring clean due brings here
  have kept := List.subset_cons_self (Visit.brought place.site (.entity id)) seen
  rcases visit_cases visit with ⟨-, rfl, rfl⟩ | ⟨-, rfl, rfl⟩
  · exact brought.proceeds.after kept
  · have marked : Underway root base all (middle.mark id set) (.brought (.root id) .object ::
        .entered id set fields members :: .brought place.site (.entity id) :: seen) :=
      brought.enter clean List.mem_cons_self opened entered
    refine (below (place.enter id) members _ _ marked List.mem_cons_self inside).after ?_
    exact List.Subset.trans kept (List.subset_cons_of_subset _ (List.subset_cons_self _ _))

mutual
theorem value_proceeds (clean : Clean identify root base all) (suited : Suited base all)
    (below : ProceedsBelow identify root base all fields descend) : (payload : Json) →
    {place : Place} → {walk : Walk} → {seen : List Visit} → Underway root base all walk seen →
    Due walk seen place.site →
    ofValue true identify set fields (Fields.below true identify fields) place.site payload ⊆ all →
    Proceeds root base all seen (value identify set descend place payload walk)
  | .null, place, walk, seen, underway, due, within => by
    obtain ⟨walk', done⟩ :=
      null_succeeds clean.unnamed set descend walk place
    rw [done]
    exact (underway.bring clean due (brings_of_null done)
      (within List.mem_cons_self)).proceeds.after (List.subset_cons_self _ _)
  | .bool _, _, _, _, _, _, within | .number _, _, _, _, _, _, within
  | .string _, _, _, _, _, _, within => (suited _ _ (within List.mem_cons_self)).elim
  | .object members, place, walk, seen, underway, due, within => by
    unfold ofValue at within
    cases named : identify (.object members) with
    | none =>
      rw [named] at within
      obtain ⟨here, inside⟩ := List.cons_subset.mp within
      have suits := underway.suits clean suited due here
      rw [object_succeeds named suits]
      have brought := underway.bring clean due (.object suits.1 suits.2) here
      exact (below place members walk _ brought List.mem_cons_self inside).after
        (List.subset_cons_self _ _)
    | some id =>
      rw [named] at within
      exact entity_proceeds clean suited below named underway due within
  | .array payloads, place, walk, seen, underway, due, within => by
    obtain ⟨here, inside⟩ := List.cons_subset.mp within
    have suits := underway.suits clean suited due here
    rw [list_succeeds suits]
    have brought := underway.bring clean due (.list _ suits) here
    exact (items_proceeds clean suited below payloads brought (Nat.zero_add _) List.mem_cons_self
      inside).after (List.subset_cons_self _ _)

theorem items_proceeds (clean : Clean identify root base all) (suited : Suited base all)
    (below : ProceedsBelow identify root base all fields descend) : (payloads : List Json) →
    {place : Place} → {index length : Nat} → {walk : Walk} → {seen : List Visit} →
    Underway root base all walk seen → index + payloads.length = length →
    .brought place.site (.list length) ∈ seen →
    ofItems true identify set fields (Fields.below true identify fields) place.site index
      payloads ⊆ all →
    Proceeds root base all seen (items identify set descend place index payloads walk)
  | [], _, _, _, _, _, underway, _, _, _ => underway.proceeds
  | payload :: rest, place, index, length, walk, seen, underway, total, around, within => by
    rw [items]
    rw [List.length_cons] at total
    unfold ofItems at within
    obtain ⟨first, later⟩ := List.append_subset.mp within
    have due : Due walk seen (place.step (.index index)).site := .item around (by omega)
    refine (value_proceeds clean suited below payload underway due first).bind ?_
    intro middle between underway kept
    exact items_proceeds clean suited below rest underway (by omega) (kept around) later
end

/-- The node of a field is there, or it is made. -/
theorem field_proceeds (clean : Clean identify root base all)
    (underway : Underway root base all walk seen) (around : .brought place.site .object ∈ seen)
    {name : String} {head : FieldHead} {site : Site}
    (located : head.site place.site name = .ok site) (member : .brought site content ∈ all) :
    ∃ grown here, walk.field place name head = .ok (grown, here) ∧ here.site = site ∧
      Underway root base all grown seen ∧ Due grown seen here.site := by
  unfold field
  unfold FieldHead.site at located
  dsimp only at located ⊢
  cases given : head.arguments with
  | none =>
    rw [given] at located
    cases located
    exact ⟨walk, _, rfl, rfl, underway, .member _ around⟩
  | some arguments =>
    rw [given] at located
    obtain ⟨id, address, rfl⟩ := exists_of_map_eq_ok located
    have address : NodeId.parameterized place.container
      (place.step (.key (head.schemaName.getD name))).path arguments = .ok id := address
    by_cases linked : ⟨id, (place.step (.key (head.schemaName.getD name))).path⟩ ∈
        Nodes.links walk.draft.node? .outbound place.container
    · exact ⟨walk, _, parameterized_of_linked address linked, rfl, underway,
        .value _ around address linked⟩
    · exact ⟨_, _, parameterized_of_fresh address linked, rfl,
        underway.grow clean around address linked member,
        .value _ around address (mem_links_grow walk _ id)⟩

end Walk

mutual
theorem Field.merge_proceeds {identify : Json → Option NodeId} {root : NodeId} {base : Nodes}
    {all : List Visit} (clean : Clean identify root base all) (suited : Suited base all) :
    (field : Field) → {place : Place} → {payload : Json} → {walk : Walk} → {seen : List Visit} →
    Walk.Underway root base all walk seen → Walk.Due walk seen place.site →
    field.visits true identify place.site payload ⊆ all →
    Walk.Proceeds root base all seen (field.merge identify place payload walk)
  | .leaf _ _, _, payload, _, _, underway, due, within =>
    (underway.bring clean due (.leaf payload) (within List.mem_cons_self)).proceeds.after
      (List.subset_cons_self _ _)
  | .composite _ _ _ _ fields, _, payload, _, _, underway, due, within => by
    have below : Walk.ProceedsBelow identify root base all fields fun below members walk =>
        Fields.merge identify below members fields walk :=
      fun _ _ _ _ underway opened within =>
        Fields.merge_proceeds clean suited fields underway opened within
    exact Walk.value_proceeds clean suited below payload underway due within

/-- A clean payload that suits what was stored is merged. -/
theorem Fields.merge_proceeds {identify : Json → Option NodeId} {root : NodeId} {base : Nodes}
    {all : List Visit} (clean : Clean identify root base all) (suited : Suited base all) :
    (fields : Fields) → {place : Place} → {members : List (String × Json)} → {walk : Walk} →
    {seen : List Visit} → Walk.Underway root base all walk seen →
    .brought place.site .object ∈ seen →
    Fields.visits true identify place.site members fields ⊆ all →
    Walk.Proceeds root base all seen (Fields.merge identify place members fields walk)
  | [], _, _, _, _, underway, _, _ => underway.proceeds
  | (name, field) :: rest, place, members, walk, seen, underway, opened, within => by
    rw [Fields.merge]
    unfold Fields.visits at within
    split
    · next excluded =>
      rw [if_pos excluded] at within
      exact Fields.merge_proceeds clean suited rest underway opened within
    · next included =>
      rw [if_neg included] at within
      obtain ⟨inside, later⟩ := List.append_subset.mp within
      obtain ⟨warnings, selected⟩ := walk.member_eq place name members
      rw [selected]
      dsimp only
      cases located : field.head.site place.site name with
      | error e =>
        rw [located] at inside
        exact (suited _ _ (inside List.mem_cons_self)).elim
      | ok site =>
        rw [located] at inside
        obtain ⟨content, member⟩ := field.visits_brings identify site (payloadOf members name)
        obtain ⟨grown, here, found, rfl, underway, due⟩ := Walk.field_proceeds clean
          (underway.warn clean warnings) opened located (inside member)
        rw [found]
        refine (Field.merge_proceeds clean suited field underway due inside).bind ?_
        intro middle between underway kept
        exact Fields.merge_proceeds clean suited rest underway (kept opened) later
end

end ResponseGraph
