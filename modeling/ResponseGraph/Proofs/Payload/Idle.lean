import ResponseGraph.Proofs.Payload.ReadBack

/-!
Payloads that are stored already.

If the graph holds what a payload brings to each of its sites, merging the payload finds
nothing to write, no reference to change and no node to make.  The walk may mark entities and
give warnings, but the draft is the one that it started with.
-/

namespace ResponseGraph

open Nodes NodeId Visit

namespace Walk

/-- The walk goes on with the same draft and the same changes of references. -/
structure Idles (walk walk' : Walk) : Prop where
  draft : walk'.draft = walk.draft
  changes : walk'.changes = walk.changes

theorem Idles.refl (walk : Walk) : Idles walk walk := ⟨rfl, rfl⟩

theorem Idles.trans {walk middle walk' : Walk} (first : Idles walk middle)
    (second : Idles middle walk') : Idles walk walk' :=
  ⟨second.draft.trans first.draft, second.changes.trans first.changes⟩

/-- A merge succeeds, and the walk was idle. -/
def Rests (walk : Walk) (result : Except Error Walk) : Prop :=
  ∃ walk', result = .ok walk' ∧ Idles walk walk'

theorem Idles.rests {walk walk' : Walk} (h : Idles walk walk') : Rests walk (.ok walk') :=
  ⟨walk', rfl, h⟩

theorem Rests.after {walk middle : Walk} {result : Except Error Walk} (h : Rests middle result)
    (idle : Idles walk middle) : Rests walk result := by
  obtain ⟨walk', done, idle'⟩ := h
  exact ⟨walk', done, idle.trans idle'⟩

theorem Rests.bind {walk : Walk} {first : Except Error Walk} {next : Walk → Except Error Walk}
    (h : Rests walk first) (rest : ∀ walk', Idles walk walk' → Rests walk' (next walk')) :
    Rests walk (first >>= next) := by
  obtain ⟨middle, rfl, idle⟩ := h
  exact (rest middle idle).after idle

end Walk

/-- A node whose own content is brought to it exists, unless it is the root. -/
theorem Stored.has {root id : NodeId} {nodes : Nodes} {visits : List Visit} {content : Content}
    (h : Stored root nodes visits) (member : .brought (.root id) content ∈ visits)
    (other : id ≠ root) : nodes.Has id := by
  obtain ⟨fits, refers⟩ := h.holds _ _ member
  cases content with
  | leaf =>
    obtain ⟨value, stored, -⟩ := fits
    exact has_of_read stored
  | null =>
    obtain ⟨value, stored, -⟩ := fits
    exact has_of_read stored
  | list =>
    obtain ⟨items, stored, -⟩ := fits
    exact has_of_read stored
  | object => exact h.present id member other
  | entity => exact has_of_read (refers _ rfl)
  | misfit => exact fits.elim

namespace Walk

variable {root : NodeId} {nodes : Nodes} {identify : Json → Option NodeId} {set : Nat}
  {fields : Fields} {descend : Descent} {visits : List Visit}

theorem stored?_of_holds {walk : Walk} {place : Place} {content : Content}
    (same : walk.draft.node? = nodes) (stored : Stored root nodes visits)
    (member : .brought place.site content ∈ visits) : content.Holds (walk.stored? place) := by
  have held := stored.holds _ _ member
  rw [← same] at held
  exact held

theorem rests_leaf {walk : Walk} {place : Place} {payload : Json}
    (holds : (Content.leaf payload).Holds (walk.stored? place)) :
    Idles walk (walk.leaf place payload) := by
  obtain ⟨value, held, equal⟩ := holds.1
  unfold leaf
  rw [held, Option.any_some, if_pos equal]
  exact .refl walk

theorem rests_null {walk : Walk} {place : Place} (unnamed : identify .null = none)
    (holds : Content.null.Holds (walk.stored? place)) :
    value identify set descend place .null walk = .ok walk := by
  rw [value, holds.2 none rfl]
  unfold Walk.null
  rw [unnamed]
  rfl

theorem rests_object {walk : Walk} {place : Place} {members : List (String × Json)}
    (unnamed : identify (.object members) = none)
    (holds : Content.object.Holds (walk.stored? place)) :
    value identify set descend place (.object members) walk = descend place members walk := by
  obtain ⟨noList, noEntity⟩ := of_fits_object holds.1
  rw [value_object_of_unnamed unnamed noList, noEntity]
  rfl

theorem rests_entity {walk : Walk} {place : Place} {members : List (String × Json)} {id : NodeId}
    (named : identify (.object members) = some id)
    (holds : (Content.entity id).Holds (walk.stored? place))
    (below : ∀ entering, Idles walk entering →
      Rests entering (descend (place.enter id) members entering)) :
    Rests walk (value identify set descend place (.object members) walk) := by
  have stored : walk.stored? place = some (.reference id) := holds.2 (some id) rfl
  have noList : list? (walk.stored? place) = none := by
    rw [stored]
    rfl
  have referred : walk.refer place (walk.stored? place) members id = .ok walk := by
    unfold refer
    rw [entity?_eq_some.mpr stored]
    exact congrArg Except.ok (if_pos rfl)
  rw [value_object_of_named named noList, referred]
  show Rests walk ((walk.visit place set id).2.elim _ _)
  unfold visit
  by_cases marked : walk.visited.contains (id, set)
  · rw [if_pos marked]
    exact (Idles.refl walk).rests
  · rw [if_neg marked]
    exact (below { walk with visited := (id, set) :: walk.visited } ⟨rfl, rfl⟩).after ⟨rfl, rfl⟩

theorem rests_list {walk : Walk} {place : Place} {payloads : List Json}
    (holds : (Content.list payloads.length).Holds (walk.stored? place)) :
    value identify set descend place (.array payloads) walk =
      items identify set descend place 0 payloads walk := by
  obtain ⟨stored, held, long⟩ := holds.1
  rw [value, list?_eq_some.mpr held, fit_eq_self long]
  rfl

/-- Members that are stored below an object are merged idly. -/
def RestsBelow (root : NodeId) (nodes : Nodes) (identify : Json → Option NodeId) (fields : Fields)
    (descend : Descent) : Prop :=
  ∀ (place : Place) (members : List (String × Json)) (walk : Walk), walk.draft.node? = nodes →
    Stored root nodes (Fields.visits true identify place.site members fields) →
    Rests walk (descend place members walk)

mutual
theorem value_rests (unnamed : identify .null = none)
    (below : RestsBelow root nodes identify fields descend) : (payload : Json) →
    {place : Place} → {walk : Walk} → walk.draft.node? = nodes →
    Stored root nodes (ofValue true identify set fields (Fields.below true identify fields)
      place.site payload) →
    Rests walk (value identify set descend place payload walk)
  | .null, place, walk, same, stored => by
    rw [rests_null unnamed (stored?_of_holds same stored (ofValue_brings _ .null))]
    exact (Idles.refl walk).rests
  | .bool _, _, _, _, stored | .number _, _, _, _, stored | .string _, _, _, _, stored =>
    ((stored.holds _ .misfit List.mem_cons_self).1).elim
  | .object members, place, walk, same, stored => by
    unfold ofValue at stored
    cases named : identify (.object members) with
    | none =>
      rw [named] at stored
      rw [rests_object named (stored?_of_holds same stored List.mem_cons_self)]
      exact below place members walk same
        (stored.mono fun _ member => List.mem_cons_of_mem _ member)
    | some id =>
      rw [named] at stored
      refine rests_entity named (stored?_of_holds same stored List.mem_cons_self) ?_
      intro entering idle
      refine below (place.enter id) members entering (by rw [idle.draft, same]) (stored.mono ?_)
      intro _ member
      exact List.mem_cons_of_mem _ (List.mem_cons_of_mem _ (List.mem_cons_of_mem _ member))
  | .array payloads, place, walk, same, stored => by
    rw [rests_list (stored?_of_holds same stored (ofValue_brings _ (.array payloads)))]
    exact items_rests unnamed below payloads same
      (stored.mono fun _ member => List.mem_cons_of_mem _ member)

theorem items_rests (unnamed : identify .null = none)
    (below : RestsBelow root nodes identify fields descend) : (payloads : List Json) →
    {place : Place} → {index : Nat} → {walk : Walk} → walk.draft.node? = nodes →
    Stored root nodes (ofItems true identify set fields (Fields.below true identify fields)
      place.site index payloads) →
    Rests walk (items identify set descend place index payloads walk)
  | [], _, _, walk, _, _ => (Idles.refl walk).rests
  | payload :: rest, place, index, walk, same, stored => by
    rw [items]
    unfold ofItems at stored
    refine Rests.bind (value_rests unnamed below payload same
      (stored.mono fun _ member => List.mem_append_left _ member)) fun walk' idle => ?_
    exact items_rests unnamed below rest (by rw [idle.draft, same])
      (stored.mono fun _ member => List.mem_append_right _ member)
end

/-- The node of a field whose content is stored is linked. -/
theorem field_rests {walk : Walk} {place : Place} {name : String} {head : FieldHead} {site : Site}
    {content : Content} (same : walk.draft.node? = nodes)
    (sound : Nodes.Sound (fun _ => False) nodes) (whole : Whole root)
    (located : head.site place.site name = .ok site) (stored : Stored root nodes visits)
    (member : .brought site content ∈ visits) :
    ∃ here, walk.field place name head = .ok (walk, here) ∧ here.site = site := by
  refine field_of_linked located fun id path arguments e address => Classical.not_not.mp ?_
  subst e
  rw [same]
  intro fresh
  have other : id ≠ root := fun e => not_whole_of_parameterized address (e ▸ whole)
  have has := stored.has member other
  rw [Nodes.Has, sound.eq_none_of_not_linked address fresh] at has
  cases has

end Walk

/-- A field brings something to its site. -/
theorem Field.visits_brings (identify : Json → Option NodeId) (site : Site) (payload : Json)
    (field : Field) :
    ∃ content, .brought site content ∈ field.visits true identify site payload := by
  cases field with
  | leaf => exact ⟨_, List.mem_cons_self⟩
  | composite => exact ⟨_, ofValue_brings site payload⟩

mutual
theorem Field.merge_rests {root : NodeId} {nodes : Nodes} {identify : Json → Option NodeId}
    (unnamed : identify .null = none) (sound : Nodes.Sound (fun _ => False) nodes)
    (whole : Whole root) : (field : Field) → {place : Place} → {payload : Json} → {walk : Walk} →
    walk.draft.node? = nodes → Stored root nodes (field.visits true identify place.site payload) →
    walk.Rests (field.merge identify place payload walk)
  | .leaf _ _, place, payload, walk, same, stored =>
    (Walk.rests_leaf (Walk.stored?_of_holds same stored List.mem_cons_self)).rests
  | .composite _ _ _ set fields, place, payload, walk, same, stored => by
    have below : Walk.RestsBelow root nodes identify fields fun below members walk =>
        Fields.merge identify below members fields walk :=
      fun _ _ _ same stored => Fields.merge_rests unnamed sound whole fields same stored
    exact Walk.value_rests unnamed below payload same stored

/-- Members that are stored are merged idly. -/
theorem Fields.merge_rests {root : NodeId} {nodes : Nodes} {identify : Json → Option NodeId}
    (unnamed : identify .null = none) (sound : Nodes.Sound (fun _ => False) nodes)
    (whole : Whole root) : (fields : Fields) → {place : Place} →
    {members : List (String × Json)} → {walk : Walk} → walk.draft.node? = nodes →
    Stored root nodes (Fields.visits true identify place.site members fields) →
    walk.Rests (Fields.merge identify place members fields walk)
  | [], _, _, walk, _, _ => (Walk.Idles.refl walk).rests
  | (name, field) :: rest, place, members, walk, same, stored => by
    rw [Fields.merge]
    unfold Fields.visits at stored
    split
    · next excluded =>
      rw [if_pos excluded] at stored
      exact Fields.merge_rests unnamed sound whole rest same stored
    · next included =>
      rw [if_neg included] at stored
      obtain ⟨warnings, selected⟩ := walk.member_eq place name members
      rw [selected]
      dsimp only
      have later := stored.mono fun _ member => List.mem_append_right _ member
      have inside := stored.mono fun _ member => List.mem_append_left _ member
      cases located : field.head.site place.site name with
      | error e =>
        -- The field would have been listed as a misfit, which is never stored.
        rw [located] at inside
        exact ((inside.holds _ .misfit List.mem_cons_self).1).elim
      | ok site =>
        rw [located] at inside
        obtain ⟨content, member⟩ := field.visits_brings identify site (payloadOf members name)
        let warned : Walk := { walk with warnings }
        have same : warned.draft.node? = nodes := same
        obtain ⟨here, found, rfl⟩ := Walk.field_rests same sound whole located inside member
        rw [found]
        have merged := Field.merge_rests unnamed sound whole field same inside
        refine (merged.bind fun walk' idle => ?_).after ⟨rfl, rfl⟩
        exact Fields.merge_rests unnamed sound whole rest (by rw [idle.draft, same]) later
end

/-- Merging a payload that is stored leaves a graph as it is. -/
theorem Draft.merge_stored {identify : Json → Option NodeId} {root top : NodeId} {fields : Fields}
    {members : List (String × Json)} {graph : Graph} (unnamed : identify .null = none)
    (sound : Nodes.Sound (fun _ => False) graph.node?) (whole : Whole top)
    (stored : Stored top graph.node? (Visit.ofPayload identify root fields (.object members))) :
    ∃ warnings, (ofGraph graph).merge identify root fields (.object members) =
      .ok (ofGraph graph, warnings) := by
  have start : (Walk.ofDraft (ofGraph graph)).Rests
      (Fields.merge identify (.root root) members fields (.ofDraft (ofGraph graph))) :=
    Fields.merge_rests unnamed sound whole fields rfl
      (stored.mono fun _ member => List.mem_cons_of_mem _ member)
  obtain ⟨walk, merged, idle⟩ := start
  have finished : walk.finish = ofGraph graph := by
    unfold Walk.finish
    rw [idle.draft, idle.changes]
    exact collectFrom_nil _ _
  exact ⟨walk.warnings, by rw [Draft.merge, merged, ← finished]; rfl⟩

end ResponseGraph
