import ResponseGraph.Proofs.Payload.Afresh
import ResponseGraph.Proofs.Payload.Idle
import ResponseGraph.Proofs.Payload.Tracked

/-!
Members that were told before.

A walk that does not skip comes to members of which all positions were met.  What they bring is
stored by then, or it is a reference that the walk has found to be changed.  So the walk writes
nothing, makes no node, and finds no change that it did not find before: it follows the walk that
skips these members.

A leaf is met as a leaf.  A leaf that is null is no sign that a null with a selection was stored,
since that may wait for an entity to be unlinked.
-/

namespace ResponseGraph

open Nodes NodeId Visit

namespace Content

def isLeaf : Content → Bool
  | .leaf _ => true
  | _ => false

theorem eq_or_leaf_of_agrees {content other : Content} (same : other.agrees content)
    (alike : other.isLeaf = content.isLeaf) :
    other = content ∨ ∃ first second, other = .leaf first ∧ content = .leaf second ∧
      first.same second := by
  cases other with
  | leaf first =>
    cases content with
    | leaf second => exact Or.inr ⟨first, second, rfl, rfl, same⟩
    | _ => cases alike
  | null =>
    cases content with
    | null => exact Or.inl rfl
    | leaf => cases alike
    | _ => cases same
  | list length =>
    cases content with
    | list => exact Or.inl (congrArg Content.list (beq_iff_eq.mp same))
    | _ => cases same
  | object =>
    cases content with
    | object => exact Or.inl rfl
    | _ => cases same
  | entity id =>
    cases content with
    | entity => exact Or.inl (congrArg Content.entity (beq_iff_eq.mp same))
    | _ => cases same
  | misfit => cases content <;> cases same

end Content

/-- Every position was met, a leaf as a leaf. -/
def Met (seen visits : List Visit) : Prop :=
  ∀ site content, .brought site content ∈ visits →
    ∃ other, .brought site other ∈ seen ∧ other.isLeaf = content.isLeaf

namespace Met

variable {seen visits more : List Visit} {site : Site} {content other : Content}

theorem nil : Met seen [] := fun _ _ member => absurd member List.not_mem_nil

theorem mono (h : Met seen visits) (kept : seen ⊆ more) : Met more visits :=
  fun site content member => (h site content member).imp fun _ => And.imp_left (kept ·)

theorem append (first : Met seen visits) (second : Met seen more) : Met seen (visits ++ more) :=
  fun site content member =>
    (List.mem_append.mp member).elim (first site content) (second site content)

theorem of_subset (h : Met seen more) (subset : visits ⊆ more) : Met seen visits :=
  fun site content member => h site content (subset member)

theorem brought (here : .brought site other ∈ seen) (alike : other.isLeaf = content.isLeaf)
    (rest : Met seen visits) : Met seen (.brought site content :: visits) := by
  intro place found member
  rcases List.mem_cons.mp member with e | member
  · cases e
    exact ⟨other, here, alike⟩
  · exact rest place found member

theorem entered {id : NodeId} {set : Nat} {fields : Fields} {members : List (String × Json)}
    (rest : Met seen visits) : Met seen (.entered id set fields members :: visits) :=
  fun place found member =>
    rest place found ((List.mem_cons.mp member).resolve_left fun e => by cases e)

end Met

theorem Json.isLeaf_content (identify : Json → Option NodeId) (payload : Json) :
    (payload.content identify).isLeaf = false := by
  rcases content_cases identify payload with
    ⟨_, _, _, e⟩ | ⟨_, _, _, _, e⟩ | ⟨_, _, e⟩ | e | e <;> rw [e] <;> rfl

namespace Walk

variable {identify : Json → Option NodeId} {all seen : List Visit} {walk more : Walk}
  {place : Place} {content other : Content} {set : Nat} {descend : Descent}

/-- Nothing was met that cannot be stored. -/
theorem Tracked.not_misfit (h : Tracked all walk seen) (coherent : Coherent all) {site : Site}
    (met : .brought site other ∈ seen) : .brought site .misfit ∉ all := by
  intro member
  have same := coherent.agrees (h.within met) member
  cases other <;> cases same

/-- What was met is stored, but for a reference that is to be changed. -/
theorem Tracked.told (h : Tracked all walk seen) (coherent : Coherent all)
    (met : .brought place.site other ∈ seen) (here : .brought place.site content ∈ all)
    (alike : other.isLeaf = content.isLeaf) :
    content.Fits (walk.stored? place) ∧ ∀ next, content.next? = some next →
      walk.stored? place = some (.referring next) ∨
        .relink place.container place.path next ∈ walk.changes := by
  have same := coherent.agrees (h.within met) here
  rcases Content.eq_or_leaf_of_agrees same alike with rfl | ⟨first, second, rfl, rfl, equal⟩
  · exact ⟨h.shaped _ _ met, fun next => h.delivered _ _ next met⟩
  · obtain ⟨value, stored, fits⟩ := h.shaped _ _ met
    exact ⟨⟨value, stored, Value.sameAsJson_trans value fits equal⟩, fun next decides => by
      cases decides⟩

/-! ## Positions -/

/-- A walk goes on, it follows the other one still, and all was met. -/
def Retells (walk : Walk) (seen visits : List Visit) (result : Except Error Walk) : Prop :=
  ∃ more, result = .ok more ∧ Follows walk more ∧ Met seen visits

theorem leaf_again {payload : Json} (follows : Follows walk more)
    (fits : (Content.leaf payload).Fits (walk.stored? place)) : more.leaf place payload = more := by
  obtain ⟨value, stored, same⟩ := fits
  unfold leaf
  rw [follows.stored?_eq, stored]
  exact if_pos same

theorem null_again (unnamed : identify .null = none) (follows : Follows walk more)
    (fits : Content.null.Fits (walk.stored? place))
    (told : walk.stored? place = some .null ∨
      .relink place.container place.path none ∈ walk.changes) :
    ∃ more', value identify set descend place .null more = .ok more' ∧ Follows walk more' := by
  obtain ⟨found, stored, rfl | ⟨id, rfl⟩⟩ := fits
  · refine ⟨more, ?_, follows⟩
    rw [value, follows.stored?_eq, stored]
    unfold Walk.null
    rw [unnamed]
    rfl
  · have waiting : .relink place.container place.path none ∈ walk.changes := by
      refine told.resolve_left fun null => ?_
      rw [stored] at null
      cases null
    refine ⟨more.relink place none, ?_, follows.again waiting⟩
    rw [value, follows.stored?_eq, stored]
    unfold Walk.null
    rw [unnamed]
    rfl

theorem refer_again {id : NodeId} {members : List (String × Json)} (follows : Follows walk more)
    (fits : (Content.entity id).Fits (walk.stored? place))
    (told : walk.stored? place = some (.reference id) ∨
      .relink place.container place.path (some id) ∈ walk.changes) :
    ∃ more', more.refer place (walk.stored? place) members id = .ok more' ∧
      Follows walk more' := by
  unfold refer
  cases named : entity? (walk.stored? place) with
  | none =>
    have free : occupied (walk.stored? place) = false := by
      cases stored : walk.stored? place with
      | none => rfl
      | some value =>
        rcases fits value stored with rfl | ⟨old, rfl⟩
        · rfl
        · rw [stored] at named
          cases named
    have waiting : .relink place.container place.path (some id) ∈ walk.changes := by
      refine told.resolve_left fun stored => ?_
      rw [stored] at named
      cases named
    rw [free]
    exact ⟨_, rfl, follows.again waiting⟩
  | some old =>
    dsimp only
    split
    · exact ⟨_, rfl, follows⟩
    · next differs =>
      have waiting : .relink place.container place.path (some id) ∈ walk.changes := by
        refine told.resolve_left fun stored => differs ?_
        rw [stored] at named
        exact Option.some.inj named
      exact ⟨_, rfl, follows.again waiting⟩

theorem list?_of_fits_entity {stored : Option Value} {id : NodeId}
    (fits : (Content.entity id).Fits stored) : list? stored = none := by
  cases stored with
  | none => rfl
  | some value =>
    rcases fits value rfl with rfl | ⟨old, rfl⟩ <;> rfl

/-- The node of a field of which something was met is linked. -/
theorem field_again {name : String} {head : FieldHead} {site : Site}
    (tracked : Tracked all walk seen) (follows : Follows walk more)
    (located : head.site place.site name = .ok site) (met : .brought site other ∈ seen) :
    ∃ here, more.field place name head = .ok (more, here) ∧ here.site = site := by
  refine field_of_linked located fun id path arguments root address => ?_
  subst root
  rw [follows.draft]
  exact (tracked.tethered _ _ met _ _ _ address).1

/-! ## Members -/

/-- Members are retold where members were met. -/
def RetellsBelow (identify : Json → Option NodeId) (all : List Visit) (walk : Walk)
    (seen : List Visit) (fields : Fields) (descend : Descent) : Prop :=
  ∀ (place : Place) (members others : List (String × Json)) (more : Walk), Follows walk more →
    Fields.visits true identify place.site members fields ⊆ all →
    Fields.visits true identify place.site others fields ⊆ all →
    Met seen (Fields.visits true identify place.site others fields) →
    Retells walk seen (Fields.visits true identify place.site members fields)
      (descend place members more)

/-- An object without an id is retold where one was met. -/
theorem plain_retells {fields : Fields} (sincere : Sincere identify all)
    (tracked : Tracked all walk seen)
    (below : RetellsBelow identify all walk seen fields descend)
    {members others : List (String × Json)} (unnamed : identify (.object members) = none)
    (follows : Follows walk more) (here : .brought place.site other ∈ seen)
    (alike : other.isLeaf = false)
    (within : .brought place.site .object ::
      Fields.visits true identify place.site members fields ⊆ all)
    (within' : Fields.visits true identify place.site others fields ⊆ all)
    (met : Met seen (Fields.visits true identify place.site others fields)) :
    Retells walk seen
      (.brought place.site .object :: Fields.visits true identify place.site members fields)
      (value identify set (fun below members walk => descend below members walk.forget) place
        (.object members) more) := by
  obtain ⟨brought, inside⟩ := List.cons_subset.mp within
  obtain ⟨fits, -⟩ := tracked.told sincere.coherent here brought alike
  rw [← follows.stored?_eq] at fits
  obtain ⟨noList, noEntity⟩ := of_fits_object fits
  rw [value_object_of_unnamed unnamed noList, noEntity]
  obtain ⟨more', done, follows', told⟩ :=
    below place members others more.forget follows.forget inside within' met
  exact ⟨more', done, follows', told.brought here alike⟩

/-- An entity is retold where it was met. -/
theorem entity_retells {fields : Fields} {id : NodeId} (sincere : Sincere identify all)
    (tracked : Tracked all walk seen)
    (below : RetellsBelow identify all walk seen fields descend)
    {members others : List (String × Json)} (named : identify (.object members) = some id)
    (follows : Follows walk more) (here : .brought place.site other ∈ seen)
    (alike : other.isLeaf = false)
    (within : .brought place.site (.entity id) ::
      ofEntity true set fields (Fields.below true identify fields) id members ⊆ all)
    (within' : ofEntity true set fields (Fields.below true identify fields) id others ⊆ all)
    (met : Met seen (ofEntity true set fields (Fields.below true identify fields) id others)) :
    Retells walk seen (.brought place.site (.entity id) ::
        ofEntity true set fields (Fields.below true identify fields) id members)
      (value identify set (fun below members walk => descend below members walk.forget) place
        (.object members) more) := by
  unfold ofEntity at within within' met ⊢
  simp only [if_pos, List.cons_subset] at within within' met ⊢
  obtain ⟨root, inside, rooted⟩ := met _ _ List.mem_cons_self
  obtain ⟨fits, told⟩ := tracked.told sincere.coherent here within.1 alike
  obtain ⟨middle, referred, follows'⟩ := refer_again follows fits (told _ rfl)
  rw [value_object_of_named named (by rw [follows.stored?_eq, list?_of_fits_entity fits]),
    follows.stored?_eq, referred]
  show Retells walk seen _ ((middle.visit place set id).2.elim _ _)
  rw [visit_of_unvisited follows'.unvisited]
  obtain ⟨more', done, follows'', told⟩ := below (place.enter id) members others
    (middle.mark id set).forget ⟨follows'.draft, follows'.repeats, rfl⟩ within.2.2.2 within'.2.2
    (met.of_subset fun _ member => List.mem_cons_of_mem _ (List.mem_cons_of_mem _ member))
  exact ⟨more', done, follows'', .brought here alike (.brought inside rooted told.entered)⟩

mutual
theorem value_retells {fields : Fields} (sincere : Sincere identify all)
    (tracked : Tracked all walk seen)
    (below : RetellsBelow identify all walk seen fields descend) :
    (payload other : Json) → {place : Place} → {more : Walk} → Follows walk more →
    ofValue true identify set fields (Fields.below true identify fields) place.site payload ⊆ all →
    ofValue true identify set fields (Fields.below true identify fields) place.site other ⊆ all →
    Met seen (ofValue true identify set fields (Fields.below true identify fields) place.site
      other) →
    Retells walk seen
      (ofValue true identify set fields (Fields.below true identify fields) place.site payload)
      (value identify set (fun below members walk => descend below members walk.forget) place
        payload more)
  | .null, other, place, more, follows, within, _, met => by
    obtain ⟨found, here, alike⟩ := met _ _ (ofValue_brings _ other)
    rw [Json.isLeaf_content] at alike
    obtain ⟨fits, told⟩ := tracked.told sincere.coherent here
      (within (ofValue_brings _ .null)) alike
    obtain ⟨more', done, follows'⟩ := null_again sincere.unnamed follows fits (told none rfl)
    exact ⟨more', done, follows', Met.nil.brought here alike⟩
  | .bool _, other, place, _, _, within, _, met | .number _, other, place, _, _, within, _, met
  | .string _, other, place, _, _, within, _, met => by
    obtain ⟨found, here, -⟩ := met _ _ (ofValue_brings _ other)
    exact absurd (within List.mem_cons_self) (tracked.not_misfit sincere.coherent here)
  | .object members, other, place, more, follows, within, within', met => by
    obtain ⟨found, here, alike⟩ := met _ _ (ofValue_brings _ other)
    have both := sincere.coherent _ _ _ (within' (ofValue_brings _ other))
      (within (ofValue_brings _ (.object members)))
    rw [Json.isLeaf_content] at alike
    cases named : identify (.object members) with
    | none =>
      rw [content_plain named] at both
      have same := both.resolve_right fun misfits => by cases misfits.2
      obtain ⟨others, rfl, unnamed⟩ := of_content_object (Content.eq_object_of_agrees same)
      unfold ofValue at within within' met ⊢
      rw [named] at within ⊢
      rw [unnamed] at within' met
      exact plain_retells sincere tracked below named follows here alike within
        (List.cons_subset.mp within').2 (met.of_subset (List.subset_cons_self _ _))
    | some id =>
      rw [content_named named] at both
      have same := both.resolve_right fun misfits => by cases misfits.2
      obtain ⟨others, rfl, named'⟩ := of_content_entity (Content.eq_entity_of_agrees same)
      unfold ofValue at within within' met ⊢
      rw [named] at within ⊢
      rw [named'] at within' met
      exact entity_retells sincere tracked below named follows here alike within
        (List.cons_subset.mp within').2 (met.of_subset (List.subset_cons_self _ _))
  | .array payloads, other, place, more, follows, within, within', met => by
    obtain ⟨found, here, alike⟩ := met _ _ (ofValue_brings _ other)
    have both := sincere.coherent _ _ _ (within' (ofValue_brings _ other))
      (within (ofValue_brings _ (.array payloads)))
    rw [Json.isLeaf_content] at alike
    have same := both.resolve_right fun misfits => by cases misfits.2
    obtain ⟨others, rfl, long⟩ := of_content_list (Content.eq_list_of_agrees same)
    obtain ⟨fits, -⟩ := tracked.told sincere.coherent here
      (within (ofValue_brings _ (.array payloads))) alike
    rw [← follows.stored?_eq] at fits
    rw [rests_list ⟨fits, fun _ decides => by cases decides⟩]
    unfold ofValue at within within' met ⊢
    obtain ⟨more', done, follows', told⟩ := items_retells sincere tracked below payloads others
      long.symm follows (List.cons_subset.mp within).2 (List.cons_subset.mp within').2
      (met.of_subset (List.subset_cons_self _ _))
    exact ⟨more', done, follows', told.brought here alike⟩

theorem items_retells {fields : Fields} (sincere : Sincere identify all)
    (tracked : Tracked all walk seen)
    (below : RetellsBelow identify all walk seen fields descend) :
    (payloads others : List Json) → {place : Place} → {index : Nat} → {more : Walk} →
    payloads.length = others.length → Follows walk more →
    ofItems true identify set fields (Fields.below true identify fields) place.site index
      payloads ⊆ all →
    ofItems true identify set fields (Fields.below true identify fields) place.site index
      others ⊆ all →
    Met seen (ofItems true identify set fields (Fields.below true identify fields) place.site index
      others) →
    Retells walk seen
      (ofItems true identify set fields (Fields.below true identify fields) place.site index
        payloads)
      (items identify set (fun below members walk => descend below members walk.forget) place index
        payloads more)
  | [], _, _, _, more, _, follows, _, _, _ => ⟨more, rfl, follows, .nil⟩
  | _ :: _, [], _, _, _, same, _, _, _, _ => absurd same (Nat.succ_ne_zero _)
  | payload :: rest, other :: others, place, index, more, same, follows, within, within', met => by
    unfold ofItems at within within' met ⊢
    obtain ⟨first, later⟩ := List.append_subset.mp within
    obtain ⟨first', later'⟩ := List.append_subset.mp within'
    have before := met.of_subset (List.subset_append_left _ _)
    have first : ofValue true identify set fields (Fields.below true identify fields)
      (place.step (.index index)).site payload ⊆ all := first
    obtain ⟨middle, done, follows', told⟩ := value_retells sincere tracked below payload other
      follows first first' before
    obtain ⟨more', done', follows'', told'⟩ := items_retells sincere tracked below rest others
      (Nat.succ.inj same) follows' later later' (met.of_subset (List.subset_append_right _ _))
    refine ⟨more', ?_, follows'', told.append told'⟩
    rw [items]
    exact (congrArg (· >>= _) done).trans done'
end

end Walk

open Walk

mutual
theorem Field.mergeAfresh_retells {identify : Json → Option NodeId} {all seen : List Visit}
    {walk : Walk} (sincere : Sincere identify all) (tracked : Tracked all walk seen) :
    (field : Field) → (payload other : Json) → {place : Place} → {more : Walk} →
    Follows walk more → field.visits true identify place.site payload ⊆ all →
    field.visits true identify place.site other ⊆ all →
    Met seen (field.visits true identify place.site other) →
    Retells walk seen (field.visits true identify place.site payload)
      (field.mergeAfresh identify place payload more)
  | .leaf _ _, payload, other, place, more, follows, within, _, met => by
    obtain ⟨found, here, alike⟩ := met _ _ List.mem_cons_self
    obtain ⟨fits, -⟩ := tracked.told sincere.coherent here (within List.mem_cons_self) alike
    exact ⟨more, congrArg Except.ok (leaf_again follows fits), follows,
      Met.nil.brought here alike⟩
  | .composite _ _ _ _ fields, payload, other, place, more, follows, within, within', met =>
    have below : RetellsBelow identify all walk seen fields
        fun below members walk => Fields.mergeAfresh identify below members fields walk :=
      fun _ members others _ follows within within' met =>
        Fields.mergeAfresh_retells sincere tracked fields members others follows within within' met
    value_retells sincere tracked below payload other follows within within' met

/-- Merging members that were met before brings nothing new. -/
theorem Fields.mergeAfresh_retells {identify : Json → Option NodeId} {all seen : List Visit}
    {walk : Walk} (sincere : Sincere identify all) (tracked : Tracked all walk seen) :
    (fields : Fields) → (members others : List (String × Json)) → {place : Place} →
    {more : Walk} → Follows walk more →
    Fields.visits true identify place.site members fields ⊆ all →
    Fields.visits true identify place.site others fields ⊆ all →
    Met seen (Fields.visits true identify place.site others fields) →
    Retells walk seen (Fields.visits true identify place.site members fields)
      (Fields.mergeAfresh identify place members fields more)
  | [], _, _, _, more, follows, _, _, _ => ⟨more, rfl, follows, .nil⟩
  | (name, field) :: rest, members, others, place, more, follows, within, within', met => by
    rw [Fields.mergeAfresh]
    unfold Fields.visits at within within' met ⊢
    split
    · next excluded =>
      rw [if_pos excluded] at within within' met
      exact Fields.mergeAfresh_retells sincere tracked rest members others follows within within'
        met
    · next included =>
      rw [if_neg included] at within within' met
      obtain ⟨first, later⟩ := List.append_subset.mp within
      obtain ⟨first', later'⟩ := List.append_subset.mp within'
      have before := met.of_subset (List.subset_append_left _ _)
      obtain ⟨warnings, selected⟩ := more.member_eq place name members
      rw [selected]
      dsimp only
      cases located : field.head.site place.site name with
      | error _ =>
        rw [located] at first before
        obtain ⟨found, here, -⟩ := before _ _ List.mem_cons_self
        exact absurd (first List.mem_cons_self) (tracked.not_misfit sincere.coherent here)
      | ok site =>
        rw [located] at first first' before
        obtain ⟨content, brings⟩ := field.visits_brings identify site (payloadOf others name)
        obtain ⟨found, here, -⟩ := before _ _ brings
        have follows : Follows walk { more with warnings } :=
          ⟨follows.draft, follows.repeats, follows.unvisited⟩
        obtain ⟨below, placed, rfl⟩ := field_again tracked follows located here
        obtain ⟨middle, done, follows', told⟩ := Field.mergeAfresh_retells sincere tracked field
          (payloadOf members name) (payloadOf others name) follows first first' before
        obtain ⟨more', done', follows'', told'⟩ := Fields.mergeAfresh_retells sincere tracked rest
          members others follows' later later' (met.of_subset (List.subset_append_right _ _))
        refine ⟨more', ?_, follows'', told.append told'⟩
        rw [placed]
        exact (congrArg (· >>= _) done).trans done'
end

end ResponseGraph
