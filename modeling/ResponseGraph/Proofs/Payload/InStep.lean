import ResponseGraph.Proofs.Draft.Released
import ResponseGraph.Proofs.Payload.Retold

/-!
Walks in step.

A walk that skips and one that does not go through a payload in step.  Where the first goes
in, both take the same steps.  Where it skips, the entity was gone into with the same set before.
If that was done with, all that the set selects below was met, and the other walk retells it.

The entity cannot be one that the walk is still inside of, as far as that set goes: fields of a set
are smaller than the field that the set belongs to.  So it is enough to know of the marks whose
sets are small that their members were met (`Walk.InStep`).
-/

namespace ResponseGraph

open Nodes NodeId Visit

namespace Walk

/-- All that the fields select below the entity was met. -/
def Complete (identify : Json → Option NodeId) (all seen : List Visit) (id : NodeId)
    (fields : Fields) : Prop :=
  ∃ members, Fields.visits true identify (.root id) members fields ⊆ all ∧
    Met seen (.brought (.root id) .object :: Fields.visits true identify (.root id) members fields)

theorem Complete.mono {identify : Json → Option NodeId} {all seen more : List Visit} {id : NodeId}
    {fields : Fields} (h : Complete identify all seen id fields) (kept : seen ⊆ more) :
    Complete identify all more id fields :=
  h.imp fun _ => And.imp_right fun met => met.mono kept

/-- A walk that skips and one that does not, before they come to fields of a size. -/
structure InStep (identify : Json → Option NodeId) (labels : Labels) (all : List Visit)
    (size : Nat) (walk more : Walk) (seen : List Visit) : Prop where
  tracked : Tracked all walk seen
  follows : Follows walk more
  complete : ∀ id set fields, (id, set) ∈ walk.visited → labels set = some (.set fields) →
    sizeOf fields < size → Complete identify all seen id fields

/-- The two walks went on, and all was met if it was tracked. -/
structure Advanced (identify : Json → Option NodeId) (labels : Labels) (all : List Visit)
    (tracking : Prop) (walk : Walk) (seen visits : List Visit) (walk' more' : Walk)
    (seen' : List Visit) : Prop where
  tracked : Tracked all walk' seen'
  follows : Follows walk' more'
  kept : seen ⊆ seen'
  marks : ∀ id set fields, (id, set) ∈ walk'.visited → labels set = some (.set fields) →
    (id, set) ∈ walk.visited ∨ Complete identify all seen' id fields
  met : tracking → Met seen' visits

/-- Both walks fail in the same way, or both go on. -/
def Advance (identify : Json → Option NodeId) (labels : Labels) (all : List Visit)
    (tracking : Prop) (walk : Walk) (seen visits : List Visit) :
    Except Error Walk → Except Error Walk → Prop :=
  Paired fun walk' more' =>
    ∃ seen', Advanced identify labels all tracking walk seen visits walk' more' seen'

variable {identify : Json → Option NodeId} {labels : Labels} {all seen between seen' : List Visit}
  {visits others : List Visit} {size smaller : Nat} {tracking : Prop}
  {walk more middle beside walk' more' : Walk} {place : Place} {content : Content}
  {set : Nat} {fields : Fields} {descend afresh : Descent}

theorem InStep.mono (h : InStep identify labels all size walk more seen) (le : smaller ≤ size) :
    InStep identify labels all smaller walk more seen :=
  ⟨h.tracked, h.follows, fun id set fields member held small =>
    h.complete id set fields member held (by omega)⟩

/-- Walks that went on are in step again. -/
theorem Advanced.inStep
    (h : Advanced identify labels all tracking walk seen visits walk' more' seen')
    (before : InStep identify labels all size walk more seen) :
    InStep identify labels all size walk' more' seen' := by
  refine ⟨h.tracked, h.follows, fun id set fields member held small => ?_⟩
  rcases h.marks id set fields member held with old | done
  · exact (before.complete id set fields old held small).mono h.kept
  · exact done

theorem Advanced.trans
    (h : Advanced identify labels all tracking walk seen visits middle beside between)
    (h' : Advanced identify labels all tracking middle between others walk' more' seen') :
    Advanced identify labels all tracking walk seen (visits ++ others) walk' more' seen' := by
  refine ⟨h'.tracked, h'.follows, List.Subset.trans h.kept h'.kept,
    fun id set fields member held => ?_, fun track =>
    ((h.met track).mono h'.kept).append (h'.met track)⟩
  rcases h'.marks id set fields member held with old | done
  · exact (h.marks id set fields old held).imp_right fun done => done.mono h'.kept
  · exact Or.inr done

/-- Walks that stay where they are have come past nothing. -/
theorem InStep.stay (h : InStep identify labels all size walk more seen) :
    Advanced identify labels all tracking walk seen [] walk more seen :=
  ⟨h.tracked, h.follows, List.Subset.refl _, fun _ _ _ member _ => Or.inl member, fun _ => .nil⟩

/-- Both walks take in what a position brings. -/
theorem InStep.bring (h : InStep identify labels all size walk more seen)
    (sincere : Sincere identify all) (here : .brought place.site content ∈ all)
    (due : tracking → Due walk seen place.site) (brings : Brings identify walk place content walk')
    (follows : Follows walk' more') :
    ∃ seen', (tracking → .brought place.site content ∈ seen') ∧
      Advanced identify labels all tracking walk seen [.brought place.site content] walk' more'
        seen' := by
  have here : .brought place.site content ∈ storable all := by
    refine mem_storable.mpr ⟨here, fun misfit => ?_⟩
    subst misfit
    cases brings
  have marks : ∀ id set (fields : Fields), (id, set) ∈ walk'.visited →
      labels set = some (.set fields) → (id, set) ∈ walk.visited ∨
        Complete identify all seen id fields :=
    fun _ _ _ member _ => Or.inl (brings.visited ▸ member)
  by_cases track : tracking
  · have old := List.subset_cons_self (Visit.brought place.site content) seen
    refine ⟨_, fun _ => List.mem_cons_self, h.tracked.brought sincere here (due track) brings,
      follows, old, ?_, fun _ => Met.nil.brought List.mem_cons_self rfl⟩
    exact fun id set fields member held =>
      (marks id set fields member held).imp_right fun done => done.mono old
  · exact ⟨seen, fun given => absurd given track, h.tracked.bring sincere here brings, follows,
      List.Subset.refl _, marks, fun given => absurd given track⟩

/-- A step of both walks, and then the rest. -/
theorem Advance.after {first second : Except Error Walk}
    (h : Advanced identify labels all tracking walk seen visits middle beside between)
    (rest : Advance identify labels all tracking middle between others first second) :
    Advance identify labels all tracking walk seen (visits ++ others) first second :=
  rest.mono fun _ _ => fun ⟨seen', done⟩ => ⟨seen', h.trans done⟩

/-! ## Values -/

/-- What the two walks have to do at an object, and the second alone where the members were met. -/
structure InStepBelow (identify : Json → Option NodeId) (labels : Labels) (all : List Visit)
    (fields : Fields) (descend afresh : Descent) : Prop where
  advance : ∀ (place : Place) (members : List (String × Json)) (walk more : Walk)
    (seen : List Visit) (tracking : Prop),
    InStep identify labels all (sizeOf fields) walk more seen →
    Fields.visits true identify place.site members fields ⊆ all →
    (tracking → .brought place.site .object ∈ seen) →
    Advance identify labels all tracking walk seen
      (Fields.visits true identify place.site members fields)
      (descend place members walk) (afresh place members more)
  again : ∀ walk seen, Tracked all walk seen → RetellsBelow identify all walk seen fields afresh

variable {members : List (String × Json)} {id : NodeId}

/-- An object without an id is merged at its place by both walks, or by none. -/
theorem plain_advance (sincere : Sincere identify all)
    (below : InStepBelow identify labels all fields descend afresh)
    (unnamed : identify (.object members) = none)
    (h : InStep identify labels all (sizeOf fields + 1) walk more seen)
    (within : .brought place.site .object ::
      Fields.visits true identify place.site members fields ⊆ all)
    (due : tracking → Due walk seen place.site) (noList : list? (walk.stored? place) = none) :
    Advance identify labels all tracking walk seen
      (.brought place.site .object :: Fields.visits true identify place.site members fields)
      (value identify set descend place (.object members) walk)
      (value identify set (fun below members walk => afresh below members walk.forget) place
        (.object members) more) := by
  obtain ⟨here, inside⟩ := List.cons_subset.mp within
  have noList' : list? (more.stored? place) = none := by rw [h.follows.stored?_eq, noList]
  rw [value_object_of_unnamed unnamed noList, value_object_of_unnamed unnamed noList',
    h.follows.stored?_eq]
  split
  · exact .error _
  · next inner =>
    have noEntity := Option.not_isSome_iff_eq_none.mp inner
    obtain ⟨between, around, first⟩ := h.bring sincere here due (.object noList noEntity)
      h.follows.forget
    exact (below.advance place members walk more.forget between tracking
      ((first.inStep h).mono (Nat.le_succ _)) inside around).after first

/-- Where an entity is skipped, its members are retold. -/
theorem skip_advance (below : InStepBelow identify labels all fields descend afresh)
    (held : labels set = some (.set fields))
    (h : InStep identify labels all (sizeOf fields + 1) walk more seen)
    (within : Fields.visits true identify (.root id) members fields ⊆ all)
    (marked : (id, set) ∈ walk.visited) :
    Advance identify labels all tracking walk seen
      (ofEntity true set fields (Fields.below true identify fields) id members)
      (.ok walk) (afresh (place.enter id) members (more.mark id set).forget) := by
  obtain ⟨others, within', met⟩ := h.complete id set fields marked held (Nat.lt_succ_self _)
  obtain ⟨more', done, follows, told⟩ := below.again _ _ h.tracked (place.enter id) members others
    (more.mark id set).forget ⟨h.follows.draft, h.follows.repeats, rfl⟩ within within'
    (met.of_subset (List.subset_cons_self _ _))
  obtain ⟨other, inside, alike⟩ := met _ _ List.mem_cons_self
  rw [done]
  exact .ok ⟨seen, h.tracked, follows, List.Subset.refl _,
    fun _ _ _ member _ => Or.inl member, fun _ => .brought inside alike told.entered⟩

/-- Where both walks go into an entity, it is done with afterwards. -/
theorem enter_advance (below : InStepBelow identify labels all fields descend afresh)
    (held : labels set = some (.set fields)) (whole : Whole id)
    (h : InStep identify labels all (sizeOf fields + 1) walk more seen)
    (root : .brought (.root id) .object ∈ all)
    (within : Fields.visits true identify (.root id) members fields ⊆ all) :
    Advance identify labels all tracking walk seen
      (ofEntity true set fields (Fields.below true identify fields) id members)
      (descend (place.enter id) members (walk.mark id set))
      (afresh (place.enter id) members (more.mark id set).forget) := by
  have opened : .brought (.root id) .object ∈ storable all :=
    mem_storable.mpr ⟨root, fun e => by cases e⟩
  have old := List.subset_cons_self (Visit.brought (.root id) .object) seen
  have start : InStep identify labels all (sizeOf fields) (walk.mark id set)
      (more.mark id set).forget (.brought (.root id) .object :: seen) := by
    refine ⟨h.tracked.enter whole opened, h.follows.mark id set,
      fun other label found member known small => ?_⟩
    rcases List.mem_cons.mp member with e | member
    · -- The fields are those of the set itself, which are not smaller.
      cases e
      rw [held] at known
      cases known
      exact absurd small (Nat.lt_irrefl _)
    · exact (h.complete other label found member known (by omega)).mono old
  refine (below.advance (place.enter id) members _ _ _ True start within
    fun _ => List.mem_cons_self).mono ?_
  rintro walk' more' ⟨seen', done⟩
  have met := done.met trivial
  have inside := done.kept List.mem_cons_self
  refine ⟨seen', done.tracked, done.follows, List.Subset.trans old done.kept,
    fun other label found member known => ?_, fun _ => .brought inside rfl met.entered⟩
  rcases done.marks other label found member known with marked | complete
  · rcases List.mem_cons.mp marked with e | before
    · cases e
      rw [held] at known
      cases known
      exact Or.inr ⟨members, within, .brought inside rfl met⟩
    · exact Or.inl before
  · exact Or.inr complete

/-- An entity is referred to by both walks.  Both go into it, or the second retells it. -/
theorem entity_advance (sincere : Sincere identify all)
    (below : InStepBelow identify labels all fields descend afresh)
    (held : labels set = some (.set fields)) (named : identify (.object members) = some id)
    (h : InStep identify labels all (sizeOf fields + 1) walk more seen)
    (within : .brought place.site (.entity id) ::
      ofEntity true set fields (Fields.below true identify fields) id members ⊆ all)
    (due : tracking → Due walk seen place.site) (noList : list? (walk.stored? place) = none) :
    Advance identify labels all tracking walk seen
      (.brought place.site (.entity id) ::
        ofEntity true set fields (Fields.below true identify fields) id members)
      (value identify set descend place (.object members) walk)
      (value identify set (fun below members walk => afresh below members walk.forget) place
        (.object members) more) := by
  obtain ⟨here, inside⟩ := List.cons_subset.mp within
  have whole : Whole id := sincere.named _ here id rfl
  have noList' : list? (more.stored? place) = none := by rw [h.follows.stored?_eq, noList]
  rw [value_object_of_named named noList, value_object_of_named named noList',
    h.follows.stored?_eq]
  refine (Follows.parallel.refer h.follows place _ members id).bind_of_eq
    fun middle beside done _ follows => ?_
  obtain ⟨between, -, first⟩ := h.bring sincere here due (brings_of_refer named done) follows
  unfold ofEntity at inside
  simp only [if_pos, List.cons_subset] at inside
  obtain ⟨root, -, inside⟩ := inside
  rw [visit_of_unvisited follows.unvisited]
  obtain ⟨⟨entering, there⟩, visited⟩ : ∃ made, made = middle.visit place set id := ⟨_, rfl⟩
  rw [← visited]
  rcases visit_cases visited with ⟨marked, rfl, rfl⟩ | ⟨-, rfl, rfl⟩
  · exact (skip_advance below held (first.inStep h) inside marked).after first
  · exact (enter_advance below held whole (first.inStep h) root inside).after first

mutual
theorem value_advance (sincere : Sincere identify all) (held : labels set = some (.set fields))
    (below : InStepBelow identify labels all fields descend afresh) : (payload : Json) →
    {place : Place} → {walk more : Walk} → {seen : List Visit} → {tracking : Prop} →
    InStep identify labels all (sizeOf fields + 1) walk more seen →
    ofValue true identify set fields (Fields.below true identify fields) place.site payload ⊆ all →
    (tracking → Due walk seen place.site) →
    Advance identify labels all tracking walk seen
      (ofValue true identify set fields (Fields.below true identify fields) place.site payload)
      (value identify set descend place payload walk)
      (value identify set (fun below members walk => afresh below members walk.forget) place payload
        more)
  | .null, place, walk, more, seen, tracking, h, within, due => by
    refine (Follows.parallel.value_null h.follows place).mono_of_eq
      fun walk' more' done follows => ?_
    obtain ⟨seen', -, advanced⟩ :=
      h.bring sincere (within List.mem_cons_self) due (brings_of_null done) follows
    exact ⟨seen', advanced⟩
  | .bool _, _, _, _, _, _, _, _, _ | .number _, _, _, _, _, _, _, _, _
  | .string _, _, _, _, _, _, _, _, _ => by
    rw [value, value]
    · exact .error _
    all_goals simp
  | .object members, place, walk, more, seen, tracking, h, within, due => by
    cases noList : list? (walk.stored? place) with
    | some items =>
      rw [value, value, h.follows.stored?_eq, noList]
      exact .error _
    | none =>
      unfold ofValue at within ⊢
      cases named : identify (.object members) with
      | none =>
        rw [named] at within
        exact plain_advance sincere below named h within due noList
      | some id =>
        rw [named] at within
        exact entity_advance sincere below held named h within due noList
  | .array payloads, place, walk, more, seen, tracking, h, within, due => by
    unfold ofValue at within ⊢
    obtain ⟨here, inside⟩ := List.cons_subset.mp within
    rw [value, value, h.follows.stored?_eq]
    split
    · exact .error _
    · next stored =>
      have brings : Brings identify walk place (.list payloads.length) _ := .list _ fun noList => by
        rw [noList, Option.isNone_none, Bool.true_and, Bool.not_eq_true] at stored
        exact stored
      obtain ⟨between, around, first⟩ := h.bring sincere here due brings
        (Follows.parallel.fit h.follows place _ payloads.length)
      exact (items_advance sincere held below payloads (Nat.zero_add _) (first.inStep h) inside
        around).after first

theorem items_advance (sincere : Sincere identify all) (held : labels set = some (.set fields))
    (below : InStepBelow identify labels all fields descend afresh) : (payloads : List Json) →
    {place : Place} → {index length : Nat} → {walk more : Walk} → {seen : List Visit} →
    {tracking : Prop} → index + payloads.length = length →
    InStep identify labels all (sizeOf fields + 1) walk more seen →
    ofItems true identify set fields (Fields.below true identify fields) place.site index
      payloads ⊆ all →
    (tracking → .brought place.site (.list length) ∈ seen) →
    Advance identify labels all tracking walk seen
      (ofItems true identify set fields (Fields.below true identify fields) place.site index
        payloads)
      (items identify set descend place index payloads walk)
      (items identify set (fun below members walk => afresh below members walk.forget) place index
        payloads more)
  | [], _, _, _, _, _, seen, _, _, h, _, _ => .ok ⟨seen, h.stay⟩
  | payload :: rest, place, index, length, walk, more, seen, tracking, total, h, within,
      around => by
    rw [List.length_cons] at total
    unfold ofItems at within ⊢
    obtain ⟨first, later⟩ := List.append_subset.mp within
    rw [items, items]
    have due : tracking → Due walk seen (place.step (.index index)).site :=
      fun track => .item (around track) (by omega)
    have first : ofValue true identify set fields (Fields.below true identify fields)
      (place.step (.index index)).site payload ⊆ all := first
    refine (value_advance sincere held below payload h first due).bind ?_
    rintro middle beside ⟨between, done⟩
    exact (items_advance sincere held below rest (by omega) (done.inStep h) later
      fun track => done.kept (around track)).after done
end

/-- The node of a field with arguments is made by both walks. -/
theorem InStep.field {below : Place} {name : String} {head : FieldHead} {warnings : List String}
    (h : InStep identify labels all size walk more seen)
    (located : Walk.field { walk with warnings } place name head = .ok (walk', below))
    (follows : Follows walk' more') :
    Advanced identify labels all tracking walk seen [] walk' more' seen := by
  have tracked := h.tracked.warn warnings
  have advanced (tracked : Tracked all walk' seen) (marks : walk'.visited = walk.visited) :
      Advanced identify labels all tracking walk seen [] walk' more' seen :=
    ⟨tracked, follows, List.Subset.refl _, fun _ _ _ member _ => Or.inl (marks ▸ member),
      fun _ => .nil⟩
  unfold Walk.field at located
  dsimp only at located
  split at located
  · cases located
    exact advanced tracked rfl
  · obtain ⟨id, address, -, ⟨rfl, -⟩ | ⟨rfl, fresh⟩⟩ := parameterized_cases located
    · exact advanced tracked rfl
    · exact advanced (tracked.grow address fresh) rfl

end Walk

open Walk

mutual
theorem Field.merge_advance {identify : Json → Option NodeId} {labels : Labels} {all : List Visit}
    (sincere : Sincere identify all) : (field : Field) → (payload : Json) → {place : Place} →
    {walk more : Walk} → {seen : List Visit} → {tracking : Prop} → field.Known labels →
    InStep identify labels all (sizeOf field) walk more seen →
    field.visits true identify place.site payload ⊆ all →
    (tracking → Due walk seen place.site) →
    Advance identify labels all tracking walk seen (field.visits true identify place.site payload)
      (field.merge identify place payload walk) (field.mergeAfresh identify place payload more)
  | .leaf _ _, payload, place, walk, more, seen, tracking, _, h, within, due => by
    obtain ⟨seen', -, advanced⟩ := h.bring sincere (within List.mem_cons_self) due
      (.leaf payload) (Follows.parallel.leaf h.follows place payload)
    exact .ok ⟨seen', advanced⟩
  | .composite label head traits set fields, payload, place, walk, more, seen, tracking, known, h,
      within, due => by
    have below : InStepBelow identify labels all fields
        (fun below members walk => Fields.merge identify below members fields walk)
        fun below members walk => Fields.mergeAfresh identify below members fields walk :=
      ⟨fun _ members _ _ _ _ h within around =>
          Fields.merge_advance sincere fields members known.2.2.2.2 h within around,
        fun _ _ tracked _ members others _ follows within within' met =>
          Fields.mergeAfresh_retells sincere tracked fields members others follows within within'
            met⟩
    refine value_advance sincere known.2.1 below payload (h.mono ?_) within due
    rw [Field.composite.sizeOf_spec]
    omega

/-- A merge that skips and one that does not fail in the same way, or go on in step. -/
theorem Fields.merge_advance {identify : Json → Option NodeId} {labels : Labels} {all : List Visit}
    (sincere : Sincere identify all) : (fields : Fields) → (members : List (String × Json)) →
    {place : Place} → {walk more : Walk} → {seen : List Visit} → {tracking : Prop} →
    Fields.Known labels fields → InStep identify labels all (sizeOf fields) walk more seen →
    Fields.visits true identify place.site members fields ⊆ all →
    (tracking → .brought place.site .object ∈ seen) →
    Advance identify labels all tracking walk seen
      (Fields.visits true identify place.site members fields)
      (Fields.merge identify place members fields walk)
      (Fields.mergeAfresh identify place members fields more)
  | [], _, _, _, _, seen, _, _, h, _, _ => .ok ⟨seen, h.stay⟩
  | (name, field) :: rest, members, place, walk, more, seen, tracking, known, h, within,
      around => by
    have sizes : sizeOf ((name, field) :: rest) =
        1 + (1 + sizeOf name + sizeOf field) + sizeOf rest := rfl
    rw [sizes] at h
    rw [Fields.merge, Fields.mergeAfresh]
    unfold Fields.visits at within ⊢
    split
    · next excluded =>
      rw [if_pos excluded] at within
      exact Fields.merge_advance sincere rest members known.2 (h.mono (by omega)) within around
    · next included =>
      rw [if_neg included] at within
      obtain ⟨first, later⟩ := List.append_subset.mp within
      obtain ⟨warnings, selected⟩ := walk.member_eq place name members
      obtain ⟨warnings', selected'⟩ := more.member_eq place name members
      rw [selected, selected']
      dsimp only
      refine (Follows.parallel.field (h.follows.warned warnings warnings') place name
        field.head).bind_of_eq ?_
      rintro ⟨grown, below⟩ ⟨beside, _⟩ located - ⟨follows, rfl⟩
      have traced {seen : List Visit} (opened : .brought place.site .object ∈ seen) :
          field.head.site place.site name = .ok below.site ∧ Run identify _ seen grown seen ∧
            Due grown seen below.site := field_traced opened located
      obtain ⟨site, -⟩ := traced (List.mem_singleton.mpr rfl)
      rw [site] at first ⊢
      have silent : Advanced identify labels all tracking walk seen [] grown beside seen :=
        h.field located follows
      have h' := silent.inStep h
      have due (track : tracking) : Due grown seen below.site := (traced (around track)).2.2
      refine (Field.merge_advance sincere field (payloadOf members name) known.1
        (h'.mono (by omega)) first due).bind ?_
      rintro middle aside ⟨between, done⟩
      exact (Fields.merge_advance sincere rest members known.2 ((done.inStep h').mono (by omega))
        later fun track => done.kept (around track)).after (silent.trans done)
end

namespace Visit

/-- What a payload says of its places is known before it is merged. -/
theorem Sincere.ofPayload {identify : Json → Option NodeId} {root : NodeId} {fields : Fields}
    {members : List (String × Json)} (unnamed : identify .null = none)
    (named : Named (Visit.ofPayload identify root fields (.object members)))
    (coherent : Coherent (Visit.ofPayload identify root fields (.object members))) :
    Sincere identify (Visit.ofPayload identify root fields (.object members)) :=
  ⟨unnamed, named, coherent, nested_storable identify root fields members⟩

theorem Sincere.concerted {identify : Json → Option NodeId} {all : List Visit}
    (sincere : Sincere identify all) {changes : List LinkChange}
    (accounted : Accounted changes (storable all)) : LinkChange.Concerted changes :=
  Visit.concerted (sincere.named.mono fun _ member => (List.mem_filter.mp member).1)
    sincere.coherent.consistent sincere.nested accounted

end Visit

/-- A merge and one that does not skip fail in the same way, or their drafts are level. -/
theorem Draft.merge_level {identify : Json → Option NodeId} {root : NodeId} {fields : Fields}
    {payload : Json} {labels : Labels} {draft : Draft} (upheld : Upheld draft.node?)
    (unnamed : identify .null = none)
    (named : Named (Visit.ofPayload identify root fields payload))
    (coherent : Coherent (Visit.ofPayload identify root fields payload))
    (known : Fields.Known labels fields) :
    Paired (fun skipped afresh => Upheld skipped.1.node? ∧ Upheld afresh.1.node? ∧
        Draft.Level skipped.1 afresh.1)
      (draft.merge identify root fields payload)
      (draft.mergeAfresh identify root fields payload) := by
  unfold Draft.merge Draft.mergeAfresh
  cases payload with
  | object members =>
    have sincere := Sincere.ofPayload unnamed named coherent
    have start : InStep identify labels (Visit.ofPayload identify root fields (.object members))
        (sizeOf fields) (.ofDraft draft) (.ofDraft draft) [] :=
      ⟨.start upheld, ⟨rfl, .nil, rfl⟩, fun _ _ _ member => absurd member List.not_mem_nil⟩
    have within : Fields.visits true identify (Place.root root).site members fields ⊆
        Visit.ofPayload identify root fields (.object members) := List.subset_cons_self _ _
    -- The root need not be an entity, so what the payload brings to it is not tracked.
    refine (Fields.merge_advance sincere fields members known start within False.elim).bind ?_
    rintro walk more ⟨seen, done⟩
    have concerted := sincere.concerted done.tracked.accounted
    have upheld := done.tracked.upheld
    have level := Draft.level_applyAll done.follows.repeats upheld concerted
    have one := upheld.applyAll concerted.seemly
    have two := upheld.applyAll (concerted.mono done.follows.repeats.subset).seemly
    refine .ok ⟨one.collectOrphans, ?_, ?_⟩
    · show Upheld (more.draft.applyAll more.changes).collectOrphans.node?
      rw [done.follows.draft]
      exact two.collectOrphans
    · show Draft.Level _ (more.draft.applyAll more.changes).collectOrphans
      rw [done.follows.draft]
      exact level.collectOrphans one two
  | _ => exact .error _

end ResponseGraph
