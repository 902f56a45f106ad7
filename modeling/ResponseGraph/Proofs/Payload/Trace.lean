import ResponseGraph.Proofs.Basic
import ResponseGraph.Proofs.Draft.Links
import ResponseGraph.Proofs.Payload.Visits

/-!
The steps of a merge.

A walk together with what it has seen is a state, and `Walk.Step` is what can happen to
it.  A step makes the node of a field with arguments, brings the content of one position
to a site, or marks an entity.  A site is due when the object or list around it was seen,
so a walk goes from the outside to the inside.

A merge is a run of such steps (`Fields.merge_traced`).  It sees nothing but what the
selection and the payload determine, and all that they determine, except for the members
of entities that were marked with the same set before.
-/

namespace ResponseGraph

open Nodes

namespace Visit

/-- The visit was made.  An entity was marked with the set, whatever its members were
then. -/
def Seen (seen : List Visit) : Visit → Prop
  | .entered id set _ _ => ∃ fields members, .entered id set fields members ∈ seen
  | visit => visit ∈ seen

theorem seen_of_mem {seen : List Visit} {visit : Visit} (h : visit ∈ seen) : visit.Seen seen := by
  cases visit with
  | brought site content => exact h
  | entered id set fields members => exact ⟨fields, members, h⟩

theorem Seen.mono {seen more : List Visit} (h : seen ⊆ more) {visit : Visit}
    (made : visit.Seen seen) : visit.Seen more := by
  cases visit with
  | brought site content => exact h made
  | entered id set fields members =>
    obtain ⟨fields, members, member⟩ := made
    exact ⟨fields, members, h member⟩

end Visit

/-- All visits of a list were made. -/
def Walked (seen visits : List Visit) : Prop := ∀ visit ∈ visits, visit.Seen seen

namespace Walked

variable {seen more visits others : List Visit}

theorem nil : Walked seen [] := fun _ member => absurd member List.not_mem_nil

theorem mono (h : seen ⊆ more) (walked : Walked seen visits) : Walked more visits :=
  fun visit member => (walked visit member).mono h

theorem append (first : Walked seen visits) (second : Walked seen others) :
    Walked seen (visits ++ others) := fun visit member =>
  (List.mem_append.mp member).elim (first visit) (second visit)

theorem cons {visit : Visit} (here : visit.Seen seen) (rest : Walked seen visits) :
    Walked seen (visit :: visits) := fun other member => by
  rcases List.mem_cons.mp member with rfl | member
  · exact here
  · exact rest other member

theorem singleton {visit : Visit} (here : visit.Seen seen) : Walked seen [visit] := cons here nil

end Walked

namespace Walk

/-- The site is inside something that was seen. -/
inductive Due (walk : Walk) (seen : List Visit) : Site → Prop
  | member {site : Site} (name : String) (around : .brought site .object ∈ seen) :
    Due walk seen (site.step (.key name))
  | item {site : Site} {length : Nat} {index : Nat} (around : .brought site (.list length) ∈ seen)
    (inside : index < length) : Due walk seen (site.step (.index index))
  | value {site : Site} (name : String) {arguments : Arguments} {id : NodeId}
    (around : .brought site .object ∈ seen)
    (address : NodeId.parameterized site.container (site.step (.key name)).path arguments = .ok id)
    (linked : ⟨id, (site.step (.key name)).path⟩ ∈
      Nodes.links walk.draft.node? .outbound site.container) : Due walk seen (.root id)

/-- What bringing a list to a length does to a walk, by what was there. -/
inductive Fitted (walk : Walk) (place : Place) (previous : Option (List Value)) (length : Nat) :
    Walk → Prop
  | made (stored : previous = none) :
    Fitted walk place previous length (walk.write place (.list (Value.resize [] length)))
  | kept {items : List Value} (stored : previous = some items) (long : items.length = length) :
    Fitted walk place previous length walk
  | grown {items : List Value} (stored : previous = some items) (short : items.length < length) :
    Fitted walk place previous length (walk.write place (.list (Value.resize items length)))
  | cut {items : List Value} (stored : previous = some items) (long : length < items.length) :
    Fitted walk place previous length
      ((walk.write place (.list (Value.resize items length))).detachBelow place (some length))

theorem fit_eq_self {walk : Walk} {place : Place} {items : List Value} {length : Nat}
    (h : items.length = length) : walk.fit place (some items) length = walk := if_pos h

theorem fitted (walk : Walk) (place : Place) (previous : Option (List Value)) (length : Nat) :
    Fitted walk place previous length (walk.fit place previous length) := by
  cases previous with
  | none => exact .made rfl
  | some items =>
    rcases Nat.lt_trichotomy items.length length with short | long | long
    · have grows : walk.fit place (some items) length = _ :=
        (if_neg (Nat.ne_of_lt short)).trans (if_neg (Nat.lt_asymm short))
      rw [grows]
      exact .grown rfl short
    · rw [fit_eq_self long]
      exact .kept rfl long
    · have cuts : walk.fit place (some items) length = _ :=
        (if_neg (Nat.ne_of_gt long)).trans (if_pos long)
      rw [cuts]
      exact .cut rfl long

/-- How a walk takes in the content of one position. -/
inductive Brings (identify : Json → Option NodeId) (walk : Walk) (place : Place) :
    Content → Walk → Prop
  | leaf (payload : Json) : Brings identify walk place (.leaf payload) (walk.leaf place payload)
  /-- The entity that is stored will be unlinked. -/
  | unlink (stored : (entity? (walk.stored? place)).isSome) (unnamed : identify .null = none) :
    Brings identify walk place .null (walk.relink place none)
  | clear (stored : occupied (walk.stored? place))
    (inner : identify .null = none → entity? (walk.stored? place) = none) :
    Brings identify walk place .null (walk.clear place)
  | fill (stored : walk.stored? place = none) :
    Brings identify walk place .null (walk.write place .null)
  | keep (stored : walk.stored? place = some .null) : Brings identify walk place .null walk
  | object (noList : list? (walk.stored? place) = none)
    (noEntity : entity? (walk.stored? place) = none) : Brings identify walk place .object walk
  | list (length : Nat)
    (stored : list? (walk.stored? place) = none → occupied (walk.stored? place) = false) :
    Brings identify walk place (.list length) (walk.fit place (list? (walk.stored? place)) length)
  | refer {id : NodeId} {payload : Json} (named : identify payload = some id)
    (stored : entity? (walk.stored? place) = none → occupied (walk.stored? place) = false)
    (differs : entity? (walk.stored? place) ≠ some id) :
    Brings identify walk place (.entity id) (walk.relink place (some id))
  | same {id : NodeId} {payload : Json} (named : identify payload = some id)
    (stored : entity? (walk.stored? place) = some id) :
    Brings identify walk place (.entity id) walk

/-- A node for the value of a field with arguments, linked from its place. -/
def grow (walk : Walk) (place : Place) (id : NodeId) : Walk :=
  let node := (Node.bare .parameterized).addLink .inbound ⟨place.container, place.path⟩
  { walk with
    draft := (walk.draft.put id node).update place.container fun container =>
      container.addLink .outbound ⟨id, place.path⟩ }

/-- The entity is marked as merged with the set. -/
def mark (walk : Walk) (id : NodeId) (set : Nat) : Walk :=
  { walk with visited := (id, set) :: walk.visited }

inductive Step (identify : Json → Option NodeId) (walk : Walk) (seen : List Visit) :
    Walk → List Visit → Prop
  | warned (warnings : List String) : Step identify walk seen { walk with warnings } seen
  | grown {place : Place} (name : String) {arguments : Arguments} {id : NodeId}
    (around : .brought place.site .object ∈ seen)
    (address :
      NodeId.parameterized place.container (place.step (.key name)).path arguments = .ok id)
    (fresh : ⟨id, (place.step (.key name)).path⟩ ∉
      Nodes.links walk.draft.node? .outbound place.container) :
    Step identify walk seen (walk.grow (place.step (.key name)) id) seen
  | brought {place : Place} {content : Content} {walk' : Walk} (due : Due walk seen place.site)
    (brings : Brings identify walk place content walk') :
    Step identify walk seen walk' (.brought place.site content :: seen)
  | entered {site : Site} {id : NodeId} (set : Nat) (fields : Fields)
    (members : List (String × Json)) (around : .brought site (.entity id) ∈ seen) :
    Step identify walk seen (walk.mark id set)
      (.brought (.root id) .object :: .entered id set fields members :: seen)

inductive Run (identify : Json → Option NodeId) (walk : Walk) (seen : List Visit) :
    Walk → List Visit → Prop
  | refl : Run identify walk seen walk seen
  | tail {middle walk' : Walk} {between seen' : List Visit}
    (run : Run identify walk seen middle between)
    (step : Step identify middle between walk' seen') :
    Run identify walk seen walk' seen'

variable {identify : Json → Option NodeId} {walk middle walk' : Walk}
  {seen between seen' : List Visit}

theorem Step.run (h : Step identify walk seen walk' seen') : Run identify walk seen walk' seen' :=
  .tail .refl h

theorem Run.trans (first : Run identify walk seen middle between)
    (second : Run identify middle between walk' seen') : Run identify walk seen walk' seen' := by
  induction second with
  | refl => exact first
  | tail _ step ih => exact .tail ih step

/-- What every step preserves holds after a run. -/
theorem Run.preserves {motive : Walk → List Visit → Prop}
    (step : ∀ {walk seen walk' seen'}, Step identify walk seen walk' seen' → motive walk seen →
      motive walk' seen')
    (run : Run identify walk seen walk' seen') (start : motive walk seen) : motive walk' seen' := by
  induction run with
  | refl => exact start
  | tail _ last ih => exact step last ih

theorem Step.seen_subset (h : Step identify walk seen walk' seen') : seen ⊆ seen' := by
  cases h with
  | warned | grown => exact List.Subset.refl _
  | brought => exact List.subset_cons_self _ _
  | entered => exact List.subset_cons_of_subset _ (List.subset_cons_self _ _)

theorem Run.seen_subset (h : Run identify walk seen walk' seen') : seen ⊆ seen' := by
  induction h with
  | refl => exact List.Subset.refl _
  | tail _ step ih => exact List.Subset.trans ih step.seen_subset

theorem Fitted.visited {place : Place} {previous : Option (List Value)} {length : Nat}
    (h : Fitted walk place previous length walk') : walk'.visited = walk.visited := by
  cases h <;> rfl

theorem Brings.visited {place : Place} {content : Content}
    (h : Brings identify walk place content walk') : walk'.visited = walk.visited := by
  cases h with
  | leaf payload =>
    unfold Walk.leaf
    split <;> rfl
  | list length => exact (fitted ..).visited
  | _ => rfl

/-- Marked entities were seen as such. -/
def Marked (walk : Walk) (seen : List Visit) : Prop :=
  ∀ id set, (id, set) ∈ walk.visited → .brought (.root id) .object ∈ seen ∧
    ∃ fields members, .entered id set fields members ∈ seen

theorem Step.marked (h : Step identify walk seen walk' seen') (marked : walk.Marked seen) :
    walk'.Marked seen' := by
  have kept := h.seen_subset
  intro id set member
  have old : (id, set) ∈ walk.visited → .brought (.root id) .object ∈ seen' ∧
      ∃ fields members, .entered id set fields members ∈ seen' := by
    intro before
    obtain ⟨opened, fields, members, inside⟩ := marked id set before
    exact ⟨kept opened, fields, members, kept inside⟩
  cases h with
  | warned | grown => exact old member
  | brought due brings => exact old (brings.visited ▸ member)
  | entered set fields members around =>
    rcases List.mem_cons.mp member with e | before
    · cases e
      exact ⟨List.mem_cons_self, fields, members, List.mem_cons_of_mem _ List.mem_cons_self⟩
    · exact old before

theorem Run.marked (h : Run identify walk seen walk' seen') (marked : walk.Marked seen) :
    walk'.Marked seen' :=
  h.preserves (motive := Marked) Step.marked marked

/-! ## What is stored -/

theorem entity?_eq_some {previous : Option Value} {id : NodeId} :
    entity? previous = some id ↔ previous = some (.reference id) := by
  unfold entity?
  constructor
  · intro h
    obtain ⟨value, rfl, reference⟩ := Option.bind_eq_some_iff.mp h
    cases value <;> cases reference
    rfl
  · intro e
    subst e
    rfl

theorem list?_eq_some {previous : Option Value} {items : List Value} :
    list? previous = some items ↔ previous = some (.list items) := by
  unfold list?
  constructor
  · intro h
    obtain ⟨value, rfl, list⟩ := Option.bind_eq_some_iff.mp h
    cases value <;> cases list
    rfl
  · intro e
    subst e
    rfl

theorem occupied_eq_false {previous : Option Value} :
    occupied previous = false ↔ previous = none ∨ previous = some .null := by
  cases previous with
  | none => simp [occupied]
  | some value => cases value <;> simp [occupied, Value.isNull]

/-! ## Merging is a run -/

theorem brings_null {place : Place}
    (h : walk.null identify place (walk.stored? place) = .ok walk') :
    Brings identify walk place .null walk' := by
  unfold Walk.null at h
  split at h
  · next old unnamed stored =>
    cases h
    exact .unlink (by rw [stored]; rfl) unnamed
  · next unnamed stored =>
    split at h
    · next full =>
      cases h
      exact .clear full fun _ => stored
    · next empty =>
      rw [Bool.not_eq_true, occupied_eq_false] at empty
      split at h
      · next missing =>
        cases h
        exact .fill (Option.isNone_iff_eq_none.mp missing)
      · next present =>
        cases h
        refine .keep (empty.resolve_left fun missing => present ?_)
        rw [missing, Option.isNone_none]
  · next id old named stored =>
    split at h
    · cases h
      rw [entity?_eq_some] at stored
      refine .clear ?_ fun unnamed => ?_
      · rw [stored]
        rfl
      · rw [named] at unnamed
        cases unnamed
    · cases h
  · split at h <;> cases h

/-- The place is to refer to the entity, unless it does. -/
def refer (walk : Walk) (place : Place) (previous : Option Value)
    (members : List (String × Json)) (id : NodeId) : Except Error Walk :=
  match entity? previous with
  | none =>
    if occupied previous then
      .error (place.misfit "Unsupported transition from a non-entity value to an entity"
        (.object members))
    else .ok (walk.relink place (some id))
  | some old => .ok (if id = old then walk else walk.relink place (some id))

theorem object_of_unnamed {place : Place} {set : Nat} {previous : Option Value}
    {members : List (String × Json)} (unnamed : identify (.object members) = none) :
    walk.object identify set place previous members =
      if (entity? previous).isSome then
        .error (place.misfit "Unsupported transition from an entity to a non-entity value"
          (.object members))
      else .ok (walk, some place) := by
  unfold object
  dsimp only
  rw [unnamed]
  cases entity? previous <;> rfl

theorem object_of_named {place : Place} {set : Nat} {previous : Option Value}
    {members : List (String × Json)} {id : NodeId} (named : identify (.object members) = some id) :
    walk.object identify set place previous members =
      (walk.refer place previous members id).map fun walk => walk.visit place set id := by
  unfold object refer
  dsimp only
  rw [named]
  cases entity? previous with
  | none =>
    dsimp only
    split <;> rfl
  | some old => rfl

/-- Where no list is stored, an object without id is merged at its place. -/
theorem value_object_of_unnamed {set : Nat} {descend : Descent} {place : Place}
    {members : List (String × Json)} (unnamed : identify (.object members) = none)
    (noList : list? (walk.stored? place) = none) :
    value identify set descend place (.object members) walk =
      if (entity? (walk.stored? place)).isSome then
        .error (place.misfit "Unsupported transition from an entity to a non-entity value"
          (.object members))
      else descend place members walk := by
  rw [value]
  dsimp only
  rw [noList, if_neg (by simp), object_of_unnamed unnamed]
  split <;> rfl

/-- Where no list is stored, an entity is referred to and merged unless it was met. -/
theorem value_object_of_named {set : Nat} {descend : Descent} {place : Place}
    {members : List (String × Json)} {id : NodeId} (named : identify (.object members) = some id)
    (noList : list? (walk.stored? place) = none) :
    value identify set descend place (.object members) walk =
      (walk.refer place (walk.stored? place) members id) >>= fun walk =>
        (walk.visit place set id).2.elim (.ok (walk.visit place set id).1)
          fun below => descend below members (walk.visit place set id).1 := by
  rw [value]
  dsimp only
  rw [noList, if_neg (by simp), object_of_named named]
  cases walk.refer place (walk.stored? place) members id with
  | error e => rfl
  | ok walk =>
    show Except.bind (.ok (walk.visit place set id)) _ = (walk.visit place set id).2.elim _ _
    generalize walk.visit place set id = visited
    obtain ⟨entering, none | below⟩ := visited <;> rfl

theorem brings_of_refer {place : Place} {members : List (String × Json)} {id : NodeId}
    (named : identify (.object members) = some id)
    (referred : walk.refer place (walk.stored? place) members id = .ok walk') :
    Brings identify walk place (.entity id) walk' := by
  unfold refer at referred
  cases stored : entity? (walk.stored? place) with
  | none =>
    rw [stored] at referred
    dsimp only at referred
    split at referred
    · cases referred
    · next free =>
      cases referred
      refine .refer named (fun _ => Bool.eq_false_iff.mpr free) ?_
      rw [stored]
      exact Option.some_ne_none id ∘ Eq.symm
  | some old =>
    rw [stored] at referred
    dsimp only at referred
    split at referred
    · next e =>
      cases referred
      exact .same named (by rw [stored, e])
    · next other =>
      cases referred
      refine .refer named (fun free => ?_) fun same => other ?_
      · rw [stored] at free
        cases free
      · rw [stored] at same
        exact (Option.some.inj same).symm

theorem brings_object {place : Place} {set : Nat} {members : List (String × Json)}
    {below? : Option Place} (noList : list? (walk.stored? place) = none)
    (h : walk.object identify set place (walk.stored? place) members = .ok (walk', below?)) :
    (identify (.object members) = none ∧ Brings identify walk place .object walk ∧
        walk' = walk ∧ below? = some place) ∨
      ∃ id middle, identify (.object members) = some id ∧
        Brings identify walk place (.entity id) middle ∧
        (walk', below?) = middle.visit place set id := by
  cases named : identify (.object members) with
  | none =>
    rw [object_of_unnamed named] at h
    split at h
    · cases h
    · next inner =>
      cases h
      exact Or.inl ⟨rfl, .object noList (Option.not_isSome_iff_eq_none.mp inner), rfl, rfl⟩
  | some id =>
    rw [object_of_named named] at h
    obtain ⟨middle, referred, visit⟩ := exists_of_map_eq_ok h
    exact Or.inr ⟨id, middle, rfl, brings_of_refer named referred, visit.symm⟩

theorem visit_cases {place : Place} {set : Nat} {id : NodeId} {below? : Option Place}
    (h : (walk', below?) = walk.visit place set id) :
    ((id, set) ∈ walk.visited ∧ walk' = walk ∧ below? = none) ∨
      ((id, set) ∉ walk.visited ∧ walk' = walk.mark id set ∧ below? = some (place.enter id)) := by
  unfold Walk.visit at h
  split at h
  · next marked =>
    cases h
    exact Or.inl ⟨List.contains_iff_mem.mp marked, rfl, rfl⟩
  · next fresh =>
    cases h
    exact Or.inr ⟨fun marked => fresh (List.contains_iff_mem.mpr marked), rfl, rfl⟩

theorem any_hasLink_iff {nodes : Nodes} {id : NodeId} {direction : Direction} {link : Link} :
    ((nodes id).any fun node => node.hasLink direction link) = true ↔
      link ∈ Nodes.links nodes direction id := by
  unfold Nodes.links
  cases nodes id with
  | none => simp
  | some node => exact Node.hasLink_iff _ _ _

/-- The node of a field with arguments is made unless it is linked. -/
theorem parameterized_cases {place here : Place} {arguments : Arguments}
    (h : walk.parameterized place arguments = .ok (walk', here)) :
    ∃ id, NodeId.parameterized place.container place.path arguments = .ok id ∧
      here = place.enter id ∧
      ((walk' = walk ∧ ⟨id, place.path⟩ ∈ Nodes.links walk.draft.node? .outbound place.container) ∨
        (walk' = walk.grow place id ∧
          ⟨id, place.path⟩ ∉ Nodes.links walk.draft.node? .outbound place.container)) := by
  unfold Walk.parameterized at h
  split at h
  · cases h
  · next id address =>
    refine ⟨id, address, ?_⟩
    dsimp only at h
    split at h
    · next has =>
      cases h
      exact ⟨rfl, Or.inl ⟨rfl, any_hasLink_iff.mp has⟩⟩
    · next fresh =>
      cases h
      exact ⟨rfl, Or.inr ⟨rfl, fun member => fresh (any_hasLink_iff.mpr member)⟩⟩

theorem parameterized_of_linked {place : Place} {arguments : Arguments} {id : NodeId}
    (address : NodeId.parameterized place.container place.path arguments = .ok id)
    (linked : ⟨id, place.path⟩ ∈ Nodes.links walk.draft.node? .outbound place.container) :
    walk.parameterized place arguments = .ok (walk, place.enter id) := by
  unfold Walk.parameterized
  rw [address]
  exact if_pos (any_hasLink_iff.mpr linked)

/-- The new node is linked. -/
theorem mem_links_grow (walk : Walk) (place : Place) (id : NodeId) :
    ⟨id, place.path⟩ ∈ Nodes.links (walk.grow place id).draft.node? .outbound place.container := by
  unfold grow
  dsimp only
  rw [Draft.nodes_update, mem_links_put_addLink]
  exact Or.inr ⟨rfl, rfl, rfl⟩

end Walk

namespace Walk

variable {identify : Json → Option NodeId} {walk walk' : Walk} {seen : List Visit}

theorem member_eq (walk : Walk) (place : Place) (name : String) (members : List (String × Json)) :
    ∃ warnings, walk.member place name members =
      ({ walk with warnings }, payloadOf members name) := by
  unfold member payloadOf
  cases Entries.get? name members with
  | none => exact ⟨_, rfl⟩
  | some payload => exact ⟨walk.warnings, rfl⟩

/-- The place of a field is due, once the node for its value is there. -/
theorem field_traced {place here : Place} {name : String} {head : FieldHead}
    (around : .brought place.site .object ∈ seen)
    (h : walk.field place name head = .ok (walk', here)) :
    head.site place.site name = .ok here.site ∧ Run identify walk seen walk' seen ∧
      Due walk' seen here.site := by
  unfold field at h
  unfold FieldHead.site
  dsimp only at h ⊢
  cases given : head.arguments with
  | none =>
    rw [given] at h
    cases h
    exact ⟨rfl, .refl, .member _ around⟩
  | some arguments =>
    rw [given] at h
    obtain ⟨id, address, rfl, made⟩ := parameterized_cases h
    have site : (NodeId.parameterized
        (place.site.step (.key (head.schemaName.getD name))).container
        (place.site.step (.key (head.schemaName.getD name))).path arguments).map Site.root =
          .ok (place.enter id).site := congrArg (Except.map Site.root) address
    refine ⟨site, ?_⟩
    rcases made with ⟨rfl, linked⟩ | ⟨rfl, fresh⟩
    · exact ⟨.refl, .value _ around address linked⟩
    · exact ⟨(Step.grown _ around address fresh).run,
        .value _ around address (mem_links_grow walk (place.step (.key _)) id)⟩

/-- The place of a field is found as it is, if the node for its value is linked already. -/
theorem field_of_linked {place : Place} {name : String} {head : FieldHead} {site : Site}
    (located : head.site place.site name = .ok site)
    (linked : ∀ id path arguments, site = .root id →
      NodeId.parameterized place.container path arguments = .ok id →
      ⟨id, path⟩ ∈ Nodes.links walk.draft.node? .outbound place.container) :
    ∃ here, walk.field place name head = .ok (walk, here) ∧ here.site = site := by
  unfold field
  unfold FieldHead.site at located
  dsimp only at located ⊢
  cases given : head.arguments with
  | none =>
    rw [given] at located
    cases located
    exact ⟨_, rfl, rfl⟩
  | some arguments =>
    rw [given] at located
    obtain ⟨id, address, rfl⟩ := exists_of_map_eq_ok located
    exact ⟨_, parameterized_of_linked address (linked id _ arguments rfl address), rfl⟩

/-- The place of a field is found without marking anything. -/
theorem field_visited {place here : Place} {name : String} {head : FieldHead}
    (h : walk.field place name head = .ok (walk', here)) : walk'.visited = walk.visited := by
  unfold field at h
  dsimp only at h
  split at h
  · cases h
    rfl
  · obtain ⟨id, -, -, ⟨rfl, -⟩ | ⟨rfl, -⟩⟩ := parameterized_cases h <;> rfl

end Walk

/-- A run that sees nothing but what is listed, and all that is listed for the entities
that it marks. -/
structure Traced (identify : Json → Option NodeId) (listed : List Visit) (walk : Walk)
    (seen : List Visit) (walk' : Walk) (seen' : List Visit) : Prop where
  run : Walk.Run identify walk seen walk' seen'
  within : ∀ visit ∈ seen', visit ∈ seen ∨ visit ∈ listed
  done : ∀ id set fields members, .entered id set fields members ∈ seen' →
    .entered id set fields members ∈ seen ∨
      Walked seen' (Fields.visits false identify (.root id) members fields)

namespace Traced

open Walk

variable {identify : Json → Option NodeId} {walk middle walk' : Walk}
  {listed more seen between seen' : List Visit}

theorem silent (run : Run identify walk seen walk' seen) :
    Traced identify [] walk seen walk' seen :=
  ⟨run, fun _ member => Or.inl member, fun _ _ _ _ member => Or.inl member⟩

theorem brought {place : Place} {content : Content} (due : Due walk seen place.site)
    (brings : Brings identify walk place content walk') :
    Traced identify [.brought place.site content] walk seen walk'
      (.brought place.site content :: seen) := by
  refine ⟨(Step.brought due brings).run, ?_, ?_⟩
  · intro visit member
    exact (List.mem_cons.mp member).symm.imp_right fun e => List.mem_singleton.mpr e
  · intro id set fields members member
    rcases List.mem_cons.mp member with e | member
    · cases e
    · exact Or.inl member

theorem trans (first : Traced identify listed walk seen middle between)
    (second : Traced identify more middle between walk' seen') :
    Traced identify (listed ++ more) walk seen walk' seen' := by
  refine ⟨first.run.trans second.run, ?_, ?_⟩
  · intro visit member
    rw [List.mem_append]
    rcases second.within visit member with old | new
    · exact (first.within visit old).imp_right Or.inl
    · exact Or.inr (Or.inr new)
  · intro id set fields members member
    rcases second.done id set fields members member with old | walked
    · exact (first.done id set fields members old).imp_right (Walked.mono second.run.seen_subset)
    · exact Or.inr walked

end Traced

namespace Walk

/-- A successful merge is traced, and it makes the visits that do not go below
entities. -/
def Traces (identify : Json → Option NodeId) (listed visits : List Visit) (walk : Walk)
    (seen : List Visit) (walk' : Walk) : Prop :=
  ∃ seen', Traced identify listed walk seen walk' seen' ∧ Walked seen' visits

variable {identify : Json → Option NodeId} {walk middle walk' : Walk}
  {listed more visits others seen between : List Visit}

theorem Traces.trans (first : Traced identify listed walk seen middle between)
    (made : Walked between visits) (second : Traces identify more others middle between walk') :
    Traces identify (listed ++ more) (visits ++ others) walk seen walk' := by
  obtain ⟨seen', traced, walked⟩ := second
  exact ⟨seen', first.trans traced, (made.mono traced.run.seen_subset).append walked⟩

/-! ## What a payload brings -/

theorem brings_of_null {set : Nat} {descend : Descent} {place : Place}
    (h : value identify set descend place .null walk = .ok walk') :
    Brings identify walk place .null walk' := by
  rw [value] at h
  split at h
  · next stored =>
    cases h
    obtain ⟨items, list⟩ := Option.isSome_iff_exists.mp stored
    rw [list?_eq_some] at list
    refine .clear ?_ fun _ => ?_
    · rw [list]
      rfl
    · rw [list]
      rfl
  · exact brings_null h

/-- An object is merged at its place, or it is an entity and merged unless it is marked. -/
theorem brings_of_object {set : Nat} {descend : Descent} {place : Place}
    {members : List (String × Json)}
    (h : value identify set descend place (.object members) walk = .ok walk') :
    (identify (.object members) = none ∧ Brings identify walk place .object walk ∧
        descend place members walk = .ok walk') ∨
      ∃ id middle entering below?, identify (.object members) = some id ∧
        Brings identify walk place (.entity id) middle ∧
        (entering, below?) = middle.visit place set id ∧
        below?.elim (.ok entering) (fun below => descend below members entering) = .ok walk' := by
  rw [value] at h
  split at h
  · cases h
  · next noList =>
    rw [Option.not_isSome_iff_eq_none] at noList
    obtain ⟨⟨entering, below?⟩, result, h⟩ := exists_of_bind_eq_ok h
    rcases brings_object noList result with ⟨unnamed, brings, rfl, rfl⟩ |
      ⟨id, middle, named, brings, visit⟩
    · exact Or.inl ⟨unnamed, brings, h⟩
    · refine Or.inr ⟨id, middle, entering, below?, named, brings, visit, ?_⟩
      cases below? <;> exact h

theorem brings_of_array {set : Nat} {descend : Descent} {place : Place} {payloads : List Json}
    (h : value identify set descend place (.array payloads) walk = .ok walk') :
    ∃ middle, Brings identify walk place (.list payloads.length) middle ∧
      items identify set descend place 0 payloads middle = .ok walk' := by
  rw [value] at h
  split at h
  · cases h
  · next stored =>
    refine ⟨_, .list _ fun noList => ?_, h⟩
    rw [noList, Option.isNone_none, Bool.true_and, Bool.not_eq_true] at stored
    exact stored

/-- What a descent has to do at an object that was seen. -/
def Descends (identify : Json → Option NodeId) (fields : Fields) (descend : Descent) : Prop :=
  ∀ (place : Place) (members : List (String × Json)) (walk walk' : Walk) (seen : List Visit),
    descend place members walk = .ok walk' → .brought place.site .object ∈ seen →
    walk.Marked seen →
    Traces identify (Fields.visits true identify place.site members fields)
      (Fields.visits false identify place.site members fields) walk seen walk'

/-- The members of an entity are walked unless the entity is marked. -/
theorem traces_entity {fields : Fields} {descend : Descent}
    (descends : Descends identify fields descend) {place : Place} {set : Nat} {id : NodeId}
    {members : List (String × Json)} {below? : Option Place} {entering : Walk}
    (due : Due walk seen place.site) (marked : walk.Marked seen)
    (brings : Brings identify walk place (.entity id) middle)
    (visit : (entering, below?) = middle.visit place set id)
    (below : below?.elim (.ok entering) (fun below => descend below members entering) = .ok walk') :
    Traces identify
      (.brought place.site (.entity id) ::
        Visit.ofEntity true set fields (Fields.below true identify fields) id members)
      (.brought place.site (.entity id) ::
        Visit.ofEntity false set fields (Fields.below false identify fields)
          id members) walk seen walk' := by
  have here := Traced.brought due brings
  unfold Visit.ofEntity
  rcases visit_cases visit with ⟨before, rfl, rfl⟩ | ⟨-, rfl, rfl⟩
  · cases below
    rw [brings.visited] at before
    obtain ⟨opened, entered⟩ := marked id set before
    refine ⟨_, ⟨here.run, fun visit member => ?_, here.done⟩, ?_⟩
    · exact (here.within visit member).imp_right fun e =>
        List.mem_cons.mpr (Or.inl (List.mem_singleton.mp e))
    · refine .cons (Visit.seen_of_mem List.mem_cons_self) (.cons ?_ (.singleton ?_))
      · exact Visit.seen_of_mem (List.mem_cons_of_mem _ opened)
      · obtain ⟨fields, members, inside⟩ := entered
        exact ⟨fields, members, List.mem_cons_of_mem _ inside⟩
  · have enter : Step identify middle (.brought place.site (.entity id) :: seen)
        (middle.mark id set) _ := .entered set fields members List.mem_cons_self
    obtain ⟨seen', traced, walked⟩ := descends (place.enter id) _ _ _ _ below
      List.mem_cons_self (enter.marked (here.run.marked marked))
    have kept := traced.run.seen_subset
    refine ⟨seen', ⟨(here.run.trans enter.run).trans traced.run, ?_, ?_⟩, ?_⟩
    · intro visit member
      simp only [List.mem_cons, if_pos]
      rcases traced.within visit member with old | new
      · simp only [List.mem_cons] at old
        rcases old with rfl | rfl | rfl | old
        · exact Or.inr (Or.inr (Or.inl rfl))
        · exact Or.inr (Or.inr (Or.inr (Or.inl rfl)))
        · exact Or.inr (Or.inl rfl)
        · exact Or.inl old
      · exact Or.inr (Or.inr (Or.inr (Or.inr new)))
    · intro other label found names member
      rcases traced.done other label found names member with old | done
      · simp only [List.mem_cons, reduceCtorEq, false_or] at old
        rcases old with e | old
        · cases e
          exact Or.inr walked
        · exact Or.inl old
      · exact Or.inr done
    · refine .cons (Visit.seen_of_mem (kept ?_)) (.cons (Visit.seen_of_mem (kept ?_))
        (.singleton (Visit.seen_of_mem (kept ?_))))
      · exact List.mem_cons_of_mem _ (List.mem_cons_of_mem _ List.mem_cons_self)
      · exact List.mem_cons_self
      · exact List.mem_cons_of_mem _ List.mem_cons_self

mutual
theorem value_traces {fields : Fields} {descend : Descent} {set : Nat}
    (descends : Descends identify fields descend) {place : Place} : (payload : Json) →
    {walk walk' : Walk} → {seen : List Visit} →
    value identify set descend place payload walk = .ok walk' →
    Due walk seen place.site → walk.Marked seen →
    Traces identify
      (Visit.ofValue true identify set fields
        (Fields.below true identify fields) place.site payload)
      (Visit.ofValue false identify set fields
        (Fields.below false identify fields) place.site payload)
      walk seen walk'
  | .null, walk, walk', seen, h, due, marked => by
    exact ⟨_, Traced.brought due (brings_of_null h),
      .singleton (Visit.seen_of_mem List.mem_cons_self)⟩
  | .bool _, _, _, _, h, _, _ | .number _, _, _, _, h, _, _ | .string _, _, _, _, h, _, _ => by
    rw [value] at h
    · cases h
    all_goals simp
  | .object members, walk, walk', seen, h, due, marked => by
    unfold Visit.ofValue
    rcases brings_of_object h with ⟨unnamed, brings, below⟩ |
      ⟨id, middle, entering, below?, named, brings, visit, below⟩
    · rw [unnamed]
      have here := Traced.brought due brings
      exact Traces.trans here (.singleton (Visit.seen_of_mem List.mem_cons_self))
        (descends _ _ _ _ _ below List.mem_cons_self (here.run.marked marked))
    · rw [named]
      exact traces_entity descends due marked brings visit below
  | .array payloads, walk, walk', seen, h, due, marked => by
    obtain ⟨middle, brings, h⟩ := brings_of_array h
    have here := Traced.brought due brings
    unfold Visit.ofValue
    exact Traces.trans here (.singleton (Visit.seen_of_mem List.mem_cons_self))
      (items_traces descends payloads h (Nat.zero_add _) List.mem_cons_self
        (here.run.marked marked))

theorem items_traces {fields : Fields} {descend : Descent} {set : Nat}
    (descends : Descends identify fields descend) {place : Place} {index length : Nat} :
    (payloads : List Json) → {walk walk' : Walk} → {seen : List Visit} →
    items identify set descend place index payloads walk = .ok walk' →
    index + payloads.length = length → .brought place.site (.list length) ∈ seen →
    walk.Marked seen →
    Traces identify
      (Visit.ofItems true identify set fields (Fields.below true identify fields) place.site index
          payloads)
      (Visit.ofItems false identify set fields (Fields.below false identify fields) place.site index
          payloads)
      walk seen walk'
  | [], walk, walk', seen, h, _, _, _ => by
    cases h
    exact ⟨seen, .silent .refl, .nil⟩
  | payload :: rest, walk, walk', seen, h, total, around, marked => by
    rw [items] at h
    rw [List.length_cons] at total
    obtain ⟨middle, first, h⟩ := exists_of_bind_eq_ok h
    have due : Due walk seen (place.step (.index index)).site := .item around (by omega)
    obtain ⟨between, traced, walked⟩ := value_traces descends payload first due marked
    unfold Visit.ofItems
    exact Traces.trans traced walked
      (items_traces descends rest h (by omega) (traced.run.seen_subset around)
        (traced.run.marked marked))
end

end Walk

mutual
theorem Field.merge_traces {identify : Json → Option NodeId} {place : Place} {payload : Json} :
    (field : Field) → {walk walk' : Walk} → {seen : List Visit} →
    Field.merge identify place payload field walk = .ok walk' → Walk.Due walk seen place.site →
    walk.Marked seen →
    Walk.Traces identify (Field.visits true identify place.site payload field)
      (Field.visits false identify place.site payload field) walk seen walk'
  | .leaf _ _, walk, walk', seen, h, due, marked => by
    cases h
    exact ⟨_, Traced.brought due (.leaf payload), .singleton (Visit.seen_of_mem List.mem_cons_self)⟩
  | .composite _ _ _ set fields, walk, walk', seen, h, due, marked =>
    have descends : Walk.Descends identify fields _ :=
      fun _ _ _ _ _ merged opened marked => Fields.merge_traces fields merged opened marked
    Walk.value_traces descends payload h due marked

theorem Fields.merge_traces {identify : Json → Option NodeId} {place : Place}
    {members : List (String × Json)} : (fields : Fields) → {walk walk' : Walk} →
    {seen : List Visit} → Fields.merge identify place members fields walk = .ok walk' →
    .brought place.site .object ∈ seen → walk.Marked seen →
    Walk.Traces identify (Fields.visits true identify place.site members fields)
      (Fields.visits false identify place.site members fields) walk seen walk'
  | [], walk, walk', seen, h, _, _ => by
    cases h
    exact ⟨seen, .silent .refl, .nil⟩
  | (name, field) :: rest, walk, walk', seen, h, opened, marked => by
    rw [Fields.merge] at h
    unfold Fields.visits
    split at h
    · next excluded =>
      rw [if_pos excluded, if_pos excluded]
      exact Fields.merge_traces rest h opened marked
    · next included =>
      rw [if_neg included, if_neg included]
      obtain ⟨warnings, selected⟩ := walk.member_eq place name members
      rw [selected] at h
      obtain ⟨⟨grown, here⟩, located, h⟩ := exists_of_bind_eq_ok h
      obtain ⟨middle, first, h⟩ := exists_of_bind_eq_ok h
      have warned : Walk.Step identify walk seen { walk with warnings } seen := .warned warnings
      obtain ⟨site, run, due⟩ := Walk.field_traced opened located
      have silent := warned.run.trans run
      obtain ⟨between, traced, walked⟩ :=
        Field.merge_traces field first due (silent.marked marked)
      have whole := (Traced.silent silent).trans traced
      rw [site]
      exact Walk.Traces.trans whole walked
        (Fields.merge_traces rest h (whole.run.seen_subset opened) (whole.run.marked marked))
end

/-- A walk over the members of a payload goes from its root.  All that it sees are positions of
the payload. -/
theorem Fields.traced_of_merge {identify : Json → Option NodeId} {root : NodeId} {fields : Fields}
    {members : List (String × Json)} {draft : Draft} {walk : Walk}
    (h : Fields.merge identify (.root root) members fields (.ofDraft draft) = .ok walk) :
    ∃ seen, Traced identify (Visit.ofPayload identify root fields (.object members))
        (.ofDraft draft) [.brought (.root root) .object] walk seen ∧
      seen ⊆ Visit.ofPayload identify root fields (.object members) ∧
      Walked seen (Fields.visits false identify (.root root) members fields) := by
  have unmarked : (Walk.ofDraft draft).Marked [.brought (.root root) .object] :=
    fun _ _ member => absurd member List.not_mem_nil
  obtain ⟨seen, traced, walked⟩ := Fields.merge_traces fields h
    (List.mem_singleton.mpr rfl) unmarked
  have within :
      ∀ visit ∈ seen, visit ∈ Visit.ofPayload identify root fields (.object members) := by
    intro visit member
    rcases traced.within visit member with start | inside
    · rw [List.mem_singleton.mp start]
      exact List.mem_cons_self
    · exact List.mem_cons_of_mem _ inside
  exact ⟨seen, ⟨traced.run, fun visit member => Or.inr (within visit member), traced.done⟩,
    within, walked⟩

/-- A successful merge walks from the root of the payload and finishes.  All that it sees
are positions of the payload. -/
theorem Draft.merge_traced {identify : Json → Option NodeId} {root : NodeId} {fields : Fields}
    {payload : Json} {draft draft' : Draft} {warnings : List String}
    (h : draft.merge identify root fields payload = .ok (draft', warnings)) :
    ∃ members walk seen, payload = .object members ∧ draft' = walk.finish ∧
      Traced identify (Visit.ofPayload identify root fields payload) (.ofDraft draft)
        [.brought (.root root) .object] walk seen ∧
      seen ⊆ Visit.ofPayload identify root fields payload ∧
      Walked seen (Fields.visits false identify (.root root) members fields) := by
  unfold Draft.merge at h
  split at h
  · next members =>
    obtain ⟨walk, merged, h⟩ := exists_of_bind_eq_ok h
    cases h
    obtain ⟨seen, traced, within, walked⟩ := Fields.traced_of_merge merged
    exact ⟨members, walk, seen, rfl, rfl, traced, within, walked⟩
  · cases h

end ResponseGraph
