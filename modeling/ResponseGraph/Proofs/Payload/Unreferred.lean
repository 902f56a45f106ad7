import ResponseGraph.Proofs.Payload.Moored

/-!
Roots that nothing refers to.

No node is marked as a root.  A merge keeps the node that it is rooted at for the one reason that
nothing takes it for an orphan, and only a node that was referred to can become one.  So if
neither the graph nor the payload refers to the root, whatever was stored in it is still there
after the collection.  Nothing is asked of the nodes here, and nothing of the payload but that
the merge succeeds.
-/

namespace ResponseGraph

open Nodes NodeId

namespace Visit

/-- The payload refers to the node here: it brings an entity with this id, or an object with a
field whose value has this address. -/
def Refers (id : NodeId) : Visit → Prop
  | .brought _ (.entity other) => other = id
  | .brought site .object => ∃ name, IsAddress site.container (site.step (.key name)).path id
  | _ => False

/-- The payload brings a value to a place in the node. -/
def StoresIn (id : NodeId) : Visit → Prop
  | .brought _ .object => False
  | .brought site _ => site.container = id
  | .entered .. => False

instance (id : NodeId) : (visit : Visit) → Decidable (visit.StoresIn id)
  | .brought _ .object | .entered .. => inferInstanceAs (Decidable False)
  | .brought site (.leaf _) | .brought site .null | .brought site (.list _)
  | .brought site (.entity _) | .brought site .misfit =>
    inferInstanceAs (Decidable (site.container = id))

theorem storesIn_brought {id : NodeId} {site : Site} {content : Content} :
    (Visit.brought site content).StoresIn id ↔ site.container = id ∧ content ≠ .object := by
  cases content <;> simp [StoresIn]

/-- Nowhere does the payload refer to the node. -/
def Unreferred (id : NodeId) (visits : List Visit) : Prop := ∀ visit ∈ visits, ¬ visit.Refers id

theorem Unreferred.mono {id : NodeId} {visits more : List Visit} (h : Unreferred id more)
    (subset : visits ⊆ more) : Unreferred id visits := fun visit member => h visit (subset member)

end Visit

open Visit

/-! ## Below entities -/

/-- Where nothing refers to the root, what is stored in it comes from the fields of the root
itself.  All other positions are in nodes that the payload refers to. -/
def Visit.Own (root : NodeId) (site : Site) (all own : List Visit) : Prop :=
  Unreferred root all → ∀ visit ∈ all, visit.StoresIn root → site.container = root ∧ visit ∈ own

namespace Visit

variable {root : NodeId} {site : Site} {all own more others : List Visit}

theorem Own.nil : Own root site [] own := fun _ _ member => absurd member List.not_mem_nil

theorem Own.append (first : Own root site all own) (second : Own root site more others) :
    Own root site (all ++ more) (own ++ others) := by
  intro unreferred visit member stores
  rw [List.mem_append]
  rcases List.mem_append.mp member with member | member
  · have here := first (unreferred.mono (List.subset_append_left _ _)) visit member stores
    exact here.imp_right Or.inl
  · have here := second (unreferred.mono (List.subset_append_right _ _)) visit member stores
    exact here.imp_right Or.inr

theorem Own.brought {content : Content} (rest : Own root site all own) :
    Own root site (.brought site content :: all) (.brought site content :: own) := by
  intro unreferred visit member stores
  rcases List.mem_cons.mp member with rfl | member
  · exact ⟨(storesIn_brought.mp stores).1, List.mem_cons_self⟩
  · have here := rest (unreferred.mono (List.subset_cons_self _ _)) visit member stores
    exact here.imp_right (List.mem_cons_of_mem _)

/-- The visits below an object are its own, if the object has no field with the address of the
root. -/
def OwnBelow (root : NodeId) (below outer : Below) : Prop :=
  ∀ site members, (∀ name, ¬ IsAddress site.container (site.step (.key name)).path root) →
    Own root site (below site members) (outer site members)

theorem Own.object {below outer : Below} (h : OwnBelow root below outer)
    (members : List (String × Json)) :
    Own root site (.brought site .object :: below site members)
      (.brought site .object :: outer site members) := by
  intro unreferred
  have free : ∀ name, ¬ IsAddress site.container (site.step (.key name)).path root :=
    fun name address => unreferred _ List.mem_cons_self ⟨name, address⟩
  exact (h site members free).brought unreferred

/-- The members of an entity are stored in its node, which is not the root. -/
theorem Own.entity {below outer : Below} (h : OwnBelow root below outer) {id : NodeId} {set : Nat}
    {fields : Fields} {members : List (String × Json)} :
    Own root site (.brought site (.entity id) :: ofEntity true set fields below id members)
      (.brought site (.entity id) :: ofEntity false set fields outer id members) := by
  intro unreferred visit member stores
  have other : id ≠ root := unreferred _ List.mem_cons_self
  unfold ofEntity at member ⊢
  simp only [if_pos, List.mem_cons] at member ⊢
  rcases member with rfl | rfl | rfl | member
  · exact ⟨(storesIn_brought.mp stores).1, Or.inl rfl⟩
  · exact absurd (storesIn_brought.mp stores).1 other
  · exact stores.elim
  · have inside : Own root (.root id) (.brought (.root id) .object :: below (.root id) members) _ :=
      .object h members
    refine absurd (inside (fun found listed => unreferred found ?_) visit
      (List.mem_cons_of_mem _ member) stores).1 other
    simp only [ofEntity, if_pos, List.mem_cons] at listed ⊢
    rcases listed with rfl | listed
    · exact Or.inr (Or.inl rfl)
    · exact Or.inr (Or.inr (Or.inr listed))

mutual
theorem own_ofValue {identify : Json → Option NodeId} {set : Nat} {fields : Fields}
    {below outer : Below} (h : OwnBelow root below outer) {site : Site} : (payload : Json) →
    Own root site (ofValue true identify set fields below site payload)
      (ofValue false identify set fields outer site payload)
  | .null => Own.nil.brought
  | .bool _ | .number _ | .string _ => Own.nil.brought
  | .object members => by
    unfold ofValue
    split
    · exact .object h members
    · exact .entity h
  | .array payloads => by
    unfold ofValue
    exact (own_ofItems h payloads).brought

theorem own_ofItems {identify : Json → Option NodeId} {set : Nat} {fields : Fields}
    {below outer : Below} (h : OwnBelow root below outer) {site : Site} {index : Nat} :
    (payloads : List Json) →
    Own root site (ofItems true identify set fields below site index payloads)
      (ofItems false identify set fields outer site index payloads)
  | [] => .nil
  | payload :: rest => by
    unfold ofItems
    refine Own.append ?_ (own_ofItems h rest)
    show Own root (site.step (.index index)) _ _
    exact own_ofValue h payload
end

end Visit

/-- A field is in the node of its object, or at the root of a node of its own, at its address. -/
theorem FieldHead.site_eq_ok {head : FieldHead} {site here : Site} {name : String}
    (h : head.site site name = .ok here) : here.container = site.container ∨
      ∃ id, here = .root id ∧
        IsAddress site.container (site.step (.key (head.schemaName.getD name))).path id := by
  unfold FieldHead.site at h
  split at h
  · cases h
    exact Or.inl rfl
  · obtain ⟨id, address, rfl⟩ := exists_of_map_eq_ok h
    exact Or.inr ⟨id, rfl, isAddress_of_parameterized address⟩

mutual
theorem Field.own_visits {identify : Json → Option NodeId} {root : NodeId} {site : Site}
    {payload : Json} : (field : Field) →
    Own root site (Field.visits true identify site payload field)
      (Field.visits false identify site payload field)
  | .leaf _ _ => Own.nil.brought
  | .composite _ _ _ _ fields =>
    own_ofValue (fun _ _ free => Fields.own_visits free fields) payload

theorem Fields.own_visits {identify : Json → Option NodeId} {root : NodeId} {site : Site}
    {members : List (String × Json)}
    (free : ∀ name, ¬ IsAddress site.container (site.step (.key name)).path root) :
    (fields : Fields) → Own root site (Fields.visits true identify site members fields)
      (Fields.visits false identify site members fields)
  | [] => .nil
  | (name, field) :: rest => by
    have later := @Fields.own_visits identify root site members free rest
    unfold Fields.visits
    split
    · exact later
    · refine Own.append ?_ later
      split
      · next here located =>
        have below := @Field.own_visits identify root here (payloadOf members name) field
        intro unreferred visit member stores
        obtain ⟨inside, own⟩ := below unreferred visit member stores
        rcases FieldHead.site_eq_ok located with same | ⟨id, rfl, address⟩
        · exact ⟨same ▸ inside, own⟩
        · have same : id = root := inside
          exact absurd (same ▸ address) (free _)
      · exact Own.nil.brought
end

/-! ## The walk -/

namespace Walk

variable {identify : Json → Option NodeId} {walk walk' : Walk} {seen seen' : List Visit}
  {place : Place} {content : Content} {root : NodeId}

/-- The node is there, or it will be when the changes are made. -/
def Makes (root : NodeId) (walk : Walk) : Prop :=
  Nodes.Has walk.draft.node? root ∨ ∃ path next, .relink root path next ∈ walk.changes

theorem Makes.mono (h : Makes root walk)
    (has : Nodes.Has walk.draft.node? root → Nodes.Has walk'.draft.node? root)
    (changes : walk.changes ⊆ walk'.changes) : Makes root walk' :=
  h.imp has fun ⟨path, next, member⟩ => ⟨path, next, changes member⟩

theorem makes_write (value : Value) : Makes place.container (walk.write place value) := by
  refine Or.inl ?_
  show Nodes.Has (walk.draft.set place.container place.path value).node? place.container
  simp [Draft.has_set]

theorem makes_relink (next : Option NodeId) : Makes place.container (walk.relink place next) :=
  Or.inr ⟨place.path, next, List.mem_append_right _ List.mem_cons_self⟩

theorem makes_of_stored {value : Value} (stored : walk.stored? place = some value) :
    Makes place.container walk := Or.inl (has_of_read stored)

theorem makes_detachBelow {other : Place} (first? : Option Nat) (h : Makes root walk) :
    Makes root (walk.detachBelow other first?) :=
  h.mono id fun _ member => mem_changes_detachBelow.mpr (Or.inl member)

theorem Fitted.makes {length : Nat}
    (h : Fitted walk place (list? (walk.stored? place)) length walk') :
    Makes place.container walk' := by
  cases h with
  | made | grown => exact makes_write _
  | kept stored => exact makes_of_stored (list?_eq_some.mp stored)
  | cut => exact makes_detachBelow _ (makes_write _)

/-- A value that is brought to a place in a node needs the node. -/
theorem Brings.makes (h : Brings identify walk place content walk') (stores : content ≠ .object) :
    Makes place.container walk' := by
  cases h with
  | leaf payload =>
    unfold Walk.leaf
    split
    · next same =>
      obtain ⟨value, stored, -⟩ := (Option.any_eq_true _ _).mp same
      exact makes_of_stored stored
    · exact makes_write _
  | unlink | refer => exact makes_relink _
  | clear | fill => exact makes_write _
  | keep stored => exact makes_of_stored stored
  | object => exact absurd rfl stores
  | list => exact (fitted ..).makes
  | same named stored => exact makes_of_stored (entity?_eq_some.mp stored)

/-- What holds between the steps of a walk if nothing refers to the root. -/
structure Unreferred (root : NodeId) (walk : Walk) (seen : List Visit) : Prop where
  aloof : walk.draft.Aloof root
  spares : ∀ change ∈ walk.changes, Draft.Spares root change
  makes : ∀ visit ∈ seen, visit.StoresIn root → Makes root walk

theorem Unreferred.brought (h : Unreferred root walk seen)
    (unreferred : Visit.Unreferred root (.brought place.site content :: seen))
    (brings : Brings identify walk place content walk') :
    Unreferred root walk' (.brought place.site content :: seen) := by
  have touches := brings.touches
  refine ⟨touches.aloof h.aloof, touches.spares h.aloof h.spares fun id e => ?_,
    fun visit member stores => ?_⟩
  · subst e
    exact unreferred _ List.mem_cons_self
  · rcases List.mem_cons.mp member with rfl | old
    · obtain ⟨rfl, content⟩ := storesIn_brought.mp stores
      exact brings.makes content
    · exact (h.makes visit old stores).mono touches.has brings.changes_subset

theorem Unreferred.grow {name : String} {arguments : Arguments} {id : NodeId}
    (h : Unreferred root walk seen) (unreferred : Visit.Unreferred root seen)
    (around : .brought place.site .object ∈ seen)
    (address :
      NodeId.parameterized place.container (place.step (.key name)).path arguments = .ok id) :
    Unreferred root (walk.grow (place.step (.key name)) id) seen := by
  have other : id ≠ root := fun same =>
    unreferred _ around ⟨name, same ▸ isAddress_of_parameterized address⟩
  have nodes := nodes_grow walk (place.step (.key name)) id
  refine ⟨⟨fun container path member => ?_, h.aloof.kept⟩, h.spares, fun visit member stores => ?_⟩
  · rw [nodes] at member
    rcases of_mem_outbound_sprout rfl member with old | ⟨-, e⟩
    · exact h.aloof.unlinked container path old
    · cases e
      exact other rfl
  · refine (h.makes visit member stores).mono (fun has => ?_) (List.Subset.refl _)
    rw [nodes, has_sprout]
    exact Or.inr (Or.inr has)

theorem Unreferred.enter {id : NodeId} {set : Nat} {fields : Fields}
    {members : List (String × Json)} (h : Unreferred root walk seen) :
    Unreferred root (walk.mark id set)
      (.brought (.root id) .object :: .entered id set fields members :: seen) := by
  refine ⟨h.aloof, h.spares, fun visit member stores => ?_⟩
  rcases List.mem_cons.mp member with rfl | member
  · exact stores.elim
  · rcases List.mem_cons.mp member with rfl | member
    · exact stores.elim
    · exact h.makes visit member stores

theorem Step.unreferred (h : Step identify walk seen walk' seen')
    (unreferred : Visit.Unreferred root seen') (before : Unreferred root walk seen) :
    Unreferred root walk' seen' := by
  cases h with
  | warned warnings => exact ⟨before.aloof, before.spares, before.makes⟩
  | grown name around address fresh => exact before.grow unreferred around address
  | brought due brings => exact before.brought unreferred brings
  | entered set fields members around => exact before.enter

theorem Run.unreferred (h : Run identify walk seen walk' seen')
    (unreferred : Visit.Unreferred root seen') (before : Unreferred root walk seen) :
    Unreferred root walk' seen' := by
  induction h with
  | refl => exact before
  | tail run step ih => exact step.unreferred unreferred (ih (unreferred.mono step.seen_subset))

end Walk

/-! ## The merge -/

/-- A merge keeps its root if something is stored in it, and neither the nodes nor the payload
refer to it. -/
theorem Draft.has_root_merge {identify : Json → Option NodeId} {root : NodeId} {fields : Fields}
    {payload : Json} {draft draft' : Draft} {warnings : List String} (aloof : draft.Aloof root)
    (unreferred : Visit.Unreferred root (Visit.ofPayload identify root fields payload))
    (stores : ∃ visit ∈ Visit.ofPayload identify root fields payload, visit.StoresIn root)
    (h : draft.merge identify root fields payload = .ok (draft', warnings)) :
    Nodes.Has draft'.node? root := by
  obtain ⟨members, walk, seen, rfl, rfl, traced, within, walked⟩ := Draft.merge_traced h
  have start : Walk.Unreferred root (.ofDraft draft) [.brought (.root root) .object] := by
    refine ⟨aloof, fun _ member => absurd member List.not_mem_nil, fun visit member stores => ?_⟩
    cases List.mem_singleton.mp member
    exact stores.elim
  have done := traced.run.unreferred (unreferred.mono within) start
  have made : walk.Makes root := by
    obtain ⟨visit, member, stores⟩ := stores
    have own := Own.object
      (fun site members free => @Fields.own_visits identify root site members free fields)
      members unreferred visit member stores
    rcases List.mem_cons.mp own.2 with rfl | member
    · exact stores.elim
    · have seen := walked visit member
      cases visit with
      | brought site content => exact done.makes _ seen stores
      | entered => exact stores.elim
  have has : Nodes.Has (walk.draft.applyAll walk.changes).node? root := by
    rcases made with has | ⟨path, next, member⟩
    · exact Draft.has_applyAll has
    · exact Draft.has_applyAll_of_relink member
  exact (done.aloof.applyAll done.spares).has_collectOrphans has

end ResponseGraph
