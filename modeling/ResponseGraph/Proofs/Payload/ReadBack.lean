import ResponseGraph.Proofs.Payload.Covered
import ResponseGraph.Proofs.Payload.Moored

/-!
Payloads that are read back.

Following a selection through the nodes of a graph gives a payload, or nothing if some field
is not stored.  Where all contents of a payload are held at their sites, following its
selection gives what the selection keeps of the payload (`Fields.follow_stored`).
-/

namespace ResponseGraph

open Visit

/-! ## Following a selection -/

/-- How the members of an object at a site are read. -/
abbrev Nodes.Reader := Site → Option (List (String × Json))

mutual
/-- What a value at a site reads as where a selection goes on.  A reference has to lead to a
node, to whose root the members of the entity belong. -/
def Nodes.follow (nodes : Nodes) (read : Nodes.Reader) (site : Site) : Value → Option Json
  | .null => some .null
  | .object _ => (read site).map .object
  | .reference id => (nodes id).bind fun _ => (read (.root id)).map .object
  | .list items => (Nodes.followItems nodes read site 0 items).map .array
  | _ => none
termination_by structural value => value

def Nodes.followItems (nodes : Nodes) (read : Nodes.Reader) (site : Site) (index : Nat) :
    List Value → Option (List Json)
  | [] => some []
  | value :: rest => do
    let payload ← Nodes.follow nodes read (site.step (.index index)) value
    let others ← Nodes.followItems nodes read site (index + 1) rest
    return payload :: others
termination_by structural values => values
end

mutual
def Field.follow (nodes : Nodes) (site : Site) : Field → Option Json
  | .leaf _ _ => (nodes.read site.container site.path).bind Value.payload?
  | .composite _ _ _ _ fields =>
    (nodes.read site.container site.path).bind
      (nodes.follow (fun below => Fields.follow nodes below fields) site)
termination_by structural field => field

/-- The members of an object at a site, by response name. -/
def Fields.follow (nodes : Nodes) (site : Site) : Fields → Option (List (String × Json))
  | [] => some []
  | (name, field) :: rest =>
    if field.head.excluded then Fields.follow nodes site rest
    else do
      let here ← (field.head.site site name).toOption
      let payload ← field.follow nodes here
      let others ← Fields.follow nodes site rest
      return (name, payload) :: others
termination_by structural fields => fields
end

/-! ## What a selection keeps of a payload -/

mutual
/-- Every object of a payload is replaced by what is kept of its members. -/
def Json.cut (keep : List (String × Json) → List (String × Json)) : Json → Json
  | .object members => .object (keep members)
  | .array items => .array (Json.cutItems keep items)
  | payload => payload
termination_by structural payload => payload

def Json.cutItems (keep : List (String × Json) → List (String × Json)) : List Json → List Json
  | [] => []
  | payload :: rest => Json.cut keep payload :: Json.cutItems keep rest
termination_by structural payloads => payloads
end

mutual
def Field.cut (payload : Json) : Field → Json
  | .leaf _ _ => payload
  | .composite _ _ _ _ fields => payload.cut fun members => Fields.cut members fields
termination_by structural field => field

/-- The members that are selected, null for those that are missing. -/
def Fields.cut (members : List (String × Json)) : Fields → List (String × Json)
  | [] => []
  | (name, field) :: rest =>
    if field.head.excluded then Fields.cut members rest
    else (name, field.cut (payloadOf members name)) :: Fields.cut members rest
termination_by structural fields => fields
end

/-- Some field is stored in the object itself. -/
def Fields.anchors (fields : Fields) : Bool :=
  fields.any fun entry => !entry.2.head.excluded && entry.2.head.arguments.isNone

mutual
/-- Every object of a payload is an entity or has a field that is stored in it. -/
def Json.anchored (identify : Json → Option NodeId) (fields : Fields)
    (below : List (String × Json) → Bool) : Json → Bool
  | .object members => ((identify (.object members)).isSome || fields.anchors) && below members
  | .array items => Json.anchoredItems identify fields below items
  | _ => true
termination_by structural payload => payload

def Json.anchoredItems (identify : Json → Option NodeId) (fields : Fields)
    (below : List (String × Json) → Bool) : List Json → Bool
  | [] => true
  | payload :: rest =>
    Json.anchored identify fields below payload && Json.anchoredItems identify fields below rest
termination_by structural payloads => payloads
end

mutual
def Field.anchored (identify : Json → Option NodeId) (payload : Json) : Field → Bool
  | .leaf _ _ => true
  | .composite _ _ _ _ fields =>
    payload.anchored identify fields fun members => Fields.anchored identify members fields
termination_by structural field => field

/-- So it is for every object that the fields select. -/
def Fields.anchored (identify : Json → Option NodeId) (members : List (String × Json)) :
    Fields → Bool
  | [] => true
  | (name, field) :: rest =>
    (field.head.excluded || field.anchored identify (payloadOf members name)) &&
      Fields.anchored identify members rest
termination_by structural fields => fields
end

/-! ## Reading what is stored -/

/-- The contents are held at their sites, and the nodes of entities exist. -/
structure Stored (root : NodeId) (nodes : Nodes) (visits : List Visit) : Prop where
  holds : ∀ site content, .brought site content ∈ visits →
    content.Holds (nodes.read site.container site.path)
  present : ∀ id, .brought (.root id) .object ∈ visits → id ≠ root → nodes.Has id
  distinct : Distinct root visits

section

variable {root : NodeId} {nodes : Nodes} {identify : Json → Option NodeId} {set : Nat}
  {fields : Fields} {labels : Labels} {site : Site}

theorem Stored.mono {visits more : List Visit} (h : Stored root nodes more)
    (subset : visits ⊆ more) :
    Stored root nodes visits :=
  ⟨fun site content member => h.holds site content (subset member),
    fun id member => h.present id (subset member), h.distinct.mono subset⟩

theorem Stored.read_eq {visits : List Visit} {content : Content} {next : Option NodeId}
    (h : Stored root nodes visits) (member : .brought site content ∈ visits)
    (decides : content.next? = some next) :
    nodes.read site.container site.path = some (.referring next) :=
  (h.holds site content member).2 next decides

/-- An object that has a field without arguments is stored as one if its fields are. -/
theorem Fields.object_of_follow {result : List (String × Json)}
    (h : Fields.follow nodes site fields = some result) (anchored : fields.anchors = true) :
    ∃ members, nodes.read site.container site.path = some (.object members) := by
  induction fields generalizing result with
  | nil => cases anchored
  | cons entry rest ih =>
    obtain ⟨name, field⟩ := entry
    unfold Fields.follow at h
    change (_ || _) = true at anchored
    rw [Bool.or_eq_true, Bool.and_eq_true, Bool.not_eq_true', Option.isNone_iff_eq_none] at anchored
    split at h
    · next excluded =>
      refine ih h (anchored.resolve_left fun here => ?_)
      rw [excluded] at here
      cases here.1
    · obtain ⟨here, located, h⟩ := Option.bind_eq_some_iff.mp h
      obtain ⟨payload, followed, h⟩ := Option.bind_eq_some_iff.mp h
      obtain ⟨others, more, h⟩ := Option.bind_eq_some_iff.mp h
      refine anchored.elim (fun plain => ?_) (ih more)
      obtain ⟨value, stored⟩ : ∃ value, nodes.read here.container here.path = some value := by
        cases field <;> obtain ⟨value, stored, -⟩ := Option.bind_eq_some_iff.mp followed <;>
          exact ⟨value, stored⟩
      have place : here = site.step (.key (field.head.schemaName.getD name)) := by
        unfold FieldHead.site at located
        rw [plain.2] at located
        cases located
        rfl
      rw [place] at stored
      obtain ⟨around, held, below⟩ :=
        Option.bind_eq_some_iff.mp ((nodes.read_append _ site.path [.key _]).symm.trans stored)
      cases around with
      | object members => exact ⟨members, held⟩
      | _ => cases below

/-- What the fields of a set read below an object that is stored. -/
def Recovers (root : NodeId) (nodes : Nodes) (identify : Json → Option NodeId) (fields : Fields) :
    Prop :=
  ∀ (site : Site) (members : List (String × Json)),
    Stored root nodes (Fields.visits true identify site members fields) →
    Fields.anchored identify members fields →
    ∃ result, Fields.follow nodes site fields = some result ∧
      (Json.object result).same (.object (Fields.cut members fields))

mutual
theorem follow_value (recovers : Recovers root nodes identify fields) : (payload : Json) →
    (site : Site) →
    Stored root nodes (ofValue true identify set fields
      (Fields.below true identify fields) site payload) →
    payload.anchored identify fields (fun members => Fields.anchored identify members fields) →
    ∃ value result, nodes.read site.container site.path = some value ∧
      nodes.follow (fun below => Fields.follow nodes below fields) site value = some result ∧
      result.same (payload.cut fun members => Fields.cut members fields)
  | .null, site, stored, _ =>
    ⟨.null, .null, stored.read_eq (ofValue_brings site .null) rfl, rfl, rfl⟩
  | .bool _, site, stored, _ | .number _, site, stored, _ | .string _, site, stored, _ =>
    ((stored.holds site .misfit List.mem_cons_self).1).elim
  | .object members, site, stored, anchored => by
    unfold ofValue at stored
    obtain ⟨here, below⟩ := (Bool.and_eq_true _ _).mp (show (_ && _) = true from anchored)
    cases named : identify (.object members) with
    | none =>
      rw [named] at stored here
      obtain ⟨result, followed, same⟩ := recovers site members
        (stored.mono fun _ member => List.mem_cons_of_mem _ member) below
      obtain ⟨data, held⟩ := Fields.object_of_follow followed here
      exact ⟨.object data, .object result, held, congrArg (Option.map Json.object) followed, same⟩
    | some id =>
      rw [named] at stored
      have held := stored.read_eq List.mem_cons_self
        (show Content.next? (.entity id) = some (some id) from rfl)
      have other : id ≠ root := stored.distinct _ List.mem_cons_self id rfl
      obtain ⟨node, found⟩ := Option.isSome_iff_exists.mp
        (stored.present id (List.mem_cons_of_mem _ List.mem_cons_self) other)
      obtain ⟨result, followed, same⟩ := recovers (.root id) members
        (stored.mono fun _ member => List.mem_cons_of_mem _
          (List.mem_cons_of_mem _ (List.mem_cons_of_mem _ member))) below
      refine ⟨.reference id, .object result, held, ?_, same⟩
      show (nodes id).bind _ = _
      rw [found]
      exact congrArg (Option.map Json.object) followed
  | .array payloads, site, stored, anchored => by
    obtain ⟨⟨items, held, long⟩, -⟩ := stored.holds site _ (ofValue_brings site (.array payloads))
    have inside : ∀ i, nodes.read (site.step (.index (0 + i))).container
        (site.step (.index (0 + i))).path = items[i]? := by
      intro i
      show nodes.read site.container (site.path ++ [.index (0 + i)]) = items[i]?
      rw [nodes.read_append, held, Nat.zero_add]
      exact Option.bind_fun_some _
    obtain ⟨results, followed, same⟩ := follow_items recovers payloads items site 0 long inside
      (stored.mono fun _ member => List.mem_cons_of_mem _ member) anchored
    exact ⟨.list items, .array results, held, congrArg (Option.map Json.array) followed, same⟩

theorem follow_items (recovers : Recovers root nodes identify fields) : (payloads : List Json) →
    (items : List Value) → (site : Site) → (index : Nat) → items.length = payloads.length →
    (∀ i, nodes.read (site.step (.index (index + i))).container
      (site.step (.index (index + i))).path = items[i]?) →
    Stored root nodes (ofItems true identify set fields
      (Fields.below true identify fields) site index payloads) →
    Json.anchoredItems identify fields (fun members => Fields.anchored identify members fields)
      payloads →
    ∃ results, nodes.followItems (fun below => Fields.follow nodes below fields) site index items =
        some results ∧
      Json.sameItems results (Json.cutItems (fun members => Fields.cut members fields) payloads)
  | [], [], _, _, _, _, _, _ => ⟨[], rfl, rfl⟩
  | [], _ :: _, _, _, same, _, _, _ => absurd same (Nat.succ_ne_zero _)
  | _ :: _, [], _, _, same, _, _, _ => absurd same.symm (Nat.succ_ne_zero _)
  | payload :: rest, item :: items, site, index, long, read, stored, anchored => by
    obtain ⟨here, below⟩ := (Bool.and_eq_true _ _).mp (show (_ && _) = true from anchored)
    obtain ⟨value, result, held, followed, same⟩ := follow_value recovers payload
      (site.step (.index index)) (stored.mono fun _ member => List.mem_append_left _ member) here
    have beyond : ∀ i, nodes.read (site.step (.index (index + 1 + i))).container
        (site.step (.index (index + 1 + i))).path = items[i]? := by
      intro i
      rw [Nat.add_assoc, Nat.add_comm 1 i]
      exact read (i + 1)
    obtain ⟨results, followed', same'⟩ := follow_items recovers rest items site (index + 1)
      (Nat.succ.inj long) beyond (stored.mono fun _ member => List.mem_append_right _ member) below
    cases (read 0).symm.trans held
    refine ⟨result :: results, ?_, ?_⟩
    · unfold Nodes.followItems
      rw [followed, followed']
      rfl
    · show (_ && _) = true
      rw [same, same']
      rfl
end

end

/-! ## Members -/

theorem Fields.mem_of_cut {members : List (String × Json)} {fields : Fields} {name : String}
    {payload : Json} (h : Entries.get? name (Fields.cut members fields) = some payload) :
    name ∈ fields.map Prod.fst := by
  induction fields with
  | nil => cases h
  | cons entry rest ih =>
    obtain ⟨other, field⟩ := entry
    unfold Fields.cut at h
    split at h
    · exact List.mem_cons_of_mem _ (ih h)
    · rw [Entries.get?_cons] at h
      split at h
      · next same =>
        rw [same]
        exact List.mem_cons_self
      · exact List.mem_cons_of_mem _ (ih h)

/-- Members that are read below a new name are found past it. -/
theorem Json.same_cons {name : String} {payload other : Json} {result kept : List (String × Json)}
    (here : payload.same other) (fresh : Entries.get? name kept = none)
    (below : (Json.object result).same (.object kept)) :
    (Json.object ((name, payload) :: result)).same (.object ((name, other) :: kept)) := by
  obtain ⟨long, same⟩ := (Bool.and_eq_true _ _).mp (show (_ && _) = true from below)
  refine (Bool.and_eq_true _ _).mpr ⟨?_, (Json.sameMembers_iff _ _).mpr ?_⟩
  · rw [beq_iff_eq] at long ⊢
    exact congrArg (· + 1) long
  · intro label found member
    rw [Entries.get?_cons]
    rcases List.mem_cons.mp member with e | member
    · cases e
      rw [if_pos rfl]
      exact ⟨other, rfl, here⟩
    · obtain ⟨inner, lookup, equal⟩ := (Json.sameMembers_iff _ _).mp same label found member
      rw [if_neg]
      · exact ⟨inner, lookup, equal⟩
      · intro e₁
        subst e₁
        rw [fresh] at lookup
        cases lookup

mutual
/-- A field whose content is stored reads as what is kept of its payload. -/
theorem Field.follow_stored {root : NodeId} {nodes : Nodes} {identify : Json → Option NodeId}
    {labels : Labels} : (field : Field) → (site : Site) → (payload : Json) → field.Known labels →
    Stored root nodes (Field.visits true identify site payload field) →
    field.anchored identify payload →
    ∃ result, field.follow nodes site = some result ∧ result.same (field.cut payload)
  | .leaf _ _, site, payload, _, stored, _ => by
    obtain ⟨⟨value, held, same⟩, -⟩ := stored.holds site (.leaf payload) List.mem_cons_self
    obtain ⟨result, back, same'⟩ := Value.exists_payload? value same
    refine ⟨result, ?_, same'⟩
    unfold Field.follow
    rw [held]
    exact back
  | .composite _ _ _ _ fields, site, payload, known, stored, anchored => by
    obtain ⟨value, result, held, followed, same⟩ := follow_value
      (fun site members => Fields.follow_stored fields site members known.2.2.2) payload site stored
      anchored
    refine ⟨result, ?_, same⟩
    unfold Field.follow
    rw [held]
    exact followed

theorem Fields.follow_stored {root : NodeId} {nodes : Nodes} {identify : Json → Option NodeId}
    {labels : Labels} : (fields : Fields) → (site : Site) → (members : List (String × Json)) →
    (fields.map Prod.fst).Nodup ∧ Fields.Known labels fields →
    Stored root nodes (Fields.visits true identify site members fields) →
    Fields.anchored identify members fields →
    ∃ result, Fields.follow nodes site fields = some result ∧
      (Json.object result).same (.object (Fields.cut members fields))
  | [], _, _, _, _, _ => ⟨[], rfl, rfl⟩
  | (name, field) :: rest, site, members, known, stored, anchored => by
    obtain ⟨fresh, distinct⟩ := List.nodup_cons.mp known.1
    obtain ⟨here, below⟩ := (Bool.and_eq_true _ _).mp (show (_ && _) = true from anchored)
    unfold Fields.visits at stored
    unfold Fields.follow Fields.cut
    split
    · next excluded =>
      rw [if_pos excluded] at stored
      exact Fields.follow_stored rest site members ⟨distinct, known.2.2⟩ stored below
    · next included =>
      rw [if_neg included] at stored
      obtain ⟨others, followed, same⟩ := Fields.follow_stored rest site members
        ⟨distinct, known.2.2⟩ (stored.mono fun _ member => List.mem_append_right _ member) below
      have inside := stored.mono fun _ member => List.mem_append_left _ member
      rw [Bool.not_eq_true] at included
      rw [included, Bool.false_or] at here
      cases located : field.head.site site name with
      | error _ =>
        rw [located] at inside
        exact ((inside.holds site .misfit List.mem_cons_self).1).elim
      | ok place =>
        rw [located] at inside
        obtain ⟨result, followed', same'⟩ :=
          Field.follow_stored field place (payloadOf members name) known.2.1 inside here
        refine ⟨(name, result) :: others, ?_, Json.same_cons same' ?_ same⟩
        · show (field.follow nodes place).bind _ = _
          rw [followed', followed]
          rfl
        · cases lookup : Entries.get? name (Fields.cut members rest) with
          | none => rfl
          | some found => exact absurd (Fields.mem_of_cut lookup) fresh
end

end ResponseGraph
