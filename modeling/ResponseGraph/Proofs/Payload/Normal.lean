import ResponseGraph.Identity
import ResponseGraph.Proofs.Field.Labels
import ResponseGraph.Proofs.Payload.ReadBack

/-!
The part of a payload that matters.

The normal form of a payload has, in every object where a selection goes on, the members that are
selected and not excluded, with null for those that are missing, and the member `id`, which the
default identity function looks at.  All other members are left out.

A merge of the normal form makes the very steps that a merge of the payload makes
(`Fields.merge_normal`): the walks differ in their warnings only, of which the normal form gives
none, and where they fail the errors differ in the payload that they show.
-/

namespace ResponseGraph

namespace Fields

/-- The members that a selection keeps. -/
def keeps (fields : Fields) (name : String) : Bool :=
  name = "id" || fields.any fun entry => entry.1 = name && !entry.2.head.excluded

end Fields

mutual
def Field.normal (payload : Json) : Field → Json
  | .leaf _ _ => payload
  | .composite _ _ _ _ fields =>
    payload.cut fun members =>
      Fields.fill members fields (members.filter fun entry => Fields.keeps fields entry.1)
termination_by structural field => field

/-- Every field that is not excluded gets the normal form of its member, where it stands among
those that are kept or else at their end. -/
def Fields.fill (members : List (String × Json)) : Fields → List (String × Json) →
    List (String × Json)
  | [], kept => kept
  | (name, field) :: rest, kept =>
    if field.head.excluded then Fields.fill members rest kept
    else
      Fields.fill members rest (Entries.put name (field.normal (payloadOf members name)) kept)
termination_by structural fields => fields
end

/-- The normal form of the members of an object. -/
def Fields.normal (fields : Fields) (members : List (String × Json)) : List (String × Json) :=
  Fields.fill members fields (members.filter fun entry => Fields.keeps fields entry.1)

/-! ## Members of the normal form -/

theorem Entries.get?_filter {α : Type} (keep : String → Bool) (name : String)
    (entries : List (String × α)) :
    Entries.get? name (entries.filter fun entry => keep entry.1) =
      if keep name then Entries.get? name entries else none := by
  induction entries with
  | nil => simp
  | cons head rest ih =>
    obtain ⟨key, value⟩ := head
    rw [List.filter_cons, Entries.get?_cons]
    by_cases same : key = name
    · subst same
      by_cases kept : keep key
      · rw [if_pos kept, if_pos kept, if_pos rfl, Entries.get?_cons, if_pos rfl]
      · rw [if_neg kept, if_neg kept, ih, if_neg kept]
    · rw [if_neg same]
      split
      · rw [Entries.get?_cons, if_neg same, ih]
      · exact ih

namespace Fields

variable {fields : Fields} {members kept : List (String × Json)} {name : String} {field : Field}

theorem get?_fill_of_not_selected
    (other : ∀ entry ∈ fields, entry.2.head.excluded = false → entry.1 ≠ name) :
    Entries.get? name (fill members fields kept) = Entries.get? name kept := by
  induction fields generalizing kept with
  | nil => rfl
  | cons entry rest ih =>
    obtain ⟨key, head⟩ := entry
    unfold fill
    split
    · exact ih fun entry member => other entry (List.mem_cons_of_mem _ member)
    · next included =>
      rw [ih fun entry member => other entry (List.mem_cons_of_mem _ member), Entries.get?_put,
        if_neg (other _ List.mem_cons_self (Bool.eq_false_iff.mpr included))]

/-- Every field that is not excluded has a member in the normal form. -/
theorem get?_fill (names : (fields.map Prod.fst).Nodup) (selected : (name, field) ∈ fields)
    (included : field.head.excluded = false) :
    Entries.get? name (fill members fields kept) =
      some (field.normal (payloadOf members name)) := by
  induction fields generalizing kept with
  | nil => cases selected
  | cons entry rest ih =>
    obtain ⟨key, head⟩ := entry
    obtain ⟨fresh, names⟩ := List.nodup_cons.mp names
    unfold fill
    rcases List.mem_cons.mp selected with e | later
    · cases e
      rw [if_neg (Bool.eq_false_iff.mp included), get?_fill_of_not_selected, Entries.get?_put,
        if_pos rfl]
      intro entry member _ same
      exact fresh (List.mem_map.mpr ⟨entry, member, same⟩)
    · split <;> exact ih names later

theorem get?_normal (names : (fields.map Prod.fst).Nodup) (selected : (name, field) ∈ fields)
    (included : field.head.excluded = false) :
    Entries.get? name (fields.normal members) = some (field.normal (payloadOf members name)) :=
  get?_fill names selected included

end Fields

/-! ## Identity -/

/-- What the default identity function makes of the member `id`. -/
def Json.ownId : Json → Option NodeId
  | .string id => if id = "" then none else some id
  | .number x => some x.text
  | _ => none

theorem Identity.byId_object (members : List (String × Json)) :
    Identity.byId (.object members) = (payloadOf members "id").ownId := by
  unfold Identity.byId payloadOf Json.get?
  dsimp only
  cases Entries.get? "id" members with
  | none => rfl
  | some payload => cases payload <;> rfl

/-- No normal form has another id. -/
theorem Field.ownId_normal (field : Field) (payload : Json) :
    (field.normal payload).ownId = payload.ownId := by
  cases field with
  | leaf => rfl
  | composite => cases payload <;> rfl

theorem Identity.byId_normal {fields : Fields} (names : (fields.map Prod.fst).Nodup)
    (members : List (String × Json)) :
    Identity.byId (.object (fields.normal members)) = Identity.byId (.object members) := by
  rw [byId_object, byId_object]
  by_cases selected : ∃ field, ("id", field) ∈ fields ∧ field.head.excluded = false
  · obtain ⟨field, selected, included⟩ := selected
    unfold payloadOf
    rw [Fields.get?_normal names selected included, Option.getD_some]
    exact field.ownId_normal _
  · have other : ∀ entry ∈ fields, entry.2.head.excluded = false → entry.1 ≠ "id" := by
      rintro ⟨name, field⟩ member included rfl
      exact selected ⟨field, member, included⟩
    have kept : Fields.keeps fields "id" = true := rfl
    unfold payloadOf Fields.normal
    rw [Fields.get?_fill_of_not_selected other, Entries.get?_filter, if_pos kept]

theorem Json.length_cutItems (keep : List (String × Json) → List (String × Json))
    (payloads : List Json) : (Json.cutItems keep payloads).length = payloads.length := by
  induction payloads with
  | nil => rfl
  | cons _ rest ih => exact congrArg Nat.succ ih

/-! ## Two merges that go abreast -/

/-- The failures differ in nothing but the payload that they show. -/
def Error.Alike : Error → Error → Prop
  | .payload e, .payload e' => { e with payload := e'.payload } = e'
  | e, e' => e = e'

theorem Error.Alike.refl (e : Error) : e.Alike e := by
  cases e <;> rfl

theorem Error.Alike.message {e e' : Error} (h : e.Alike e') : e.message = e'.message := by
  cases e with
  | payload e =>
    cases e' with
    | payload e' =>
      cases e
      cases e'
      cases h
      rfl
    | _ => exact congrArg Error.message h
  | _ => exact congrArg Error.message h

theorem Place.misfit_alike (place : Place) (reason : String) (payload payload' : Json) :
    (place.misfit reason payload).Alike (place.misfit reason payload') := rfl

/-- Both computations fail alike, or the second gives what the function makes of the result of the
first. -/
inductive Abreast {α β : Type} (f : α → β) : Except Error α → Except Error β → Prop
  | ok (result : α) : Abreast f (.ok result) (.ok (f result))
  | error {e e' : Error} (alike : e.Alike e') : Abreast f (.error e) (.error e')

theorem Abreast.bind {α β γ δ : Type} {f : α → β} {g : γ → δ} {first : Except Error α}
    {first' : Except Error β} {next : α → Except Error γ} {next' : β → Except Error δ}
    (h : Abreast f first first') (later : ∀ result, Abreast g (next result) (next' (f result))) :
    Abreast g (first >>= next) (first' >>= next') := by
  cases h with
  | ok result => exact later result
  | error alike => exact .error alike

namespace Walk

variable {identify : Json → Option NodeId} {warnings : List String}

/-- The walk with other warnings. -/
def warned (warnings : List String) (walk : Walk) : Walk := { walk with warnings }

theorem warned_leaf (walk : Walk) (place : Place) (payload : Json) :
    (walk.warned warnings).leaf place payload = (walk.leaf place payload).warned warnings := by
  unfold leaf
  rw [apply_ite (warned warnings)]
  rfl

theorem warned_fit (walk : Walk) (place : Place) (previous : Option (List Value)) (length : Nat) :
    (walk.warned warnings).fit place previous length =
      (walk.fit place previous length).warned warnings := by
  cases previous with
  | none => rfl
  | some items =>
    unfold fit
    rw [apply_ite (warned warnings)]
    refine if_congr Iff.rfl rfl ?_
    rw [apply_ite (warned warnings)]
    rfl

theorem abreast_null (walk : Walk) (place : Place) (previous : Option Value) :
    Abreast (warned warnings) (walk.null identify place previous)
      ((walk.warned warnings).null identify place previous) := by
  unfold null
  split
  · exact .ok _
  · split
    · exact .ok _
    · split <;> exact .ok _
  · split
    · exact .ok _
    · exact .error (.refl _)
  · split <;> exact .error (.refl _)

theorem warned_relink (walk : Walk) (place : Place) (next : Option NodeId) :
    (walk.warned warnings).relink place next = (walk.relink place next).warned warnings := rfl

theorem warned_visit (walk : Walk) (place : Place) (set : Nat) (id : NodeId) :
    (walk.warned warnings).visit place set id =
      Prod.map (warned warnings) (fun below => below) (walk.visit place set id) := by
  unfold visit
  rw [apply_ite (Prod.map (warned warnings) fun below => below)]
  rfl

theorem abreast_object {set : Nat} {members members' : List (String × Json)} (walk : Walk)
    (place : Place) (previous : Option Value)
    (named : identify (.object members') = identify (.object members)) :
    Abreast (Prod.map (warned warnings) fun below => below)
      (walk.object identify set place previous members)
      ((walk.warned warnings).object identify set place previous members') := by
  unfold object
  dsimp only
  rw [named]
  split
  · exact .ok (walk, some place)
  · exact .error (place.misfit_alike _ _ _)
  · next id _ _ =>
    split
    · exact .error (place.misfit_alike _ _ _)
    · rw [warned_relink, warned_visit]
      exact .ok _
  · rw [warned_relink, ← apply_ite (warned warnings), warned_visit]
    exact .ok _

mutual
/-- The normal form of a value is merged as the value is, if the normal forms of its objects are
merged as the objects are and have their ids. -/
theorem value_normal {set : Nat} {descend : Descent}
    {keep : List (String × Json) → List (String × Json)}
    (named : ∀ members, identify (.object (keep members)) = identify (.object members))
    (below : ∀ place members walk, Abreast (warned warnings) (descend place members walk)
      (descend place (keep members) (walk.warned warnings))) :
    (payload : Json) → (place : Place) → (walk : Walk) →
    Abreast (warned warnings) (value identify set descend place payload walk)
      (value identify set descend place (payload.cut keep) (walk.warned warnings))
  | .null, place, walk => by
    unfold Json.cut value
    dsimp only
    rw [show (walk.warned warnings).stored? place = walk.stored? place from rfl]
    split
    · exact .ok _
    · exact abreast_null walk place _
  | .object members, place, walk => by
    unfold Json.cut value
    dsimp only
    rw [show (walk.warned warnings).stored? place = walk.stored? place from rfl]
    split
    · exact .error (place.misfit_alike _ _ _)
    · refine (abreast_object walk place _ (named members)).bind fun result => ?_
      obtain ⟨walk, below?⟩ := result
      cases below? with
      | none => exact .ok _
      | some inside => exact below inside members walk
  | .array payloads, place, walk => by
    unfold Json.cut value
    dsimp only
    rw [show (walk.warned warnings).stored? place = walk.stored? place from rfl]
    split
    · exact .error (place.misfit_alike _ _ _)
    · rw [warned_fit, Json.length_cutItems]
      exact items_normal named below payloads place 0 _
  | .bool _, _, _ | .number _, _, _ | .string _, _, _ => .error (.refl _)

theorem items_normal {set : Nat} {descend : Descent}
    {keep : List (String × Json) → List (String × Json)}
    (named : ∀ members, identify (.object (keep members)) = identify (.object members))
    (below : ∀ place members walk, Abreast (warned warnings) (descend place members walk)
      (descend place (keep members) (walk.warned warnings))) :
    (payloads : List Json) → (place : Place) → (index : Nat) → (walk : Walk) →
    Abreast (warned warnings) (items identify set descend place index payloads walk)
      (items identify set descend place index (Json.cutItems keep payloads)
        (walk.warned warnings))
  | [], _, _, walk => .ok walk
  | payload :: rest, place, index, walk => by
    unfold Json.cutItems
    rw [items, items]
    exact (value_normal named below payload _ walk).bind fun walk =>
      items_normal named below rest place (index + 1) walk
end

theorem abreast_field (walk : Walk) (place : Place) (name : String) (head : FieldHead) :
    Abreast (Prod.map (warned warnings) fun here => here) (walk.field place name head)
      ((walk.warned warnings).field place name head) := by
  unfold field
  dsimp only
  split
  · exact .ok (walk, _)
  · unfold parameterized
    split
    · exact .error (.refl _)
    · dsimp only
      rw [show (walk.warned warnings).draft = walk.draft from rfl]
      split
      · exact .ok (walk, _)
      · exact .ok (Walk.mk _ walk.changes walk.warnings walk.visited, _)

end Walk

mutual
theorem Field.merge_normal (warnings : List String) {labels : Labels} : (field : Field) →
    field.Known labels → (place : Place) → (payload : Json) → (walk : Walk) →
    Abreast (Walk.warned warnings) (field.merge Identity.byId.nonempty place payload walk)
      (field.merge Identity.byId.nonempty place (field.normal payload) (walk.warned warnings))
  | .leaf _ _, _, place, payload, walk => by
    unfold Field.merge
    rw [Walk.warned_leaf]
    exact .ok _
  | .composite _ _ _ _ fields, known, place, payload, walk =>
    Walk.value_normal
      (fun members => congrArg (Option.filter _) (Identity.byId_normal known.2.2.2.1 members))
      (fun place members walk =>
        Fields.merge_normal warnings fields known.2.2.2.2 place members (Fields.normal fields members) walk
          fun _ _ selected included => Fields.get?_normal known.2.2.2.1 selected included)
      payload place walk

/-- Members that hold the normal forms of the selected ones are merged as those are, with no
warnings of their own. -/
theorem Fields.merge_normal (warnings : List String) {labels : Labels} : (fields : Fields) →
    Fields.Known labels fields → (place : Place) →
    (members members' : List (String × Json)) → (walk : Walk) →
    (∀ name field, (name, field) ∈ fields → field.head.excluded = false →
      Entries.get? name members' = some (field.normal (payloadOf members name))) →
    Abreast (Walk.warned warnings)
      (Fields.merge Identity.byId.nonempty place members fields walk)
      (Fields.merge Identity.byId.nonempty place members' fields (walk.warned warnings))
  | [], _, _, _, _, walk, _ => .ok walk
  | (name, field) :: rest, known, place, members, members', walk, held => by
    have later := fun walk => Fields.merge_normal warnings rest known.2 place members
      members' walk fun name field member => held name field (List.mem_cons_of_mem _ member)
    unfold Fields.merge
    split
    · exact later walk
    · next included =>
      obtain ⟨found, selected⟩ := walk.member_eq place name members
      have here : (walk.warned warnings).member place name members' =
          (walk.warned warnings, field.normal (payloadOf members name)) := by
        unfold Walk.member
        rw [held name field List.mem_cons_self (Bool.eq_false_iff.mpr included)]
      rw [selected, here]
      refine (Walk.abreast_field (Walk.mk _ _ found _) place name field.head).bind fun result => ?_
      exact (Field.merge_normal warnings field known.1 _ _ _).bind fun walk => later walk
end

end ResponseGraph
