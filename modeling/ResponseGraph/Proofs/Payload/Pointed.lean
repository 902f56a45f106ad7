import ResponseGraph.Cache
import ResponseGraph.Proofs.Field.Contained
import ResponseGraph.Proofs.Payload.Trace

/-!
Where payload errors point.

A payload error carries the payload that does not fit and the path of its place, in the two parts
of a `Place`.  Places are made of the names of the schema, and a payload is made of response names.
So the path of an error spells the way to the payload that it carries step by step, but with the
names of the schema (`Fields.Way`).  It leads there in the payload if no field has another response
name, and otherwise it may lead to something else or to nothing.
-/

namespace ResponseGraph

/-! ## Ways through a payload -/

namespace Json

/-- The value a single step leads to. -/
def step? : Json → Step → Option Json
  | .object members, .key name => Entries.get? name members
  | .array items, .index i => items[i]?
  | _, _ => none

/-- The value at a path. -/
def at? (payload : Json) : Path → Option Json
  | [] => some payload
  | step :: path => (payload.step? step).bind fun below => below.at? path

end Json

/-- A way through the payload of a selection: its path by response names, its path by the names of
the schema, and the payload at its end. -/
inductive Fields.Way : Fields → Json → Path → Path → Json → Prop
  | here (fields : Fields) (payload : Json) : Way fields payload [] [] payload
  | item {fields : Fields} {payloads : List Json} {index : Nat} {payload last : Json}
    {named stored : Path} (found : payloads[index]? = some payload)
    (way : Way fields payload named stored last) :
    Way fields (.array payloads) (.index index :: named) (.index index :: stored) last
  | member {fields : Fields} {name : String} {field : Field} {members : List (String × Json)}
    {payload last : Json} {named stored : Path} (selected : (name, field) ∈ fields)
    (included : field.head.excluded = false) (found : Entries.get? name members = some payload)
    (way : Way field.inner payload named stored last) :
    Way fields (.object members) (.key name :: named)
      (.key (field.head.schemaName.getD name) :: stored) last

namespace Fields.Way

variable {fields more : Fields} {payload last : Json} {named stored : Path}

theorem at? (h : Way fields payload named stored last) : payload.at? named = some last := by
  induction h with
  | here => rfl
  | item found _ ih =>
    rw [Json.at?, Json.step?, found]
    exact ih
  | member _ _ found _ ih =>
    rw [Json.at?, Json.step?, found]
    exact ih

/-- Without other response names both paths are the same. -/
theorem named_eq_stored (h : Way fields payload named stored last)
    (unaliased : ∀ name field, Contains fields name field → field.head.schemaName = none) :
    named = stored := by
  induction h with
  | here => rfl
  | item _ _ ih => rw [ih unaliased]
  | member selected _ _ _ ih =>
    rw [unaliased _ _ (.here selected),
      ih fun _ _ inside => unaliased _ _ (.deeper selected inside)]
    rfl

theorem mono (h : Way fields payload named stored last) (within : fields ⊆ more) :
    Way more payload named stored last := by
  induction h generalizing more with
  | here => exact .here more _
  | item found _ ih => exact .item found (ih within)
  | member selected included found way _ => exact .member (within selected) included found way

end Fields.Way

/-! ## Errors along a way -/

/-- A payload error carries the payload at the end of a way, and its path is that of the way by the
names of the schema, from a position on. -/
def Error.Points (fields : Fields) (position : Path) (payload : Json) (e : Error) : Prop :=
  ∀ failure, e = .payload failure → ∃ named stored,
    Fields.Way fields payload named stored failure.payload ∧
      failure.base ++ failure.path = position ++ stored

namespace Error.Points

variable {fields : Fields} {position : Path} {payload : Json} {e : Error}

theorem misfit (fields : Fields) (place : Place) (reason : String) (payload : Json) :
    (place.misfit reason payload).Points fields place.payloadPath payload := by
  intro failure same
  cases same
  exact ⟨[], [], .here fields payload, (List.append_nil _).symm⟩

theorem usage (e : UsageError) : (Error.usage e).Points fields position payload :=
  fun _ same => nomatch same

theorem item {payloads : List Json} {index : Nat} (found : payloads[index]? = some payload)
    (h : e.Points fields (position ++ [.index index]) payload) :
    e.Points fields position (.array payloads) := by
  intro failure same
  obtain ⟨named, stored, way, path⟩ := h failure same
  exact ⟨_, _, .item found way, path.trans (List.append_assoc _ _ _)⟩

theorem member {name : String} {field : Field} {members : List (String × Json)}
    (selected : (name, field) ∈ fields) (included : field.head.excluded = false)
    (found : Entries.get? name members = some payload)
    (h : e.Points field.inner (position ++ [.key (field.head.schemaName.getD name)]) payload) :
    e.Points fields position (.object members) := by
  intro failure same
  obtain ⟨named, stored, way, path⟩ := h failure same
  exact ⟨_, _, .member selected included found way, path.trans (List.append_assoc _ _ _)⟩

theorem mono {more : Fields} (h : e.Points fields position payload) (within : fields ⊆ more) :
    e.Points more position payload := by
  intro failure same
  obtain ⟨named, stored, way, path⟩ := h failure same
  exact ⟨named, stored, way.mono within, path⟩

end Error.Points

/-! ## The steps of a walk -/

namespace Walk

variable {identify : Json → Option NodeId} {set : Nat} {descend : Descent} {fields : Fields}

/-- The place of a field is one step further, also where it is the root of a node. -/
theorem points_field (walk : Walk) (place : Place) (name : String) (head : FieldHead)
    (payload : Json) :
    Ends (fun result => result.2.payloadPath =
        place.payloadPath ++ [.key (head.schemaName.getD name)])
      (Error.Points fields place.payloadPath payload) (walk.field place name head) := by
  have step : (place.step (.key (head.schemaName.getD name))).payloadPath =
      place.payloadPath ++ [.key (head.schemaName.getD name)] := (List.append_assoc _ _ _).symm
  unfold field
  dsimp only
  split
  · exact .ok step
  · unfold parameterized
    split
    · exact .error (.usage _)
    · dsimp only
      split <;> exact .ok ((List.append_nil _).trans step)

/-- A null without an id fits everywhere. -/
theorem null_fits (unnamed : identify .null = none) (walk : Walk) (place : Place)
    (previous : Option Value) :
    Ends (fun _ => True) (fun _ => False) (walk.null identify place previous) := by
  unfold null
  rw [unnamed]
  cases entity? previous with
  | some _ => exact .ok trivial
  | none =>
    dsimp only
    split
    · exact .ok trivial
    · split <;> exact .ok trivial

theorem value_null_fits (unnamed : identify .null = none) (set : Nat) (descend : Descent)
    (place : Place) (walk : Walk) :
    Ends (fun _ => True) (fun _ => False) (value identify set descend place .null walk) := by
  unfold value
  dsimp only
  split
  · exact .ok trivial
  · exact null_fits unnamed walk place _

/-- The members of an object are at the position of the object. -/
theorem points_object (walk : Walk) (place : Place) (previous : Option Value)
    (members : List (String × Json)) :
    Ends (fun result => ∀ below, result.2 = some below → below.payloadPath = place.payloadPath)
      (Error.Points fields place.payloadPath (.object members))
      (walk.object identify set place previous members) := by
  have entered (walk : Walk) (id : NodeId) (below : Place)
      (made : (walk.visit place set id).2 = some below) :
      below.payloadPath = place.payloadPath := by
    unfold visit at made
    split at made
    · cases made
    · cases made
      exact List.append_nil _
  unfold object
  dsimp only
  split
  · refine .ok fun below same => ?_
    cases same
    rfl
  · exact .error (.misfit fields place _ _)
  · split
    · exact .error (.misfit fields place _ _)
    · exact .ok fun below made => entered _ _ below made
  · exact .ok fun below made => entered _ _ below made

mutual
theorem points_value (unnamed : identify .null = none)
    (below : ∀ place members walk, Ends (fun _ => True)
      (Error.Points fields place.payloadPath (.object members)) (descend place members walk)) :
    (payload : Json) → (place : Place) → (walk : Walk) →
    Ends (fun _ => True) (Error.Points fields place.payloadPath payload)
      (value identify set descend place payload walk)
  | .null, place, walk =>
    (value_null_fits unnamed set descend place walk).mono_error fun _ impossible => impossible.elim
  | .object members, place, walk => by
    unfold value
    dsimp only
    split
    · exact .error (.misfit fields place _ _)
    · refine (points_object walk place _ members).bind fun result same => ?_
      obtain ⟨walk, here⟩ := result
      cases here with
      | none => exact .ok trivial
      | some here => exact same here rfl ▸ below here members walk
  | .array payloads, place, walk => by
    unfold value
    dsimp only
    split
    · exact .error (.misfit fields place _ _)
    · refine points_items unnamed below payloads place 0 _ payloads fun _ => ?_
      rw [Nat.zero_add]
  | .bool _, place, _ | .number _, place, _ | .string _, place, _ =>
    .error (.misfit fields place _ _)

theorem points_items (unnamed : identify .null = none)
    (below : ∀ place members walk, Ends (fun _ => True)
      (Error.Points fields place.payloadPath (.object members)) (descend place members walk)) :
    (rest : List Json) → (place : Place) → (index : Nat) → (walk : Walk) →
    (payloads : List Json) → (∀ i : Nat, payloads[index + i]? = rest[i]?) →
    Ends (fun _ => True) (Error.Points fields place.payloadPath (.array payloads))
      (items identify set descend place index rest walk)
  | [], _, _, _, _, _ => .ok trivial
  | payload :: rest, place, index, walk, payloads, among => by
    have step : (place.step (.index index)).payloadPath = place.payloadPath ++ [.index index] :=
      (List.append_assoc _ _ _).symm
    rw [items]
    refine ((points_value unnamed below payload _ walk).mono_error fun e points => ?_).bind
      fun walk _ => points_items unnamed below rest place (index + 1) walk payloads fun i => ?_
    · exact .item (among 0) (step ▸ points)
    · rw [Nat.add_assoc, Nat.add_comm 1 i]
      exact among (i + 1)
end

end Walk

/-! ## Merges -/

section

variable {identify : Json → Option NodeId}

theorem Field.null_fits (unnamed : identify .null = none) (field : Field) (place : Place)
    (walk : Walk) :
    Ends (fun _ => True) (fun _ => False) (field.merge identify place .null walk) := by
  cases field with
  | leaf label head => exact .ok trivial
  | composite label head traits set fields =>
    rw [Field.merge]
    exact Walk.value_null_fits unnamed set _ place walk

mutual
theorem Field.points_merge (unnamed : identify .null = none) : (field : Field) →
    (place : Place) → (payload : Json) → (walk : Walk) →
    Ends (fun _ => True) (Error.Points field.inner place.payloadPath payload)
      (field.merge identify place payload walk)
  | .leaf _ _, _, _, _ => .ok trivial
  | .composite _ _ _ _ fields, place, payload, walk =>
    Walk.points_value unnamed
      (fun place members walk => Fields.points_merge unnamed fields place members walk)
      payload place walk

theorem Fields.points_merge (unnamed : identify .null = none) : (fields : Fields) →
    (place : Place) → (members : List (String × Json)) → (walk : Walk) →
    Ends (fun _ => True) (Error.Points fields place.payloadPath (.object members))
      (Fields.merge identify place members fields walk)
  | [], _, _, _ => .ok trivial
  | (name, field) :: rest, place, members, walk => by
    have later (walk : Walk) : Ends (fun _ => True)
        (Error.Points ((name, field) :: rest) place.payloadPath (.object members))
        (Fields.merge identify place members rest walk) :=
      (Fields.points_merge unnamed rest place members walk).mono_error
        fun _ points => points.mono (List.subset_cons_self _ _)
    rw [Fields.merge]
    split
    · exact later walk
    · next included =>
      obtain ⟨warnings, selected⟩ := walk.member_eq place name members
      rw [selected]
      refine (Walk.points_field _ place name field.head _).bind fun result moved => ?_
      refine (?_ : Ends (fun _ => True) _ _).bind fun walk _ => later walk
      cases found : Entries.get? name members with
      | some payload =>
        rw [payloadOf, found, Option.getD_some]
        refine (Field.points_merge unnamed field result.2 payload result.1).mono_error
          fun e points => ?_
        rw [moved] at points
        exact .member List.mem_cons_self (Bool.eq_false_iff.mpr included) found points
      | none =>
        -- A missing member is taken for null, which never fails.
        rw [payloadOf, found, Option.getD_none]
        exact (Field.null_fits unnamed field result.2 result.1).mono_error
          fun _ impossible => impossible.elim
end

theorem Draft.points_merge (unnamed : identify .null = none) (root : NodeId) (fields : Fields)
    (payload : Json) (draft : Draft) :
    Ends (fun _ => True) (Error.Points fields [] payload)
      (draft.merge identify root fields payload) := by
  unfold Draft.merge
  split
  · exact (Fields.points_merge unnamed fields (.root root) _ _).bind fun _ _ => .ok trivial
  · exact .error (.misfit fields (.root root) _ _)

end

/-- A payload error of a merge carries the payload at the end of a way along the selection.  The
path of the error is that of the way by the names of the schema, so it leads to the payload if no
selected field has another response name. -/
theorem Batch.payload_error_along_way {cache : Cache} {entry : Registered} {payload : Json}
    {batch : Batch} {e : PayloadError} (unnamed : cache.identity.nonempty .null = none)
    (failed : batch.merge cache entry payload = .error (.payload e)) :
    ∃ named, Fields.Way entry.operation.selection.fields payload named (e.base ++ e.path)
        e.payload ∧
      payload.at? named = some e.payload ∧
      ((∀ name field, Fields.Contains entry.operation.selection.fields name field →
          field.head.schemaName = none) →
        payload.at? (e.base ++ e.path) = some e.payload) := by
  have ends : Ends (fun _ => True) (Error.Points entry.operation.selection.fields [] payload)
      (batch.merge cache entry payload) :=
    (Draft.points_merge unnamed _ _ _ _).bind fun _ _ => .ok trivial
  obtain ⟨named, stored, way, path⟩ := ends.of_error failed e rfl
  rw [path, List.nil_append]
  exact ⟨named, way, way.at?, fun unaliased => way.named_eq_stored unaliased ▸ way.at?⟩

/-- The payload error that a merge fails with. -/
def Batch.payloadError? : Except Error (Batch × List String) → Option PayloadError
  | .error (.payload e) => some e
  | _ => none

theorem Batch.eq_error_of_payloadError? {result : Except Error (Batch × List String)}
    {e : PayloadError} (h : payloadError? result = some e) : result = .error (.payload e) := by
  unfold payloadError? at h
  split at h
  · cases h
    rfl
  · cases h

/-- The friend of a user is a number, and the user has a response name of its own.  The error names
the user as the schema does, and its path leads to nothing in the payload. -/
theorem Batch.payload_error_along_way_of_alias : ∃ (cache : Cache) (entry : Registered)
    (payload : Json) (e : PayloadError) (named : Path),
    cache.identity.nonempty .null = none ∧
    (Batch.ofGraph .empty).merge cache entry payload = .error (.payload e) ∧
    e.base = [.key "user"] ∧ e.path = [.key "friend"] ∧
    Fields.Way entry.operation.selection.fields payload named (e.base ++ e.path) e.payload ∧
    payload.at? named = some e.payload ∧ payload.at? (e.base ++ e.path) = none := by
  let cache := Cache.new .default
  let request := Request.query "\x7b u: user \x7b id friend \x7b id \x7d \x7d \x7d"
  let payload := Json.object [("u", .object [("id", .string "1"), ("friend", .nat 5)])]
  have test : (cache.prepare request).2.toOption.any fun entry =>
      (payloadError? ((Batch.ofGraph .empty).merge cache entry payload)).any fun e =>
        decide (e.base = [.key "user"] ∧ e.path = [.key "friend"]) := by
    decide +kernel
  obtain ⟨entry, -, test⟩ := (Option.any_eq_true _ _).mp test
  obtain ⟨e, found, test⟩ := (Option.any_eq_true _ _).mp test
  obtain ⟨base, path⟩ := of_decide_eq_true test
  have failed := eq_error_of_payloadError? found
  have unnamed : cache.identity.nonempty .null = none := rfl
  obtain ⟨named, way, there, -⟩ := Batch.payload_error_along_way unnamed failed
  refine ⟨cache, entry, payload, e, named, unnamed, failed, base, path, way, there, ?_⟩
  rw [base, path]
  rfl

end ResponseGraph
