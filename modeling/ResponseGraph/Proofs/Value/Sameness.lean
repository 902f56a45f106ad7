import ResponseGraph.Value

/-!
Sameness of stored data and payloads.

Stored data that is the same as a payload is the same as every payload that equals it, and
what a payload is stored as is the same as the payload.
-/

namespace ResponseGraph

theorem Double.same_trans {a b c : Double} (first : a.same b) (second : b.same c) : a.same c := by
  unfold Double.same at *
  simp only [Bool.or_eq_true, Bool.and_eq_true, beq_iff_eq] at *
  rcases first with ⟨zero, zero'⟩ | rfl
  · rcases second with ⟨-, last⟩ | rfl
    · exact Or.inl ⟨zero, last⟩
    · exact Or.inl ⟨zero, zero'⟩
  · exact second

theorem Number.same_trans {a b c : Number} (first : a.same b) (second : b.same c) : a.same c := by
  cases a <;> cases b <;> cases c <;> simp only [Number.same, Bool.false_eq_true] at first second ⊢
  · rw [beq_iff_eq] at *
    rw [first, second]
  · exact Double.same_trans first second

namespace Json

theorem sameMembers_iff (members others : List (String × Json)) :
    sameMembers members others = true ↔
      ∀ name payload, (name, payload) ∈ members →
        ∃ other, Entries.get? name others = some other ∧ payload.same other := by
  induction members with
  | nil => simp [sameMembers]
  | cons head rest ih =>
    obtain ⟨name, payload⟩ := head
    rw [sameMembers, Bool.and_eq_true, ih]
    constructor
    · intro h label found member
      obtain ⟨here, below⟩ := h
      rcases List.mem_cons.mp member with e | member
      · cases e
        split at here
        · next other lookup => exact ⟨other, lookup, here⟩
        · cases here
      · exact below label found member
    · intro all
      refine ⟨?_, fun other found member => all other found (List.mem_cons_of_mem _ member)⟩
      obtain ⟨other, lookup, here⟩ := all name payload List.mem_cons_self
      rw [lookup]
      exact here

end Json

namespace Value

mutual
theorem sameAsJson_trans : (value : Value) → {a b : Json} → value.sameAsJson a → a.same b →
    value.sameAsJson b
  | .null, a, b, first, second => by
    cases a <;> cases b <;> simp_all [sameAsJson, Json.same]
  | .bool _, a, b, first, second => by
    cases a <;> cases b <;> simp_all [sameAsJson, Json.same]
  | .number _, a, b, first, second => by
    cases a <;> cases b <;> simp only [sameAsJson, Json.same, Bool.false_eq_true] at first second ⊢
    exact Number.same_trans first second
  | .string _, a, b, first, second => by
    cases a <;> cases b <;> simp_all [sameAsJson, Json.same]
  | .reference _, a, b, first, second => by
    cases a <;> simp [sameAsJson] at first
  | .list items, a, b, first, second => by
    cases a <;> cases b <;> simp only [sameAsJson, Json.same, Bool.false_eq_true] at first second ⊢
    exact itemsSameAsJson_trans items first second
  | .object members, a, b, first, second => by
    cases a <;> cases b <;> simp only [sameAsJson, Json.same, Bool.false_eq_true] at first second ⊢
    rw [Bool.and_eq_true, beq_iff_eq] at first second ⊢
    exact ⟨first.1.trans second.1, membersSameAsJson_trans members first.2 second.2⟩

theorem itemsSameAsJson_trans : (items : List Value) → {as bs : List Json} →
    itemsSameAsJson items as → Json.sameItems as bs → itemsSameAsJson items bs
  | [], as, bs, first, second => by
    cases as <;> cases bs <;> simp_all [itemsSameAsJson, Json.sameItems]
  | value :: rest, as, bs, first, second => by
    cases as <;> cases bs <;>
      simp only [itemsSameAsJson, Json.sameItems, Bool.false_eq_true] at first second ⊢
    rw [Bool.and_eq_true] at first second ⊢
    exact ⟨sameAsJson_trans value first.1 second.1, itemsSameAsJson_trans rest first.2 second.2⟩

theorem membersSameAsJson_trans : (members : List (String × Value)) →
    {as bs : List (String × Json)} → membersSameAsJson members as → Json.sameMembers as bs →
    membersSameAsJson members bs
  | [], as, bs, first, second => rfl
  | (name, value) :: rest, as, bs, first, second => by
    rw [membersSameAsJson, Bool.and_eq_true] at first ⊢
    refine ⟨?_, membersSameAsJson_trans rest first.2 second⟩
    have here := first.1
    split at here
    · next payload lookup =>
      obtain ⟨other, found, same⟩ := (Json.sameMembers_iff as bs).mp second name payload
        (Entries.mem_of_get? lookup)
      rw [found]
      exact sameAsJson_trans value here same
    · cases here
end

mutual
/-- What a payload is stored as is the same as what the payload equals. -/
theorem sameAsJson_ofJson : (a b : Json) → (ofJson a).sameAsJson b = a.same b
  | .null, b => by cases b <;> rfl
  | .bool _, b => by cases b <;> rfl
  | .number _, b => by cases b <;> rfl
  | .string _, b => by cases b <;> rfl
  | .array items, b => by
    cases b <;> try rfl
    exact itemsSameAsJson_ofItems items _
  | .object members, b => by
    cases b <;> try rfl
    next others =>
    show (_ == _ && _) = (_ == _ && _)
    rw [membersSameAsJson_ofMembers members others, length_ofMembers members]

theorem itemsSameAsJson_ofItems : (as bs : List Json) →
    itemsSameAsJson (ofItems as) bs = Json.sameItems as bs
  | [], bs => by cases bs <;> rfl
  | a :: as, [] => rfl
  | a :: as, b :: bs => by
    show (_ && _) = (_ && _)
    rw [sameAsJson_ofJson a b, itemsSameAsJson_ofItems as bs]

theorem membersSameAsJson_ofMembers : (as bs : List (String × Json)) →
    membersSameAsJson (ofMembers as) bs = Json.sameMembers as bs
  | [], bs => rfl
  | (name, a) :: as, bs => by
    rw [ofMembers, membersSameAsJson, Json.sameMembers, membersSameAsJson_ofMembers as bs]
    cases Entries.get? name bs with
    | none => rfl
    | some b => exact congrArg (· && Json.sameMembers as bs) (sameAsJson_ofJson a b)

theorem length_ofMembers : (members : List (String × Json)) →
    (ofMembers members).length = members.length
  | [] => rfl
  | (_, _) :: rest => congrArg (· + 1) (length_ofMembers rest)
end

mutual
/-- A payload is stored without references. -/
theorem get?_ofJson_ne : (payload : Json) → (path : Path) → (id : String) →
    (ofJson payload).get? path ≠ some (.reference id)
  | .null, path, id | .bool _, path, id | .number _, path, id | .string _, path, id => by
    cases path with
    | nil => intro h; cases h
    | cons step path => cases step <;> intro h <;> cases h
  | .array items, path, id => by
    cases path with
    | nil => intro h; cases h
    | cons step path =>
      cases step with
      | key name => intro h; cases h
      | index i => exact get?_ofItems_ne items i path id
  | .object members, path, id => by
    cases path with
    | nil => intro h; cases h
    | cons step path =>
      cases step with
      | index i => intro h; cases h
      | key name => exact get?_ofMembers_ne members name path id

theorem get?_ofItems_ne : (payloads : List Json) → (i : Nat) → (path : Path) → (id : String) →
    ((ofItems payloads)[i]?.bind fun value => value.get? path) ≠ some (.reference id)
  | [], i, path, id => by intro h; cases h
  | payload :: rest, 0, path, id => get?_ofJson_ne payload path id
  | payload :: rest, i + 1, path, id => get?_ofItems_ne rest i path id

theorem get?_ofMembers_ne : (members : List (String × Json)) → (name : String) → (path : Path) →
    (id : String) → ((Entries.get? name (ofMembers members)).bind fun value => value.get? path) ≠
      some (.reference id)
  | [], name, path, id => by intro h; cases h
  | (key, payload) :: rest, name, path, id => by
    rw [ofMembers, Entries.get?_cons]
    split
    · exact get?_ofJson_ne payload path id
    · exact get?_ofMembers_ne rest name path id
end

/- The payload that a value is stored for, if no reference is in it. -/
mutual
def payload? : Value → Option Json
  | .null => some .null
  | .bool b => some (.bool b)
  | .number x => some (.number x)
  | .string s => some (.string s)
  | .list items => (payloadItems? items).map .array
  | .object members => (payloadMembers? members).map .object
  | .reference _ => none
termination_by structural value => value

def payloadItems? : List Value → Option (List Json)
  | [] => some []
  | value :: rest => do
    let payload ← payload? value
    let others ← payloadItems? rest
    return payload :: others
termination_by structural values => values

def payloadMembers? : List (String × Value) → Option (List (String × Json))
  | [] => some []
  | (name, value) :: rest => do
    let payload ← payload? value
    let others ← payloadMembers? rest
    return (name, payload) :: others
termination_by structural members => members
end

mutual
/-- Stored data that is the same as a payload gives it back. -/
theorem exists_payload? : (value : Value) → {payload : Json} → value.sameAsJson payload →
    ∃ found, value.payload? = some found ∧ found.same payload
  | .null, payload, h | .bool _, payload, h | .number _, payload, h | .string _, payload, h => by
    refine ⟨_, rfl, ?_⟩
    cases payload <;> exact h
  | .reference _, payload, h => by cases payload <;> cases h
  | .list items, payload, h => by
    cases payload <;> try cases h
    next payloads =>
    have inside : itemsSameAsJson items payloads := h
    obtain ⟨found, back, same⟩ := exists_payloadItems? items inside
    exact ⟨.array found, congrArg (Option.map Json.array) back, same⟩
  | .object members, payload, h => by
    cases payload <;> try cases h
    next others =>
    obtain ⟨long, same⟩ := (Bool.and_eq_true _ _).mp (show (_ && _) = true from h)
    obtain ⟨found, back, long', same'⟩ := exists_payloadMembers? members same
    refine ⟨.object found, congrArg (Option.map Json.object) back, ?_⟩
    show (_ && _) = true
    rw [long', long, same']
    rfl

theorem exists_payloadItems? : (items : List Value) → {payloads : List Json} →
    itemsSameAsJson items payloads →
    ∃ found, payloadItems? items = some found ∧ Json.sameItems found payloads
  | [], payloads, h => by
    refine ⟨[], rfl, ?_⟩
    cases payloads <;> exact h
  | value :: rest, payloads, h => by
    cases payloads with
    | nil => cases h
    | cons payload others =>
      obtain ⟨here, below⟩ := (Bool.and_eq_true _ _).mp (show (_ && _) = true from h)
      obtain ⟨found, back, same⟩ := exists_payload? value here
      obtain ⟨more, back', same'⟩ := exists_payloadItems? rest below
      refine ⟨found :: more, ?_, ?_⟩
      · rw [payloadItems?, back, back']
        rfl
      · show (_ && _) = true
        rw [same, same']
        rfl

theorem exists_payloadMembers? : (members : List (String × Value)) →
    {others : List (String × Json)} → membersSameAsJson members others →
    ∃ found, payloadMembers? members = some found ∧ found.length = members.length ∧
      Json.sameMembers found others
  | [], others, h => ⟨[], rfl, rfl, rfl⟩
  | (name, value) :: rest, others, h => by
    obtain ⟨here, below⟩ := (Bool.and_eq_true _ _).mp (show (_ && _) = true from h)
    split at here
    · next payload lookup =>
      obtain ⟨found, back, same⟩ := exists_payload? value here
      obtain ⟨more, back', long, same'⟩ := exists_payloadMembers? rest below
      refine ⟨(name, found) :: more, ?_, congrArg (· + 1) long, ?_⟩
      · rw [payloadMembers?, back, back']
        rfl
      · show (_ && _) = true
        rw [lookup, same']
        exact (Bool.and_true _).trans same
    · cases here
end

end Value
end ResponseGraph
