import ResponseGraph.Proofs.Json.Text
import ResponseGraph.Proofs.Value.Observed

/-!
Values by their text.

The text of a value tells it part by part, a number as far as its own text does, with one
exception: a reference is written as an object with one member, and an object of a payload may
have just this member.  So two values that are written alike are the same if their references
are at the same places and their numbers are told apart.
-/

namespace ResponseGraph
namespace Value

/-- The members are those of the object that a reference to the id is written as. -/
def refersTo (id : String) : List (String × Value) → Bool
  | [(name, .string s)] => name == "__ref" && s == id
  | _ => false

/- Alike part by part and in order, a number as its text and a reference as the object that it is
written as. -/
mutual
def writtenAlike : Value → Value → Bool
  | .null, .null => true
  | .bool a, .bool b => a == b
  | .number a, .number b => a.text == b.text
  | .string a, .string b => a == b
  | .list xs, .list ys => itemsWrittenAlike xs ys
  | .object xs, .object ys => membersWrittenAlike xs ys
  | .reference a, .reference b => a == b
  | .reference id, .object members => refersTo id members
  | .object members, .reference id => refersTo id members
  | _, _ => false
termination_by structural x => x

def itemsWrittenAlike : List Value → List Value → Bool
  | [], [] => true
  | x :: xs, y :: ys => writtenAlike x y && itemsWrittenAlike xs ys
  | _, _ => false
termination_by structural xs => xs

def membersWrittenAlike : List (String × Value) → List (String × Value) → Bool
  | [], [] => true
  | (name, x) :: xs, (other, y) :: ys =>
    name == other && writtenAlike x y && membersWrittenAlike xs ys
  | _, _ => false
termination_by structural xs => xs
end

/- The numbers in a value. -/
mutual
def numbers : Value → List Number
  | .number x => [x]
  | .list items => itemsNumbers items
  | .object members => membersNumbers members
  | _ => []
termination_by structural value => value

def itemsNumbers : List Value → List Number
  | [] => []
  | value :: rest => numbers value ++ itemsNumbers rest
termination_by structural values => values

def membersNumbers : List (String × Value) → List Number
  | [] => []
  | (_, value) :: rest => numbers value ++ membersNumbers rest
termination_by structural members => members
end

/-! ## Equal texts -/

/-- Only a string is written as one. -/
theorem text_toJson_eq_string_iff {value : Value} {s : String} :
    value.toJson.text = (Json.string s).text ↔ value = .string s := by
  refine ⟨fun h => ?_, fun h => h ▸ rfl⟩
  cases value with
  | string t => exact congrArg string (Json.text_string_eq_iff.mp h)
  | bool b =>
    have first := Json.opening_eq_of_write (Json.text_eq_iff.mp h)
    cases b <;> simp [toJson, Json.opening] at first
  | _ =>
    have first := Json.opening_eq_of_write (Json.text_eq_iff.mp h)
    simp [toJson, Json.opening] at first

theorem refersTo_iff {id : String} {members : List (String × Value)} :
    refersTo id members ↔ members = [("__ref", .string id)] := by
  constructor
  · intro h
    unfold refersTo at h
    split at h
    · rw [Bool.and_eq_true, beq_iff_eq, beq_iff_eq] at h
      rw [h.1, h.2]
    · cases h
  · rintro rfl
    simp [refersTo]

theorem map_written_toMembers (members : List (String × Value)) :
    (toMembers members).map Json.written =
      members.map fun entry => (entry.1, entry.2.toJson.text) := by
  induction members with
  | nil => rfl
  | cons entry rest ih => exact congrArg (List.cons _) ih

/-- An object is written as a reference is if it has the one member that says so. -/
theorem text_reference_eq_object_iff {id : String} {members : List (String × Value)} :
    (reference id).toJson.text = (object members).toJson.text ↔ refersTo id members := by
  show (Json.object _).text = (Json.object _).text ↔ _
  rw [Json.text_object_eq_iff, map_written_toMembers, refersTo_iff]
  constructor
  · intro h
    obtain ⟨⟨name, value⟩, rest, rfl, head, tail⟩ := List.map_eq_cons_iff.mp h.symm
    obtain ⟨names, text⟩ := Prod.mk.inj head
    obtain rfl : name = "__ref" := names
    obtain rfl : value = .string id := text_toJson_eq_string_iff.mp text
    rw [List.map_eq_nil_iff.mp tail]
  · rintro rfl
    rfl

theorem opening_eq_of_writtenAlike {a b : Value} (h : a.writtenAlike b) :
    a.toJson.opening = b.toJson.opening := by
  cases a <;> cases b <;> simp_all [writtenAlike, toJson, Json.opening]

/-- Values that start differently are told apart by both. -/
theorem text_iff_of_opening {a b : Value} (h : a.toJson.opening ≠ b.toJson.opening) :
    a.toJson.text = b.toJson.text ↔ a.writtenAlike b :=
  iff_of_false (fun same => h (Json.opening_eq_of_write (Json.text_eq_iff.mp same)))
    fun same => h (opening_eq_of_writtenAlike same)

mutual
/-- Values have one text exactly if they are written alike part by part. -/
theorem text_toJson_eq_iff : (a b : Value) → (a.toJson.text = b.toJson.text ↔ a.writtenAlike b)
  | .null, b => by
    cases b with
    | null => exact iff_of_true rfl rfl
    | bool c => cases c <;> exact text_iff_of_opening (by simp [toJson, Json.opening])
    | _ => exact text_iff_of_opening (by simp [toJson, Json.opening])
  | .bool a, b => by
    cases b with
    | bool b => cases a <;> cases b <;> decide
    | _ => cases a <;> exact text_iff_of_opening (by simp [toJson, Json.opening])
  | .number m, b => by
    cases b with
    | number n => exact Json.text_number_eq_iff.trans beq_iff_eq.symm
    | bool c => cases c <;> exact text_iff_of_opening (by simp [toJson, Json.opening])
    | _ => exact text_iff_of_opening (by simp [toJson, Json.opening])
  | .string s, b => by
    cases b with
    | string t => exact Json.text_string_eq_iff.trans beq_iff_eq.symm
    | bool c => cases c <;> exact text_iff_of_opening (by simp [toJson, Json.opening])
    | _ => exact text_iff_of_opening (by simp [toJson, Json.opening])
  | .list xs, b => by
    cases b with
    | list ys => exact Json.text_array_eq_iff.trans (map_text_toItems_eq_iff xs ys)
    | bool c => cases c <;> exact text_iff_of_opening (by simp [toJson, Json.opening])
    | _ => exact text_iff_of_opening (by simp [toJson, Json.opening])
  | .object xs, b => by
    cases b with
    | object ys => exact Json.text_object_eq_iff.trans (map_written_toMembers_eq_iff xs ys)
    | reference id => exact eq_comm.trans text_reference_eq_object_iff
    | bool c => cases c <;> exact text_iff_of_opening (by simp [toJson, Json.opening])
    | _ => exact text_iff_of_opening (by simp [toJson, Json.opening])
  | .reference id, b => by
    cases b with
    | object ys => exact text_reference_eq_object_iff
    | reference id' =>
      show (reference id).toJson.text = (object [("__ref", .string id')]).toJson.text ↔ _
      rw [text_reference_eq_object_iff, refersTo_iff, writtenAlike, beq_iff_eq]
      simp [eq_comm]
    | bool c => cases c <;> exact text_iff_of_opening (by simp [toJson, Json.opening])
    | _ => exact text_iff_of_opening (by simp [toJson, Json.opening])

theorem map_text_toItems_eq_iff : (xs ys : List Value) →
    ((toItems xs).map Json.text = (toItems ys).map Json.text ↔ itemsWrittenAlike xs ys)
  | [], [] => iff_of_true rfl rfl
  | [], y :: ys => iff_of_false (by simp [toItems]) (by simp [itemsWrittenAlike])
  | x :: xs, [] => iff_of_false (by simp [toItems]) (by simp [itemsWrittenAlike])
  | x :: xs, y :: ys => by
    rw [itemsWrittenAlike, Bool.and_eq_true, ← text_toJson_eq_iff x y,
      ← map_text_toItems_eq_iff xs ys]
    exact List.cons_eq_cons

theorem map_written_toMembers_eq_iff : (xs ys : List (String × Value)) →
    ((toMembers xs).map Json.written = (toMembers ys).map Json.written ↔
      membersWrittenAlike xs ys)
  | [], [] => iff_of_true rfl rfl
  | [], y :: ys => iff_of_false (by simp [toMembers]) (by simp [membersWrittenAlike])
  | x :: xs, [] => iff_of_false (by simp [toMembers]) (by simp [membersWrittenAlike])
  | (name, x) :: xs, (other, y) :: ys => by
    rw [membersWrittenAlike, Bool.and_eq_true, Bool.and_eq_true, beq_iff_eq,
      ← text_toJson_eq_iff x y, ← map_written_toMembers_eq_iff xs ys]
    exact List.cons_eq_cons.trans (and_congr_left fun _ => Prod.mk.injEq _ _ _ _ ▸ Iff.rfl)
end

/-- The one thing that the text does not tell. -/
example : (reference "1").toJson.text = (ofJson (.object [("__ref", .string "1")])).toJson.text ∧
    (reference "1").same (ofJson (.object [("__ref", .string "1")])) = false := by
  decide +kernel

/-! ## Values written alike that are the same -/

theorem numbers_subset_of_mem_items {items : List Value} {value : Value} (h : value ∈ items) :
    value.numbers ⊆ itemsNumbers items := by
  induction items with
  | nil => cases h
  | cons first rest ih =>
    intro x member
    rw [itemsNumbers, List.mem_append]
    rcases List.mem_cons.mp h with rfl | later
    · exact Or.inl member
    · exact Or.inr (ih later member)

theorem numbers_subset_of_mem_members {members : List (String × Value)} {name : String}
    {value : Value} (h : (name, value) ∈ members) : value.numbers ⊆ membersNumbers members := by
  induction members with
  | nil => cases h
  | cons first rest ih =>
    obtain ⟨key, found⟩ := first
    intro x member
    rw [membersNumbers, List.mem_append]
    rcases List.mem_cons.mp h with e | later
    · cases e
      exact Or.inl member
    · exact Or.inr (ih later member)

theorem numbers_subset_of_step? {value below : Value} {step : Step}
    (found : value.step? step = some below) : below.numbers ⊆ value.numbers := by
  cases value with
  | list items =>
    cases step with
    | key name => cases found
    | index i => exact numbers_subset_of_mem_items (List.mem_of_getElem? found)
  | object members =>
    cases step with
    | key name => exact numbers_subset_of_mem_members (Entries.mem_of_get? found)
    | index i => cases found
  | _ => cases found

theorem length_eq_of_itemsWrittenAlike {xs ys : List Value} (h : itemsWrittenAlike xs ys) :
    xs.length = ys.length := by
  induction xs generalizing ys with
  | nil =>
    cases ys with
    | nil => rfl
    | cons y ys => cases h
  | cons x xs ih =>
    cases ys with
    | nil => cases h
    | cons y ys =>
      obtain ⟨-, below⟩ := (Bool.and_eq_true _ _).mp (show (_ && _) = true from h)
      exact congrArg (· + 1) (ih below)

theorem rel_getElem?_of_itemsWrittenAlike {xs ys : List Value} (h : itemsWrittenAlike xs ys)
    (i : Nat) : Option.Rel (fun x y => x.writtenAlike y) xs[i]? ys[i]? := by
  induction xs generalizing ys i with
  | nil =>
    cases ys with
    | nil => exact .none
    | cons y ys => cases h
  | cons x xs ih =>
    cases ys with
    | nil => cases h
    | cons y ys =>
      obtain ⟨here, below⟩ := (Bool.and_eq_true _ _).mp (show (_ && _) = true from h)
      cases i with
      | zero => exact .some here
      | succ i => exact ih below i

theorem rel_get?_of_membersWrittenAlike {xs ys : List (String × Value)}
    (h : membersWrittenAlike xs ys) (name : String) :
    Option.Rel (fun x y => x.writtenAlike y) (Entries.get? name xs) (Entries.get? name ys) := by
  induction xs generalizing ys with
  | nil =>
    cases ys with
    | nil => exact .none
    | cons y ys => cases h
  | cons x xs ih =>
    obtain ⟨key, x⟩ := x
    cases ys with
    | nil => cases h
    | cons y ys =>
      obtain ⟨other, y⟩ := y
      rw [membersWrittenAlike, Bool.and_eq_true, Bool.and_eq_true, beq_iff_eq] at h
      obtain ⟨⟨rfl, here⟩, below⟩ := h
      rw [Entries.get?_cons, Entries.get?_cons]
      split
      · exact .some here
      · exact ih below

section

variable {a b : Value}

theorem sameTop_of_writtenAlike (written : a.writtenAlike b)
    (references : ∀ id, a = .reference id ↔ b = .reference id)
    (numbers : ∀ m ∈ a.numbers, ∀ n ∈ b.numbers, m.text = n.text → m.same n) :
    sameTop a b := by
  cases a <;> cases b <;> try exact written
  case number.number m n =>
    exact numbers m List.mem_cons_self n List.mem_cons_self (beq_iff_eq.mp written)
  case list.list xs ys => exact beq_iff_eq.mpr (length_eq_of_itemsWrittenAlike written)
  case object.object => rfl
  case reference.object id members => cases (references id).mp rfl
  case object.reference members id => cases (references id).mpr rfl

theorem rel_step?_of_writtenAlike (written : a.writtenAlike b)
    (references : ∀ id, a = .reference id ↔ b = .reference id) (step : Step) :
    Option.Rel (fun x y => x.writtenAlike y) (a.step? step) (b.step? step) := by
  cases a <;> cases b <;> try first | exact .none | cases written
  case list.list xs ys =>
    cases step with
    | key name => exact .none
    | index i => exact rel_getElem?_of_itemsWrittenAlike written i
  case object.object xs ys =>
    cases step with
    | key name => exact rel_get?_of_membersWrittenAlike written name
    | index i => exact .none
  case reference.object id members => cases (references id).mp rfl
  case object.reference members id => cases (references id).mpr rfl

/-- Values that are written alike are read alike exactly if they have the same references, provided
that the text tells their numbers. -/
theorem readAlike_iff_references (written : a.writtenAlike b)
    (numbers : ∀ m ∈ a.numbers, ∀ n ∈ b.numbers, m.text = n.text → m.same n) :
    ReadAlike a b ↔ ∀ path id, a.get? path = some (.reference id) ↔
      b.get? path = some (.reference id) := by
  refine ⟨fun alike path id => ⟨fun found => ?_, fun found => ?_⟩, ?_⟩
  · have here := alike path
    rw [found] at here
    exact here.eq_reference
  · have here := (alike path).symm
    rw [found] at here
    exact here.eq_reference
  intro references path
  induction path generalizing a b with
  | nil =>
    refine .some (sameTop_of_writtenAlike written (fun id => ?_) numbers)
    exact (Option.some_inj.symm.trans (references [] id)).trans Option.some_inj
  | cons step path ih =>
    have top : ∀ id, a = .reference id ↔ b = .reference id := fun id =>
      (Option.some_inj.symm.trans (references [] id)).trans Option.some_inj
    rw [get?_cons, get?_cons]
    rcases exists_of_rel (rel_step?_of_writtenAlike written top step) with
      ⟨none, none'⟩ | ⟨x, y, found, found', below⟩
    · rw [none, none']
      exact .none
    · rw [found, found']
      refine ih below (fun m member n member' => ?_) fun rest id => ?_
      · exact numbers m (numbers_subset_of_step? found member) n
          (numbers_subset_of_step? found' member')
      · have here := references (step :: rest) id
        rwa [get?_cons, get?_cons, found, found'] at here

end

end Value
end ResponseGraph
