import ResponseGraph.Proofs.Json.Distinct
import ResponseGraph.Proofs.Value.Paths
import ResponseGraph.Proofs.Value.Sameness

/-!
Values by what is read in them.

Two values in which no object repeats a name are the same exactly if the same kind of thing
is read at every path (`same_iff`): equal scalars, lists of one length, references to one id,
or two objects.
-/

namespace ResponseGraph
namespace Value

/- No object has two members of one name. -/
mutual
def distinct : Value → Bool
  | .list items => distinctItems items
  | .object members => decide (members.map Prod.fst).Nodup && distinctMembers members
  | _ => true
termination_by structural value => value

def distinctItems : List Value → Bool
  | [] => true
  | value :: rest => distinct value && distinctItems rest
termination_by structural values => values

def distinctMembers : List (String × Value) → Bool
  | [] => true
  | (_, value) :: rest => distinct value && distinctMembers rest
termination_by structural members => members
end

/-- The same as far as one sees without looking into lists and objects. -/
def sameTop : Value → Value → Bool
  | .null, .null => true
  | .bool a, .bool b => a == b
  | .number a, .number b => a.same b
  | .string a, .string b => a == b
  | .list xs, .list ys => xs.length == ys.length
  | .object _, .object _ => true
  | .reference a, .reference b => a == b
  | _, _ => false

/-- The same kind of thing is read, or nothing in both. -/
abbrev SameTop : Option Value → Option Value → Prop := Option.Rel fun a b => sameTop a b

/-- The same kind of thing is read at every path. -/
def ReadAlike (a b : Value) : Prop := ∀ path, SameTop (a.get? path) (b.get? path)

/-! ## Distinct names -/

theorem distinctItems_iff {items : List Value} :
    distinctItems items ↔ ∀ value ∈ items, value.distinct := by
  induction items with
  | nil => simp [distinctItems]
  | cons value rest ih => simp [distinctItems, ih]

theorem distinctMembers_iff {members : List (String × Value)} :
    distinctMembers members ↔ ∀ name value, (name, value) ∈ members → value.distinct := by
  induction members with
  | nil => simp [distinctMembers]
  | cons entry rest ih =>
    obtain ⟨name, value⟩ := entry
    rw [distinctMembers, Bool.and_eq_true, ih]
    constructor
    · rintro ⟨here, below⟩ other found member
      rcases List.mem_cons.mp member with e | member
      · cases e
        exact here
      · exact below other found member
    · exact fun all => ⟨all name value List.mem_cons_self,
        fun other found member => all other found (List.mem_cons_of_mem _ member)⟩

theorem distinct_object_iff {members : List (String × Value)} :
    (object members).distinct ↔ (members.map Prod.fst).Nodup ∧
      ∀ name value, (name, value) ∈ members → value.distinct := by
  rw [distinct, Bool.and_eq_true, decide_eq_true_iff, distinctMembers_iff]

theorem distinct_list_iff {items : List Value} :
    (list items).distinct ↔ ∀ value ∈ items, value.distinct := distinctItems_iff

theorem distinct_members {value : Value} (h : value.distinct) :
    (value.members.map Prod.fst).Nodup ∧
      ∀ name below, (name, below) ∈ value.members → below.distinct := by
  cases value with
  | object members => exact distinct_object_iff.mp h
  | _ => exact ⟨List.nodup_nil, fun _ _ member => absurd member List.not_mem_nil⟩

theorem distinct_items {value : Value} (h : value.distinct) :
    ∀ below ∈ value.items, below.distinct := by
  cases value with
  | list items => exact distinct_list_iff.mp h
  | _ => exact fun _ member => absurd member List.not_mem_nil

theorem distinct_step? {value below : Value} {step : Step} (h : value.distinct)
    (found : value.step? step = some below) : below.distinct := by
  cases step with
  | key name =>
    rw [step?_key] at found
    exact (distinct_members h).2 name below (Entries.mem_of_get? found)
  | index i =>
    rw [step?_index] at found
    exact distinct_items h below (List.mem_of_getElem? found)

theorem distinct_get? {value below : Value} {path : Path} (h : value.distinct)
    (found : value.get? path = some below) : below.distinct := by
  induction path generalizing value with
  | nil =>
    cases found
    exact h
  | cons step path ih =>
    rw [get?_cons] at found
    obtain ⟨next, held, found⟩ := Option.bind_eq_some_iff.mp found
    exact ih (distinct_step? h held) found

theorem distinct_resize {items : List Value} (h : ∀ value ∈ items, value.distinct)
    (length : Nat) : ∀ value ∈ resize items length, value.distinct := by
  intro value member
  rcases List.mem_append.mp member with old | new
  · exact h value (List.mem_of_mem_take old)
  · rw [List.eq_of_mem_replicate new]
    rfl

theorem distinct_put {value new : Value} (h : value.distinct) (step : Step) (hn : new.distinct) :
    (value.put step new).distinct := by
  cases step with
  | key name =>
    obtain ⟨names, below⟩ := distinct_members h
    refine distinct_object_iff.mpr ⟨Entries.nodup_put names name new, ?_⟩
    intro other found member
    rcases Entries.mem_put names member with ⟨-, rfl⟩ | ⟨-, old⟩
    · exact hn
    · exact below other found old
  | index i =>
    refine distinct_list_iff.mpr fun found member => ?_
    rcases List.mem_or_eq_of_mem_set member with old | rfl
    · split at old
      · exact distinct_items h found old
      · exact distinct_resize (distinct_items h) _ found old
    · exact hn

theorem distinct_set {value new : Value} (h : value.distinct) (path : Path) (hn : new.distinct) :
    (value.set path new).distinct := by
  induction path generalizing value with
  | nil => exact hn
  | cons step path ih =>
    rw [set_cons]
    refine distinct_put h step (ih ?_)
    cases found : value.step? step with
    | none => rfl
    | some below => exact distinct_step? h found

theorem names_ofMembers (members : List (String × Json)) :
    (ofMembers members).map Prod.fst = members.map Prod.fst := by
  induction members with
  | nil => rfl
  | cons entry rest ih => exact congrArg (List.cons _) ih

theorem ofMembers_eq_map (members : List (String × Json)) :
    ofMembers members = members.map fun entry => (entry.1, ofJson entry.2) := by
  induction members with
  | nil => rfl
  | cons entry rest ih => exact congrArg (List.cons _) ih

mutual
theorem distinct_ofJson : (payload : Json) → (ofJson payload).distinct = payload.distinct
  | .null => rfl
  | .bool _ => rfl
  | .number _ => rfl
  | .string _ => rfl
  | .array items => distinct_ofItems items
  | .object members => by
    show (_ && _) = (_ && _)
    rw [names_ofMembers, distinct_ofMembers members]

theorem distinct_ofItems : (items : List Json) →
    distinctItems (ofItems items) = Json.distinctItems items
  | [] => rfl
  | payload :: rest => by
    show (_ && _) = (_ && _)
    rw [distinct_ofJson payload, distinct_ofItems rest]

theorem distinct_ofMembers : (members : List (String × Json)) →
    distinctMembers (ofMembers members) = Json.distinctMembers members
  | [] => rfl
  | (_, payload) :: rest => by
    show (_ && _) = (_ && _)
    rw [distinct_ofJson payload, distinct_ofMembers rest]
end

/-! ## The same at every path -/

theorem readAlike_of_step {a b : Value} (top : sameTop a b)
    (below : ∀ step path, SameTop (a.get? (step :: path)) (b.get? (step :: path))) :
    ReadAlike a b := by
  intro path
  cases path with
  | nil => exact .some top
  | cons step path => exact below step path

theorem ReadAlike.top {a b : Value} (h : ReadAlike a b) : sameTop a b := by
  have here := h []
  cases here with
  | some top => exact top

theorem rel_of_bind {α β : Type} {related : Value → Value → Prop} {x : Option α} {y : Option β}
    {f : α → Path → Option Value} {g : β → Path → Option Value}
    (root : ∀ a, f a [] ≠ none) (root' : ∀ b, g b [] ≠ none)
    (h : ∀ path, Option.Rel related (x.bind fun a => f a path) (y.bind fun b => g b path)) :
    Option.Rel (fun a b => ∀ path, Option.Rel related (f a path) (g b path)) x y := by
  have here := h []
  cases x with
  | none =>
    cases y with
    | none => exact .none
    | some b =>
      obtain ⟨found, e⟩ := Option.ne_none_iff_exists'.mp (root' b)
      rw [Option.bind_some, e] at here
      cases here
  | some a =>
    cases y with
    | none =>
      obtain ⟨found, e⟩ := Option.ne_none_iff_exists'.mp (root a)
      rw [Option.bind_some, e] at here
      cases here
    | some b => exact .some h

theorem ReadAlike.get? {a b : Value} (h : ReadAlike a b) (path : Path) :
    Option.Rel ReadAlike (a.get? path) (b.get? path) := by
  refine rel_of_bind (fun _ => Option.some_ne_none _) (fun _ => Option.some_ne_none _) fun rest => ?_
  rw [← get?_append, ← get?_append]
  exact h (path ++ rest)

/-- What is read below one step is alike if what the step leads to is. -/
theorem forall_below_iff {a b : Value} (step : Step) :
    (∀ path, SameTop (a.get? (step :: path)) (b.get? (step :: path))) ↔
      Option.Rel ReadAlike (a.step? step) (b.step? step) := by
  constructor
  · exact rel_of_bind (fun _ => Option.some_ne_none _) fun _ => Option.some_ne_none _
  · intro h path
    rw [get?_cons, get?_cons]
    cases first : a.step? step <;> cases second : b.step? step <;> rw [first, second] at h <;>
      cases h
    · exact .none
    · next h => exact h path

theorem readAlike_iff {a b : Value} : ReadAlike a b ↔
    sameTop a b ∧ ∀ step, Option.Rel ReadAlike (a.step? step) (b.step? step) := by
  constructor
  · exact fun h => ⟨h.top, fun step => (forall_below_iff step).mp fun path => h (step :: path)⟩
  · exact fun h => readAlike_of_step h.1 fun step => (forall_below_iff step).mpr (h.2 step)

theorem readAlike_list_iff {xs ys : List Value} : ReadAlike (.list xs) (.list ys) ↔
    xs.length = ys.length ∧ ∀ i : Nat, Option.Rel ReadAlike xs[i]? ys[i]? := by
  rw [readAlike_iff, sameTop, beq_iff_eq]
  refine and_congr_right fun _ => ⟨fun h i => h (.index i), fun h step => ?_⟩
  cases step with
  | index i => exact h i
  | key name => exact .none

theorem readAlike_object_iff {xs ys : List (String × Value)} :
    ReadAlike (.object xs) (.object ys) ↔
      ∀ name, Option.Rel ReadAlike (Entries.get? name xs) (Entries.get? name ys) := by
  rw [readAlike_iff, sameTop, eq_self_iff_true, true_and]
  refine ⟨fun h name => h (.key name), fun h step => ?_⟩
  cases step with
  | key name => exact h name
  | index i => exact .none

/-- Nothing can be read in the value. -/
def Flat (value : Value) : Prop := ∀ step, value.step? step = none

/-- A value in which nothing can be read is the same as the values that are so at the top. -/
theorem same_iff_of_flat {a b : Value} (here : a.same b = sameTop a b) (flat : a.Flat)
    (flat' : sameTop a b → b.Flat) : a.same b ↔ ReadAlike a b := by
  rw [here]
  refine ⟨fun top => readAlike_iff.mpr ⟨top, fun step => ?_⟩, ReadAlike.top⟩
  rw [flat step, flat' top step]
  exact .none

mutual
/-- Values without repeated names are the same exactly if they are read alike. -/
theorem same_iff : (a b : Value) → a.distinct → b.distinct → (a.same b ↔ ReadAlike a b)
  | .null, b, _, _ => same_iff_of_flat (by cases b <;> rfl) (fun step => by cases step <;> rfl)
      fun top step => by cases b <;> first | (cases step <;> rfl) | cases top
  | .bool x, b, _, _ => same_iff_of_flat (by cases b <;> rfl) (fun step => by cases step <;> rfl)
      fun top step => by cases b <;> first | (cases step <;> rfl) | cases top
  | .number x, b, _, _ => same_iff_of_flat (by cases b <;> rfl) (fun step => by cases step <;> rfl)
      fun top step => by cases b <;> first | (cases step <;> rfl) | cases top
  | .string x, b, _, _ => same_iff_of_flat (by cases b <;> rfl) (fun step => by cases step <;> rfl)
      fun top step => by cases b <;> first | (cases step <;> rfl) | cases top
  | .reference x, b, _, _ => same_iff_of_flat (by cases b <;> rfl) (fun step => by cases step <;> rfl)
      fun top step => by cases b <;> first | (cases step <;> rfl) | cases top
  | .list xs, b, ha, hb => by
    cases b with
    | list ys =>
      rw [same, readAlike_list_iff]
      exact sameItems_iff xs ys ha hb
    | _ => exact iff_of_false (fun h => by cases h) fun h => by cases h.top
  | .object xs, b, ha, hb => by
    cases b with
    | object ys =>
      obtain ⟨names, below⟩ := distinct_object_iff.mp ha
      obtain ⟨names', below'⟩ := distinct_object_iff.mp hb
      rw [same, Bool.and_eq_true, beq_iff_eq, readAlike_object_iff,
        Entries.forall_rel_get?_iff names names', sameMembers_iff xs ys below below']
    | _ => exact iff_of_false (fun h => by cases h) fun h => by cases h.top

theorem sameItems_iff : (xs ys : List Value) → distinctItems xs → distinctItems ys →
    (sameItems xs ys ↔ xs.length = ys.length ∧ ∀ i : Nat, Option.Rel ReadAlike xs[i]? ys[i]?)
  | [], [], _, _ => iff_of_true rfl ⟨rfl, fun _ => .none⟩
  | [], y :: ys, _, _ => iff_of_false (fun h => by cases h) fun h => by cases h.1
  | x :: xs, [], _, _ => iff_of_false (fun h => by cases h) fun h => by cases h.1
  | x :: xs, y :: ys, hx, hy => by
    rw [distinctItems, Bool.and_eq_true] at hx hy
    rw [sameItems, Bool.and_eq_true, same_iff x y hx.1 hy.1, sameItems_iff xs ys hx.2 hy.2,
      List.length_cons, List.length_cons, Nat.add_right_cancel_iff]
    constructor
    · rintro ⟨here, long, below⟩
      refine ⟨long, fun i => ?_⟩
      cases i with
      | zero => exact .some here
      | succ i => exact below i
    · rintro ⟨long, all⟩
      refine ⟨?_, long, fun i => all (i + 1)⟩
      have here := all 0
      cases here with
      | some here => exact here

theorem sameMembers_iff : (xs ys : List (String × Value)) →
    (∀ name x, (name, x) ∈ xs → x.distinct) → (∀ name y, (name, y) ∈ ys → y.distinct) →
    (sameMembers xs ys ↔ ∀ name x, (name, x) ∈ xs →
      ∃ y, Entries.get? name ys = some y ∧ ReadAlike x y)
  | [], ys, _, _ => iff_of_true rfl fun name x member => absurd member List.not_mem_nil
  | (name, x) :: xs, ys, hx, hy => by
    have rest : ∀ other z, (other, z) ∈ xs → z.distinct :=
      fun other z member => hx other z (List.mem_cons_of_mem _ member)
    rw [sameMembers, Bool.and_eq_true, sameMembers_iff xs ys rest hy]
    have here : (match Entries.get? name ys with
        | some y => same x y
        | none => false) = true ↔ ∃ y, Entries.get? name ys = some y ∧ ReadAlike x y := by
      cases found : Entries.get? name ys with
      | none => simp
      | some y =>
        have same := same_iff x y (hx name x List.mem_cons_self)
          (hy name y (Entries.mem_of_get? found))
        simp [same]
    refine (and_congr_left' here).trans ⟨?_, fun all => ?_⟩
    · rintro ⟨first, later⟩ other z member
      rcases List.mem_cons.mp member with e | member
      · cases e
        exact first
      · exact later other z member
    · exact ⟨all name x List.mem_cons_self,
        fun other z member => all other z (List.mem_cons_of_mem _ member)⟩
end

/-! ## What the same top says -/

theorem eq_null_of_sameTop {b : Value} (h : sameTop .null b) : b = .null := by
  cases b <;> first | rfl | cases h

theorem reference?_of_sameTop {a b : Value} (h : sameTop a b) : b.reference? = a.reference? := by
  cases a <;> cases b <;> first | rfl | cases h | exact congrArg some (beq_iff_eq.mp h).symm

theorem eq_reference_of_sameTop {id : String} {b : Value} (h : sameTop (.reference id) b) :
    b = .reference id := by
  cases b <;> first | exact congrArg Value.reference (beq_iff_eq.mp h).symm | cases h

theorem SameTop.eq_reference {id : String} {found : Option Value}
    (h : SameTop (some (.reference id)) found) : found = some (.reference id) := by
  cases h with
  | some top => exact congrArg some (eq_reference_of_sameTop top)

theorem list?_of_sameTop {a b : Value} (h : sameTop a b) (noList : a.list? = none) :
    b.list? = none := by
  cases a <;> cases b <;> first | rfl | cases h | cases noList

/-! ## An equivalence -/

theorem sameTop_refl (a : Value) : sameTop a a := by
  cases a with
  | number n => cases n <;> simp [sameTop, Number.same, Double.same]
  | _ => simp [sameTop]

theorem sameTop_symm {a b : Value} (h : sameTop a b) : sameTop b a := by
  cases a <;> cases b <;> simp only [sameTop, beq_iff_eq, Bool.false_eq_true] at h ⊢
  case number m n =>
    cases m <;> cases n <;> simp only [Number.same, Bool.false_eq_true, beq_iff_eq] at h ⊢
    · exact h.symm
    · unfold Double.same at *
      rw [Bool.or_eq_true, Bool.and_eq_true, beq_iff_eq] at *
      exact h.imp And.symm Eq.symm
  all_goals exact h.symm

theorem sameTop_trans {a b c : Value} (first : sameTop a b) (second : sameTop b c) :
    sameTop a c := by
  cases a <;> cases b <;> cases c <;>
    simp only [sameTop, beq_iff_eq, Bool.false_eq_true] at first second ⊢
  case number => exact Number.same_trans first second
  all_goals exact first.trans second

theorem SameTop.refl (x : Option Value) : SameTop x x := by
  cases x with
  | none => exact .none
  | some a => exact .some (sameTop_refl a)

theorem SameTop.symm {x y : Option Value} (h : SameTop x y) : SameTop y x := by
  cases h with
  | none => exact .none
  | some top => exact .some (sameTop_symm top)

theorem SameTop.trans {x y z : Option Value} (first : SameTop x y) (second : SameTop y z) :
    SameTop x z := by
  cases first with
  | none => exact second
  | some top =>
    cases second with
    | some top' => exact .some (sameTop_trans top top')

theorem ReadAlike.refl (a : Value) : ReadAlike a a := fun _ => .refl _

theorem ReadAlike.symm {a b : Value} (h : ReadAlike a b) : ReadAlike b a :=
  fun path => (h path).symm

theorem ReadAlike.trans {a b c : Value} (first : ReadAlike a b) (second : ReadAlike b c) :
    ReadAlike a c := fun path => (first path).trans (second path)

mutual
/-- Stored data is the same as a payload exactly if it is the same as what the payload is
stored as. -/
theorem same_ofJson : (value : Value) → (payload : Json) →
    value.same (ofJson payload) = value.sameAsJson payload
  | .null, payload => by cases payload <;> rfl
  | .bool _, payload => by cases payload <;> rfl
  | .number _, payload => by cases payload <;> rfl
  | .string _, payload => by cases payload <;> rfl
  | .reference _, payload => by cases payload <;> rfl
  | .list items, payload => by
    cases payload with
    | array payloads => exact sameItems_ofItems items payloads
    | _ => rfl
  | .object members, payload => by
    cases payload with
    | object others =>
      show (_ == _ && _) = (_ == _ && _)
      rw [length_ofMembers, sameMembers_ofMembers members others]
    | _ => rfl

theorem sameItems_ofItems : (items : List Value) → (payloads : List Json) →
    sameItems items (ofItems payloads) = itemsSameAsJson items payloads
  | [], [] => rfl
  | [], _ :: _ => rfl
  | _ :: _, [] => rfl
  | value :: rest, payload :: others => by
    show (_ && _) = (_ && _)
    rw [same_ofJson value payload, sameItems_ofItems rest others]

theorem sameMembers_ofMembers : (members : List (String × Value)) →
    (others : List (String × Json)) →
    sameMembers members (ofMembers others) = membersSameAsJson members others
  | [], others => rfl
  | (name, value) :: rest, others => by
    have stored : Entries.get? name (ofMembers others) = (Entries.get? name others).map ofJson := by
      rw [ofMembers_eq_map]
      exact Entries.get?_map (fun _ => ofJson) name others
    rw [sameMembers, membersSameAsJson, sameMembers_ofMembers rest others, stored]
    cases Entries.get? name others with
    | none => rfl
    | some payload => exact congrArg (· && membersSameAsJson rest others) (same_ofJson value payload)
end

/-- Stored data that is the same as a payload is read like what the payload is stored as. -/
theorem sameAsJson_iff {value : Value} {payload : Json} (h : value.distinct)
    (h' : payload.distinct) : value.sameAsJson payload ↔ ReadAlike value (ofJson payload) := by
  rw [← same_ofJson]
  exact same_iff value (ofJson payload) h ((distinct_ofJson payload).trans h')

end Value

end ResponseGraph
