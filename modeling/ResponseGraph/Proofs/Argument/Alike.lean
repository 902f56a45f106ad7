import ResponseGraph.Guard
import ResponseGraph.Proofs.Field.Alternatives
import ResponseGraph.Proofs.Json.Sameness
import ResponseGraph.Proofs.NodeId.Arguments

/-!
Arguments under bindings that are the same.

Values that are the same are the same as arguments, where the members of an object are in order.
So bindings that are the same replace the variables of an argument by the same values, and they
decide a condition alike.
-/

namespace ResponseGraph

namespace Argument

/-! ## Members in order -/

/-- Members in order that agree name by name are the same. -/
theorem sameMembers_of_rel {xs ys : List (String × Argument)} (hx : Entries.Increasing xs)
    (hy : Entries.Increasing ys) (h : ∀ name, Option.Rel (fun x y : Argument => x.same y)
      (Entries.get? name xs) (Entries.get? name ys)) : sameMembers xs ys := by
  have names : xs.map Prod.fst = ys.map Prod.fst := by
    have bare : xs.map (fun entry => (entry.1, ())) = ys.map fun entry => (entry.1, ()) := by
      refine (hx.map fun _ _ => ()).ext (hy.map fun _ _ => ()) fun name => ?_
      rw [Entries.get?_map fun _ _ => (), Entries.get?_map fun _ _ => ()]
      rcases exists_of_rel (h name) with ⟨none, none'⟩ | ⟨x, y, found, found', -⟩
      · rw [none, none']
      · rw [found, found']
        rfl
    have firsts := congrArg (List.map Prod.fst) bare
    simpa [List.map_map, Function.comp_def] using firsts
  clear hx
  have distinct := hy.nodup
  clear hy
  induction xs generalizing ys with
  | nil =>
    cases ys with
    | nil => rfl
    | cons => cases names
  | cons entry rest ih =>
    obtain ⟨name, x⟩ := entry
    cases ys with
    | nil => cases names
    | cons entry' rest' =>
      obtain ⟨name', y⟩ := entry'
      obtain ⟨same, rests⟩ := List.cons.inj names
      obtain rfl : name = name' := same
      obtain ⟨fresh, distinct⟩ := List.nodup_cons.mp distinct
      have here := h name
      rw [Entries.get?_cons, Entries.get?_cons, if_pos rfl, if_pos rfl] at here
      cases here with
      | some here =>
        rw [sameMembers, here, beq_self_eq_true, Bool.and_true, Bool.true_and]
        refine ih (fun other => ?_) rests distinct
        by_cases same : name = other
        · subst same
          rw [Entries.get?_eq_none_iff.mpr (rests ▸ fresh), Entries.get?_eq_none_iff.mpr fresh]
          exact .none
        · have below := h other
          rw [Entries.get?_cons, Entries.get?_cons, if_neg same, if_neg same] at below
          exact below

theorem ofMembers_eq_map (members : List (String × Json)) :
    ofMembers members = members.map fun entry => (entry.1, ofJson entry.2) := by
  induction members with
  | nil => rfl
  | cons entry rest ih => exact congrArg (List.cons _) ih

/-! ## Values -/

mutual
/-- Values that are the same are the same as arguments. -/
theorem same_ofJson : (a : Json) → {b : Json} → a.distinct → b.distinct → a.same b →
    (ofJson a).same (ofJson b)
  | .null, b, _, _, h => by cases b <;> exact h
  | .bool _, b, _, _, h => by cases b <;> exact h
  | .number _, b, _, _, h => by cases b <;> exact h
  | .string _, b, _, _, h => by cases b <;> exact h
  | .array xs, b, ha, hb, h => by
    cases b with
    | array ys => exact same_ofItems xs ha hb h
    | _ => cases h
  | .object xs, b, ha, hb, h => by
    cases b with
    | object ys =>
      obtain ⟨names, distinct⟩ := Json.distinct_object ha
      obtain ⟨names', distinct'⟩ := Json.distinct_object hb
      rw [Json.same, Bool.and_eq_true, beq_iff_eq, Json.sameMembers_iff] at h
      have all : ∀ name, Option.Rel (fun x y : Json => x.same y) (Entries.get? name xs)
          (Entries.get? name ys) := (Entries.forall_rel_get?_iff names names').mpr h
      refine sameMembers_of_rel (Entries.increasing_sort _) (Entries.increasing_sort _)
        fun name => ?_
      rw [Entries.get?_sort (names_ofMembers xs ▸ names),
        Entries.get?_sort (names_ofMembers ys ▸ names')]
      exact same_ofMembers xs distinct distinct' name (all name)
    | _ => cases h

theorem same_ofItems : (xs : List Json) → {ys : List Json} → Json.distinctItems xs →
    Json.distinctItems ys → Json.sameItems xs ys → sameItems (ofItems xs) (ofItems ys)
  | [], ys, _, _, h => by
    cases ys with
    | nil => rfl
    | cons => cases h
  | x :: xs, ys, hx, hy, h => by
    cases ys with
    | nil => cases h
    | cons y ys =>
      obtain ⟨hx, hxs⟩ := (Bool.and_eq_true _ _).mp hx
      obtain ⟨hy, hys⟩ := (Bool.and_eq_true _ _).mp hy
      obtain ⟨here, below⟩ := (Bool.and_eq_true _ _).mp h
      exact (Bool.and_eq_true _ _).mpr ⟨same_ofJson x hx hy here, same_ofItems xs hxs hys below⟩

theorem same_ofMembers : (xs : List (String × Json)) → {ys : List (String × Json)} →
    Json.distinctMembers xs → Json.distinctMembers ys → (name : String) →
    Option.Rel (fun x y : Json => x.same y) (Entries.get? name xs) (Entries.get? name ys) →
    Option.Rel (fun x y : Argument => x.same y) (Entries.get? name (ofMembers xs))
      (Entries.get? name (ofMembers ys))
  | [], ys, _, _, name, h => by
    rw [ofMembers_eq_map ys, Entries.get?_map fun _ => ofJson]
    rcases exists_of_rel h with ⟨-, none⟩ | ⟨_, _, found, -⟩
    · rw [none]
      exact .none
    · cases found
  | (key, x) :: xs, ys, hx, hy, name, h => by
    obtain ⟨here, below⟩ := (Bool.and_eq_true _ _).mp hx
    rw [ofMembers, Entries.get?_cons]
    rw [Entries.get?_cons] at h
    split at h
    · next same =>
      rw [if_pos same, ofMembers_eq_map ys, Entries.get?_map fun _ => ofJson]
      generalize found : Entries.get? name ys = y at h ⊢
      cases h with
      | some h => exact .some (same_ofJson x here (Json.distinct_of_get? hy found) h)
    · next other =>
      rw [if_neg other]
      exact same_ofMembers xs below hy name h
end

end Argument

/-! ## Bindings -/

/-- As arguments the values of each variable are the same. -/
def Bindings.Alike (a b : Bindings) : Prop :=
  ∀ name, Option.Rel (fun x y => (Argument.ofJson x).same (Argument.ofJson y)) (a.get? name)
    (b.get? name)

theorem Bindings.alike_of_same {a b : Bindings} (ha : a.Distinct) (hb : b.Distinct)
    (h : a.same b) : a.Alike b := by
  intro name
  rcases exists_of_rel (same_iff.mp h name) with ⟨none, none'⟩ | ⟨x, y, found, found', same⟩
  · rw [none, none']
    exact .none
  · rw [found, found']
    exact .some (Argument.same_ofJson x (ha name x found) (hb name y found') same)

section

variable {a b : Bindings}

namespace Argument

mutual
theorem sameOutcome_instantiate (alike : a.Alike b) : (argument : Argument) →
    SameOutcome (fun x y : Argument => x.same y) (argument.instantiate a) (argument.instantiate b)
  | .null | .bool _ | .number _ | .string _ => .ok (same_refl _)
  | .variable name => by
    unfold instantiate
    rcases exists_of_rel (alike name) with ⟨none, none'⟩ | ⟨x, y, found, found', same⟩
    · rw [none, none']
      exact .error _ _
    · rw [found, found']
      exact .ok same
  | .list items => by
    unfold instantiate
    exact (sameOutcome_instantiateItems alike items).bind fun xs ys same => .ok same
  | .object members => by
    unfold instantiate
    exact (sameOutcome_instantiateMembers alike members).bind fun xs ys same => .ok same

theorem sameOutcome_instantiateItems (alike : a.Alike b) : (items : List Argument) →
    SameOutcome (fun xs ys => sameItems xs ys) (instantiateItems a items)
      (instantiateItems b items)
  | [] => .ok rfl
  | x :: xs => (sameOutcome_instantiate alike x).bind fun _ _ here =>
    (sameOutcome_instantiateItems alike xs).bind fun _ _ below =>
      .ok ((Bool.and_eq_true _ _).mpr ⟨here, below⟩)

theorem sameOutcome_instantiateMembers (alike : a.Alike b) :
    (members : List (String × Argument)) → SameOutcome (fun xs ys => sameMembers xs ys)
      (instantiateMembers a members) (instantiateMembers b members)
  | [] => .ok rfl
  | (name, x) :: xs => (sameOutcome_instantiate alike x).bind fun _ _ here =>
    (sameOutcome_instantiateMembers alike xs).bind fun _ _ below =>
      .ok (by rw [sameMembers, beq_self_eq_true, here, below]; rfl)
end

end Argument

/-- What a condition says is decided alike. -/
theorem Condition.sameOutcome_holds (alike : a.Alike b) (condition : Condition) :
    SameOutcome Eq (condition.holds a) (condition.holds b) := by
  refine (Argument.sameOutcome_instantiate alike condition.value).bind fun x y same => ?_
  cases x <;> cases y <;> try cases same
  · exact .error _ _
  · exact .ok (congrArg (· == condition.includes) (eq_of_beq same))
  all_goals exact .error _ _

namespace Guard

theorem sameOutcome_holds (alike : a.Alike b) : (guard : Guard) →
    SameOutcome Eq (guard.holds a) (guard.holds b)
  | [] => .ok rfl
  | condition :: rest => (condition.sameOutcome_holds alike).bind fun held _ same => by
    subst same
    cases held with
    | true => exact sameOutcome_holds alike rest
    | false => exact .ok rfl

theorem sameOutcome_anyHolds (alike : a.Alike b) : (guards : List Guard) →
    SameOutcome Eq (anyHolds a guards) (anyHolds b guards)
  | [] => .ok rfl
  | [guard] => sameOutcome_holds alike guard
  | guard :: next :: rest => (sameOutcome_holds alike guard).bind fun held _ same => by
    subst same
    cases held with
    | true => exact .ok rfl
    | false => exact sameOutcome_anyHolds alike (next :: rest)

end Guard

end

end ResponseGraph
