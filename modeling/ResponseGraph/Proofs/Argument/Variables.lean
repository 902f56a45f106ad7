import ResponseGraph.Document
import ResponseGraph.Proofs.Basic

/-!
The variables of arguments.

An argument whose variables are replaced has none left, and what stands in the way is a variable
of the argument that has no value.  The JSON value of an argument exists exactly if it has no
variables.
-/

namespace ResponseGraph

/-- A variable that is reported missing is one of the names, and has no value. -/
def VariableError.Justified (bindings : Bindings) (names : List String) : VariableError → Prop
  | .missing name => name ∈ names ∧ bindings.get? name = none
  | .notBoolean _ _ => True

namespace Argument

/- The variables of an argument, depth first. -/
mutual
def variableNames : Argument → List String
  | .variable name => [name]
  | .list items => namesOfItems items
  | .object members => namesOfMembers members
  | _ => []
termination_by structural x => x

def namesOfItems : List Argument → List String
  | [] => []
  | x :: xs => variableNames x ++ namesOfItems xs
termination_by structural xs => xs

def namesOfMembers : List (String × Argument) → List String
  | [] => []
  | (_, x) :: xs => variableNames x ++ namesOfMembers xs
termination_by structural xs => xs
end

theorem mem_namesOfMembers {name : String} {members : List (String × Argument)} :
    name ∈ namesOfMembers members ↔ ∃ entry ∈ members, name ∈ entry.2.variableNames := by
  induction members with
  | nil => simp [namesOfMembers]
  | cons entry rest ih => simp [namesOfMembers, ih]

/-- Sorting and dropping repeated members adds no variable. -/
theorem namesOfMembers_sort_subset (members : List (String × Argument)) :
    namesOfMembers (Entries.sort members) ⊆ namesOfMembers members := by
  intro name member
  obtain ⟨entry, sorted, inside⟩ := mem_namesOfMembers.mp member
  exact mem_namesOfMembers.mpr ⟨entry, Entries.mem_of_mem_sort sorted, inside⟩

/-! ## Values -/

mutual
theorem variableNames_ofJson : (json : Json) → (ofJson json).variableNames = []
  | .null | .bool _ | .number _ | .string _ => rfl
  | .array items => namesOfItems_ofItems items
  | .object members => by
    refine List.subset_nil.mp (List.Subset.trans (namesOfMembers_sort_subset _) ?_)
    rw [namesOfMembers_ofMembers members]
    exact List.Subset.refl _

theorem namesOfItems_ofItems : (items : List Json) → namesOfItems (ofItems items) = []
  | [] => rfl
  | x :: xs => by
    rw [ofItems, namesOfItems, variableNames_ofJson x, namesOfItems_ofItems xs, List.append_nil]

theorem namesOfMembers_ofMembers : (members : List (String × Json)) →
    namesOfMembers (ofMembers members) = []
  | [] => rfl
  | (name, x) :: xs => by
    rw [ofMembers, namesOfMembers, variableNames_ofJson x, namesOfMembers_ofMembers xs,
      List.append_nil]
end

mutual
/-- Exactly the arguments without variables are values. -/
theorem isSome_toJson?_iff : (argument : Argument) →
    (argument.toJson?.isSome ↔ argument.variableNames = [])
  | .null | .bool _ | .number _ | .string _ => iff_of_true rfl rfl
  | .variable _ => iff_of_false Bool.false_ne_true (List.cons_ne_nil _ _)
  | .list items => by
    rw [toJson?, Option.isSome_map, variableNames]
    exact isSome_toItems?_iff items
  | .object members => by
    rw [toJson?, Option.isSome_map, variableNames]
    exact isSome_toMembers?_iff members

theorem isSome_toItems?_iff : (items : List Argument) →
    ((toItems? items).isSome ↔ namesOfItems items = [])
  | [] => iff_of_true rfl rfl
  | x :: xs => by
    rw [toItems?, namesOfItems, List.append_eq_nil_iff, ← isSome_toJson?_iff x,
      ← isSome_toItems?_iff xs]
    cases toJson? x <;> cases toItems? xs <;> simp

theorem isSome_toMembers?_iff : (members : List (String × Argument)) →
    ((toMembers? members).isSome ↔ namesOfMembers members = [])
  | [] => iff_of_true rfl rfl
  | (name, x) :: xs => by
    rw [toMembers?, namesOfMembers, List.append_eq_nil_iff, ← isSome_toJson?_iff x,
      ← isSome_toMembers?_iff xs]
    cases toJson? x <;> cases toMembers? xs <;> simp
end

mutual
/-- The open variable of an argument is the first one. -/
theorem openVariable?_eq_head? : (argument : Argument) →
    argument.openVariable? = argument.variableNames.head?
  | .null | .bool _ | .number _ | .string _ | .variable _ => rfl
  | .list items => variableOfItems?_eq_head? items
  | .object members => variableOfMembers?_eq_head? members

theorem variableOfItems?_eq_head? : (items : List Argument) →
    variableOfItems? items = (namesOfItems items).head?
  | [] => rfl
  | x :: xs => by
    rw [variableOfItems?, namesOfItems, List.head?_append, openVariable?_eq_head? x,
      variableOfItems?_eq_head? xs]

theorem variableOfMembers?_eq_head? : (members : List (String × Argument)) →
    variableOfMembers? members = (namesOfMembers members).head?
  | [] => rfl
  | (_, x) :: xs => by
    rw [variableOfMembers?, namesOfMembers, List.head?_append, openVariable?_eq_head? x,
      variableOfMembers?_eq_head? xs]
end

/-! ## Replacing variables -/

section

variable {bindings : Bindings} {names : List String}

mutual
/-- The result has no variables, or one of the argument is not bound. -/
theorem ends_instantiate : (argument : Argument) → argument.variableNames ⊆ names →
    Ends (fun result : Argument => result.variableNames = []) (·.Justified bindings names)
      (argument.instantiate bindings)
  | .null, _ | .bool _, _ | .number _, _ | .string _, _ => .ok rfl
  | .variable name, subset => by
    unfold instantiate
    split
    · exact .ok (variableNames_ofJson _)
    · next unbound => exact .error ⟨subset List.mem_cons_self, unbound⟩
  | .list items, subset => (ends_instantiateItems items subset).map fun _ none => none
  | .object members, subset => (ends_instantiateMembers members subset).map fun _ none => none

theorem ends_instantiateItems : (items : List Argument) → namesOfItems items ⊆ names →
    Ends (fun results => namesOfItems results = []) (·.Justified bindings names)
      (instantiateItems bindings items)
  | [], _ => .ok rfl
  | x :: xs, subset => by
    obtain ⟨here, later⟩ := List.append_subset.mp subset
    refine (ends_instantiate x here).bind fun y closed => ?_
    refine (ends_instantiateItems xs later).bind fun ys all => .ok ?_
    rw [namesOfItems, closed, all, List.append_nil]

theorem ends_instantiateMembers : (members : List (String × Argument)) →
    namesOfMembers members ⊆ names →
    Ends (fun results => namesOfMembers results = []) (·.Justified bindings names)
      (instantiateMembers bindings members)
  | [], _ => .ok rfl
  | (name, x) :: xs, subset => by
    obtain ⟨here, later⟩ := List.append_subset.mp subset
    refine (ends_instantiate x here).bind fun y closed => ?_
    refine (ends_instantiateMembers xs later).bind fun ys all => .ok ?_
    rw [namesOfMembers, closed, all, List.append_nil]
end

end

end Argument

/-- The variables of all arguments. -/
def Arguments.variableNames (arguments : Arguments) : List String :=
  Argument.namesOfMembers arguments

/-- Exactly the arguments without an open variable have a value. -/
theorem Arguments.isSome_toJson?_iff (arguments : Arguments) :
    arguments.toJson?.isSome ↔ arguments.openVariable? = none := by
  rw [toJson?, openVariable?, Option.isSome_map, Argument.isSome_toMembers?_iff,
    Argument.variableOfMembers?_eq_head?, List.head?_eq_none_iff]

/-! ## Literals -/

namespace Literal

mutual
/-- The argument a literal stands for has no variables but those of the literal. -/
theorem variableNames_toArgument : (literal : Literal) →
    literal.toArgument.variableNames ⊆ literal.variableNames
  | .null | .bool _ | .int _ | .float none | .float (some _) | .string _ | .enum _ =>
    List.nil_subset _
  | .variable _ => List.Subset.refl _
  | .list items => namesOfItems_toArguments items
  | .object members =>
    List.Subset.trans (Argument.namesOfMembers_sort_subset _) (namesOfMembers_toMembers members)

theorem namesOfItems_toArguments : (items : List Literal) →
    Argument.namesOfItems (toArguments items) ⊆ namesOfItems items
  | [] => List.nil_subset _
  | x :: xs => List.append_subset.mpr
    ⟨List.subset_append_of_subset_left _ (variableNames_toArgument x),
      List.subset_append_of_subset_right _ (namesOfItems_toArguments xs)⟩

theorem namesOfMembers_toMembers : (members : List (String × Literal)) →
    Argument.namesOfMembers (toMembers members) ⊆ namesOfMembers members
  | [] => List.nil_subset _
  | (_, x) :: xs => List.append_subset.mpr
    ⟨List.subset_append_of_subset_left _ (variableNames_toArgument x),
      List.subset_append_of_subset_right _ (namesOfMembers_toMembers xs)⟩
end

end Literal
end ResponseGraph
