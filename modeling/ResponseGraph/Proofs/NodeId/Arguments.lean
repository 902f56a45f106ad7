import ResponseGraph.Proofs.Json.Distinct
import ResponseGraph.Proofs.NodeId.Parts

/-!
The arguments of a node id.

Arguments are given as JSON, whose objects have their members in any order, and are kept as
maps.  Two of them come to the same text exactly if they are the same map with the same
texts of numbers (`text_arranged_eq_iff`), so that an id tells the arguments as well as the
container and the path.
-/

namespace ResponseGraph

namespace Json

/- Equality of values as maps, with numbers compared by their text. -/
mutual
def sameInText : Json → Json → Bool
  | .null, .null => true
  | .bool a, .bool b => a == b
  | .number a, .number b => a.text == b.text
  | .string a, .string b => a == b
  | .array xs, .array ys => sameItemsInText xs ys
  | .object xs, .object ys => xs.length == ys.length && sameMembersInText xs ys
  | _, _ => false
termination_by structural x => x

def sameItemsInText : List Json → List Json → Bool
  | [], [] => true
  | x :: xs, y :: ys => sameInText x y && sameItemsInText xs ys
  | _, _ => false
termination_by structural xs => xs

def sameMembersInText : List (String × Json) → List (String × Json) → Bool
  | [], _ => true
  | (name, x) :: xs, ys =>
    (match Entries.get? name ys with
      | some y => sameInText x y
      | none => false) && sameMembersInText xs ys
termination_by structural xs => xs
end

/- The value with the members of every object in order of name. -/
mutual
def arranged : Json → Json
  | .array items => .array (arrangedItems items)
  | .object members => .object (Entries.sort (arrangedMembers members))
  | x => x
termination_by structural x => x

def arrangedItems : List Json → List Json
  | [] => []
  | x :: xs => arranged x :: arrangedItems xs
termination_by structural xs => xs

def arrangedMembers : List (String × Json) → List (String × Json)
  | [] => []
  | (name, x) :: xs => (name, arranged x) :: arrangedMembers xs
termination_by structural xs => xs
end

theorem arrangedMembers_eq_map (members : List (String × Json)) :
    arrangedMembers members = members.map fun entry => (entry.1, entry.2.arranged) := by
  induction members with
  | nil => rfl
  | cons entry rest ih => exact congrArg (List.cons _) ih

theorem names_arrangedMembers (members : List (String × Json)) :
    (arrangedMembers members).map Prod.fst = members.map Prod.fst := by
  rw [arrangedMembers_eq_map, List.map_map]
  rfl

theorem opening_arranged (x : Json) : x.arranged.opening = x.opening := by cases x <;> rfl

/-- Objects in order of name have one text if every name has the same text in both. -/
theorem text_object_eq_iff_of_increasing {xs ys : List (String × Json)}
    (hx : Entries.Increasing xs) (hy : Entries.Increasing ys) :
    (Json.object xs).text = (Json.object ys).text ↔
      ∀ name, (Entries.get? name xs).map text = (Entries.get? name ys).map text := by
  have view (members : List (String × Json)) (name : String) :
      Entries.get? name (members.map written) = (Entries.get? name members).map text :=
    Entries.get?_map (fun _ => text) name members
  rw [text_object_eq_iff]
  constructor
  · intro same name
    rw [← view, ← view, same]
  · intro same
    refine (hx.map fun _ => text).ext (hy.map fun _ => text) fun name => ?_
    exact (view xs name).trans ((same name).trans (view ys name).symm)

theorem text_arranged_object_eq_iff {xs ys : List (String × Json)}
    (hx : (xs.map Prod.fst).Nodup) (hy : (ys.map Prod.fst).Nodup) :
    (Json.object xs).arranged.text = (Json.object ys).arranged.text ↔
      xs.length = ys.length ∧ ∀ name x, (name, x) ∈ xs →
        ∃ y, Entries.get? name ys = some y ∧ x.arranged.text = y.arranged.text := by
  have view {members : List (String × Json)} (names : (members.map Prod.fst).Nodup)
      (name : String) : (Entries.get? name (Entries.sort (arrangedMembers members))).map text =
        (Entries.get? name members).map fun x => x.arranged.text := by
    rw [Entries.get?_sort ((names_arrangedMembers members).symm ▸ names), arrangedMembers_eq_map,
      Entries.get?_map (fun _ => arranged), Option.map_map]
    rfl
  rw [← Entries.forall_rel_get?_iff hx hy]
  refine (text_object_eq_iff_of_increasing (Entries.increasing_sort _)
    (Entries.increasing_sort _)).trans (forall_congr' fun name => ?_)
  rw [view hx, view hy]
  cases Entries.get? name xs <;> cases Entries.get? name ys <;> simp

theorem opening_eq_of_sameInText {x y : Json} (h : x.sameInText y) : x.opening = y.opening := by
  cases x <;> cases y <;> simp_all [sameInText, opening]

/-- Values that start differently are told apart by both. -/
theorem text_iff_of_opening {x y : Json} (h : x.opening ≠ y.opening) :
    x.arranged.text = y.arranged.text ↔ x.sameInText y := by
  refine iff_of_false (fun same => h ?_) fun same => h (opening_eq_of_sameInText same)
  rw [← opening_arranged x, ← opening_arranged y]
  exact opening_eq_of_write (text_eq_iff.mp same)

mutual
/-- Arranged values have one text exactly if they are the same up to the order of members. -/
theorem text_arranged_eq_iff : (x y : Json) → x.distinct → y.distinct →
    (x.arranged.text = y.arranged.text ↔ x.sameInText y)
  | .null, y, _, _ => by
    cases y with
    | null => exact iff_of_true rfl rfl
    | bool b => cases b <;> exact text_iff_of_opening (by simp [opening])
    | _ => exact text_iff_of_opening (by simp [opening])
  | .bool a, y, _, _ => by
    cases y with
    | bool b => cases a <;> cases b <;> decide
    | _ => cases a <;> exact text_iff_of_opening (by simp [opening])
  | .number m, y, _, _ => by
    cases y with
    | number n => exact text_number_eq_iff.trans beq_iff_eq.symm
    | bool b => cases b <;> exact text_iff_of_opening (by simp [opening])
    | _ => exact text_iff_of_opening (by simp [opening])
  | .string s, y, _, _ => by
    cases y with
    | string t => exact text_string_eq_iff.trans beq_iff_eq.symm
    | bool b => cases b <;> exact text_iff_of_opening (by simp [opening])
    | _ => exact text_iff_of_opening (by simp [opening])
  | .array xs, y, hx, hy => by
    cases y with
    | array ys => exact text_array_eq_iff.trans (map_text_arrangedItems_eq_iff xs ys hx hy)
    | bool b => cases b <;> exact text_iff_of_opening (by simp [opening])
    | _ => exact text_iff_of_opening (by simp [opening])
  | .object xs, y, hx, hy => by
    cases y with
    | object ys =>
      obtain ⟨names, below⟩ := distinct_object hx
      obtain ⟨names', below'⟩ := distinct_object hy
      rw [text_arranged_object_eq_iff names names', sameInText, Bool.and_eq_true, beq_iff_eq,
        sameMembersInText_iff xs ys below below']
    | bool b => cases b <;> exact text_iff_of_opening (by simp [opening])
    | _ => exact text_iff_of_opening (by simp [opening])

theorem map_text_arrangedItems_eq_iff : (xs ys : List Json) → distinctItems xs →
    distinctItems ys →
    ((arrangedItems xs).map text = (arrangedItems ys).map text ↔ sameItemsInText xs ys)
  | [], [], _, _ => iff_of_true rfl rfl
  | [], y :: ys, _, _ => iff_of_false (by simp [arrangedItems]) (by simp [sameItemsInText])
  | x :: xs, [], _, _ => iff_of_false (by simp [arrangedItems]) (by simp [sameItemsInText])
  | x :: xs, y :: ys, hx, hy => by
    rw [distinctItems, Bool.and_eq_true] at hx hy
    rw [sameItemsInText, Bool.and_eq_true, ← text_arranged_eq_iff x y hx.1 hy.1,
      ← map_text_arrangedItems_eq_iff xs ys hx.2 hy.2]
    exact List.cons_eq_cons

theorem sameMembersInText_iff : (xs ys : List (String × Json)) → distinctMembers xs →
    distinctMembers ys →
    (sameMembersInText xs ys ↔ ∀ name x, (name, x) ∈ xs →
      ∃ y, Entries.get? name ys = some y ∧ x.arranged.text = y.arranged.text)
  | [], ys, _, _ => iff_of_true rfl fun name x member => absurd member List.not_mem_nil
  | (name, x) :: xs, ys, hx, hy => by
    rw [distinctMembers, Bool.and_eq_true] at hx
    rw [sameMembersInText, Bool.and_eq_true, sameMembersInText_iff xs ys hx.2 hy]
    have here : (match Entries.get? name ys with
        | some y => sameInText x y
        | none => false) = true ↔
          ∃ y, Entries.get? name ys = some y ∧ x.arranged.text = y.arranged.text := by
      cases found : Entries.get? name ys with
      | none => simp
      | some y =>
        have same := text_arranged_eq_iff x y hx.1 (distinct_of_mem hy (Entries.mem_of_get? found))
        simp [same]
    rw [here]
    constructor
    · rintro ⟨first, later⟩ other z member
      rcases List.mem_cons.mp member with e | member
      · cases e
        exact first
      · exact later other z member
    · intro all
      exact ⟨all name x List.mem_cons_self,
        fun other z member => all other z (List.mem_cons_of_mem _ member)⟩
end

end Json

/-! ## Arguments as JSON -/

namespace Argument

theorem toMembers?_insert {members : List (String × Argument)} {found : List (String × Json)}
    (h : toMembers? members = some found) {name : String} {value : Argument} {json : Json}
    (here : value.toJson? = some json) :
    toMembers? (Entries.insert name value members) = some (Entries.insert name json found) := by
  induction members generalizing found with
  | nil =>
    cases h
    rw [Entries.insert, toMembers?, here]
    rfl
  | cons entry rest ih =>
    obtain ⟨key, old⟩ := entry
    obtain ⟨other, first, more⟩ := Option.bind_eq_some_iff.mp h
    obtain ⟨others, below, rfl⟩ := Option.map_eq_some_iff.mp more
    rw [Entries.insert, Entries.insert]
    split
    · rw [toMembers?, here, h]
      rfl
    · split
      · rw [toMembers?, here, below]
        rfl
      · rw [toMembers?, first, ih below]
        rfl

theorem toMembers?_sort {members : List (String × Argument)} {found : List (String × Json)}
    (h : toMembers? members = some found) :
    toMembers? (Entries.sort members) = some (Entries.sort found) := by
  -- Both sides are built from empty ones by the same insertions.
  suffices step : ∀ (sorted : List (String × Argument)) (written : List (String × Json)),
      toMembers? sorted = some written →
      toMembers? (members.foldl (fun acc entry => Entries.insert entry.1 entry.2 acc) sorted) =
        some (found.foldl (fun acc entry => Entries.insert entry.1 entry.2 acc) written) from
    step [] [] rfl
  induction members generalizing found with
  | nil =>
    cases h
    exact fun _ _ start => start
  | cons entry rest ih =>
    obtain ⟨other, first, more⟩ := Option.bind_eq_some_iff.mp h
    obtain ⟨others, below, rfl⟩ := Option.map_eq_some_iff.mp more
    exact fun _ _ start => ih below _ _ (toMembers?_insert start first)

mutual
/-- An argument made of JSON is that JSON, arranged. -/
theorem toJson?_ofJson : (x : Json) → (ofJson x).toJson? = some x.arranged
  | .null => rfl
  | .bool _ => rfl
  | .number _ => rfl
  | .string _ => rfl
  | .array items => congrArg (Option.map Json.array) (toItems?_ofItems items)
  | .object members =>
    congrArg (Option.map Json.object) (toMembers?_sort (toMembers?_ofMembers members))

theorem toItems?_ofItems : (items : List Json) →
    toItems? (ofItems items) = some (Json.arrangedItems items)
  | [] => rfl
  | x :: xs => by
    rw [ofItems, toItems?, toJson?_ofJson x, toItems?_ofItems xs]
    rfl

theorem toMembers?_ofMembers : (members : List (String × Json)) →
    toMembers? (ofMembers members) = some (Json.arrangedMembers members)
  | [] => rfl
  | (name, x) :: xs => by
    rw [ofMembers, toMembers?, toJson?_ofJson x, toMembers?_ofMembers xs]
    rfl
end

/- Every object has its members in order of name, each name once. -/
mutual
def Ordered : Argument → Prop
  | .list items => OrderedItems items
  | .object members => Entries.Increasing members ∧ OrderedMembers members
  | _ => True
termination_by structural x => x

def OrderedItems : List Argument → Prop
  | [] => True
  | x :: xs => Ordered x ∧ OrderedItems xs
termination_by structural xs => xs

def OrderedMembers : List (String × Argument) → Prop
  | [] => True
  | (_, x) :: xs => Ordered x ∧ OrderedMembers xs
termination_by structural xs => xs
end

theorem names_ofMembers (members : List (String × Json)) :
    (ofMembers members).map Prod.fst = members.map Prod.fst := by
  induction members with
  | nil => rfl
  | cons entry rest ih => exact congrArg (List.cons _) ih

mutual
/-- An argument without a variable, whose objects are maps, is made of some JSON. -/
theorem exists_ofJson_eq : (argument : Argument) → argument.Ordered →
    argument.openVariable? = none → ∃ x : Json, x.distinct ∧ ofJson x = argument
  | .null, _, _ => ⟨.null, rfl, rfl⟩
  | .bool b, _, _ => ⟨.bool b, rfl, rfl⟩
  | .number n, _, _ => ⟨.number n, rfl, rfl⟩
  | .string s, _, _ => ⟨.string s, rfl, rfl⟩
  | .list items, ordered, closed => by
    obtain ⟨xs, distinct, rfl⟩ := exists_ofItems_eq items ordered closed
    exact ⟨.array xs, distinct, rfl⟩
  | .object members, ordered, closed => by
    obtain ⟨xs, distinct, rfl⟩ := exists_ofMembers_eq members ordered.2 closed
    have names := names_ofMembers xs ▸ ordered.1.nodup
    refine ⟨.object xs, ?_, congrArg Argument.object ordered.1.sort_eq⟩
    rw [Json.distinct, decide_eq_true names, distinct]
    rfl
  | .variable _, _, closed => nomatch closed

theorem exists_ofItems_eq : (items : List Argument) → OrderedItems items →
    variableOfItems? items = none → ∃ xs, Json.distinctItems xs ∧ ofItems xs = items
  | [], _, _ => ⟨[], rfl, rfl⟩
  | argument :: items, ordered, closed => by
    obtain ⟨here, below⟩ := Option.or_eq_none_iff.mp closed
    obtain ⟨x, distinct, rfl⟩ := exists_ofJson_eq argument ordered.1 here
    obtain ⟨xs, distinct', rfl⟩ := exists_ofItems_eq items ordered.2 below
    exact ⟨x :: xs, (Bool.and_eq_true _ _).mpr ⟨distinct, distinct'⟩, rfl⟩

theorem exists_ofMembers_eq : (members : List (String × Argument)) → OrderedMembers members →
    variableOfMembers? members = none → ∃ xs, Json.distinctMembers xs ∧ ofMembers xs = members
  | [], _, _ => ⟨[], rfl, rfl⟩
  | (name, argument) :: members, ordered, closed => by
    obtain ⟨here, below⟩ := Option.or_eq_none_iff.mp closed
    obtain ⟨x, distinct, rfl⟩ := exists_ofJson_eq argument ordered.1 here
    obtain ⟨xs, distinct', rfl⟩ := exists_ofMembers_eq members ordered.2 below
    exact ⟨(name, x) :: xs, (Bool.and_eq_true _ _).mpr ⟨distinct, distinct'⟩, rfl⟩
end

end Argument

/-- Arguments that were given with these members, whose order is theirs. -/
structure Arguments.Given (arguments : Arguments) (members : List (String × Json)) : Prop where
  distinct : (Json.object members).distinct
  eq : arguments = ofList (Argument.ofMembers members)

/-- All arguments without a variable are given with some members. -/
theorem Arguments.exists_given {arguments : Arguments}
    (ordered : (Argument.object arguments).Ordered) (closed : arguments.openVariable? = none) :
    ∃ members, arguments.Given members := by
  obtain ⟨members, below, rfl⟩ := Argument.exists_ofMembers_eq arguments ordered.2 closed
  have names := Argument.names_ofMembers members ▸ ordered.1.nodup
  refine ⟨members, ?_, ordered.1.sort_eq.symm⟩
  rw [Json.distinct, decide_eq_true names, below]
  rfl

namespace NodeId

/-- The text of an id whose arguments are given as JSON. -/
theorem parameterized_ofMembers (container : NodeId) (path : Path)
    (given : List (String × Json)) :
    parameterized container path (Arguments.ofList (Argument.ofMembers given)) =
      .ok (String.ofList (container.toList ++ separator ::
        path.toJson.write (separator :: (Json.object given).arranged.write []))) := by
  have json : (Arguments.ofList (Argument.ofMembers given)).toJson? =
      some (Json.object given).arranged := Argument.toJson?_ofJson (.object given)
  rw [parameterized, json]

/-- Ids of values of fields with arguments never collide.  The order in which the members of the
arguments were given has no part in it, at no depth. -/
theorem parameterized_eq_iff (container container' : NodeId) (path path' : Path)
    {arguments arguments' : Arguments} {members members' : List (String × Json)}
    (given : arguments.Given members) (given' : arguments'.Given members') : ∃ id id',
      parameterized container path arguments = .ok id ∧
      parameterized container' path' arguments' = .ok id' ∧
      (id = id' ↔ container = container' ∧ path = path' ∧
        (Json.object members).sameInText (.object members')) := by
  obtain ⟨distinct, rfl⟩ := given
  obtain ⟨distinct', rfl⟩ := given'
  have text := parameterized_ofMembers container path members
  have text' := parameterized_ofMembers container' path' members'
  refine ⟨_, _, text, text', ?_⟩
  rw [← Json.text_arranged_eq_iff _ _ distinct distinct']
  constructor
  · intro same
    obtain ⟨rfl, rfl⟩ := parameterized_inj text (same ▸ text')
    have tails := List.append_cancel_left (String.ofList_inj.mp same)
    have rests := (List.cons.inj tails).2
    rw [Json.write_append path.toJson, Json.write_append path.toJson
      (separator :: (Json.object members').arranged.write [])] at rests
    have parts := (List.cons.inj (List.append_cancel_left rests)).2
    exact ⟨rfl, rfl, Json.text_eq_iff.mpr parts⟩
  · rintro ⟨rfl, rfl, same⟩
    rw [Json.text_eq_iff.mp same]

/-- The same arguments in another order, with a separator in the container and in a string. -/
theorem parameterized_eq_iff_of_reordered :
    let filter := Json.object [("b", .number (.int 1)), ("a", .array [.bool true])]
    let filter' := Json.object [("a", .array [.bool true]), ("b", .number (.int 1))]
    let members := [("q", Json.string "❖\"\n"), ("filter", filter)]
    let members' := [("filter", filter'), ("q", Json.string "❖\"\n")]
    let arguments := Arguments.ofList (Argument.ofMembers members)
    let arguments' := Arguments.ofList (Argument.ofMembers members')
    arguments.Given members ∧ arguments'.Given members' ∧
      (Json.object members).sameInText (.object members') ∧ ∃ id id',
        parameterized "1❖[\"a\"]❖\x7b\x7d" [.key "❖", .index 0] arguments = .ok id ∧
        parameterized "1❖[\"a\"]❖\x7b\x7d" [.key "❖", .index 0] arguments' = .ok id' ∧
        (id = id' ↔ "1❖[\"a\"]❖\x7b\x7d" = "1❖[\"a\"]❖\x7b\x7d" ∧
          [Step.key "❖", .index 0] = [.key "❖", .index 0] ∧
          (Json.object members).sameInText (.object members')) := by
  intro filter filter' members members' arguments arguments'
  have given : arguments.Given members := ⟨by decide, rfl⟩
  have given' : arguments'.Given members' := ⟨by decide, rfl⟩
  exact ⟨given, given', by decide, parameterized_eq_iff _ _ _ _ given given'⟩

end NodeId
end ResponseGraph
