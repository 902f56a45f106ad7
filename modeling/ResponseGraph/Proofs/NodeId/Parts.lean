import ResponseGraph.Proofs.Json.Text

/-!
The parts of a node id.

The id of the value of a field with arguments is made of a container, a path and
arguments.  `parameterized_inj` says that the id tells the container and the path,
whatever characters these hold.  A container may have such an id itself, so the id is
not cut at its first separator or its last one: it is cut where a reader of JSON text
stands outside of strings.
-/

namespace ResponseGraph

open Json Json.Quotation

/-! ## The text of a path -/

theorem Number.text_nat_inj {m n : Nat} (h : (Number.int m).text = (Number.int n).text) : m = n := by
  have digits : Nat.toDigits 10 m = Nat.toDigits 10 n := String.ofList_inj.mp h
  have numbers := congrArg (fun cs => Nat.ofDigitChars 10 cs 0) digits
  simpa only [Nat.ofDigitChars_ten_toDigits] using numbers

/-- An index never has the text of a key. -/
theorem Step.text_toJson_inj {a b : Step} (h : a.toJson.text = b.toJson.text) : a = b := by
  cases a with
  | index i =>
    cases b with
    | index j => exact congrArg Step.index (Number.text_nat_inj (text_number_eq_iff.mp h))
    | key t =>
      have first : '0' = '"' := opening_eq_of_write (text_eq_iff.mp h)
      exact absurd first (by decide)
  | key s =>
    cases b with
    | index j =>
      have first : '"' = '0' := opening_eq_of_write (text_eq_iff.mp h)
      exact absurd first (by decide)
    | key t => exact congrArg Step.key (text_string_eq_iff.mp h)

theorem Path.text_toJson_inj {p q : Path} (h : p.toJson.text = q.toJson.text) : p = q := by
  have steps := text_array_eq_iff.mp h
  rw [List.map_map, List.map_map] at steps
  exact (List.map_inj_right fun a b => Step.text_toJson_inj).mp steps

/-! ## Where an id is cut -/

namespace NodeId

/-- Two texts with a separator in them are cut at the same separator, or one of the cuts
is behind the other. -/
theorem cut_cases {a b c d : List Char}
    (h : a ++ separator :: b = c ++ separator :: d) :
    (a = c ∧ b = d) ∨ (∃ u, c = a ++ separator :: u ∧ b = u ++ separator :: d) ∨
      (∃ u, a = c ++ separator :: u ∧ d = u ++ separator :: b) := by
  rcases List.append_eq_append_iff.mp h with ⟨u, rfl, tail⟩ | ⟨u, rfl, tail⟩
  · cases u with
    | nil => exact Or.inl ⟨by simp, (List.cons.inj tail).2⟩
    | cons e u =>
      obtain ⟨rfl, rest⟩ := List.cons.inj tail
      exact Or.inr (Or.inl ⟨u, rfl, rest⟩)
  · cases u with
    | nil => exact Or.inl ⟨by simp, (List.cons.inj tail).2.symm⟩
    | cons e u =>
      obtain ⟨rfl, rest⟩ := List.cons.inj tail
      exact Or.inr (Or.inr ⟨u, rfl, rest⟩)

/-- No cut in front of two sealed texts is followed by another one. -/
theorem not_cut_again {path arguments path' arguments' u : List Char} (hp : Sealed path)
    (ha : Sealed arguments) (hp' : Sealed path') (ha' : Sealed arguments')
    (distinct : ∀ v, arguments ≠ path' ++ v) :
    path ++ separator :: arguments ≠ u ++ separator :: (path' ++ separator :: arguments') := by
  intro h
  -- The text behind the second cut is read once from inside of a string and once from outside.
  have outside : run .outside (path' ++ separator :: arguments') = .outside := by
    rw [run_append, hp'.outside]
    exact ha'.outside
  refine not_run_inside_and_outside ?_ outside
  rcases cut_cases h with ⟨-, same⟩ | ⟨v, -, tail⟩ | ⟨v, split, tail⟩
  · exact absurd same (distinct _)
  · exact ha.inside_after tail
  · rw [tail, run_append, hp.inside_after split]
    exact ha.outside

theorem toJson?_eq_object {arguments : Arguments} {json : Json}
    (h : arguments.toJson? = some json) : ∃ members, json = .object members := by
  obtain ⟨members, -, rfl⟩ := Option.map_eq_some_iff.mp h
  exact ⟨members, rfl⟩

/-- The text of an id. -/
theorem toList_of_parameterized {container id : NodeId} {path : Path} {arguments : Arguments}
    (h : parameterized container path arguments = .ok id) : ∃ members,
      id.toList = container.toList ++ separator ::
        (path.toJson.write [] ++ separator :: (Json.object members).write []) := by
  unfold parameterized at h
  split at h
  · next json written =>
    obtain ⟨members, rfl⟩ := toJson?_eq_object written
    cases h
    refine ⟨members, ?_⟩
    rw [String.toList_ofList, write_append path.toJson]
  · cases h

/-- The id of the value of a field with arguments tells its container and its path. -/
theorem parameterized_inj {container container' id : NodeId} {path path' : Path}
    {arguments arguments' : Arguments} (h : parameterized container path arguments = .ok id)
    (h' : parameterized container' path' arguments' = .ok id) :
    container = container' ∧ path = path' := by
  obtain ⟨members, text⟩ := toList_of_parameterized h
  obtain ⟨members', text'⟩ := toList_of_parameterized h'
  have distinct : ∀ (members : List (String × Json)) (path : Path) (v : List Char),
      (Json.object members).write [] ≠ path.toJson.write [] ++ v := fun members path v e =>
    absurd (List.cons.inj e).1 (by decide)
  rw [text] at text'
  rcases cut_cases text' with ⟨containers, tails⟩ | ⟨u, -, tail⟩ | ⟨u, -, tail⟩
  · refine ⟨String.toList_inj.mp containers, ?_⟩
    rcases cut_cases tails with ⟨paths, -⟩ | ⟨v, split, -⟩ | ⟨v, split, -⟩
    · exact Path.text_toJson_inj (text_eq_iff.mpr paths)
    · have inside := run_eq_inside_of_apart (sealed_write _).apart split
      rw [(sealed_write _).outside] at inside
      cases inside
    · have inside := run_eq_inside_of_apart (sealed_write _).apart split
      rw [(sealed_write _).outside] at inside
      cases inside
  · exact absurd tail (not_cut_again (sealed_write _) (sealed_write _) (sealed_write _)
      (sealed_write _) (distinct members path'))
  · exact absurd tail (not_cut_again (sealed_write _) (sealed_write _) (sealed_write _)
      (sealed_write _) (distinct members' path))

/-- An id of an entity or a root, which no separator may occur in. -/
def Whole (id : NodeId) : Prop := separator ∉ id.toList

instance (id : NodeId) : Decidable (Whole id) := inferInstanceAs (Decidable (_ ∉ _))

theorem whole_queryRoot : Whole queryRoot := by decide +kernel

theorem not_whole_of_parameterized {container id : NodeId} {path : Path} {arguments : Arguments}
    (h : parameterized container path arguments = .ok id) : ¬ Whole id := by
  obtain ⟨members, text⟩ := toList_of_parameterized h
  simp [Whole, text]

theorem parameterized_ne_container {container id : NodeId} {path : Path} {arguments : Arguments}
    (h : parameterized container path arguments = .ok id) : id ≠ container := by
  intro e
  subst e
  obtain ⟨members, text⟩ := toList_of_parameterized h
  have lengths := congrArg List.length text
  simp at lengths

end NodeId

/-! ## Addresses -/

namespace Argument

mutual
/-- What has a JSON value has no variable. -/
theorem openVariable?_eq_none_of_toJson? : (argument : Argument) → {json : Json} →
    argument.toJson? = some json → argument.openVariable? = none
  | .null, _, _ | .bool _, _, _ | .number _, _, _ | .string _, _, _ => rfl
  | .list items, _, h => by
    obtain ⟨_, written, -⟩ := Option.map_eq_some_iff.mp h
    exact variableOfItems?_eq_none_of_toItems? items written
  | .object members, _, h => by
    obtain ⟨_, written, -⟩ := Option.map_eq_some_iff.mp h
    exact variableOfMembers?_eq_none_of_toMembers? members written
  | .variable _, _, h => nomatch h

theorem variableOfItems?_eq_none_of_toItems? : (items : List Argument) → {written : List Json} →
    toItems? items = some written → variableOfItems? items = none
  | [], _, _ => rfl
  | argument :: items, _, h => by
    obtain ⟨_, here, rest⟩ := Option.bind_eq_some_iff.mp h
    obtain ⟨_, below, -⟩ := Option.map_eq_some_iff.mp rest
    exact Option.or_eq_none_iff.mpr ⟨openVariable?_eq_none_of_toJson? argument here,
      variableOfItems?_eq_none_of_toItems? items below⟩

theorem variableOfMembers?_eq_none_of_toMembers? : (members : List (String × Argument)) →
    {written : List (String × Json)} → toMembers? members = some written →
    variableOfMembers? members = none
  | [], _, _ => rfl
  | (_, argument) :: members, _, h => by
    obtain ⟨_, here, rest⟩ := Option.bind_eq_some_iff.mp h
    obtain ⟨_, below, -⟩ := Option.map_eq_some_iff.mp rest
    exact Option.or_eq_none_iff.mpr ⟨openVariable?_eq_none_of_toJson? argument here,
      variableOfMembers?_eq_none_of_toMembers? members below⟩
end

end Argument

namespace NodeId

/-- The id of the value of a field at the path of the container, with some arguments that have no
variable. -/
def IsAddress (container : NodeId) (path : Path) (id : NodeId) : Prop :=
  ∃ arguments : Arguments, arguments.openVariable? = none ∧
    parameterized container path arguments = .ok id

/-- Only arguments without a variable have an address. -/
theorem isAddress_of_parameterized {container id : NodeId} {path : Path} {arguments : Arguments}
    (h : parameterized container path arguments = .ok id) : IsAddress container path id := by
  refine ⟨arguments, ?_, h⟩
  unfold parameterized at h
  split at h
  · next json written =>
    obtain ⟨_, members, -⟩ := Option.map_eq_some_iff.mp written
    exact Argument.variableOfMembers?_eq_none_of_toMembers? arguments members
  · cases h

end NodeId
end ResponseGraph
