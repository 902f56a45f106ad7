import ResponseGraph.Proofs.Basic
import ResponseGraph.Proofs.Value.Paths

/-!
A path as a lens.

What is written at a path is read there, writing what is there changes nothing, and of two
writes the second counts.  Paths that part are independent: a write at the one leaves what the
other leads to, except that a list is filled up with null to reach an index, and that a
container of the wrong kind gives way where the paths part.  Nothing else is lost by a write,
and this only if something was there (`get?_set_eq_iff`).
-/

namespace ResponseGraph

namespace Value

variable {value new found : Value} {path other above rest rest' : Path} {step next : Step}

/-! ## A write that is repeated -/

/-- A value that is put where it is changes nothing. -/
theorem put_of_step? (h : value.step? step = some found) : value.put step found = value := by
  cases value with
  | object members =>
    cases step with
    | key name => exact congrArg object (Entries.put_of_get? h)
    | index i => cases h
  | list items =>
    cases step with
    | key name => cases h
    | index i =>
      change items[i]? = some found at h
      obtain ⟨inside, e⟩ := List.getElem?_eq_some_iff.mp h
      show list (List.set (if i < items.length then items else _) i found) = _
      rw [if_pos inside, ← e, List.set_getElem_self]
  | _ => cases step <;> cases h

/-- What is read at a path may be written there. -/
theorem set_of_get? (h : value.get? path = some found) : value.set path found = value := by
  induction path generalizing value with
  | nil =>
    cases h
    rfl
  | cons step path ih =>
    rw [get?_cons] at h
    obtain ⟨below, taken, reached⟩ := Option.bind_eq_some_iff.mp h
    rw [set_cons, taken, Option.getD_some, ih reached, put_of_step? taken]

/-- A list that was made long enough is not made longer. -/
theorem put_put (value : Value) (step : Step) (first last : Value) :
    (value.put step first).put step last = value.put step last := by
  cases step with
  | key name => exact congrArg object (Entries.put_put name first last value.members)
  | index i =>
    have reaches : i < (if i < value.items.length then value.items
        else resize value.items (i + 1)).length := by
      split
      · assumption
      · rw [length_resize]
        omega
    show list (List.set (if i < (List.set _ i first).length then List.set _ i first else _) i last)
      = list (List.set _ i last)
    rw [List.length_set, if_pos reaches, List.set_set]

theorem set_set (value : Value) (path : Path) (first last : Value) :
    (value.set path first).set path last = value.set path last := by
  induction path generalizing value with
  | nil => rfl
  | cons step path ih =>
    rw [set_cons, set_cons, step?_put_self, Option.getD_some, ih, put_put, ← set_cons]

/-! ## A write seen from another path -/

/-- Nothing gives way where the paths part: a container for the step of the written one is there,
or nothing, or null, or another scalar. -/
def BearsParting (value : Value) (path other : Path) : Prop :=
  ∀ above step rest next rest', path = above ++ step :: rest → other = above ++ next :: rest' →
    step ≠ next → ∀ found, value.get? above = some found → found.Bears step

theorem bearsParting_iff (above rest rest' : Path) (ne : step ≠ next) :
    value.BearsParting (above ++ step :: rest) (above ++ next :: rest') ↔
      ∀ found, value.get? above = some found → found.Bears step := by
  constructor
  · exact fun h => h above step rest next rest' rfl rfl ne
  · intro h above' step' rest₁ next' rest₂ first second ne'
    obtain ⟨rfl, rfl⟩ := Path.eq_of_parting ne ne' first second
    exact h

/-- A list is filled up to the index that is written. -/
theorem get?_set_of_fillsUp (value new : Value) (h : path.FillsUp other) :
    (value.set path new).get? other = some ((value.get? other).getD .null) := by
  obtain ⟨above, i, j, rest, rfl, rfl, before⟩ := h
  have ne : Step.index i ≠ .index j := fun e => Nat.ne_of_gt before (Step.index.inj e)
  rw [get?_set_of_parting _ _ _ _ _ ne, get?_of_parting, get?_single, get?_single,
    step?_host_index _ (Nat.le_of_lt before)]

/-- Where a list is not filled up, nothing is read that was not there. -/
theorem get?_set_eq_none (apart : Path.Apart path other) (short : ¬ path.FillsUp other)
    (h : value.get? other = none) : (value.set path new).get? other = none := by
  refine Option.eq_none_iff_forall_ne_some.mpr fun found read => ?_
  rcases of_get?_set apart read with old | ⟨-, filled⟩
  · rw [h] at old
    cases old
  · exact short filled

/-- Beside a write everything is kept exactly if nothing was there or nothing gives way. -/
theorem get?_set_eq_iff (apart : Path.Apart path other) (short : ¬ path.FillsUp other) :
    (value.set path new).get? other = value.get? other ↔
      value.get? other = none ∨ value.BearsParting path other := by
  by_cases nothing : value.get? other = none
  · exact iff_of_true ((get?_set_eq_none apart short nothing).trans nothing.symm) (Or.inl nothing)
  rw [or_iff_right nothing]
  obtain ⟨above, step, rest, next, rest', rfl, rfl, ne⟩ := apart.exists_parting
  obtain ⟨held, reached⟩ := Option.ne_none_iff_exists'.mp nothing
  rw [bearsParting_iff _ _ _ ne, get?_set_of_parting _ _ _ _ _ ne, reached]
  rw [get?_append] at reached
  obtain ⟨place, found, reached⟩ := Option.bind_eq_some_iff.mp reached
  rw [found, Option.getD_some]
  constructor
  · intro kept other e
    cases e
    by_contra bears
    have taken : place.step? next ≠ none := by
      intro none
      rw [get?_cons, none] at reached
      cases reached
    rw [get?_cons, step?_host_of_not_bears bears taken] at kept
    cases kept
  · exact fun bears => get?_host_of_some (bears place rfl) reached

/-- A list gives way to a member, and its items are gone. -/
example : let value := object [("a", .list [.bool true])]
    value.get? [.key "a", .index 0] = some (.bool true) ∧
      (value.set [.key "a", .key "b"] .null).get? [.key "a", .index 0] = none := ⟨rfl, rfl⟩

/-- What is written is read, and elsewhere nothing else is, unless a container gives way where the
paths part: an earlier item of a list that is written holds what it held, or null if there was
none, and every other path leads to what it led to.  A second write counts alone, and writing what
is there changes nothing. -/
theorem set_obeys_lens_laws (value new : Value) (path : Path) :
    (value.set path new).get? path = some new ∧
      (∀ other, Path.Apart path other → value.BearsParting path other →
        (path.FillsUp other →
          (value.set path new).get? other = some ((value.get? other).getD .null)) ∧
        (¬ path.FillsUp other → (value.set path new).get? other = value.get? other)) ∧
      (∀ last, (value.set path new).set path last = value.set path last) ∧
      (value.get? path = some new → value.set path new = value) := by
  refine ⟨get?_set_self value path new, fun other apart bears => ⟨?_, fun short => ?_⟩,
    set_set value path new, set_of_get?⟩
  · exact get?_set_of_fillsUp value new
  · exact (get?_set_eq_iff apart short).mpr (Or.inr bears)

/-- A list is filled up and the member beside it is kept. -/
theorem set_obeys_lens_laws_beside_list :
    let value := object [("viewer", .object [("name", .string "ada"), ("friends", .list [.bool true])])]
    let path : Path := [.key "viewer", .key "friends", .index 2, .key "id"]
    let name : Path := [.key "viewer", .key "name"]
    let item : Path := [.key "viewer", .key "friends", .index 1]
    let written := value.set path (.reference "1")
    Path.Apart path name ∧ value.BearsParting path name ∧ ¬ path.FillsUp name ∧
      written.get? name = some (.string "ada") ∧
      Path.Apart path item ∧ value.BearsParting path item ∧ path.FillsUp item ∧
      value.get? item = none ∧ written.get? item = some .null ∧
      written.get? path = some (.reference "1") ∧ written.set path (.reference "1") = written := by
  intro value path name item written
  have apart : Path.Apart path name := ⟨by decide, by decide⟩
  have bears : value.BearsParting path name :=
    (bearsParting_iff [.key "viewer"] _ _ (by decide)).mpr fun found held => by
      cases held
      exact ⟨rfl, rfl⟩
  have short : ¬ path.FillsUp name := by
    rintro ⟨above, i, j, rest, -, e, -⟩
    have last := congrArg List.getLast? e
    rw [List.getLast?_concat] at last
    cases last
  have apart' : Path.Apart path item := ⟨by decide, by decide⟩
  have bears' : value.BearsParting path item :=
    (bearsParting_iff [.key "viewer", .key "friends"] _ _ (by decide)).mpr fun found held => by
      cases held
      exact ⟨rfl, rfl⟩
  have fills : path.FillsUp item :=
    ⟨[.key "viewer", .key "friends"], 2, 1, [.key "id"], rfl, rfl, by decide⟩
  obtain ⟨reads, beside, -, -⟩ := set_obeys_lens_laws value (.reference "1") path
  obtain ⟨-, -, -, again⟩ := set_obeys_lens_laws written (.reference "1") path
  exact ⟨apart, bears, short, (beside name apart bears).2 short, apart', bears', fills, rfl,
    (beside item apart' bears').1 fills, reads, again reads⟩

end Value
end ResponseGraph
