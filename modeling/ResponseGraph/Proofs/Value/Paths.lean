import ResponseGraph.Node

/-!
Reading after writing.

What is written at a path is read there and below.  A path that is apart from it, so that
neither leads through the other, reads what it read before, if no container on the way was
of the wrong kind and had to give way (`Node.Bears`).  Conversely whatever is read beside
the path was there before, or is null where a list was filled up.  Both follow from one equation:
where the paths part, the other one goes on in the container that the step of the written one
needs (`get?_set_of_parting`).
-/

namespace ResponseGraph

namespace Path

/-- Neither path leads through the other. -/
def Apart (path other : Path) : Prop := ¬ path <+: other ∧ ¬ other <+: path

/-- A path leads through another, strictly below it, or is apart. -/
theorem cases (path other : Path) :
    (∃ rest, other = path ++ rest) ∨ (∃ step rest, path = other ++ step :: rest) ∨
      Apart path other := by
  by_cases below : path <+: other
  · obtain ⟨rest, rfl⟩ := below
    exact Or.inl ⟨rest, rfl⟩
  · by_cases above : other <+: path
    · obtain ⟨rest, rfl⟩ := above
      cases rest with
      | nil => exact absurd (by simp) below
      | cons step rest => exact Or.inr (Or.inl ⟨step, rest, rfl⟩)
    · exact Or.inr (Or.inr ⟨below, above⟩)

theorem Apart.symm {path other : Path} (h : Apart path other) : Apart other path := And.symm h

theorem not_apart_nil (path : Path) : ¬ Apart path [] := fun h => h.2 (List.nil_prefix)

/-- Paths are apart when they part at the first step or later. -/
theorem apart_cons {step other : Step} {path rest : Path} :
    Apart (step :: path) (other :: rest) ↔ step ≠ other ∨ Apart path rest := by
  unfold Apart
  rw [List.cons_prefix_cons, List.cons_prefix_cons]
  by_cases h : step = other
  · simp [h]
  · simp [h, Ne.symm h]

/-- A list that is filled up to be written at the path gets null at the other one. -/
def FillsUp (path other : Path) : Prop :=
  ∃ above i j rest, path = above ++ .index i :: rest ∧ other = above ++ [.index j] ∧ j < i

/-- Apart paths go the same way for a while and part by two steps. -/
theorem Apart.exists_parting {path other : Path} (apart : Apart path other) :
    ∃ above step rest next rest', path = above ++ step :: rest ∧ other = above ++ next :: rest' ∧
      step ≠ next := by
  induction path generalizing other with
  | nil => exact absurd apart.symm (not_apart_nil other)
  | cons step path ih =>
    cases other with
    | nil => exact absurd apart (not_apart_nil _)
    | cons next other =>
      by_cases same : step = next
      · subst same
        obtain ⟨above, first, rest, second, rest', rfl, rfl, ne⟩ :=
          ih ((apart_cons.mp apart).resolve_left fun ne => ne rfl)
        exact ⟨step :: above, first, rest, second, rest', rfl, rfl, ne⟩
      · exact ⟨[], step, path, next, other, rfl, rfl, same⟩

/-- There is one place at which two paths part. -/
theorem eq_of_parting {above above' : Path} {step next step' next' : Step}
    {rest rest' more more' : Path} (ne : step ≠ next) (ne' : step' ≠ next')
    (first : above ++ step :: rest = above' ++ step' :: more)
    (second : above ++ next :: rest' = above' ++ next' :: more') :
    above = above' ∧ step = step' := by
  induction above generalizing above' with
  | nil =>
    cases above' with
    | nil => exact ⟨rfl, (List.cons.inj first).1⟩
    | cons other above' =>
      exact absurd ((List.cons.inj first).1.trans (List.cons.inj second).1.symm) ne
  | cons other above ih =>
    cases above' with
    | nil => exact absurd ((List.cons.inj first).1.symm.trans (List.cons.inj second).1) ne'
    | cons other' above' =>
      obtain ⟨rfl, along⟩ := List.cons.inj first
      obtain ⟨rfl, same⟩ := ih along (List.cons.inj second).2
      exact ⟨rfl, same⟩

end Path

namespace Value

/-- Nothing gives way when the step is taken from the value to write there. -/
def Bears (value : Value) : Step → Prop
  | .key _ => value.list? = none ∧ value.reference? = none
  | .index _ => value.object? = none ∧ value.reference? = none

/-- The value with what is at one step replaced. -/
def put (value : Value) (step : Step) (new : Value) : Value :=
  match step with
  | .key name => .object (Entries.put name new value.members)
  | .index i =>
    .list (List.set
      (if i < value.items.length then value.items else resize value.items (i + 1)) i new)

theorem getElem?_resize (items : List Value) (length i : Nat) :
    (resize items length)[i]? =
      if i < length then some (items[i]?.getD .null) else none := by
  unfold resize
  rw [List.getElem?_append, List.length_take, List.getElem?_take, List.getElem?_replicate]
  by_cases short : i < length
  · rw [if_pos short, if_pos short]
    by_cases inside : i < items.length
    · rw [if_pos (by omega), List.getElem?_eq_getElem inside, Option.getD_some]
    · rw [if_neg (by omega), if_pos (by omega), List.getElem?_eq_none (by omega), Option.getD_none]
  · rw [if_neg (by omega), if_neg (by omega), if_neg short]

theorem length_resize (items : List Value) (length : Nat) :
    (resize items length).length = length := by
  unfold resize
  rw [List.length_append, List.length_take, List.length_replicate]
  omega

theorem step?_key (value : Value) (name : String) :
    value.step? (.key name) = Entries.get? name value.members := by
  cases value <;> rfl

theorem step?_index (value : Value) (i : Nat) : value.step? (.index i) = value.items[i]? := by
  cases value <;> simp [step?, items]

theorem items_of_list?_eq_none {value : Value} (h : value.list? = none) : value.items = [] := by
  cases value <;> first | rfl | cases h

theorem members_of_object?_eq_none {value : Value} (h : value.object? = none) :
    value.members = [] := by
  cases value <;> first | rfl | cases h

theorem set_cons (value : Value) (step : Step) (path : Path) (new : Value) :
    value.set (step :: path) new =
      value.put step (((value.step? step).getD .null).set path new) := by
  cases step with
  | key name =>
    rw [step?_key, set]
    rfl
  | index i =>
    rw [step?_index, set]
    unfold put
    dsimp only
    split
    · rfl
    · next long =>
      rw [getElem?_resize, if_pos (by omega), Option.getD_some]

theorem step?_put_self (value : Value) (step : Step) (new : Value) :
    (value.put step new).step? step = some new := by
  cases step with
  | key name =>
    show Entries.get? name (Entries.put name new value.members) = some new
    rw [Entries.get?_put, if_pos rfl]
  | index i =>
    refine List.getElem?_set_self ?_
    split
    · assumption
    · rw [length_resize]
      omega

/-- The container in which a step is written: what is no object gives way to an empty one for a
key, what is no list to an empty one for an index, and the list is filled up to the index. -/
def host (value : Value) : Step → Value
  | .key _ => .object value.members
  | .index i => .list (if i < value.items.length then value.items else resize value.items (i + 1))

/-- Beside the step that is written there is what the container has. -/
theorem step?_put_of_ne (value new : Value) {step other : Step} (ne : step ≠ other) :
    (value.put step new).step? other = (value.host step).step? other := by
  cases step with
  | key name =>
    cases other with
    | key other =>
      show Entries.get? other (Entries.put name new value.members) = _
      rw [Entries.get?_put, if_neg fun e => ne (congrArg Step.key e)]
      rfl
    | index j => rfl
  | index i =>
    cases other with
    | key other => rfl
    | index j => exact List.getElem?_set_ne fun e => ne (congrArg Step.index e)

theorem step?_host_key (value : Value) (name other : String) :
    (value.host (.key name)).step? (.key other) = value.step? (.key other) :=
  (step?_key value other).symm

/-- Up to the index at which a list is written, nothing is missing. -/
theorem step?_host_index (value : Value) {i j : Nat} (within : j ≤ i) :
    (value.host (.index i)).step? (.index j) = some ((value.step? (.index j)).getD .null) := by
  rw [step?_index, step?_index]
  show (if i < value.items.length then value.items else _)[j]? = _
  split
  · rw [List.getElem?_eq_getElem (by omega), Option.getD_some]
  · rw [getElem?_resize, if_pos (by omega)]

theorem step?_host_index_beyond (value : Value) {i j : Nat} (beyond : i < j) :
    (value.host (.index i)).step? (.index j) = value.step? (.index j) := by
  rw [step?_index, step?_index]
  show (if i < value.items.length then value.items else _)[j]? = _
  split
  · rfl
  · rw [getElem?_resize, if_neg (by omega), List.getElem?_eq_none (by omega)]

/-- A container that need not give way leads where it led. -/
theorem step?_host_of_some {value below : Value} {step other : Step} (bears : value.Bears step)
    (h : value.step? other = some below) : (value.host step).step? other = some below := by
  cases step with
  | key name =>
    cases other with
    | key other => rwa [step?_host_key]
    | index j =>
      rw [step?_index, items_of_list?_eq_none bears.1] at h
      cases h
  | index i =>
    cases other with
    | key other =>
      rw [step?_key, members_of_object?_eq_none bears.1] at h
      cases h
    | index j =>
      rcases Nat.lt_or_ge i j with beyond | within
      · rwa [step?_host_index_beyond value beyond]
      · rw [step?_host_index value within, h, Option.getD_some]

/-- What the container leads to was there before, unless it was filled up. -/
theorem of_step?_host {value below : Value} {step other : Step} (ne : step ≠ other)
    (h : (value.host step).step? other = some below) :
    value.step? other = some below ∨
      (below = .null ∧ ∃ i j, step = .index i ∧ other = .index j ∧ j < i) := by
  cases step with
  | key name =>
    cases other with
    | key other => exact Or.inl (by rwa [step?_host_key] at h)
    | index j => cases h
  | index i =>
    cases other with
    | key other => cases h
    | index j =>
      rcases Nat.lt_or_ge i j with beyond | within
      · exact Or.inl (by rwa [step?_host_index_beyond value beyond] at h)
      · rw [step?_host_index value within] at h
        cases found : value.step? (.index j) with
        | some item =>
          rw [found] at h
          exact Or.inl h
        | none =>
          rw [found] at h
          cases h
          have differs : i ≠ j := fun e => ne (congrArg Step.index e)
          exact Or.inr ⟨rfl, i, j, rfl, rfl, by omega⟩

/-- A container that gives way does so with all that it has. -/
theorem step?_host_of_not_bears {value : Value} {step other : Step} (h : ¬ value.Bears step)
    (held : value.step? other ≠ none) : (value.host step).step? other = none := by
  cases value with
  | object members =>
    cases step with
    | key name => exact absurd ⟨rfl, rfl⟩ h
    | index i =>
      cases other with
      | key other => rfl
      | index j => exact absurd rfl held
  | list items =>
    cases step with
    | key name =>
      cases other with
      | key other => exact absurd rfl held
      | index j => rfl
    | index i => exact absurd ⟨rfl, rfl⟩ h
  | _ => cases other <;> exact absurd rfl held

/-- Every other step that leads somewhere still leads there. -/
theorem step?_put {value new below : Value} {step other : Step} (bears : value.Bears step)
    (ne : step ≠ other) (h : value.step? other = some below) :
    (value.put step new).step? other = some below :=
  (step?_put_of_ne value new ne).trans (step?_host_of_some bears h)

theorem get?_cons (value : Value) (step : Step) (path : Path) :
    value.get? (step :: path) = (value.step? step).bind fun below => below.get? path := rfl

theorem get?_host_of_some {value found : Value} {step next : Step} {rest : Path}
    (bears : value.Bears step) (h : value.get? (next :: rest) = some found) :
    (value.host step).get? (next :: rest) = some found := by
  rw [get?_cons] at h
  obtain ⟨below, taken, reached⟩ := Option.bind_eq_some_iff.mp h
  rw [get?_cons, step?_host_of_some bears taken]
  exact reached

theorem get?_append (value : Value) (path rest : Path) :
    value.get? (path ++ rest) = (value.get? path).bind fun below => below.get? rest := by
  induction path generalizing value with
  | nil => rfl
  | cons step path ih =>
    rw [List.cons_append, get?_cons, get?_cons]
    cases value.step? step with
    | none => rfl
    | some below => exact ih below

theorem get?_set_self (value : Value) (path : Path) (new : Value) :
    (value.set path new).get? path = some new := by
  induction path generalizing value with
  | nil => rfl
  | cons step path ih =>
    rw [set_cons, get?_cons, step?_put_self, Option.bind_some]
    exact ih _

theorem get?_set_append (value : Value) (path rest : Path) (new : Value) :
    (value.set path new).get? (path ++ rest) = new.get? rest := by
  rw [get?_append, get?_set_self, Option.bind_some]

/-- Nothing gives way, on the part of the path that leads to the other one as well, when
something is written at the path. -/
def BearsBeside (value : Value) (path other : Path) : Prop :=
  ∀ above step rest, path = above ++ step :: rest → above <+: other → ∀ found,
    value.get? above = some found → found.Bears step

theorem bears_null (step : Step) : Value.null.Bears step := by
  cases step <;> exact ⟨rfl, rfl⟩

/-- What a key leads on from is an object. -/
theorem bears_of_step?_key {value below : Value} {name : String}
    (h : value.step? (.key name) = some below) (other : String) : value.Bears (.key other) := by
  cases value <;> first | exact ⟨rfl, rfl⟩ | cases h

/-- What an index leads on from is a list. -/
theorem bears_of_step?_index {value below : Value} {i : Nat}
    (h : value.step? (.index i) = some below) (j : Nat) : value.Bears (.index j) := by
  cases value <;> first | exact ⟨rfl, rfl⟩ | cases h

/-- Above the path the rest of it is written into what was there. -/
theorem get?_set_above (value new : Value) (above : Path) (step : Step) (rest : Path) :
    (value.set (above ++ step :: rest) new).get? above =
      some (((value.get? above).getD .null).set (step :: rest) new) := by
  induction above generalizing value with
  | nil => rfl
  | cons first above ih =>
    rw [List.cons_append, set_cons, get?_cons, get?_cons, step?_put_self, Option.bind_some, ih]
    cases value.step? first with
    | some below => rfl
    | none =>
      cases above with
      | nil => rfl
      | cons next above => cases next <;> rfl

/-- A step from null leads nowhere. -/
theorem get?_null_cons (step : Step) (path : Path) : Value.null.get? (step :: path) = none := by
  cases step <;> rfl

theorem get?_single (value : Value) (step : Step) : value.get? [step] = value.step? step :=
  Option.bind_fun_some _

/-! ## Where paths part -/

theorem get?_of_parting (value : Value) (above : Path) (step : Step) (rest : Path) :
    value.get? (above ++ step :: rest) = ((value.get? above).getD .null).get? (step :: rest) := by
  rw [get?_append]
  cases value.get? above with
  | none => exact (get?_null_cons step rest).symm
  | some found => rfl

/-- Where another path parts from the one that is written, it goes on in the container. -/
theorem get?_set_of_parting (value new : Value) (above : Path) {step next : Step}
    (rest rest' : Path) (ne : step ≠ next) :
    (value.set (above ++ step :: rest) new).get? (above ++ next :: rest') =
      (((value.get? above).getD .null).host step).get? (next :: rest') := by
  rw [get?_append, get?_set_above, Option.bind_some, set_cons, get?_cons, step?_put_of_ne _ _ ne,
    get?_cons]

/-- What is apart from a path is kept when something is written there. -/
theorem get?_set {value new found : Value} {path other : Path}
    (bears : value.BearsBeside path other) (apart : Path.Apart path other)
    (h : value.get? other = some found) : (value.set path new).get? other = some found := by
  obtain ⟨above, step, rest, next, rest', rfl, rfl, ne⟩ := apart.exists_parting
  have here : ((value.get? above).getD .null).Bears step := by
    cases held : value.get? above with
    | none => exact bears_null step
    | some place => exact bears above step rest rfl (List.prefix_append _ _) place held
  rw [get?_of_parting] at h
  rw [get?_set_of_parting _ _ _ _ _ ne]
  exact get?_host_of_some here h

/-- What is read apart from a path was there before something was written, or a list was
filled up. -/
theorem of_get?_set {value new found : Value} {path other : Path} (apart : Path.Apart path other)
    (h : (value.set path new).get? other = some found) :
    value.get? other = some found ∨ (found = .null ∧ path.FillsUp other) := by
  obtain ⟨above, step, rest, next, rest', rfl, rfl, ne⟩ := apart.exists_parting
  rw [get?_set_of_parting _ _ _ _ _ ne, get?_cons] at h
  obtain ⟨below, taken, reached⟩ := Option.bind_eq_some_iff.mp h
  rcases of_step?_host ne taken with old | ⟨rfl, i, j, rfl, rfl, before⟩
  · rw [get?_of_parting, get?_cons, old]
    exact Or.inl reached
  · cases rest' with
    | nil =>
      cases reached
      exact Or.inr ⟨rfl, above, i, j, rest, rfl, rfl, before⟩
    | cons first more =>
      rw [get?_null_cons] at reached
      cases reached

/-! ## Resized lists -/

/-- An item of a resized list is the one that was there, or null. -/
theorem get?_resize_item (items : List Value) {length i : Nat} (inside : i < length) :
    (list (resize items length)).get? [.index i] =
      some (((list items).get? [.index i]).getD .null) := by
  rw [get?_cons, get?_cons, step?_index, step?_index]
  show (resize items length)[i]?.bind some = some ((items[i]?.bind some).getD .null)
  rw [getElem?_resize, if_pos inside, Option.bind_some, Option.bind_fun_some]

/-- Beyond its end a resized list has nothing. -/
theorem get?_resize_beyond (items : List Value) {length i : Nat} (beyond : length ≤ i)
    (rest : Path) : (list (resize items length)).get? (.index i :: rest) = none := by
  rw [get?_cons, step?_index]
  show (resize items length)[i]?.bind _ = none
  rw [getElem?_resize, if_neg (by omega), Option.bind_none]

/-- Strictly below an item that stays, a resized list has what it had. -/
theorem get?_resize_below (items : List Value) {length i : Nat} (inside : i < length) (step : Step)
    (rest : Path) : (list (resize items length)).get? (.index i :: step :: rest) =
      (list items).get? (.index i :: step :: rest) := by
  rw [get?_cons, get?_cons]
  show ((resize items length)[i]?.bind _) = items[i]?.bind _
  rw [getElem?_resize, if_pos inside, Option.bind_some]
  cases items[i]? with
  | none => exact get?_null_cons step rest
  | some item => rfl

/-- The references in a resized list are those of the items that stay. -/
theorem get?_resize_reference (items : List Value) (length : Nat) (rest : Path) (target : NodeId) :
    (list (resize items length)).get? rest = some (.reference target) ↔
      ∃ i below, rest = .index i :: below ∧ i < length ∧
        (list items).get? rest = some (.reference target) := by
  constructor
  · intro found
    cases rest with
    | nil => cases found
    | cons step below =>
      cases step with
      | key name => cases found
      | index i =>
        by_cases inside : i < length
        · refine ⟨i, below, rfl, inside, ?_⟩
          cases below with
          | cons step below => rwa [get?_resize_below items inside] at found
          | nil =>
            rw [get?_resize_item items inside] at found
            cases held : (list items).get? [.index i] with
            | none => rw [held] at found; cases found
            | some item => rwa [held] at found
        · rw [get?_resize_beyond items (Nat.le_of_not_lt inside)] at found
          cases found
  · rintro ⟨i, below, rfl, inside, old⟩
    cases below with
    | cons step below => rwa [get?_resize_below items inside]
    | nil => rw [get?_resize_item items inside, old, Option.getD_some]

theorem get?_reference_cons (id : String) (step : Step) (path : Path) :
    (Value.reference id).get? (step :: path) = none := by
  cases step <;> rfl

end Value

theorem Node.get?_nil (node : Node) : node.get? [] = node.data := Option.bind_fun_some node.data

end ResponseGraph
