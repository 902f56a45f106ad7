import ResponseGraph.Proofs.Field.Outline

/-!
Shapes up to order.

Shapes are alike if their outlines are (`Shapes.Alike`).  Whatever is made of shapes that are alike
is alike again, and it does not matter in which order shapes are merged.  Shapes that are alike
are the same but for the order of fields at each level and the order of guards of each field
(`Shapes.Reordered`).
-/

namespace ResponseGraph

/-- The shapes say the same, but for the order in which they say it. -/
structure Shapes.Alike (shapes others : Shapes) : Prop where
  exact : shapes.Exact
  exact' : others.Exact
  outline : Outline.Alike (Shapes.at? shapes) (Shapes.at? others)

namespace Shapes

open Outline

variable {path path' : List String} {shapes others rest : Shapes} {into into' a b a' b' : Shapes}

namespace Alike

theorem refl (exact : shapes.Exact) : Shapes.Alike shapes shapes := ⟨exact, exact, .refl _⟩

theorem symm (h : Shapes.Alike shapes others) : Shapes.Alike others shapes :=
  ⟨h.exact', h.exact, h.outline.symm⟩

theorem trans (first : Shapes.Alike shapes others) (second : Shapes.Alike others rest) :
    Shapes.Alike shapes rest := ⟨first.exact, second.exact', first.outline.trans second.outline⟩

end Alike

theorem sameOutcome_of_merges {a b a' b' : Outline} {x y : Except DocumentError Shapes}
    (first : Merges Shapes.at? a b x) (second : Merges Shapes.at? a' b' y)
    (compatible : Compatible a b ↔ Compatible a' b') (alike : Outline.Alike (a.join b) (a'.join b')) :
    SameOutcome (fun shapes others => Outline.Alike (Shapes.at? shapes) (Shapes.at? others)) x y := by
  cases first with
  | ok here joined =>
    cases second with
    | ok there joined' => exact .ok (by rw [joined, joined']; exact alike)
    | error conflict problem => exact absurd (compatible.mp here) conflict
  | error conflict problem =>
    cases second with
    | ok there joined => exact absurd (compatible.mpr there) conflict
    | error conflict' problem' => exact .error problem problem'

/-- What is merged may be replaced by what is alike. -/
theorem Alike.combine (first : Shapes.Alike into into') (second : Shapes.Alike a a') :
    SameOutcome Shapes.Alike (Shapes.combine path into a) (Shapes.combine path' into' a') := by
  refine (sameOutcome_of_merges (merges_combine a second.exact) (merges_combine a' second.exact')
    ⟨first.outline.compatible second.outline,
      first.outline.symm.compatible second.outline.symm⟩
    (first.outline.join second.outline)).mono fun merged merged' made made' alike => ?_
  exact ⟨(first.exact.combine a second.exact made).1, (first.exact'.combine a' second.exact' made').1,
    alike⟩

/-- Two merges in a row. -/
theorem merges_combine_twice (exact : a.Exact) (exact' : b.Exact) :
    (∃ merged, Shapes.combine path into a >>= (Shapes.combine path · b) = .ok merged ∧
        (Compatible (at? into) (at? a) ∧ Compatible ((at? into).join (at? a)) (at? b)) ∧
        at? merged = ((at? into).join (at? a)).join (at? b)) ∨
      ∃ problem, Shapes.combine path into a >>= (Shapes.combine path · b) = .error problem ∧
        ¬ (Compatible (at? into) (at? a) ∧ Compatible ((at? into).join (at? a)) (at? b)) := by
  have first := @merges_combine path into a exact
  generalize Shapes.combine path into a = outcome at first ⊢
  cases first with
  | error conflict problem => exact Or.inr ⟨problem, rfl, fun both => conflict both.1⟩
  | @ok middle compatible joined =>
    have second := @merges_combine path middle b exact'
    rw [joined] at second
    show (∃ merged, Shapes.combine path middle b = _ ∧ _) ∨ ∃ problem,
      Shapes.combine path middle b = _ ∧ _
    generalize Shapes.combine path middle b = outcome at second ⊢
    cases second with
    | error conflict problem => exact Or.inr ⟨problem, rfl, fun both => conflict both.2⟩
    | @ok merged compatible' joined' => exact Or.inl ⟨merged, rfl, ⟨compatible, compatible'⟩, joined'⟩

/-- It does not matter in which order shapes are merged. -/
theorem combine_right_comm (exact : into.Exact) (first : a.Exact) (second : b.Exact) :
    SameOutcome Shapes.Alike (Shapes.combine path into a >>= (Shapes.combine path · b))
      (Shapes.combine path into b >>= (Shapes.combine path · a)) := by
  have either := @compatible_right_comm (at? into) (at? a) (at? b)
  rcases @merges_combine_twice path into a b first second with
    ⟨merged, made, compatible, joined⟩ | ⟨problem, failed, conflict⟩
  · rcases @merges_combine_twice path into b a second first with
      ⟨merged', made', compatible', joined'⟩ | ⟨problem', failed', conflict'⟩
    · rw [made, made']
      refine .ok ⟨?_, ?_, ?_⟩
      · obtain ⟨middle, one, two⟩ := exists_of_bind_eq_ok made
        exact ((exact.combine a first one).1.combine b second two).1
      · obtain ⟨middle, one, two⟩ := exists_of_bind_eq_ok made'
        exact ((exact.combine b second one).1.combine a first two).1
      · rw [joined, joined']
        exact alike_join_right_comm (compatible.1.join_iff.mp compatible.2).2
    · exact absurd (either.mp compatible) conflict'
  · rcases @merges_combine_twice path into b a second first with
      ⟨merged', made', compatible', joined'⟩ | ⟨problem', failed', conflict'⟩
    · exact absurd (either.mpr compatible') conflict
    · rw [failed, failed']
      exact .error problem problem'

/-! ## What is made of shapes -/

theorem at?_within (guard : Guard) (shapes : Shapes) (name : String) (path : List String) :
    at? (within (some guard) shapes) (name :: path) =
      match path with
      | [] => (at? shapes [name]).map fun head =>
          { head with guards := Guard.within guard head.guards }
      | label :: path => at? shapes (name :: label :: path) := by
  have mapped : Entries.get? name (within (some guard) shapes) =
      (Entries.get? name shapes).map (Shape.within guard) :=
    Entries.get?_map (fun _ => Shape.within guard) name shapes
  simp only [Shapes.at?, mapped]
  cases Entries.get? name shapes with
  | none => cases path <;> rfl
  | some shape => cases path <;> cases shape <;> rfl

/-- Shapes that are alike are alike under a guard. -/
theorem Alike.within (h : Shapes.Alike shapes others) (guard : Option Guard) :
    Shapes.Alike (within guard shapes) (within guard others) := by
  refine ⟨h.exact.within guard, h.exact'.within guard, ?_⟩
  cases guard with
  | none => exact h.outline
  | some guard =>
    intro path
    match path with
    | [] => exact .none
    | [name] =>
      rw [at?_within, at?_within]
      have here := h.outline [name]
      generalize at? shapes [name] = x at here ⊢
      generalize at? others [name] = y at here ⊢
      cases here with
      | none => exact .none
      | some heads => exact .some ⟨⟨heads.agrees.arguments, heads.agrees.schemaName⟩,
          heads.guards.within guard, heads.excluded⟩
    | name :: label :: path =>
      rw [at?_within, at?_within]
      exact h.outline (name :: label :: path)

theorem get?_eq_none_iff_at? {name : String} :
    Entries.get? name shapes = none ↔ at? shapes [name] = none := by
  rw [at?]
  cases Entries.get? name shapes <;> simp [Shape.at?]

theorem Alike.get?_eq_none_iff (h : Shapes.Alike shapes others) (name : String) :
    Entries.get? name shapes = none ↔ Entries.get? name others = none := by
  rw [get?_eq_none_iff_at?, get?_eq_none_iff_at?]
  have here := h.outline [name]
  generalize at? shapes [name] = x at here ⊢
  generalize at? others [name] = y at here ⊢
  cases here <;> simp

theorem Alike.isEmpty_eq (h : Shapes.Alike shapes others) : shapes.isEmpty = others.isEmpty := by
  have half {shapes others : Shapes} (h : Shapes.Alike shapes others) (empty : shapes.isEmpty) :
      others.isEmpty := by
    cases others with
    | nil => rfl
    | cons entry rest =>
      have none := (h.get?_eq_none_iff entry.1).mp (by rw [List.isEmpty_iff.mp empty]; rfl)
      rw [show entry = (entry.1, entry.2) from rfl, Entries.get?_cons, if_pos rfl] at none
      cases none
  exact Bool.eq_iff_iff.mpr ⟨half h, half h.symm⟩

/-- A shape by itself is alike if the shapes below are. -/
theorem alike_singleton (name : String) {head : FieldHead} (exact : head.Exact)
    {below below' : Option Shapes}
    (h : Option.Rel (fun shapes others => Shapes.Alike shapes others ∧ shapes ≠ [] ∧ others ≠ [])
      below below') :
    Shapes.Alike [(name, .of head below)] [(name, .of head below')] := by
  refine ⟨.singleton (.of exact ?_), .singleton (.of exact ?_), ?_⟩
  · rintro fields rfl
    cases h with
    | some all => exact ⟨all.1.exact, all.2.1⟩
  · rintro fields rfl
    cases h with
    | some all => exact ⟨all.1.exact', all.2.2⟩
  · intro path
    match path with
    | [] => exact .none
    | label :: path =>
      simp only [at?, Entries.get?_cons, Entries.get?_nil]
      by_cases same : name = label
      · rw [if_pos same, if_pos same]
        cases path with
        | nil =>
          show Option.Rel _ (some (Shape.of head below).head) (some (Shape.of head below').head)
          rw [Shape.head_of, Shape.head_of]
          exact .some (.refl head)
        | cons next path =>
          cases h with
          | none => exact FieldHead.rel_refl _
          | some all => exact all.1.outline (next :: path)
      · rw [if_neg same, if_neg same]
        exact .none

/-- Sub-selections with shapes that are alike. -/
theorem Alike.below? (h : Shapes.Alike shapes others) (addTypename : Bool) :
    Option.Rel (fun shapes others => Shapes.Alike shapes others ∧ shapes ≠ [] ∧ others ≠ [])
      (below? addTypename shapes) (below? addTypename others) := by
  have full {fields fields' : Shapes} (found : Shapes.below? addTypename shapes = some fields)
      (found' : Shapes.below? addTypename others = some fields')
      (outline : Outline.Alike (at? fields) (at? fields')) :
      Shapes.Alike fields fields' ∧ fields ≠ [] ∧ fields' ≠ [] :=
    ⟨⟨(h.exact.below found).1, (h.exact'.below found').1, outline⟩, (h.exact.below found).2,
      (h.exact'.below found').2⟩
  unfold Shapes.below? at full ⊢
  rw [h.isEmpty_eq] at full ⊢
  by_cases empty : others.isEmpty
  · simp only [if_pos empty]
    exact .none
  · simp only [if_neg empty] at full ⊢
    have typename : (Entries.get? "__typename" shapes).isNone =
        (Entries.get? "__typename" others).isNone := by
      rw [Bool.eq_iff_iff, Option.isNone_iff_eq_none, Option.isNone_iff_eq_none]
      exact h.get?_eq_none_iff "__typename"
    rw [typename] at full ⊢
    by_cases lacking : addTypename && (Entries.get? "__typename" others).isNone
    · simp only [if_pos lacking] at full ⊢
      rw [Bool.and_eq_true, Option.isNone_iff_eq_none] at lacking
      refine .some (full rfl rfl ?_)
      rw [at?_put_of_none lacking.2,
        at?_put_of_none ((h.get?_eq_none_iff "__typename").mpr lacking.2)]
      exact h.outline.join (.refl _)
    · simp only [if_neg lacking] at full ⊢
      exact .some (full rfl rfl h.outline)

end Shapes

/-! ## The order of fields -/

/-- The same but for the order of the guards.  Arguments and guards are compared as they are where
fields are merged, so a zero may have either sign. -/
structure FieldHead.Reordered (a b : FieldHead) : Prop where
  arguments : a.sameArguments b
  schemaName : a.schemaName = b.schemaName
  guards : Guard.Reordered a.guards b.guards
  excluded : a.excluded = b.excluded

mutual
/-- The same field, with its guards in another order, and with those below it. -/
inductive Shape.Reordered : Shape → Shape → Prop
  | leaf {head head' : FieldHead} (heads : head.Reordered head') :
    Shape.Reordered (.leaf head) (.leaf head')
  | composite (traits : Traits) {head head' : FieldHead} {fields fields' : List (String × Shape)}
    (heads : head.Reordered head') (below : Shapes.Reordered fields fields') :
    Shape.Reordered (.composite head traits fields) (.composite head' traits fields')

/-- The same fields in another order, at any level. -/
inductive Shapes.Reordered : List (String × Shape) → List (String × Shape) → Prop
  | nil : Shapes.Reordered [] []
  | cons (name : String) {shape shape' : Shape} {rest rest' : List (String × Shape)}
    (here : Shape.Reordered shape shape') (later : Shapes.Reordered rest rest') :
    Shapes.Reordered ((name, shape) :: rest) ((name, shape') :: rest')
  | swap (first second : String × Shape) (rest : List (String × Shape)) :
    Shapes.Reordered (first :: second :: rest) (second :: first :: rest)
  | trans {shapes between shapes' : List (String × Shape)}
    (first : Shapes.Reordered shapes between) (second : Shapes.Reordered between shapes') :
    Shapes.Reordered shapes shapes'
end

theorem FieldHead.Reordered.refl (head : FieldHead) : head.Reordered head :=
  ⟨sameArguments_refl head, rfl,
    ⟨head.guards, .refl _, List.forall₂_same.mpr fun guard _ => Guard.same_refl guard⟩, rfl⟩

mutual
theorem Shape.Reordered.refl : (shape : Shape) → shape.Reordered shape
  | .leaf head => .leaf (.refl head)
  | .composite head traits fields => .composite traits (.refl head) (Shapes.Reordered.refl fields)

theorem Shapes.Reordered.refl : (shapes : Shapes) → Shapes.Reordered shapes shapes
  | [] => .nil
  | (name, shape) :: rest => .cons name (Shape.Reordered.refl shape) (Shapes.Reordered.refl rest)
end

theorem Shapes.Reordered.of_perm {shapes others : Shapes} (h : shapes.Perm others) :
    Shapes.Reordered shapes others := by
  induction h with
  | nil => exact .nil
  | cons entry _ ih => exact .cons entry.1 (.refl entry.2) ih
  | swap first second rest => exact .swap second first rest
  | trans _ _ first second => exact .trans first second

namespace FieldHead.Reordered

variable {a b : FieldHead}

theorem isSome_arguments (h : a.Reordered b) : a.arguments.isSome = b.arguments.isSome := by
  have same := h.arguments
  unfold sameArguments at same
  generalize a.arguments = x at same ⊢
  generalize b.arguments = y at same ⊢
  cases x <;> cases y <;> first | rfl | cases same

theorem isEmpty_guards (h : a.Reordered b) : a.guards.isEmpty = b.guards.isEmpty := by
  obtain ⟨middle, perm, all⟩ := h.guards
  rw [Bool.eq_iff_iff, List.isEmpty_iff_length_eq_zero, List.isEmpty_iff_length_eq_zero,
    perm.length_eq, all.length_eq]

end FieldHead.Reordered

theorem Shape.Reordered.isDynamic_eq {shape other : Shape} (h : shape.Reordered other) :
    shape.isDynamic = other.isDynamic := by
  unfold isDynamic
  cases h with
  | leaf heads => rw [head, head, heads.isSome_arguments, heads.schemaName]; rfl
  | composite traits heads => rw [head, head, heads.isSome_arguments, heads.schemaName]; rfl

theorem Shape.Reordered.isGuarded_eq {shape other : Shape} (h : shape.Reordered other) :
    shape.isGuarded = other.isGuarded := by
  unfold isGuarded
  cases h with
  | leaf heads => rw [head, head, heads.isEmpty_guards]; rfl
  | composite traits heads => rw [head, head, heads.isEmpty_guards]; rfl

theorem Shapes.Reordered.traits_eq {shapes others : Shapes} :
    Shapes.Reordered shapes others → Shapes.traits shapes = Shapes.traits others
  | .nil => rfl
  | .cons name here later => by
    have below := later.traits_eq
    unfold Shapes.traits at below ⊢
    simp only [Traits.mk.injEq] at below
    simp only [List.any_cons, here.isDynamic_eq, here.isGuarded_eq, below.1, below.2]
  | .swap first second rest => by
    unfold Shapes.traits
    simp only [List.any_cons, Bool.or_left_comm]
  | .trans first second => first.traits_eq.trans second.traits_eq

/-- A permutation of exact shapes. -/
theorem Shapes.Exact.of_perm {shapes others : Shapes} (exact : shapes.Exact)
    (h : shapes.Perm others) : others.Exact :=
  ⟨(h.map Prod.fst).nodup_iff.mp exact.names, allExact_iff.mpr fun name shape member =>
    allExact_iff.mp exact.all name shape (h.mem_iff.mpr member)⟩

/-- A shape whose name comes first says nothing about other names. -/
theorem Shapes.Alike.tail {name : String} {shape shape' : Shape} {rest rest' : Shapes}
    (h : Shapes.Alike ((name, shape) :: rest) ((name, shape') :: rest')) :
    Shapes.Alike rest rest' := by
  refine ⟨h.exact.tail, h.exact'.tail, fun path => ?_⟩
  match path with
  | [] => exact .none
  | label :: path =>
    have here := h.outline (label :: path)
    simp only [at?, Entries.get?_cons] at here ⊢
    by_cases same : name = label
    · subst same
      rw [Entries.get?_eq_none_iff.mpr (List.nodup_cons.mp h.exact.names).1,
        Entries.get?_eq_none_iff.mpr (List.nodup_cons.mp h.exact'.names).1]
      exact .none
    · rw [if_neg same, if_neg same] at here
      exact here

theorem Shapes.Alike.head {name : String} {shape shape' : Shape} {rest rest' : Shapes}
    (h : Shapes.Alike ((name, shape) :: rest) ((name, shape') :: rest')) :
    Outline.Alike shape.at? shape'.at? := by
  intro path
  have here := h.outline (name :: path)
  simpa only [at?, Entries.get?_cons, if_pos] using here

/-- Names are in any order. -/
theorem Shapes.Exact.alike_of_perm {shapes others : Shapes} (exact : shapes.Exact)
    (h : shapes.Perm others) : Shapes.Alike shapes others := by
  refine ⟨exact, exact.of_perm h, fun path => ?_⟩
  match path with
  | [] => exact .none
  | name :: path =>
    have same : Entries.get? name shapes = Entries.get? name others := by
      cases found : Entries.get? name others with
      | some shape =>
        exact Entries.get?_of_mem exact.names (h.mem_iff.mpr (Entries.mem_of_get? found))
      | none =>
        rw [Entries.get?_eq_none_iff] at found ⊢
        rwa [(h.map Prod.fst).mem_iff]
    simp only [at?, same]
    exact FieldHead.rel_refl _

theorem FieldHead.Alike.reordered {a b : FieldHead} (h : a.Alike b) (exact : a.Exact)
    (exact' : b.Exact) : a.Reordered b :=
  ⟨h.agrees.arguments, h.agrees.schemaName, h.guards.reordered exact.guards exact'.guards,
    h.excluded⟩

/-- The heads of shapes with outlines that are alike. -/
theorem Outline.Alike.heads {shape other : Shape} (h : Outline.Alike shape.at? other.at?) :
    shape.head.Alike other.head := by
  cases h [] with
  | some heads => exact heads

/-- The shapes below shapes with outlines that are alike. -/
theorem Outline.Alike.inner {shape other : Shape} (h : Outline.Alike shape.at? other.at?)
    (exact : shape.inner.Exact) (exact' : other.inner.Exact) :
    Shapes.Alike shape.inner other.inner := by
  refine ⟨exact, exact', fun path => ?_⟩
  cases path with
  | nil => exact .none
  | cons name path => exact h (name :: path)

theorem Shape.Exact.inner {shape : Shape} (exact : shape.Exact) : shape.inner.Exact := by
  unfold Shape.inner
  cases found : shape.fields? with
  | none => exact .nil
  | some fields => exact (exact.fields found).1

mutual
/-- Shapes with outlines that are alike differ in nothing but order. -/
theorem Shape.reordered_of_alike : (shape other : Shape) → shape.Exact → other.Exact →
    Outline.Alike shape.at? other.at? → shape.Reordered other
  | .leaf head, .leaf head', exact, exact', h => .leaf (h.heads.reordered exact exact')
  | .leaf head, .composite head' traits' fields', exact, exact', h =>
    have below := h.inner exact.inner exact'.inner
    absurd (List.isEmpty_iff.mp (below.isEmpty_eq ▸ rfl)) exact'.2.2.1
  | .composite head traits fields, .leaf head', exact, exact', h =>
    have below := h.inner exact.inner exact'.inner
    absurd (List.isEmpty_iff.mp (below.symm.isEmpty_eq ▸ rfl)) exact.2.2.1
  | .composite head traits fields, .composite head' traits' fields', exact, exact', h => by
    have below : Shapes.Reordered fields fields' :=
      Shapes.Alike.reordered fields (h.inner exact.inner exact'.inner)
    have same : traits = traits' := by rw [exact.2.1, exact'.2.1, below.traits_eq]
    subst same
    exact .composite traits (h.heads.reordered exact.head exact'.head) below

theorem Shapes.Alike.reordered : (shapes : Shapes) → {others : Shapes} →
    Shapes.Alike shapes others → Shapes.Reordered shapes others
  | [], others, h => by
    have empty : others = [] := List.isEmpty_iff.mp (h.isEmpty_eq ▸ rfl)
    rw [empty]
    exact .nil
  | (name, shape) :: rest, others, h => by
    have present : Entries.get? name others ≠ none := by
      rw [ne_eq, ← h.get?_eq_none_iff, Entries.get?_cons, if_pos rfl]
      exact Option.some_ne_none shape
    obtain ⟨shape', found⟩ := Option.ne_none_iff_exists'.mp present
    obtain ⟨before, after, rfl⟩ := List.append_of_mem (Entries.mem_of_get? found)
    have moved : (before ++ (name, shape') :: after).Perm ((name, shape') :: (before ++ after)) :=
      List.perm_middle
    have alike : Shapes.Alike ((name, shape) :: rest) ((name, shape') :: (before ++ after)) :=
      h.trans (h.exact'.alike_of_perm moved)
    have here : shape.Reordered shape' :=
      Shape.reordered_of_alike shape shape' alike.exact.all.1 alike.exact'.all.1 alike.head
    exact .trans (.cons name here (Shapes.Alike.reordered rest alike.tail)) (.of_perm moved.symm)
end

end ResponseGraph
