import Mathlib.Data.List.Forall2
import ResponseGraph.Proofs.Field.Guards
import ResponseGraph.Proofs.Value.Sameness

/-!
Guards as sets.

Guards are compared as the program compares them, so a number may be written in two ways.  A list
of guards covers a guard if it has one that is the same, and two lists are alike if they cover the
same guards (`Guard.Alike`).  Then one is a rearrangement of the other, provided that no guard is
listed twice.
-/

namespace ResponseGraph

/-! ## Sameness -/

theorem Double.same_comm (a b : Double) : a.same b = b.same a := by
  unfold Double.same
  rw [Bool.and_comm, BEq.comm]

theorem Number.same_comm (a b : Number) : a.same b = b.same a := by
  cases a <;> cases b
  · exact BEq.comm
  · rfl
  · rfl
  · exact Double.same_comm _ _

namespace Argument

mutual
theorem same_comm : (a b : Argument) → a.same b = b.same a
  | .null, b => by cases b <;> rfl
  | .bool _, b => by cases b <;> first | rfl | exact BEq.comm
  | .number _, b => by cases b <;> first | rfl | exact Number.same_comm _ _
  | .string _, b => by cases b <;> first | rfl | exact BEq.comm
  | .variable _, b => by cases b <;> first | rfl | exact BEq.comm
  | .list xs, b => by cases b <;> first | rfl | exact sameItems_comm xs _
  | .object xs, b => by cases b <;> first | rfl | exact sameMembers_comm xs _

theorem sameItems_comm : (xs ys : List Argument) → sameItems xs ys = sameItems ys xs
  | [], ys => by cases ys <;> rfl
  | x :: xs, ys => by
    cases ys with
    | nil => rfl
    | cons y ys => rw [sameItems, sameItems, same_comm x y, sameItems_comm xs ys]

theorem sameMembers_comm : (xs ys : List (String × Argument)) →
    sameMembers xs ys = sameMembers ys xs
  | [], ys => by cases ys <;> rfl
  | (name, x) :: xs, ys => by
    cases ys with
    | nil => rfl
    | cons entry ys =>
      rw [sameMembers, sameMembers, same_comm x, sameMembers_comm xs ys, BEq.comm]
end

mutual
theorem same_trans : (a : Argument) → {b c : Argument} → a.same b → b.same c → a.same c
  | .null, b, c, first, second => by
    cases b <;> cases c <;> simp_all [same]
  | .bool _, b, c, first, second => by
    cases b <;> cases c <;> simp_all [same]
  | .string _, b, c, first, second => by
    cases b <;> cases c <;> simp_all [same]
  | .variable _, b, c, first, second => by
    cases b <;> cases c <;> simp_all [same]
  | .number _, b, c, first, second => by
    cases b <;> cases c <;> simp only [same, Bool.false_eq_true] at first second ⊢
    exact Number.same_trans first second
  | .list xs, b, c, first, second => by
    cases b <;> cases c <;> simp only [same, Bool.false_eq_true] at first second ⊢
    exact sameItems_trans xs first second
  | .object xs, b, c, first, second => by
    cases b <;> cases c <;> simp only [same, Bool.false_eq_true] at first second ⊢
    exact sameMembers_trans xs first second

theorem sameItems_trans : (xs : List Argument) → {ys zs : List Argument} →
    sameItems xs ys → sameItems ys zs → sameItems xs zs
  | [], ys, zs, first, second => by
    cases ys <;> cases zs <;> simp_all [sameItems]
  | x :: xs, ys, zs, first, second => by
    cases ys <;> cases zs <;> simp only [sameItems, Bool.false_eq_true] at first second ⊢
    rw [Bool.and_eq_true] at first second ⊢
    exact ⟨same_trans x first.1 second.1, sameItems_trans xs first.2 second.2⟩

theorem sameMembers_trans : (xs : List (String × Argument)) →
    {ys zs : List (String × Argument)} → sameMembers xs ys → sameMembers ys zs →
    sameMembers xs zs
  | [], ys, zs, first, second => by
    cases ys <;> cases zs <;> simp_all [sameMembers]
  | (name, x) :: xs, ys, zs, first, second => by
    cases ys <;> cases zs <;> simp only [sameMembers, Bool.false_eq_true] at first second ⊢
    rw [Bool.and_eq_true, Bool.and_eq_true, beq_iff_eq] at first second ⊢
    exact ⟨⟨first.1.1.trans second.1.1, same_trans x first.1.2 second.1.2⟩,
      sameMembers_trans xs first.2 second.2⟩
end

end Argument

namespace Condition

theorem same_comm (a b : Condition) : a.same b = b.same a := by
  unfold same
  rw [Argument.same_comm, BEq.comm]

theorem same_trans {a b c : Condition} (first : a.same b) (second : b.same c) : a.same c := by
  unfold same at *
  rw [Bool.and_eq_true, beq_iff_eq] at *
  exact ⟨first.1.trans second.1, Argument.same_trans _ first.2 second.2⟩

end Condition

namespace Guard

theorem same_comm (a b : Guard) : a.same b = b.same a := by
  induction a generalizing b with
  | nil => cases b <;> rfl
  | cons condition rest ih =>
    cases b with
    | nil => rfl
    | cons other others => rw [same, same, Condition.same_comm, ih]

theorem same_trans {a b c : Guard} (first : a.same b) (second : b.same c) : a.same c := by
  induction a generalizing b c with
  | nil => cases b <;> cases c <;> simp_all [same]
  | cons condition rest ih =>
    cases b <;> cases c <;> simp only [same, Bool.false_eq_true] at first second ⊢
    rw [Bool.and_eq_true] at first second ⊢
    exact ⟨Condition.same_trans first.1 second.1, ih first.2 second.2⟩

/-! ## Alternatives -/

/-- One of the guards is the same. -/
def Covers (guards : List Guard) (guard : Guard) : Prop := ∃ known ∈ guards, known.same guard

/-- Both cover the same guards. -/
def Alike (guards more : List Guard) : Prop := ∀ guard, Covers guards guard ↔ Covers more guard

variable {guards more others rest : List Guard} {guard outer : Guard}

namespace Alike

theorem refl (guards : List Guard) : Alike guards guards := fun _ => Iff.rfl

theorem symm (h : Alike guards more) : Alike more guards := fun guard => (h guard).symm

theorem trans (first : Alike guards more) (second : Alike more rest) : Alike guards rest :=
  fun guard => (first guard).trans (second guard)

end Alike

theorem covers_of_mem (member : guard ∈ guards) : Covers guards guard :=
  ⟨guard, member, same_refl guard⟩

theorem eq_nil_iff : guards = [] ↔ ∀ guard, ¬ Covers guards guard := by
  constructor
  · rintro rfl guard ⟨known, member, -⟩
    cases member
  · intro none
    exact List.eq_nil_iff_forall_not_mem.mpr fun guard member => none guard (covers_of_mem member)

theorem Alike.eq_nil_iff (h : Alike guards more) : guards = [] ↔ more = [] := by
  rw [Guard.eq_nil_iff, Guard.eq_nil_iff]
  exact forall_congr' fun guard => not_congr (h guard)

theorem covers_cons : Covers (guard :: rest) outer ↔ guard.same outer ∨ Covers rest outer := by
  simp [Covers]

theorem covers_fold (more guards : List Guard) :
    Covers (more.foldl (fun acc guard => if acc.any (·.same guard) then acc else acc ++ [guard])
      guards) guard ↔ Covers guards guard ∨ Covers more guard := by
  induction more generalizing guards with
  | nil => simp [Covers]
  | cons next rest ih =>
    rw [List.foldl_cons, ih, covers_cons]
    split
    · next known =>
      obtain ⟨found, member, same⟩ := List.any_eq_true.mp known
      have covered : next.same guard → Covers guards guard :=
        fun same' => ⟨found, member, same_trans same same'⟩
      tauto
    · have added : Covers (guards ++ [next]) guard ↔ Covers guards guard ∨ next.same guard := by
        simp [Covers, or_and_right, exists_or]
      rw [added, or_assoc]

/-- Either list of guards, unless one is empty. -/
theorem covers_union : Covers (union guards more) guard ↔
    guards ≠ [] ∧ more ≠ [] ∧ (Covers guards guard ∨ Covers more guard) := by
  unfold union
  by_cases empty : guards = []
  · simp [empty, Covers]
  · by_cases empty' : more = []
    · simp [empty', Covers]
    · rw [if_neg (by simp [empty, empty']), covers_fold]
      simp only [ne_eq, empty, empty', not_false_eq_true, true_and]

theorem union_eq_nil_iff : union guards more = [] ↔ guards = [] ∨ more = [] := by
  unfold union
  by_cases empty : guards = []
  · simp [empty]
  · by_cases empty' : more = []
    · simp [empty']
    · rw [if_neg (by simp [empty, empty'])]
      exact iff_of_false (fold_ne_nil more empty) (by simp [empty, empty'])

theorem Alike.union (first : Alike guards more) (second : Alike others rest) :
    Alike (Guard.union guards others) (Guard.union more rest) := by
  intro guard
  rw [covers_union, covers_union, first guard, second guard, ne_eq, ne_eq, first.eq_nil_iff,
    second.eq_nil_iff]

theorem alike_union_comm (guards more : List Guard) :
    Alike (union guards more) (union more guards) := by
  intro guard
  rw [covers_union, covers_union]
  tauto

/-- It does not matter in which order guards are united. -/
theorem alike_union_right_comm (guards more rest : List Guard) :
    Alike (union (union guards more) rest) (union (union guards rest) more) := by
  intro guard
  simp only [covers_union, ne_eq, union_eq_nil_iff]
  tauto

theorem Alike.within (h : Alike guards more) (outer : Guard) :
    Alike (Guard.within outer guards) (Guard.within outer more) := by
  have half {guards more : List Guard} (h : Alike guards more) (guard : Guard)
      (covered : Covers (Guard.within outer guards) guard) :
      Covers (Guard.within outer more) guard := by
    unfold Guard.within at covered ⊢
    by_cases empty : guards = []
    · have empty' := h.eq_nil_iff.mp empty
      subst empty empty'
      exact covered
    · have full : more ≠ [] := fun empty' => empty (h.eq_nil_iff.mpr empty')
      rw [if_neg (by simpa using empty)] at covered
      rw [if_neg (by simpa using full)]
      obtain ⟨under, inside, same⟩ := covered
      obtain ⟨known, member, rfl⟩ := List.mem_map.mp inside
      obtain ⟨other, member', same'⟩ := (h known).mp (covers_of_mem member)
      refine ⟨other ++ outer, List.mem_map.mpr ⟨other, member', rfl⟩, same_trans ?_ same⟩
      rw [same_append]
      exact same'
  exact fun guard => ⟨half h guard, half h.symm guard⟩

/-- The same guards in another order. -/
def Reordered (guards more : List Guard) : Prop :=
  ∃ middle : List Guard, guards.Perm middle ∧
    List.Forall₂ (fun guard other => guard.same other) middle more

theorem Alike.of_perm (h : guards.Perm more) : Alike guards more := by
  intro guard
  unfold Covers
  simp only [h.mem_iff]

/-- Without guards that are the same, the others are alike as well. -/
theorem Alike.tail {first : Guard} (h : Alike (guard :: rest) (first :: more))
    (same : guard.same first) (distinct : Distinct (guard :: rest))
    (distinct' : Distinct (first :: more)) : Alike rest more := by
  have half {guard first : Guard} {rest more : List Guard}
      (h : Alike (guard :: rest) (first :: more)) (same : guard.same first)
      (distinct : Distinct (guard :: rest)) {other : Guard} (covered : Covers rest other) :
      Covers more other := by
    refine (covers_cons.mp ((h other).mp (covers_cons.mpr (Or.inr covered)))).resolve_left ?_
    intro same'
    obtain ⟨known, member, same''⟩ := covered
    refine (List.pairwise_cons.mp distinct).1 known member ?_
    rw [same_comm] at same''
    exact same_trans (same_trans same same') same''
  exact fun other => ⟨half h same distinct, half h.symm (by rwa [same_comm]) distinct'⟩

/-- Lists that are alike are rearrangements of each other. -/
theorem Alike.reordered (h : Alike guards more) (distinct : Distinct guards)
    (distinct' : Distinct more) : Reordered guards more := by
  induction more generalizing guards with
  | nil =>
    rw [h.eq_nil_iff.mpr rfl]
    exact ⟨[], .refl _, .nil⟩
  | cons first rest ih =>
    obtain ⟨known, member, same⟩ := (h first).mpr (covers_of_mem List.mem_cons_self)
    obtain ⟨before, after, rfl⟩ := List.append_of_mem member
    have moved : (before ++ known :: after).Perm (known :: (before ++ after)) := List.perm_middle
    have apart : Distinct (known :: (before ++ after)) :=
      (moved.pairwise_iff fun other => by rwa [same_comm]).mp distinct
    have others : Alike (before ++ after) rest :=
      Alike.tail ((Alike.of_perm moved).symm.trans h) same apart distinct'
    obtain ⟨middle, perm, all⟩ :=
      ih others (List.pairwise_cons.mp apart).2 (List.pairwise_cons.mp distinct').2
    exact ⟨known :: middle, moved.trans (perm.cons known), .cons same all⟩

end Guard

end ResponseGraph
