import ResponseGraph.Guard

/-!
What guards decide.

`Guard.Passes` says that a list of guards includes a field: it is empty, or one of its
guards holds.  Combining guards of two selections means "either", and putting guards under
another one means "both".
-/

namespace ResponseGraph

variable {bindings : Bindings}

namespace Argument

/-- A condition holds by a constant, or by a variable that is bound to it. -/
theorem instantiate_eq_bool {argument : Argument} {value : Bool} :
    argument.instantiate bindings = .ok (.bool value) ↔
      argument = .bool value ∨
        ∃ name, argument = .variable name ∧ bindings.get? name = some (.bool value) := by
  match argument with
  | .variable name =>
    unfold instantiate
    cases found : bindings.get? name with
    | none => simp [found]
    | some json => cases json <;> simp [ofJson, found]
  | .list items =>
    unfold instantiate
    cases instantiateItems bindings items <;> simp [Except.map]
  | .object members =>
    unfold instantiate
    cases instantiateMembers bindings members <;> simp [Except.map]
  | .null | .bool _ | .number _ | .string _ => simp [instantiate]

end Argument

namespace Condition

theorem holds_eq_true {condition : Condition} :
    condition.holds bindings = .ok true ↔
      condition.value.instantiate bindings = .ok (.bool condition.includes) := by
  unfold holds
  cases condition.value.instantiate bindings with
  | error e => simp [bind, Except.bind]
  | ok found =>
    cases found with
    | bool value =>
      show (Except.ok (value == condition.includes) = Except.ok true) ↔ _
      simp
    | _ =>
      refine iff_of_false (fun h => ?_) (fun h => ?_)
      · cases h
      · cases h

/-- Conditions that are the same hold together. -/
theorem holds_congr {a b : Condition} (h : a.same b) :
    a.holds bindings = .ok true ↔ b.holds bindings = .ok true := by
  obtain ⟨includes, value⟩ := a
  obtain ⟨includes', value'⟩ := b
  rw [same, Bool.and_eq_true, beq_iff_eq] at h
  obtain ⟨rfl, h⟩ := h
  rw [holds_eq_true, holds_eq_true, Argument.instantiate_eq_bool, Argument.instantiate_eq_bool]
  cases value <;> cases value' <;> simp_all [Argument.same]

end Condition

namespace Guard

theorem holds_cons {condition : Condition} {rest : Guard} :
    holds bindings (condition :: rest) = .ok true ↔
      condition.holds bindings = .ok true ∧ holds bindings rest = .ok true := by
  rw [holds]
  cases condition.holds bindings with
  | error e => simp [bind, Except.bind]
  | ok value => cases value <;> simp [bind, Except.bind, pure, Except.pure]

theorem holds_append {guard outer : Guard} :
    holds bindings (guard ++ outer) = .ok true ↔
      holds bindings guard = .ok true ∧ holds bindings outer = .ok true := by
  induction guard with
  | nil => simp [holds, pure, Except.pure]
  | cons condition rest ih => rw [List.cons_append, holds_cons, holds_cons, ih, and_assoc]

theorem holds_congr {a b : Guard} (h : a.same b) :
    holds bindings a = .ok true ↔ holds bindings b = .ok true := by
  induction a generalizing b with
  | nil => cases b <;> simp_all [same]
  | cons condition rest ih =>
    cases b with
    | nil => cases h
    | cons other others =>
      rw [same, Bool.and_eq_true] at h
      rw [holds_cons, holds_cons, Condition.holds_congr h.1, ih h.2]

/-- The guards include a field. -/
def Passes (bindings : Bindings) (guards : List Guard) : Prop :=
  guards = [] ∨ ∃ guard ∈ guards, holds bindings guard = .ok true

theorem passes_nil : Passes bindings [] := Or.inl rfl

theorem passes_singleton {guard : Guard} :
    Passes bindings [guard] ↔ holds bindings guard = .ok true := by
  simp [Passes]

theorem exists_holds_fold (more guards : List Guard) :
    (∃ guard ∈ more.foldl (fun acc guard => if acc.any (·.same guard) then acc else acc ++ [guard])
        guards, holds bindings guard = .ok true) ↔
      (∃ guard ∈ guards, holds bindings guard = .ok true) ∨
        ∃ guard ∈ more, holds bindings guard = .ok true := by
  induction more generalizing guards with
  | nil => simp
  | cons next rest ih =>
    rw [List.foldl_cons, ih]
    split
    · next known =>
      obtain ⟨guard, member, same⟩ := List.any_eq_true.mp known
      have covered : holds bindings next = .ok true →
          ∃ guard ∈ guards, holds bindings guard = .ok true :=
        fun held => ⟨guard, member, (holds_congr same).mpr held⟩
      simp only [List.mem_cons, exists_eq_or_imp]
      rw [← or_assoc]
      exact or_congr_left ⟨Or.inl, fun h => h.elim id covered⟩
    · simp only [List.mem_append, List.mem_cons, List.not_mem_nil, or_false, or_and_right,
        exists_or,
        exists_eq_left, or_assoc]

theorem fold_ne_nil (more : List Guard) {guards : List Guard} (h : guards ≠ []) :
    more.foldl
      (fun acc guard => if acc.any (·.same guard) then acc else acc ++ [guard]) guards ≠ [] := by
  induction more generalizing guards with
  | nil => exact h
  | cons next rest ih =>
    rw [List.foldl_cons]
    split
    · exact ih h
    · exact ih (List.append_ne_nil_of_left_ne_nil h _)

/-- Either of two selections includes a field. -/
theorem passes_union {guards more : List Guard} :
    Passes bindings (union guards more) ↔ Passes bindings guards ∨ Passes bindings more := by
  unfold union
  cases guards with
  | nil => simp [Passes]
  | cons guard rest =>
    cases more with
    | nil => simp [Passes]
    | cons other others =>
      rw [if_neg (by simp)]
      have some := fold_ne_nil (other :: others) (List.cons_ne_nil guard rest)
      unfold Passes
      rw [or_iff_right some, exists_holds_fold, or_iff_right (List.cons_ne_nil guard rest),
        or_iff_right (List.cons_ne_nil other others)]

/-- A selection under a guard includes a field if both do. -/
theorem passes_within {outer : Guard} {guards : List Guard} :
    Passes bindings (within outer guards) ↔
      Passes bindings guards ∧ holds bindings outer = .ok true := by
  unfold within
  cases guards with
  | nil => simp [Passes]
  | cons guard rest =>
    rw [if_neg (by simp)]
    have some : ((guard :: rest).map (· ++ outer)) ≠ [] := List.cons_ne_nil _ _
    unfold Passes
    rw [or_iff_right some, or_iff_right (List.cons_ne_nil guard rest)]
    simp only [List.mem_map]
    constructor
    · intro h
      obtain ⟨_, ⟨inner, member, rfl⟩, held⟩ := h
      rw [holds_append] at held
      exact ⟨⟨inner, member, held.1⟩, held.2⟩
    · intro h
      obtain ⟨⟨inner, member, held⟩, outerHeld⟩ := h
      exact ⟨_, ⟨inner, member, rfl⟩, holds_append.mpr ⟨held, outerHeld⟩⟩

/-- What evaluating guards gives, if it gives anything. -/
theorem anyHolds_eq_ok {guards : List Guard} {value : Bool}
    (h : anyHolds bindings guards = .ok value) : value = true ↔ Passes bindings guards := by
  induction guards with
  | nil =>
    cases h
    exact iff_of_true rfl passes_nil
  | cons guard rest ih =>
    cases rest with
    | nil =>
      rw [passes_singleton, show holds bindings guard = .ok value from h]
      simp
    | cons other others =>
      rw [anyHolds] at h
      · cases held : holds bindings guard with
        | error e =>
          rw [held] at h
          cases h
        | ok found =>
          rw [held] at h
          cases found with
          | true =>
            cases h
            exact iff_of_true rfl (Or.inr ⟨guard, List.mem_cons_self, held⟩)
          | false =>
            rw [ih h]
            unfold Passes
            rw [or_iff_right (List.cons_ne_nil _ _), or_iff_right (List.cons_ne_nil _ _)]
            constructor
            · intro given
              obtain ⟨found, member, holds⟩ := given
              exact ⟨found, List.mem_cons_of_mem _ member, holds⟩
            · intro given
              obtain ⟨found, member, holds⟩ := given
              rcases List.mem_cons.mp member with rfl | member
              · rw [held] at holds
                cases holds
              · exact ⟨found, member, holds⟩
      · simp

end Guard
/-! ## Guards that are the same -/

namespace Argument

mutual
theorem same_refl : (argument : Argument) → argument.same argument
  | .null | .bool _ | .string _ | .variable _ => by simp [same]
  | .number (.int _) => by simp [same, Number.same]
  | .number (.float _) => by simp [same, Number.same, Double.same]
  | .list items => by
    rw [same]
    exact sameItems_refl items
  | .object members => by
    rw [same]
    exact sameMembers_refl members

theorem sameItems_refl : (items : List Argument) → sameItems items items
  | [] => rfl
  | item :: rest => by simp [sameItems, same_refl item, sameItems_refl rest]

theorem sameMembers_refl : (members : List (String × Argument)) → sameMembers members members
  | [] => rfl
  | (_, value) :: rest => by simp [sameMembers, same_refl value, sameMembers_refl rest]
end

end Argument

theorem Condition.same_refl (condition : Condition) : condition.same condition := by
  simp [same, Argument.same_refl]

namespace Guard

theorem same_refl (guard : Guard) : guard.same guard := by
  induction guard with
  | nil => rfl
  | cons condition rest ih => simp [same, Condition.same_refl, ih]

theorem length_eq_of_same {guard other : Guard} (h : guard.same other) :
    guard.length = other.length := by
  induction guard generalizing other with
  | nil => cases other <;> simp_all [same]
  | cons condition rest ih =>
    cases other with
    | nil => cases h
    | cons condition' rest' =>
      rw [same, Bool.and_eq_true] at h
      rw [List.length_cons, List.length_cons, ih h.2]

/-- Appending one list of conditions to two guards does not make them the same. -/
theorem same_append (guard other outer : Guard) :
    (guard ++ outer).same (other ++ outer) = guard.same other := by
  induction guard generalizing other with
  | nil =>
    cases other with
    | nil => simp [same, same_refl]
    | cons condition rest =>
      refine Bool.eq_iff_iff.mpr (iff_of_false (fun h => ?_) Bool.false_ne_true)
      have lengths := length_eq_of_same h
      simp at lengths
      omega
  | cons condition rest ih =>
    cases other with
    | nil =>
      refine Bool.eq_iff_iff.mpr (iff_of_false (fun h => ?_) Bool.false_ne_true)
      have lengths := length_eq_of_same h
      simp at lengths
      omega
    | cons condition' rest' => simp [same, ih]

/-- What is merged with what it contains stays as it is. -/
theorem fold_of_subset {guards more : List Guard} (subset : more ⊆ guards) :
    more.foldl (fun acc guard => if acc.any (·.same guard) then acc else acc ++ [guard]) guards =
      guards := by
  induction more with
  | nil => rfl
  | cons guard rest ih =>
    have known : guards.any (·.same guard) :=
      List.any_eq_true.mpr ⟨guard, subset List.mem_cons_self, same_refl guard⟩
    rw [List.foldl_cons, if_pos known]
    exact ih fun _ member => subset (List.mem_cons_of_mem _ member)

theorem union_self (guards : List Guard) : union guards guards = guards := by
  unfold union
  split
  · next empty => simpa using empty
  · exact fold_of_subset (List.Subset.refl _)

abbrev Distinct (guards : List Guard) : Prop :=
  guards.Pairwise fun guard other => ¬ guard.same other

theorem distinct_fold {guards : List Guard} (distinct : Distinct guards) (more : List Guard) :
    Distinct (more.foldl
      (fun acc guard => if acc.any (·.same guard) then acc else acc ++ [guard]) guards) := by
  induction more generalizing guards with
  | nil => exact distinct
  | cons guard rest ih =>
    rw [List.foldl_cons]
    split
    · exact ih distinct
    · next unknown =>
      refine ih (List.pairwise_append.mpr ⟨distinct, List.pairwise_singleton _ _, ?_⟩)
      intro known member other last same
      rw [List.mem_singleton.mp last] at same
      exact unknown (List.any_eq_true.mpr ⟨known, member, same⟩)

theorem distinct_union {guards : List Guard} (distinct : Distinct guards) (more : List Guard) :
    Distinct (union guards more) := by
  unfold union
  split
  · exact List.Pairwise.nil
  · exact distinct_fold distinct more

theorem distinct_within {guards : List Guard} (distinct : Distinct guards) (outer : Guard) :
    Distinct (within outer guards) := by
  unfold within
  split
  · exact List.pairwise_singleton _ _
  · refine List.pairwise_map.mpr (distinct.imp fun apart => ?_)
    rw [same_append]
    exact apart

end Guard

end ResponseGraph
