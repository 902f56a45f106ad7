import ResponseGraph.Bindings
import ResponseGraph.Proofs.Value.Observed

/-!
Sameness of JSON values and of bindings.

Values without repeated names are the same if they read alike along every path, so that sameness
is an equivalence.  Bindings are the same if they bind the same variables, each to values that are
the same.
-/

namespace ResponseGraph

namespace Json

variable {a b c : Json}

theorem same_iff_readAlike (ha : a.distinct) (hb : b.distinct) :
    a.same b ↔ Value.ReadAlike (.ofJson a) (.ofJson b) := by
  rw [← Value.sameAsJson_ofJson]
  exact Value.sameAsJson_iff ((Value.distinct_ofJson a).trans ha) hb

theorem same_refl (ha : a.distinct) : a.same a :=
  (same_iff_readAlike ha ha).mpr (.refl _)

theorem same_symm (ha : a.distinct) (hb : b.distinct) (h : a.same b) : b.same a :=
  (same_iff_readAlike hb ha).mpr ((same_iff_readAlike ha hb).mp h).symm

theorem same_trans (ha : a.distinct) (hb : b.distinct) (hc : c.distinct) (first : a.same b)
    (second : b.same c) : a.same c :=
  (same_iff_readAlike ha hc).mpr
    (((same_iff_readAlike ha hb).mp first).trans ((same_iff_readAlike hb hc).mp second))

end Json

namespace Bindings

variable {a b c : Bindings}

/-- No value has an object with a repeated name. -/
def Distinct (bindings : Bindings) : Prop :=
  ∀ name value, bindings.get? name = some value → value.distinct

theorem distinct_of_toJson (h : a.toJson.distinct) : a.Distinct :=
  fun _ _ found => Json.distinct_of_mem ((Bool.and_eq_true _ _).mp h).2 (Entries.mem_of_get? found)

/-- Bindings are the same name by name. -/
theorem same_iff : a.same b ↔
    ∀ name, Option.Rel (fun x y : Json => x.same y) (a.get? name) (b.get? name) := by
  unfold Bindings.same toJson
  rw [Json.same, Bool.and_eq_true, beq_iff_eq, Json.sameMembers_iff]
  exact (Entries.forall_rel_get?_iff a.increasing.nodup b.increasing.nodup).symm

theorem same_refl (ha : a.Distinct) : a.same a := by
  refine same_iff.mpr fun name => ?_
  cases found : a.get? name with
  | none => exact .none
  | some value => exact .some (Json.same_refl (ha name value found))

theorem same_symm (ha : a.Distinct) (hb : b.Distinct) (h : a.same b) : b.same a := by
  refine same_iff.mpr fun name => ?_
  rcases exists_of_rel (same_iff.mp h name) with ⟨none, none'⟩ | ⟨x, y, found, found', same⟩
  · rw [none, none']
    exact .none
  · rw [found, found']
    exact .some (Json.same_symm (ha name x found) (hb name y found') same)

theorem same_trans (ha : a.Distinct) (hb : b.Distinct) (hc : c.Distinct) (first : a.same b)
    (second : b.same c) : a.same c := by
  refine same_iff.mpr fun name => ?_
  have second := same_iff.mp second name
  rcases exists_of_rel (same_iff.mp first name) with ⟨none, none'⟩ | ⟨x, y, found, found', same⟩
  · rw [none'] at second
    rw [none]
    generalize c.get? name = last at second ⊢
    cases second
    exact .none
  · rw [found'] at second
    rw [found]
    generalize found'' : c.get? name = last at second ⊢
    cases second with
    | some same' =>
      exact .some (Json.same_trans (ha name x found) (hb name y found') (hc name _ found'') same
        same')

end Bindings
end ResponseGraph
