import ResponseGraph.Json
import ResponseGraph.Proofs.Basic

/-!
Objects without repeated names.

A payload comes from a text in which no object has a name twice, or from a map.  As a list of
members an object could repeat a name, so that this is asked for where it matters.
-/

namespace ResponseGraph
namespace Json

/- No object has two members of one name. -/
mutual
def distinct : Json → Bool
  | .array items => distinctItems items
  | .object members => decide (members.map Prod.fst).Nodup && distinctMembers members
  | _ => true
termination_by structural x => x

def distinctItems : List Json → Bool
  | [] => true
  | x :: xs => distinct x && distinctItems xs
termination_by structural xs => xs

def distinctMembers : List (String × Json) → Bool
  | [] => true
  | (_, x) :: xs => distinct x && distinctMembers xs
termination_by structural xs => xs
end

theorem distinct_of_mem {members : List (String × Json)} (h : distinctMembers members)
    {name : String} {x : Json} (member : (name, x) ∈ members) : x.distinct := by
  induction members with
  | nil => cases member
  | cons entry rest ih =>
    obtain ⟨here, below⟩ := (Bool.and_eq_true _ _).mp (show (_ && _) = true from h)
    rcases List.mem_cons.mp member with e | member
    · cases e
      exact here
    · exact ih below member

theorem distinct_object {members : List (String × Json)} (h : (Json.object members).distinct) :
    (members.map Prod.fst).Nodup ∧ distinctMembers members := by
  obtain ⟨names, below⟩ := (Bool.and_eq_true _ _).mp (show (_ && _) = true from h)
  exact ⟨of_decide_eq_true names, below⟩

theorem distinct_of_get? {members : List (String × Json)} (h : distinctMembers members)
    {name : String} {x : Json} (found : Entries.get? name members = some x) : x.distinct :=
  distinct_of_mem h (Entries.mem_of_get? found)

end Json
end ResponseGraph
