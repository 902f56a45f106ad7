import ResponseGraph.Number
import ResponseGraph.Entries

/-!
JSON values.

Payloads, variables and the answers of the library are JSON values.  An object
keeps its members in the order in which they appeared, and that order has no part
in equality: `same` compares objects as maps and numbers numerically, which is
the equality the library means when it compares two values.
-/

namespace ResponseGraph

inductive Json where
  | null
  | bool (value : Bool)
  | number (value : Number)
  | string (value : String)
  | array (items : List Json)
  | object (members : List (String × Json))
deriving Inhabited

namespace Json

def nat (n : Nat) : Json := .number (.int n)

def isNull : Json → Bool
  | .null => true
  | _ => false

/-- The member of an object. -/
def get? (name : String) : Json → Option Json
  | .object members => Entries.get? name members
  | _ => none

/- Equality as values.  Objects of one size are equal if every member of the
left one has an equal member on the right. -/
mutual
def same : Json → Json → Bool
  | .null, .null => true
  | .bool a, .bool b => a == b
  | .number a, .number b => a.same b
  | .string a, .string b => a == b
  | .array xs, .array ys => sameItems xs ys
  | .object xs, .object ys => xs.length == ys.length && sameMembers xs ys
  | _, _ => false
termination_by structural x => x

def sameItems : List Json → List Json → Bool
  | [], [] => true
  | x :: xs, y :: ys => same x y && sameItems xs ys
  | _, _ => false
termination_by structural xs => xs

def sameMembers : List (String × Json) → List (String × Json) → Bool
  | [], _ => true
  | (name, x) :: xs, ys =>
    (match Entries.get? name ys with
      | some y => same x y
      | none => false) && sameMembers xs ys
termination_by structural xs => xs
end

end Json
end ResponseGraph
