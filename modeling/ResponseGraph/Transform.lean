import ResponseGraph.Value

/-!
Transformers.

A transformer rewrites the data of entities when a draft is committed.  Those
below leave everything but objects alone, except `replace`.
-/

namespace ResponseGraph

abbrev Transform := Value → Value

namespace Transform

/-- Rewrites the members of an object. -/
def members (f : List (String × Value) → List (String × Value)) : Transform
  | .object members => .object (f members)
  | value => value

/-- Sets a mark on the object. -/
def markSeen : Transform := members (Entries.put "__seen" (.bool true))

/-- Counts how often the object was committed. -/
def countSeen : Transform := members fun entries =>
  let count := match Entries.get? "seen" entries with
    | some (.number x) => x.word?.getD 0
    | _ => 0
  Entries.put "seen" (.number (.int (count + 1))) entries

def drop (name : String) : Transform := members (Entries.erase name)

def replace (value : Value) : Transform := fun _ => value

end Transform
end ResponseGraph
