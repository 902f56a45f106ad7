import ResponseGraph.Path

/-!
Stored data.

A value is JSON in which a position may hold a reference, the id of the node
whose content belongs there.  `get?` and `set` address a value by a path; `set`
makes the containers that the path needs.  `sameAsJson` compares stored data with a
payload, and no reference is ever the same as a payload value.
-/

namespace ResponseGraph

inductive Value where
  | null
  | bool (value : Bool)
  | number (value : Number)
  | string (value : String)
  | list (items : List Value)
  | object (members : List (String × Value))
  | reference (id : String)
deriving Inhabited

namespace Value

def isNull : Value → Bool
  | .null => true
  | _ => false

def reference? : Value → Option String
  | .reference id => some id
  | _ => none

def list? : Value → Option (List Value)
  | .list items => some items
  | _ => none

def object? : Value → Option (List (String × Value))
  | .object members => some members
  | _ => none

def string? : Value → Option String
  | .string s => some s
  | _ => none

def member? (name : String) : Value → Option Value
  | .object members => Entries.get? name members
  | _ => none

/-- The value a single step leads to. -/
def step? : Value → Step → Option Value
  | .object members, .key name => Entries.get? name members
  | .list items, .index i => items[i]?
  | _, _ => none

def get? (value : Value) : Path → Option Value
  | [] => some value
  | step :: path => (value.step? step).bind fun below => get? below path

/-- The members of an object, and none of any other value. -/
def members : Value → List (String × Value)
  | .object members => members
  | _ => []

def items : Value → List Value
  | .list items => items
  | _ => []

/-- A list cut or filled up with null to the given length. -/
def resize (items : List Value) (length : Nat) : List Value :=
  items.take length ++ List.replicate (length - items.length) .null

/-- Writes `new` at `path`.  On the way a value that is not an object gives way to
an empty object where a key is needed, and a value that is not a list to an empty
list where an index is needed; a list is filled up with null to reach an index. -/
def set (value : Value) (path : Path) (new : Value) : Value :=
  match path with
  | [] => new
  | .key name :: rest =>
    let members := value.members
    let below := (Entries.get? name members).getD .null
    .object (Entries.put name (below.set rest new) members)
  | .index i :: rest =>
    let items := if i < value.items.length then value.items else resize value.items (i + 1)
    let below := items[i]?.getD .null
    .list (List.set items i (below.set rest new))

/- The value a payload is stored as. -/
mutual
def ofJson : Json → Value
  | .null => .null
  | .bool b => .bool b
  | .number x => .number x
  | .string s => .string s
  | .array items => .list (ofItems items)
  | .object members => .object (ofMembers members)
termination_by structural x => x

def ofItems : List Json → List Value
  | [] => []
  | x :: xs => ofJson x :: ofItems xs
termination_by structural xs => xs

def ofMembers : List (String × Json) → List (String × Value)
  | [] => []
  | (name, x) :: xs => (name, ofJson x) :: ofMembers xs
termination_by structural xs => xs
end

/- The JSON form of a value.  A reference is an object with one member. -/
mutual
def toJson : Value → Json
  | .null => .null
  | .bool b => .bool b
  | .number x => .number x
  | .string s => .string s
  | .list items => .array (toItems items)
  | .object members => .object (toMembers members)
  | .reference id => .object [("__ref", .string id)]
termination_by structural x => x

def toItems : List Value → List Json
  | [] => []
  | x :: xs => toJson x :: toItems xs
termination_by structural xs => xs

def toMembers : List (String × Value) → List (String × Json)
  | [] => []
  | (name, x) :: xs => (name, toJson x) :: toMembers xs
termination_by structural xs => xs
end

/- Equality as values: objects as maps, numbers numerically, references by id. -/
mutual
def same : Value → Value → Bool
  | .null, .null => true
  | .bool a, .bool b => a == b
  | .number a, .number b => a.same b
  | .string a, .string b => a == b
  | .list xs, .list ys => sameItems xs ys
  | .object xs, .object ys => xs.length == ys.length && sameMembers xs ys
  | .reference a, .reference b => a == b
  | _, _ => false
termination_by structural x => x

def sameItems : List Value → List Value → Bool
  | [], [] => true
  | x :: xs, y :: ys => same x y && sameItems xs ys
  | _, _ => false
termination_by structural xs => xs

def sameMembers : List (String × Value) → List (String × Value) → Bool
  | [], _ => true
  | (name, x) :: xs, ys =>
    (match Entries.get? name ys with
      | some y => same x y
      | none => false) && sameMembers xs ys
termination_by structural xs => xs
end

/- Stored data holds exactly a payload. -/
mutual
def sameAsJson : Value → Json → Bool
  | .null, .null => true
  | .bool a, .bool b => a == b
  | .number a, .number b => a.same b
  | .string a, .string b => a == b
  | .list xs, .array ys => itemsSameAsJson xs ys
  | .object xs, .object ys => xs.length == ys.length && membersSameAsJson xs ys
  | _, _ => false
termination_by structural x => x

def itemsSameAsJson : List Value → List Json → Bool
  | [], [] => true
  | x :: xs, y :: ys => sameAsJson x y && itemsSameAsJson xs ys
  | _, _ => false
termination_by structural xs => xs

def membersSameAsJson : List (String × Value) → List (String × Json) → Bool
  | [], _ => true
  | (name, x) :: xs, ys =>
    (match Entries.get? name ys with
      | some y => sameAsJson x y
      | none => false) && membersSameAsJson xs ys
termination_by structural xs => xs
end

end Value
end ResponseGraph
