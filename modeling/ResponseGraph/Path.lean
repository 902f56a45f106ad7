import ResponseGraph.Json.Printer

/-!
Paths inside data.

A path is a list of steps, each an index into a list or a key of an object.  Paths
have a JSON form, in which they are part of node ids, a dotted form for messages,
and an order in which indexes come before keys.
-/

namespace ResponseGraph

inductive Step where
  | index (i : Nat)
  | key (name : String)
deriving DecidableEq, Inhabited

namespace Step

def index? : Step → Option Nat
  | .index i => some i
  | .key _ => none

def text : Step → String
  | .index i => String.ofList (Nat.toDigits 10 i)
  | .key name => name

def toJson : Step → Json
  | .index i => .nat i
  | .key name => .string name

/-- Indexes by value, before all keys, which are ordered by code point. -/
def compare : Step → Step → Ordering
  | .index i, .index j => Ord.compare i j
  | .index _, .key _ => .lt
  | .key _, .index _ => .gt
  | .key a, .key b => if a < b then .lt else if a = b then .eq else .gt

/-- A step is an unsigned 64-bit integer or a string. -/
def ofJson? : Json → Option Step
  | .number x => x.word?.map .index
  | .string name => some (.key name)
  | _ => none

end Step

abbrev Path := List Step

namespace Path

/-- Step by step, a path before its extensions. -/
def compare : Path → Path → Ordering
  | [], [] => .eq
  | [], _ :: _ => .lt
  | _ :: _, [] => .gt
  | a :: p, b :: q => (a.compare b).then (compare p q)

/-- What follows `base` in `path`, if `path` starts with it. -/
def stripBase? (base : Path) (path : Path) : Option Path :=
  match base, path with
  | [], path => some path
  | a :: base, b :: path => if a = b then stripBase? base path else none
  | _ :: _, [] => none

theorem stripBase?_eq_some_iff (base path rest : Path) :
    stripBase? base path = some rest ↔ path = base ++ rest := by
  induction base generalizing path with
  | nil => simp [stripBase?]
  | cons a base ih =>
    cases path with
    | nil => simp [stripBase?]
    | cons b path =>
      by_cases h : a = b
      · simp [stripBase?, h, ih]
      · simp [stripBase?, h, Ne.symm h]

def toJson (path : Path) : Json := .array (path.map Step.toJson)

end Path

/-- Names joined by points, as messages show where something is.  The empty list
is the root. -/
def dotted (names : List String) : String :=
  if names.isEmpty then "<root>" else ".".intercalate names

def Path.dotted (path : Path) : String := ResponseGraph.dotted (path.map Step.text)

end ResponseGraph
