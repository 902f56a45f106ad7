import ResponseGraph.Number.Layout

/-!
Numbers of payloads, arguments and stored data.

A number is an integer or a float.  The two never equal each other, and `text`
keeps them apart: a float always shows a point or an exponent.  `ofLiteral` is
the rule by which a number literal becomes one or the other.
-/

namespace ResponseGraph

inductive Number where
  | int (value : Int)
  | float (value : Double)
deriving DecidableEq, Inhabited

namespace Number

/-- Numeric equality within integers and within floats. -/
def same : Number → Number → Bool
  | .int a, .int b => a == b
  | .float a, .float b => a.same b
  | _, _ => false

/-- Floats are written with the fewest digits that identify them, positionally
from a hundred thousandth up to below ten to the sixteenth, otherwise with a
signed exponent. -/
def layout : Layout := ⟨-5, 16, ['.', '0'], ['+']⟩

def intChars : Int → List Char
  | .ofNat n => Nat.toDigits 10 n
  | .negSucc n => '-' :: Nat.toDigits 10 (n + 1)

def chars : Number → List Char
  | .int value => intChars value
  | .float value => layout.write value

def text (x : Number) : String := String.ofList x.chars

/-- An integer that an unsigned 64-bit word holds. -/
def word? : Number → Option Nat
  | .int (.ofNat n) => if n < Nat.pow 2 64 then some n else none
  | _ => none

/-! ## Reading literals -/

/-- A number literal of JSON text.  The exponent is zero if none is written. -/
structure Literal where
  negative : Bool
  whole : List Char
  fraction : List Char
  exponent : Int
  /-- There is neither a point nor an exponent. -/
  integral : Bool

def digitValue (c : Char) : Nat := c.toNat - '0'.toNat

def natOfDigits (digits : List Char) : Nat :=
  digits.foldl (fun acc c => acc * 10 + digitValue c) 0

/-- Appends digits to a significand as long as it stays below `2 ^ 64`, and counts
the digits that were appended. -/
def fill (significand : Nat) : List Char → Nat × Nat
  | [] => (significand, 0)
  | c :: rest =>
    let next := significand * 10 + digitValue c
    if next < Nat.pow 2 64 then
      let (value, count) := fill next rest
      (value, count + 1)
    else (significand, 0)

/-- A literal without point and exponent is an integer if a 64-bit word, signed
or unsigned, holds it, except that a negative zero is a float.  Every other
literal is a float, of which the digits beyond 64 bits are dropped.  A float
beyond the largest double is no number. -/
def ofLiteral (literal : Literal) : Option Number :=
  let value := natOfDigits literal.whole
  if literal.integral && !literal.negative && decide (value < Nat.pow 2 64) then
    some (.int value)
  else if literal.integral && literal.negative && decide (0 < value ∧ value ≤ Nat.pow 2 63) then
    some (.int (-value))
  else
    let (whole, wholeKept) := fill 0 literal.whole
    let (significand, fractionKept) := fill whole literal.fraction
    let exponent := literal.exponent + (literal.whole.length - wholeKept : Nat) - fractionKept
    (Double.ofDigits literal.negative significand exponent).map .float

end Number
end ResponseGraph
