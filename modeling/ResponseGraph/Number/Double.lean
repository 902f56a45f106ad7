/-!
Binary floating point numbers of 53 significant bits.

A `Double` is a sign, a significand and an exponent of two.  The library reads
decimals into doubles and writes doubles as decimals and computes nothing else
with them, so both directions are exact arithmetic on natural numbers and no
machine float is used.

There are two ways to read a decimal.  `ofDecimal` gives the double nearest to
the decimal.  `ofDigits` rounds the significand first and scales the result by a
rounded power of ten, which is the reading of numbers in JSON text: it agrees
with `ofDecimal` as long as the significand and the power are exact, and may be
off by a last bit beyond that.
-/

namespace ResponseGraph

/-- The finite number `±significand * 2 ^ exponent`.  The constructors below give
every value one representation: the significand is below `2 ^ 53`, and below
`2 ^ 52` only under the least exponent. -/
structure Double where
  negative : Bool
  significand : Nat
  exponent : Int
deriving DecidableEq, Inhabited

namespace Double

def minExponent : Int := -1074

def maxExponent : Int := 971

def zero (negative : Bool) : Double := ⟨negative, 0, minExponent⟩

def isZero (x : Double) : Bool := x.significand == 0

/-- Numeric equality: both zeros are the same number. -/
def same (x y : Double) : Bool := (x.isZero && y.isZero) || x == y

/-- `num / (den * 2 ^ e)` as a numerator and a denominator. -/
def scaled (num den : Nat) : Int → Nat × Nat
  | .ofNat k => (num, den * Nat.pow 2 k)
  | .negSucc k => (num * Nat.pow 2 (k + 1), den)

/-- The natural number nearest to `num / den`, the even one of two. -/
def roundDiv (num den : Nat) : Nat :=
  let quotient := num / den
  let twice := 2 * (num % den)
  if twice < den then quotient
  else if den < twice then quotient + 1
  else quotient + quotient % 2

/-- The double nearest to `num / den`, or nothing when that is beyond the largest
double.  The first guess of the exponent is the right one or one too large. -/
def ofRatio (negative : Bool) (num den : Nat) : Option Double :=
  if num = 0 then some (zero negative) else
  let guess : Int := (num.log2 : Int) - den.log2 - 52
  let wide := scaled num den guess
  let exponent := max minExponent (if wide.1 / wide.2 < Nat.pow 2 52 then guess - 1 else guess)
  let fit := scaled num den exponent
  let significand := roundDiv fit.1 fit.2
  let rounded : Double :=
    if significand = Nat.pow 2 53 then ⟨negative, Nat.pow 2 52, exponent + 1⟩
    else ⟨negative, significand, exponent⟩
  if rounded.exponent > maxExponent then none else some rounded

/-- The magnitude as a numerator and a denominator. -/
def ratio (x : Double) : Nat × Nat :=
  match x.exponent with
  | .ofNat k => (x.significand * Nat.pow 2 k, 1)
  | .negSucc k => (x.significand, Nat.pow 2 (k + 1))

/-- The double nearest to `±digits * 10 ^ exponent`.  Beyond 310 places before
the point the value is too large, and from 330 places after it the value
vanishes, whatever the digits are. -/
def ofDecimal (negative : Bool) (digits : Nat) (exponent : Int) : Option Double :=
  if digits = 0 then some (zero negative) else
  let places := ((Nat.toDigits 10 digits).length : Int) + exponent
  if places > 310 then none
  else if places < -330 then some (zero negative)
  else match exponent with
    | .ofNat k => ofRatio negative (digits * Nat.pow 10 k) 1
    | .negSucc k => ofRatio negative digits (Nat.pow 10 (k + 1))

/-- The double nearest to `10 ^ k`, for `k` up to 308. -/
def tenPow (k : Nat) : Double := (ofRatio false (Nat.pow 10 k) 1).getD (zero false)

def mul (x y : Double) : Option Double :=
  ofRatio x.negative (x.ratio.1 * y.ratio.1) (x.ratio.2 * y.ratio.2)

def div (x y : Double) : Option Double :=
  ofRatio x.negative (x.ratio.1 * y.ratio.2) (x.ratio.2 * y.ratio.1)

/-- Division by `10 ^ k`, at most 308 places at a time.  The bound counts the
divisions: after three of them every significand below `2 ^ 64` has vanished. -/
def shrink (x : Double) (k : Nat) : Nat → Option Double
  | 0 => some (zero x.negative)
  | bound + 1 =>
    if k ≤ 308 then x.div (tenPow k)
    else (x.div (tenPow 308)).bind fun y => shrink y (k - 308) bound

/-- The significand rounded to a double, then scaled by rounded powers of ten. -/
def ofDigits (negative : Bool) (significand : Nat) (exponent : Int) : Option Double :=
  (ofRatio negative significand 1).bind fun x =>
    match exponent with
    | .ofNat k =>
      if k ≤ 308 then x.mul (tenPow k) else if x.isZero then some x else none
    | .negSucc k => shrink x (k + 1) 3

end Double
end ResponseGraph
