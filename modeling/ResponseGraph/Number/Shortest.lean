import ResponseGraph.Number.Double

/-!
The fewest decimal digits that identify a double.

The reals that round to a double form an interval around it, whose ends belong
to it when the significand is even.  Of the decimals in that interval `shortest`
takes one with the fewest digits, and of those the nearest to the double.

For each number of digits the decimals of that size form a grid, and if any point
of the grid lies in the interval so does one of the two neighbours of the value.
All comparisons are between natural numbers: lengths are measured in quarters of
the unit in the last place, so that the ends of the interval are whole.
-/

namespace ResponseGraph

/-- The number `digits * 10 ^ exponent`. -/
structure Decimal where
  digits : Nat
  exponent : Int
deriving DecidableEq, Inhabited

namespace Decimal

/-- Moves trailing zeros of the digits into the exponent, at most `bound` of
them. -/
def strip (x : Decimal) : Nat → Decimal
  | 0 => x
  | bound + 1 =>
    if x.digits = 0 ∨ x.digits % 10 ≠ 0 then x
    else strip ⟨x.digits / 10, x.exponent + 1⟩ bound

end Decimal

namespace Double

/-- A quarter of the unit in the last place, measured in steps of `10 ^ grid`, as
a numerator and a denominator. -/
def quarter (x : Double) (grid : Int) : Nat × Nat :=
  let two := scaled 1 1 (2 - x.exponent)
  match grid with
  | .ofNat k => (two.1, two.2 * Nat.pow 10 k)
  | .negSucc k => (two.1 * Nat.pow 10 (k + 1), two.2)

/-- Quarters from zero to the lower end of the interval.  Just above a power of
two the neighbour below is at half the distance. -/
def lowerQuarters (x : Double) : Nat :=
  if x.significand = Nat.pow 2 52 ∧ x.exponent > minExponent then 4 * x.significand - 1
  else 4 * x.significand - 2

/-- The decimal `candidate * 10 ^ grid` rounds to `x`. -/
def readsBack (x : Double) (grid : Int) (candidate : Nat) : Bool :=
  let unit := x.quarter grid
  let low := x.lowerQuarters * unit.1
  let high := (4 * x.significand + 2) * unit.1
  let point := candidate * unit.2
  if x.significand % 2 = 0 then decide (low ≤ point ∧ point ≤ high)
  else decide (low < point ∧ point < high)

/-- The neighbour of `x` on the grid that reads back, the nearer one if both do
and the even one if they are equally near. -/
def nearestOn? (x : Double) (grid : Int) : Option Nat :=
  let unit := x.quarter grid
  let value := 4 * x.significand * unit.1
  let below := value / unit.2
  let above := below + 1
  match x.readsBack grid below, x.readsBack grid above with
  | false, false => none
  | true, false => some below
  | false, true => some above
  | true, true =>
    let middle := (2 * below + 1) * unit.2
    if 2 * value < middle then some below
    else if middle < 2 * value then some above
    else some (below + below % 2)

/-- The magnitude is below `10 ^ k`. -/
def below (x : Double) (k : Int) : Bool :=
  let unit := x.quarter k
  decide (4 * x.significand * unit.1 < unit.2)

/-- The least `k` with the magnitude below `10 ^ k`, near the estimate that the
binary logarithm gives. -/
def places (x : Double) : Int :=
  let estimate := ((x.significand.log2 : Int) + x.exponent) * 30103 / 100000
  if x.below (estimate - 1) then estimate - 1
  else if x.below estimate then estimate
  else if x.below (estimate + 1) then estimate + 1
  else estimate + 2

/-- The exact value, which needs no search. -/
def exactDecimal (x : Double) : Decimal :=
  match x.exponent with
  | .ofNat k => ⟨x.significand * Nat.pow 2 k, 0⟩
  | .negSucc k => ⟨x.significand * Nat.pow 5 (k + 1), .negSucc k⟩

/-- The first hit among grids of more and more digits.  Seventeen digits always
suffice. -/
def shortestFrom (x : Double) (grid : Int) : Nat → Decimal
  | 0 => x.exactDecimal
  | tries + 1 =>
    match x.nearestOn? grid with
    | some digits => ⟨digits, grid⟩
    | none => shortestFrom x (grid - 1) tries

/-- The shortest decimal of a magnitude other than zero. -/
def shortest (x : Double) : Decimal :=
  (x.shortestFrom (x.places - 1) 17).strip 18

end Double
end ResponseGraph
