import ResponseGraph.Number.Shortest

/-!
Written forms of decimals.

Which digits a number has is one question, where the point goes is another.  A
`Layout` holds the decisions of the second kind, and `Layout.write` follows them.
-/

namespace ResponseGraph

/-- How a decimal is written.  In scientific form one digit stands before the
point and the exponent says by how many places the point has moved. -/
structure Layout where
  /-- The least exponent that is still written positionally. -/
  positionalFrom : Int
  /-- The first exponent that is no longer written positionally. -/
  positionalBelow : Int
  /-- What marks a whole number as a float. -/
  wholeMark : List Char
  /-- What an exponent that is not negative starts with. -/
  plusSign : List Char

namespace Layout

def digitChars (n : Nat) : List Char := Nat.toDigits 10 n

/-- The digits of a positive decimal with its point or exponent. -/
def writeMagnitude (layout : Layout) (x : Decimal) : List Char :=
  let digits := digitChars x.digits
  let exponent : Int := x.exponent + digits.length - 1
  if layout.positionalFrom ≤ exponent ∧ exponent < layout.positionalBelow then
    if 0 ≤ x.exponent then
      digits ++ List.replicate x.exponent.toNat '0' ++ layout.wholeMark
    else if 0 ≤ exponent then
      let whole := (exponent + 1).toNat
      digits.take whole ++ '.' :: digits.drop whole
    else
      '0' :: '.' :: (List.replicate (-exponent - 1).toNat '0' ++ digits)
  else
    let fraction := if digits.length ≤ 1 then [] else '.' :: digits.drop 1
    let sign := if exponent < 0 then ['-'] else layout.plusSign
    digits.take 1 ++ fraction ++ 'e' :: sign ++ digitChars exponent.natAbs

def write (layout : Layout) (x : Double) : List Char :=
  let magnitude :=
    if x.isZero then '0' :: layout.wholeMark else layout.writeMagnitude x.shortest
  if x.negative then '-' :: magnitude else magnitude

end Layout
end ResponseGraph
