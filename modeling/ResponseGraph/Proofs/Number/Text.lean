import ResponseGraph.Number

/-!
The text of numbers.

A number is written with digits, signs, a point and the letter of the exponent.  None of
these characters opens, closes or separates other JSON values, so that the text of a
number ends where the first other character stands.
-/

namespace ResponseGraph
namespace Number

/-- A character that the text of a number may have. -/
def isNumeral (c : Char) : Bool := c.isDigit || c == '-' || c == '+' || c == '.' || c == 'e'

def Numeral (text : List Char) : Prop := ∀ c ∈ text, isNumeral c

instance (text : List Char) : Decidable (Numeral text) :=
  List.decidableBAll (fun c => isNumeral c) text

theorem Numeral.append {text more : List Char} (h : Numeral text) (h' : Numeral more) :
    Numeral (text ++ more) := fun c member => (List.mem_append.mp member).elim (h c) (h' c)

theorem Numeral.cons {c : Char} {text : List Char} (hc : isNumeral c) (h : Numeral text) :
    Numeral (c :: text) := fun d member =>
  (List.mem_cons.mp member).elim (fun e => e ▸ hc) (h d)

theorem Numeral.take {text : List Char} (h : Numeral text) (n : Nat) : Numeral (text.take n) :=
  fun c member => h c (List.mem_of_mem_take member)

theorem Numeral.drop {text : List Char} (h : Numeral text) (n : Nat) : Numeral (text.drop n) :=
  fun c member => h c (List.mem_of_mem_drop member)

theorem Numeral.ite {p : Prop} [Decidable p] {text other : List Char} (h : Numeral text)
    (h' : Numeral other) : Numeral (if p then text else other) := by
  split
  · exact h
  · exact h'

theorem numeral_digits (n : Nat) : Numeral (Nat.toDigits 10 n) := by
  intro c member
  rw [isNumeral, Nat.isDigit_of_mem_toDigits (by decide) (by decide) member]
  rfl

theorem numeral_zeros (n : Nat) : Numeral (List.replicate n '0') := by
  intro c member
  rw [List.eq_of_mem_replicate member]
  rfl

theorem numeral_writeMagnitude (layout : Layout) (x : Decimal) (mark : Numeral layout.wholeMark)
    (plus : Numeral layout.plusSign) : Numeral (layout.writeMagnitude x) := by
  have digits := numeral_digits x.digits
  have zero : isNumeral '0' := rfl
  have point : isNumeral '.' := rfl
  have exponent : isNumeral 'e' := rfl
  have sign : Numeral ['-'] := by decide
  simp only [Layout.writeMagnitude, Layout.digitChars]
  refine .ite (.ite ?whole (.ite ?mixed ?fraction)) ?scientific
  case whole => exact (digits.append (numeral_zeros _)).append mark
  case mixed => exact (digits.take _).append (.cons point (digits.drop _))
  case fraction => exact .cons zero (.cons point ((numeral_zeros _).append digits))
  case scientific =>
    have fraction := Numeral.ite (p := (Nat.toDigits 10 x.digits).length ≤ 1)
      (by decide : Numeral []) (.cons point (digits.drop 1))
    exact (((digits.take 1).append fraction).append (.cons exponent (.ite sign plus))).append
      (numeral_digits _)

theorem numeral_chars (x : Number) : Numeral x.chars := by
  have minus : isNumeral '-' := rfl
  cases x with
  | int n =>
    cases n with
    | ofNat n => exact numeral_digits n
    | negSucc n => exact .cons minus (numeral_digits (n + 1))
  | float x =>
    have mark : Numeral layout.wholeMark := by decide
    have plus : Numeral layout.plusSign := by decide
    have magnitude := Numeral.ite (p := x.isZero) (.cons (rfl : isNumeral '0') mark)
      (numeral_writeMagnitude layout x.shortest mark plus)
    exact .ite (.cons minus magnitude) magnitude

theorem ite_ne_nil {p : Prop} [Decidable p] {text other : List Char} (h : text ≠ [])
    (h' : other ≠ []) : (if p then text else other) ≠ [] := by
  split
  · exact h
  · exact h'

theorem writeMagnitude_ne_nil (layout : Layout) (x : Decimal) : layout.writeMagnitude x ≠ [] := by
  simp only [Layout.writeMagnitude, Layout.digitChars]
  refine ite_ne_nil (ite_ne_nil ?whole (ite_ne_nil ?mixed ?fraction)) ?scientific
  case whole => simp [Nat.toDigits_ne_nil]
  case mixed => simp
  case fraction => simp
  case scientific => simp

theorem chars_ne_nil (x : Number) : x.chars ≠ [] := by
  cases x with
  | int n => cases n <;> simp [chars, intChars, Nat.toDigits_ne_nil]
  | float x =>
    have magnitude := ite_ne_nil (p := x.isZero) (List.cons_ne_nil '0' layout.wholeMark)
      (writeMagnitude_ne_nil layout x.shortest)
    exact ite_ne_nil (List.cons_ne_nil '-' _) magnitude

end Number
end ResponseGraph
