import ResponseGraph.Number

/-!
Positions in messages.

A failure has a message and a position in some text.  When it is made from a message
alone, a position that ends the message is taken for that of the failure, and is then
shown without leading zeros.  A position on line zero is none and is not shown.
-/

namespace ResponseGraph

structure Position where
  line : Nat
  column : Nat

namespace Position

/-- What comes before `mark`, if a text ends with it. -/
def cut? (mark text : List Char) : Option (List Char) :=
  if mark.isSuffixOf text then some (text.take (text.length - mark.length)) else none

/-- A number of at most 64 bits at the end of a text, and what comes before it. -/
def number? (text : List Char) : Option (Nat × List Char) :=
  let (digits, before) := text.reverse.span Char.isDigit
  let value := Number.natOfDigits digits.reverse
  if digits.isEmpty || Nat.pow 2 64 ≤ value then none else some (value, before.reverse)

/-- The position that ends a text, and what comes before it. -/
def ofEnd? (text : List Char) : Option (Position × List Char) := do
  let (column, text) ← number? text
  let text ← cut? " column ".toList text
  let (line, text) ← number? text
  let text ← cut? " at line ".toList text
  return (⟨line, column⟩, text)

def chars (position : Position) : List Char :=
  if position.line = 0 then []
  else
    " at line ".toList ++ Number.intChars position.line ++ " column ".toList ++
      Number.intChars position.column

/-- A message as a failure that is made from it shows it. -/
def normalize (message : String) : String :=
  match ofEnd? message.toList with
  | some (position, before) => String.ofList (before ++ position.chars)
  | none => message

end Position
end ResponseGraph
