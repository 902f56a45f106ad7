import ResponseGraph.Json

/-!
Reading JSON text.

`Json.read?` reads one value with nothing but blanks around it.  Members keep the
order in which their names first appear, and of a repeated name the last value
counts.  Number literals become integers or floats by `Number.ofLiteral`.

Readers of values recurse on a bound for the remaining steps.  Every step
consumes a character, so the length of the text is bound enough.
-/

namespace ResponseGraph
namespace Json

def isBlank (c : Char) : Bool := c == ' ' || c == '\t' || c == '\n' || c == '\r'

def skipBlanks (cs : List Char) : List Char := cs.dropWhile isBlank

def hexValue? (c : Char) : Option Nat :=
  if '0' ≤ c ∧ c ≤ '9' then some (c.toNat - '0'.toNat)
  else if 'a' ≤ c ∧ c ≤ 'f' then some (c.toNat - 'a'.toNat + 10)
  else if 'A' ≤ c ∧ c ≤ 'F' then some (c.toNat - 'A'.toNat + 10)
  else none

def hexValue4? (a b c d : Char) : Option Nat :=
  [a, b, c, d].foldlM (fun acc digit => (hexValue? digit).map (acc * 16 + ·)) 0

/-- The characters that a backslash and one letter stand for. -/
def unescape? : Char → Option Char
  | '"' => some '"'
  | '\\' => some '\\'
  | '/' => some '/'
  | 'b' => some '\x08'
  | 't' => some '\t'
  | 'n' => some '\n'
  | 'f' => some '\x0c'
  | 'r' => some '\r'
  | _ => none

/-- The rest of a string after its opening quote.  `high` is the first half of a
surrogate pair whose second half has to come next. -/
def readChars (high : Option Nat) : List Char → Option (List Char × List Char)
  | '"' :: rest => if high.isNone then some ([], rest) else none
  | '\\' :: 'u' :: a :: b :: c :: d :: rest => do
    let unit ← hexValue4? a b c d
    match high with
    | some first =>
      if 0xDC00 ≤ unit ∧ unit < 0xE000 then
        let (cs, rest) ← readChars none rest
        return (Char.ofNat (0x10000 + (first - 0xD800) * 0x400 + (unit - 0xDC00)) :: cs, rest)
      else none
    | none =>
      if 0xD800 ≤ unit ∧ unit < 0xDC00 then readChars (some unit) rest
      else if 0xDC00 ≤ unit ∧ unit < 0xE000 then none
      else
        let (cs, rest) ← readChars none rest
        return (Char.ofNat unit :: cs, rest)
  | '\\' :: e :: rest => do
    let c ← if high.isNone then unescape? e else none
    let (cs, rest) ← readChars none rest
    return (c :: cs, rest)
  | c :: rest => do
    if high.isSome || c.toNat < 32 then none
    let (cs, rest) ← readChars none rest
    return (c :: cs, rest)
  | [] => none

def readString (cs : List Char) : Option (String × List Char) :=
  (readChars none cs).map fun (s, rest) => (String.ofList s, rest)

/-- The sign and digits of an exponent, after its letter. -/
def readExponent (cs : List Char) : Option (Int × List Char) :=
  let (negative, cs) := match cs with
    | '-' :: rest => (true, rest)
    | '+' :: rest => (false, rest)
    | _ => (false, cs)
  let (digits, rest) := cs.span Char.isDigit
  let value := Number.natOfDigits digits
  if digits.isEmpty then none
  else some (if negative then -value else value, rest)

def readNumber (cs : List Char) : Option (Number × List Char) := do
  let (negative, cs) := match cs with
    | '-' :: rest => (true, rest)
    | _ => (false, cs)
  let (whole, cs) := cs.span Char.isDigit
  if whole.isEmpty || (whole.head? == some '0' && 1 < whole.length) then none
  let (fraction, cs, hasPoint) := match cs with
    | '.' :: rest =>
      let (digits, rest) := rest.span Char.isDigit
      (digits, rest, true)
    | _ => ([], cs, false)
  if hasPoint && fraction.isEmpty then none
  let (exponent, cs, hasExponent) ← match cs with
    | 'e' :: rest | 'E' :: rest => (readExponent rest).map fun (e, rest) => (e, rest, true)
    | _ => some (0, cs, false)
  let integral := !hasPoint && !hasExponent
  let number ← Number.ofLiteral ⟨negative, whole, fraction, exponent, integral⟩
  return (number, cs)

mutual
def readValue : Nat → List Char → Option (Json × List Char)
  | 0, _ => none
  | bound + 1, cs =>
    match skipBlanks cs with
    | 'n' :: 'u' :: 'l' :: 'l' :: rest => some (.null, rest)
    | 't' :: 'r' :: 'u' :: 'e' :: rest => some (.bool true, rest)
    | 'f' :: 'a' :: 'l' :: 's' :: 'e' :: rest => some (.bool false, rest)
    | '"' :: rest => (readString rest).map fun (s, rest) => (.string s, rest)
    | '[' :: rest =>
      match skipBlanks rest with
      | ']' :: rest => some (.array [], rest)
      | rest => (readItems bound rest).map fun (items, rest) => (.array items, rest)
    | '\x7b' :: rest =>
      match skipBlanks rest with
      | '\x7d' :: rest => some (.object [], rest)
      | rest => (readMembers bound rest).map fun (members, rest) =>
          (.object (Entries.ofList members), rest)
    | rest => (readNumber rest).map fun (x, rest) => (.number x, rest)

def readItems : Nat → List Char → Option (List Json × List Char)
  | 0, _ => none
  | bound + 1, cs => do
    let (item, rest) ← readValue bound cs
    match skipBlanks rest with
    | ',' :: rest =>
      let (items, rest) ← readItems bound rest
      return (item :: items, rest)
    | ']' :: rest => return ([item], rest)
    | _ => none

def readMembers : Nat → List Char → Option (List (String × Json) × List Char)
  | 0, _ => none
  | bound + 1, cs => do
    let '"' :: rest := skipBlanks cs | none
    let (name, rest) ← readString rest
    let ':' :: rest := skipBlanks rest | none
    let (value, rest) ← readValue bound rest
    match skipBlanks rest with
    | ',' :: rest =>
      let (members, rest) ← readMembers bound rest
      return ((name, value) :: members, rest)
    | '\x7d' :: rest => return ([(name, value)], rest)
    | _ => none
end

/-- The value of a JSON text, or nothing if it is none. -/
def read? (text : String) : Option Json := do
  let cs := text.toList
  let (value, rest) ← readValue (cs.length + 1) cs
  if (skipBlanks rest).isEmpty then some value else none

end Json
end ResponseGraph
