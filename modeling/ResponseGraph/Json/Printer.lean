import ResponseGraph.Json

/-!
JSON text.

Text is compact: nothing stands between the parts of a value.  In a string only
the quote, the backslash and the characters below the blank are escaped.

The writers put their output in front of what follows.  That makes them linear,
and it is the form in which a written value can be recognised at the front of a
longer text.
-/

namespace ResponseGraph
namespace Json

def hexDigit (n : Nat) : Char :=
  if n < 10 then Char.ofNat ('0'.toNat + n) else Char.ofNat ('a'.toNat + (n - 10))

/-- What stands for a character inside a string. -/
def escape (c : Char) : List Char :=
  match c with
  | '"' => ['\\', '"']
  | '\\' => ['\\', '\\']
  | '\x08' => ['\\', 'b']
  | '\t' => ['\\', 't']
  | '\n' => ['\\', 'n']
  | '\x0c' => ['\\', 'f']
  | '\r' => ['\\', 'r']
  | c =>
    if c.toNat < 32 then
      ['\\', 'u', '0', '0', hexDigit (c.toNat / 16), hexDigit (c.toNat % 16)]
    else [c]

def writeChars : List Char → List Char → List Char
  | [], rest => rest
  | c :: cs, rest => escape c ++ writeChars cs rest

def writeString (s : String) (rest : List Char) : List Char :=
  '"' :: writeChars s.toList ('"' :: rest)

mutual
def write : Json → List Char → List Char
  | .null, rest => 'n' :: 'u' :: 'l' :: 'l' :: rest
  | .bool true, rest => 't' :: 'r' :: 'u' :: 'e' :: rest
  | .bool false, rest => 'f' :: 'a' :: 'l' :: 's' :: 'e' :: rest
  | .number x, rest => x.chars ++ rest
  | .string s, rest => writeString s rest
  | .array items, rest => '[' :: writeItems items (']' :: rest)
  | .object members, rest => '\x7b' :: writeMembers members ('\x7d' :: rest)
termination_by structural x => x

def writeItems : List Json → List Char → List Char
  | [], rest => rest
  | x :: xs, rest => write x (writeMoreItems xs rest)
termination_by structural xs => xs

/- The items after the first one, a comma before each. -/
def writeMoreItems : List Json → List Char → List Char
  | [], rest => rest
  | x :: xs, rest => ',' :: write x (writeMoreItems xs rest)
termination_by structural xs => xs

def writeMembers : List (String × Json) → List Char → List Char
  | [], rest => rest
  | (name, x) :: xs, rest => writeString name (':' :: write x (writeMoreMembers xs rest))
termination_by structural xs => xs

def writeMoreMembers : List (String × Json) → List Char → List Char
  | [], rest => rest
  | (name, x) :: xs, rest => ',' :: writeString name (':' :: write x (writeMoreMembers xs rest))
termination_by structural xs => xs
end

def text (x : Json) : String := String.ofList (x.write [])

end Json
end ResponseGraph
