import ResponseGraph.Json.Reader
import ResponseGraph.Document

/-!
Tokens of documents.

`Token.scan?` cuts a text into tokens.  Blanks, line ends, commas, byte order marks
and comments separate tokens and are otherwise ignored.  A number must not run
into a name or a point, and its whole part has no leading zero.
-/

namespace ResponseGraph

inductive Token where
  | name (text : String)
  | int (value : Int)
  | float (value : Option Double)
  | string (value : String)
  /-- One of the brackets and signs of the grammar. -/
  | mark (char : Char)
  /-- Three points. -/
  | spread
deriving DecidableEq, Inhabited

namespace Token

def isNameStart (c : Char) : Bool :=
  ('a' ≤ c && c ≤ 'z') || ('A' ≤ c && c ≤ 'Z') || c == '_'

def isNameRest (c : Char) : Bool := isNameStart c || ('0' ≤ c && c ≤ '9')

def isDigit (c : Char) : Bool := '0' ≤ c && c ≤ '9'

def isIgnored (c : Char) : Bool :=
  c == ' ' || c == '\t' || c == '\r' || c == '\n' || c == '\x0c' || c == ',' ||
    c.toNat == 0xFEFF

def isMark (c : Char) : Bool :=
  ['(', ')', '[', ']', '\x7b', '\x7d', ':', '=', '!', '$', '@'].contains c

/-- Characters that Unicode counts as white space. -/
def isWhiteSpace (c : Char) : Bool :=
  let n := c.toNat
  (9 ≤ n && n ≤ 13) || n == 0x20 || n == 0x85 || n == 0xA0 || n == 0x1680 ||
    (0x2000 ≤ n && n ≤ 0x200A) || n == 0x2028 || n == 0x2029 || n == 0x202F ||
    n == 0x205F || n == 0x3000

/-! ## Strings -/

/-- Characters of which strings are made: tabs, line ends and what is not a control
character. -/
def isSource (c : Char) : Bool := 32 ≤ c.toNat || c == '\t' || c == '\n' || c == '\r'

/-- The rest of a string after its opening quote.  It ends on the same line. -/
def scanString : List Char → Option (List Char × List Char)
  | '"' :: rest => some ([], rest)
  | '\\' :: 'u' :: a :: b :: c :: d :: rest => do
    let code ← Json.hexValue4? a b c d
    if 0xD800 ≤ code ∧ code < 0xE000 then none
    let (cs, rest) ← scanString rest
    return (Char.ofNat code :: cs, rest)
  | '\\' :: e :: rest => do
    let c ← Json.unescape? e
    let (cs, rest) ← scanString rest
    return (c :: cs, rest)
  | c :: rest => do
    if !isSource c || c == '\n' || c == '\r' then none
    let (cs, rest) ← scanString rest
    return (c :: cs, rest)
  | [] => none

/-- The rest of a block string after its opening quotes, as written but for
escaped quotes. -/
def scanBlock : List Char → Option (List Char × List Char)
  | '"' :: '"' :: '"' :: rest => some ([], rest)
  | '\\' :: '"' :: '"' :: '"' :: rest => do
    let (cs, rest) ← scanBlock rest
    return ('"' :: '"' :: '"' :: cs, rest)
  | c :: rest => do
    if !isSource c then none
    let (cs, rest) ← scanBlock rest
    return (c :: cs, rest)
  | [] => none

/-- The lines of a text.  A line feed ends a line, and so does a carriage return
with a line feed, while a carriage return alone does not. -/
def lines : List Char → List (List Char)
  | [] => [[]]
  | '\r' :: '\n' :: rest => [] :: lines rest
  | '\n' :: rest => [] :: lines rest
  | c :: rest =>
    match lines rest with
    | [] => [[c]]
    | line :: more => (c :: line) :: more

def isBlankLine (line : List Char) : Bool := line.all isWhiteSpace

/-- The bytes of the white space at the front of a line. -/
def indent (line : List Char) : Nat :=
  (line.takeWhile isWhiteSpace).foldr (fun c bytes => c.utf8Size + bytes) 0

/-- A line without the characters that start in its first bytes. -/
def dropBytes : Nat → List Char → List Char
  | 0, line => line
  | _ + 1, [] => []
  | count + 1, c :: rest => dropBytes (count + 1 - c.utf8Size) rest

/-- The least indent of the lines that are not blank. -/
def commonIndent (lines : List (List Char)) : Nat :=
  ((lines.filter fun line => !isBlankLine line).map indent).min?.getD 0

/-- The value of a block string: the common indent of all lines but the first is
removed, and so are blank lines at both ends. -/
def blockValue (raw : List Char) : List Char :=
  let dedented := match lines raw with
    | [] => []
    | first :: more => first :: more.map (dropBytes (commonIndent more))
  let kept := ((dedented.dropWhile isBlankLine).reverse.dropWhile isBlankLine).reverse
  ['\n'].intercalate kept

/-! ## Numbers -/

/-- The exponent of a float, if one follows. -/
def scanExponent : List Char → Option (Option Int × List Char)
  | c :: rest =>
    if c == 'e' || c == 'E' then (Json.readExponent rest).map fun (e, rest) => (some e, rest)
    else some (none, c :: rest)
  | [] => some (none, [])

def scanNumber (cs : List Char) : Option (Token × List Char) := do
  let (negative, cs) := match cs with
    | '-' :: rest => (true, rest)
    | _ => (false, cs)
  let (whole, cs) := cs.span isDigit
  if whole.isEmpty || (whole.head? == some '0' && 1 < whole.length) then none
  let (fraction, cs) ← match cs with
    | '.' :: rest =>
      let (digits, rest) := rest.span isDigit
      if digits.isEmpty then none else some (some digits, rest)
    | _ => some (none, cs)
  let (exponent, cs) ← scanExponent cs
  if cs.head?.any fun c => isNameRest c || c == '.' then none
  match fraction, exponent with
  | none, none =>
    let value : Int := Number.natOfDigits whole
    return (.int (if negative then -value else value), cs)
  | _, _ =>
    let digits := fraction.getD []
    let value := Double.ofDecimal negative (Number.natOfDigits (whole ++ digits))
      (exponent.getD 0 - digits.length)
    return (.float value, cs)

/-! ## Scanning -/

/-- The token at the front of a text that starts with no ignored character. -/
def scanOne (c : Char) (rest : List Char) : Option (Token × List Char) :=
  if isMark c then some (.mark c, rest)
  else if isNameStart c then
    let (cs, rest) := (c :: rest).span isNameRest
    some (.name (String.ofList cs), rest)
  else if isDigit c || c == '-' then scanNumber (c :: rest)
  else
    match c, rest with
    | '.', '.' :: '.' :: rest => some (.spread, rest)
    | '"', '"' :: '"' :: rest =>
      (scanBlock rest).map fun (raw, rest) => (.string (String.ofList (blockValue raw)), rest)
    | '"', rest => (scanString rest).map fun (s, rest) => (.string (String.ofList s), rest)
    | _, _ => none

/-- The tokens of a text, in at most `bound` steps. -/
def scanFrom : Nat → List Char → Option (List Token)
  | _, [] => some []
  | 0, _ :: _ => none
  | bound + 1, c :: rest =>
    if isIgnored c then scanFrom bound rest
    else if c == '#' then
      scanFrom bound (rest.dropWhile fun c => c != '\n' && c != '\r')
    else do
      let (token, rest) ← scanOne c rest
      let tokens ← scanFrom bound rest
      return token :: tokens

/-- The tokens of a text.  Every step consumes a character. -/
def scan? (text : List Char) : Option (List Token) := scanFrom text.length text

end Token
end ResponseGraph
