import ResponseGraph.Json.Printer
import ResponseGraph.Text.Hidden

/-!
Complaints about JSON of the wrong type.

Where a value of one type is expected and another is found, the message says what
was found.  Strings are quoted in it, and characters that would not show are given
by their code.
-/

namespace ResponseGraph
namespace Json

/-- A character within a quotation. -/
def quoteChar (c : Char) : List Char :=
  match c with
  | '"' => ['\\', '"']
  | '\\' => ['\\', '\\']
  | '\n' => ['\\', 'n']
  | '\r' => ['\\', 'r']
  | '\t' => ['\\', 't']
  | '\x00' => ['\\', '0']
  | c =>
    if Text.isHidden c then '\\' :: 'u' :: '\x7b' :: (Nat.toDigits 16 c.toNat ++ ['\x7d'])
    else [c]

def quoted (s : String) : String :=
  String.ofList ('"' :: (s.toList.flatMap quoteChar ++ ['"']))

/-- What a message calls a value of an unexpected type. -/
def kindText : Json → String
  | .null => "null"
  | .bool true => "boolean `true`"
  | .bool false => "boolean `false`"
  | .number (.int n) => "integer `" ++ (Number.int n).text ++ "`"
  | .number (.float x) => "floating point `" ++ (Number.float x).text ++ "`"
  | .string s => "string " ++ quoted s
  | .array _ => "sequence"
  | .object _ => "map"

def unexpected (value : Json) (expected : String) : String :=
  "invalid type: " ++ value.kindText ++ ", expected " ++ expected

end Json
end ResponseGraph
