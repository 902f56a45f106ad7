import ResponseGraph.Document.Token

/-!
Reading documents.

`Document.parse?` reads an executable document or finds a syntax error.  Each
reader takes the tokens that are left and gives back what it read and the tokens
after it.  Readers that recurse take a bound for the remaining steps.  No more
than two steps in a row are made without consuming a token, and `parse?` allows
for them.
-/

namespace ResponseGraph
namespace Document

abbrev Reader (α : Type) := List Token → Option (α × List Token)

/- Values, and the named values of arguments and object literals up to their
closing mark.  A constant has no variables. -/
mutual
def readValue (constant : Bool) : Nat → Reader Literal
  | 0, _ => none
  | bound + 1, tokens =>
    match tokens with
    | .mark '$' :: .name name :: rest => if constant then none else some (.variable name, rest)
    | .int value :: rest => some (.int value, rest)
    | .float value :: rest => some (.float value, rest)
    | .string value :: rest => some (.string value, rest)
    | .name "true" :: rest => some (.bool true, rest)
    | .name "false" :: rest => some (.bool false, rest)
    | .name "null" :: rest => some (.null, rest)
    | .name name :: rest => some (.enum name, rest)
    | .mark '[' :: rest =>
      (readItems constant bound rest).map fun (items, rest) => (.list items, rest)
    | .mark '\x7b' :: rest =>
      (readNamed constant '\x7d' bound rest).map fun (members, rest) => (.object members, rest)
    | _ => none

def readItems (constant : Bool) : Nat → Reader (List Literal)
  | 0, _ => none
  | bound + 1, tokens =>
    match tokens with
    | .mark ']' :: rest => some ([], rest)
    | _ => do
      let (item, rest) ← readValue constant bound tokens
      let (items, rest) ← readItems constant bound rest
      return (item :: items, rest)

def readNamed (constant : Bool) (close : Char) : Nat → Reader (List (String × Literal))
  | 0, _ => none
  | bound + 1, tokens =>
    match tokens with
    | .name name :: .mark ':' :: rest => do
      let (value, rest) ← readValue constant bound rest
      let (more, rest) ← readNamed constant close bound rest
      return ((name, value) :: more, rest)
    | .mark c :: rest => if c = close then some ([], rest) else none
    | _ => none
end

def readArguments (bound : Nat) : Reader (List (String × Literal))
  | .mark '(' :: rest => readNamed false ')' bound rest
  | tokens => some ([], tokens)

def readDirectives : Nat → Reader (List Directive)
  | 0, _ => none
  | bound + 1, tokens =>
    match tokens with
    | .mark '@' :: .name name :: rest => do
      let (arguments, rest) ← readArguments bound rest
      let (more, rest) ← readDirectives bound rest
      return (⟨name, arguments⟩ :: more, rest)
    | .mark '@' :: _ => none
    | _ => some ([], tokens)

/-- A response name and a field name, which are the same without an alias. -/
def readFieldName : Reader (Option String × String)
  | .name aliasName :: .mark ':' :: .name name :: rest => some ((some aliasName, name), rest)
  | .name _ :: .mark ':' :: _ => none
  | .name name :: rest => some ((none, name), rest)
  | _ => none

/- Selection sets.  `readSelections` reads the entries up to the closing brace,
and a set has at least one entry. -/
mutual
def readSelectionSet : Nat → Reader (List Selection)
  | 0, _ => none
  | bound + 1, tokens =>
    match tokens with
    | .mark '\x7b' :: rest => do
      let (first, rest) ← readSelection bound rest
      let (more, rest) ← readSelections bound rest
      return (first :: more, rest)
    | _ => none

def readSelections : Nat → Reader (List Selection)
  | 0, _ => none
  | bound + 1, tokens =>
    match tokens with
    | .mark '\x7d' :: rest => some ([], rest)
    | _ => do
      let (selection, rest) ← readSelection bound tokens
      let (more, rest) ← readSelections bound rest
      return (selection :: more, rest)

def readSelection : Nat → Reader Selection
  | 0, _ => none
  | bound + 1, tokens =>
    match tokens with
    | .spread :: .name "on" :: .name _ :: rest => readInline bound rest
    | .spread :: .name "on" :: _ => none
    | .spread :: .name fragment :: rest =>
      (readDirectives bound rest).map fun (directives, rest) => (.spread fragment directives, rest)
    | .spread :: rest => readInline bound rest
    | _ => do
      let ((aliasName, name), rest) ← readFieldName tokens
      let (arguments, rest) ← readArguments bound rest
      let (directives, rest) ← readDirectives bound rest
      match rest with
      | .mark '\x7b' :: _ =>
        let (selections, rest) ← readSelectionSet bound rest
        return (.field aliasName name arguments directives selections, rest)
      | _ => return (.field aliasName name arguments directives [], rest)

def readInline : Nat → Reader Selection
  | 0, _ => none
  | bound + 1, tokens => do
    let (directives, rest) ← readDirectives bound tokens
    let (selections, rest) ← readSelectionSet bound rest
    return (.inline directives selections, rest)
end

/-- A type is recognised and skipped: a name between opening brackets and any marks
of lists and of values that are never null.  Whether the brackets match is not asked. -/
def skipType (tokens : List Token) : Option (List Token) :=
  match tokens.dropWhile (· = .mark '[') with
  | .name _ :: rest => some (rest.dropWhile fun token => token = .mark ']' || token = .mark '!')
  | _ => none

def readVariables : Nat → Reader (List VariableDefinition)
  | 0, _ => none
  | bound + 1, tokens =>
    match tokens with
    | .mark '$' :: .name name :: .mark ':' :: rest => do
      let rest ← skipType rest
      let (default, rest) ← match rest with
        | .mark '=' :: rest =>
          (readValue true bound rest).map fun (value, rest) => (some value, rest)
        | _ => some (none, rest)
      let (_, rest) ← readDirectives bound rest
      match rest with
      | .mark ')' :: rest => return ([⟨name, default⟩], rest)
      | _ =>
        let (more, rest) ← readVariables bound rest
        return (⟨name, default⟩ :: more, rest)
    | _ => none

def readOperation (bound : Nat) (kind : OperationKind) (tokens : List Token) :
    Option (OperationDefinition × List Token) := do
  let (name, rest) := match tokens with
    | .name name :: rest => (some name, rest)
    | _ => (none, tokens)
  let (definitions, rest) ← match rest with
    | .mark '(' :: rest => readVariables bound rest
    | _ => some ([], rest)
  let (_, rest) ← readDirectives bound rest
  let (selections, rest) ← readSelectionSet bound rest
  return (⟨kind, name, definitions, selections⟩, rest)

def readFragment (bound : Nat) : Reader Fragment
  | .name name :: .name "on" :: .name _ :: rest => do
    if name = "on" then none
    let (directives, rest) ← readDirectives bound rest
    let (selections, rest) ← readSelectionSet bound rest
    return (⟨name, directives, selections⟩, rest)
  | _ => none

/-- The definitions of a document up to the end of the text. -/
def readDefinitions : Nat → List Token → Option Document
  | 0, tokens => if tokens.isEmpty then some ⟨[], []⟩ else none
  | bound + 1, tokens =>
    match tokens with
    | [] => some ⟨[], []⟩
    | .name "fragment" :: rest => do
      let (fragment, rest) ← readFragment bound rest
      let document ← readDefinitions bound rest
      return { document with fragments := fragment :: document.fragments }
    | _ => do
      let (operation, rest) ← match tokens with
        | .mark '\x7b' :: _ =>
          (readSelectionSet bound tokens).map fun (selections, rest) =>
            ((⟨.query, none, [], selections⟩ : OperationDefinition), rest)
        | .name "query" :: rest => readOperation bound .query rest
        | .name "mutation" :: rest => readOperation bound .mutation rest
        | .name "subscription" :: rest => readOperation bound .subscription rest
        | _ => none
      let document ← readDefinitions bound rest
      return { document with operations := operation :: document.operations }

/-- A text of nothing but white space is no document, while one of ignored
characters is an empty document. -/
def parse? (text : String) : Option Document := do
  let chars := text.toList
  if chars.all Token.isWhiteSpace then none
  let tokens ← Token.scan? chars
  readDefinitions (2 * tokens.length + 2) tokens

end Document
end ResponseGraph
