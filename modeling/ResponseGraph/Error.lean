import ResponseGraph.Path

/-!
Failures.

Every failure says what caused it, and `Error.message` is the one place where it
is put into words.  A failure ends the operation that met it and nothing is
written; anomalies that end nothing are warnings and not errors.
-/

namespace ResponseGraph

/-- A document or its selection is malformed or not supported. -/
inductive DocumentError where
  | syntaxError
  | unknownFragment (name : String)
  /-- The open fragments from the outermost one on, closed by the repeated one. -/
  | fragmentCycle (cycle : List String)
  /-- Two selections of one response name at `path` do not agree. -/
  | conflictingFields (reason : String) (path : List String)
  | noFields
  | operationCount (count : Nat)
  | fragmentCount (count : Nat)
  /-- Used and declared variables differ. -/
  | variableMismatch (operation : String) (complaints : List String)

inductive VariableError where
  | missing (name : String)
  | notBoolean (directive : String) (value : Json)

/-- The payload does not have the shape that the selection expects at the position
`base ++ path`; `path` leads to it inside the node `container`. -/
structure PayloadError where
  reason : String
  base : Path
  container : String
  path : Path
  payload : Json

/-- A state that a faulty identity function or an unfinished operation leads to. -/
inductive UsageError where
  | inconsistentIdentity (reason : String) (path : Path) (container : String)
  | openVariable (name : String)

/-- The two ends of a reference do not agree. -/
inductive ConsistencyError where
  | missingInbound (source target : String) (path : Path)
  | missingOutbound (source target : String) (path : Path)
  | dangling (source target : String)

inductive Error where
  | document (error : DocumentError)
  | variable (error : VariableError)
  | payload (error : PayloadError)
  | usage (error : UsageError)
  | consistency (error : ConsistencyError)

/-- A count as messages show it. -/
def countText (n : Nat) : String := String.ofList (Nat.toDigits 10 n)

def DocumentError.message : DocumentError → String
  | .syntaxError => "Could not parse GraphQL document"
  | .unknownFragment name => "Expected fragment " ++ name ++ " to be defined"
  | .fragmentCycle cycle => "Fragment cycle detected: " ++ ", ".intercalate cycle
  | .conflictingFields reason path =>
    "Conflicting field definitions: " ++ reason ++ " at " ++ dotted path
  | .noFields =>
    "Parsed a query, but found no fields present; it may use unsupported GraphQL features"
  | .operationCount count =>
    "Expected exactly one operation definition, found " ++ countText count
  | .fragmentCount count =>
    "Found " ++ countText count ++
      " fragments. `fragment_name` must be provided when there is not exactly 1 fragment"
  | .variableMismatch operation complaints =>
    "Validation error" ++ (if complaints.length = 1 then "" else "s") ++ " in " ++ operation ++
      ":\n - " ++ "\n - ".intercalate complaints

def VariableError.message : VariableError → String
  | .missing name => "Expected variable $" ++ name ++ " to exist for query"
  | .notBoolean directive value =>
    "Expected the condition of @" ++ directive ++ " to be a boolean, found " ++ value.text

def PayloadError.message (e : PayloadError) : String :=
  e.reason ++ " at " ++ e.base.dotted ++ " (container " ++ e.container ++ ", path " ++
    e.path.dotted ++ ")"

def UsageError.message : UsageError → String
  | .inconsistentIdentity reason path container =>
    reason ++ " at " ++ path.dotted ++ " (container " ++ container ++ ")"
  | .openVariable name =>
    "Argument value still references variable $" ++ name ++
      "; the operation must be expanded first"

def ConsistencyError.message : ConsistencyError → String
  | .missingInbound source target path =>
    "Node " ++ source ++ " references " ++ target ++ " at " ++ path.dotted ++
      " but the reverse reference is missing"
  | .missingOutbound source target path =>
    "Node " ++ target ++ " is referenced by " ++ source ++ " at " ++ path.dotted ++
      " but the forward reference is missing"
  | .dangling source target => "Node " ++ source ++ " references missing node " ++ target

def Error.message : Error → String
  | .document e => e.message
  | .variable e => e.message
  | .payload e => e.message
  | .usage e => e.message
  | .consistency e => e.message

end ResponseGraph
