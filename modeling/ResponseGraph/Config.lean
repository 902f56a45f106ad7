import ResponseGraph.Json.Unexpected

/-!
Configuration.

A configuration is read from a JSON object whose members are the flags to be set,
or from a list of the flags in order.  The first thing in it that is refused
decides the message.
-/

namespace ResponseGraph

structure Config where
  /-- Verify every graph that is committed. -/
  freezeSnapshots : Bool
  /-- Select `__typename` in every selection set below the root. -/
  addTypename : Bool
  /-- Refuse operations whose used and declared variables differ. -/
  strictVariables : Bool
deriving DecidableEq, Inhabited

namespace Config

def default : Config := ⟨false, false, true⟩

def flagNames : List String := ["freeze_snapshots", "add_typename", "strict_variables"]

def flags (config : Config) : List Bool :=
  [config.freezeSnapshots, config.addTypename, config.strictVariables]

def readFlag : Json → Except String Bool
  | .bool b => .ok b
  | value => .error (value.unexpected "a boolean")

def setFlag (config : Config) (name : String) (value : Json) : Except String Config := do
  match name with
  | "freeze_snapshots" => return { config with freezeSnapshots := ← readFlag value }
  | "add_typename" => return { config with addTypename := ← readFlag value }
  | "strict_variables" => return { config with strictVariables := ← readFlag value }
  | _ =>
    let known := ", ".intercalate (flagNames.map fun flag => "`" ++ flag ++ "`")
    throw ("unknown field `" ++ name ++ "`, expected one of " ++ known)

def setFlags (config : Config) (members : List (String × Json)) : Except String Config :=
  members.foldlM (fun config (name, value) => config.setFlag name value) config

def ofJson : Json → Except String Config
  | .object members => default.setFlags members
  | .array values => do
    let config ← default.setFlags (flagNames.zip values)
    if flagNames.length < values.length then
      throw ("invalid length " ++ (Number.int values.length).text ++
        ", expected fewer elements in array")
    return config
  | value => throw (value.unexpected "struct CacheConfig")

def text (config : Config) : String :=
  let parts := (flagNames.zip config.flags).map fun (name, flag) =>
    name ++ ": " ++ (if flag then "true" else "false")
  "CacheConfig \x7b " ++ ", ".intercalate parts ++ " \x7d"

end Config
end ResponseGraph
