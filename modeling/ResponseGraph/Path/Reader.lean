import ResponseGraph.Path
import ResponseGraph.Json.Unexpected

/-!
Reading paths.

The JSON form of a path is a list of indexes, which are unsigned 64-bit integers,
and keys, which are strings.
-/

namespace ResponseGraph
namespace Path

def ofJson (value : Json) : Except String Path :=
  match value with
  | .array items =>
    match items.mapM Step.ofJson? with
    | some path => .ok path
    | none => .error "data did not match any variant of untagged enum PathPart"
  | value => .error (value.unexpected "a sequence")

end Path
end ResponseGraph
