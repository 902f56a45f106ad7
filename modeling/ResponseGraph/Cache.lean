import ResponseGraph.Operation
import ResponseGraph.Identity
import ResponseGraph.Transform
import ResponseGraph.Draft.Commit
import ResponseGraph.Payload.Merge

/-!
Caches.

A cache holds what all writes have in common: the configuration, the identity
function, the transformer and the registry of operations.  The graphs that are
written are not part of it.

`Cache.write` merges one payload into a graph.  A `Batch` merges several payloads
into one draft before it is committed.
-/

namespace ResponseGraph

structure Cache where
  config : Config
  identity : Identity
  transform : Option Transform
  registry : Registry

/-- A draft with the operations that were merged into it and their warnings. -/
structure Batch where
  draft : Draft
  written : List Registered
  warnings : List String

/-- What a committed batch leaves behind. -/
structure Outcome where
  commit : Commit
  /-- The distinct operations in the order of their first merge. -/
  written : List Registered
  warnings : List String

/-- What an observer of a write sees. -/
inductive Event where
  | start (root : NodeId)
  | warning (text : String)
  | finish (root : NodeId) (edited warnings : Nat)

def Event.text : Event → String
  | .start root => "start: " ++ root
  | .warning text => "warning: " ++ text
  | .finish root edited warnings =>
    "end: " ++ root ++ " edited " ++ countText edited ++ " warnings " ++ countText warnings

namespace Batch

def ofGraph (graph : Graph) : Batch := ⟨.ofGraph graph, [], []⟩

/-- Merges one payload, and gives its warnings. -/
def merge (cache : Cache) (entry : Registered) (payload : Json) (batch : Batch) :
    Except Error (Batch × List String) := do
  let operation := entry.operation
  let (draft, warnings) ← batch.draft.merge cache.identity.nonempty operation.root
    operation.selection.fields payload
  let written :=
    if batch.written.any fun other => other.serial == entry.serial then batch.written
    else batch.written ++ [entry]
  return (⟨draft, written, batch.warnings ++ warnings⟩, warnings)

def commit (cache : Cache) (batch : Batch) : Except Error Outcome :=
  match batch.draft.commit cache.transform cache.config.freezeSnapshots with
  | .ok commit => .ok ⟨commit, batch.written, batch.warnings⟩
  | .error e => .error (.consistency e)

end Batch

namespace Cache

def new (config : Config) : Cache := ⟨config, Identity.byId, none, Registry.empty⟩

/-- The operation of a request, and the cache that knows it. -/
def prepare (cache : Cache) (request : Request) : Cache × Except Error Registered :=
  let (registry, result) := cache.registry.prepare cache.config request
  ({ cache with registry }, result)

/-- Writes the payload of a prepared operation into a graph. -/
def writeEntry (cache : Cache) (graph : Graph) (entry : Registered) (payload : Json) :
    List Event × Except Error Outcome :=
  let root := entry.operation.root
  let started := [Event.start root]
  match (Batch.ofGraph graph).merge cache entry payload with
  | .error e => (started, .error e)
  | .ok (batch, warnings) =>
    let warned := started ++ warnings.map Event.warning
    match batch.commit cache with
    | .error e => (warned, .error e)
    | .ok outcome =>
      let edited := outcome.commit.edited.size
      (warned ++ [.finish root edited outcome.warnings.length], .ok outcome)

/-- Writes the payload of a request into a graph.  Nothing is written on failure,
but the cache may know the operation then. -/
def write (cache : Cache) (graph : Graph) (request : Request) (payload : Json) :
    Cache × List Event × Except Error Outcome :=
  match cache.prepare request with
  | (cache, .error e) => (cache, [], .error e)
  | (cache, .ok entry) =>
    let (events, result) := cache.writeEntry graph entry payload
    (cache, events, result)

def text (cache : Cache) : String :=
  "CacheContext \x7b config: " ++ cache.config.text ++ ", documents: " ++
    countText cache.registry.plans.length ++ ", .. \x7d"

end Cache
end ResponseGraph
