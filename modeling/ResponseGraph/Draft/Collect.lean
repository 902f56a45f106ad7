import ResponseGraph.Draft.Links

/-!
Collection.

A node that has lost its last inbound link is removed together with its links,
which may leave further nodes without inbound links.  The ids still to be looked
at are a stack.

A step takes one id off the stack, and pushes no more ids than the node that it
removes has outbound links.  So the size of the stack together with the number of
all outbound links bounds the number of steps.
-/

namespace ResponseGraph
namespace Draft

/-- Removes the inbound ends of the links of a removed node, and pushes the nodes
that have none left. -/
def release (draft : Draft) (id : NodeId) (stack : List NodeId) :
    List Link → Draft × List NodeId
  | [] => (draft, stack)
  | link :: rest =>
    let (draft, orphaned) := draft.dropInbound id link.path link.node
    release draft id (if orphaned then link.node :: stack else stack) rest

def collectFrom : Nat → Draft → List NodeId → Draft
  | 0, draft, _ => draft
  | _ + 1, draft, [] => draft
  | bound + 1, draft, id :: stack =>
    match draft.node? id with
    | none => collectFrom bound draft stack
    | some node =>
      if node.inbound.isEmpty then
        let (draft, stack) := (draft.remove id).release id stack node.outbound
        collectFrom bound draft stack
      else collectFrom bound draft stack

def outboundCount (draft : Draft) : Nat :=
  Entries.total (fun node => node.outbound.length) draft.graph.toList

/-- Removes those of the given nodes that have no inbound links, and all that is
left without inbound links by that. -/
def collect (draft : Draft) (ids : List NodeId) : Draft :=
  collectFrom (ids.length + draft.outboundCount) draft ids

/-- Removes the orphans, starting with the last one. -/
def collectOrphans (draft : Draft) : Draft :=
  { draft with orphans := Table.empty }.collect draft.orphans.keys.reverse

end Draft
end ResponseGraph
