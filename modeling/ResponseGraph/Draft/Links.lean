import ResponseGraph.Draft

/-!
Changes of references.

While a payload is walked, references are not yet changed.  The walk collects the
changes, and `applyAll` makes them afterwards in the order in which they were
found.  So where several selections write one position, the last one decides what
is linked there.
-/

namespace ResponseGraph

/-- A change of what is linked at a path of a node. -/
inductive LinkChange where
  /-- The link to `target` goes; the data was already rewritten. -/
  | detach (container : NodeId) (path : Path) (target : NodeId)
  /-- The position refers to `next` from now on, or to nothing. -/
  | relink (container : NodeId) (path : Path) (next : Option NodeId)

namespace Draft

/-- The entity that is linked at a path.  The value of a field with arguments may
be linked at the same path and does not count. -/
def linkedEntity? (draft : Draft) (container : NodeId) (path : Path) : Option NodeId := do
  let node ← draft.node? container
  let link ← node.outbound.find? fun link =>
    link.path = path && (draft.node? link.node).any Node.isEntity
  return link.node

/-- Adds a reference at both of its ends. -/
def link (draft : Draft) (container : NodeId) (path : Path) (target : NodeId) : Draft :=
  (draft.update container fun node => node.addLink .outbound ⟨target, path⟩).update target
    fun node => node.addLink .inbound ⟨container, path⟩

/-- Removes the inbound end of a reference, and tells whether it was the last
one. -/
def dropInbound (draft : Draft) (container : NodeId) (path : Path) (target : NodeId) :
    Draft × Bool :=
  match draft.node? target with
  | none => (draft, false)
  | some node =>
    let node := node.removeLink .inbound ⟨container, path⟩
    (draft.put target node, node.inbound.isEmpty)

/-- Removes a reference at both of its ends.  A target without inbound links is an
orphan. -/
def unlink (draft : Draft) (container : NodeId) (path : Path) (target : NodeId) : Draft :=
  let draft := draft.update container fun node => node.removeLink .outbound ⟨target, path⟩
  let (draft, orphaned) := draft.dropInbound container path target
  if orphaned then { draft with orphans := draft.orphans.add target } else draft

def apply (draft : Draft) : LinkChange → Draft
  | .detach container path target => draft.unlink container path target
  | .relink container path next =>
    let previous := draft.linkedEntity? container path
    let draft := draft.set container path ((next.map Value.reference).getD .null)
    let draft := match previous with
      | some target => draft.unlink container path target
      | none => draft
    match next with
    | some target =>
      let draft := draft.link container path target
      { draft with orphans := draft.orphans.erase target }
    | none => draft

def applyAll (draft : Draft) (changes : List LinkChange) : Draft := changes.foldl apply draft

end Draft
end ResponseGraph
