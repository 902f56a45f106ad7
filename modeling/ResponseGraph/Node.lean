import ResponseGraph.Value
import ResponseGraph.NodeId

/-!
Nodes.

A node is an entity or the value of a field with arguments.  Besides its data it
lists its links in both directions.  An outbound link leads to a node whose
content belongs at some path of the data, and the node at its end has the inbound
link back, with the same path.

Link lists keep the order in which links were made and hold no link twice.
-/

namespace ResponseGraph

inductive NodeKind where
  | entity
  | parameterized
deriving DecidableEq, Inhabited

/-- One end of a reference: the node at the other end, and the path of the
reference within the data of the node it comes from. -/
structure Link where
  node : NodeId
  path : Path
deriving DecidableEq, Inhabited

inductive Direction where
  | inbound
  | outbound
deriving DecidableEq, Inhabited

structure Node where
  kind : NodeKind
  inbound : List Link
  outbound : List Link
  data : Option Value
deriving Inhabited

namespace Node

/-- A node without links and data. -/
def bare (kind : NodeKind) : Node := ⟨kind, [], [], none⟩

def isEntity (node : Node) : Bool := node.kind == .entity

def links (node : Node) : Direction → List Link
  | .inbound => node.inbound
  | .outbound => node.outbound

def setLinks (node : Node) (links : List Link) : Direction → Node
  | .inbound => { node with inbound := links }
  | .outbound => { node with outbound := links }

def hasLink (node : Node) (direction : Direction) (link : Link) : Bool :=
  (node.links direction).contains link

/-- Adds the link at the end unless the node has it. -/
def addLink (node : Node) (direction : Direction) (link : Link) : Node :=
  if node.hasLink direction link then node
  else node.setLinks (node.links direction ++ [link]) direction

def removeLink (node : Node) (direction : Direction) (link : Link) : Node :=
  node.setLinks ((node.links direction).filter fun other => other ≠ link) direction

theorem links_setLinks (node : Node) (links : List Link) (direction other : Direction) :
    (node.setLinks links direction).links other =
      if direction = other then links else node.links other := by
  cases direction <;> cases other <;> rfl

theorem hasLink_iff (node : Node) (direction : Direction) (link : Link) :
    node.hasLink direction link = true ↔ link ∈ node.links direction := by
  simp [hasLink]

theorem mem_links_addLink (node : Node) (direction other : Direction) (link found : Link) :
    found ∈ (node.addLink direction link).links other ↔
      found ∈ node.links other ∨ direction = other ∧ found = link := by
  unfold addLink
  split
  · next has =>
    rw [hasLink_iff] at has
    constructor
    · exact Or.inl
    · rintro (h | ⟨rfl, rfl⟩)
      · exact h
      · exact has
  · rw [links_setLinks]
    by_cases h : direction = other
    · subst h
      simp
    · simp [h]

theorem mem_links_removeLink (node : Node) (direction other : Direction) (link found : Link) :
    found ∈ (node.removeLink direction link).links other ↔
      found ∈ node.links other ∧ ¬(direction = other ∧ found = link) := by
  unfold removeLink
  rw [links_setLinks]
  by_cases h : direction = other
  · subst h
    simp
  · simp [h]

/-- The data at a path. -/
def get? (node : Node) (path : Path) : Option Value := node.data.bind fun data => data.get? path

/-- Writes into the data, which starts as null. -/
def set (node : Node) (path : Path) (value : Value) : Node :=
  { node with data := some ((node.data.getD .null).set path value) }

/-- Equality as nodes: equal links in order, and data equal as values. -/
def same (a b : Node) : Bool :=
  a.kind == b.kind && a.inbound == b.inbound && a.outbound == b.outbound &&
    match a.data, b.data with
    | none, none => true
    | some x, some y => x.same y
    | _, _ => false

end Node
end ResponseGraph
