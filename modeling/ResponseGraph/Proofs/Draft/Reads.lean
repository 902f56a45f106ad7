import ResponseGraph.Proofs.Draft.Links
import ResponseGraph.Proofs.Value.Paths

/-!
What is stored.

`Nodes.read` is what nodes hold at a path of an id.  The lemmas say what is read after
`Nodes.write`, which is what `Draft.set` does to the nodes.
-/

namespace ResponseGraph

/-- The value of a place that refers to an entity, or to nothing. -/
def Value.referring (next : Option NodeId) : Value := (next.map Value.reference).getD .null

namespace Nodes

variable {nodes : Nodes} {id other : NodeId} {path above rest : Path} {value found : Value}

def read (nodes : Nodes) (id : NodeId) (path : Path) : Option Value :=
  (nodes id).bind fun node => node.get? path

def write (nodes : Nodes) (id : NodeId) (path : Path) (value : Value) : Nodes :=
  nodes.put id ((nodes.current id).set path value)

theorem has_of_read (h : nodes.read id path = some found) : nodes.Has id := by
  obtain ⟨node, present, -⟩ := Option.bind_eq_some_iff.mp h
  exact has_of_some present

/-- The data of an id, null if there is none. -/
def data (nodes : Nodes) (id : NodeId) : Value := ((nodes.current id).data).getD .null

theorem links_write (nodes : Nodes) (id : NodeId) (path : Path) (value : Value)
    (direction : Direction) (other : NodeId) :
    (nodes.write id path value).links direction other = nodes.links direction other := by
  refine links_put_of_same (fun way => ?_) direction other
  rw [← links_current]
  cases way <;> rfl

theorem read_write_of_ne (ne : id ≠ other) :
    (nodes.write id path value).read other above = nodes.read other above := by
  unfold read write put
  rw [if_neg ne]

theorem read_write (nodes : Nodes) (id : NodeId) (path other : Path) (value : Value) :
    (nodes.write id path value).read id other = ((nodes.data id).set path value).get? other := by
  unfold read write put
  rw [if_pos rfl]
  rfl

theorem read_eq_some (h : nodes.read id path = some found) :
    (nodes.data id).get? path = some found := by
  unfold read at h
  unfold data
  cases present : nodes id with
  | none =>
    rw [present] at h
    cases h
  | some node =>
    rw [present] at h
    obtain ⟨data, stored, h⟩ := Option.bind_eq_some_iff.mp (show node.data.bind _ = _ from h)
    rw [current_of_some present, stored]
    exact h

/-- Data that is missing reads as null at the root and nowhere else. -/
theorem of_get?_data (h : (nodes.data id).get? path = some found) :
    nodes.read id path = some found ∨ (found = .null ∧ path = []) := by
  unfold data current at h
  unfold read
  cases present : nodes id with
  | none =>
    rw [present] at h
    cases path with
    | nil =>
      cases h
      exact Or.inr ⟨rfl, rfl⟩
    | cons step path => cases step <;> cases h
  | some node =>
    rw [present] at h
    cases stored : node.data with
    | none =>
      rw [Option.getD_some, stored] at h
      cases path with
      | nil =>
        cases h
        exact Or.inr ⟨rfl, rfl⟩
      | cons step path => cases step <;> cases h
    | some data =>
      rw [Option.getD_some, stored] at h
      refine Or.inl ?_
      show node.data.bind _ = _
      rw [stored]
      exact h

/-- Missing data has no members, and neither has null. -/
theorem read_cons (nodes : Nodes) (id : NodeId) (step : Step) (rest : Path) :
    nodes.read id (step :: rest) = (nodes.data id).get? (step :: rest) := by
  refine Option.ext fun found => ⟨read_eq_some, fun held => ?_⟩
  exact (of_get?_data held).resolve_right fun missing => List.cons_ne_nil _ _ missing.2

theorem getD_read (nodes : Nodes) (id : NodeId) (path : Path) :
    ((nodes.data id).get? path).getD .null = (nodes.read id path).getD .null := by
  cases held : (nodes.data id).get? path with
  | some found =>
    rcases of_get?_data held with h | ⟨rfl, -⟩
    · rw [h]
    · cases stored : nodes.read id path with
      | none => rfl
      | some other =>
        rw [read_eq_some stored] at held
        cases held
        rfl
  | none =>
    cases stored : nodes.read id path with
    | none => rfl
    | some other =>
      rw [read_eq_some stored] at held
      cases held

theorem read_write_append (nodes : Nodes) (id : NodeId) (path rest : Path) (value : Value) :
    (nodes.write id path value).read id (path ++ rest) = value.get? rest := by
  rw [read_write, Value.get?_set_append]

theorem read_write_self (nodes : Nodes) (id : NodeId) (path : Path) (value : Value) :
    (nodes.write id path value).read id path = some value := by
  rw [read_write, Value.get?_set_self]

theorem read_write_above (nodes : Nodes) (id : NodeId) (above : Path) (step : Step) (rest : Path)
    (value : Value) : (nodes.write id (above ++ step :: rest) value).read id above =
      some (((nodes.read id above).getD .null).set (step :: rest) value) := by
  rw [read_write, Value.get?_set_above, getD_read]

/-- A write to one member leaves the others, whatever gives way to it. -/
theorem read_write_member {name key : String} (ne : key ≠ name) :
    (nodes.write id (.key key :: rest) value).read id [.key name] =
      nodes.read id [.key name] := by
  rw [read_write, read_cons, Value.set_cons, Value.get?_cons, Value.get?_cons]
  show (Entries.get? name (Entries.put key _ (nodes.data id).members)).bind _ = _
  rw [Entries.get?_put, if_neg ne, ← Value.step?_key]

/-- Nothing gives way when something is written at the path. -/
def Bears (nodes : Nodes) (id : NodeId) (path : Path) : Prop :=
  ∀ above step rest, path = above ++ step :: rest → ∀ found, nodes.read id above = some found →
    found.Bears step

/-- Nothing gives way, on the part of the path that leads beside it as well, when something is
written at the path. -/
def BearsBeside (nodes : Nodes) (id : NodeId) (path beside : Path) : Prop :=
  ∀ above step rest, path = above ++ step :: rest → above <+: beside → ∀ found,
    nodes.read id above = some found → found.Bears step

theorem Bears.beside (h : nodes.Bears id path) (beside : Path) :
    nodes.BearsBeside id path beside := fun above step rest e _ => h above step rest e

theorem BearsBeside.data {beside : Path} (h : nodes.BearsBeside id path beside) :
    (nodes.data id).BearsBeside path beside := by
  intro above step rest e along found held
  rcases of_get?_data held with stored | ⟨rfl, -⟩
  · exact h above step rest e along found stored
  · exact Value.bears_null step

theorem read_write_beside {beside : Path} (bears : nodes.BearsBeside id path beside)
    (apart : Path.Apart path beside) (h : nodes.read id beside = some found) :
    (nodes.write id path value).read id beside = some found := by
  rw [read_write]
  exact Value.get?_set bears.data apart (read_eq_some h)

theorem read_write_apart {beside : Path} (bears : nodes.Bears id path)
    (apart : Path.Apart path beside) (h : nodes.read id beside = some found) :
    (nodes.write id path value).read id beside = some found :=
  read_write_beside (bears.beside beside) apart h

/-- What is read apart from a path was there before a write, or the write has filled up a
list. -/
theorem of_read_write {beside : Path} (apart : Path.Apart path beside)
    (h : (nodes.write id path value).read id beside = some found) :
    nodes.read id beside = some found ∨ (found = .null ∧ path.FillsUp beside) := by
  rw [read_write] at h
  refine (Value.of_get?_set apart h).imp_left fun held => (of_get?_data held).resolve_right ?_
  intro root
  exact Path.not_apart_nil path (root.2 ▸ apart)

/-- A write leaves what is apart from its path, where nothing gives way and no list is
filled up. -/
theorem read_write_eq {beside : Path} (apart : Path.Apart path beside)
    (bears : ∀ found, nodes.read id beside = some found → nodes.BearsBeside id path beside)
    (short : ¬ path.FillsUp beside) :
    (nodes.write id path value).read id beside = nodes.read id beside := by
  cases held : nodes.read id beside with
  | some found => exact read_write_beside (bears found held) apart held
  | none =>
    refine Option.eq_none_iff_forall_ne_some.mpr fun found read => ?_
    rcases of_read_write apart read with old | ⟨-, filled⟩
    · rw [held] at old
      cases old
    · exact short filled

/-- What is below a path is read in what is at the path. -/
theorem read_append (nodes : Nodes) (id : NodeId) (path rest : Path) :
    nodes.read id (path ++ rest) = (nodes.read id path).bind fun found => found.get? rest := by
  unfold read
  cases nodes id with
  | none => rfl
  | some node =>
    show node.data.bind _ = (node.data.bind _).bind _
    cases node.data with
    | none => rfl
    | some data => exact Value.get?_append data path rest

end Nodes

theorem Draft.nodes_set_write (draft : Draft) (id : NodeId) (path : Path) (value : Value) :
    (draft.set id path value).node? = Nodes.write draft.node? id path value :=
  draft.nodes_set id path value

end ResponseGraph
