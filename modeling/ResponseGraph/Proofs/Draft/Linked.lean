import ResponseGraph.Proofs.Draft.Reads
import ResponseGraph.Proofs.Draft.Collected

/-!
References and links.

The data of a node and its list of outbound links say twice which entities it refers to.
`Nodes.Backed` is that every reference in the data is linked, and `Nodes.Linked` that they
agree.  While references are being changed a link may be left over whose reference is gone from
the data, and then its removal is pending.
-/

namespace ResponseGraph

open NodeId (Whole)

namespace Nodes

/-- Every reference in the data is linked. -/
def Backed (nodes : Nodes) : Prop :=
  ∀ id path target, nodes.read id path = some (.reference target) →
    ⟨target, path⟩ ∈ nodes.links .outbound id ∧ Whole target

structure Linked (pending : NodeId → Path → NodeId → Prop) (nodes : Nodes) : Prop where
  stored : Backed nodes
  linked : ∀ id path target, ⟨target, path⟩ ∈ nodes.links .outbound id → Whole target →
    nodes.read id path = some (.reference target) ∨ pending id path target

/-- The data of an entity is neither a list nor a reference. -/
def Rooted (nodes : Nodes) : Prop :=
  ∀ id, Whole id → ∀ value, nodes.read id [] = some value →
    value.list? = none ∧ value.reference? = none

variable {nodes more : Nodes} {pending later : NodeId → Path → NodeId → Prop} {id : NodeId}
  {path : Path} {value : Value}

theorem Linked.mono (h : Linked pending nodes)
    (weaker : ∀ id path target, pending id path target → later id path target) :
    Linked later nodes :=
  ⟨h.stored, fun id path target member whole =>
    (h.linked id path target member whole).imp_right (weaker id path target)⟩

theorem Bears.not_reference {above rest : Path} {step : Step} {target : NodeId}
    (h : nodes.Bears id path) (e : path = above ++ step :: rest) :
    nodes.read id above ≠ some (.reference target) := by
  intro stored
  have bears := h above step rest e _ stored
  cases step <;> cases bears.2

/-- What is above a path after a write there is a container. -/
theorem read_write_above_ne (nodes : Nodes) (id : NodeId) (above : Path) (step : Step) (rest : Path)
    (value : Value) (target : NodeId) :
    (nodes.write id (above ++ step :: rest) value).read id above ≠ some (.reference target) := by
  rw [read_write_above, Value.set_cons]
  intro e
  cases step <;> cases e

/-- A write of a value with no new reference brings none. -/
theorem reference_of_write
    (kept : ∀ rest target, value.get? rest = some (.reference target) →
      nodes.read id (path ++ rest) = some (.reference target)) {other : NodeId} {place : Path}
    {target : NodeId} (stored : (nodes.write id path value).read other place =
      some (.reference target)) : nodes.read other place = some (.reference target) := by
  by_cases e : id = other
  · subst e
    rcases Path.cases path place with ⟨rest, rfl⟩ | ⟨step, rest, rfl⟩ | apart
    · rw [read_write_append] at stored
      exact kept rest target stored
    · exact absurd stored (read_write_above_ne nodes id place step rest value target)
    · rcases of_read_write apart stored with old | ⟨null, -⟩
      · exact old
      · cases null
  · rwa [read_write_of_ne e] at stored

theorem Backed.write (h : Backed nodes)
    (kept : ∀ rest target, value.get? rest = some (.reference target) →
      nodes.read id (path ++ rest) = some (.reference target)) :
    Backed (nodes.write id path value) := by
  intro other place target stored
  rw [links_write]
  exact h other place target (reference_of_write kept stored)

/-- A write keeps the agreement if it brings no new reference, and if the removal of every
link whose reference it takes away is pending. -/
theorem Linked.write (h : Linked pending nodes) (bears : nodes.Bears id path)
    (kept : ∀ rest target, value.get? rest = some (.reference target) →
      nodes.read id (path ++ rest) = some (.reference target))
    (lost : ∀ rest target, nodes.read id (path ++ rest) = some (.reference target) →
      value.get? rest = some (.reference target) ∨ later id (path ++ rest) target)
    (weaker : ∀ id path target, pending id path target → later id path target) :
    Linked later (nodes.write id path value) := by
  refine ⟨h.stored.write kept, fun other place target member whole => ?_⟩
  rw [links_write] at member
  rcases h.linked other place target member whole with stored | waiting
  · by_cases e : id = other
    · subst e
      rcases Path.cases path place with ⟨rest, rfl⟩ | ⟨step, rest, rfl⟩ | apart
      · rw [read_write_append]
        exact lost rest target stored
      · exact absurd stored (bears.not_reference rfl)
      · exact Or.inl (read_write_apart bears apart stored)
    · rw [read_write_of_ne e]
      exact Or.inl stored
  · exact Or.inr (weaker other place target waiting)

theorem Rooted.write (h : Rooted nodes)
    (inside : Whole id → ∃ name rest, path = .key name :: rest) :
    Rooted (nodes.write id path value) := by
  intro other whole found stored
  by_cases e : id = other
  · subst e
    obtain ⟨name, rest, rfl⟩ := inside whole
    have above := read_write_above nodes id [] (.key name) rest value
    rw [List.nil_append, stored, Value.set_cons] at above
    cases above
    exact ⟨rfl, rfl⟩
  · rw [read_write_of_ne e] at stored
    exact h other whole found stored

/-- The new node has no data, and the container keeps its own. -/
theorem read_sprout {container other : NodeId} {node : Node} (fresh : nodes id = none)
    (empty : node.data = none) (place beside : Path) :
    (nodes.sprout container place id node).read other beside = nodes.read other beside := by
  have put : ∀ other, (nodes.put id node).read other beside = nodes.read other beside := by
    intro other
    unfold read Nodes.put
    by_cases e : id = other
    · rw [if_pos e, ← e, fresh, Option.bind_some, Node.get?, empty]
      rfl
    · rw [if_neg e]
  rw [← put]
  unfold sprout
  dsimp only
  unfold read
  by_cases e : container = other
  · subst e
    rw [Nodes.put, if_pos rfl, Option.bind_some, Node.get?, Node.data_addLink]
    unfold current
    cases nodes.put id node container <;> rfl
  · rw [Nodes.put, if_neg e]

/-- A node that is made has no links of its own, whatever was there before. -/
theorem of_mem_outbound_sprout {container other : NodeId} {node : Node} {link : Link}
    (empty : node.outbound = [])
    (h : link ∈ (nodes.sprout container path id node).links .outbound other) :
    link ∈ nodes.links .outbound other ∨ container = other ∧ link = ⟨id, path⟩ := by
  unfold sprout at h
  dsimp only at h
  rw [mem_links_put_addLink, links_put] at h
  refine h.imp (fun member => ?_) fun new => ⟨new.1, new.2.2⟩
  split at member
  · rw [Node.links, empty] at member
    cases member
  · exact member

theorem mem_outbound_sprout {container other : NodeId} {node : Node} {link : Link}
    (fresh : nodes id = none) (empty : node.outbound = []) :
    link ∈ (nodes.sprout container path id node).links .outbound other ↔
      link ∈ nodes.links .outbound other ∨ (container = other ∧ link = ⟨id, path⟩) := by
  unfold sprout
  dsimp only
  rw [mem_links_put_addLink, links_put]
  refine or_congr ?_ (by simp)
  split
  · next e =>
    rw [← e, links_of_none fresh, Node.links, empty]
  · rfl

theorem Backed.sprout (h : Backed nodes) {container : NodeId} {node : Node}
    (fresh : nodes id = none) (data : node.data = none) (outbound : node.outbound = []) :
    Backed (nodes.sprout container path id node) := by
  intro other place target stored
  rw [read_sprout fresh data] at stored
  rw [mem_outbound_sprout fresh outbound]
  exact (h other place target stored).imp_left Or.inl

theorem Linked.sprout (h : Linked pending nodes) {container : NodeId} {node : Node}
    (fresh : nodes id = none) (data : node.data = none) (outbound : node.outbound = [])
    (name : ¬ Whole id) : Linked pending (nodes.sprout container path id node) := by
  refine ⟨h.stored.sprout fresh data outbound, fun other place target member whole => ?_⟩
  rw [read_sprout fresh data]
  rcases (mem_outbound_sprout fresh outbound).mp member with old | ⟨-, e⟩
  · exact h.linked other place target old whole
  · cases e
    exact absurd whole name

theorem Rooted.sprout (h : Rooted nodes) {container : NodeId} {node : Node}
    (fresh : nodes id = none) (data : node.data = none) :
    Rooted (nodes.sprout container path id node) := by
  intro other whole value stored
  rw [read_sprout fresh data] at stored
  exact h other whole value stored

/-- Other links leave what is read. -/
theorem read_put {node : Node} (same : node.data = (nodes.current id).data) (other : NodeId)
    (beside : Path) : (nodes.put id node).read other beside = nodes.read other beside := by
  unfold read Nodes.put
  by_cases e : id = other
  · subst e
    rw [if_pos rfl, Option.bind_some, Node.get?, same]
    unfold current
    cases nodes id <;> rfl
  · rw [if_neg e]

theorem read_cut (gone : NodeId → Link → Bool) (nodes : Nodes) (other : NodeId) (beside : Path) :
    (nodes.cut gone).read other beside = nodes.read other beside := by
  unfold read cut
  cases nodes other <;> rfl

theorem read_collected (nodes : Nodes) (id other : NodeId) (beside : Path) :
    (nodes.collected id).read other beside =
      if id = other then none else nodes.read other beside := by
  by_cases e : id = other
  · rw [if_pos e, ← e]
    unfold read
    rw [collected_eq_none, Option.bind_none]
  · rw [if_neg e]
    unfold read
    rw [collected_of_ne e]
    cases nodes other <;> rfl

theorem Backed.collected (h : Backed nodes) (id : NodeId) : Backed (nodes.collected id) := by
  intro other place target stored
  rw [read_collected] at stored
  rw [outbound_collected]
  split at stored
  · cases stored
  · next e =>
    rw [if_neg e]
    exact h other place target stored

/-- A node that goes takes its data and its links with it. -/
theorem Linked.collected (h : Linked pending nodes) (id : NodeId) :
    Linked pending (nodes.collected id) := by
  refine ⟨h.stored.collected id, fun other place target member whole => ?_⟩
  rw [outbound_collected] at member
  rw [read_collected]
  split at member
  · cases member
  · next e =>
    rw [if_neg e]
    exact h.linked other place target member whole

theorem Rooted.collected (h : Rooted nodes) (id : NodeId) : Rooted (nodes.collected id) := by
  intro other whole value stored
  rw [read_collected] at stored
  split at stored
  · cases stored
  · exact h other whole value stored

end Nodes

open Nodes

/-! ## Changes of references -/

namespace Draft

variable {draft : Draft} {pending later : NodeId → Path → NodeId → Prop}
  {container target : NodeId} {path : Path} {next : Option NodeId}

theorem read_link (draft : Draft) (container target other : NodeId) (path beside : Path) :
    Nodes.read (draft.link container path target).node? other beside =
      Nodes.read draft.node? other beside := by
  unfold link
  rw [nodes_update, read_put (Node.data_addLink _ _ _), nodes_update,
    read_put (Node.data_addLink _ _ _)]

theorem read_unlink (draft : Draft) (container target other : NodeId) (path beside : Path) :
    Nodes.read (draft.unlink container path target).node? other beside =
      Nodes.read draft.node? other beside := by
  rw [nodes_unlink, nodes_dropInbound, read_cut]
  unfold withoutOutbound
  rw [nodes_update, read_put (Node.data_removeLink _ _ _)]

theorem read_unlinkPrevious (draft : Draft) (container other : NodeId) (path beside : Path)
    (previous : Option NodeId) :
    Nodes.read (draft.unlinkPrevious container path previous).node? other beside =
      Nodes.read draft.node? other beside := by
  cases previous with
  | none => rfl
  | some target => exact read_unlink draft container target other path beside

theorem read_linkNext (draft : Draft) (container other : NodeId) (path beside : Path)
    (next : Option NodeId) :
    Nodes.read (draft.linkNext container path next).node? other beside =
      Nodes.read draft.node? other beside := by
  cases next with
  | none => rfl
  | some target => exact read_link draft container target other path beside

theorem read_apply_detach (draft : Draft) (container target other : NodeId) (path beside : Path) :
    Nodes.read (draft.apply (.detach container path target)).node? other beside =
      Nodes.read draft.node? other beside := read_unlink draft container target other path beside

theorem read_apply_relink (draft : Draft) (container other : NodeId) (path beside : Path)
    (next : Option NodeId) :
    Nodes.read (draft.apply (.relink container path next)).node? other beside =
      Nodes.read (Nodes.write draft.node? container path (.referring next)) other beside := by
  rw [apply_relink, read_linkNext, read_unlinkPrevious, nodes_set_write]
  rfl

/-- A change of links leaves the data of every node but its container. -/
theorem read_apply_of_ne {change : LinkChange} {other : NodeId} (apart : change.container ≠ other)
    (beside : Path) :
    Nodes.read (draft.apply change).node? other beside = Nodes.read draft.node? other beside := by
  cases change with
  | detach container path target => exact read_apply_detach draft container target other path beside
  | relink container path next =>
    exact (read_apply_relink draft container other path beside next).trans (read_write_of_ne apart)

/-- A node that is not collected keeps its data. -/
theorem read_collectOrphans (draft : Draft) {id : NodeId}
    (has : Nodes.Has draft.collectOrphans.node? id) (path : Path) :
    Nodes.read draft.collectOrphans.node? id path = Nodes.read draft.node? id path := by
  refine collectOrphans_induct (motive := fun nodes _ => nodes.Has id →
    nodes.read id path = Nodes.read draft.node? id path) ?_ ?_ draft (fun _ => rfl) has
  · exact fun _ _ _ _ kept => kept
  · intro nodes other stack more orphan removal kept has
    obtain ⟨ne, before⟩ := has_collected.mp has
    rw [read_collected, if_neg ne, kept before]

theorem mem_outbound_unlinkPrevious (draft : Draft) (container other : NodeId) (path : Path)
    (previous : Option NodeId) (found : Link) :
    found ∈ Nodes.links (draft.unlinkPrevious container path previous).node? .outbound other ↔
      found ∈ Nodes.links draft.node? .outbound other ∧
        ¬(container = other ∧ ∃ target, previous = some target ∧ found = ⟨target, path⟩) := by
  cases previous with
  | none => simp [unlinkPrevious]
  | some target =>
    show found ∈ Nodes.links (draft.unlink container path target).node? .outbound other ↔ _
    rw [mem_links_unlink]
    simp

theorem mem_outbound_linkNext (draft : Draft) (container other : NodeId) (path : Path)
    (next : Option NodeId) (found : Link) :
    found ∈ Nodes.links (draft.linkNext container path next).node? .outbound other ↔
      found ∈ Nodes.links draft.node? .outbound other ∨
        (container = other ∧ ∃ target, next = some target ∧ found = ⟨target, path⟩) := by
  cases next with
  | none => simp [linkNext]
  | some target =>
    rw [nodes_linkNext, mem_links_link]
    simp

theorem mem_outbound_apply_detach (draft : Draft) (container target other : NodeId) (path : Path)
    (found : Link) :
    found ∈ Nodes.links (draft.apply (.detach container path target)).node? .outbound other ↔
      found ∈ Nodes.links draft.node? .outbound other ∧
        ¬(container = other ∧ found = ⟨target, path⟩) := by
  refine (mem_links_unlink _ _ _ _ _ _ _).trans ?_
  simp

theorem mem_outbound_apply_relink (draft : Draft) (container other : NodeId) (path : Path)
    (next : Option NodeId) (found : Link) :
    found ∈ Nodes.links (draft.apply (.relink container path next)).node? .outbound other ↔
      (found ∈ Nodes.links draft.node? .outbound other ∧ ¬(container = other ∧
          ∃ target, draft.linkedEntity? container path = some target ∧ found = ⟨target, path⟩)) ∨
        (container = other ∧ ∃ target, next = some target ∧ found = ⟨target, path⟩) := by
  rw [apply_relink, mem_outbound_linkNext, mem_outbound_unlinkPrevious, links_set]

/-- A change of links leaves the outbound links of every node but its container. -/
theorem mem_outbound_apply_of_ne {change : LinkChange} {other : NodeId}
    (apart : change.container ≠ other) (found : Link) :
    found ∈ Nodes.links (draft.apply change).node? .outbound other ↔
      found ∈ Nodes.links draft.node? .outbound other := by
  cases change with
  | detach container path target =>
    rw [mem_outbound_apply_detach]
    exact and_iff_left fun given => apart given.1
  | relink container path next =>
    rw [mem_outbound_apply_relink, or_iff_left fun given => apart given.1]
    exact and_iff_left fun given => apart given.1

theorem Sound.isEntity (h : draft.Sound) {id : NodeId} (has : Nodes.Has draft.node? id) :
    (draft.node? id).any Node.isEntity = true ↔ Whole id := by
  obtain ⟨node, found⟩ := Option.isSome_iff_exists.mp has
  rw [found, Option.any_some, ← h.kind id node found]
  exact beq_iff_eq

theorem mem_of_linkedEntity? (linked : draft.linkedEntity? container path = some target) :
    ⟨target, path⟩ ∈ Nodes.links draft.node? .outbound container ∧
      (draft.node? target).any Node.isEntity := by
  unfold linkedEntity? at linked
  obtain ⟨node, found, linked⟩ := Option.bind_eq_some_iff.mp linked
  obtain ⟨link, held, e⟩ := Option.bind_eq_some_iff.mp linked
  cases e
  have holds := List.find?_some held
  rw [Bool.and_eq_true, decide_eq_true_eq] at holds
  refine ⟨?_, holds.2⟩
  rw [links_of_some found, ← holds.1]
  exact List.mem_of_find?_eq_some held

theorem linkedEntity?_eq_some (h : draft.Sound)
    (linked : draft.linkedEntity? container path = some target) :
    ⟨target, path⟩ ∈ Nodes.links draft.node? .outbound container ∧ Whole target := by
  obtain ⟨member, entity⟩ := mem_of_linkedEntity? linked
  exact ⟨member, (h.isEntity (has_of_mem ((h.mirrored _ _ _).mp member))).mp entity⟩

/-- Relinking is between entities, so a link to another node goes only if it is detached. -/
theorem mem_value_apply {change : LinkChange} {id : NodeId} (h : draft.Sound)
    (applicable : Applicable draft.node? change) (apart : ¬ Whole target) :
    ⟨target, path⟩ ∈ Nodes.links (draft.apply change).node? .outbound id ↔
      ⟨target, path⟩ ∈ Nodes.links draft.node? .outbound id ∧ .detach id path target ≠ change := by
  cases change with
  | detach container place other =>
    rw [mem_outbound_apply_detach]
    refine and_congr_right fun _ => not_congr ⟨?_, fun e => by cases e; exact ⟨rfl, rfl⟩⟩
    rintro ⟨rfl, e⟩
    cases e
    rfl
  | relink container place next =>
    rw [mem_outbound_apply_relink, or_iff_left]
    · refine and_congr_right fun _ => iff_of_true ?_ fun e => by cases e
      rintro ⟨-, other, previous, e⟩
      cases e
      exact apart (linkedEntity?_eq_some h previous).2
    · rintro ⟨-, other, new, e⟩
      cases e
      exact apart (applicable.2 target new)

theorem mem_value_applyAll {changes : List LinkChange} {id : NodeId} (h : draft.Sound)
    (applicable : ∀ change ∈ changes, Applicable draft.node? change) (apart : ¬ Whole target) :
    ⟨target, path⟩ ∈ Nodes.links (draft.applyAll changes).node? .outbound id ↔
      ⟨target, path⟩ ∈ Nodes.links draft.node? .outbound id ∧
        .detach id path target ∉ changes := by
  induction changes generalizing draft with
  | nil => exact (and_iff_left List.not_mem_nil).symm
  | cons change changes ih =>
    have here := applicable change List.mem_cons_self
    have later := @ih (draft.apply change) (h.apply here) fun other member =>
      (applicable other (List.mem_cons_of_mem _ member)).mono fun _ => has_apply
    rw [List.mem_cons, not_or, ← and_assoc, ← mem_value_apply h here apart]
    exact later

theorem linkedEntity?_eq_none (h : draft.Sound) (linked : draft.linkedEntity? container path = none)
    (member : ⟨target, path⟩ ∈ Nodes.links draft.node? .outbound container) : ¬ Whole target := by
  intro whole
  obtain ⟨node, found⟩ := Option.isSome_iff_exists.mp (has_of_mem member)
  rw [links_of_some found] at member
  have has : Nodes.Has draft.node? target := by
    refine has_of_mem ((h.mirrored container target path).mp ?_)
    rw [links_of_some found]
    exact member
  unfold linkedEntity? at linked
  rw [found] at linked
  have missing : node.outbound.find? (fun link => link.path = path &&
      (draft.node? link.node).any Node.isEntity) = none := by
    cases held : node.outbound.find? (fun link => link.path = path &&
      (draft.node? link.node).any Node.isEntity) with
    | none => rfl
    | some link =>
      change (List.find? _ node.outbound).bind _ = none at linked
      rw [held] at linked
      cases linked
  refine List.find?_eq_none.mp missing _ member ?_
  rw [Bool.and_eq_true, decide_eq_true_eq]
  exact ⟨rfl, (h.isEntity has).mpr whole⟩

theorem backed_apply_detach (h : Backed draft.node?)
    (gone : Nodes.read draft.node? container path ≠ some (.reference target)) :
    Backed (draft.apply (.detach container path target)).node? := by
  intro id place other stored
  rw [read_apply_detach] at stored
  rw [mem_outbound_apply_detach]
  obtain ⟨member, whole⟩ := h id place other stored
  refine ⟨⟨member, ?_⟩, whole⟩
  intro given
  obtain ⟨rfl, e⟩ := given
  cases e
  exact gone stored

theorem linked_apply_detach (h : Nodes.Linked pending draft.node?)
    (gone : Nodes.read draft.node? container path ≠ some (.reference target))
    (done : ∀ id place other, pending id place other →
      later id place other ∨ (id = container ∧ place = path ∧ other = target)) :
    Nodes.Linked later (draft.apply (.detach container path target)).node? := by
  refine ⟨backed_apply_detach h.stored gone, fun id place other member whole => ?_⟩
  rw [mem_outbound_apply_detach] at member
  rw [read_apply_detach]
  refine (h.linked id place other member.1 whole).imp_right fun waiting => ?_
  refine (done id place other waiting).resolve_right ?_
  intro given
  obtain ⟨rfl, rfl, rfl⟩ := given
  exact member.2 ⟨rfl, rfl⟩

/-- Where a reference is replaced, the new one is the only one that comes. -/
theorem reference_of_apply_relink {id : NodeId} {place : Path}
    (stored : Nodes.read (draft.apply (.relink container path next)).node? id place =
      some (.reference target)) :
    (id = container ∧ place = path ∧ next = some target) ∨
      (¬ (container = id ∧ path = place) ∧
        Nodes.read draft.node? id place = some (.reference target)) := by
  rw [read_apply_relink] at stored
  by_cases e : container = id
  · subst e
    rcases Path.cases path place with ⟨rest, rfl⟩ | ⟨step, rest, rfl⟩ | apart
    · rw [read_write_append] at stored
      cases rest with
      | nil =>
        cases next with
        | none => cases stored
        | some other =>
          cases stored
          exact Or.inl ⟨rfl, List.append_nil path, rfl⟩
      | cons step rest => cases next <;> cases step <;> cases stored
    · exact absurd stored (read_write_above_ne _ _ _ step rest _ target)
    · rcases of_read_write apart stored with old | ⟨null, -⟩
      · exact Or.inr ⟨fun same => apart.1 (same.2 ▸ List.prefix_refl _), old⟩
      · cases null
  · rw [read_write_of_ne e] at stored
    exact Or.inr ⟨fun same => e same.1, stored⟩

theorem backed_apply_relink (h : Backed draft.node?) (whole : ∀ id, next = some id → Whole id) :
    Backed (draft.apply (.relink container path next)).node? := by
  intro id place other stored
  rw [mem_outbound_apply_relink]
  rcases reference_of_apply_relink stored with ⟨rfl, rfl, rfl⟩ | ⟨elsewhere, old⟩
  · exact ⟨Or.inr ⟨rfl, other, rfl, rfl⟩, whole other rfl⟩
  · refine (h id place other old).imp_left fun member => Or.inl ⟨member, ?_⟩
    rintro ⟨rfl, found, -, e⟩
    cases e
    exact elsewhere ⟨rfl, rfl⟩

/-- The entity that is referred to at a place is the one that is linked there. -/
theorem linkedEntity?_of_stored (sound : draft.Sound) (h : Nodes.Linked pending draft.node?)
    (free : ∀ target, ¬ pending container path target)
    (old : ⟨target, path⟩ ∈ Nodes.links draft.node? .outbound container) (name : Whole target)
    (stored : Nodes.read draft.node? container path = some (.reference target)) :
    draft.linkedEntity? container path = some target := by
  cases found : draft.linkedEntity? container path with
  | none => exact absurd name (linkedEntity?_eq_none sound found old)
  | some other =>
    obtain ⟨linked, wholeOther⟩ := linkedEntity?_eq_some sound found
    rcases h.linked container path other linked wholeOther with held | waiting
    · rw [stored] at held
      cases held
      rfl
    · exact absurd waiting (free other)

/-- The reference at a place is replaced together with its link. -/
theorem linked_apply_relink (sound : draft.Sound) (h : Nodes.Linked pending draft.node?)
    (bears : Nodes.Bears draft.node? container path)
    (flat : ∀ value, Nodes.read draft.node? container path = some value →
      value = .null ∨ ∃ id, value = .reference id)
    (free : ∀ target, ¬ pending container path target)
    (whole : ∀ id, next = some id → Whole id) :
    Nodes.Linked pending (draft.apply (.relink container path next)).node? := by
  have below : ∀ step rest target,
      Nodes.read draft.node? container (path ++ step :: rest) ≠ some (.reference target) := by
    intro step rest target stored
    rw [read_append] at stored
    obtain ⟨value, held, stored⟩ := Option.bind_eq_some_iff.mp stored
    rcases flat value held with rfl | ⟨id, rfl⟩ <;> cases step <;> cases stored
  refine ⟨backed_apply_relink h.stored whole, ?_⟩
  intro id place target member name
  rw [read_apply_relink]
  rcases (mem_outbound_apply_relink _ _ _ _ _ _).mp member with ⟨old, kept⟩ | ⟨rfl, other, rfl, e⟩
  · rcases h.linked id place target old name with stored | waiting
    · by_cases e : container = id
      · subst e
        rcases Path.cases path place with ⟨rest, rfl⟩ | ⟨step, rest, rfl⟩ | apart
        · cases rest with
          | nil =>
            rw [List.append_nil] at stored old kept
            have here := linkedEntity?_of_stored sound h free old name stored
            exact absurd ⟨rfl, target, here, rfl⟩ kept
          | cons step rest => exact absurd stored (below step rest target)
        · exact absurd stored (bears.not_reference rfl)
        · exact Or.inl (read_write_apart bears apart stored)
      · rw [read_write_of_ne e]
        exact Or.inl stored
    · exact Or.inr waiting
  · cases e
    exact Or.inl (read_write_self _ _ _ _)

end Draft
end ResponseGraph
