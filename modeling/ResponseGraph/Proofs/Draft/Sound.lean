import ResponseGraph.Proofs.Draft.Links
import ResponseGraph.Proofs.NodeId.Parts

/-!
Sound nodes.

Nodes are sound when every reference has both of its ends, no list of links holds a link
twice, and exactly the ids without a separator are entities.  An id with a separator
belongs to the value of a field with arguments: it is linked from the place that the
id tells, and some place links it.  While links are being changed a node may stand
without inbound links for a while, and then its id is among those `pending`.

Every change of a draft keeps its nodes sound, in the order in which a merge makes
them: links come and go (`Draft.Sound.apply`), and then the nodes that lost their
last inbound link are removed (`Draft.Sound.collectOrphans`), after which none is
pending.
-/

namespace ResponseGraph

open NodeId (Whole)

namespace Nodes

/-- Both ends of every link are there. -/
def Mirrored (nodes : Nodes) : Prop := ∀ container target path,
  ⟨target, path⟩ ∈ nodes.links .outbound container ↔
    ⟨container, path⟩ ∈ nodes.links .inbound target

/-- Each node by itself is as it should be. -/
structure Proper (nodes : Nodes) : Prop where
  distinct : ∀ direction id, (nodes.links direction id).Nodup
  kind : ∀ id node, nodes id = some node → (node.kind = .entity ↔ Whole id)

structure Sound (pending : NodeId → Prop) (nodes : Nodes) : Prop extends Proper nodes where
  mirrored : ∀ container target path,
    ⟨target, path⟩ ∈ nodes.links .outbound container ↔
      ⟨container, path⟩ ∈ nodes.links .inbound target
  addressed : ∀ container target path, ⟨target, path⟩ ∈ nodes.links .outbound container →
    ¬ Whole target → ∃ arguments, NodeId.parameterized container path arguments = .ok target
  anchored : ∀ id, nodes.Has id → ¬ Whole id → pending id ∨ nodes.links .inbound id ≠ []

/-- The id has a node, or the node that is made for it is an entity as it should be. -/
def Seated (nodes : Nodes) (id : NodeId) : Prop := Whole id ∨ nodes.Has id

theorem Seated.mono {nodes more : Nodes} (h : ∀ id, nodes.Has id → more.Has id) {id : NodeId}
    (seated : nodes.Seated id) : more.Seated id := seated.imp_right (h id)

variable {nodes : Nodes} {pending : NodeId → Prop}

theorem Proper.kind_current (h : Proper nodes) {id : NodeId} (seated : nodes.Seated id) :
    (nodes.current id).kind = .entity ↔ Whole id := by
  unfold current
  cases found : nodes id with
  | none =>
    have whole : Whole id := seated.resolve_right fun has => by simp [Has, found] at has
    exact ⟨fun _ => whole, fun _ => rfl⟩
  | some node => exact h.kind id node found

theorem Proper.distinct_current (h : Proper nodes) (id : NodeId) (direction : Direction) :
    ((nodes.current id).links direction).Nodup := by
  rw [links_current]
  exact h.distinct direction id

theorem Proper.put (h : Proper nodes) {id : NodeId} {node : Node}
    (distinct : ∀ direction, (node.links direction).Nodup)
    (kind : node.kind = .entity ↔ Whole id) : Proper (nodes.put id node) := by
  constructor
  · intro direction other
    rw [links_put]
    split
    · exact distinct direction
    · exact h.distinct direction other
  · intro other found lookup
    unfold Nodes.put at lookup
    split at lookup
    · next e =>
      cases lookup
      exact e ▸ kind
    · exact h.kind other found lookup

theorem Proper.put_addLink (h : Proper nodes) {id : NodeId} (seated : nodes.Seated id)
    (direction : Direction) (link : Link) :
    Proper (nodes.put id ((nodes.current id).addLink direction link)) :=
  h.put (Node.nodup_addLink (h.distinct_current id) direction link)
    (by rw [Node.kind_addLink]; exact h.kind_current seated)

theorem Proper.put_removeLink (h : Proper nodes) {id : NodeId} (seated : nodes.Seated id)
    (direction : Direction) (link : Link) :
    Proper (nodes.put id ((nodes.current id).removeLink direction link)) :=
  h.put (Node.nodup_removeLink (h.distinct_current id) direction link)
    (by rw [Node.kind_removeLink]; exact h.kind_current seated)

theorem Sound.mono {more : NodeId → Prop} (h : Sound pending nodes)
    (weaker : ∀ id, pending id → more id) : Sound more nodes :=
  { h with anchored := fun id has name => (h.anchored id has name).imp_left (weaker id) }

/-- A node gives way to one with the same links and a fitting kind. -/
theorem Sound.put_same (h : Sound pending nodes) {id : NodeId} {node : Node}
    (seated : nodes.Seated id) (links : ∀ way, node.links way = nodes.links way id)
    (kind : node.kind = .entity ↔ Whole id) : Sound pending (nodes.put id node) := by
  have same := fun way other => links_put_of_same links way other
  have distinct : ∀ way, (node.links way).Nodup := fun way => (links way).symm ▸ h.distinct way id
  refine ⟨h.toProper.put distinct kind, ?_, ?_, ?_⟩
  · intro container target path
    rw [same, same]
    exact h.mirrored container target path
  · intro container target path
    rw [same]
    exact h.addressed container target path
  · intro other has name
    rw [same]
    refine h.anchored other ?_ name
    rcases has_put.mp has with rfl | has
    · exact seated.resolve_left name
    · exact has

/-- A reference is added at both of its ends. -/
theorem Sound.of_added {more : Nodes} (h : Sound pending nodes) (container target : NodeId)
    (path : Path)
    (edges : ∀ way other found, found ∈ more.links way other ↔ found ∈ nodes.links way other ∨
      (container = other ∧ .outbound = way ∧ found = ⟨target, path⟩) ∨
      (target = other ∧ .inbound = way ∧ found = ⟨container, path⟩))
    (proper : Proper more) (has : ∀ id, more.Has id → id = target ∨ nodes.Seated id)
    (address : ¬ Whole target →
      ∃ arguments, NodeId.parameterized container path arguments = .ok target) :
    Sound pending more := by
  refine ⟨proper, ?_, ?_, ?_⟩
  · intro c t p
    rw [edges, edges, h.mirrored]
    simp only [Link.mk.injEq, true_and, reduceCtorEq, false_and, and_false, or_false,
      false_or]
    constructor
    · intro given
      rcases given with old | ⟨rfl, rfl, rfl⟩
      · exact Or.inl old
      · exact Or.inr ⟨rfl, rfl, rfl⟩
    · intro given
      rcases given with old | ⟨rfl, rfl, rfl⟩
      · exact Or.inl old
      · exact Or.inr ⟨rfl, rfl, rfl⟩
  · intro c t p member name
    rcases (edges _ _ _).mp member with old | ⟨rfl, -, e⟩ | ⟨-, e, -⟩
    · exact h.addressed c t p old name
    · cases e
      exact address name
    · cases e
  · intro id present name
    rcases has id present with rfl | seated
    · have member := (edges .inbound id ⟨container, path⟩).mpr (Or.inr (Or.inr ⟨rfl, rfl, rfl⟩))
      exact Or.inr (List.ne_nil_of_mem member)
    · refine (h.anchored id (seated.resolve_left name) name).imp_right fun some => ?_
      obtain ⟨link, member⟩ := List.exists_mem_of_ne_nil _ some
      exact List.ne_nil_of_mem ((edges _ _ _).mpr (Or.inl member))

/-- A node under the id of a field that its container does not link does not exist. -/
theorem Sound.eq_none_of_not_linked (h : Sound (fun _ => False) nodes) {container id : NodeId}
    {path : Path} {arguments : Arguments}
    (address : NodeId.parameterized container path arguments = .ok id)
    (fresh : ⟨id, path⟩ ∉ nodes.links .outbound container) : nodes id = none := by
  cases found : nodes id with
  | none => rfl
  | some node =>
    have name := NodeId.not_whole_of_parameterized address
    have some := (h.anchored id (has_of_some found) name).resolve_left fun pending => pending
    obtain ⟨⟨source, place⟩, inbound⟩ := List.exists_mem_of_ne_nil _ some
    have outbound := (h.mirrored source id place).mpr inbound
    obtain ⟨others, same⟩ := h.addressed source id place outbound name
    obtain ⟨rfl, rfl⟩ := NodeId.parameterized_inj address same
    exact absurd outbound fresh

/-- The node of a field with arguments is made and linked. -/
theorem Sound.create (h : Sound (fun _ => False) nodes) {container id : NodeId} {path : Path}
    {arguments : Arguments} {node : Node}
    (address : NodeId.parameterized container path arguments = .ok id)
    (fresh : ⟨id, path⟩ ∉ nodes.links .outbound container) (seated : nodes.Seated container)
    (inbound : node.inbound = [⟨container, path⟩]) (outbound : node.outbound = [])
    (kind : node.kind = .parameterized) :
    Sound (fun _ => False) (nodes.sprout container path id node) := by
  unfold sprout
  have missing := h.eq_none_of_not_linked address fresh
  have name := NodeId.not_whole_of_parameterized address
  have apart : id ≠ container := NodeId.parameterized_ne_container address
  have distinct : ∀ way, (node.links way).Nodup := by
    intro way
    cases way
    · simp [Node.links, inbound]
    · simp [Node.links, outbound]
  have proper := h.toProper.put distinct (by simp [kind, name] : node.kind = .entity ↔ Whole id)
  refine h.of_added container id path ?_ ?_ ?_ fun _ => ⟨arguments, address⟩
  · intro way other found
    rw [mem_links_put_addLink, links_put]
    by_cases e : id = other
    · subst e
      rw [if_pos rfl, links_of_none missing]
      cases way <;> simp [Node.links, inbound, outbound, Ne.symm apart]
    · rw [if_neg e]
      simp [e, eq_comm]
  · exact proper.put_addLink (seated.mono fun _ has => has_put.mpr (Or.inr has)) _ _
  · intro other has
    rcases has_put.mp has with rfl | has
    · exact Or.inr seated
    · exact (has_put.mp has).imp Eq.symm Or.inr

end Nodes

open Nodes

/-! ## Changes of links -/

namespace LinkChange

/-- The node at which a link changes. -/
def container : LinkChange → NodeId
  | .detach container _ _ => container
  | .relink container _ _ => container

end LinkChange

namespace Draft

/-- The nodes of a draft are sound but for its orphans. -/
def Sound (draft : Draft) : Prop := Nodes.Sound (fun id => draft.orphans.contains id) draft.node?

theorem mem_links_link (draft : Draft) (container target other : NodeId) (path : Path)
    (way : Direction) (found : Link) :
    found ∈ Nodes.links (draft.link container path target).node? way other ↔
      found ∈ Nodes.links draft.node? way other ∨
        (container = other ∧ .outbound = way ∧ found = ⟨target, path⟩) ∨
        (target = other ∧ .inbound = way ∧ found = ⟨container, path⟩) := by
  unfold link
  rw [nodes_update, mem_links_put_addLink, nodes_update, mem_links_put_addLink, or_assoc]

theorem has_link (draft : Draft) (container target other : NodeId) (path : Path) :
    Nodes.Has (draft.link container path target).node? other ↔
      target = other ∨ container = other ∨ Nodes.Has draft.node? other := by
  unfold link
  rw [nodes_update, has_put, nodes_update, has_put]

theorem Sound.link {draft : Draft} {container target : NodeId} {path : Path} (h : draft.Sound)
    (seated : Seated draft.node? container) (whole : Whole target) :
    (draft.link container path target).Sound := by
  refine Nodes.Sound.of_added h container target path
    (fun way other found => mem_links_link draft container target other path way found) ?_ ?_
    fun name => absurd whole name
  · unfold Draft.link
    rw [nodes_update, nodes_update]
    exact (h.toProper.put_addLink seated _ _).put_addLink (Or.inl whole) _ _
  · intro id has
    rcases (has_link _ _ _ _ _).mp has with rfl | rfl | has
    · exact Or.inl rfl
    · exact Or.inr seated
    · exact Or.inr (Or.inr has)

theorem Sound.of_orphans {draft : Draft} (h : draft.Sound) (orphans : NameSet)
    (more : ∀ id, ¬ Whole id → draft.orphans.contains id → orphans.contains id) :
    ({ draft with orphans } : Draft).Sound :=
  { h with
    anchored := fun id has name => (h.anchored id has name).imp_left (more id name) }

theorem proper_dropInbound {draft : Draft} (h : Proper draft.node?) (container target : NodeId)
    (path : Path) : Proper (draft.dropInbound container path target).1.node? := by
  unfold dropInbound
  split
  · exact h
  · next node present =>
    rw [nodes_put, ← current_of_some present]
    exact h.put_removeLink (Or.inr (has_of_some present)) _ _

theorem orphans_dropInbound (draft : Draft) (container target : NodeId) (path : Path) :
    (draft.dropInbound container path target).1.orphans = draft.orphans := by
  unfold dropInbound
  split <;> rfl

/-- The outbound end of a reference goes first. -/
def withoutOutbound (draft : Draft) (container : NodeId) (path : Path) (target : NodeId) : Draft :=
  draft.update container fun node => node.removeLink .outbound ⟨target, path⟩

theorem nodes_unlink (draft : Draft) (container target : NodeId) (path : Path) :
    (draft.unlink container path target).node? =
      Draft.node? ((draft.withoutOutbound container path target).dropInbound container path
        target).1 := by
  unfold unlink withoutOutbound
  dsimp only
  split <;> rfl

theorem mem_links_unlink (draft : Draft) (container target other : NodeId) (path : Path)
    (way : Direction) (found : Link) :
    found ∈ Nodes.links (draft.unlink container path target).node? way other ↔
      found ∈ Nodes.links draft.node? way other ∧
        ¬(container = other ∧ .outbound = way ∧ found = ⟨target, path⟩) ∧
        ¬(target = other ∧ .inbound = way ∧ found = ⟨container, path⟩) := by
  rw [nodes_unlink, mem_links_dropInbound]
  unfold withoutOutbound
  rw [nodes_update, mem_links_put_removeLink, and_assoc]

theorem has_unlink (draft : Draft) (container target other : NodeId) (path : Path) :
    Nodes.Has (draft.unlink container path target).node? other ↔
      container = other ∨ Nodes.Has draft.node? other := by
  rw [nodes_unlink, has_dropInbound]
  unfold withoutOutbound
  rw [nodes_update, has_put]

/-- A target that is left without inbound links becomes an orphan. -/
theorem contains_orphans_unlink (draft : Draft) (container target id : NodeId) (path : Path) :
    (draft.unlink container path target).orphans.contains id ↔
      draft.orphans.contains id ∨
        (target = id ∧ Nodes.Has (draft.unlink container path target).node? id ∧
          Nodes.links (draft.unlink container path target).node? .inbound id = []) := by
  have reported := dropInbound_snd (draft.withoutOutbound container path target) container target
    path
  have orphans := orphans_dropInbound (draft.withoutOutbound container path target) container target
    path
  have kept : (draft.withoutOutbound container path target).orphans = draft.orphans := rfl
  rw [← has_dropInbound _ container target, ← nodes_unlink] at reported
  have unfolded : (draft.unlink container path target).orphans =
      if ((draft.withoutOutbound container path target).dropInbound container path target).2
      then draft.orphans.add target else draft.orphans := by
    rw [← kept, ← orphans]
    unfold unlink withoutOutbound
    dsimp only
    split <;> rfl
  rw [unfolded]
  split
  · next orphaned =>
    rw [NameSet.contains_add, Bool.or_eq_true, decide_eq_true_eq, or_comm]
    refine or_congr_right ⟨fun e => ⟨e, ?_⟩, And.left⟩
    exact e ▸ reported.mp orphaned
  · next kept =>
    refine (or_iff_left ?_).symm
    intro h
    obtain ⟨rfl, orphaned⟩ := h
    exact kept (reported.mpr orphaned)

theorem Sound.unlink {draft : Draft} {container target : NodeId} {path : Path} (h : draft.Sound)
    (seated : Seated draft.node? container) : (draft.unlink container path target).Sound := by
  have edges := fun other way found => mem_links_unlink draft container target other path way found
  refine ⟨?_, ?_, ?_, ?_⟩
  · rw [nodes_unlink]
    refine proper_dropInbound ?_ container target path
    unfold withoutOutbound
    rw [nodes_update]
    exact h.toProper.put_removeLink seated _ _
  · intro c t p
    rw [edges, edges, h.mirrored]
    simp only [Link.mk.injEq, reduceCtorEq, false_and, and_false, not_false_eq_true, and_true,
      true_and]
    refine and_congr_right fun _ => not_congr ?_
    constructor
    · intro given
      obtain ⟨rfl, rfl, rfl⟩ := given
      exact ⟨rfl, rfl, rfl⟩
    · intro given
      obtain ⟨rfl, rfl, rfl⟩ := given
      exact ⟨rfl, rfl, rfl⟩
  · intro c t p member
    exact h.addressed c t p ((edges _ _ _).mp member).1
  · intro id has name
    rw [contains_orphans_unlink]
    by_cases none : Nodes.links (draft.unlink container path target).node? .inbound id = []
    · by_cases same : target = id
      · exact Or.inl (Or.inr ⟨same, has, none⟩)
      · have before : Nodes.Has draft.node? id := by
          rcases (has_unlink _ _ _ _ _).mp has with rfl | before
          · exact seated.resolve_left name
          · exact before
        refine Or.inl (Or.inl ((h.anchored id before name).resolve_right fun some => ?_))
        obtain ⟨link, member⟩ := List.exists_mem_of_ne_nil _ some
        have stays : link ∈ Nodes.links (draft.unlink container path target).node? .inbound id :=
          (edges _ _ _).mpr ⟨member, by simp, by simp [same]⟩
        rw [none] at stays
        cases stays
    · exact Or.inr none

theorem Sound.set {draft : Draft} {id : NodeId} (h : draft.Sound) (seated : Seated draft.node? id)
    (path : Path) (value : Value) : (draft.set id path value).Sound := by
  have links : ∀ way, ((Nodes.current draft.node? id).set path value).links way =
      Nodes.links draft.node? way id := by
    intro way
    rw [← links_current]
    cases way <;> rfl
  have nodes := Nodes.Sound.put_same h seated links (h.toProper.kind_current seated)
  rw [← nodes_set] at nodes
  exact nodes

/-- What a change needs of the nodes it is applied to. -/
def Applicable (nodes : Nodes) : LinkChange → Prop
  | .detach container _ _ => Seated nodes container
  | .relink container _ next => Seated nodes container ∧ ∀ id, next = some id → Whole id

theorem has_set (draft : Draft) (id other : NodeId) (path : Path) (value : Value) :
    Nodes.Has (draft.set id path value).node? other ↔ id = other ∨ Nodes.Has draft.node? other := by
  rw [nodes_set, has_put]

/-- The place no longer refers to what it referred to. -/
def unlinkPrevious (draft : Draft) (container : NodeId) (path : Path) : Option NodeId → Draft
  | some target => draft.unlink container path target
  | none => draft

/-- The place refers to an entity, which is no orphan. -/
def linkNext (draft : Draft) (container : NodeId) (path : Path) : Option NodeId → Draft
  | some target =>
    let draft := draft.link container path target
    { draft with orphans := draft.orphans.erase target }
  | none => draft

theorem apply_relink (draft : Draft) (container : NodeId) (path : Path) (next : Option NodeId) :
    draft.apply (.relink container path next) =
      ((draft.set container path ((next.map Value.reference).getD .null)).unlinkPrevious container
        path (draft.linkedEntity? container path)).linkNext container path next := by
  cases previous : draft.linkedEntity? container path <;> cases next <;>
    simp only [apply, unlinkPrevious, linkNext, previous]

theorem Sound.unlinkPrevious {draft : Draft} {container : NodeId} {path : Path} (h : draft.Sound)
    (seated : Seated draft.node? container) (previous : Option NodeId) :
    (draft.unlinkPrevious container path previous).Sound := by
  cases previous with
  | none => exact h
  | some target => exact h.unlink seated

theorem has_unlinkPrevious {draft : Draft} {container : NodeId} {path : Path}
    {previous : Option NodeId} {id : NodeId} (has : Nodes.Has draft.node? id) :
    Nodes.Has (draft.unlinkPrevious container path previous).node? id := by
  cases previous with
  | none => exact has
  | some target => exact (has_unlink _ _ _ _ _).mpr (Or.inr has)

theorem Sound.linkNext {draft : Draft} {container : NodeId} {path : Path} (h : draft.Sound)
    (seated : Seated draft.node? container) {next : Option NodeId}
    (whole : ∀ id, next = some id → Whole id) : (draft.linkNext container path next).Sound := by
  cases next with
  | none => exact h
  | some target =>
    have wholeTarget := whole target rfl
    refine (h.link seated wholeTarget).of_orphans _ fun id name orphan => ?_
    have apart : target ≠ id := fun e => name (e ▸ wholeTarget)
    rw [Table.contains, Table.get?_erase, if_neg apart]
    exact orphan

theorem Sound.apply {draft : Draft} {change : LinkChange} (h : draft.Sound)
    (applicable : Applicable draft.node? change) : (draft.apply change).Sound := by
  cases change with
  | detach container path target => exact h.unlink applicable
  | relink container path next =>
    obtain ⟨seated, whole⟩ := applicable
    rw [apply_relink]
    have written : Seated (draft.set container path ((next.map Value.reference).getD .null)).node?
        container := Seated.mono (fun id has => (has_set _ _ _ _ _).mpr (Or.inr has)) seated
    have unlinked : Seated ((draft.set container path _).unlinkPrevious container path
        (draft.linkedEntity? container path)).node? container :=
      Seated.mono (fun _ => has_unlinkPrevious) written
    exact ((h.set seated path _).unlinkPrevious written _).linkNext unlinked whole

theorem nodes_linkNext (draft : Draft) (container target : NodeId) (path : Path) :
    (draft.linkNext container path (some target)).node? =
      (draft.link container path target).node? :=
  rfl

theorem has_linkNext {draft : Draft} {container : NodeId} {path : Path} {next : Option NodeId}
    {id : NodeId} (has : Nodes.Has draft.node? id) :
    Nodes.Has (draft.linkNext container path next).node? id := by
  cases next with
  | none => exact has
  | some target =>
    rw [nodes_linkNext, has_link]
    exact Or.inr (Or.inr has)

theorem has_apply {draft : Draft} {change : LinkChange} {id : NodeId}
    (has : Nodes.Has draft.node? id) : Nodes.Has (draft.apply change).node? id := by
  cases change with
  | detach container path target => exact (has_unlink _ _ _ _ _).mpr (Or.inr has)
  | relink container path next =>
    rw [apply_relink]
    refine has_linkNext (has_unlinkPrevious ?_)
    rw [has_set]
    exact Or.inr has

theorem has_applyAll {draft : Draft} {changes : List LinkChange} {id : NodeId}
    (has : Nodes.Has draft.node? id) :
    Nodes.Has (draft.applyAll changes).node? id := by
  induction changes generalizing draft with
  | nil => exact has
  | cons change changes ih => exact ih (has_apply has)

/-- The container of a place that is relinked is made if it is missing. -/
theorem has_applyAll_of_relink {draft : Draft} {changes : List LinkChange} {id : NodeId}
    {path : Path} {next : Option NodeId} (member : .relink id path next ∈ changes) :
    Nodes.Has (draft.applyAll changes).node? id := by
  induction changes generalizing draft with
  | nil => cases member
  | cons change changes ih =>
    rcases List.mem_cons.mp member with rfl | later
    · have now : Nodes.Has (draft.apply (.relink id path next)).node? id := by
        rw [apply_relink]
        exact has_linkNext (has_unlinkPrevious (by simp [has_set]))
      exact @has_applyAll _ changes _ now
    · exact ih later

theorem Applicable.mono {nodes more : Nodes} (h : ∀ id, nodes.Has id → more.Has id)
    {change : LinkChange} (applicable : Applicable nodes change) : Applicable more change := by
  cases change with
  | detach container path target => exact Seated.mono h applicable
  | relink container path next => exact ⟨Seated.mono h applicable.1, applicable.2⟩

theorem Sound.applyAll {draft : Draft} {changes : List LinkChange} (h : draft.Sound)
    (applicable : ∀ change ∈ changes, Applicable draft.node? change) :
    (draft.applyAll changes).Sound := by
  induction changes generalizing draft with
  | nil => exact h
  | cons change changes ih =>
    refine ih (h.apply (applicable change List.mem_cons_self)) fun other member => ?_
    exact (applicable other (List.mem_cons_of_mem _ member)).mono fun _ => has_apply

end Draft
end ResponseGraph
