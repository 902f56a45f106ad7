import Mathlib.Data.List.Induction
import ResponseGraph.Proofs.Draft.Linked

/-!
One entity at each place.

A node may link an entity and the value of a field with arguments from one path, but it never
links two entities from one.  So whoever relinks a place takes away what was linked there, and of
all changes of a place the last one decides what is stored and linked (`applyAll_decides`).
-/

namespace ResponseGraph

open Nodes NodeId

/-- No node links two entities from one path. -/
def Nodes.Single (nodes : Nodes) : Prop :=
  ∀ id path target other, Whole target → Whole other → ⟨target, path⟩ ∈ nodes.links .outbound id →
    ⟨other, path⟩ ∈ nodes.links .outbound id → target = other

theorem Nodes.Single.of_subset {nodes more : Nodes} (h : nodes.Single)
    (within : ∀ id path target, Whole target → ⟨target, path⟩ ∈ more.links .outbound id →
      ⟨target, path⟩ ∈ nodes.links .outbound id) : more.Single :=
  fun id path target other whole wholeOther member member' =>
    h id path target other whole wholeOther (within id path target whole member)
      (within id path other wholeOther member')

/-- What the change makes of the reference at the place. -/
def LinkChange.next? (container : NodeId) (path : Path) : LinkChange → Option (Option NodeId)
  | .relink id place next => if id = container ∧ place = path then some next else none
  | .detach _ _ _ => none

/-- The change leaves the member of a node, or it is a change of the reference there. -/
def LinkChange.Minds (container : NodeId) (name : String) : LinkChange → Prop
  | .relink id place _ => id = container → place = [.key name] ∨
      ∃ other rest, place = .key other :: rest ∧ other ≠ name
  | .detach id place _ => id = container → place ≠ [.key name]

namespace Draft

variable {draft : Draft} {container id target : NodeId} {path place : Path} {next : Option NodeId}
  {change : LinkChange} {changes : List LinkChange} {name : String}

/-- Where a place is relinked, the next entity is the only one that is linked. -/
theorem mem_entity_apply_relink (sound : draft.Sound) (single : Nodes.Single draft.node?)
    (whole : Whole target) :
    ⟨target, path⟩ ∈
        Nodes.links (draft.apply (.relink container path next)).node? .outbound container ↔
      next = some target := by
  rw [mem_outbound_apply_relink]
  constructor
  · rintro (⟨old, kept⟩ | ⟨-, other, rfl, e⟩)
    · cases previous : draft.linkedEntity? container path with
      | none => exact absurd whole (linkedEntity?_eq_none sound previous old)
      | some other =>
        obtain ⟨linked, wholeOther⟩ := linkedEntity?_eq_some sound previous
        obtain rfl := single container path target other whole wholeOther old linked
        exact absurd ⟨rfl, target, previous, rfl⟩ kept
    · cases e
      rfl
  · rintro rfl
    exact Or.inr ⟨rfl, target, rfl, rfl⟩

/-- At every other place the links stay. -/
theorem mem_outbound_apply_relink_of_ne (apart : ¬ (container = id ∧ path = place)) :
    ⟨target, place⟩ ∈ Nodes.links (draft.apply (.relink container path next)).node? .outbound id ↔
      ⟨target, place⟩ ∈ Nodes.links draft.node? .outbound id := by
  rw [mem_outbound_apply_relink]
  constructor
  · rintro (⟨old, -⟩ | ⟨rfl, other, -, e⟩)
    · exact old
    · cases e
      exact absurd ⟨rfl, rfl⟩ apart
  · intro old
    refine Or.inl ⟨old, ?_⟩
    rintro ⟨rfl, other, -, e⟩
    cases e
    exact apart ⟨rfl, rfl⟩

theorem Single.apply (sound : draft.Sound) (single : Nodes.Single draft.node?) :
    Nodes.Single (draft.apply change).node? := by
  cases change with
  | detach container path target =>
    refine single.of_subset fun id place other _ member => ?_
    exact ((mem_outbound_apply_detach _ _ _ _ _ _).mp member).1
  | relink container path next =>
    intro id place target other whole wholeOther member member'
    by_cases same : container = id ∧ path = place
    · obtain ⟨rfl, rfl⟩ := same
      rw [mem_entity_apply_relink sound single whole] at member
      rw [mem_entity_apply_relink sound single wholeOther, member] at member'
      exact Option.some.inj member'
    · rw [mem_outbound_apply_relink_of_ne same] at member member'
      exact single id place target other whole wholeOther member member'

theorem Single.applyAll (sound : draft.Sound)
    (applicable : ∀ change ∈ changes, Applicable draft.node? change)
    (single : Nodes.Single draft.node?) : Nodes.Single (draft.applyAll changes).node? := by
  induction changes generalizing draft with
  | nil => exact single
  | cons change changes ih =>
    refine ih (sound.apply (applicable change List.mem_cons_self)) (fun other member => ?_)
      (Single.apply sound single)
    exact (applicable other (List.mem_cons_of_mem _ member)).mono fun _ => has_apply

theorem Single.collectOrphans (single : Nodes.Single draft.node?) :
    Nodes.Single draft.collectOrphans.node? :=
  single.of_subset fun _ _ _ _ member => outbound_collectOrphans _ (has_of_mem member) ▸ member

/-- A change that is not one of the reference at the member leaves what is stored there. -/
theorem read_apply_of_minds (minds : change.Minds container name)
    (other : change.next? container [.key name] = none) :
    Nodes.read (draft.apply change).node? container [.key name] =
      Nodes.read draft.node? container [.key name] := by
  cases change with
  | detach id place target => exact read_apply_detach ..
  | relink id place next =>
    rw [read_apply_relink]
    by_cases same : id = container
    · subst same
      rcases minds rfl with rfl | ⟨key, rest, rfl, ne⟩
      · rw [LinkChange.next?, if_pos ⟨rfl, rfl⟩] at other
        cases other
      · exact read_write_member ne
    · exact read_write_of_ne same

theorem mem_outbound_apply_of_minds (minds : change.Minds container name)
    (other : change.next? container [.key name] = none) :
    ⟨target, [.key name]⟩ ∈ Nodes.links (draft.apply change).node? .outbound container ↔
      ⟨target, [.key name]⟩ ∈ Nodes.links draft.node? .outbound container := by
  cases change with
  | detach id place gone =>
    rw [mem_outbound_apply_detach]
    refine and_iff_left ?_
    rintro ⟨same, e⟩
    cases e
    exact minds same rfl
  | relink id place next =>
    refine mem_outbound_apply_relink_of_ne fun same => ?_
    rw [LinkChange.next?, if_pos same] at other
    cases other

theorem applyAll_append (draft : Draft) (changes : List LinkChange) (change : LinkChange) :
    draft.applyAll (changes ++ [change]) = (draft.applyAll changes).apply change :=
  List.foldl_append

/-- Of all changes of the reference at a member of a node, the last one decides what is stored
there and which entity is linked. -/
theorem applyAll_decides (sound : draft.Sound) (single : Nodes.Single draft.node?)
    (applicable : ∀ change ∈ changes, Applicable draft.node? change)
    (minds : ∀ change ∈ changes, change.Minds container name) :
    Nodes.read (draft.applyAll changes).node? container [.key name] =
        (changes.filterMap (LinkChange.next? container [.key name])).getLast?.elim
          (Nodes.read draft.node? container [.key name]) (fun next => some (.referring next)) ∧
      ∀ target, Whole target →
        (⟨target, [.key name]⟩ ∈
            Nodes.links (draft.applyAll changes).node? .outbound container ↔
          (changes.filterMap (LinkChange.next? container [.key name])).getLast?.elim
            (⟨target, [.key name]⟩ ∈ Nodes.links draft.node? .outbound container)
            (fun next => next = some target)) := by
  induction changes using List.reverseRecOn with
  | nil => exact ⟨rfl, fun target _ => Iff.rfl⟩
  | append_singleton changes change ih =>
    have earlier {other : LinkChange} (member : other ∈ changes) : other ∈ changes ++ [change] :=
      List.mem_append_left _ member
    have here : change ∈ changes ++ [change] := List.mem_append_right _ (List.mem_singleton.mpr rfl)
    obtain ⟨stored, linked⟩ := ih (fun other member => applicable other (earlier member))
      fun other member => minds other (earlier member)
    have sound' := sound.applyAll fun other member => applicable other (earlier member)
    have single' := Single.applyAll sound (fun other member => applicable other (earlier member))
      single
    rw [applyAll_append, List.filterMap_append]
    cases decided : change.next? container [.key name] with
    | none =>
      rw [List.filterMap_cons_none decided, List.filterMap_nil, List.append_nil,
        read_apply_of_minds (minds change here) decided]
      refine ⟨stored, fun target whole => ?_⟩
      rw [mem_outbound_apply_of_minds (minds change here) decided]
      exact linked target whole
    | some next =>
      rw [List.filterMap_cons_some decided, List.filterMap_nil, List.getLast?_concat]
      cases change with
      | detach => cases decided
      | relink id place other =>
        rw [LinkChange.next?] at decided
        split at decided
        · next same =>
          obtain ⟨rfl, rfl⟩ := same
          cases decided
          refine ⟨?_, fun target whole => mem_entity_apply_relink sound' single' whole⟩
          rw [read_apply_relink, read_write_self]
          rfl
        · cases decided

end Draft
end ResponseGraph
