import ResponseGraph.Proofs.Draft.Attended
import ResponseGraph.Proofs.Payload.Settled

/-!
Merges that leave no node without links.

A node that a walk comes to is the root of the operation, or it exists, or a change that was
collected will link it: a walk takes the members of an entity only where the entity is brought,
and there it is referred to already or a change is collected.  So every node that is there after
the collection is the root or is linked from somewhere.

For this every reference in the data has to be linked, because a walk does not link again what
is referred to already.  Nothing is asked of links without a reference.
-/

namespace ResponseGraph

open Nodes NodeId Visit

/-- No reference is stored where a link is to be removed. -/
def Severed (nodes : Nodes) (changes : List LinkChange) : Prop :=
  ∀ id path target, .detach id path target ∈ changes →
    nodes.read id path ≠ some (.reference target)

namespace Walk

/-- What holds between the steps of a walk from a root, over a draft whose references are
linked. -/
structure Attended (root : NodeId) (walk : Walk) (seen : List Visit) : Prop where
  sound : Walk.Sound walk seen
  nested : Nested seen
  accounted : Accounted walk.changes seen
  backed : Backed walk.draft.node?
  severed : Severed walk.draft.node? walk.changes
  met : ∀ site content, .brought site content ∈ seen →
    walk.draft.Met root (Draft.Awaited walk.changes) site.container
  named : ∀ site id, .brought site (.entity id) ∈ seen →
    walk.draft.Met root (Draft.Awaited walk.changes) id
  attended : walk.draft.Attended root (Draft.Awaited walk.changes)

variable {identify : Json → Option NodeId} {walk walk' : Walk} {seen seen' : List Visit}
  {place : Place} {content : Content} {root : NodeId}

/-- The value has only references that are stored in its place. -/
def Borrows (walk : Walk) (place : Place) (value : Value) : Prop :=
  ∀ rest target, value.get? rest = some (.reference target) →
    Nodes.read walk.draft.node? place.container (place.path ++ rest) = some (.reference target)

theorem borrows_null : Borrows walk place .null := by
  intro rest target found
  cases rest with
  | nil => cases found
  | cons step rest =>
    rw [Value.get?_null_cons] at found
    cases found

theorem borrows_resize {items : List Value} {length : Nat}
    (held : items = [] ∨ walk.stored? place = some (.list items)) :
    Borrows walk place (.list (Value.resize items length)) := by
  intro rest target found
  obtain ⟨i, below, rfl, -, old⟩ := (Value.get?_resize_reference _ _ _ _).mp found
  rcases held with rfl | held
  · cases old
  · rw [read_stored, held]
    exact old

theorem Fitted.borrows {length : Nat}
    (h : Fitted walk place (list? (walk.stored? place)) length walk') :
    walk'.draft = walk.draft ∨ ∃ value, Borrows walk place value ∧
      walk'.draft = walk.draft.set place.container place.path value := by
  cases h with
  | made => exact Or.inr ⟨_, borrows_resize (Or.inl rfl), rfl⟩
  | kept => exact Or.inl rfl
  | grown stored | cut stored =>
    exact Or.inr ⟨_, borrows_resize (Or.inr (list?_eq_some.mp stored)), rfl⟩

/-- What is brought is stored without a reference that was not there. -/
theorem Brings.borrows (h : Brings identify walk place content walk') :
    walk'.draft = walk.draft ∨ ∃ value, Borrows walk place value ∧
      walk'.draft = walk.draft.set place.container place.path value := by
  cases h with
  | leaf payload =>
    unfold Walk.leaf
    split
    · exact Or.inl rfl
    · exact Or.inr ⟨_, fun rest target new => absurd new (Value.get?_ofJson_ne payload rest target),
        rfl⟩
  | clear | fill => exact Or.inr ⟨.null, borrows_null, rfl⟩
  | unlink | keep | object | refer | same => exact Or.inl rfl
  | list length => exact (fitted ..).borrows

theorem Brings.reference_of_read (h : Brings identify walk place content walk')
    {id target : NodeId} {path : Path}
    (stored : Nodes.read walk'.draft.node? id path = some (.reference target)) :
    Nodes.read walk.draft.node? id path = some (.reference target) := by
  rcases h.borrows with e | ⟨value, borrows, e⟩
  · rwa [e] at stored
  · rw [e, Draft.nodes_set_write] at stored
    exact reference_of_write borrows stored

theorem Brings.backed (h : Brings identify walk place content walk')
    (backed : Backed walk.draft.node?) : Backed walk'.draft.node? := by
  intro id path target stored
  rw [h.touches.links]
  exact backed id path target (h.reference_of_read stored)

/-- Nothing is stored where a link leads from below a value that has nothing there. -/
theorem read_of_leadsBelow {value : Value} {first? : Option Nat} {link : Link}
    (nothing : ∀ step rest, (∀ first, first? = some first → ∃ i, step = .index i ∧ first ≤ i) →
      value.get? (step :: rest) = none) (leads : leadsBelow place.path first? link) :
    Nodes.read (walk.draft.set place.container place.path value).node? place.container link.path =
      none := by
  obtain ⟨step, rest, e, inside⟩ := leadsBelow_iff.mp leads
  rw [Draft.nodes_set_write, e, read_write_append]
  exact nothing step rest inside

theorem Fitted.read_of_detach {previous : Option (List Value)} {length : Nat}
    (h : Fitted walk place previous length walk') {id target : NodeId} {path : Path}
    (member : .detach id path target ∈ walk'.changes) :
    .detach id path target ∈ walk.changes ∨ Nodes.read walk'.draft.node? id path = none := by
  cases h with
  | made | kept | grown => exact Or.inl member
  | @cut items =>
    rcases mem_changes_detachBelow.mp member with old | ⟨link, -, leads, e⟩
    · exact Or.inl old
    · cases e
      refine Or.inr (read_of_leadsBelow ?_ leads)
      intro step rest inside
      obtain ⟨i, rfl, le⟩ := inside length rfl
      exact Value.get?_resize_beyond items le rest

/-- Links are to be removed only where nothing is stored any longer. -/
theorem Brings.read_of_detach (h : Brings identify walk place content walk')
    {id target : NodeId} {path : Path} (member : .detach id path target ∈ walk'.changes) :
    .detach id path target ∈ walk.changes ∨ Nodes.read walk'.draft.node? id path = none := by
  cases h with
  | leaf payload =>
    unfold Walk.leaf at member
    split at member <;> exact Or.inl member
  | unlink | refer =>
    refine Or.inl ((List.mem_append.mp member).resolve_right fun new => ?_)
    cases List.mem_singleton.mp new
  | clear =>
    rcases mem_changes_detachBelow.mp member with old | ⟨link, -, leads, e⟩
    · exact Or.inl old
    · cases e
      exact Or.inr (read_of_leadsBelow (fun step rest _ => Value.get?_null_cons step rest) leads)
  | fill | keep | object | same => exact Or.inl member
  | list length => exact (fitted ..).read_of_detach member

theorem Brings.severed (h : Brings identify walk place content walk')
    (severed : Severed walk.draft.node? walk.changes) :
    Severed walk'.draft.node? walk'.changes := by
  intro id path target member stored
  rcases h.read_of_detach member with old | none
  · exact severed id path target old (h.reference_of_read stored)
  · rw [none] at stored
    cases stored

theorem Brings.has (h : Brings identify walk place content walk') {id : NodeId}
    (has : Nodes.Has walk.draft.node? id) : Nodes.Has walk'.draft.node? id := h.touches.has has

theorem Due.met {site : Site} (due : Due walk seen site) (h : Attended root walk seen) :
    walk.draft.Met root (Draft.Awaited walk.changes) site.container := by
  cases due with
  | @member site name around => exact h.met site _ around
  | @item site length index around inside => exact h.met site _ around
  | value name around address linked =>
    exact Or.inr (Or.inr (has_of_mem ((h.sound.nodes.mirrored _ _ _).mp linked)))

/-- Where an entity is brought it is linked already, or a change is collected. -/
theorem Brings.met_entity {id : NodeId} (h : Brings identify walk place (.entity id) walk')
    (sound : Walk.Sound walk seen) (backed : Backed walk.draft.node?) :
    walk'.draft.Met root (Draft.Awaited walk'.changes) id := by
  cases h with
  | refer =>
    refine Or.inr (Or.inl ⟨place.container, place.path, ?_⟩)
    exact List.mem_append_right _ (List.mem_singleton.mpr rfl)
  | same named stored =>
    have linked := (backed place.container place.path id (entity?_eq_some.mp stored)).1
    exact Or.inr (Or.inr (has_of_mem ((sound.nodes.mirrored _ _ _).mp linked)))

theorem Attended.brought (h : Attended root walk seen) (due : Due walk seen place.site)
    (brings : Brings identify walk place content walk')
    (named : Named (.brought place.site content :: seen)) :
    Attended root walk' (.brought place.site content :: seen) := by
  have step : Step identify walk seen walk' (.brought place.site content :: seen) :=
    .brought due brings
  have awaited (id : NodeId) (waits : Draft.Awaited walk.changes id) :
      Draft.Awaited walk'.changes id := waits.mono brings.changes_subset
  have met {id : NodeId} (before : walk.draft.Met root (Draft.Awaited walk.changes) id) :
      walk'.draft.Met root (Draft.Awaited walk'.changes) id :=
    before.imp_right fun some => some.imp (awaited id) brings.has
  refine ⟨step.sound named h.sound, step.nested h.nested, brings.accounted h.accounted,
    brings.backed h.backed, brings.severed h.severed, fun site found member => ?_,
    fun site id member => ?_, ?_⟩
  · rcases List.mem_cons.mp member with e | member
    · cases e
      exact met (due.met h)
    · exact met (h.met site found member)
  · rcases List.mem_cons.mp member with e | member
    · cases e
      exact brings.met_entity h.sound h.backed
    · exact met (h.named site id member)
  · have before : walk.draft.Attended root (Draft.Awaited walk'.changes) :=
      Nodes.Attended.mono h.attended fun id waits => waits.imp_right (awaited id)
    rcases brings.touches.written with e | ⟨value, e⟩
    · rw [e]
      exact before
    · rw [e]
      exact before.set ((due.met h).imp_right fun some => some.imp_left (awaited _)) _ _

theorem Attended.grow {name : String} {arguments : Arguments} {id : NodeId}
    (h : Attended root walk seen) (around : .brought place.site .object ∈ seen)
    (address :
      NodeId.parameterized place.container (place.step (.key name)).path arguments = .ok id)
    (fresh : ⟨id, (place.step (.key name)).path⟩ ∉
      Nodes.links walk.draft.node? .outbound place.container) :
    Attended root (walk.grow (place.step (.key name)) id) seen := by
  have missing := h.sound.nodes.eq_none_of_not_linked address fresh
  have nodes := nodes_grow walk (place.step (.key name)) id
  have sound := h.sound.grow (h.sound.seated _ _ around) address fresh
  have has {other : NodeId} (before : Nodes.Has walk.draft.node? other) :
      Nodes.Has (walk.grow (place.step (.key name)) id).draft.node? other := by
    rw [nodes, has_sprout]
    exact Or.inr (Or.inr before)
  have linked {other : NodeId} (some : Nodes.links walk.draft.node? .inbound other ≠ []) :
      Nodes.links (walk.grow (place.step (.key name)) id).draft.node? .inbound other ≠ [] := by
    obtain ⟨link, member⟩ := List.exists_mem_of_ne_nil _ some
    have forth := (h.sound.nodes.mirrored link.node other link.path).mpr member
    refine List.ne_nil_of_mem ((sound.nodes.mirrored link.node other link.path).mp ?_)
    rw [nodes, mem_outbound_sprout missing rfl]
    exact Or.inl forth
  refine ⟨sound, h.nested, h.accounted, ?_, ?_, fun site content member => (h.met site content
    member).mono has, fun site other member => (h.named site other member).mono has, ?_⟩
  · rw [nodes]
    exact h.backed.sprout missing rfl rfl
  · intro other path target member
    rw [nodes, read_sprout missing rfl]
    exact h.severed other path target member
  · have before {other : NodeId} (present : Nodes.Has walk.draft.node? other) :=
      (h.attended other present).imp_right fun some => some.imp_right linked
    intro other present
    rw [nodes, has_sprout] at present
    rcases present with e | e | present
    · subst e
      rcases h.met _ _ around with same | waits | present
      · exact Or.inl same
      · exact Or.inr (Or.inl (Or.inr waits))
      · exact before present
    · subst e
      have forth := mem_links_grow walk (place.step (.key name)) id
      exact Or.inr (Or.inr (List.ne_nil_of_mem ((sound.nodes.mirrored _ _ _).mp forth)))
    · exact before present

theorem Step.attended (h : Step identify walk seen walk' seen') (named : Named seen')
    (attended : Attended root walk seen) : Attended root walk' seen' := by
  cases h with
  | warned warnings =>
    exact ⟨⟨attended.sound.nodes, attended.sound.applicable, attended.sound.seated⟩,
      attended.nested, attended.accounted, attended.backed, attended.severed, attended.met,
      attended.named, attended.attended⟩
  | grown name around address fresh => exact attended.grow around address fresh
  | brought due brings => exact attended.brought due brings named
  | @entered site id set fields members around =>
    have step : Step identify walk seen (walk.mark id set) _ := .entered set fields members around
    refine ⟨step.sound named attended.sound, step.nested attended.nested,
      attended.accounted.mono step.seen_subset, attended.backed, attended.severed,
      fun other content member => ?_, fun other found member => ?_, attended.attended⟩
    · simp only [List.mem_cons, reduceCtorEq, false_or] at member
      rcases member with e | member
      · cases e
        exact attended.named site id around
      · exact attended.met other content member
    · simp only [List.mem_cons, reduceCtorEq, false_or] at member
      rcases member with e | member
      · cases e
      · exact attended.named other found member

theorem Run.attended (h : Run identify walk seen walk' seen') (named : Named seen')
    (attended : Attended root walk seen) : Attended root walk' seen' := by
  induction h with
  | refl => exact attended
  | tail run step ih => exact step.attended named (ih (named.mono step.seen_subset))

theorem Attended.start {draft : Draft} (sound : Nodes.Sound (fun _ => False) draft.node?)
    (whole : Whole root) (backed : Backed draft.node?)
    (attended : Nodes.Attended root (fun _ => False) draft.node?) :
    Attended root (.ofDraft draft) [.brought (.root root) .object] := by
  refine ⟨.start sound whole, nested_start root, ?_, backed,
    fun _ _ _ member => absurd member List.not_mem_nil, fun site content member => ?_,
    fun site id member => ?_, Nodes.Attended.mono attended fun _ impossible => impossible.elim⟩
  · exact ⟨fun _ _ _ member => absurd member List.not_mem_nil,
      fun _ _ _ member => absurd member List.not_mem_nil⟩
  · cases List.mem_singleton.mp member
    exact Or.inl rfl
  · cases List.mem_singleton.mp member

end Walk

/-! ## After the walk -/

/-- Changes of references keep every reference linked, if the payload is consistent. -/
theorem Draft.backed_applyAll {draft : Draft} {changes : List LinkChange} {seen : List Visit}
    (nested : Nested seen) (consistent : Consistent seen) (accounted : Accounted changes seen)
    (applicable : ∀ change ∈ changes, Applicable draft.node? change)
    (severed : Severed draft.node? changes) (backed : Backed draft.node?) :
    Backed (draft.applyAll changes).node? := by
  induction changes generalizing draft with
  | nil => exact backed
  | cons change changes ih =>
    have here := applicable change List.mem_cons_self
    refine ih accounted.tail (fun other member => ?_) (fun id path target member => ?_) ?_
    · exact (applicable other (List.mem_cons_of_mem _ member)).mono fun _ => has_apply
    · have before := severed id path target (List.mem_cons_of_mem _ member)
      cases change with
      | detach container place other =>
        rw [read_apply_detach]
        exact before
      | relink container place next =>
        intro stored
        rcases reference_of_apply_relink stored with ⟨rfl, rfl, rfl⟩ | ⟨-, old⟩
        · -- The position at which a reference comes is not below one that was cut off.
          obtain ⟨content, brought, -⟩ := accounted.relinked _ _ _ List.mem_cons_self
          have vacated := accounted.detached _ _ _ (List.mem_cons_of_mem _ member)
          have enclosed := nested.enclosed _ _ brought
          exact vacated.not_enclosed consistent enclosed
        · exact before old
    · cases change with
      | detach container place other =>
        exact backed_apply_detach backed (severed _ _ _ List.mem_cons_self)
      | relink container place next => exact backed_apply_relink backed here.2

theorem Draft.backed_collectOrphans {draft : Draft} (backed : Backed draft.node?) :
    Backed draft.collectOrphans.node? :=
  collectOrphans_induct (motive := fun nodes _ => Backed nodes) (fun _ _ _ _ kept => kept)
    (fun _ id _ _ _ _ kept => kept.collected id) draft backed

/-- After a merge every reference is linked, and so is every node but the root. -/
theorem Walk.Attended.finish {walk : Walk} {seen : List Visit} {root : NodeId}
    (h : walk.Attended root seen) (consistent : Consistent seen) :
    Backed walk.finish.node? ∧ Nodes.Attended root (fun _ => False) walk.finish.node? := by
  constructor
  · exact Draft.backed_collectOrphans (Draft.backed_applyAll h.nested consistent h.accounted
      h.sound.applicable h.severed h.backed)
  · refine Draft.attended_collectOrphans (h.attended.applyAll fun change member => ?_)
    cases change with
    | detach container path target =>
      obtain ⟨above, step, rest, content, -, around, -⟩ := h.accounted.detached _ _ _ member
      exact h.met _ _ around
    | relink container path next =>
      obtain ⟨content, brought, -⟩ := h.accounted.relinked _ _ _ member
      exact h.met _ _ brought

end ResponseGraph
