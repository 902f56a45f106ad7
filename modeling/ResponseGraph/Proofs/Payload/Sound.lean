import ResponseGraph.Proofs.Draft.Collected
import ResponseGraph.Proofs.Payload.Trace

/-!
Merges of sound drafts.

While a payload is walked the only links that are made are those of fields with
arguments, each together with its node, so the nodes stay sound.  Every other change of
links is collected, at a container that exists or is an entity, and is made afterwards.
-/

namespace ResponseGraph

open Nodes NodeId

namespace Visit

/-- The entity that is brought, if it is one. -/
def entity? : Visit → Option NodeId
  | .brought _ (.entity id) => some id
  | _ => none

/-- No id that is given has a separator. -/
def Named (visits : List Visit) : Prop := ∀ visit ∈ visits, ∀ id ∈ visit.entity?, Whole id

instance (visits : List Visit) : Decidable (Named visits) := by
  unfold Named
  infer_instance

theorem Named.mono {visits more : List Visit} (h : Named more) (subset : visits ⊆ more) :
    Named visits := fun visit member => h visit (subset member)

end Visit

namespace Walk

/-- What holds of a walk between its steps. -/
structure Sound (walk : Walk) (seen : List Visit) : Prop where
  nodes : Nodes.Sound (fun _ => False) walk.draft.node?
  applicable : ∀ change ∈ walk.changes, Draft.Applicable walk.draft.node? change
  seated : ∀ site content, .brought site content ∈ seen → Seated walk.draft.node? site.container

/-- What is brought to a place changes the data there, or the changes that are
collected, or both. -/
structure Touches (walk : Walk) (place : Place) (content : Content) (walk' : Walk) : Prop where
  written : walk'.draft = walk.draft ∨
    ∃ value, walk'.draft = walk.draft.set place.container place.path value
  collected : ∀ change ∈ walk'.changes, change ∈ walk.changes ∨
    (∃ path target, change = .detach place.container path target ∧
      ⟨target, path⟩ ∈ Nodes.links walk.draft.node? .outbound place.container) ∨
    change = .relink place.container place.path none ∨
    ∃ id, change = .relink place.container place.path (some id) ∧ content = .entity id

variable {identify : Json → Option NodeId} {walk walk' : Walk} {seen seen' : List Visit}
  {place : Place} {content : Content}

theorem touches_refl : Touches walk place content walk := ⟨Or.inl rfl, fun _ => Or.inl⟩

theorem touches_write (value : Value) : Touches walk place content (walk.write place value) :=
  ⟨Or.inr ⟨value, rfl⟩, fun _ => Or.inl⟩

theorem Touches.links (h : Touches walk place content walk') (direction : Direction) (id : NodeId) :
    Nodes.links walk'.draft.node? direction id = Nodes.links walk.draft.node? direction id := by
  rcases h.written with e | ⟨value, e⟩
  · rw [e]
  · rw [e, Draft.links_set]

theorem mem_changes_detachBelow {first? : Option Nat} {change : LinkChange} :
    change ∈ (walk.detachBelow place first?).changes ↔ change ∈ walk.changes ∨
      ∃ link ∈ Nodes.links walk.draft.node? .outbound place.container,
        leadsBelow place.path first? link ∧
          change = .detach place.container link.path link.node := by
  have outbound : (walk.draft.node? place.container).elim [] Node.outbound =
      Nodes.links walk.draft.node? .outbound place.container := rfl
  unfold detachBelow
  dsimp only
  rw [outbound, List.mem_append, List.mem_map]
  simp only [List.mem_filter]
  refine or_congr_right ⟨?_, ?_⟩
  · intro h
    obtain ⟨link, ⟨member, below⟩, rfl⟩ := h
    exact ⟨link, member, below, rfl⟩
  · intro h
    obtain ⟨link, member, below, rfl⟩ := h
    exact ⟨link, ⟨member, below⟩, rfl⟩

theorem Touches.detachBelow (h : Touches walk place content walk') (first? : Option Nat) :
    Touches walk place content (walk'.detachBelow place first?) := by
  refine ⟨h.written, fun change member => ?_⟩
  rcases mem_changes_detachBelow.mp member with old | ⟨link, linked, -, rfl⟩
  · exact h.collected change old
  · rw [h.links] at linked
    exact Or.inr (Or.inl ⟨_, _, rfl, linked⟩)

theorem touches_relink {next : Option NodeId}
    (named : ∀ id, next = some id → content = .entity id) :
    Touches walk place content (walk.relink place next) := by
  refine ⟨Or.inl rfl, fun change member => ?_⟩
  rcases List.mem_append.mp member with old | new
  · exact Or.inl old
  · rw [List.mem_singleton] at new
    cases next with
    | none => exact Or.inr (Or.inr (Or.inl new))
    | some id => exact Or.inr (Or.inr (Or.inr ⟨id, new, named id rfl⟩))

theorem touches_clear : Touches walk place content (walk.clear place) :=
  ⟨Or.inr ⟨.null, rfl⟩, (touches_refl.detachBelow none).collected⟩

theorem Fitted.touches {previous : Option (List Value)} {length : Nat}
    (h : Fitted walk place previous length walk') : Touches walk place content walk' := by
  cases h with
  | made | grown => exact touches_write _
  | kept => exact touches_refl
  | cut => exact (touches_write _).detachBelow _

theorem Brings.touches (h : Brings identify walk place content walk') :
    Touches walk place content walk' := by
  cases h with
  | leaf payload =>
    unfold Walk.leaf
    split
    · exact touches_refl
    · exact touches_write _
  | unlink => exact touches_relink fun id e => by cases e
  | clear => exact touches_clear
  | fill => exact touches_write _
  | keep | object | same => exact touches_refl
  | list length => exact (fitted ..).touches
  | refer =>
    refine touches_relink fun other e => ?_
    cases e
    rfl

theorem Due.seated {site : Site} (h : Sound walk seen) (due : Due walk seen site) :
    Seated walk.draft.node? site.container := by
  cases due with
  | @member site name around => exact h.seated site _ around
  | @item site length index around inside => exact h.seated site _ around
  | value name around address linked =>
    exact Or.inr (has_of_mem ((h.nodes.mirrored _ _ _).mp linked))

/-- A walk that goes on to sound nodes, with all that existed, stays sound. -/
theorem Sound.on (h : Sound walk seen) (nodes : Nodes.Sound (fun _ => False) walk'.draft.node?)
    (kept : ∀ id, Nodes.Has walk.draft.node? id → Nodes.Has walk'.draft.node? id)
    (changes : ∀ change ∈ walk'.changes, change ∈ walk.changes ∨
      Draft.Applicable walk.draft.node? change) : Sound walk' seen := by
  refine ⟨nodes, fun change member => ?_, fun site content member => ?_⟩
  · exact ((changes change member).elim (h.applicable change) id).mono kept
  · exact (h.seated site content member).mono kept

theorem Touches.has (h : Touches walk place content walk') {id : NodeId}
    (has : Nodes.Has walk.draft.node? id) : Nodes.Has walk'.draft.node? id := by
  rcases h.written with same | ⟨value, written⟩
  · rw [same]
    exact has
  · rw [written, Draft.has_set]
    exact Or.inr has

theorem Sound.touch (h : Sound walk seen) (seated : Seated walk.draft.node? place.container)
    (whole : ∀ id, content = .entity id → Whole id) (touches : Touches walk place content walk') :
    Sound walk' seen := by
  refine h.on ?_ (fun _ => touches.has) fun change member => ?_
  · rcases touches.written with same | ⟨value, written⟩
    · rw [same]
      exact h.nodes
    · rw [written, Draft.nodes_set]
      refine h.nodes.put_same seated (fun way => ?_) (h.nodes.toProper.kind_current seated)
      rw [← links_current]
      cases way <;> rfl
  · rcases touches.collected change member with old | ⟨path, target, rfl, -⟩ | rfl |
      ⟨id, rfl, named⟩
    · exact Or.inl old
    · exact Or.inr seated
    · exact Or.inr ⟨seated, fun id e => by cases e⟩
    · refine Or.inr ⟨seated, fun other e => ?_⟩
      cases e
      exact whole id named

/-- The node that is made for the value of a field with arguments. -/
def sprig (place : Place) : Node := ⟨.parameterized, [⟨place.container, place.path⟩], [], none⟩

theorem nodes_grow (walk : Walk) (place : Place) (id : NodeId) :
    (walk.grow place id).draft.node? =
      Nodes.sprout walk.draft.node? place.container place.path id (sprig place) := by
  have node : (Node.bare .parameterized).addLink .inbound ⟨place.container, place.path⟩ =
      sprig place := rfl
  unfold grow
  dsimp only
  rw [node, Draft.nodes_update, Draft.nodes_put]
  rfl

theorem Sound.grow {name : String} {arguments : Arguments} {id : NodeId} (h : Sound walk seen)
    (seated : Seated walk.draft.node? place.container)
    (address :
      NodeId.parameterized place.container (place.step (.key name)).path arguments = .ok id)
    (fresh : ⟨id, (place.step (.key name)).path⟩ ∉
      Nodes.links walk.draft.node? .outbound place.container) :
    Sound (walk.grow (place.step (.key name)) id) seen := by
  have nodes := nodes_grow walk (place.step (.key name)) id
  refine h.on ?_ (fun other has => ?_) fun change member => Or.inl member
  · rw [nodes]
    exact h.nodes.create address fresh seated rfl rfl rfl
  · rw [nodes, has_sprout]
    exact Or.inr (Or.inr has)

theorem Sound.see {site : Site} (h : Sound walk seen)
    (seated : Seated walk.draft.node? site.container) (content : Content) :
    Sound walk (.brought site content :: seen) := by
  refine ⟨h.nodes, h.applicable, fun other found member => ?_⟩
  rcases List.mem_cons.mp member with e | old
  · cases e
    exact seated
  · exact h.seated other found old

theorem Sound.enter (h : Sound walk seen) (id : NodeId) (set : Nat) (fields : Fields)
    (members : List (String × Json)) : Sound walk (.entered id set fields members :: seen) := by
  refine ⟨h.nodes, h.applicable, fun site content member => ?_⟩
  rcases List.mem_cons.mp member with e | old
  · cases e
  · exact h.seated site content old

theorem Step.sound (h : Step identify walk seen walk' seen') (named : Visit.Named seen')
    (sound : Sound walk seen) : Sound walk' seen' := by
  cases h with
  | warned warnings => exact ⟨sound.nodes, sound.applicable, sound.seated⟩
  | @grown place name arguments id around address fresh =>
    exact sound.grow (sound.seated _ _ around) address fresh
  | @brought place content _ due brings =>
    have seated : Seated walk.draft.node? place.container := due.seated sound
    have touches := brings.touches
    have whole : ∀ id, content = .entity id → Whole id := by
      intro id e
      subst e
      exact named _ List.mem_cons_self id rfl
    exact (sound.touch seated whole touches).see (seated.mono fun _ => touches.has) content
  | @entered site id set fields members around =>
    have inside := List.mem_cons_of_mem (Visit.brought (.root id) .object)
      (List.mem_cons_of_mem (Visit.entered id set fields members) around)
    have root : Seated walk.draft.node? id := Or.inl (named _ inside id rfl)
    have marked : Sound (walk.mark id set) seen := ⟨sound.nodes, sound.applicable, sound.seated⟩
    have seated : Seated (walk.mark id set).draft.node? (Site.root id).container := root
    exact (marked.enter id set fields members).see seated .object

theorem Run.sound (h : Run identify walk seen walk' seen') (named : Visit.Named seen')
    (sound : Sound walk seen) : Sound walk' seen' := by
  induction h with
  | refl => exact sound
  | tail run step ih => exact step.sound named (ih (named.mono step.seen_subset))

theorem Sound.start {draft : Draft} (h : Nodes.Sound (fun _ => False) draft.node?) {root : NodeId}
    (whole : Whole root) : Sound (.ofDraft draft) [.brought (.root root) .object] := by
  refine ⟨h, fun _ member => absurd member List.not_mem_nil, fun site content member => ?_⟩
  cases List.mem_singleton.mp member
  exact Or.inl whole

theorem Sound.draft (h : Sound walk seen) : walk.draft.Sound :=
  h.nodes.mono fun _ impossible => impossible.elim

theorem Sound.applyAll (h : Sound walk seen) : (walk.draft.applyAll walk.changes).Sound :=
  h.draft.applyAll h.applicable

/-- The changes that were collected keep the nodes sound, and so does the collection of
what they leave without links. -/
theorem Sound.finish (h : Sound walk seen) : Nodes.Sound (fun _ => False) walk.finish.node? :=
  h.applyAll.collectOrphans

end Walk

/-- A merge keeps the nodes of a draft sound. -/
theorem Draft.sound_merge {identify : Json → Option NodeId} {root : NodeId} {fields : Fields}
    {payload : Json} {draft draft' : Draft} {warnings : List String}
    (sound : Nodes.Sound (fun _ => False) draft.node?) (whole : Whole root)
    (named : Visit.Named (Visit.ofPayload identify root fields payload))
    (h : draft.merge identify root fields payload = .ok (draft', warnings)) :
    Nodes.Sound (fun _ => False) draft'.node? := by
  obtain ⟨members, walk, seen, -, rfl, traced, within, -⟩ := Draft.merge_traced h
  exact (traced.run.sound (named.mono within) (.start sound whole)).finish

end ResponseGraph
