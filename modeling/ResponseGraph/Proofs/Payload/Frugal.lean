import ResponseGraph.Proofs.Draft.Copied
import ResponseGraph.Proofs.Payload.Altered
import ResponseGraph.Proofs.Payload.Suited

/-!
Walks that copy nothing in vain.

A walk copies the nodes that it writes into and the ends of the links that it makes, and its
changes of links copy the ends of those that come and go.  Of a consistent payload each of these
links really comes or goes: a place is relinked only to what it did not refer to before, and a link
that was detached is never made again.  A collection takes links from nodes that stay only together
with the nodes at their other ends, which the payload did not come to.  So whatever a merge copies
counts as edited or has other links in the end (`Walk.Frugal.finish`).
-/

namespace ResponseGraph

open Nodes NodeId Visit

/-- A link from or to the node came or went. -/
inductive Nodes.Relinks (nodes later : Nodes) (id : NodeId) : Prop
  | came {container : NodeId} {link : Link} (ends : container = id ∨ link.node = id)
    (before : link ∉ nodes.links .outbound container)
    (now : link ∈ later.links .outbound container) : Relinks nodes later id
  | went {container : NodeId} {link : Link} (ends : container = id ∨ link.node = id)
    (before : link ∈ nodes.links .outbound container)
    (now : link ∉ later.links .outbound container) : Relinks nodes later id

theorem Nodes.Relinks.imp {nodes later last : Nodes} {id : NodeId} (h : Relinks nodes later id)
    (came : ∀ {container link}, link ∉ nodes.links .outbound container →
      link ∈ later.links .outbound container → link ∈ last.links .outbound container)
    (went : ∀ {container link}, link ∈ nodes.links .outbound container →
      link ∉ later.links .outbound container → link ∉ last.links .outbound container) :
    Relinks nodes last id := by
  cases h with
  | came ends before now => exact .came ends before (came before now)
  | went ends before now => exact .went ends before (went before now)

/-- Where links agree at both ends, the node then has other links. -/
theorem Nodes.Relinks.differs {nodes later : Nodes} {id : NodeId} (h : Relinks nodes later id)
    (mirrored : Mirrored nodes) (mirrored' : Mirrored later) :
    ∃ way link, ¬ (link ∈ nodes.links way id ↔ link ∈ later.links way id) := by
  have either {container : NodeId} {link : Link} (ends : container = id ∨ link.node = id)
      (differs : ¬ (link ∈ nodes.links .outbound container ↔
        link ∈ later.links .outbound container)) :
      ∃ way link, ¬ (link ∈ nodes.links way id ↔ link ∈ later.links way id) := by
    rcases ends with rfl | rfl
    · exact ⟨.outbound, link, differs⟩
    · refine ⟨.inbound, ⟨container, link.path⟩, ?_⟩
      rw [← mirrored container link.node link.path, ← mirrored' container link.node link.path]
      exact differs
  cases h with
  | came ends before now => exact either ends fun same => before (same.mpr now)
  | went ends before now => exact either ends fun same => now (same.mp before)

/-- The link leads from an object that was seen to the value of one of its fields. -/
def Visit.Grafts (seen : List Visit) (id : NodeId) (link : Link) : Prop :=
  ¬ Whole link.node ∧
    ∃ path name, .brought ⟨id, path⟩ .object ∈ seen ∧ link.path = path ++ [.key name]

theorem Visit.Grafts.mono {seen more : List Visit} {id : NodeId} {link : Link}
    (h : Grafts seen id link) (subset : seen ⊆ more) : Grafts more id link := by
  obtain ⟨apart, path, name, around, e⟩ := h
  exact ⟨apart, path, name, subset around, e⟩

namespace Walk

/-- What a walk has copied so far, and the links that it has made and that it is to change. -/
structure Frugal (base : Nodes) (walk : Walk) (seen : List Visit) : Prop where
  made : ∀ id link, link ∈ Nodes.links walk.draft.node? .outbound id →
    link ∉ base.links .outbound id → Grafts seen id link
  copied : ∀ id, walk.draft.changes.contains id →
    walk.draft.edited.contains id ∨ Relinks base walk.draft.node? id
  detached : ∀ id path target, .detach id path target ∈ walk.changes →
    walk.draft.edited.contains id ∧
      ⟨target, path⟩ ∈ Nodes.links walk.draft.node? .outbound id
  relinked : ∀ id path target, .relink id path (some target) ∈ walk.changes →
    base.read id path ≠ some (.reference target)

variable {identify : Json → Option NodeId} {walk walk' : Walk} {seen seen' : List Visit}
  {place : Place} {content : Content} {base : Nodes} {root id target : NodeId} {path : Path}

theorem Touches.contains_edited (h : Touches walk place content walk')
    (edited : walk.draft.edited.contains id) : walk'.draft.edited.contains id := by
  rcases h.written with e | ⟨value, e⟩
  · rw [e]
    exact edited
  · rw [e, Draft.contains_edited_set]
    exact .inr edited

/-- Nodes from which a link is to be detached were written. -/
theorem Brings.detached (h : Brings identify walk place content walk')
    (unnamed : identify .null = none) (same : content.agrees content)
    (member : .detach id path target ∈ walk'.changes) :
    .detach id path target ∈ walk.changes ∨ walk'.draft.edited.contains id ∧
      ⟨target, path⟩ ∈ Nodes.links walk.draft.node? .outbound id := by
  rcases (h.detaches unnamed id path target).mp member with
    before | ⟨rfl, linked, step, rest, value, -, held, cuts⟩
  · exact .inl before
  · refine .inr ⟨?_, linked⟩
    rcases h.settles unnamed same with ⟨-, fits⟩ | ⟨value, e, -, -⟩
    · rw [held] at fits
      exact absurd fits (cuts.not_fits same)
    · rw [e, Draft.contains_edited_set]
      exact .inl rfl

/-- A place is relinked only to what is not stored there. -/
theorem Brings.relinked (h : Brings identify walk place content walk')
    (member : .relink id path (some target) ∈ walk'.changes) :
    .relink id path (some target) ∈ walk.changes ∨ (id = place.container ∧ path = place.path ∧
      content = .entity target ∧ walk.stored? place ≠ some (.reference target)) := by
  rcases h.touches.collected _ member with old | ⟨_, _, e, -⟩ | e | ⟨other, e, named⟩
  · exact .inl old
  · cases e
  · cases e
  · cases e
    refine (h.relinks member).imp_right fun ⟨_, differs⟩ => ⟨rfl, rfl, named, fun stored => ?_⟩
    subst named
    rw [stored] at differs
    refine differs ⟨fun value e => ?_, fun next decides => ?_⟩
    · cases e
      exact .inr ⟨target, rfl⟩
    · cases decides
      rfl

/-- Where an entity is brought that is not stored, it was not referred to before.  If the site was
seen, the entity was brought there before and is awaited. -/
theorem Frugal.refers_anew (h : Frugal base walk seen) (linked : Linked base walk seen)
    (intact : Intact base walk.draft.node? seen)
    (consistent : Consistent (.brought place.site (.entity target) :: seen))
    (due : Due walk seen place.site)
    (differs : walk.stored? place ≠ some (.reference target)) :
    base.read place.container place.path ≠ some (.reference target) := by
  intro before
  have old := List.subset_cons_self (Visit.brought place.site (.entity target)) seen
  by_cases visited : ∃ other, .brought place.site other ∈ seen
  · obtain ⟨other, member⟩ := visited
    have same : other.agrees (.entity target) :=
      consistent _ _ _ (old member) List.mem_cons_self
    rw [Content.eq_entity_of_agrees same] at member
    rcases linked.delivered _ _ _ member rfl with stored | waiting
    · exact differs stored
    · exact h.relinked _ _ _ waiting before
  · rcases linked.stays intact (consistent.mono old) due (not_exists.mp visited) with
      kept | ⟨missing, -⟩
    · exact differs (Eq.trans kept before)
    · rw [missing] at before
      cases before

theorem Frugal.brought (h : Frugal base walk seen) (linked : Linked base walk seen)
    (intact : Intact base walk.draft.node? seen) (unnamed : identify .null = none)
    (consistent : Consistent (.brought place.site content :: seen))
    (due : Due walk seen place.site) (brings : Brings identify walk place content walk') :
    Frugal base walk' (.brought place.site content :: seen) := by
  have old := List.subset_cons_self (Visit.brought place.site content) seen
  have same : content.agrees content := consistent _ _ _ List.mem_cons_self List.mem_cons_self
  have touches := brings.touches
  have relinks {id : NodeId} (relinks : Relinks base walk.draft.node? id) :
      Relinks base walk'.draft.node? id :=
    relinks.imp (fun _ now => touches.links _ _ ▸ now) fun _ now => touches.links _ _ ▸ now
  refine ⟨fun id link member fresh => ?_, fun id copied => ?_, fun id path target member => ?_,
    fun id path target member => ?_⟩
  · rw [touches.links] at member
    exact (h.made id link member fresh).mono old
  · have before : walk.draft.changes.contains id ∨ walk'.draft.edited.contains id := by
      rcases touches.written with e | ⟨value, e⟩
      · rw [e] at copied
        exact .inl copied
      · rw [e] at copied ⊢
        refine ((Draft.contains_changes_set _ _ _ _ _).mp copied).symm.imp_right fun same => ?_
        exact (Draft.contains_edited_set _ _ _ _ _).mpr (.inl same.symm)
    rcases before with before | edited
    · exact (h.copied id before).imp touches.contains_edited relinks
    · exact .inl edited
  · rw [touches.links]
    rcases brings.detached unnamed same member with before | now
    · exact (h.detached id path target before).imp_left touches.contains_edited
    · exact now
  · rcases brings.relinked member with before | ⟨rfl, rfl, rfl, differs⟩
    · exact h.relinked id path target before
    · exact h.refers_anew linked intact consistent due differs

/-- The node that is made and its container are the ends of a link that is new. -/
theorem Frugal.grow {name : String} (h : Frugal base walk seen)
    (kept : ∀ id link, link ∈ base.links .outbound id →
      link ∈ Nodes.links walk.draft.node? .outbound id)
    (around : .brought place.site .object ∈ seen) (apart : ¬ Whole id)
    (missing : walk.draft.node? id = none)
    (fresh : ⟨id, (place.step (.key name)).path⟩ ∉
      Nodes.links walk.draft.node? .outbound place.container) :
    Frugal base (walk.grow (place.step (.key name)) id) seen := by
  have nodes := nodes_grow walk (place.step (.key name)) id
  have linked (other : NodeId) (link : Link) : link ∈ Nodes.links
      (walk.grow (place.step (.key name)) id).draft.node? .outbound other ↔
        link ∈ Nodes.links walk.draft.node? .outbound other ∨
          (place.container = other ∧ link = ⟨id, (place.step (.key name)).path⟩) := by
    rw [nodes]
    exact mem_outbound_sprout missing rfl
  have new (other : NodeId) (ends : place.container = other ∨ id = other) :
      Relinks base (walk.grow (place.step (.key name)) id).draft.node? other :=
    @Relinks.came _ _ _ place.container ⟨id, (place.step (.key name)).path⟩ ends
      (fun before => fresh (kept _ _ before)) ((linked _ _).mpr (.inr ⟨rfl, rfl⟩))
  refine ⟨fun other link member unlinked => ?_, fun other copied => ?_,
    fun other path target member => ?_, h.relinked⟩
  · rcases (linked other link).mp member with old | ⟨rfl, rfl⟩
    · exact h.made other link old unlinked
    · exact ⟨apart, place.path, name, around, rfl⟩
  · rcases (Draft.contains_changes_put _ _ _ _).mp copied with e | copied
    · exact .inr (new other (.inl e.symm))
    · rcases (Draft.contains_changes_put _ _ _ _).mp copied with e | before
      · exact .inr (new other (.inr e.symm))
      · refine (h.copied other before).imp_right fun relinks => relinks.imp ?_ ?_
        · exact fun _ now => (linked _ _).mpr (.inl now)
        · exact fun before now => absurd (kept _ _ before) now
  · exact (h.detached other path target member).imp_right fun old => (linked _ _).mpr (.inl old)

theorem Step.frugal (h : Step identify walk seen walk' seen')
    (clean : Clean identify root base seen') (steady : Steady root base walk seen)
    (frugal : Frugal base walk seen) : Frugal base walk' seen' := by
  have linked := steady.moored.linked
  cases h with
  | warned warnings => exact ⟨frugal.made, frugal.copied, frugal.detached, frugal.relinked⟩
  | grown name around address fresh =>
    exact frugal.grow steady.cutting.kept around (NodeId.not_whole_of_parameterized address)
      (linked.sound.nodes.eq_none_of_not_linked address fresh) fresh
  | brought due brings =>
    exact frugal.brought linked steady.intact clean.unnamed clean.consistent due brings
  | @entered site id set fields members around =>
    have old : seen ⊆ .brought (.root id) .object :: .entered id set fields members :: seen :=
      List.subset_cons_of_subset _ (List.subset_cons_self _ _)
    exact ⟨fun other link member fresh => (frugal.made other link member fresh).mono old,
      frugal.copied, frugal.detached, frugal.relinked⟩

theorem Run.frugal (h : Run identify walk seen walk' seen')
    (clean : Clean identify root base seen') (steady : Steady root base walk seen)
    (frugal : Frugal base walk seen) : Frugal base walk' seen' := by
  induction h with
  | refl => exact frugal
  | tail run step ih =>
    have before := clean.mono step.seen_subset
    exact step.frugal clean (run.steady before steady) (ih before)

theorem Frugal.start (graph : Graph) (seen : List Visit) :
    Frugal graph.node? (.ofDraft (.ofGraph graph)) seen :=
  ⟨fun _ _ member fresh => absurd member fresh, fun _ copied => (nomatch copied),
    fun _ _ _ member => absurd member List.not_mem_nil,
    fun _ _ _ member => absurd member List.not_mem_nil⟩

/-! ## Changes of links -/

namespace Frugal

section

variable (frugal : Frugal base walk seen) (steady : Steady root base walk seen)
  (consistent : Consistent seen)

include frugal steady consistent

/-- A link that was made stays when the changes are made. -/
theorem made_applyAll {link : Link} (now : link ∈ Nodes.links walk.draft.node? .outbound id)
    (before : link ∉ base.links .outbound id) :
    link ∈ Nodes.links (walk.draft.applyAll walk.changes).node? .outbound id := by
  obtain ⟨target, path⟩ := link
  obtain ⟨apart, above, name, around, e⟩ := frugal.made id _ now before
  change path = above ++ [.key name] at e
  subst e
  have formed := steady.moored.linked.toFormed
  have enclosed : Enclosed seen (Site.step ⟨id, above⟩ (.key name)) :=
    formed.nested.enclosed_step around trivial
  exact formed.keeps_value consistent enclosed apart now

/-- A link that is detached was there before. -/
theorem went_of_detach (member : .detach id path target ∈ walk.changes) :
    ⟨target, path⟩ ∈ base.links .outbound id ∧
      ⟨target, path⟩ ∉ Nodes.links (walk.draft.applyAll walk.changes).node? .outbound id := by
  have linked := steady.moored.linked
  have settled := linked.settling.applyAll linked.nested consistent
  obtain ⟨-, now⟩ := frugal.detached id path target member
  have vacated := linked.accounted.detached id path target member
  refine ⟨Classical.not_not.mp fun before => ?_, fun left => ?_⟩
  · obtain ⟨-, above, name, around, e⟩ := frugal.made id _ now before
    change path = above ++ [.key name] at e
    subst e
    have enclosed : Enclosed seen (Site.step ⟨id, above⟩ (.key name)) :=
      linked.nested.enclosed_step around trivial
    exact vacated.not_enclosed consistent enclosed
  · by_cases whole : Whole target
    · rcases settled.linked.linked id path target left whole with stored | waiting
      · rw [vacated.read_eq_none settled.shaped] at stored
        cases stored
      · cases waiting
    · exact ((Draft.mem_value_applyAll linked.sound.draft linked.sound.applicable whole).mp left).2
        member

/-- An entity that a place is to refer to was not linked there before. -/
theorem came_of_relink (agrees : Nodes.Linked (fun _ _ _ => False) base)
    (member : .relink id path (some target) ∈ walk.changes) :
    ⟨target, path⟩ ∉ base.links .outbound id ∧
      ⟨target, path⟩ ∈ Nodes.links (walk.draft.applyAll walk.changes).node? .outbound id := by
  have linked := steady.moored.linked
  obtain ⟨content, brought, decides⟩ := linked.accounted.relinked _ _ _ member
  have whole : Whole target := (linked.sound.applicable _ member).2 target rfl
  refine ⟨fun before => ?_, ?_⟩
  · refine frugal.relinked id path target member ?_
    exact (agrees.linked id path target before whole).resolve_right fun impossible => impossible
  · have stored := (linked.holds consistent brought).2 _ decides
    exact (steady.moored.backed consistent _ _ _ stored).1

/-- An entity that was linked at a place that is relinked is no longer linked there. -/
theorem went_of_relink (agrees : Nodes.Linked (fun _ _ _ => False) base) {next : Option NodeId}
    (member : .relink id path next ∈ walk.changes) (whole : Whole target)
    (now : ⟨target, path⟩ ∈ Nodes.links walk.draft.node? .outbound id) :
    ⟨target, path⟩ ∈ base.links .outbound id ∧
      ⟨target, path⟩ ∉ Nodes.links (walk.draft.applyAll walk.changes).node? .outbound id := by
  have linked := steady.moored.linked
  have before := linked.settled id path target now whole
  have settled := linked.settling.applyAll linked.nested consistent
  obtain ⟨content, brought, decides⟩ := linked.accounted.relinked _ _ _ member
  have stored := (linked.holds consistent brought).2 _ decides
  refine ⟨before, fun left => ?_⟩
  rcases settled.linked.linked id path target left whole with held | waiting
  · -- The place would have been relinked to the entity to which it referred.
    rw [show Nodes.read _ id path = _ from stored] at held
    cases next with
    | none => cases held
    | some other =>
      cases held
      exact (frugal.came_of_relink steady consistent agrees member).1 before
  · cases waiting

/-- Whatever is copied until the changes are made counts as edited or has other links by then. -/
theorem copied_applyAll (agrees : Nodes.Linked (fun _ _ _ => False) base)
    (copied : (walk.draft.applyAll walk.changes).changes.contains id) :
    (walk.draft.applyAll walk.changes).edited.contains id ∨
      Relinks base (walk.draft.applyAll walk.changes).node? id := by
  have sound := steady.moored.linked.sound
  have edits := Draft.edits_applyAll walk.draft walk.changes
  rcases Draft.of_contains_changes_applyAll sound.draft sound.applicable copied with before | copies
  · rcases frugal.copied id before with edited | relinks
    · exact .inl (edits.contains_edited edited)
    · refine .inr (relinks.imp ?_ ?_)
      · exact fun before now => frugal.made_applyAll steady consistent now before
      · exact fun before now => absurd (steady.cutting.kept _ _ before) now
  · cases copies with
    | @container change member =>
      refine .inl ?_
      cases change with
      | detach container path target =>
        exact edits.contains_edited (frugal.detached container path target member).1
      | relink container path next => exact Draft.edited_applyAll_of_relink member
    | detached member =>
      obtain ⟨before, now⟩ := frugal.went_of_detach steady consistent member
      exact .inr (.went (.inr rfl) before now)
    | next member =>
      obtain ⟨before, now⟩ := frugal.came_of_relink steady consistent agrees member
      exact .inr (.came (.inr rfl) before now)
    | previous member linked whole =>
      obtain ⟨before, now⟩ := frugal.went_of_relink steady consistent agrees member whole linked
      exact .inr (.went (.inr rfl) before now)

/-! ## Collections -/

/-- The payload came to every node that has a new link, so the node stays. -/
theorem held_of_came {link : Link} (before : link ∉ base.links .outbound id)
    (now : link ∈ Nodes.links (walk.draft.applyAll walk.changes).node? .outbound id) :
    Nodes.Has walk.finish.node? id := by
  have tied := steady.moored.toTied
  have held : Held root walk.draft.node? seen id := by
    rcases Draft.of_mem_outbound_applyAll now with made | member
    · obtain ⟨-, path, name, around, -⟩ := frugal.made id link made before
      exact tied.held _ _ around
    · obtain ⟨content, brought, -⟩ := steady.moored.linked.accounted.relinked _ _ _ member
      exact tied.held _ _ brought
  exact ((steady.moored.kept consistent).2 id held).1.mpr (has_of_mem now)

/-- What a merge copies counts as edited, or it has other links than before. -/
theorem finish (agrees : Nodes.Linked (fun _ _ _ => False) base)
    (copied : walk.finish.changes.contains id) :
    walk.finish.edited.contains id ∨ Relinks base walk.finish.node? id := by
  have sound := steady.moored.linked.sound.applyAll
  have edits := Draft.edits_collectOrphans (walk.draft.applyAll walk.changes)
  have outbound {id : NodeId} (has : Nodes.Has walk.finish.node? id) :
      Nodes.links walk.finish.node? .outbound id =
        Nodes.links (walk.draft.applyAll walk.changes).node? .outbound id :=
    Draft.outbound_collectOrphans _ has
  have came {id : NodeId} {link : Link} (before : link ∉ base.links .outbound id)
      (now : link ∈ Nodes.links (walk.draft.applyAll walk.changes).node? .outbound id) :
      link ∈ Nodes.links walk.finish.node? .outbound id := by
    rw [outbound (frugal.held_of_came steady consistent before now)]
    exact now
  rcases Draft.of_contains_changes_collectOrphans sound.mirrored copied with
    before | lost | ⟨source, path, lost, linked⟩
  · rcases frugal.copied_applyAll steady consistent agrees before with edited | relinks
    · exact .inl (edits.contains_edited edited)
    · refine .inr (relinks.imp came fun _ now left => now ?_)
      rw [← outbound (has_of_mem left)]
      exact left
  · exact .inl (edits.edited_of_gone lost.1 lost.2)
  · -- The source is gone, so its link was no new one.
    have before : ⟨id, path⟩ ∈ base.links .outbound source := Classical.not_not.mp fun before =>
      lost.2 (frugal.held_of_came steady consistent before linked)
    exact .inr (.went (.inr rfl) before fun left => lost.2 (has_of_mem left))

end

end Frugal
end Walk
end ResponseGraph
