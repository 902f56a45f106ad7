import ResponseGraph.Proofs.Payload.Linked

/-!
Merges that have settled.

After a consistent walk its changes are made one by one.  A place that is relinked is one
at which an entity or null was brought, and a link that is detached leads from below such
a place or from beyond the end of a list, so no change meets the place of another kind of
change.  In the end nothing is pending, what was brought is stored, and the collection of
nodes takes whole nodes only.
-/

namespace ResponseGraph

open Nodes NodeId Visit

variable {nodes : Nodes} {seen : List Visit} {draft : Draft} {change : LinkChange}
  {changes : List LinkChange}

/-- Nothing is stored at a path that was cut off. -/
theorem Vacated.read_eq_none {id : NodeId} {path : Path} (h : Vacated seen id path)
    (shaped : Shaped nodes seen) : nodes.read id path = none := by
  obtain ⟨above, step, rest, content, rfl, around, closes⟩ := h
  have fits := shaped _ content around
  rw [read_append]
  cases content with
  | null =>
    obtain ⟨value, held, rfl | ⟨target, rfl⟩⟩ := fits
    · rw [show nodes.read id above = _ from held]
      exact Value.get?_null_cons step rest
    · rw [show nodes.read id above = _ from held]
      exact Value.get?_reference_cons target step rest
  | list length =>
    obtain ⟨items, held, long⟩ := fits
    rw [show nodes.read id above = _ from held]
    cases step with
    | key name => rfl
    | index i =>
      have beyond : length ≤ i := closes
      show (items[i]?.bind _) = none
      rw [List.getElem?_eq_none (by omega)]
      rfl
  | leaf | object | entity | misfit => exact closes.elim

/-- A path that was cut off is not inside what was seen. -/
theorem Vacated.not_enclosed {site : Site} (h : Vacated seen site.container site.path)
    (consistent : Consistent seen) : ¬ Enclosed seen site := by
  intro enclosed
  obtain ⟨above, step, rest, closing, e, around, closes⟩ := h
  obtain ⟨opened, inside, leads⟩ := enclosed above step rest e
  have leads := leads.of_agrees (consistent _ _ _ around inside)
  rcases Content.leads_cases leads with ⟨rfl, -⟩ | ⟨length, i, rfl, rfl, short⟩
  · exact closes
  · exact absurd short (Nat.not_lt.mpr closes)

theorem Accounted.tail (h : Accounted (change :: changes) seen) : Accounted changes seen :=
  ⟨fun id path target member => h.detached id path target (List.mem_cons_of_mem _ member),
    fun id path next member => h.relinked id path next (List.mem_cons_of_mem _ member)⟩

/-- No change puts a list or a reference at the root of an entity. -/
theorem Draft.rooted_apply (rooted : Nodes.Rooted draft.node?) (nested : Nested seen)
    (accounted : Accounted (change :: changes) seen) :
    Nodes.Rooted (draft.apply change).node? := by
  intro other whole value stored
  cases change with
  | detach id path target =>
    rw [Draft.read_apply_detach] at stored
    exact rooted other whole value stored
  | relink id path next =>
    obtain ⟨content, brought, decides⟩ := accounted.relinked id path next List.mem_cons_self
    rw [Draft.read_apply_relink] at stored
    refine rooted.write (fun wholeId => ?_) other whole value stored
    refine nested.starts_with_key (nested.enclosed _ content brought) wholeId fun root => ?_
    change path = [] at root
    subst root
    rw [nested.root id content brought wholeId] at decides
    cases decides

/-- What holds of the data while the changes of a consistent walk are made. -/
structure Forming (draft : Draft) (changes : List LinkChange) (seen : List Visit) : Prop where
  shaped : Shaped draft.node? seen
  accounted : Accounted changes seen
  delivered : Delivered draft.node? changes seen

namespace Forming

/-- A place that is relinked is inside what was seen, and nothing else is brought there or
below. -/
theorem relinked (h : Forming draft changes seen) (nested : Nested seen)
    (consistent : Consistent seen) {id : NodeId} {path : Path} {next : Option NodeId}
    (member : .relink id path next ∈ changes) : ∃ content, content.next? = some next ∧
      .brought ⟨id, path⟩ content ∈ seen ∧ Enclosed seen ⟨id, path⟩ ∧
      (∀ other, .brought ⟨id, path⟩ other ∈ seen → content.agrees other) ∧
      ∀ step rest other, .brought ⟨id, path ++ step :: rest⟩ other ∉ seen := by
  obtain ⟨content, brought, decides⟩ := h.accounted.relinked id path next member
  have same : ∀ other, .brought ⟨id, path⟩ other ∈ seen → content.agrees other :=
    fun other member => consistent _ _ _ brought member
  refine ⟨content, decides, brought, nested.enclosed _ content brought, same, ?_⟩
  exact nested.nothing_below ⟨id, path⟩ fun other step member leads =>
    Content.not_leads_of_next? decides (leads.of_agrees (same other member))

theorem apply (nested : Nested seen) (consistent : Consistent seen)
    (h : Forming draft (change :: changes) seen) : Forming (draft.apply change) changes seen := by
  refine ⟨?_, h.accounted.tail, ?_⟩
  · intro site found member
    cases change with
    | detach id path target =>
      rw [Draft.read_apply_detach]
      exact h.shaped site found member
    | relink id path next =>
      obtain ⟨content, decides, -, enclosed, same, leaf⟩ :=
        h.relinked nested consistent List.mem_cons_self
      rw [Draft.read_apply_relink]
      exact h.shaped.write consistent enclosed same leaf (Content.written_referring decides) site
        found member
  · intro site found other member brings
    cases change with
    | detach id path target =>
      rw [Draft.read_apply_detach]
      refine (h.delivered site found other member brings).imp_right fun waiting => ?_
      exact (List.mem_cons.mp waiting).resolve_left fun e => by cases e
    | relink id path next =>
      obtain ⟨content, decides, -, enclosed, same, leaf⟩ :=
        h.relinked nested consistent List.mem_cons_self
      rw [Draft.read_apply_relink]
      refine h.delivered.write consistent enclosed (h.shaped.bears enclosed) same leaf
        (Content.written_referring decides) (fun change member => ?_) site found other member brings
      rcases List.mem_cons.mp member with rfl | member
      · exact Or.inr ⟨next, rfl⟩
      · exact Or.inl member

theorem applyAll (nested : Nested seen) (consistent : Consistent seen)
    (h : Forming draft changes seen) : Forming (draft.applyAll changes) [] seen := by
  induction changes generalizing draft with
  | nil => exact h
  | cons change changes ih => exact ih (h.apply nested consistent)

end Forming

/-- What holds while the changes of a consistent walk are made. -/
structure Settling (draft : Draft) (changes : List LinkChange) (seen : List Visit) : Prop
    extends Forming draft changes seen where
  sound : draft.Sound
  applicable : ∀ change ∈ changes, Draft.Applicable draft.node? change
  rooted : Nodes.Rooted draft.node?
  linked : Nodes.Linked (Detached changes) draft.node?

namespace Settling

theorem detach {id target : NodeId} {path : Path}
    (h : Settling draft (.detach id path target :: changes) seen) :
    Nodes.Linked (Detached changes) (draft.apply (.detach id path target)).node? := by
  refine Draft.linked_apply_detach h.linked ?_ fun other place found waiting => ?_
  · rw [(h.accounted.detached id path target List.mem_cons_self).read_eq_none h.shaped]
    exact Option.some_ne_none _ ∘ Eq.symm
  · rcases List.mem_cons.mp waiting with e | waiting
    · cases e
      exact Or.inr ⟨rfl, rfl, rfl⟩
    · exact Or.inl waiting

theorem relink (nested : Nested seen) (consistent : Consistent seen) {id : NodeId} {path : Path}
    {next : Option NodeId} (h : Settling draft (.relink id path next :: changes) seen) :
    Nodes.Linked (Detached changes) (draft.apply (.relink id path next)).node? := by
  obtain ⟨content, decides, brought, enclosed, -⟩ :=
    h.relinked nested consistent List.mem_cons_self
  have waits : ∀ other place found, Detached (.relink id path next :: changes) other place found →
      Detached changes other place found := fun _ _ _ waiting =>
    (List.mem_cons.mp waiting).resolve_left fun e => by cases e
  refine (Draft.linked_apply_relink h.sound h.linked (h.shaped.bears enclosed)
    (fun value stored => ?_) (fun target waiting => ?_)
    (h.applicable _ List.mem_cons_self).2).mono waits
  · have fits := h.shaped _ content brought
    cases content <;> cases decides
    · obtain ⟨found, held, flat⟩ := fits
      rw [show Nodes.read draft.node? id path = _ from held] at stored
      cases stored
      exact flat
    · exact fits value stored
  · exact (h.accounted.detached id path target waiting).not_enclosed consistent enclosed

theorem apply (nested : Nested seen) (consistent : Consistent seen)
    (h : Settling draft (change :: changes) seen) : Settling (draft.apply change) changes seen := by
  refine ⟨h.toForming.apply nested consistent, h.sound.apply (h.applicable _ List.mem_cons_self),
    fun other member => ?_, Draft.rooted_apply h.rooted nested h.accounted, ?_⟩
  · exact (h.applicable other (List.mem_cons_of_mem _ member)).mono fun _ => Draft.has_apply
  · cases change with
    | detach id path target => exact h.detach
    | relink id path next => exact h.relink nested consistent

theorem applyAll (nested : Nested seen) (consistent : Consistent seen)
    (h : Settling draft changes seen) : Settling (draft.applyAll changes) [] seen := by
  induction changes generalizing draft with
  | nil => exact h
  | cons change changes ih => exact ih (h.apply nested consistent)

end Settling

theorem Walk.Formed.forming {walk : Walk} (h : walk.Formed seen) :
    Forming walk.draft walk.changes seen := ⟨h.shaped, h.accounted, h.delivered⟩

theorem Walk.Linked.settling {base : Nodes} {walk : Walk} (h : walk.Linked base seen) :
    Settling walk.draft walk.changes seen :=
  ⟨h.forming, h.sound.draft, h.sound.applicable, h.rooted, h.linked⟩

/-- Collecting nodes takes data and links together. -/
theorem Draft.linked_collectOrphans {pending : NodeId → Path → NodeId → Prop}
    (linked : Nodes.Linked pending draft.node?) (rooted : Nodes.Rooted draft.node?) :
    Nodes.Linked pending draft.collectOrphans.node? ∧ Nodes.Rooted draft.collectOrphans.node? := by
  refine collectOrphans_induct
    (motive := fun nodes _ => Nodes.Linked pending nodes ∧ Nodes.Rooted nodes) ?_ ?_ draft
    ⟨linked, rooted⟩
  · exact fun _ _ _ _ kept => kept
  · exact fun _ id _ _ _ _ kept => ⟨kept.1.collected id, kept.2.collected id⟩

/-- After a consistent merge references and links agree. -/
theorem Walk.Linked.finish {base : Nodes} {walk : Walk} (h : walk.Linked base seen)
    (consistent : Consistent seen) :
    Nodes.Linked (fun _ _ _ => False) walk.finish.node? ∧ Nodes.Rooted walk.finish.node? := by
  have settled := h.settling.applyAll h.nested consistent
  refine Draft.linked_collectOrphans
    (settled.linked.mono fun id path target waiting => ?_) settled.rooted
  exact List.not_mem_nil waiting

end ResponseGraph
