import ResponseGraph.Proofs.Draft.Counted
import ResponseGraph.Proofs.Payload.Attended
import ResponseGraph.Proofs.Payload.Distinct
import ResponseGraph.Proofs.Payload.Proceeds
import ResponseGraph.Proofs.Payload.Reordered

/-!
What a merge leaves, said without its steps.

When the changes of a clean walk are made, every path has what was brought to it, or what it had
before.  A link to the value of a field with arguments is one that was there before and was not
cut off, or it leads to a node that the payload comes to.  None of this speaks of the order in
which the payload was walked, so it holds for a payload that brings the same in another order.
-/

namespace ResponseGraph

open Nodes NodeId Visit

/-- The draft follows from the nodes before a walk and from what was brought. -/
structure Draft.Outcome (root : NodeId) (base : Nodes) (all : List Visit) (draft : Draft) :
    Prop where
  sound : draft.Sound
  linked : Nodes.Linked (fun _ _ _ => False) draft.node?
  once : NamedOnce draft.node?
  aloof : draft.Aloof root
  attended : Nodes.Attended root (fun _ => False) draft.collectOrphans.node?
  nested : Nested all
  holds : ∀ site content, .brought site content ∈ all →
    content.Holds (Nodes.read draft.node? site.container site.path)
  intact : Intact base draft.node? all
  values : ∀ id path target, ¬ Whole target →
    (⟨target, path⟩ ∈ Nodes.links draft.node? .outbound id ↔
      (⟨target, path⟩ ∈ base.links .outbound id ∧ ¬ CutOff base all id path) ∨
      (∃ arguments, NodeId.parameterized id path arguments = .ok target) ∧
        ∃ content, .brought (.root target) content ∈ all)
  present : Walk.Present root base draft.node?

/-! ## The same brought in another order -/

namespace Visit

variable {all others : List Visit} {id : NodeId} {path : Path} {base : Nodes}

theorem SameBrought.symm (h : SameBrought all others) : SameBrought others all :=
  fun site content => (h site content).symm

theorem SameBrought.enclosed (h : SameBrought all others) {site : Site}
    (enclosed : Enclosed all site) : Enclosed others site := by
  intro above step rest e
  obtain ⟨content, around, leads⟩ := enclosed above step rest e
  exact ⟨content, (h _ _).mp around, leads⟩

theorem SameBrought.nested (h : SameBrought all others) (nested : Nested all) : Nested others :=
  ⟨fun site content member => h.enclosed (nested.enclosed site content ((h _ _).mpr member)),
    fun id content member => nested.root id content ((h _ _).mpr member)⟩

theorem SameBrought.intact (h : SameBrought all others) {nodes : Nodes}
    (intact : Intact base nodes all) : Intact base nodes others := fun id path untouched =>
  (intact id path (untouched.of_brought fun site content => (h site content).mp)).of_brought
    fun site content => (h site content).mp

theorem SameBrought.cutOff_iff (h : SameBrought all others) :
    CutOff base all id path ↔ CutOff base others id path :=
  ⟨fun cut => cut.of_brought fun site content => (h site content).mp,
    fun cut => cut.of_brought fun site content => (h site content).mpr⟩

theorem SameBrought.consistent (h : SameBrought all others) (consistent : Consistent all) :
    Consistent others := fun site first second one two =>
  consistent site first second ((h _ _).mpr one) ((h _ _).mpr two)

theorem SameBrought.unrepeated (h : SameBrought all others) (unrepeated : Unrepeated all) :
    Unrepeated others := fun site payload member =>
  unrepeated site payload ((h _ _).mpr member)

theorem SameBrought.suited (h : SameBrought all others) (suited : Suited base all) :
    Suited base others := fun site content member => suited site content ((h _ _).mpr member)

/-- What holds of every entity that is brought. -/
theorem SameBrought.entities (h : SameBrought all others) {holds : NodeId → Prop}
    (every : ∀ visit ∈ all, ∀ id ∈ visit.entity?, holds id) :
    ∀ visit ∈ others, ∀ id ∈ visit.entity?, holds id := by
  intro visit member id named
  cases visit with
  | entered => cases named
  | brought site content => exact every _ ((h site content).mpr member) id named

theorem SameBrought.clean (h : SameBrought all others) {identify : Json → Option NodeId}
    {root : NodeId} (clean : Clean identify root base all) : Clean identify root base others :=
  ⟨clean.unnamed, clean.whole, h.entities clean.named, h.entities clean.distinct,
    h.consistent clean.consistent,
    fun site payload member => clean.spared site payload ((h _ _).mpr member), clean.rooted⟩

end Visit

theorem Draft.Outcome.of_sameBrought {root : NodeId} {base : Nodes} {all others : List Visit}
    {draft : Draft} (h : draft.Outcome root base all) (same : SameBrought all others) :
    draft.Outcome root base others := by
  refine ⟨h.sound, h.linked, h.once, h.aloof, h.attended, same.nested h.nested,
    fun site content member => h.holds site content ((same _ _).mpr member), same.intact h.intact,
    fun id path target apart => ?_, h.present⟩
  rw [h.values id path target apart, same.cutOff_iff]
  simp only [same (.root target) _]

/-! ## What was seen -/

namespace Visit

variable {seen all : List Visit} {base : Nodes}

/-- At every site of `all` something was seen that agrees with what is brought there. -/
def Covers (seen all : List Visit) : Prop := ∀ site content, .brought site content ∈ all →
  ∃ other, .brought site other ∈ seen ∧ other.agrees content

theorem Covers.nested (h : Covers seen all) (within : seen ⊆ all) (consistent : Consistent all)
    (nested : Nested seen) : Nested all := by
  refine ⟨fun site content member => ?_, fun id content member whole => ?_⟩
  · obtain ⟨other, here, -⟩ := h site content member
    exact (nested.enclosed site other here).mono within
  · obtain ⟨other, here, -⟩ := h _ content member
    rw [nested.root id other here whole] at here
    exact Content.eq_object_of_agrees (consistent _ _ _ member (within here))

/-- A link that the payload cuts off is cut off by the positions that were seen. -/
theorem Covers.cutOff (h : Covers seen all) (within : seen ⊆ all) (spared : Walk.Spared base all)
    {id target : NodeId} {path : Path} (linked : ⟨target, path⟩ ∈ base.links .outbound id)
    (cut : CutOff base all id path) : CutOff base seen id path := by
  obtain ⟨above, step, rest, content, value, rfl, member, held, cuts⟩ := cut
  obtain ⟨other, here, same⟩ := h _ content member
  obtain rfl : other = content := cuts.eq_of_agrees same fun payload e => by
    subst e
    have root := (spared _ payload (within here) (step :: rest) target linked).1
    cases root
  exact ⟨above, step, rest, other, value, rfl, here, held, cuts⟩

end Visit

/-! ## A clean walk -/

/-- Something is stored above what was cut off. -/
theorem Vacated.isSome_data {nodes : Nodes} {seen : List Visit} {id : NodeId} {path : Path}
    (h : Vacated seen id path) (shaped : Shaped nodes seen) : (nodes.read id []).isSome := by
  obtain ⟨above, step, rest, content, -, around, closes⟩ := h
  have fits := shaped _ content around
  have stored : ∃ value, nodes.read id above = some value := by
    cases content with
    | null =>
      obtain ⟨value, held, -⟩ := fits
      exact ⟨value, held⟩
    | list length =>
      obtain ⟨items, held, -⟩ := fits
      exact ⟨.list items, held⟩
    | leaf | object | entity | misfit => exact closes.elim
  obtain ⟨value, held⟩ := stored
  rw [← List.nil_append above, read_append] at held
  obtain ⟨data, top, -⟩ := Option.bind_eq_some_iff.mp held
  rw [top]
  rfl

namespace Settling

variable {root : NodeId} {base : Nodes} {seen : List Visit} {draft : Draft} {change : LinkChange}
  {changes : List LinkChange}

/-- Whoever loses a link has data above it, and whoever is relinked has data then. -/
theorem present (h : Settling draft (change :: changes) seen) (spares : Draft.Spares root change)
    (present : Walk.Present root base draft.node?) :
    Walk.Present root base (draft.apply change).node? := by
  have data_apply : change.container = root →
      (Nodes.read (draft.apply change).node? root []).isSome := by
    rintro rfl
    cases change with
    | detach container path target =>
      rw [Draft.read_apply_detach]
      exact (h.accounted.detached _ _ _ List.mem_cons_self).isSome_data h.shaped
    | relink container path next =>
      rw [Draft.read_apply_relink]
      show (Nodes.read (Nodes.write draft.node? container path _) container []).isSome
      rw [read_write]
      rfl
  by_cases e : change.container = root
  · have data := data_apply e
    refine ⟨fun _ => Or.inr (Or.inl data), fun _ => ?_⟩
    exact (Walk.Present.refl root (draft.apply change).node?).mpr (Or.inr (Or.inl data))
  · have has : Nodes.Has (draft.apply change).node? root ↔ Nodes.Has draft.node? root := by
      refine ⟨fun has => ?_, Draft.has_apply⟩
      rcases Draft.has_of_apply has with before | same | ⟨container, path, rfl⟩
      · exact before
      · exact absurd same.symm e
      · exact absurd rfl spares
    unfold Walk.Present
    rw [has, Draft.read_apply_of_ne e]
    simp only [Draft.mem_outbound_apply_of_ne e]
    exact present

theorem present_applyAll (h : Settling draft changes seen) (nested : Nested seen)
    (consistent : Consistent seen) (spares : ∀ change ∈ changes, Draft.Spares root change)
    (present : Walk.Present root base draft.node?) :
    Walk.Present root base (draft.applyAll changes).node? := by
  induction changes generalizing draft with
  | nil => exact present
  | cons change changes ih =>
    exact ih (h.apply nested consistent)
      (fun other member => spares other (List.mem_cons_of_mem _ member))
      (h.present (spares change List.mem_cons_self) present)

end Settling

namespace Walk

variable {identify : Json → Option NodeId} {root : NodeId} {base : Nodes} {all seen : List Visit}
  {walk : Walk}

/-- A node for the value of a field that was seen is linked from its place, and stays so. -/
theorem Moored.linked_of_seen (h : Moored root base walk seen) (whole : Whole root)
    (named : Named seen) (consistent : Consistent seen) {id target : NodeId} {path : Path}
    {arguments : Arguments} {content : Content} (apart : ¬ Whole target)
    (address : NodeId.parameterized id path arguments = .ok target)
    (member : .brought (.root target) content ∈ seen) :
    ⟨target, path⟩ ∈ Nodes.links (walk.draft.applyAll walk.changes).node? .outbound id := by
  cases h.held _ content member with
  | root => exact absurd whole apart
  | entity around => exact absurd (named _ around target rfl) apart
  | @value site _ name around linked _ =>
    have enclosed : Enclosed seen (site.step (.key name)) :=
      h.linked.nested.enclosed_step around trivial
    obtain ⟨arguments', address'⟩ := h.linked.sound.nodes.addressed _ _ _ linked apart
    obtain ⟨rfl, rfl⟩ := NodeId.parameterized_inj address address'
    exact h.linked.keeps_value consistent enclosed apart linked

/-- The links to values of fields with arguments, after a walk that has seen every site. -/
theorem Underway.mem_value (h : Underway root base all walk seen)
    (clean : Clean identify root base all) (covers : Covers seen all) {id target : NodeId}
    {path : Path} (apart : ¬ Whole target) :
    ⟨target, path⟩ ∈ Nodes.links (walk.draft.applyAll walk.changes).node? .outbound id ↔
      (⟨target, path⟩ ∈ base.links .outbound id ∧ ¬ CutOff base all id path) ∨
      (∃ arguments, NodeId.parameterized id path arguments = .ok target) ∧
        ∃ content, .brought (.root target) content ∈ all := by
  obtain ⟨moored, -, cutting, -, -⟩ := h.steady
  have within := h.within
  have settling := moored.linked.settling
  have mem_value : ⟨target, path⟩ ∈
      Nodes.links (walk.draft.applyAll walk.changes).node? .outbound id ↔ _ :=
    Draft.mem_value_applyAll settling.sound settling.applicable apart
  constructor
  · intro linked
    obtain ⟨linked, kept⟩ := mem_value.mp linked
    rcases h.made id _ linked with before | made
    · exact Or.inl ⟨before, fun cut =>
        kept (cutting.all id path target before (covers.cutOff within clean.spared before cut))⟩
    · exact Or.inr ⟨moored.linked.sound.nodes.addressed id target path linked apart, made⟩
  · rintro (⟨before, uncut⟩ | ⟨⟨arguments, address⟩, content, member⟩)
    · exact mem_value.mpr ⟨cutting.kept id _ before, fun detached =>
        uncut ((cutting.only id path target detached).mono within)⟩
    · obtain ⟨other, here, -⟩ := covers _ content member
      exact moored.linked_of_seen clean.whole (clean.named.mono within)
        (clean.consistent.mono within) apart address here

/-- A walk that was underway, and has seen every site. -/
theorem Underway.outcome (h : Underway root base all walk seen)
    (clean : Clean identify root base all)
    (covers : ∀ site content, .brought site content ∈ all → ∃ other, .brought site other ∈ seen)
    (once : NamedOnce walk.draft.node?) (attended : Attended root walk seen) :
    (walk.draft.applyAll walk.changes).Outcome root base all := by
  obtain ⟨moored, intact, -, -, present⟩ := h.steady
  have within := h.within
  have consistent := clean.consistent.mono within
  have nested := moored.linked.nested
  have settling := moored.linked.settling
  have settled := settling.applyAll nested consistent
  have formed := moored.linked.toFormed
  have covers : Covers seen all := fun site content member => by
    obtain ⟨other, here⟩ := covers site content member
    exact ⟨other, here, clean.consistent _ _ _ (within here) member⟩
  refine ⟨settled.sound, settled.linked.mono fun _ _ _ => List.not_mem_nil,
    Draft.namedOnce_applyAll once _,
    moored.aloof.applyAll moored.spares,
    (attended.finish consistent).2, covers.nested within clean.consistent nested,
    fun site content member => ?_, fun id path untouched => ?_,
    fun id path target apart => h.mem_value clean covers apart,
    settling.present_applyAll nested consistent moored.spares present⟩
  · obtain ⟨other, here, same⟩ := covers site content member
    exact (formed.holds consistent here).of_agrees same
  · have stays := formed.forming.intact_applyAll nested consistent intact id path
      (untouched.mono within)
    exact stays.mono within

end Walk
end ResponseGraph
