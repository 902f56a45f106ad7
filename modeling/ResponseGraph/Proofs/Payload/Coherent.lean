import ResponseGraph.Proofs.Payload.Covered
import ResponseGraph.Proofs.Payload.Interchange

/-!
Payloads that do not contradict themselves.

In a coherent payload positions with one site carry the same thing.  Something that cannot be
stored may be among them, and then no merge succeeds.  If a merge succeeds, the payload is
consistent and suits what was stored, whatever the order of its fields.  So a merge in any other
order succeeds as well, and its nodes are alike.
-/

namespace ResponseGraph

open Nodes NodeId Visit

namespace Visit

/-- Positions with one site carry the same thing, or nothing that can be stored. -/
def Coherent (visits : List Visit) : Prop :=
  ∀ site first second, .brought site first ∈ visits → .brought site second ∈ visits →
    first.agrees second ∨ first = .misfit ∧ second = .misfit

theorem Consistent.coherent {visits : List Visit} (h : Consistent visits) : Coherent visits :=
  fun site first second one two => Or.inl (h site first second one two)

theorem SameBrought.coherent {visits others : List Visit} (h : SameBrought visits others)
    (coherent : Coherent visits) : Coherent others := fun site first second one two =>
  coherent site first second ((h _ _).mpr one) ((h _ _).mpr two)

end Visit

namespace Walk

variable {identify : Json → Option NodeId} {walk walk' : Walk} {seen seen' : List Visit}

/-- A walk takes in nothing that cannot be stored. -/
theorem Step.not_misfit (h : Step identify walk seen walk' seen') {site : Site}
    (fine : .brought site .misfit ∉ seen) : .brought site .misfit ∉ seen' := by
  cases h with
  | warned | grown => exact fine
  | brought due brings =>
    refine fun member => (List.mem_cons.mp member).elim (fun e => ?_) fine
    cases e
    cases brings
  | entered set fields members around =>
    intro member
    simp only [List.mem_cons, reduceCtorEq, false_or] at member
    rcases member with e | member
    · cases e
    · exact fine member

theorem Run.not_misfit (h : Run identify walk seen walk' seen') {site : Site}
    (fine : .brought site .misfit ∉ seen) : .brought site .misfit ∉ seen' := by
  induction h with
  | refl => exact fine
  | tail _ step ih => exact step.not_misfit ih

end Walk

variable {identify : Json → Option NodeId} {root : NodeId} {fields others : Fields}
  {members : List (String × Json)} {payload : Json} {labels labels' : Labels}

/-- If a merge of a coherent payload succeeds, the payload is consistent, and all of it was
seen. -/
theorem Traced.consistent {walk : Walk} {seen : List Visit} {draft : Draft}
    (traced : Traced identify (Visit.ofPayload identify root fields (.object members))
      (.ofDraft draft) [.brought (.root root) .object] walk seen)
    (within : seen ⊆ Visit.ofPayload identify root fields (.object members))
    (walked : Walked seen (Fields.visits false identify (.root root) members fields))
    (coherent : Coherent (Visit.ofPayload identify root fields (.object members)))
    (known : Fields.Known labels fields) :
    Consistent (Visit.ofPayload identify root fields (.object members)) ∧
      ∀ site content, .brought site content ∈
          Visit.ofPayload identify root fields (.object members) →
        ∃ other, .brought site other ∈ seen ∧ other.agrees content := by
  have fine (site : Site) : .brought site .misfit ∉ seen := by
    refine traced.run.not_misfit fun member => ?_
    cases List.mem_singleton.mp member
  have agrees : ∀ site other content, .brought site other ∈ seen →
      .brought site content ∈ Visit.ofPayload identify root fields (.object members) →
      other.agrees content := by
    intro site other content here member
    refine (coherent site other content (within here) member).resolve_right ?_
    rintro ⟨rfl, -⟩
    exact fine site here
  have covers : ∀ site content, .brought site content ∈
      Visit.ofPayload identify root fields (.object members) →
      ∃ other, .brought site other ∈ seen ∧ other.agrees content :=
    fun _ _ member => traced.covers within walked agrees known member
  refine ⟨fun site first second one two => ?_, covers⟩
  refine (coherent site first second one two).resolve_right ?_
  rintro ⟨rfl, -⟩
  obtain ⟨other, -, same⟩ := covers site .misfit one
  cases other <;> cases same

/-- A draft from which a walk can start. -/
structure Draft.Ready (root : NodeId) (draft : Draft) : Prop where
  moored : Walk.Moored root draft.node? (.ofDraft draft) [.brought (.root root) .object]
  once : NamedOnce draft.node?
  attended : Walk.Attended root (.ofDraft draft) [.brought (.root root) .object]

namespace Draft.Ready

variable {draft result : Draft} {warnings : List String}

theorem steady (ready : draft.Ready root) (whole : Whole root) :
    Walk.Steady root draft.node? (.ofDraft draft) [.brought (.root root) .object] :=
  .start ready.moored ready.moored.linked.rooted whole

/-- A payload that was merged suits what was stored. -/
theorem suited (ready : draft.Ready root)
    (coherent : Coherent (Visit.ofPayload identify root fields payload))
    (clean : Consistent (Visit.ofPayload identify root fields payload) →
      Clean identify root draft.node? (Visit.ofPayload identify root fields payload))
    (known : Fields.Known labels fields)
    (merged : draft.merge identify root fields payload = .ok (result, warnings)) :
    Consistent (Visit.ofPayload identify root fields payload) ∧
      Suited draft.node? (Visit.ofPayload identify root fields payload) := by
  obtain ⟨members, walk, seen, rfl, -, traced, within, walked⟩ := merge_traced merged
  obtain ⟨consistent, covers⟩ := traced.consistent within walked coherent known
  have clean := clean consistent
  have steady := traced.run.steady (clean.mono within) (ready.steady clean.whole)
  refine ⟨consistent, fun site content member => ?_⟩
  obtain ⟨other, here, same⟩ := covers site content member
  exact (steady.suited site other here).of_agrees same

/-- A clean payload that suits what was stored is merged, and its outcome follows from what it
brings. -/
theorem merges (ready : draft.Ready root)
    (clean : Clean identify root draft.node?
      (Visit.ofPayload identify root fields (.object members)))
    (suited : Suited draft.node? (Visit.ofPayload identify root fields (.object members)))
    (unrepeated : Unrepeated (Visit.ofPayload identify root fields (.object members)))
    (known : Fields.Known labels fields) :
    ∃ (settled : Draft) (warnings : List String),
      draft.merge identify root fields (.object members) =
        .ok (settled.collectOrphans, warnings) ∧
      settled.Outcome root draft.node?
        (Visit.ofPayload identify root fields (.object members)) := by
  have start : Walk.Underway root draft.node?
      (Visit.ofPayload identify root fields (.object members)) (.ofDraft draft)
      [.brought (.root root) .object] :=
    ⟨ready.steady clean.whole, List.cons_subset.mpr ⟨List.mem_cons_self, List.nil_subset _⟩,
      fun _ _ linked => Or.inl linked⟩
  have opened : Visit.brought (Place.root root).site .object ∈
      [Visit.brought (.root root) .object] := List.mem_cons_self
  obtain ⟨walk, _, done, underway, -⟩ := Fields.merge_proceeds clean suited fields start opened
    (List.subset_cons_self _ _)
  obtain ⟨seen, traced, within, walked⟩ := Fields.traced_of_merge done
  obtain ⟨-, covers⟩ := traced.consistent within walked clean.consistent.coherent known
  have named := clean.named.mono within
  have here : walk.Underway root draft.node? _ seen :=
    ⟨traced.run.steady (clean.mono within) (ready.steady clean.whole), within, underway.made⟩
  refine ⟨walk.draft.applyAll walk.changes, walk.warnings, ?_, here.outcome clean ?_ ?_ ?_⟩
  · rw [Draft.merge, done]
    rfl
  · intro site content member
    obtain ⟨other, seen, -⟩ := covers site content member
    exact ⟨other, seen⟩
  · exact traced.run.namedOnce (unrepeated.mono within) named ready.moored.linked.sound ready.once
  · exact traced.run.attended named ready.attended

/-- A merge of a coherent payload succeeds in every order of fields or in none, and the nodes are
alike then. -/
theorem merge_reordered (ready : draft.Ready root)
    (same : SameBrought (Visit.ofPayload identify root fields payload)
      (Visit.ofPayload identify root others payload))
    (coherent : Coherent (Visit.ofPayload identify root fields payload))
    (clean : Consistent (Visit.ofPayload identify root fields payload) →
      Clean identify root draft.node? (Visit.ofPayload identify root fields payload))
    (distinct : payload.distinct) (known : Fields.Known labels fields)
    (known' : Fields.Known labels' others)
    (merged : draft.merge identify root fields payload = .ok (result, warnings)) :
    ∃ (result' : Draft) (warnings' : List String),
      draft.merge identify root others payload = .ok (result', warnings') ∧
      Nodes.Alike result.node? result'.node? := by
  obtain ⟨consistent, suited⟩ := ready.suited coherent clean known merged
  obtain ⟨members, -, -, rfl, -⟩ := merge_traced merged
  have clean := clean consistent
  have unrepeated : Unrepeated (Visit.ofPayload identify root fields (.object members)) :=
    Visit.unrepeated_ofPayload distinct
  obtain ⟨settled, first, here, outcome⟩ := ready.merges clean suited unrepeated known
  obtain ⟨settled', second, there, outcome'⟩ := ready.merges (same.clean clean)
    (same.suited suited) (same.unrepeated unrepeated) known'
  rw [here] at merged
  cases merged
  exact ⟨_, second, there, outcome.alike (outcome'.of_sameBrought same.symm) unrepeated⟩

end Draft.Ready
end ResponseGraph
