import ResponseGraph.Proofs.Payload.Suited

/-!
Links below null and beyond the end of a list.

When null comes in the place of an object or a list, or a list gets shorter, the links below go
with the data.  So a link through an item of a list leads through one that the list has
(`Nodes.Listed`), whatever a clean walk did before.

The same is not true of objects.  An object without an id is not stored by itself, so the value
of a field with arguments may be linked from below a place where nothing is stored, or null.
Nothing is cut off there, and such links outlive the null that is brought to the place.
-/

namespace ResponseGraph

open Nodes NodeId Visit

/-- Nothing is stored, or null or a reference, and so nothing below. -/
def Flat (stored : Option Value) : Prop :=
  ∀ value, stored = some value → value = .null ∨ ∃ id, value = .reference id

/-- A link through an item of a list leads through one that the list has. -/
def Nodes.Listed (nodes : Nodes) : Prop :=
  ∀ id target above i rest, ⟨target, above ++ .index i :: rest⟩ ∈ nodes.links .outbound id →
    ∃ items, nodes.read id above = some (.list items) ∧ i < items.length

/-- What a step leads into is an object with a key, or a list with the index. -/
theorem Value.step?_cases {value : Value} {step : Step} (h : (value.step? step).isSome) :
    (∃ members name, value = .object members ∧ step = .key name) ∨
      ∃ items i, value = .list items ∧ step = .index i ∧ i < items.length := by
  cases value with
  | object members =>
    cases step with
    | key name => exact Or.inl ⟨members, name, rfl, rfl⟩
    | index i => cases h
  | list items =>
    cases step with
    | key name => cases h
    | index i =>
      obtain ⟨found, here⟩ := Option.isSome_iff_exists.mp h
      exact Or.inr ⟨items, i, rfl, rfl, (List.getElem?_eq_some_iff.mp here).1⟩
  | _ => cases step <;> cases h

/-- What is above something that is stored is stored, and leads on. -/
theorem Nodes.exists_step {nodes : Nodes} {id : NodeId} {path rest : Path} {step : Step}
    (stored : (nodes.read id (path ++ step :: rest)).isSome) :
    ∃ value, nodes.read id path = some value ∧ (value.step? step).isSome := by
  obtain ⟨found, stored⟩ := Option.isSome_iff_exists.mp stored
  rw [read_append] at stored
  obtain ⟨value, held, stored⟩ := Option.bind_eq_some_iff.mp stored
  rw [Value.get?_cons] at stored
  obtain ⟨below, taken, -⟩ := Option.bind_eq_some_iff.mp stored
  exact ⟨value, held, Option.isSome_iff_exists.mpr ⟨below, taken⟩⟩

/-- Whatever is stored below an index is in a list that has the item. -/
theorem Nodes.list_of_stored {nodes : Nodes} {id : NodeId} {above rest : Path} {i : Nat}
    (stored : (nodes.read id (above ++ .index i :: rest)).isSome) :
    ∃ items, nodes.read id above = some (.list items) ∧ i < items.length := by
  obtain ⟨value, held, leads⟩ := exists_step stored
  rcases Value.step?_cases leads with ⟨_, _, -, e⟩ | ⟨items, _, rfl, e, inside⟩
  · cases e
  · cases e
    exact ⟨items, held, inside⟩

namespace Flat

variable {stored : Option Value} {content : Content} {value : Value} {step : Step}

theorem not_cuts (h : Flat stored) (held : stored = some value) : ¬ content.Cuts value step := by
  intro cuts
  rcases Content.cuts_cases cuts with ⟨-, full, noEntity⟩ | ⟨_, _, _, -, rfl, -⟩
  · rcases h value held with rfl | ⟨id, rfl⟩
    · exact full rfl
    · cases noEntity
  · rcases h _ held with e | ⟨_, e⟩ <;> cases e

/-- Whatever is not flat is cut off by null. -/
theorem of_not_cuts (step : Step)
    (h : ∀ value, stored = some value → ¬ Content.null.Cuts value step) : Flat stored := by
  intro value held
  by_contra other
  obtain ⟨full, noEntity⟩ := not_or.mp other
  refine h value held ⟨full, ?_⟩
  cases value with
  | reference id => exact absurd ⟨id, rfl⟩ noEntity
  | _ => rfl

theorem read_below {nodes : Nodes} {id : NodeId} {path rest : Path}
    (h : Flat (nodes.read id path)) : nodes.read id (path ++ step :: rest) = none := by
  by_contra stored
  obtain ⟨value, held, leads⟩ := exists_step (Option.isSome_iff_ne_none.mpr stored)
  rcases h value held with rfl | ⟨target, rfl⟩ <;> cases step <;> cases leads

end Flat

/-- What comes to where a value leads on leads on as well, or cuts it off. -/
theorem Content.leads_of_not_cuts {content : Content} {value : Value} {step : Step}
    (suits : content.Suits (some value)) (uncut : ¬ content.Cuts value step)
    (below : (value.step? step).isSome) (noLeaf : ∀ payload, content ≠ .leaf payload) :
    content.Leads step := by
  rcases Value.step?_cases below with ⟨members, name, rfl, rfl⟩ | ⟨items, i, rfl, rfl, inside⟩
  · cases content with
    | leaf payload => exact absurd rfl (noLeaf payload)
    | null => exact absurd ⟨(nomatch ·), rfl⟩ uncut
    | object => trivial
    | list length => cases suits rfl
    | entity id => cases suits rfl
    | misfit => exact suits
  · cases content with
    | leaf payload => exact absurd rfl (noLeaf payload)
    | null => exact absurd ⟨(nomatch ·), rfl⟩ uncut
    | object => cases suits.1
    | list length =>
      refine Nat.not_le.mp fun beyond => uncut ?_
      exact ⟨beyond, Nat.lt_of_le_of_lt beyond inside⟩
    | entity id => cases suits rfl
    | misfit => exact suits

/-- Nothing that is brought to where null is brought leads on. -/
theorem Visit.not_leads_of_null {seen : List Visit} {site : Site} {content other : Content}
    {step : Step} (consistent : Consistent seen) (here : .brought site content ∈ seen)
    (null : content.agrees .null) (member : .brought site other ∈ seen) : ¬ other.Leads step := by
  intro leads
  have leads := leads.of_agrees (consistent _ _ _ here member)
  cases content <;> first | exact leads | cases null

namespace Walk

/-- What holds between the steps of a clean walk, wherever it starts. -/
structure Trimming (base : Nodes) (walk : Walk) (seen : List Visit) : Prop where
  linked : Walk.Linked base walk seen
  intact : Intact base walk.draft.node? seen
  cutting : Cutting base walk seen
  suited : Suited base seen
  grown : ∀ id link, link ∈ Nodes.links walk.draft.node? .outbound id →
    link ∈ base.links .outbound id ∨ Enclosed seen ⟨id, link.path⟩

variable {identify : Json → Option NodeId} {walk walk' : Walk} {seen seen' : List Visit}
  {base : Nodes}

theorem Step.trimming (h : Step identify walk seen walk' seen') (unnamed : identify .null = none)
    (named : Named seen') (consistent : Consistent seen') (spared : Spared base seen')
    (rooted : base.Rooted) (trimming : Trimming base walk seen) : Trimming base walk' seen' := by
  obtain ⟨linked, intact, cutting, suited, grown⟩ := trimming
  refine ⟨h.linked unnamed named consistent spared.bare linked, h.intact linked.toFormed intact,
    h.cutting cutting linked intact unnamed consistent spared,
    h.suited rooted named consistent linked intact suited, fun id link member => ?_⟩
  have kept := h.seen_subset
  have before (old : link ∈ Nodes.links walk.draft.node? .outbound id) :
      link ∈ base.links .outbound id ∨ Enclosed seen' ⟨id, link.path⟩ :=
    (grown id link old).imp_right fun enclosed => enclosed.mono kept
  cases h with
  | warned | entered => exact before member
  | brought due brings =>
    rw [brings.touches.links] at member
    exact before member
  | grown name around address fresh =>
    have missing := linked.sound.nodes.eq_none_of_not_linked address fresh
    rw [nodes_grow, mem_outbound_sprout missing rfl] at member
    rcases member with old | ⟨rfl, rfl⟩
    · exact before old
    · exact Or.inr (linked.nested.enclosed_step around trivial)

theorem Run.trimming (h : Run identify walk seen walk' seen') (unnamed : identify .null = none)
    (named : Named seen') (consistent : Consistent seen') (spared : Spared base seen')
    (rooted : base.Rooted) (trimming : Trimming base walk seen) : Trimming base walk' seen' := by
  induction h with
  | refl => exact trimming
  | tail run step ih =>
    have kept := step.seen_subset
    exact step.trimming unnamed named consistent spared rooted
      (ih (named.mono kept) (consistent.mono kept) (spared.mono kept))

namespace Trimming

variable {id target : NodeId} {path above rest : Path} {step : ResponseGraph.Step}
  {content : Content}

theorem start {draft : Draft} {root : NodeId}
    (linked : Walk.Linked draft.node? (.ofDraft draft) [.brought (.root root) .object])
    (rooted : Nodes.Rooted draft.node?) (whole : Whole root) :
    Trimming draft.node? (.ofDraft draft) [.brought (.root root) .object] :=
  ⟨linked, fun _ _ _ => Or.inl rfl, .start draft root, suited_start rooted whole,
    fun _ _ member => Or.inl member⟩

/-- A link to the value of a field with arguments leads inside what was seen, or it was there
before and is not cut off. -/
theorem mem_value_cases (h : Trimming base walk seen) (apart : ¬ Whole target)
    (member : ⟨target, path⟩ ∈
      Nodes.links (walk.draft.applyAll walk.changes).node? .outbound id) :
    Enclosed seen ⟨id, path⟩ ∨
      ⟨target, path⟩ ∈ base.links .outbound id ∧ ¬ CutOff base seen id path := by
  have settling := h.linked.settling
  obtain ⟨member, kept⟩ :=
    (Draft.mem_value_applyAll settling.sound settling.applicable apart).mp member
  rcases h.grown id _ member with before | enclosed
  · exact Or.inr ⟨before, fun cut => kept (h.cutting.all id path target before cut)⟩
  · exact Or.inl enclosed

/-- Whatever was brought above a link that is not cut off leads on, if what was stored there
did. -/
theorem leads (h : Trimming base walk seen) (spared : Spared base seen)
    (linked : ⟨target, above ++ step :: rest⟩ ∈ base.links .outbound id)
    (uncut : ¬ CutOff base seen id (above ++ step :: rest))
    {value : Value} (held : base.read id above = some value) (below : (value.step? step).isSome)
    (member : .brought ⟨id, above⟩ content ∈ seen) : content.Leads step := by
  have suits : content.Suits (base.read id above) := h.suited _ _ member
  rw [held] at suits
  refine Content.leads_of_not_cuts suits (fun cuts => ?_) below fun payload e => ?_
  · exact uncut ⟨above, step, rest, content, value, rfl, member, held, cuts⟩
  · subst e
    have root := (spared _ _ member (step :: rest) target linked).1
    cases root

/-- What is stored above a link that is not cut off is untouched where nothing is brought. -/
theorem untouched (h : Trimming base walk seen) (spared : Spared base seen)
    (linked : ⟨target, path ++ rest⟩ ∈ base.links .outbound id)
    (uncut : ¬ CutOff base seen id (path ++ rest)) (stored : (base.read id path).isSome)
    (unseen : ∀ content, .brought ⟨id, path⟩ content ∉ seen) : Untouched seen id path := by
  intro place content member other
  rcases Path.cases place path with ⟨below, rfl⟩ | ⟨step, below, rfl⟩ | apart
  · cases below with
    | nil =>
      rw [List.append_nil] at unseen
      exact absurd member (unseen content)
    | cons step below =>
      obtain ⟨value, held, leads⟩ := exists_step stored
      rw [List.append_assoc, List.cons_append] at linked uncut
      rcases Content.leads_cases (h.leads spared linked uncut held leads member) with
        ⟨object, -⟩ | ⟨length, i, list, rfl, inside⟩
      · exact absurd object other
      · exact Or.inr ⟨length, i, below, list, inside, rfl⟩
  · obtain ⟨around, above, -⟩ := h.linked.nested.enclosed _ content member path step below rfl
    exact absurd above (unseen around)
  · exact Or.inl apart

/-- Where a link through an item of a list is not cut off, the list still has the item. -/
theorem list_of_uncut (h : Trimming base walk seen) (consistent : Consistent seen)
    (spared : Spared base seen) {i : Nat} {items : List Value}
    (linked : ⟨target, above ++ .index i :: rest⟩ ∈ base.links .outbound id)
    (uncut : ¬ CutOff base seen id (above ++ .index i :: rest))
    (held : base.read id above = some (.list items)) (inside : i < items.length) :
    ∃ items, Nodes.read (walk.draft.applyAll walk.changes).node? id above = some (.list items) ∧
      i < items.length := by
  have formed := h.linked.toFormed
  by_cases unseen : ∀ content, .brought ⟨id, above⟩ content ∉ seen
  · have untouched := h.untouched spared linked uncut (held ▸ rfl) unseen
    rcases formed.forming.intact_applyAll formed.nested consistent h.intact id above untouched with
      same | ⟨missing, -⟩
    · exact ⟨items, same.trans held, inside⟩
    · rw [held] at missing
      cases missing
  · obtain ⟨content, member⟩ := Classical.not_forall_not.mp unseen
    have below : ((Value.list items).step? (.index i)).isSome := by
      rw [Value.step?_index, show (Value.list items).items = items from rfl,
        List.getElem?_eq_getElem inside]
      rfl
    rcases Content.leads_cases (h.leads spared linked uncut held below member) with
      ⟨-, name, e⟩ | ⟨length, j, rfl, e, short⟩
    · cases e
    · cases e
      obtain ⟨others, stored, long⟩ := (formed.holds consistent member).1
      exact ⟨others, stored, long ▸ short⟩

theorem listed (h : Trimming base walk seen) (consistent : Consistent seen)
    (spared : Spared base seen) (listed : base.Listed) :
    Nodes.Listed (walk.draft.applyAll walk.changes).node? := by
  intro id target above i rest member
  have formed := h.linked.toFormed
  by_cases whole : Whole target
  · have settled := h.linked.settling.applyAll formed.nested consistent
    have stored := (settled.linked.linked id _ target member whole).resolve_right List.not_mem_nil
    exact list_of_stored (Option.isSome_iff_exists.mpr ⟨_, stored⟩)
  · rcases h.mem_value_cases whole member with enclosed | ⟨before, uncut⟩
    · obtain ⟨content, around, leads⟩ := enclosed above (.index i) rest rfl
      rcases Content.leads_cases leads with ⟨-, name, e⟩ | ⟨length, j, rfl, e, inside⟩
      · cases e
      · cases e
        obtain ⟨items, stored, long⟩ := (formed.holds consistent around).1
        exact ⟨items, stored, long ▸ inside⟩
    · obtain ⟨items, held, inside⟩ := listed id target above i rest before
      exact h.list_of_uncut consistent spared before uncut held inside

/-- Null cuts nothing off below a place that is flat, and neither does anything around it. -/
theorem not_cutOff (h : Trimming base walk seen) (consistent : Consistent seen) {site : Site}
    (here : .brought site content ∈ seen) (null : content.agrees .null)
    (flat : Flat (base.read site.container site.path)) :
    ¬ CutOff base seen site.container (site.path ++ step :: rest) := by
  have nested := h.linked.nested
  rintro ⟨above, next, below, found, value, e, member, held, cuts⟩
  rcases Path.cases above site.path with ⟨between, inner⟩ | ⟨inside, between, rfl⟩ | apart
  · cases between with
    | nil =>
      rw [List.append_nil] at inner
      rw [inner] at flat
      exact flat.not_cuts held cuts
    | cons first between =>
      rw [inner, List.append_assoc, List.cons_append, List.append_cancel_left_eq] at e
      injection e with same
      subst same
      obtain ⟨other, around, leads⟩ := nested.enclosed site content here above first between inner
      have leads := leads.of_agrees (consistent _ _ _ member around)
      rcases Content.leads_cases leads with ⟨rfl, -⟩ | ⟨length, i, rfl, rfl, short⟩
      · exact cuts
      · obtain ⟨items, j, -, e, beyond, -⟩ := Content.cuts_list cuts
        cases e
        exact Nat.not_lt.mpr beyond short
  · obtain ⟨other, around, leads⟩ := nested.enclosed _ found member site.path inside between rfl
    exact not_leads_of_null consistent here null around leads
  · rcases List.prefix_or_prefix_of_prefix ⟨_, e⟩ ⟨_, rfl⟩ with outer | outer
    · exact apart.2 outer
    · exact apart.1 outer

/-- Null leaves exactly the links that were below it before, and none of them if an object, a
list or a value without sub-selection was stored. -/
theorem mem_below_null (h : Trimming base walk seen) (consistent : Consistent seen)
    (spared : Spared base seen) (agree : Nodes.Linked (fun _ _ _ => False) base) {site : Site}
    (here : .brought site content ∈ seen) (null : content.agrees .null) :
    ⟨target, site.path ++ step :: rest⟩ ∈
        Nodes.links (walk.draft.applyAll walk.changes).node? .outbound site.container ↔
      ⟨target, site.path ++ step :: rest⟩ ∈ base.links .outbound site.container ∧
        Flat (base.read site.container site.path) := by
  have formed := h.linked.toFormed
  constructor
  · intro member
    have apart : ¬ Whole target := by
      intro whole
      have settled := h.linked.settling.applyAll formed.nested consistent
      have stored := (settled.linked.linked _ _ target member whole).resolve_right
        List.not_mem_nil
      have holds := ((formed.holds consistent here).of_agrees null).2 none rfl
      rw [Flat.read_below fun value held => Or.inl (Option.some.inj (held.symm.trans holds))]
        at stored
      cases stored
    rcases h.mem_value_cases apart member with enclosed | ⟨before, uncut⟩
    · obtain ⟨other, around, leads⟩ := enclosed site.path step rest rfl
      exact absurd leads (not_leads_of_null consistent here null around)
    · refine ⟨before, Flat.of_not_cuts step fun value held cuts => ?_⟩
      obtain rfl : content = .null := cuts.eq_of_agrees null fun payload e => by
        subst e
        have root := (spared _ _ here (step :: rest) target before).1
        cases root
      exact uncut ⟨site.path, step, rest, .null, value, rfl, here, held, cuts⟩
  · rintro ⟨before, flat⟩
    have apart : ¬ Whole target := by
      intro whole
      have stored := (agree.linked _ _ target before whole).resolve_right id
      rw [flat.read_below] at stored
      cases stored
    have settling := h.linked.settling
    refine (Draft.mem_value_applyAll settling.sound settling.applicable apart).mpr
      ⟨h.cutting.kept _ _ before, fun detached => ?_⟩
    exact h.not_cutOff consistent here null flat (h.cutting.only _ _ _ detached)

end Trimming
end Walk
end ResponseGraph
