import ResponseGraph.Proofs.Payload.Untouched

/-!
Links that a payload cuts off.

Null in place of a list or an object, and a list that is shorter than before, cut off whatever is
linked below.  Which links these are follows from what was stored before and from what the payload
brings, whatever the order: the changes of a walk detach a link that was there before exactly if
it is cut off (`Walk.Cutting`).
-/

namespace ResponseGraph

open Nodes NodeId Visit

/-- Of the value, what is below the step is cut off by the content. -/
def Content.Cuts : Content → Value → Step → Prop
  | .null, value, _ => value ≠ .null ∧ value.reference? = none
  | .list length, .list items, .index i => length ≤ i ∧ length < items.length
  | _, _, _ => False

theorem Content.cuts_cases {content : Content} {value : Value} {step : Step}
    (h : content.Cuts value step) :
    (content = .null ∧ value ≠ .null ∧ value.reference? = none) ∨
      ∃ length items i, content = .list length ∧ value = .list items ∧ step = .index i ∧
        length ≤ i ∧ length < items.length := by
  unfold Cuts at h
  split at h
  · exact Or.inl ⟨rfl, h⟩
  · next length items i => exact Or.inr ⟨length, items, i, rfl, rfl, rfl, h⟩
  · exact h.elim

/-- A list is cut off where it is longer. -/
theorem Content.cuts_list {length : Nat} {value : Value} {step : Step}
    (h : (Content.list length).Cuts value step) : ∃ items i, value = .list items ∧
      step = .index i ∧ length ≤ i ∧ length < items.length := by
  rcases cuts_cases h with ⟨e, -⟩ | ⟨_, items, i, e, rfl, rfl, le, lt⟩
  · cases e
  · cases e
    exact ⟨items, i, rfl, rfl, le, lt⟩

/-- What is cut off does not fit anything that carries the same. -/
theorem Content.Cuts.not_fits {content other : Content} {value : Value} {step : Step}
    (h : content.Cuts value step) (same : other.agrees content) : ¬ other.Fits (some value) := by
  intro fits
  rcases cuts_cases h with ⟨rfl, full, noEntity⟩ | ⟨length, items, i, rfl, rfl, rfl, -, lt⟩
  · cases other with
    | leaf payload =>
      obtain ⟨_, e, equal⟩ := fits
      cases e
      cases payload <;> cases same
      cases value <;> first | exact full rfl | cases equal
    | null =>
      obtain ⟨_, e, rfl | ⟨id, rfl⟩⟩ := fits
      · exact full (Option.some.inj e)
      · cases e
        cases noEntity
    | _ => cases same
  · rw [eq_list_of_agrees same] at fits
    obtain ⟨_, e, long⟩ := fits
    cases e
    omega

/-- What cuts something off is the same as whatever carries the same, but for null that is a value
without sub-selection. -/
theorem Content.Cuts.eq_of_agrees {content other : Content} {value : Value} {step : Step}
    (h : content.Cuts value step) (same : other.agrees content)
    (noLeaf : ∀ payload, other ≠ .leaf payload) : other = content := by
  rcases cuts_cases h with ⟨rfl, -⟩ | ⟨length, items, i, rfl, -⟩
  · cases other with
    | leaf payload => exact absurd rfl (noLeaf payload)
    | null => rfl
    | _ => cases same
  · exact eq_list_of_agrees same

/-- What was below the path is cut off by something that was seen above it. -/
def Visit.CutOff (base : Nodes) (seen : List Visit) (id : NodeId) (path : Path) : Prop :=
  ∃ above step rest content value, path = above ++ step :: rest ∧
    .brought ⟨id, above⟩ content ∈ seen ∧ base.read id above = some value ∧
    content.Cuts value step

theorem Visit.CutOff.of_brought {base : Nodes} {seen more : List Visit} {id : NodeId} {path : Path}
    (h : CutOff base seen id path)
    (within : ∀ site content, .brought site content ∈ seen → .brought site content ∈ more) :
    CutOff base more id path := by
  obtain ⟨above, step, rest, content, value, e, member, held, cuts⟩ := h
  exact ⟨above, step, rest, content, value, e, within _ _ member, held, cuts⟩

theorem Visit.CutOff.mono {base : Nodes} {seen more : List Visit} {id : NodeId} {path : Path}
    (h : CutOff base seen id path) (subset : seen ⊆ more) : CutOff base more id path :=
  h.of_brought fun _ _ member => subset member

namespace Walk

variable {identify : Json → Option NodeId} {walk walk' : Walk} {seen seen' : List Visit}
  {place : Place} {content : Content} {base : Nodes}

/-- No value without sub-selection comes to a reference to an entity, or above any link. -/
def Spared (base : Nodes) (seen : List Visit) : Prop :=
  ∀ site payload, .brought site (.leaf payload) ∈ seen → ∀ rest target,
    ⟨target, site.path ++ rest⟩ ∈ base.links .outbound site.container → rest = [] ∧ ¬ Whole target

theorem Spared.mono (h : Spared base seen') (subset : seen ⊆ seen') : Spared base seen :=
  fun site payload member => h site payload (subset member)

theorem Spared.bare (h : Spared base seen) : Bare base seen :=
  fun site payload member rest target whole linked =>
    (h site payload member rest target linked).2 whole

/-- The link leads below what the content cuts off at the place. -/
def Loses (walk : Walk) (place : Place) (content : Content) (link : Link) : Prop :=
  link ∈ Nodes.links walk.draft.node? .outbound place.container ∧
    ∃ step rest value, link.path = place.path ++ step :: rest ∧
      walk.stored? place = some value ∧ content.Cuts value step

/-- Exactly the links that are lost are to be detached from now on. -/
def Detaches (walk : Walk) (place : Place) (content : Content) (walk' : Walk) : Prop :=
  ∀ id path target, .detach id path target ∈ walk'.changes ↔
    .detach id path target ∈ walk.changes ∨
      id = place.container ∧ walk.Loses place content ⟨target, path⟩

theorem detaches_nothing
    (same : ∀ id path target, .detach id path target ∈ walk'.changes ↔
      .detach id path target ∈ walk.changes)
    (uncut : ∀ value step, walk.stored? place = some value → ¬ content.Cuts value step) :
    Detaches walk place content walk' := by
  intro id path target
  rw [same]
  refine (or_iff_left ?_).symm
  rintro ⟨-, -, step, rest, value, -, held, cuts⟩
  exact uncut value step held cuts

theorem mem_detach_relink (next : Option NodeId) (id : NodeId) (path : Path) (target : NodeId) :
    .detach id path target ∈ (walk.relink place next).changes ↔
      .detach id path target ∈ walk.changes := by
  show _ ∈ walk.changes ++ [_] ↔ _
  simp

theorem detaches_clear (full : occupied (walk.stored? place))
    (noEntity : entity? (walk.stored? place) = none) :
    Detaches walk place .null (walk.clear place) := by
  obtain ⟨value, held, other⟩ := (Option.any_eq_true _ _).mp full
  rw [held] at noEntity
  intro id path target
  refine mem_changes_detachBelow.trans (or_congr_right ⟨?_, ?_⟩)
  · rintro ⟨link, linked, below, e⟩
    cases e
    obtain ⟨step, rest, e, -⟩ := leadsBelow_iff.mp below
    refine ⟨rfl, linked, step, rest, value, e, held, fun null => ?_, noEntity⟩
    subst null
    cases other
  · rintro ⟨rfl, linked, step, rest, value, e, -⟩
    exact ⟨⟨target, path⟩, linked, leadsBelow_iff.mpr ⟨step, rest, e, fun _ e => by cases e⟩, rfl⟩

theorem Fitted.detaches {length : Nat}
    (h : Fitted walk place (list? (walk.stored? place)) length walk') :
    Detaches walk place (.list length) walk' := by
  have uncut {items : List Value} (stored : list? (walk.stored? place) = some items)
      (short : items.length ≤ length) (value : Value) (step : ResponseGraph.Step)
      (held : walk.stored? place = some value) : ¬ Content.Cuts (.list length) value step := by
    intro cuts
    obtain ⟨others, i, rfl, -, -, long⟩ := Content.cuts_list cuts
    rw [held] at stored
    cases stored
    omega
  cases h with
  | made stored =>
    refine detaches_nothing (fun _ _ _ => Iff.rfl) fun value step held cuts => ?_
    obtain ⟨items, -, rfl, -⟩ := Content.cuts_list cuts
    rw [held] at stored
    cases stored
  | kept stored long =>
    exact detaches_nothing (fun _ _ _ => Iff.rfl) (uncut stored (Nat.le_of_eq long))
  | grown stored short =>
    exact detaches_nothing (fun _ _ _ => Iff.rfl) (uncut stored (Nat.le_of_lt short))
  | @cut items stored long =>
    have wrote (id : NodeId) : Nodes.links
        (walk.write place (.list (Value.resize items length))).draft.node? .outbound id =
          Nodes.links walk.draft.node? .outbound id := Draft.links_set _ _ _ _ _ _
    intro id path target
    refine mem_changes_detachBelow.trans (or_congr_right ⟨?_, ?_⟩)
    · rintro ⟨link, linked, below, e⟩
      cases e
      rw [wrote] at linked
      obtain ⟨step, rest, e, inside⟩ := leadsBelow_iff.mp below
      obtain ⟨i, rfl, le⟩ := inside length rfl
      exact ⟨rfl, linked, _, rest, _, e, list?_eq_some.mp stored, le, long⟩
    · rintro ⟨rfl, linked, step, rest, value, e, held, cuts⟩
      obtain ⟨others, i, rfl, rfl, le, -⟩ := Content.cuts_list cuts
      refine ⟨⟨target, path⟩, ?_, leadsBelow_iff.mpr ⟨_, rest, e, ?_⟩, rfl⟩
      · rw [wrote]
        exact linked
      · intro first e
        cases e
        exact ⟨i, rfl, le⟩

/-- The links that a visit gives up are those below what it cuts off. -/
theorem Brings.detaches (h : Brings identify walk place content walk')
    (unnamed : identify .null = none) : Detaches walk place content walk' := by
  cases h with
  | leaf payload =>
    refine detaches_nothing (fun _ _ _ => ?_) fun _ _ _ cuts => cuts
    unfold Walk.leaf
    split <;> rfl
  | object | same => exact detaches_nothing (fun _ _ _ => Iff.rfl) fun _ _ _ cuts => cuts
  | refer => exact detaches_nothing (mem_detach_relink _) fun _ _ _ cuts => cuts
  | unlink stored =>
    refine detaches_nothing (mem_detach_relink _) fun value step held cuts => ?_
    obtain ⟨id, named⟩ := Option.isSome_iff_exists.mp stored
    rw [entity?_eq_some, held] at named
    cases named
    cases cuts.2
  | fill stored =>
    refine detaches_nothing (fun _ _ _ => Iff.rfl) fun value step held _ => ?_
    rw [stored] at held
    cases held
  | keep stored =>
    refine detaches_nothing (fun _ _ _ => Iff.rfl) fun value step held cuts => cuts.1 ?_
    rw [stored] at held
    exact (Option.some.inj held).symm
  | clear stored inner => exact detaches_clear stored (inner unnamed)
  | list length => exact (fitted ..).detaches

end Walk

/-! ## What is cut off over a walk -/

namespace Walk

variable {identify : Json → Option NodeId} {walk walk' : Walk} {seen seen' : List Visit}
  {place : Place} {content : Content} {base : Nodes}

/-- Of the links that were there before, exactly those that are cut off are to be detached. -/
structure Cutting (base : Nodes) (walk : Walk) (seen : List Visit) : Prop where
  kept : ∀ id link, link ∈ base.links .outbound id →
    link ∈ Nodes.links walk.draft.node? .outbound id
  only : ∀ id path target, .detach id path target ∈ walk.changes → CutOff base seen id path
  all : ∀ id path target, ⟨target, path⟩ ∈ base.links .outbound id → CutOff base seen id path →
    .detach id path target ∈ walk.changes

/-- What is brought to a site for the first time comes to what was there before. -/
theorem Linked.stays (h : Linked base walk seen) (intact : Intact base walk.draft.node? seen)
    (consistent : Consistent seen) (due : Due walk seen place.site)
    (unseen : ∀ content, .brought place.site content ∉ seen) :
    base.Stays walk.draft.node? seen place.container place.path :=
  intact _ _ (untouched_of_unseen h.nested consistent (due.enclosed h.nested) unseen)

/-- What is cut off at a site was there before, and the site is seen for the first time. -/
theorem Linked.read_of_cuts (h : Linked base walk seen)
    (intact : Intact base walk.draft.node? seen)
    (consistent : Consistent (.brought place.site content :: seen)) (due : Due walk seen place.site)
    {value : Value} {step : ResponseGraph.Step} (stored : walk.stored? place = some value)
    (cuts : content.Cuts value step) : base.read place.container place.path = some value := by
  have old := List.subset_cons_self (Visit.brought place.site content) seen
  have unseen : ∀ other, .brought place.site other ∉ seen := by
    intro other member
    have fits : other.Fits (walk.stored? place) := h.shaped _ _ member
    rw [stored] at fits
    exact cuts.not_fits (consistent _ _ _ (old member) List.mem_cons_self) fits
  have stored : Nodes.read walk.draft.node? place.container place.path = some value := stored
  rcases h.stays intact (consistent.mono old) due unseen with same | ⟨-, filled, -⟩
  · rw [← same, stored]
  · rw [stored] at filled
    cases filled
    rcases Content.cuts_cases cuts with ⟨-, full, -⟩ | ⟨_, _, _, -, e, -⟩
    · exact absurd rfl full
    · cases e

/-- Where something is cut off that has a link below, nothing else was seen than what cuts it
off. -/
theorem cutOff_or_unseen (spared : Spared base (.brought place.site content :: seen))
    (consistent : Consistent (.brought place.site content :: seen)) {value : Value}
    {step : ResponseGraph.Step} {rest : Path} {target : NodeId}
    (held : base.read place.container place.path = some value) (cuts : content.Cuts value step)
    (linked : ⟨target, place.path ++ step :: rest⟩ ∈ base.links .outbound place.container) :
    CutOff base seen place.container (place.path ++ step :: rest) ∨
      ∀ other, .brought place.site other ∉ seen := by
  refine or_iff_not_imp_right.mpr fun visited => ?_
  have old := List.subset_cons_self (Visit.brought place.site content) seen
  obtain ⟨other, member⟩ := Classical.not_forall_not.mp visited
  have same : other.agrees content := consistent _ _ _ (old member) List.mem_cons_self
  obtain rfl : other = content := cuts.eq_of_agrees same fun payload e => by
    subst e
    have root := (spared _ _ (old member) (step :: rest) target linked).1
    cases root
  exact ⟨_, step, rest, other, value, rfl, member, held, cuts⟩

theorem Cutting.brought (h : Cutting base walk seen) (linked : Linked base walk seen)
    (intact : Intact base walk.draft.node? seen) (unnamed : identify .null = none)
    (consistent : Consistent (.brought place.site content :: seen))
    (spared : Spared base (.brought place.site content :: seen))
    (due : Due walk seen place.site) (brings : Brings identify walk place content walk') :
    Cutting base walk' (.brought place.site content :: seen) := by
  have old := List.subset_cons_self (Visit.brought place.site content) seen
  have detaches := brings.detaches unnamed
  refine ⟨fun id link member => ?_, fun id path target member => ?_, fun id path target member cut
    => (detaches id path target).mpr ?_⟩
  · rw [brings.touches.links]
    exact h.kept id link member
  · rcases (detaches id path target).mp member with before | ⟨rfl, -, step, rest, value, e, held,
      cuts⟩
    · exact (h.only id path target before).mono old
    · have read := linked.read_of_cuts intact consistent due held cuts
      exact ⟨place.path, step, rest, content, value, e, List.mem_cons_self, read, cuts⟩
  · obtain ⟨above, step, rest, found, value, rfl, visited, held, cuts⟩ := cut
    rcases List.mem_cons.mp visited with e | before
    · cases e
      rcases cutOff_or_unseen spared consistent held cuts member with cut | unseen
      · exact Or.inl (h.all _ _ target member cut)
      · refine Or.inr ⟨rfl, h.kept _ _ member, step, rest, value, rfl, ?_, cuts⟩
        rcases linked.stays intact (consistent.mono old) due unseen with same | ⟨missing, -⟩
        · exact same.trans held
        · rw [missing] at held
          cases held
    · exact Or.inl (h.all id _ target member ⟨above, step, rest, found, value, rfl, before, held,
        cuts⟩)

theorem Step.cutting (h : Step identify walk seen walk' seen') (cutting : Cutting base walk seen)
    (linked : Linked base walk seen) (intact : Intact base walk.draft.node? seen)
    (unnamed : identify .null = none) (consistent : Consistent seen')
    (spared : Spared base seen') : Cutting base walk' seen' := by
  cases h with
  | warned warnings => exact ⟨cutting.kept, cutting.only, cutting.all⟩
  | @grown place name arguments id around address fresh =>
    have missing := linked.sound.nodes.eq_none_of_not_linked address fresh
    refine ⟨fun other link member => ?_, cutting.only, cutting.all⟩
    rw [nodes_grow, mem_outbound_sprout missing rfl]
    exact Or.inl (cutting.kept other link member)
  | brought due brings =>
    exact cutting.brought linked intact unnamed consistent spared due brings
  | @entered site other set fields members around =>
    have subset : seen ⊆ .brought (.root other) .object :: .entered other set fields members ::
        seen := List.subset_cons_of_subset _ (List.subset_cons_self _ _)
    refine ⟨cutting.kept, fun id path target member => (cutting.only id path target member).mono
      subset, fun id path target member cut => cutting.all id path target member ?_⟩
    obtain ⟨above, step, rest, content, value, e, visited, held, cuts⟩ := cut
    simp only [List.mem_cons, reduceCtorEq, false_or] at visited
    rcases visited with e | visited
    · cases e
      exact cuts.elim
    · exact ⟨above, step, rest, content, value, e, visited, held, cuts⟩

theorem Cutting.start (draft : Draft) (root : NodeId) :
    Cutting draft.node? (.ofDraft draft) [.brought (.root root) .object] := by
  refine ⟨fun _ _ member => member, fun _ _ _ member => absurd member List.not_mem_nil, ?_⟩
  rintro id path target - ⟨above, step, rest, content, value, -, member, -, cuts⟩
  cases List.mem_singleton.mp member
  exact cuts.elim

end Walk
end ResponseGraph
