import ResponseGraph.Proofs.Draft.Reads
import ResponseGraph.Proofs.NodeId.Parts
import ResponseGraph.Proofs.Payload.Trace
import ResponseGraph.Proofs.Value.Sameness

/-!
Contents and what is stored for them.

A payload may come to one site several times.  It is consistent if it then brings the
same thing each time.  While a consistent payload is walked, what is stored at every site
that was seen has the shape that was brought there (`Shaped`), and a write at one site
leaves the shapes at all others as they are.
-/

namespace ResponseGraph

open NodeId (Whole)

namespace Content

/-- Two positions carry the same thing. -/
def agrees : Content → Content → Bool
  | .leaf a, .leaf b => a.same b
  | .leaf a, .null => a.isNull
  | .null, .leaf a => a.isNull
  | .null, .null => true
  | .list m, .list n => m == n
  | .object, .object => true
  | .entity a, .entity b => a == b
  | _, _ => false

/-- A payload goes on from this content by the step. -/
def Leads : Content → Step → Prop
  | .object, .key _ => True
  | .list length, .index i => i < length
  | _, _ => False

/-- The value that is written for the content. -/
def Written : Content → Value → Prop
  | .leaf payload, value => value.sameAsJson payload
  | .null, value => value = .null
  | .list length, value => ∃ items, value = .list items ∧ items.length = length
  | .object, _ => False
  | .entity id, value => value = .reference id
  | .misfit, _ => False

/-- What is stored while references are still to be changed. -/
def Fits : Content → Option Value → Prop
  | .leaf payload, stored => ∃ value, stored = some value ∧ value.sameAsJson payload
  | .null, stored => ∃ value, stored = some value ∧ (value = .null ∨ ∃ id, value = .reference id)
  | .list length, stored => ∃ items, stored = some (.list items) ∧ items.length = length
  | .object, stored => ∀ value, stored = some value → value.list? = none ∧ value.reference? = none
  | .entity _, stored => ∀ value, stored = some value → value = .null ∨ ∃ id, value = .reference id
  | .misfit, _ => False

theorem eq_object_of_agrees {content : Content} (h : content.agrees .object) :
    content = .object := by
  cases content <;> first | rfl | cases h

theorem eq_list_of_agrees {content : Content} {length : Nat} (h : content.agrees (.list length)) :
    content = .list length := by
  cases content <;> simp_all [agrees]

theorem eq_entity_of_agrees {content : Content} {id : NodeId} (h : content.agrees (.entity id)) :
    content = .entity id := by
  cases content <;> simp_all [agrees]

theorem leads_cases {content : Content} {step : Step} (h : content.Leads step) :
    (content = .object ∧ ∃ name, step = .key name) ∨
      ∃ length i, content = .list length ∧ step = .index i ∧ i < length := by
  cases content <;> cases step <;> simp_all [Leads]

theorem Leads.of_agrees {content other : Content} {step : Step} (h : content.Leads step)
    (same : other.agrees content) : other.Leads step := by
  rcases leads_cases h with ⟨rfl, -⟩ | ⟨length, i, rfl, -⟩
  · rw [eq_object_of_agrees same]
    exact h
  · rw [eq_list_of_agrees same]
    exact h

/-- Nothing has to give way below what has the shape of a container. -/
theorem Fits.bears {content : Content} {stored : Option Value} {step : Step}
    (fits : content.Fits stored) (leads : content.Leads step) {value : Value}
    (h : stored = some value) : value.Bears step := by
  rcases leads_cases leads with ⟨rfl, name, rfl⟩ | ⟨length, i, rfl, rfl, -⟩
  · exact fits value h
  · obtain ⟨items, held, -⟩ := fits
    rw [held] at h
    cases h
    exact ⟨rfl, rfl⟩

/-- What is written for one of two positions that carry the same thing fits the other. -/
theorem Written.fits {content other : Content} {value : Value} (written : other.Written value)
    (same : other.agrees content) : content.Fits (some value) := by
  cases content with
  | leaf payload =>
    refine ⟨value, rfl, ?_⟩
    cases other with
    | leaf payload' => exact Value.sameAsJson_trans value written same
    | null =>
      cases written
      cases payload <;> first | rfl | cases same
    | _ => cases same
  | null =>
    refine ⟨value, rfl, Or.inl ?_⟩
    cases other with
    | leaf payload' =>
      cases payload' with
      | null => cases value <;> first | rfl | cases written
      | _ => cases same
    | null => exact written
    | _ => cases same
  | list length =>
    rw [eq_list_of_agrees same] at written
    obtain ⟨items, rfl, long⟩ := written
    exact ⟨items, rfl, long⟩
  | object =>
    rw [eq_object_of_agrees same] at written
    exact written.elim
  | entity id =>
    rw [eq_entity_of_agrees same] at written
    cases written
    intro value h
    cases h
    exact Or.inr ⟨id, rfl⟩
  | misfit => cases other <;> cases same

/-- A write inside a container leaves it one of its shape. -/
theorem Fits.set_below {content : Content} {stored : Option Value} {step : Step}
    (fits : content.Fits stored) (leads : content.Leads step) (rest : Path) (value : Value) :
    content.Fits (some ((stored.getD .null).set (step :: rest) value)) := by
  rcases leads_cases leads with ⟨rfl, name, rfl⟩ | ⟨length, i, rfl, rfl, inside⟩
  · intro found e
    rw [Value.set_cons] at e
    cases e
    exact ⟨rfl, rfl⟩
  · obtain ⟨items, rfl, long⟩ := fits
    have inside : i < items.length := by omega
    refine ⟨_, congrArg some (Value.set_cons _ _ _ _), ?_⟩
    rw [List.length_set]
    show (if i < items.length then items else _).length = length
    rw [if_pos inside, long]

/-- What is stored may give way to null where nothing was stored. -/
theorem Fits.of_kept {content : Content} {stored stored' : Option Value}
    (fits : content.Fits stored)
    (kept : ∀ value, stored = some value → stored' = some value)
    (back : ∀ value, stored' = some value → stored = some value ∨ value = .null) :
    content.Fits stored' := by
  cases content with
  | leaf payload =>
    obtain ⟨value, held, same⟩ := fits
    exact ⟨value, kept value held, same⟩
  | null =>
    obtain ⟨value, held, same⟩ := fits
    exact ⟨value, kept value held, same⟩
  | list length =>
    obtain ⟨items, held, long⟩ := fits
    exact ⟨items, kept _ held, long⟩
  | object =>
    intro value held
    rcases back value held with old | rfl
    · exact fits value old
    · exact ⟨rfl, rfl⟩
  | entity id =>
    intro value held
    rcases back value held with old | rfl
    · exact fits value old
    · exact Or.inl rfl
  | misfit => exact fits.elim

end Content

namespace Visit

/-- Positions with one site carry the same thing. -/
def Consistent (visits : List Visit) : Prop :=
  ∀ site first second, .brought site first ∈ visits → .brought site second ∈ visits →
    first.agrees second

/-- The two are not at one site, or carry the same thing. -/
def agrees : Visit → Visit → Bool
  | .brought site first, .brought other second => site ≠ other || first.agrees second
  | _, _ => true

theorem consistent_iff {visits : List Visit} :
    Consistent visits ↔ ∀ first ∈ visits, ∀ second ∈ visits, first.agrees second := by
  constructor
  · intro h first one second two
    cases first with
    | entered => rfl
    | brought site content =>
      cases second with
      | entered => rfl
      | brought other content' =>
        rw [agrees, Bool.or_eq_true, decide_eq_true_iff]
        by_cases same : site = other
        · cases same
          exact Or.inr (h site content content' one two)
        · exact Or.inl same
  · intro h site first second one two
    simpa [agrees] using h _ one _ two

instance (visits : List Visit) : Decidable (Consistent visits) :=
  decidable_of_iff _ consistent_iff.symm

/-- The visit brings something that passes a test to the site. -/
def brings (site : Site) (test : Content → Bool) : Visit → Bool
  | .brought other content => other = site && test content
  | .entered _ _ _ _ => false

theorem exists_of_brings {visits : List Visit} {site : Site} {test : Content → Bool}
    (h : visits.any (brings site test)) :
    ∃ content, .brought site content ∈ visits ∧ test content := by
  obtain ⟨visit, member, passes⟩ := List.any_eq_true.mp h
  cases visit with
  | entered => cases passes
  | brought other content =>
    obtain ⟨same, right⟩ := (Bool.and_eq_true _ _).mp passes
    obtain rfl := of_decide_eq_true same
    exact ⟨content, member, right⟩

theorem Consistent.mono {visits more : List Visit} (h : Consistent more) (subset : visits ⊆ more) :
    Consistent visits := fun site first second one two =>
  h site first second (subset one) (subset two)

/-- Whatever is around the site was seen. -/
def Enclosed (seen : List Visit) (site : Site) : Prop :=
  ∀ above step rest, site.path = above ++ step :: rest →
    ∃ content, .brought ⟨site.container, above⟩ content ∈ seen ∧ content.Leads step

theorem Enclosed.mono {seen more : List Visit} {site : Site} (h : Enclosed seen site)
    (subset : seen ⊆ more) : Enclosed more site := by
  intro above step rest e
  obtain ⟨content, around, leads⟩ := h above step rest e
  exact ⟨content, subset around, leads⟩

/-- What was seen was seen from the outside to the inside, and at the root of an entity
only members were brought. -/
structure Nested (seen : List Visit) : Prop where
  enclosed : ∀ site content, .brought site content ∈ seen → Enclosed seen site
  root : ∀ id content, .brought (.root id) content ∈ seen → Whole id → content = .object

theorem enclosed_root (seen : List Visit) (id : NodeId) : Enclosed seen (.root id) := by
  intro above step rest e
  cases above <;> cases e

/-- What leads on to a site encloses it. -/
theorem Enclosed.step {seen : List Visit} {site : Site} {content : Content} {step : Step}
    (enclosed : Enclosed seen site) (around : .brought site content ∈ seen)
    (leads : content.Leads step) : Enclosed seen (site.step step) := by
  intro above next rest e
  change site.path ++ [step] = above ++ next :: rest at e
  rcases List.append_eq_append_iff.mp e with ⟨middle, rfl, last⟩ | ⟨middle, outer, inner⟩
  · cases middle with
    | nil =>
      rw [List.nil_append] at last
      cases last
      rw [List.append_nil]
      exact ⟨content, around, leads⟩
    | cons first middle =>
      have := congrArg List.length last
      simp at this
  · cases middle with
    | nil =>
      rw [List.nil_append] at inner
      cases inner
      rw [List.append_nil] at outer
      exact ⟨content, outer ▸ around, leads⟩
    | cons first middle =>
      cases inner
      exact enclosed above next middle outer

/-- What was seen around an enclosed site leads on to it. -/
theorem Enclosed.leads {seen all : List Visit} {site : Site} (enclosed : Enclosed all site)
    (consistent : Consistent all) (within : seen ⊆ all) (above : Path) (step : Step) (rest : Path)
    (other : Content) (e : site.path = above ++ step :: rest)
    (around : .brought ⟨site.container, above⟩ other ∈ seen) : other.Leads step := by
  obtain ⟨content, opened, leads⟩ := enclosed above step rest e
  exact leads.of_agrees (consistent _ _ _ (within around) opened)

theorem Nested.enclosed_step {seen : List Visit} {site : Site} {content : Content} {step : Step}
    (nested : Nested seen) (around : .brought site content ∈ seen) (leads : content.Leads step) :
    Enclosed seen (site.step step) := (nested.enclosed site content around).step around leads

/-- Nothing was seen below a site where nothing leads on. -/
theorem Nested.nothing_below {seen : List Visit} (nested : Nested seen) (site : Site)
    (ends : ∀ other step, .brought site other ∈ seen → ¬ other.Leads step) (step : Step)
    (rest : Path) (other : Content) :
    .brought ⟨site.container, site.path ++ step :: rest⟩ other ∉ seen := by
  intro member
  obtain ⟨content, around, leads⟩ := nested.enclosed _ other member site.path step rest rfl
  exact ends content step around leads

/-- Below the root of an entity a path starts with a key. -/
theorem Nested.starts_with_key {seen : List Visit} (nested : Nested seen) {site : Site}
    (enclosed : Enclosed seen site) (whole : Whole site.container) (below : site.path ≠ []) :
    ∃ name rest, site.path = .key name :: rest := by
  obtain ⟨container, path⟩ := site
  cases path with
  | nil => exact absurd rfl below
  | cons step rest =>
    obtain ⟨content, opened, leads⟩ := enclosed [] step rest rfl
    rw [nested.root container content opened whole] at leads
    cases step with
    | key name => exact ⟨name, rest, rfl⟩
    | index i => cases leads

end Visit

namespace Walk

open Visit

variable {identify : Json → Option NodeId} {walk walk' : Walk} {seen seen' : List Visit}

theorem Due.enclosed {site : Site} (due : Due walk seen site) (nested : Nested seen) :
    Enclosed seen site := by
  cases due with
  | member name around => exact nested.enclosed_step around trivial
  | item around inside => exact nested.enclosed_step around inside
  | value => exact enclosed_root seen _

/-- The root of an entity is never due. -/
theorem Due.not_whole {site : Site} (due : Due walk seen site) (root : site.path = []) :
    ¬ Whole site.container := by
  cases due with
  | member => exact absurd root (List.append_ne_nil_of_right_ne_nil _ (List.cons_ne_nil _ _))
  | item => exact absurd root (List.append_ne_nil_of_right_ne_nil _ (List.cons_ne_nil _ _))
  | value name around address linked => exact NodeId.not_whole_of_parameterized address

theorem nested_start (root : NodeId) : Nested [.brought (.root root) .object] := by
  refine ⟨fun site content member => ?_, fun id content member _ => ?_⟩
  · cases List.mem_singleton.mp member
    exact enclosed_root _ root
  · cases List.mem_singleton.mp member
    rfl

theorem Step.nested (h : Step identify walk seen walk' seen') (nested : Nested seen) :
    Nested seen' := by
  have kept := h.seen_subset
  cases h with
  | warned | grown => exact nested
  | @brought place content _ due =>
    refine ⟨fun site found member => ?_, fun id found member whole => ?_⟩
    · rcases List.mem_cons.mp member with e | old
      · cases e
        exact (due.enclosed nested).mono kept
      · exact (nested.enclosed site found old).mono kept
    · rcases List.mem_cons.mp member with e | old
      · injection e with site
        refine absurd whole ?_
        rw [show id = place.site.container from congrArg Site.container site]
        exact due.not_whole (congrArg Site.path site).symm
      · exact nested.root id found old whole
  | @entered site id set fields members =>
    refine ⟨fun other found member => ?_, fun other found member whole => ?_⟩
    · simp only [List.mem_cons, reduceCtorEq, false_or] at member
      rcases member with e | old
      · cases e
        exact enclosed_root _ id
      · exact (nested.enclosed other found old).mono kept
    · simp only [List.mem_cons, reduceCtorEq, false_or] at member
      rcases member with e | old
      · cases e
        rfl
      · exact nested.root other found old whole

end Walk

/-! ## Shapes -/

/-- At every site that was seen there is what was brought, as far as references go that are
still to be changed. -/
def Shaped (nodes : Nodes) (seen : List Visit) : Prop :=
  ∀ site content, .brought site content ∈ seen →
    content.Fits (nodes.read site.container site.path)

namespace Shaped

open Visit

variable {nodes : Nodes} {seen : List Visit} {site : Site} {content : Content} {value : Value}

theorem bears (h : Shaped nodes seen) (enclosed : Enclosed seen site) :
    nodes.Bears site.container site.path := by
  intro above step rest e found stored
  obtain ⟨content, around, leads⟩ := enclosed above step rest e
  exact (h _ content around).bears leads stored

/-- A write is seen at no other site, if what was seen around it leads there and nothing beside it
has to give way. -/
theorem write_of_leads (h : Shaped nodes seen)
    (leads : ∀ above step rest other, site.path = above ++ step :: rest →
      .brought ⟨site.container, above⟩ other ∈ seen → other.Leads step)
    (bears : ∀ place other, .brought ⟨site.container, place⟩ other ∈ seen →
      Path.Apart site.path place → nodes.BearsBeside site.container site.path place)
    (same : ∀ other, .brought site other ∈ seen → content.agrees other)
    (leaf : ∀ step rest other,
      .brought ⟨site.container, site.path ++ step :: rest⟩ other ∉ seen)
    (written : content.Written value) :
    Shaped (nodes.write site.container site.path value) seen := by
  obtain ⟨container, path⟩ := site
  intro given found member
  obtain ⟨id, place⟩ := given
  have fits := h _ found member
  by_cases e : container = id
  · subst e
    rcases Path.cases path place with ⟨rest, rfl⟩ | ⟨step, rest, rfl⟩ | apart
    · cases rest with
      | nil =>
        rw [List.append_nil] at member ⊢
        rw [Nodes.read_write_self]
        exact written.fits (same found member)
      | cons step rest => exact absurd member (leaf step rest found)
    · rw [Nodes.read_write_above]
      exact fits.set_below (leads place step rest found rfl member) rest value
    · have bears := bears place found member apart
      exact fits.of_kept (fun _ => Nodes.read_write_beside bears apart)
        fun _ stored => (Nodes.of_read_write apart stored).imp_right And.left
  · rw [Nodes.read_write_of_ne e]
    exact fits

/-- A write is seen at no other site. -/
theorem write (h : Shaped nodes seen) (consistent : Consistent seen) (enclosed : Enclosed seen site)
    (same : ∀ other, .brought site other ∈ seen → content.agrees other)
    (leaf : ∀ step rest other,
      .brought ⟨site.container, site.path ++ step :: rest⟩ other ∉ seen)
    (written : content.Written value) :
    Shaped (nodes.write site.container site.path value) seen :=
  h.write_of_leads (enclosed.leads consistent (List.Subset.refl _))
    (fun place _ _ _ => (h.bears enclosed).beside place) same leaf written

theorem cons (h : Shaped nodes seen) (fits : content.Fits (nodes.read site.container site.path)) :
    Shaped nodes (.brought site content :: seen) := by
  intro other found member
  rcases List.mem_cons.mp member with e | old
  · cases e
    exact fits
  · exact h other found old

/-- Where something is written that did not fit, nothing was seen below. -/
theorem nothing_below (h : Shaped nodes seen) (nested : Nested seen)
    (consistent : Consistent (.brought site content :: seen))
    (differs : ¬ content.Fits (nodes.read site.container site.path))
    (written : content.Written value) (step : Step) (rest : Path) (other : Content) :
    .brought ⟨site.container, site.path ++ step :: rest⟩ other ∉ seen := by
  refine nested.nothing_below site (fun other step member leads => ?_) step rest other
  have agrees := consistent site content other List.mem_cons_self (List.mem_cons_of_mem _ member)
  rcases Content.leads_cases leads with ⟨rfl, -⟩ | ⟨length, i, rfl, -⟩
  · rw [Content.eq_object_of_agrees agrees] at written
    exact written
  · rw [Content.eq_list_of_agrees agrees] at differs
    exact differs (h site _ member)

/-- What is written where it did not fit is the first to be brought there. -/
theorem bring (h : Shaped nodes seen) (nested : Nested seen) (enclosed : Enclosed seen site)
    (consistent : Consistent (.brought site content :: seen))
    (differs : ¬ content.Fits (nodes.read site.container site.path))
    (written : content.Written value) :
    Shaped (nodes.write site.container site.path value) (.brought site content :: seen) := by
  have old := List.subset_cons_self (Visit.brought site content) seen
  refine cons (h.write (consistent.mono old) enclosed (fun other member => ?_)
    (h.nothing_below nested consistent differs written) written) ?_
  · exact consistent site content other List.mem_cons_self (old member)
  · rw [Nodes.read_write_self]
    exact written.fits (consistent site content content List.mem_cons_self List.mem_cons_self)

end Shaped

/-! ## References that were brought -/

namespace Content

/-- What a place refers to from now on, for the contents that decide it. -/
def next? : Content → Option (Option NodeId)
  | .null => some none
  | .entity id => some (some id)
  | _ => none

theorem written_referring {content : Content} {next : Option NodeId}
    (h : content.next? = some next) :
    content.Written (.referring next) := by
  cases content <;> cases h <;> rfl

theorem not_leads_of_next? {content : Content} {next : Option NodeId} {step : Step}
    (h : content.next? = some next) : ¬ content.Leads step := by
  intro leads
  rcases leads_cases leads with ⟨rfl, -⟩ | ⟨length, i, rfl, -⟩ <;> cases h

/-- Contents that carry the same thing, one of which decides a reference, are written as
that reference. -/
theorem Written.eq_referring {content other : Content} {next : Option NodeId} {value : Value}
    (written : other.Written value) (same : other.agrees content) (h : content.next? = some next) :
    value = .referring next := by
  cases content <;> cases h
  · cases other with
    | leaf payload =>
      cases payload with
      | null => cases value <;> first | rfl | cases written
      | _ => cases same
    | null => exact written
    | _ => cases same
  · rw [eq_entity_of_agrees same] at written
    exact written

end Content

/-- A site at which an entity or null was brought refers to it, or it will. -/
def Delivered (nodes : Nodes) (changes : List LinkChange) (seen : List Visit) : Prop :=
  ∀ site content next, .brought site content ∈ seen → content.next? = some next →
    nodes.read site.container site.path = some (Value.referring next) ∨
      .relink site.container site.path next ∈ changes

namespace Delivered

open Visit

variable {nodes : Nodes} {changes more : List LinkChange} {seen : List Visit} {site : Site}
  {content : Content} {value : Value}

theorem mono (h : Delivered nodes changes seen) (subset : changes ⊆ more) :
    Delivered nodes more seen := fun site content next member decides =>
  (h site content next member decides).imp_right fun waiting => subset waiting

/-- A write at one site delivers there, and keeps what was delivered elsewhere, if what was seen
around it leads there and nothing beside it has to give way. -/
theorem write_of_leads (h : Delivered nodes changes seen)
    (leads : ∀ above step rest other, site.path = above ++ step :: rest →
      .brought ⟨site.container, above⟩ other ∈ seen → other.Leads step)
    (bears : ∀ place other, .brought ⟨site.container, place⟩ other ∈ seen →
      Path.Apart site.path place → nodes.BearsBeside site.container site.path place)
    (same : ∀ other, .brought site other ∈ seen → content.agrees other)
    (leaf : ∀ step rest other, .brought ⟨site.container, site.path ++ step :: rest⟩ other ∉ seen)
    (written : content.Written value)
    (kept : ∀ change ∈ changes,
      change ∈ more ∨ ∃ next, change = .relink site.container site.path next) :
    Delivered (nodes.write site.container site.path value) more seen := by
  obtain ⟨container, path⟩ := site
  intro given found next member decides
  obtain ⟨id, place⟩ := given
  have here : container = id → path = place →
      (nodes.write container path value).read id place = some (Value.referring next) := by
    intro equal e₁
    subst equal
    subst e₁
    rw [Nodes.read_write_self, written.eq_referring (same found member) decides]
  rcases h _ found next member decides with stored | waiting
  · refine Or.inl ?_
    by_cases e : container = id
    · subst e
      rcases Path.cases path place with ⟨rest, rfl⟩ | ⟨step, rest, rfl⟩ | apart
      · cases rest with
        | nil => exact here rfl (List.append_nil _).symm
        | cons step rest => exact absurd member (leaf step rest found)
      · exact absurd (leads place step rest found rfl member) (Content.not_leads_of_next? decides)
      · exact Nodes.read_write_beside (bears place found member apart) apart stored
    · rw [Nodes.read_write_of_ne e]
      exact stored
  · rcases kept _ waiting with old | ⟨other, e⟩
    · exact Or.inr old
    · injection e with sameId samePath
      exact Or.inl (here sameId.symm samePath.symm)

/-- A write at one site delivers there, and keeps what was delivered elsewhere. -/
theorem write (h : Delivered nodes changes seen) (consistent : Consistent seen)
    (enclosed : Enclosed seen site) (bears : nodes.Bears site.container site.path)
    (same : ∀ other, .brought site other ∈ seen → content.agrees other)
    (leaf : ∀ step rest other, .brought ⟨site.container, site.path ++ step :: rest⟩ other ∉ seen)
    (written : content.Written value)
    (kept : ∀ change ∈ changes,
      change ∈ more ∨ ∃ next, change = .relink site.container site.path next) :
    Delivered (nodes.write site.container site.path value) more seen :=
  h.write_of_leads (enclosed.leads consistent (List.Subset.refl _))
    (fun place _ _ _ => bears.beside place) same leaf written kept

theorem cons (h : Delivered nodes changes seen)
    (here : ∀ next, content.next? = some next →
      nodes.read site.container site.path = some (Value.referring next) ∨
        .relink site.container site.path next ∈ changes) :
    Delivered nodes changes (.brought site content :: seen) := by
  intro other found next member decides
  rcases List.mem_cons.mp member with e | old
  · cases e
    exact here next decides
  · exact h other found next old decides

end Delivered
end ResponseGraph
