import ResponseGraph.Proofs.Draft.Single
import ResponseGraph.Proofs.Payload.Confined

/-!
Members that several fields decide.

Several response names may stand for one field of an object, and then each of them decides what is
referred to at one place.  A decision is a change to be made after the walk, unless it is what is
stored already, and what is stored does not change while the payload is walked.  So of the
decisions that differ from what was stored before, the last one prevails, and the others are as if
they had not been made (`Walk.Standing`).

This is about one member of the root of the payload.  What else is walked comes to other members
of the root, or to other nodes.
-/

namespace ResponseGraph

open Nodes NodeId Visit

/-- The last choice that differs from what there was before. -/
def prevailing (old : Option NodeId) (choices : List (Option NodeId)) : Option NodeId :=
  (choices.filter fun next => next ≠ old).getLast?.getD old

/-- What there was before remains only if nobody chooses anything else. -/
theorem prevailing_eq_old {old : Option NodeId} {choices : List (Option NodeId)} :
    prevailing old choices = old ↔ ∀ next ∈ choices, next = old := by
  unfold prevailing
  cases last : (choices.filter fun next => next ≠ old).getLast? with
  | none =>
    rw [List.getLast?_eq_none_iff, List.filter_eq_nil_iff] at last
    exact iff_of_true rfl fun next member => by simpa using last next member
  | some next =>
    obtain ⟨member, differs⟩ := List.mem_filter.mp (List.mem_of_getLast? last)
    have differs : next ≠ old := of_decide_eq_true differs
    exact iff_of_false differs fun same => differs (same next member)

/-- The last of all choices prevails unless it is what there was and another one is not. -/
theorem prevailing_eq_iff {old last : Option NodeId} {choices : List (Option NodeId)}
    (h : choices.getLast? = some last) :
    prevailing old choices = last ↔ last ≠ old ∨ ∀ next ∈ choices, next = old := by
  by_cases same : last = old
  · rw [same, prevailing_eq_old, or_iff_right fun differs => differs rfl]
  · obtain ⟨earlier, rfl⟩ := List.getLast?_eq_some_iff.mp h
    unfold prevailing
    rw [List.filter_append, List.filter_cons_of_pos (by simpa using same), List.filter_nil,
      List.getLast?_concat]
    exact iff_of_true rfl (Or.inl same)

/-- The entity that a member of a node refers to. -/
def Nodes.referred (nodes : Nodes) (id : NodeId) (name : String) : Option NodeId :=
  Walk.entity? (nodes.read id [.key name])

section Changes

variable {root : NodeId} {name : String} {site : Site} {change : LinkChange}

/-- The change detaches something from below the site. -/
def LinkChange.Below (site : Site) : LinkChange → Prop
  | .detach id path _ => id = site.container ∧ ∃ step rest, path = site.path ++ step :: rest
  | .relink _ _ _ => False

/-- The change is made at the site or below. -/
def LinkChange.At (site : Site) (change : LinkChange) : Prop :=
  change.Below site ∨ ∃ next, change = .relink site.container site.path next

theorem LinkChange.Below.next?_eq_none (h : change.Below site) (id : NodeId) (path : Path) :
    change.next? id path = none := by
  cases change with
  | detach => rfl
  | relink => exact h.elim

/-- What is below the site is not the member, whether the site is the member or beside it. -/
theorem LinkChange.Below.minds (h : change.Below site)
    (other : site.container = root → ∃ key below, site.path = .key key :: below) :
    change.Minds root name := by
  cases change with
  | relink => exact h.elim
  | detach id path target =>
    obtain ⟨rfl, step, rest, rfl⟩ := h
    intro same e
    obtain ⟨key, below, path⟩ := other same
    rw [path] at e
    cases (List.append_eq_nil_iff.mp (List.cons.inj e).2).2

theorem LinkChange.At.beside (h : change.At site) (apart : site.Apart root name) :
    change.Minds root name ∧ change.next? root [.key name] = none := by
  rcases h with below | ⟨next, rfl⟩
  · refine ⟨below.minds fun same => ?_, below.next?_eq_none _ _⟩
    obtain ⟨other, rest, path, -⟩ := apart same
    exact ⟨other, rest, path⟩
  · refine ⟨fun same => Or.inr (apart same), if_neg fun same => ?_⟩
    exact apart.ne (congrArg₂ Site.mk same.1 same.2)

theorem Visit.chosen_cons_here {place : Place} {content : Content} {next : Option NodeId}
    (path : place.path = [.key name]) (decides : content.next? = some next) (seen : List Visit) :
    chosen ⟨place.container, [.key name]⟩ (.brought place.site content :: seen) =
      next :: chosen ⟨place.container, [.key name]⟩ seen := by
  have here : chooses ⟨place.container, [.key name]⟩ (.brought place.site content) = some next :=
    (if_pos (congrArg (Site.mk place.container) path)).trans decides
  rw [chosen_cons, chosen_singleton, here]
  rfl

end Changes

/-! ## A member that is decided -/

namespace Walk

variable {identify : Json → Option NodeId} {walk walk' : Walk} {seen seen' : List Visit}
  {place : Place} {content : Content} {base : Nodes} {root : NodeId} {name : String}

/-- What is stored at a member of the root, and what its references are to be, while a payload is
walked that decides them. -/
structure Standing (root : NodeId) (name : String) (base : Nodes) (walk : Walk)
    (seen : List Visit) : Prop where
  entity : Nodes.referred walk.draft.node? root name = base.referred root name
  null : base.referred root name = none → none ∈ chosen ⟨root, [.key name]⟩ seen →
    Nodes.read walk.draft.node? root [.key name] = some .null
  relinked : walk.changes.filterMap (LinkChange.next? root [.key name]) =
    ((chosen ⟨root, [.key name]⟩ seen).filter fun next =>
      next ≠ base.referred root name).reverse
  minds : ∀ change ∈ walk.changes, change.Minds root name

/-- What is walked adds changes of a kind. -/
def Appends (kind : LinkChange → Prop) (walk walk' : Walk) : Prop :=
  ∃ more, walk'.changes = walk.changes ++ more ∧ ∀ change ∈ more, kind change

theorem appends_nothing {kind : LinkChange → Prop} (same : walk'.changes = walk.changes) :
    Appends kind walk walk' :=
  ⟨[], by rw [same, List.append_nil], fun _ member => absurd member List.not_mem_nil⟩

theorem appends_detachBelow (walk : Walk) (place : Place) (first? : Option Nat) :
    Appends (LinkChange.Below place.site) walk (walk.detachBelow place first?) := by
  refine ⟨_, rfl, fun change member => ?_⟩
  obtain ⟨link, linked, rfl⟩ := List.mem_map.mp member
  obtain ⟨step, rest, e, -⟩ := leadsBelow_iff.mp (List.mem_filter.mp linked).2
  exact ⟨rfl, step, rest, e⟩

theorem Appends.at (h : Appends (LinkChange.Below place.site) walk walk') :
    Appends (LinkChange.At place.site) walk walk' := by
  obtain ⟨more, changes, below⟩ := h
  exact ⟨more, changes, fun change member => Or.inl (below change member)⟩

theorem appends_relink (next : Option NodeId) :
    Appends (LinkChange.At place.site) walk (walk.relink place next) := by
  refine ⟨[_], rfl, fun change member => ?_⟩
  cases List.mem_singleton.mp member
  exact Or.inr ⟨next, rfl⟩

theorem Fitted.appends {previous : Option (List Value)} {length : Nat}
    (h : Fitted walk place previous length walk') :
    Appends (LinkChange.At place.site) walk walk' := by
  cases h with
  | made | kept | grown => exact appends_nothing rfl
  | cut => exact (appends_detachBelow (walk.write place _) place _).at

theorem Brings.appends (h : Brings identify walk place content walk') :
    Appends (LinkChange.At place.site) walk walk' := by
  cases h with
  | leaf payload =>
    unfold Walk.leaf
    split <;> exact appends_nothing rfl
  | unlink | refer => exact appends_relink _
  | clear => exact (appends_detachBelow _ place none).at
  | fill | keep | object | same => exact appends_nothing rfl
  | list => exact (fitted ..).appends

namespace Standing

theorem of_same (h : Standing root name base walk seen)
    (stored : Nodes.read walk'.draft.node? root [.key name] =
      Nodes.read walk.draft.node? root [.key name])
    (changes : walk'.changes = walk.changes)
    (chosen : chosen ⟨root, [.key name]⟩ seen' = chosen ⟨root, [.key name]⟩ seen) :
    Standing root name base walk' seen' := by
  refine ⟨(congrArg entity? stored).trans h.entity, ?_, ?_, changes ▸ h.minds⟩
  · rw [chosen, stored]
    exact h.null
  · rw [chosen, changes]
    exact h.relinked

/-- What is walked elsewhere leaves the member as it is. -/
theorem beside (h : Standing root name base walk seen) (apart : place.site.Apart root name)
    (brings : Brings identify walk place content walk') :
    Standing root name base walk' (.brought place.site content :: seen) := by
  obtain ⟨more, changes, made⟩ := brings.appends
  have stored : Nodes.read walk'.draft.node? root [.key name] =
      Nodes.read walk.draft.node? root [.key name] := by
    rcases brings.touches.written with e | ⟨value, e⟩
    · rw [e]
    · rw [e, Draft.nodes_set_write]
      by_cases same : place.container = root
      · obtain ⟨other, rest, path, ne⟩ := apart same
        rw [same, show place.path = _ from path]
        exact read_write_member ne
      · exact read_write_of_ne same
  have nothing : chooses ⟨root, [.key name]⟩ (.brought place.site content) = none :=
    if_neg apart.ne
  have chosen := chosen_cons_none nothing seen
  refine ⟨(congrArg entity? stored).trans h.entity, ?_, ?_, fun change member => ?_⟩
  · rw [chosen, stored]
    exact h.null
  · have nothing : more.filterMap (LinkChange.next? root [.key name]) = [] :=
      List.filterMap_eq_nil_iff.mpr fun change member => ((made change member).beside apart).2
    rw [chosen, changes, List.filterMap_append, nothing, List.append_nil]
    exact h.relinked
  · rw [changes] at member
    exact (List.mem_append.mp member).elim (h.minds change) fun new =>
      ((made change new).beside apart).1

/-- A choice that differs from what was stored before is a change to be made. -/
theorem relink {next : Option NodeId} (h : Standing place.container name base walk seen)
    (path : place.path = [.key name]) (decides : content.next? = some next)
    (differs : next ≠ base.referred place.container name) :
    Standing place.container name base (walk.relink place next)
      (.brought place.site content :: seen) := by
  have choice := chosen_cons_here path decides seen
  refine ⟨h.entity, fun missing member => h.null missing ?_, ?_, fun change member => ?_⟩
  · rw [choice] at member
    exact (List.mem_cons.mp member).resolve_left fun e => differs (e.symm.trans missing.symm)
  · have made : LinkChange.next? place.container [.key name]
        (.relink place.container place.path next) = some next := if_pos ⟨rfl, path⟩
    rw [choice, List.filter_cons_of_pos (by simpa using differs), List.reverse_cons, ← h.relinked,
      Walk.relink, List.filterMap_append, List.filterMap_cons_some made, List.filterMap_nil]
  · rcases List.mem_append.mp member with old | new
    · exact h.minds change old
    · cases List.mem_singleton.mp new
      exact fun _ => Or.inl path

/-- A choice of what was stored before makes no change there. -/
theorem settle {next : Option NodeId} (h : Standing place.container name base walk seen)
    (path : place.path = [.key name]) (decides : content.next? = some next)
    (same : next = base.referred place.container name)
    (made : Appends (LinkChange.Below place.site) walk walk')
    (entity : Nodes.referred walk'.draft.node? place.container name = next)
    (null : next = none →
      Nodes.read walk'.draft.node? place.container [.key name] = some .null) :
    Standing place.container name base walk' (.brought place.site content :: seen) := by
  have choice := chosen_cons_here path decides seen
  obtain ⟨more, changes, below⟩ := made
  refine ⟨entity.trans same, fun missing _ => null (same.trans missing), ?_,
    fun change member => ?_⟩
  · have nothing : more.filterMap (LinkChange.next? place.container [.key name]) = [] :=
      List.filterMap_eq_nil_iff.mpr fun change member =>
        (below change member).next?_eq_none _ _
    rw [choice, List.filter_cons_of_neg (by simpa using same), changes, List.filterMap_append,
      nothing, List.append_nil]
    exact h.relinked
  · rw [changes] at member
    exact (List.mem_append.mp member).elim (h.minds change) fun new =>
      (below change new).minds fun _ => ⟨name, [], path⟩

/-- Whatever decides the member is a change to be made, or it is what was there before. -/
theorem decide {next : Option NodeId} (h : Standing place.container name base walk seen)
    (unnamed : identify .null = none) (path : place.path = [.key name])
    (decides : content.next? = some next) (brings : Brings identify walk place content walk') :
    Standing place.container name base walk' (.brought place.site content :: seen) := by
  have read : walk.stored? place = Nodes.read walk.draft.node? place.container [.key name] :=
    path ▸ rfl
  have kept : entity? (walk.stored? place) = Nodes.referred walk.draft.node? place.container name :=
    congrArg entity? read
  have written : Nodes.read (walk.write place .null).draft.node? place.container [.key name] =
      some .null := by
    unfold Walk.write
    rw [Draft.nodes_set_write, path, read_write_self]
  -- Changes wait until the payload is walked, so the choice is compared with what was stored
  -- before, and not with the choices made since.
  have entity : entity? (walk.stored? place) = base.referred place.container name :=
    kept.trans h.entity
  cases brings with
  | leaf | object | list => cases decides
  | unlink stored =>
    cases decides
    refine h.relink path rfl fun e => ?_
    rw [entity, ← e] at stored
    cases stored
  | refer named free differs =>
    cases decides
    exact h.relink path rfl fun e => differs (entity.trans e.symm)
  | same named stored =>
    cases decides
    exact h.settle path rfl (stored.symm.trans entity) (appends_nothing rfl)
      (kept.symm.trans stored) fun e => by cases e
  | keep stored =>
    cases decides
    rw [stored] at entity kept
    exact h.settle path rfl entity (appends_nothing rfl) kept.symm
      fun _ => read.symm.trans stored
  | fill stored =>
    cases decides
    rw [stored] at entity
    exact h.settle path rfl entity (appends_nothing rfl) (congrArg entity? written)
      fun _ => written
  | clear stored inner =>
    cases decides
    exact h.settle path rfl ((inner unnamed).symm.trans entity) (appends_detachBelow _ place none)
      (congrArg entity? written) fun _ => written

theorem start (draft : Draft) (root : NodeId) (name : String) :
    Standing root name draft.node? (.ofDraft draft) [.brought (.root root) .object] := by
  have nothing : chosen ⟨root, [.key name]⟩ [.brought (.root root) .object] = [] :=
    chosen_cons_none (chooses_eq_none rfl _ _) []
  refine ⟨rfl, fun _ member => ?_, ?_, fun _ member => absurd member List.not_mem_nil⟩
  · rw [nothing] at member
    cases member
  · rw [nothing]
    rfl

end Standing

theorem Step.standing (h : Step identify walk seen walk' seen') (sound : Walk.Sound walk seen)
    (unnamed : identify .null = none) (minds : ∀ visit ∈ seen', visit.Minds root name)
    (standing : Standing root name base walk seen) : Standing root name base walk' seen' := by
  cases h with
  | warned warnings => exact standing.of_same rfl rfl rfl
  | grown key around address fresh =>
    have missing := sound.nodes.eq_none_of_not_linked address fresh
    refine standing.of_same ?_ rfl rfl
    rw [nodes_grow, read_sprout missing rfl]
  | @brought place content _ due brings =>
    rcases minds _ List.mem_cons_self with apart | rfl | ⟨site, rfl⟩ | ⟨site, decides⟩
    · exact standing.beside apart brings
    · cases brings
    · cases brings
      exact standing.of_same rfl rfl (chosen_cons_none (chooses_eq_none rfl _ _) seen)
    · obtain rfl : place.container = root := congrArg Site.container site
      obtain ⟨next, decides⟩ := Option.isSome_iff_exists.mp decides
      exact standing.decide unnamed (congrArg Site.path site) decides brings
  | @entered site id set fields members around =>
    exact standing.of_same rfl rfl
      ((chosen_cons_none (chooses_eq_none rfl _ _) _).trans (chosen_cons_none rfl seen))

theorem Run.standing (h : Run identify walk seen walk' seen') (named : Named seen')
    (sound : Walk.Sound walk seen) (unnamed : identify .null = none)
    (minds : ∀ visit ∈ seen', visit.Minds root name)
    (standing : Standing root name base walk seen) : Standing root name base walk' seen' := by
  induction h with
  | refl => exact standing
  | tail run step ih =>
    have kept := step.seen_subset
    exact step.standing (run.sound (named.mono kept) sound) unnamed minds
      (ih (named.mono kept) fun visit member => minds visit (kept member))

/-- A walk leaves the links to entities as they are. -/
theorem Run.mem_entity (h : Run identify walk seen walk' seen') (named : Named seen')
    (sound : Walk.Sound walk seen) {id target : NodeId} {path : Path} (whole : Whole target) :
    ⟨target, path⟩ ∈ Nodes.links walk'.draft.node? .outbound id ↔
      ⟨target, path⟩ ∈ Nodes.links walk.draft.node? .outbound id := by
  induction h with
  | refl => exact Iff.rfl
  | tail run step ih =>
    have kept := step.seen_subset
    rw [← ih (named.mono kept)]
    cases step with
    | warned | entered => exact Iff.rfl
    | grown key around address fresh =>
      have before := run.sound (named.mono kept) sound
      have missing := before.nodes.eq_none_of_not_linked address fresh
      rw [nodes_grow, mem_outbound_sprout missing rfl]
      refine or_iff_left ?_
      rintro ⟨-, e⟩
      cases e
      exact NodeId.not_whole_of_parameterized address whole
    | brought due brings => rw [brings.touches.links]

/-- Where all choices were stored before, that is still so. -/
theorem Standing.read_of_same (h : Standing root name base walk seen)
    (decided : chosen ⟨root, [.key name]⟩ seen ≠ [])
    (same : ∀ next ∈ chosen ⟨root, [.key name]⟩ seen, next = base.referred root name) :
    Nodes.read walk.draft.node? root [.key name] = some (.referring (base.referred root name)) := by
  cases old : base.referred root name with
  | none =>
    obtain ⟨next, member⟩ := List.exists_mem_of_ne_nil _ decided
    obtain rfl := (same next member).trans old
    exact h.null old member
  | some id => exact entity?_eq_some.mp (h.entity.trans old)

/-- When the changes are made, the prevailing choice is stored, and it is the only entity that is
linked unless nothing changed. -/
theorem Standing.applyAll (h : Standing root name base walk seen) (sound : Walk.Sound walk seen)
    (single : Nodes.Single walk.draft.node?) {choices : List (Option NodeId)}
    (order : (chosen ⟨root, [.key name]⟩ seen).reverse = choices) (decided : choices ≠ []) :
    Nodes.read (walk.draft.applyAll walk.changes).node? root [.key name] =
        some (.referring (prevailing (base.referred root name) choices)) ∧
      ∀ target, Whole target →
        (⟨target, [.key name]⟩ ∈
            Nodes.links (walk.draft.applyAll walk.changes).node? .outbound root ↔
          if ∀ next ∈ choices, next = base.referred root name then
            ⟨target, [.key name]⟩ ∈ Nodes.links walk.draft.node? .outbound root
          else prevailing (base.referred root name) choices = some target) := by
  obtain ⟨stored, linked⟩ :=
    Draft.applyAll_decides sound.draft single sound.applicable h.minds
  have relinked := h.relinked
  rw [← List.filter_reverse, order] at relinked
  rw [relinked] at stored linked
  unfold prevailing
  by_cases same : ∀ next ∈ choices, next = base.referred root name
  · have nothing : (choices.filter fun next => next ≠ base.referred root name) = [] :=
      List.filter_eq_nil_iff.mpr fun next member => by simpa using same next member
    rw [nothing] at stored linked
    rw [nothing]
    refine ⟨stored.trans (h.read_of_same ?_ fun next member => ?_), fun target whole => ?_⟩
    · rintro empty
      rw [empty] at order
      exact decided order.symm
    · exact same next (order ▸ List.mem_reverse.mpr member)
    · rw [if_pos same]
      exact linked target whole
  · have differing : (choices.filter fun next => next ≠ base.referred root name) ≠ [] := by
      intro nothing
      exact same fun next member => by simpa using List.filter_eq_nil_iff.mp nothing next member
    obtain ⟨last, prevails⟩ := Option.isSome_iff_exists.mp (List.getLast?_isSome.mpr differing)
    rw [prevails] at stored linked
    rw [prevails]
    refine ⟨stored, fun target whole => ?_⟩
    rw [if_neg same]
    exact linked target whole

end Walk

end ResponseGraph
