import ResponseGraph.Proofs.Draft.Linked
import ResponseGraph.Proofs.Payload.Contents
import ResponseGraph.Proofs.Payload.Sound

/-!
Merges keep references and links together.

The data is written while a payload is walked, and the links to entities are changed
afterwards.  In between, the changes that were collected account for every difference:
a link whose reference was overwritten is to be detached, and a place at which an entity
or null was brought may still hold what it held before.
-/

namespace ResponseGraph

open Nodes NodeId Visit

namespace Content

/-- What is below the step gives way to the content. -/
def Closes : Content → Step → Prop
  | .null, _ => True
  | .list length, .index i => length ≤ i
  | _, _ => False

end Content

/-- The path was cut off by what was brought above it. -/
def Vacated (seen : List Visit) (id : NodeId) (path : Path) : Prop :=
  ∃ above step rest content, path = above ++ step :: rest ∧
    .brought ⟨id, above⟩ content ∈ seen ∧ content.Closes step

/-- The removal of the link is among the changes. -/
def Detached (changes : List LinkChange) (id : NodeId) (path : Path) (target : NodeId) : Prop :=
  .detach id path target ∈ changes

theorem linked_set {changes more : List LinkChange} {draft : Draft} {id : NodeId} {path : Path}
    {value : Value} (linked : Nodes.Linked (Detached changes) draft.node?)
    (bears : Nodes.Bears draft.node? id path)
    (kept : ∀ rest target, value.get? rest = some (.reference target) →
      Nodes.read draft.node? id (path ++ rest) = some (.reference target))
    (lost : ∀ rest target, Nodes.read draft.node? id (path ++ rest) = some (.reference target) →
      value.get? rest = some (.reference target) ∨ .detach id (path ++ rest) target ∈ more)
    (subset : changes ⊆ more) : Nodes.Linked (Detached more) (draft.set id path value).node? := by
  rw [Draft.nodes_set_write]
  exact linked.write bears kept lost fun _ _ _ waiting => subset waiting

/-- What the changes of a walk stand for. -/
structure Accounted (changes : List LinkChange) (seen : List Visit) : Prop where
  detached : ∀ id path target, .detach id path target ∈ changes → Vacated seen id path
  relinked : ∀ id path next, .relink id path next ∈ changes →
    ∃ content, .brought ⟨id, path⟩ content ∈ seen ∧ content.next? = some next

namespace Walk

/-- What holds between the steps of any walk, whether or not its payload is consistent. -/
structure Orderly (walk : Walk) (seen : List Visit) : Prop where
  sound : Walk.Sound walk seen
  nested : Nested seen
  rooted : Nodes.Rooted walk.draft.node?
  accounted : Accounted walk.changes seen

/-- What holds between the steps of a consistent walk, whatever is linked. -/
structure Formed (walk : Walk) (seen : List Visit) : Prop extends Orderly walk seen where
  shaped : Shaped walk.draft.node? seen
  delivered : Delivered walk.draft.node? walk.changes seen

/-- What holds between the steps of a consistent walk over a draft that has the links of
`base` to entities. -/
structure Linked (base : Nodes) (walk : Walk) (seen : List Visit) : Prop
    extends Formed walk seen where
  linked : Nodes.Linked (Detached walk.changes) walk.draft.node?
  settled : ∀ id path target, ⟨target, path⟩ ∈ Nodes.links walk.draft.node? .outbound id →
    Whole target → ⟨target, path⟩ ∈ base.links .outbound id

variable {identify : Json → Option NodeId} {walk walk' : Walk} {seen seen' : List Visit}
  {place : Place} {content : Content} {base : Nodes}

theorem fits_object {stored : Option Value} (noList : list? stored = none)
    (noEntity : entity? stored = none) : Content.object.Fits stored := by
  intro value e
  subst e
  exact ⟨noList, noEntity⟩

theorem of_fits_object {stored : Option Value} (fits : Content.object.Fits stored) :
    list? stored = none ∧ entity? stored = none := by
  cases stored with
  | none => exact ⟨rfl, rfl⟩
  | some value => exact fits value rfl

theorem fits_entity {stored : Option Value} {id : NodeId}
    (h : entity? stored = none → occupied stored = false) : (Content.entity id).Fits stored := by
  intro value same
  subst same
  cases named : entity? (some value) with
  | none =>
    rcases occupied_eq_false.mp (h named) with e | e
    · cases e
    · cases e
      exact Or.inl rfl
  | some other =>
    cases entity?_eq_some.mp named
    exact Or.inr ⟨other, rfl⟩

theorem not_fits_null {stored : Option Value} (full : occupied stored)
    (noEntity : entity? stored = none) : ¬ Content.null.Fits stored := by
  intro h
  rcases h with ⟨value, rfl, rfl | ⟨id, rfl⟩⟩
  · cases full
  · cases noEntity

/-- The site is left as it is if it fits the content, or else something is written there for
the content. -/
def Settles (walk : Walk) (place : Place) (content : Content) (walk' : Walk) : Prop :=
  (walk'.draft = walk.draft ∧ content.Fits (walk.stored? place)) ∨
    ∃ value, walk'.draft = walk.draft.set place.container place.path value ∧
      content.Written value ∧ ¬ content.Fits (walk.stored? place)

theorem settles_leaf (walk : Walk) (place : Place) {payload : Json} (same : payload.same payload) :
    Settles walk place (.leaf payload) (walk.leaf place payload) := by
  unfold Walk.leaf
  split
  · next held =>
    obtain ⟨value, stored, fits⟩ := (Option.any_eq_true _ _).mp held
    exact Or.inl ⟨rfl, value, stored, fits⟩
  · next differs =>
    refine Or.inr ⟨_, rfl, ?_, ?_⟩
    · show (Value.ofJson payload).sameAsJson payload
      rw [Value.sameAsJson_ofJson]
      exact same
    · intro fitting
      obtain ⟨value, stored, fits⟩ := fitting
      rw [stored] at differs
      exact differs fits

theorem Fitted.settles {length : Nat}
    (h : Fitted walk place (list? (walk.stored? place)) length walk') :
    Settles walk place (.list length) walk' := by
  have resized (items : List Value) :
      (Content.list length).Written (.list (Value.resize items length)) :=
    ⟨_, rfl, Value.length_resize items length⟩
  have differs {items : List Value} (stored : list? (walk.stored? place) = some items)
      (long : items.length ≠ length) : ¬ (Content.list length).Fits (walk.stored? place) := by
    rintro ⟨others, found, equal⟩
    rw [found] at stored
    cases stored
    exact long equal
  cases h with
  | made stored =>
    refine Or.inr ⟨_, rfl, resized [], ?_⟩
    rintro ⟨items, found, -⟩
    rw [found] at stored
    cases stored
  | kept stored long => exact Or.inl ⟨rfl, _, list?_eq_some.mp stored, long⟩
  | grown stored short => exact Or.inr ⟨_, rfl, resized _, differs stored (Nat.ne_of_lt short)⟩
  | cut stored long => exact Or.inr ⟨_, rfl, resized _, differs stored (Nat.ne_of_gt long)⟩

/-- A position of a consistent payload changes nothing but its site. -/
theorem Brings.settles (unnamed : identify .null = none)
    (h : Brings identify walk place content walk') (same : content.agrees content) :
    Settles walk place content walk' := by
  cases h with
  | leaf payload => exact settles_leaf walk place same
  | unlink stored =>
    obtain ⟨id, named⟩ := Option.isSome_iff_exists.mp stored
    exact Or.inl ⟨rfl, .reference id, entity?_eq_some.mp named, Or.inr ⟨id, rfl⟩⟩
  | clear stored inner => exact Or.inr ⟨.null, rfl, rfl, not_fits_null stored (inner unnamed)⟩
  | fill stored =>
    refine Or.inr ⟨.null, rfl, rfl, ?_⟩
    intro fitting
    obtain ⟨value, held, -⟩ := fitting
    rw [stored] at held
    cases held
  | keep stored => exact Or.inl ⟨rfl, .null, stored, Or.inl rfl⟩
  | object noList noEntity => exact Or.inl ⟨rfl, fits_object noList noEntity⟩
  | refer named stored differs => exact Or.inl ⟨rfl, fits_entity stored⟩
  | same named stored =>
    refine Or.inl ⟨rfl, fits_entity fun none => ?_⟩
    rw [none] at stored
    cases stored
  | list length stored => exact (fitted ..).settles

theorem leadsBelow_iff {path : Path} {first? : Option Nat} {link : Link} :
    leadsBelow path first? link = true ↔ ∃ step rest, link.path = path ++ step :: rest ∧
      ∀ first, first? = some first → ∃ i, step = .index i ∧ first ≤ i := by
  unfold leadsBelow
  constructor
  · intro h
    split at h
    · next step rest stripped =>
      refine ⟨step, rest, (Path.stripBase?_eq_some_iff _ _ _).mp stripped, ?_⟩
      intro first same
      subst same
      cases step with
      | index i => exact ⟨i, rfl, of_decide_eq_true h⟩
      | key name => cases h
    · cases h
  · intro given
    obtain ⟨step, rest, e, inside⟩ := given
    rw [(Path.stripBase?_eq_some_iff _ _ _).mpr e]
    cases first? with
    | none => rfl
    | some first =>
      obtain ⟨i, rfl, le⟩ := inside first rfl
      exact decide_eq_true le

/-- Whatever a clearing overwrites is detached. -/
theorem linked_clear (linked : Nodes.Linked (Detached walk.changes) walk.draft.node?)
    (bears : Nodes.Bears walk.draft.node? place.container place.path)
    (noEntity : entity? (walk.stored? place) = none) :
    Nodes.Linked (Detached (walk.clear place).changes) (walk.clear place).draft.node? := by
  refine linked_set linked bears ?_ ?_ fun change member =>
    mem_changes_detachBelow.mpr (Or.inl member)
  · intro rest target held
    cases rest with
    | nil => cases held
    | cons step rest => cases step <;> cases held
  · intro rest target held
    cases rest with
    | nil =>
      rw [List.append_nil] at held
      change walk.stored? place = _ at held
      rw [held] at noEntity
      cases noEntity
    | cons step rest =>
      obtain ⟨member, -⟩ := linked.stored _ _ _ held
      refine Or.inr (mem_changes_detachBelow.mpr (Or.inr ⟨_, member, ?_, rfl⟩))
      exact leadsBelow_iff.mpr ⟨step, rest, rfl, fun first e => by cases e⟩

/-- What is below a place is read in what is stored there. -/
theorem read_stored (walk : Walk) (place : Place) (rest : Path) :
    Nodes.read walk.draft.node? place.container (place.path ++ rest) =
      (walk.stored? place).bind fun value => value.get? rest :=
  read_append _ _ _ _

/-- Where there was no list, a list of nulls overwrites no reference. -/
theorem linked_fill (linked : Nodes.Linked (Detached walk.changes) walk.draft.node?)
    (bears : Nodes.Bears walk.draft.node? place.container place.path) (length : Nat)
    (free : occupied (walk.stored? place) = false) :
    Nodes.Linked (Detached walk.changes)
      (walk.write place (.list (Value.resize [] length))).draft.node? := by
  have empty : ∀ rest target, (Value.list []).get? rest ≠ some (.reference target) := by
    intro rest target h
    cases rest with
    | nil => cases h
    | cons step rest => cases step <;> cases h
  refine linked_set linked bears ?_ ?_ (List.Subset.refl _)
  · intro rest target new
    obtain ⟨i, below, -, -, old⟩ := (Value.get?_resize_reference _ _ _ _).mp new
    exact absurd old (empty rest target)
  · intro rest target old
    rw [read_stored] at old
    rcases occupied_eq_false.mp free with e | e
    · rw [e] at old
      cases old
    · rw [e] at old
      cases rest with
      | nil => cases old
      | cons step rest => cases step <;> cases old

/-- A list is resized if all references that it loses are detached. -/
theorem linked_resize {items : List Value} {length : Nat} {changes : List LinkChange}
    (linked : Nodes.Linked (Detached walk.changes) walk.draft.node?)
    (bears : Nodes.Bears walk.draft.node? place.container place.path)
    (held : walk.stored? place = some (.list items)) (kept : walk.changes ⊆ changes)
    (cut : ∀ i below target, length ≤ i → Nodes.read walk.draft.node? place.container
        (place.path ++ .index i :: below) = some (.reference target) →
      .detach place.container (place.path ++ .index i :: below) target ∈ changes) :
    Nodes.Linked (Detached changes)
      (walk.write place (.list (Value.resize items length))).draft.node? := by
  refine linked_set linked bears ?_ ?_ kept
  · intro rest target new
    obtain ⟨i, below, -, -, old⟩ := (Value.get?_resize_reference _ _ _ _).mp new
    rw [read_stored, held]
    exact old
  · intro rest target old
    have before := old
    rw [read_stored, held, Option.bind_some] at old
    cases rest with
    | nil => cases old
    | cons step below =>
      cases step with
      | key name => cases old
      | index i =>
        by_cases inside : i < length
        · exact Or.inl ((Value.get?_resize_reference _ _ _ _).mpr ⟨i, below, rfl, inside, old⟩)
        · exact Or.inr (cut i below target (by omega) before)

/-- Whatever is cut off from a list is detached. -/
theorem Fitted.linked {length : Nat}
    (h : Fitted walk place (list? (walk.stored? place)) length walk')
    (linked : Nodes.Linked (Detached walk.changes) walk.draft.node?)
    (bears : Nodes.Bears walk.draft.node? place.container place.path)
    (free : list? (walk.stored? place) = none → occupied (walk.stored? place) = false) :
    Nodes.Linked (Detached walk'.changes) walk'.draft.node? := by
  cases h with
  | made stored => exact linked_fill linked bears length (free stored)
  | kept => exact linked
  | @grown items stored short =>
    rw [list?_eq_some] at stored
    refine linked_resize linked bears stored (List.Subset.refl _) ?_
    intro i below target beyond old
    have nothing : items[i]? = none := List.getElem?_eq_none (by omega)
    rw [read_stored, stored, Option.bind_some, Value.get?_cons, Value.step?_index] at old
    rw [show (Value.list items).items = items from rfl, nothing] at old
    cases old
  | cut stored long =>
    rw [list?_eq_some] at stored
    refine linked_resize linked bears stored
      (fun change member => mem_changes_detachBelow.mpr (Or.inl member)) ?_
    intro i below target beyond old
    obtain ⟨member, -⟩ := linked.stored _ _ _ old
    refine mem_changes_detachBelow.mpr (Or.inr ⟨⟨target, _⟩, ?_, ?_, rfl⟩)
    · show _ ∈ Nodes.links (walk.draft.set _ _ _).node? _ _
      rw [Draft.links_set]
      exact member
    · refine leadsBelow_iff.mpr ⟨.index i, below, rfl, ?_⟩
      intro first e
      cases e
      exact ⟨i, rfl, beyond⟩

/-- The value of a field without sub-selection overwrites no reference. -/
theorem linked_leaf (linked : Nodes.Linked (Detached walk.changes) walk.draft.node?)
    (bears : Nodes.Bears walk.draft.node? place.container place.path) (payload : Json)
    (bare : ∀ rest target, Whole target →
      ⟨target, place.path ++ rest⟩ ∉ Nodes.links walk.draft.node? .outbound place.container) :
    Nodes.Linked (Detached (walk.leaf place payload).changes)
      (walk.leaf place payload).draft.node? := by
  unfold Walk.leaf
  split
  · exact linked
  · refine linked_set linked bears ?_ ?_ (List.Subset.refl _)
    · intro rest target new
      exact absurd new (Value.get?_ofJson_ne payload rest target)
    · intro rest target old
      obtain ⟨member, whole⟩ := linked.stored _ _ _ old
      exact absurd member (bare rest target whole)

theorem linked_relink (linked : Nodes.Linked (Detached walk.changes) walk.draft.node?)
    (next : Option NodeId) :
    Nodes.Linked (Detached (walk.relink place next).changes) (walk.relink place next).draft.node? :=
  Nodes.Linked.mono linked fun _ _ _ waiting => List.mem_append_left _ waiting

theorem Brings.linked (unnamed : identify .null = none)
    (h : Brings identify walk place content walk')
    (linked : Nodes.Linked (Detached walk.changes) walk.draft.node?)
    (bears : Nodes.Bears walk.draft.node? place.container place.path)
    (bare : ∀ payload, content = .leaf payload → ∀ rest target, Whole target →
      ⟨target, place.path ++ rest⟩ ∉ Nodes.links walk.draft.node? .outbound place.container) :
    Nodes.Linked (Detached walk'.changes) walk'.draft.node? := by
  cases h with
  | leaf payload => exact linked_leaf linked bears payload (bare payload rfl)
  | unlink | refer => exact linked_relink linked _
  | clear stored inner => exact linked_clear linked bears (inner unnamed)
  | fill stored =>
    have empty : ∀ rest,
        Nodes.read walk.draft.node? place.container (place.path ++ rest) = none := by
      intro rest
      rw [read_append]
      change (walk.stored? place).bind _ = none
      rw [stored]
      rfl
    refine linked_set linked bears (fun rest target new => ?_) (fun rest target old => ?_)
      (List.Subset.refl _)
    · cases rest with
      | nil => cases new
      | cons step rest => cases step <;> cases new
    · rw [empty] at old
      cases old
  | keep | object | same => exact linked
  | list length stored => exact (fitted ..).linked linked bears stored

end Walk

namespace Accounted

variable {changes : List LinkChange} {seen seen' : List Visit} {walk : Walk} {place : Place}

theorem mono (h : Accounted changes seen) (subset : seen ⊆ seen') : Accounted changes seen' := by
  refine ⟨fun id path target member => ?_, fun id path next member => ?_⟩
  · obtain ⟨above, step, rest, content, e, around, closes⟩ := h.detached id path target member
    exact ⟨above, step, rest, content, e, subset around, closes⟩
  · obtain ⟨content, around, links⟩ := h.relinked id path next member
    exact ⟨content, subset around, links⟩

theorem relink (h : Accounted walk.changes seen) {content : Content} {next : Option NodeId}
    (here : .brought place.site content ∈ seen) (links : content.next? = some next) :
    Accounted (walk.relink place next).changes seen := by
  refine ⟨fun id path target member => ?_, fun id path other member => ?_⟩
  · rcases List.mem_append.mp member with old | new
    · exact h.detached id path target old
    · cases List.mem_singleton.mp new
  · rcases List.mem_append.mp member with old | new
    · exact h.relinked id path other old
    · cases List.mem_singleton.mp new
      exact ⟨content, here, links⟩

theorem detachBelow (h : Accounted walk.changes seen) {content : Content} {first? : Option Nat}
    (here : .brought place.site content ∈ seen)
    (closes : ∀ step, (∀ first, first? = some first → ∃ i, step = .index i ∧ first ≤ i) →
      content.Closes step) : Accounted (walk.detachBelow place first?).changes seen := by
  refine ⟨fun id path target member => ?_, fun id path next member => ?_⟩
  · rcases Walk.mem_changes_detachBelow.mp member with old | ⟨link, -, below, e⟩
    · exact h.detached id path target old
    · cases e
      obtain ⟨step, rest, e, inside⟩ := Walk.leadsBelow_iff.mp below
      exact ⟨place.path, step, rest, content, e, here, closes step inside⟩
  · rcases Walk.mem_changes_detachBelow.mp member with old | ⟨link, -, -, e⟩
    · exact h.relinked id path next old
    · cases e

end Accounted

namespace Walk

variable {identify : Json → Option NodeId} {walk walk' : Walk} {seen seen' : List Visit}
  {place : Place} {content : Content} {base : Nodes}

theorem Fitted.accounted {previous : Option (List Value)} {length : Nat}
    (h : Fitted walk place previous length walk') (accounted : Accounted walk.changes seen)
    (here : .brought place.site (.list length) ∈ seen) : Accounted walk'.changes seen := by
  cases h with
  | made | kept | grown => exact accounted
  | @cut items =>
    have written : Accounted (walk.write place (.list (Value.resize items length))).changes seen :=
      accounted
    refine written.detachBelow here fun step inside => ?_
    obtain ⟨i, rfl, le⟩ := inside length rfl
    exact le

theorem Brings.accounted (h : Brings identify walk place content walk')
    (accounted : Accounted walk.changes seen) :
    Accounted walk'.changes (.brought place.site content :: seen) := by
  have before := accounted.mono (List.subset_cons_self (Visit.brought place.site content) seen)
  cases h with
  | leaf payload =>
    unfold Walk.leaf
    split <;> exact before
  | unlink => exact before.relink List.mem_cons_self rfl
  | refer => exact before.relink List.mem_cons_self rfl
  | clear => exact before.detachBelow List.mem_cons_self fun _ _ => trivial
  | fill | keep | object | same => exact before
  | list length => exact (fitted ..).accounted before List.mem_cons_self

theorem Orderly.start {draft : Draft} {root : NodeId}
    (sound : Nodes.Sound (fun _ => False) draft.node?) (rooted : Nodes.Rooted draft.node?)
    (whole : Whole root) : Orderly (.ofDraft draft) [.brought (.root root) .object] :=
  ⟨.start sound whole, nested_start root, rooted,
    fun _ _ _ member => absurd member List.not_mem_nil,
    fun _ _ _ member => absurd member List.not_mem_nil⟩

theorem Step.orderly (h : Step identify walk seen walk' seen') (named : Named seen')
    (orderly : Orderly walk seen) : Orderly walk' seen' := by
  have sound := h.sound named orderly.sound
  have nested := h.nested orderly.nested
  have kept := h.seen_subset
  cases h with
  | warned warnings => exact ⟨sound, nested, orderly.rooted, orderly.accounted⟩
  | @grown place name arguments id around address fresh =>
    have missing := orderly.sound.nodes.eq_none_of_not_linked address fresh
    refine ⟨sound, nested, ?_, orderly.accounted⟩
    rw [nodes_grow]
    exact orderly.rooted.sprout missing rfl
  | brought due brings =>
    refine ⟨sound, nested, ?_, brings.accounted orderly.accounted⟩
    rcases brings.touches.written with e | ⟨value, e⟩
    · rw [e]
      exact orderly.rooted
    · rw [e, Draft.nodes_set_write]
      refine orderly.rooted.write fun whole => ?_
      exact orderly.nested.starts_with_key (due.enclosed orderly.nested) whole
        fun root => due.not_whole root whole
  | entered => exact ⟨sound, nested, orderly.rooted, orderly.accounted.mono kept⟩

theorem Run.orderly (h : Run identify walk seen walk' seen') (named : Named seen')
    (orderly : Orderly walk seen) : Orderly walk' seen' := by
  induction h with
  | refl => exact orderly
  | tail run step ih => exact step.orderly named (ih (named.mono step.seen_subset))

/-- No reference to an entity is linked where a value without sub-selection is seen, or
below. -/
def Bare (base : Nodes) (seen : List Visit) : Prop :=
  ∀ site payload, .brought site (.leaf payload) ∈ seen → ∀ rest target, Whole target →
    ⟨target, site.path ++ rest⟩ ∉ base.links .outbound site.container

theorem Bare.mono (h : Bare base seen') (subset : seen ⊆ seen') : Bare base seen :=
  fun site payload member => h site payload (subset member)

theorem changes_subset_detachBelow (first? : Option Nat) :
    walk.changes ⊆ (walk.detachBelow place first?).changes := fun _ member =>
  mem_changes_detachBelow.mpr (Or.inl member)

theorem Brings.changes_subset (h : Brings identify walk place content walk') :
    walk.changes ⊆ walk'.changes := by
  cases h with
  | leaf payload =>
    unfold Walk.leaf
    split <;> exact List.Subset.refl _
  | unlink | refer => exact List.subset_append_left _ _
  | clear => exact changes_subset_detachBelow none
  | fill | keep | object | same => exact List.Subset.refl _
  | list length =>
    unfold fit
    split
    · exact List.Subset.refl _
    · next items _ =>
      split
      · exact List.Subset.refl _
      · dsimp only
        split
        · show (walk.write place (.list (Value.resize items length))).changes ⊆ _
          exact changes_subset_detachBelow _
        · exact List.Subset.refl _

/-- What a position refers to is stored, or will be. -/
theorem Brings.delivers (h : Brings identify walk place content walk') {next : Option NodeId}
    (decides : content.next? = some next) :
    Nodes.read walk'.draft.node? place.container place.path = some (.referring next) ∨
      .relink place.container place.path next ∈ walk'.changes := by
  have written : Nodes.read (walk.draft.set place.container place.path .null).node? place.container
      place.path = some .null := by
    rw [Draft.nodes_set_write, read_write_self]
  cases h with
  | leaf | object | list => cases decides
  | unlink | refer =>
    cases decides
    exact Or.inr (List.mem_append_right _ (List.mem_singleton.mpr rfl))
  | clear | fill =>
    cases decides
    exact Or.inl written
  | keep stored =>
    cases decides
    exact Or.inl stored
  | same named stored =>
    cases decides
    exact Or.inl (entity?_eq_some.mp stored)

theorem Formed.brought (h : Formed walk seen) (unnamed : identify .null = none)
    (due : Due walk seen place.site) (brings : Brings identify walk place content walk')
    (named : Named (.brought place.site content :: seen))
    (consistent : Consistent (.brought place.site content :: seen)) :
    Formed walk' (.brought place.site content :: seen) := by
  have step : Step identify walk seen walk' (.brought place.site content :: seen) :=
    .brought due brings
  have enclosed := due.enclosed h.nested
  have bears : Nodes.Bears walk.draft.node? place.container place.path := h.shaped.bears enclosed
  have same : content.agrees content := consistent _ _ _ List.mem_cons_self List.mem_cons_self
  have old := List.subset_cons_self (Visit.brought place.site content) seen
  refine ⟨step.orderly named h.toOrderly, ?_, Delivered.cons ?_ fun next => brings.delivers⟩
  · rcases brings.settles unnamed same with ⟨e, fits⟩ | ⟨value, e, written, differs⟩
    · rw [e]
      exact h.shaped.cons fits
    · rw [e, Draft.nodes_set_write]
      exact h.shaped.bring h.nested enclosed consistent differs written
  · rcases brings.settles unnamed same with ⟨e, -⟩ | ⟨value, e, written, differs⟩
    · rw [e]
      exact h.delivered.mono brings.changes_subset
    · rw [e, Draft.nodes_set_write]
      show Delivered (Nodes.write _ place.site.container place.site.path value) _ _
      refine h.delivered.write (consistent.mono old) enclosed bears
        (fun other member => ?_)
        (h.shaped.nothing_below h.nested consistent differs written) written
        fun change member => Or.inl (brings.changes_subset member)
      exact consistent _ _ _ List.mem_cons_self (old member)

theorem Formed.grow {name : String} {arguments : Arguments} {id : NodeId} (h : Formed walk seen)
    (around : .brought place.site .object ∈ seen)
    (address :
      NodeId.parameterized place.container (place.step (.key name)).path arguments = .ok id)
    (fresh : ⟨id, (place.step (.key name)).path⟩ ∉
      Nodes.links walk.draft.node? .outbound place.container) :
    Formed (walk.grow (place.step (.key name)) id) seen := by
  have missing := h.sound.nodes.eq_none_of_not_linked address fresh
  have nodes := nodes_grow walk (place.step (.key name)) id
  refine ⟨⟨h.sound.grow (h.sound.seated _ _ around) address fresh, h.nested, ?_, h.accounted⟩,
    ?_, ?_⟩
  · rw [nodes]
    exact h.rooted.sprout missing rfl
  · intro site content member
    rw [nodes, read_sprout missing rfl]
    exact h.shaped site content member
  · intro site content next member decides
    rw [nodes, read_sprout missing rfl]
    exact h.delivered site content next member decides

theorem Formed.enter {site : Site} {id : NodeId} {set : Nat} {fields : Fields}
    {members : List (String × Json)} (h : Formed walk seen)
    (around : .brought site (.entity id) ∈ seen)
    (named : Named (.brought (.root id) .object :: .entered id set fields members :: seen)) :
    Formed (walk.mark id set)
      (.brought (.root id) .object :: .entered id set fields members :: seen) := by
  have step : Step (fun _ => none) walk seen (walk.mark id set) _ :=
    .entered set fields members around
  have kept := step.seen_subset
  have whole : Whole id := named _ (kept around) id rfl
  refine ⟨step.orderly named h.toOrderly, ?_, ?_⟩
  · refine Shaped.cons (fun other content member => ?_) (h.rooted id whole)
    exact h.shaped other content ((List.mem_cons.mp member).resolve_left fun e => by cases e)
  · refine Delivered.cons (fun other content next member => ?_) fun next decides => by cases decides
    exact h.delivered other content next ((List.mem_cons.mp member).resolve_left
      fun e => by cases e)

theorem Step.formed (h : Step identify walk seen walk' seen') (unnamed : identify .null = none)
    (named : Named seen') (consistent : Consistent seen') (formed : Formed walk seen) :
    Formed walk' seen' := by
  cases h with
  | warned warnings =>
    have step : Step identify walk seen { walk with warnings } seen := .warned warnings
    exact ⟨step.orderly named formed.toOrderly, formed.shaped, formed.delivered⟩
  | grown name around address fresh => exact formed.grow around address fresh
  | brought due brings => exact formed.brought unnamed due brings named consistent
  | entered set fields members around => exact formed.enter around named

theorem Formed.start {draft : Draft} {root : NodeId}
    (sound : Nodes.Sound (fun _ => False) draft.node?) (rooted : Nodes.Rooted draft.node?)
    (whole : Whole root) : Formed (.ofDraft draft) [.brought (.root root) .object] := by
  refine ⟨.start sound rooted whole, ?_, ?_⟩
  · exact Shaped.cons (fun _ _ member => absurd member List.not_mem_nil) (rooted root whole)
  · exact Delivered.cons (fun _ _ _ member => absurd member List.not_mem_nil)
      fun next decides => by cases decides

/-- The links to entities stay as they are during a step, and agree with the references. -/
theorem Step.linked (h : Step identify walk seen walk' seen') (unnamed : identify .null = none)
    (named : Named seen') (consistent : Consistent seen') (bare : Bare base seen')
    (linked : Linked base walk seen) : Linked base walk' seen' := by
  refine ⟨h.formed unnamed named consistent linked.toFormed, ?_, ?_⟩
  · cases h with
    | warned | entered => exact linked.linked
    | grown name around address fresh =>
      have missing := linked.sound.nodes.eq_none_of_not_linked address fresh
      rw [nodes_grow]
      exact linked.linked.sprout missing rfl rfl (NodeId.not_whole_of_parameterized address)
    | brought due brings =>
      have bears := linked.shaped.bears (due.enclosed linked.nested)
      refine brings.linked unnamed linked.linked bears ?_
      intro payload equal rest target whole member
      subst equal
      exact bare _ _ List.mem_cons_self rest target whole (linked.settled _ _ _ member whole)
  · intro id path target member whole
    cases h with
    | warned | entered => exact linked.settled id path target member whole
    | grown name around address fresh =>
      have missing := linked.sound.nodes.eq_none_of_not_linked address fresh
      rw [nodes_grow, mem_outbound_sprout missing rfl] at member
      rcases member with old | ⟨-, e⟩
      · exact linked.settled id path target old whole
      · cases e
        exact absurd whole (NodeId.not_whole_of_parameterized address)
    | brought due brings =>
      rw [brings.touches.links] at member
      exact linked.settled id path target member whole

theorem Run.linked (h : Run identify walk seen walk' seen') (unnamed : identify .null = none)
    (named : Named seen') (consistent : Consistent seen') (bare : Bare base seen')
    (linked : Linked base walk seen) : Linked base walk' seen' := by
  induction h with
  | refl => exact linked
  | tail run step ih =>
    have kept := step.seen_subset
    exact step.linked unnamed named consistent bare
      (ih (named.mono kept) (consistent.mono kept) (bare.mono kept))

theorem Linked.start {draft : Draft} {root : NodeId}
    (sound : Nodes.Sound (fun _ => False) draft.node?) (rooted : Nodes.Rooted draft.node?)
    (linked : Nodes.Linked (fun _ _ _ => False) draft.node?) (whole : Whole root) :
    Linked draft.node? (.ofDraft draft) [.brought (.root root) .object] :=
  ⟨.start sound rooted whole, linked.mono fun _ _ _ impossible => impossible.elim,
    fun _ _ _ member _ => member⟩

end Walk
end ResponseGraph
