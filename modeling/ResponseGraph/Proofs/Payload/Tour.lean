import ResponseGraph.Proofs.Payload.Contents

/-!
Tours of payloads.

`Fields.visits` lists the positions of a payload either with the members of every entity or
without any.  A merge is in between: it walks the members of an entity unless it has done so
with the same set.  A tour says which visits are made that way.  It depends on the entities
that are marked before it, and leaves more of them marked, but it needs no graph.

A merge makes the visits of its tour, and sees nothing else but that members are opened
(`Draft.merge_toured`).
-/

namespace ResponseGraph

/-- Visits to be made, given the entities that are marked with the sets they were merged
with.  The result has the entities that are marked in the end. -/
abbrev Tour := List (NodeId × Nat) → List Visit × List (NodeId × Nat)

namespace Tour

def idle : Tour := fun marks => ([], marks)

def visit (visit : Visit) (rest : Tour) : Tour := fun marks =>
  let (visits, marks) := rest marks
  (visit :: visits, marks)

def andThen (first second : Tour) : Tour := fun marks =>
  let (visits, marks) := first marks
  let (more, marks) := second marks
  (visits ++ more, marks)

/-- The members of an entity are visited unless it is marked with the set. -/
def once (id : NodeId) (set : Nat) (members : Tour) : Tour := fun marks =>
  if marks.contains (id, set) then ([], marks) else members ((id, set) :: marks)

/-- The tour below an object at a site. -/
abbrev Below := Site → List (String × Json) → Tour

mutual
def ofValue (identify : Json → Option NodeId) (set : Nat) (below : Below) (site : Site) :
    Json → Tour
  | .null => visit (.brought site .null) idle
  | .object members =>
    match identify (.object members) with
    | none => visit (.brought site .object) (below site members)
    | some id => visit (.brought site (.entity id)) (once id set (below (.root id) members))
  | .array payloads =>
    visit (.brought site (.list payloads.length)) (ofItems identify set below site 0 payloads)
  | _ => visit (.brought site .misfit) idle
termination_by structural payload => payload

def ofItems (identify : Json → Option NodeId) (set : Nat) (below : Below) (site : Site)
    (index : Nat) : List Json → Tour
  | [] => idle
  | payload :: rest =>
    (ofValue identify set below (site.step (.index index)) payload).andThen
      (ofItems identify set below site (index + 1) rest)
termination_by structural payloads => payloads
end

end Tour

mutual
def Field.tour (identify : Json → Option NodeId) (site : Site) (payload : Json) : Field → Tour
  | .leaf _ _ => .visit (.brought site (.leaf payload)) .idle
  | .composite _ _ _ set fields =>
    Tour.ofValue identify set (fun below members => Fields.tour identify below members fields)
      site payload
termination_by structural field => field

def Fields.tour (identify : Json → Option NodeId) (site : Site) (members : List (String × Json)) :
    Fields → Tour
  | [] => .idle
  | (name, field) :: rest =>
    if field.head.excluded then Fields.tour identify site members rest
    else
      (match field.head.site site name with
        | .ok here => Field.tour identify here (payloadOf members name) field
        | .error _ => .visit (.brought site .misfit) .idle).andThen
      (Fields.tour identify site members rest)
termination_by structural fields => fields
end

namespace Visit

/-- The visits that a merge of the payload makes. -/
def toured (identify : Json → Option NodeId) (root : NodeId) (fields : Fields) :
    Json → List Visit
  | .object members => (Fields.tour identify (.root root) members fields []).1
  | _ => []

/-- The visit says no more than that the members of a node are walked. -/
def Opens : Visit → Prop
  | .brought site content => site.path = [] ∧ content = .object
  | .entered _ _ _ _ => True

end Visit

namespace Visit

/-- What the visit decides about the reference at the site. -/
def chooses (site : Site) : Visit → Option (Option NodeId)
  | .brought other content => if other = site then content.next? else none
  | .entered _ _ _ _ => none

theorem chooses_eq_none {content : Content} (h : content.next? = none) (site other : Site) :
    chooses site (.brought other content) = none := by
  rw [chooses, h, ite_self]

/-- What visits decide about the reference at a site, in their order. -/
def chosen (site : Site) (visits : List Visit) : List (Option NodeId) :=
  visits.filterMap (chooses site)

theorem chosen_append (site : Site) (visits more : List Visit) :
    chosen site (visits ++ more) = chosen site visits ++ chosen site more := List.filterMap_append

theorem chosen_cons (site : Site) (visit : Visit) (visits : List Visit) :
    chosen site (visit :: visits) = chosen site [visit] ++ chosen site visits :=
  chosen_append site [visit] visits

theorem chosen_singleton (site : Site) (visit : Visit) :
    chosen site [visit] = (visit.chooses site).toList := by
  unfold chosen
  cases chosen : visit.chooses site with
  | none => rw [List.filterMap_cons_none chosen]; rfl
  | some next => rw [List.filterMap_cons_some chosen]; rfl

theorem chosen_cons_none {site : Site} {visit : Visit} (h : visit.chooses site = none)
    (visits : List Visit) : chosen site (visit :: visits) = chosen site visits :=
  List.filterMap_cons_none h

end Visit

/-- A run that makes some visits, and sees nothing else but that members are opened.  What was
seen last comes first. -/
structure Toured (identify : Json → Option NodeId) (visits : List Visit) (walk : Walk)
    (seen : List Visit) (walk' : Walk) (seen' : List Visit) : Prop where
  run : Walk.Run identify walk seen walk' seen'
  within : ∀ visit ∈ seen', visit ∈ seen ∨ visit ∈ visits ∨ visit.Opens
  made : visits ⊆ seen'
  order : ∀ site, Visit.chosen site seen' =
    (Visit.chosen site visits).reverse ++ Visit.chosen site seen

namespace Toured

open Walk

variable {identify : Json → Option NodeId} {walk middle walk' : Walk}
  {visits more seen between seen' : List Visit}

theorem silent (run : Run identify walk seen walk' seen) :
    Toured identify [] walk seen walk' seen :=
  ⟨run, fun _ member => Or.inl member, List.nil_subset _, fun _ => rfl⟩

theorem brought {place : Place} {content : Content} (due : Due walk seen place.site)
    (brings : Brings identify walk place content walk') :
    Toured identify [.brought place.site content] walk seen walk'
      (.brought place.site content :: seen) := by
  refine ⟨(Step.brought due brings).run, fun visit member => ?_, ?_, fun site => ?_⟩
  · rcases List.mem_cons.mp member with rfl | old
    · exact Or.inr (Or.inl (List.mem_singleton.mpr rfl))
    · exact Or.inl old
  · exact fun visit member => List.mem_singleton.mp member ▸ List.mem_cons_self
  · have single : ∀ found : Option (Option NodeId), found.toList.reverse = found.toList := by
      rintro (_ | _) <;> rfl
    rw [Visit.chosen_cons, Visit.chosen_singleton, single]

theorem entered {site : Site} {id : NodeId} (set : Nat) (fields : Fields)
    (members : List (String × Json)) (around : .brought site (.entity id) ∈ seen) :
    Toured identify [] walk seen (walk.mark id set)
      (.brought (.root id) .object :: .entered id set fields members :: seen) := by
  refine ⟨(Step.entered set fields members around).run, fun visit member => ?_,
    List.nil_subset _, fun other => ?_⟩
  · simp only [List.mem_cons] at member
    rcases member with rfl | rfl | old
    · exact Or.inr (Or.inr ⟨rfl, rfl⟩)
    · exact Or.inr (Or.inr trivial)
    · exact Or.inl old
  · exact (Visit.chosen_cons_none (Visit.chooses_eq_none rfl _ _) _).trans
      (Visit.chosen_cons_none rfl _)

theorem trans (first : Toured identify visits walk seen middle between)
    (second : Toured identify more middle between walk' seen') :
    Toured identify (visits ++ more) walk seen walk' seen' := by
  refine ⟨first.run.trans second.run, fun visit member => ?_, ?_, fun site => ?_⟩
  · rw [List.mem_append]
    rcases second.within visit member with old | new | opens
    · exact (first.within visit old).imp_right (Or.imp_left Or.inl)
    · exact Or.inr (Or.inl (Or.inr new))
    · exact Or.inr (Or.inr opens)
  · exact List.append_subset.mpr ⟨List.Subset.trans first.made second.run.seen_subset, second.made⟩
  · rw [second.order, first.order, Visit.chosen_append, List.reverse_append, List.append_assoc]

/-- A run that starts at a root sees nothing besides its visits but that nodes are opened. -/
theorem mem_or_opens {root : NodeId} {site : Site} {content : Content}
    (h : Toured identify visits walk [.brought (.root root) .object] walk' seen)
    (member : .brought site content ∈ seen) :
    .brought site content ∈ visits ∨ site.path = [] ∧ content = .object := by
  rcases h.within _ member with start | made | opens
  · cases List.mem_singleton.mp start
    exact Or.inr ⟨rfl, rfl⟩
  · exact Or.inl made
  · exact Or.inr opens

end Toured

namespace Walk

/-- A successful walk makes a tour, from the entities that were marked to those that are. -/
def Tours (identify : Json → Option NodeId) (tour : Tour) (walk : Walk) (seen : List Visit)
    (walk' : Walk) : Prop :=
  ∃ seen', Toured identify (tour walk.visited).1 walk seen walk' seen' ∧
    (tour walk.visited).2 = walk'.visited

variable {identify : Json → Option NodeId} {walk middle walk' : Walk}
  {visits seen between : List Visit} {tour first second : Tour}

theorem Tours.idle : Tours identify .idle walk seen walk := ⟨seen, .silent .refl, rfl⟩

theorem Tours.silent (run : Run identify walk seen middle seen)
    (marks : middle.visited = walk.visited) (rest : Tours identify tour middle seen walk') :
    Tours identify tour walk seen walk' := by
  obtain ⟨seen', toured, left⟩ := rest
  rw [marks] at toured left
  exact ⟨seen', (Toured.silent run).trans toured, left⟩

theorem Tours.visit {place : Place} {content : Content} (due : Due walk seen place.site)
    (brings : Brings identify walk place content middle)
    (rest : Tours identify tour middle (.brought place.site content :: seen) walk') :
    Tours identify (.visit (.brought place.site content) tour) walk seen walk' := by
  obtain ⟨seen', toured, left⟩ := rest
  rw [brings.visited] at toured left
  exact ⟨seen', (Toured.brought due brings).trans toured, left⟩

theorem Tours.andThen (toured : Toured identify (first walk.visited).1 walk seen middle between)
    (left : (first walk.visited).2 = middle.visited)
    (rest : Tours identify second middle between walk') :
    Tours identify (first.andThen second) walk seen walk' := by
  obtain ⟨seen', more, last⟩ := rest
  refine ⟨seen', ?_, ?_⟩
  · unfold Tour.andThen
    dsimp only
    rw [left]
    exact toured.trans more
  · unfold Tour.andThen
    dsimp only
    rw [left]
    exact last

/-- What a descent has to do at an object that was seen. -/
def DescendsBy (identify : Json → Option NodeId) (below : Tour.Below) (descend : Descent) : Prop :=
  ∀ (place : Place) (members : List (String × Json)) (walk walk' : Walk) (seen : List Visit),
    descend place members walk = .ok walk' → .brought place.site .object ∈ seen →
    Tours identify (below place.site members) walk seen walk'

/-- The members of an entity are walked unless the entity is marked. -/
theorem tours_once (fields : Fields) {below : Tour.Below} {descend : Descent}
    (descends : DescendsBy identify below descend) {place : Place} {set : Nat} {id : NodeId}
    {members : List (String × Json)} {below? : Option Place} {entering : Walk}
    (around : .brought place.site (.entity id) ∈ seen)
    (visit : (entering, below?) = walk.visit place set id)
    (h : below?.elim (.ok entering) (fun below => descend below members entering) = .ok walk') :
    Tours identify (.once id set (below (.root id) members)) walk seen walk' := by
  unfold Tours Tour.once
  rcases visit_cases visit with ⟨before, rfl, rfl⟩ | ⟨fresh, rfl, rfl⟩
  · cases h
    rw [if_pos (List.contains_iff_mem.mpr before)]
    exact Tours.idle
  · rw [if_neg fun marked => fresh (List.contains_iff_mem.mp marked)]
    obtain ⟨seen', toured, left⟩ := descends (place.enter id) _ _ _ _ h List.mem_cons_self
    exact ⟨seen', (Toured.entered set fields members around).trans toured, left⟩

mutual
theorem value_tours (fields : Fields) {below : Tour.Below} {descend : Descent} {set : Nat}
    (descends : DescendsBy identify below descend) {place : Place} : (payload : Json) →
    {walk walk' : Walk} → {seen : List Visit} →
    value identify set descend place payload walk = .ok walk' → Due walk seen place.site →
    Tours identify (Tour.ofValue identify set below place.site payload) walk seen walk'
  | .null, walk, walk', seen, h, due => by
    unfold Tour.ofValue
    exact .visit due (brings_of_null h) .idle
  | .bool _, _, _, _, h, _ | .number _, _, _, _, h, _ | .string _, _, _, _, h, _ => by
    rw [value] at h
    · cases h
    all_goals simp
  | .object members, walk, walk', seen, h, due => by
    unfold Tour.ofValue
    rcases brings_of_object h with ⟨unnamed, brings, inside⟩ |
      ⟨id, middle, entering, below?, named, brings, visit, inside⟩
    · rw [unnamed]
      exact .visit due brings (descends _ _ _ _ _ inside List.mem_cons_self)
    · rw [named]
      exact .visit due brings (tours_once fields descends List.mem_cons_self visit inside)
  | .array payloads, walk, walk', seen, h, due => by
    obtain ⟨middle, brings, h⟩ := brings_of_array h
    unfold Tour.ofValue
    exact .visit due brings
      (items_tours fields descends payloads h (Nat.zero_add _) List.mem_cons_self)

theorem items_tours (fields : Fields) {below : Tour.Below} {descend : Descent} {set : Nat}
    (descends : DescendsBy identify below descend) {place : Place} {index length : Nat} :
    (payloads : List Json) → {walk walk' : Walk} → {seen : List Visit} →
    items identify set descend place index payloads walk = .ok walk' →
    index + payloads.length = length → .brought place.site (.list length) ∈ seen →
    Tours identify (Tour.ofItems identify set below place.site index payloads) walk seen walk'
  | [], walk, walk', seen, h, _, _ => by
    cases h
    exact .idle
  | payload :: rest, walk, walk', seen, h, total, around => by
    rw [items] at h
    rw [List.length_cons] at total
    obtain ⟨middle, first, h⟩ := exists_of_bind_eq_ok h
    have due : Due walk seen (place.step (.index index)).site := .item around (by omega)
    obtain ⟨between, toured, left⟩ := value_tours fields descends payload first due
    unfold Tour.ofItems
    exact .andThen toured left
      (items_tours fields descends rest h (by omega) (toured.run.seen_subset around))
end

end Walk

mutual
theorem Field.merge_tours {identify : Json → Option NodeId} {place : Place} {payload : Json} :
    (field : Field) → {walk walk' : Walk} → {seen : List Visit} →
    Field.merge identify place payload field walk = .ok walk' → Walk.Due walk seen place.site →
    Walk.Tours identify (Field.tour identify place.site payload field) walk seen walk'
  | .leaf _ _, walk, walk', seen, h, due => by
    cases h
    exact .visit due (.leaf payload) .idle
  | .composite _ _ _ set fields, walk, walk', seen, h, due =>
    have descends : Walk.DescendsBy identify _ _ :=
      fun _ _ _ _ _ merged opened => Fields.merge_tours fields merged opened
    Walk.value_tours fields descends payload h due

theorem Fields.merge_tours {identify : Json → Option NodeId} {place : Place}
    {members : List (String × Json)} : (fields : Fields) → {walk walk' : Walk} →
    {seen : List Visit} → Fields.merge identify place members fields walk = .ok walk' →
    .brought place.site .object ∈ seen →
    Walk.Tours identify (Fields.tour identify place.site members fields) walk seen walk'
  | [], walk, walk', seen, h, _ => by
    cases h
    exact .idle
  | (name, field) :: rest, walk, walk', seen, h, opened => by
    rw [Fields.merge] at h
    unfold Fields.tour
    split at h
    · next excluded =>
      rw [if_pos excluded]
      exact Fields.merge_tours rest h opened
    · next included =>
      rw [if_neg included]
      obtain ⟨warnings, selected⟩ := walk.member_eq place name members
      rw [selected] at h
      obtain ⟨⟨grown, here⟩, located, h⟩ := exists_of_bind_eq_ok h
      obtain ⟨middle, first, h⟩ := exists_of_bind_eq_ok h
      have warned : Walk.Step identify walk seen { walk with warnings } seen := .warned warnings
      obtain ⟨site, run, due⟩ := Walk.field_traced opened located
      obtain ⟨between, toured, left⟩ := Field.merge_tours field first due
      have marks := Walk.field_visited located
      rw [site]
      refine .silent (warned.run.trans run) marks ?_
      exact .andThen toured left (Fields.merge_tours rest h (toured.run.seen_subset opened))
end

/-- A successful merge makes the visits of its tour, and finishes. -/
theorem Draft.merge_toured {identify : Json → Option NodeId} {root : NodeId} {fields : Fields}
    {payload : Json} {draft draft' : Draft} {warnings : List String}
    (h : draft.merge identify root fields payload = .ok (draft', warnings)) :
    ∃ walk seen, draft' = walk.finish ∧
      Toured identify (Visit.toured identify root fields payload) (.ofDraft draft)
        [.brought (.root root) .object] walk seen := by
  unfold Draft.merge at h
  split at h
  · next members =>
    obtain ⟨walk, merged, h⟩ := exists_of_bind_eq_ok h
    cases h
    obtain ⟨seen, toured, -⟩ := Fields.merge_tours fields merged (List.mem_singleton.mpr rfl)
    exact ⟨walk, seen, rfl, toured⟩
  · cases h

/-! ## The items of a list -/

/-- With a list all of its items are brought. -/
def Visit.Itemized (visits : List Visit) : Prop :=
  ∀ site length, .brought site (.list length) ∈ visits → ∀ i < length,
    ∃ content, .brought (site.step (.index i)) content ∈ visits

namespace Visit.Itemized

variable {visits more : List Visit}

theorem nil : Itemized [] := fun _ _ member => absurd member List.not_mem_nil

theorem append (first : Itemized visits) (second : Itemized more) : Itemized (visits ++ more) := by
  intro site length member i inside
  rcases List.mem_append.mp member with member | member
  · obtain ⟨content, item⟩ := first site length member i inside
    exact ⟨content, List.mem_append_left _ item⟩
  · obtain ⟨content, item⟩ := second site length member i inside
    exact ⟨content, List.mem_append_right _ item⟩

/-- A visit may come before, if it brings no list or if the items come later. -/
theorem cons {site : Site} {content : Content} (h : Itemized visits)
    (items : ∀ length, content = .list length → ∀ i < length,
      ∃ content, .brought (site.step (.index i)) content ∈ visits) :
    Itemized (.brought site content :: visits) := by
  intro other length member i inside
  have later : ∃ content, .brought (other.step (.index i)) content ∈ visits := by
    rcases List.mem_cons.mp member with e | old
    · cases e
      exact items length rfl i inside
    · exact h other length old i inside
  exact later.imp fun _ => List.mem_cons_of_mem _

end Visit.Itemized

namespace Tour

open Visit

variable {identify : Json → Option NodeId} {set : Nat} {below : Below} {site : Site}

theorem exists_brought_ofValue (payload : Json) (marks : List (NodeId × Nat)) :
    ∃ content, .brought site content ∈ (ofValue identify set below site payload marks).1 := by
  cases payload with
  | object members =>
    unfold ofValue
    cases identify (.object members) <;> exact ⟨_, List.mem_cons_self⟩
  | _ => exact ⟨_, List.mem_cons_self⟩

theorem exists_brought_ofItems {i : Nat} (payloads : List Json) {index : Nat}
    (marks : List (NodeId × Nat)) (start : index ≤ i) (inside : i < index + payloads.length) :
    ∃ content, .brought (site.step (.index i)) content ∈
      (ofItems identify set below site index payloads marks).1 := by
  induction payloads generalizing index marks with
  | nil => exact absurd inside (Nat.not_lt.mpr start)
  | cons payload rest ih =>
    rw [List.length_cons] at inside
    unfold ofItems andThen
    dsimp only
    rcases Nat.eq_or_lt_of_le start with rfl | later
    · obtain ⟨content, here⟩ := exists_brought_ofValue payload marks
      exact ⟨content, List.mem_append_left _ here⟩
    · obtain ⟨content, there⟩ := ih _ later (by omega)
      exact ⟨content, List.mem_append_right _ there⟩

/-- The tour brings all items of its lists, whatever is marked before. -/
def Itemizes (tour : Tour) : Prop := ∀ marks, Itemized (tour marks).1

variable {tour first second : Tour}

theorem Itemizes.andThen (h : Itemizes first) (h' : Itemizes second) :
    Itemizes (first.andThen second) := fun marks => (h marks).append (h' _)

theorem Itemizes.once (h : Itemizes tour) (id : NodeId) (set : Nat) :
    Itemizes (.once id set tour) := by
  intro marks
  unfold Tour.once
  split
  · exact .nil
  · exact h _

theorem Itemizes.visit (h : Itemizes tour) {content : Content}
    (noList : ∀ length, content ≠ .list length) :
    Itemizes (.visit (.brought site content) tour) := fun marks =>
  (h marks).cons fun length e => absurd e (noList length)

theorem itemizes_idle : Itemizes idle := fun _ => .nil

mutual
theorem itemizes_ofValue (h : ∀ site members, Itemizes (below site members)) {site : Site} :
    (payload : Json) → Itemizes (ofValue identify set below site payload)
  | .null | .bool _ | .number _ | .string _ => by
    unfold ofValue
    exact itemizes_idle.visit fun length e => by cases e
  | .object members => by
    unfold ofValue
    cases identify (.object members) with
    | none => exact (h site members).visit fun length e => by cases e
    | some id => exact ((h _ members).once id set).visit fun length e => by cases e
  | .array payloads => fun marks => by
    unfold ofValue
    refine (itemizes_ofItems h payloads marks).cons fun length e i inside => ?_
    cases e
    exact exists_brought_ofItems payloads marks (Nat.zero_le i) (by omega)

theorem itemizes_ofItems (h : ∀ site members, Itemizes (below site members)) {site : Site}
    {index : Nat} :
    (payloads : List Json) → Itemizes (ofItems identify set below site index payloads)
  | [] => itemizes_idle
  | payload :: rest => (itemizes_ofValue h payload).andThen (itemizes_ofItems h rest)
end

end Tour

mutual
theorem Field.itemizes_tour {identify : Json → Option NodeId} {site : Site} {payload : Json} :
    (field : Field) → Tour.Itemizes (Field.tour identify site payload field)
  | .leaf _ _ => Tour.itemizes_idle.visit fun length e => by cases e
  | .composite _ _ _ _ fields =>
    Tour.itemizes_ofValue (fun _ _ => Fields.itemizes_tour fields) payload

theorem Fields.itemizes_tour {identify : Json → Option NodeId} {site : Site}
    {members : List (String × Json)} :
    (fields : Fields) → Tour.Itemizes (Fields.tour identify site members fields)
  | [] => Tour.itemizes_idle
  | (name, field) :: rest => by
    unfold Fields.tour
    split
    · exact Fields.itemizes_tour rest
    · refine .andThen ?_ (Fields.itemizes_tour rest)
      split
      · exact Field.itemizes_tour field
      · exact Tour.itemizes_idle.visit fun length e => by cases e
end

theorem Visit.itemized_toured (identify : Json → Option NodeId) (root : NodeId) (fields : Fields)
    (payload : Json) : Itemized (toured identify root fields payload) := by
  cases payload with
  | object members => exact Fields.itemizes_tour fields []
  | _ => exact .nil

end ResponseGraph
