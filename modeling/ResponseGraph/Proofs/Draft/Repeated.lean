import ResponseGraph.Proofs.Draft.Level
import ResponseGraph.Proofs.Value.Lens

/-!
Changes that are made again.

A change that was made may be found once more.  The place that it relinks is settled by then: it
holds the reference, links that entity and no other, and the entity is no orphan.  Relinking a
settled place takes the link away and puts it back, which changes nothing but the order of links
(`Settled.again`).

So it is enough that the changes are concerted: whatever is made in between has to leave the place
settled.  Another change of the same place makes the same of it, and a change of another place
writes beside it, where the paths part at two members of one object or at two items of one list.
-/

namespace ResponseGraph

open NodeId (Whole)

/-! ## Paths that part -/

/-- The paths part, at a key each or at an index each. -/
inductive Path.Parts : Path → Path → Prop
  | keys {name other : String} (ne : name ≠ other) (path rest : Path) :
    Parts (.key name :: path) (.key other :: rest)
  | indices {i j : Nat} (ne : i ≠ j) (path rest : Path) :
    Parts (.index i :: path) (.index j :: rest)
  | step (step : Step) {path other : Path} (h : Parts path other) :
    Parts (step :: path) (step :: other)

theorem Path.Parts.ne {path other : Path} (h : Path.Parts path other) : path ≠ other := by
  induction h with
  | keys ne | indices ne =>
    intro e
    cases e
    exact ne rfl
  | step step _ ih => exact fun e => ih (List.cons.inj e).2

namespace Value

variable {value new found : Value} {path other : Path}

/-- Where paths part by steps of one kind, nothing gives way. -/
theorem get?_set_of_parts (parts : Path.Parts path other) (h : value.get? other = some found) :
    (value.set path new).get? other = some found := by
  induction parts generalizing value with
  | keys ne path rest =>
    rw [get?_cons] at h
    obtain ⟨below, taken, reached⟩ := Option.bind_eq_some_iff.mp h
    rw [set_cons, get?_cons, step?_put (bears_of_step?_key taken _)
      (fun e => ne (Step.key.inj e)) taken]
    exact reached
  | indices ne path rest =>
    rw [get?_cons] at h
    obtain ⟨below, taken, reached⟩ := Option.bind_eq_some_iff.mp h
    rw [set_cons, get?_cons, step?_put (bears_of_step?_index taken _)
      (fun e => ne (Step.index.inj e)) taken]
    exact reached
  | step step _ ih =>
    rw [get?_cons] at h
    obtain ⟨below, taken, reached⟩ := Option.bind_eq_some_iff.mp h
    rw [set_cons, get?_cons, step?_put_self, Option.bind_some, taken]
    exact ih reached

end Value

namespace Nodes

variable {nodes : Nodes} {id : NodeId} {path other : Path} {value found : Value}

theorem read_write_of_parts (parts : Path.Parts path other)
    (h : nodes.read id other = some found) :
    (nodes.write id path value).read id other = some found := by
  rw [read_write]
  exact Value.get?_set_of_parts parts (read_eq_some h)

/-- A value is written where it is stored. -/
theorem frame_write_of_read (h : nodes.read id path = some value) :
    (nodes.write id path value).frame = nodes.frame := by
  funext other
  rw [frame_write]
  split
  · next e =>
    subst e
    rw [read_eq_frame] at h
    obtain ⟨data, stored, held⟩ := Option.bind_eq_some_iff.mp h
    rw [stored, Option.getD_some, Value.set_of_get? held, ← stored]
  · rfl

end Nodes

open Nodes

/-! ## Settled places -/

/-- The change leaves a place alone, or makes of it what it is to be. -/
def LinkChange.Respects (container : NodeId) (path : Path) (next : Option NodeId) :
    LinkChange → Prop
  | .detach id place _ => ¬ (id = container ∧ place = path)
  | .relink id place other =>
    id = container → (place = path ∧ other = next) ∨ Path.Parts place path

namespace Draft

variable {draft : Draft} {container target id : NodeId} {path place : Path} {next : Option NodeId}
  {change : LinkChange} {changes : List LinkChange}

/-- The place was relinked, and nothing has changed it since. -/
structure Settled (draft : Draft) (container : NodeId) (path : Path) (next : Option NodeId) :
    Prop where
  stored : Nodes.read draft.node? container path = some (.referring next)
  linked : ∀ target, Whole target →
    (⟨target, path⟩ ∈ Nodes.links draft.node? .outbound container ↔ next = some target)
  kept : ∀ target, next = some target → ¬ draft.orphans.contains target
  edited : draft.edited.contains container

theorem contains_orphans_linkNext {next : Option NodeId} :
    (draft.linkNext container path next).orphans.contains id ↔
      next ≠ some id ∧ draft.orphans.contains id := by
  cases next with
  | none => simp [linkNext]
  | some target =>
    show (draft.orphans.erase target).contains id = true ↔ _
    unfold Table.contains
    rw [Table.get?_erase]
    by_cases e : target = id <;> simp [e]

theorem settled_apply (h : Upheld draft.node?) :
    Settled (draft.apply (.relink container path next)) container path next := by
  refine ⟨?_, fun target whole => ?_, fun target e orphan => ?_, ?_⟩
  · rw [read_apply_relink, read_write_self]
  · rw [mem_outbound_apply_relink]
    constructor
    · rintro (⟨old, kept⟩ | ⟨-, other, e, same⟩)
      · exact absurd ⟨rfl, target, h.linkedEntity?_iff.mpr ⟨old, whole⟩, rfl⟩ kept
      · cases same
        exact e
    · exact fun e => Or.inr ⟨rfl, target, e, rfl⟩
  · rw [apply_relink, contains_orphans_linkNext] at orphan
    exact orphan.1 e
  · rw [apply_relink, edited_linkNext, edited_unlinkPrevious, contains_edited_set]
    exact Or.inl rfl

/-- Whoever keeps an inbound link does not become an orphan. -/
theorem not_orphan_unlink
    (linked : ⟨container, path⟩ ∈ Nodes.links draft.node? .inbound target)
    (kept : ¬ draft.orphans.contains target) {other : NodeId}
    (apart : ¬ (id = container ∧ place = path)) :
    ¬ (draft.unlink id place other).orphans.contains target := by
  rw [contains_orphans_unlink]
  rintro (old | ⟨-, -, none⟩)
  · exact kept old
  · have stays : ⟨container, path⟩ ∈
        Nodes.links (draft.unlink id place other).node? .inbound target := by
      refine (mem_links_unlink _ _ _ _ _ _ _).mpr ⟨linked, by simp, ?_⟩
      rintro ⟨-, -, e⟩
      cases e
      exact apart ⟨rfl, rfl⟩
    rw [none] at stays
    cases stays

namespace Settled

theorem inbound (s : Settled draft container path next) (h : Upheld draft.node?)
    (whole : Whole target) (e : next = some target) :
    ⟨container, path⟩ ∈ Nodes.links draft.node? .inbound target :=
  h.answered _ _ _ ((s.linked target whole).mpr e)

theorem detach (s : Settled draft container path next) (h : Upheld draft.node?)
    (whole : ∀ target, next = some target → Whole target)
    (apart : ¬ (id = container ∧ place = path)) :
    Settled (draft.apply (.detach id place target)) container path next := by
  refine ⟨?_, fun other wholeOther => ?_, fun other e => ?_, ?_⟩
  · rw [read_apply_detach]
    exact s.stored
  · rw [mem_outbound_apply_detach, s.linked other wholeOther]
    refine and_iff_left ?_
    rintro ⟨same, e⟩
    cases e
    exact apart ⟨same, rfl⟩
  · exact not_orphan_unlink (s.inbound h (whole other e) e) (s.kept other e) apart
  · show (draft.unlink id place target).edited.contains container = true
    rw [edited_unlink]
    exact s.edited

theorem relink {other : Option NodeId} (s : Settled draft container path next)
    (h : Upheld draft.node?) (whole : ∀ target, next = some target → Whole target)
    (parts : id = container → Path.Parts place path) :
    Settled (draft.apply (.relink id place other)) container path next := by
  have apart : ¬ (id = container ∧ place = path) := fun same => (parts same.1).ne same.2
  refine ⟨?_, fun target wholeTarget => ?_, fun target e => ?_, ?_⟩
  · by_cases same : id = container
    · subst same
      rw [read_apply_relink]
      exact read_write_of_parts (parts rfl) s.stored
    · have elsewhere : (LinkChange.relink id place other).container ≠ container := same
      rw [read_apply_of_ne elsewhere]
      exact s.stored
  · rw [mem_outbound_apply_relink_of_ne apart]
    exact s.linked target wholeTarget
  · rw [apply_relink, contains_orphans_linkNext]
    refine fun orphan => absurd orphan.2 ?_
    have linked : ⟨container, path⟩ ∈ Nodes.links
        (draft.set id place (.referring other)).node? .inbound target := by
      rw [links_set]
      exact s.inbound h (whole target e) e
    cases draft.linkedEntity? id place with
    | none => exact s.kept target e
    | some previous => exact not_orphan_unlink linked (s.kept target e) apart
  · rw [apply_relink, edited_linkNext, edited_unlinkPrevious, contains_edited_set]
    exact Or.inr s.edited

/-- A change that respects a settled place leaves it settled. -/
theorem apply (s : Settled draft container path next) (h : Upheld draft.node?)
    (whole : ∀ target, next = some target → Whole target)
    (respects : change.Respects container path next) :
    Settled (draft.apply change) container path next := by
  cases change with
  | detach id place target => exact s.detach h whole respects
  | relink id place other =>
    by_cases again : id = container ∧ place = path ∧ other = next
    · obtain ⟨rfl, rfl, rfl⟩ := again
      exact settled_apply h
    · refine s.relink h whole fun same => (respects same).resolve_left fun e => ?_
      exact again ⟨same, e⟩

theorem applyAll (s : Settled draft container path next) (h : Upheld draft.node?)
    (whole : ∀ target, next = some target → Whole target)
    (seemly : ∀ change ∈ changes, change.Seemly)
    (respects : ∀ change ∈ changes, change.Respects container path next) :
    Settled (draft.applyAll changes) container path next := by
  induction changes generalizing draft with
  | nil => exact s
  | cons change changes ih =>
    refine ih (s.apply h whole (respects change List.mem_cons_self))
      (h.apply (seemly change List.mem_cons_self)) (fun other member => ?_) fun other member => ?_
    · exact seemly other (List.mem_cons_of_mem _ member)
    · exact respects other (List.mem_cons_of_mem _ member)

theorem linkedEntity?_eq (s : Settled draft container path next) (h : Upheld draft.node?)
    (whole : ∀ target, next = some target → Whole target) :
    draft.linkedEntity? container path = next := by
  refine Option.ext fun target => ?_
  rw [h.linkedEntity?_iff]
  constructor
  · exact fun linked => (s.linked target linked.2).mp linked.1
  · exact fun e => ⟨(s.linked target (whole target e)).mpr e, whole target e⟩

theorem of_level {other : Draft} (s : Settled draft container path next)
    (level : Level draft other) : Settled other container path next := by
  refine ⟨?_, fun target whole => ?_, ?_, ?_⟩
  · rw [read_of_frame level.nodes.frame.symm]
    exact s.stored
  · rw [← level.nodes.links]
    exact s.linked target whole
  · rw [← level.orphans]
    exact s.kept
  · rw [← level.edited]
    exact s.edited

theorem mem_links_again (s : Settled draft container path next) (h : Upheld draft.node?)
    (whole : ∀ target, next = some target → Whole target) {way : Direction} {id : NodeId}
    {link : Link} :
    link ∈ Nodes.links draft.node? way id ↔
      link ∈ Nodes.links (draft.apply (.relink container path next)).node? way id := by
  rw [apply_relink, s.linkedEntity?_eq h whole]
  cases next with
  | none =>
    show _ ↔ link ∈ Nodes.links (draft.set container path _).node? way id
    rw [links_set]
  | some target =>
    -- The link is taken away and made again, at both of its ends.
    have there := (s.linked target (whole target rfl)).mpr rfl
    have back := s.inbound h (whole target rfl) rfl
    rw [nodes_linkNext, mem_links_link]
    show _ ↔ link ∈ Nodes.links ((draft.set container path _).unlink container path
      target).node? way id ∨ _
    rw [mem_links_unlink, links_set]
    constructor
    · intro member
      by_cases outbound : container = id ∧ .outbound = way ∧ link = ⟨target, path⟩
      · exact Or.inr (Or.inl outbound)
      · by_cases inbound : target = id ∧ .inbound = way ∧ link = ⟨container, path⟩
        · exact Or.inr (Or.inr inbound)
        · exact Or.inl ⟨member, outbound, inbound⟩
    · rintro (old | ⟨rfl, rfl, rfl⟩ | ⟨rfl, rfl, rfl⟩)
      · exact old.1
      · exact there
      · exact back

theorem contains_orphans_again (s : Settled draft container path next) (h : Upheld draft.node?)
    (whole : ∀ target, next = some target → Whole target) {id : NodeId} :
    draft.orphans.contains id ↔
      (draft.apply (.relink container path next)).orphans.contains id := by
  rw [apply_relink, s.linkedEntity?_eq h whole, contains_orphans_linkNext]
  cases next with
  | none => exact (and_iff_right fun e => by cases e).symm
  | some target =>
    show _ ↔ _ ∧ ((draft.set container path _).unlink container path target).orphans.contains id
    rw [contains_orphans_unlink]
    constructor
    · intro old
      refine ⟨fun e => ?_, Or.inl old⟩
      cases e
      exact s.kept id rfl old
    · rintro ⟨ne, old | ⟨rfl, -⟩⟩
      · exact old
      · exact absurd rfl ne

/-- A settled place may be relinked as it is. -/
theorem again (s : Settled draft container path next) (h : Upheld draft.node?)
    (whole : ∀ target, next = some target → Whole target) :
    Level draft (draft.apply (.relink container path next)) := by
  refine ⟨⟨fun id => ⟨has_apply, fun has => ?_⟩, ?_, fun _ _ _ => s.mem_links_again h whole⟩, ?_,
    NameSet.ext fun id => s.contains_orphans_again h whole⟩
  · rcases has_of_apply has with before | rfl | ⟨source, place, e⟩
    · exact before
    · exact has_of_read s.stored
    · cases e
      exact h.has_target ((s.linked id (whole id rfl)).mpr rfl)
  · rw [frame_apply_relink, frame_write_of_read s.stored]
  · rw [apply_relink, edited_linkNext, edited_unlinkPrevious]
    refine NameSet.ext fun id => ?_
    rw [contains_edited_set]
    refine ⟨Or.inr, fun h => h.elim (fun e => ?_) fun old => old⟩
    exact e ▸ s.edited

end Settled
end Draft

/-! ## Lists with repetitions -/

namespace LinkChange

/-- The changes agree about every place that is relinked. -/
structure Concerted (changes : List LinkChange) : Prop where
  seemly : ∀ change ∈ changes, change.Seemly
  respects : ∀ container path next, .relink container path next ∈ changes →
    ∀ change ∈ changes, change.Respects container path next

/-- The second list has the changes of the first, and makes some of them again. -/
inductive Repeats : List LinkChange → List LinkChange → Prop
  | nil : Repeats [] []
  | both {changes more : List LinkChange} (h : Repeats changes more) (change : LinkChange) :
    Repeats (changes ++ [change]) (more ++ [change])
  | again {changes more : List LinkChange} (h : Repeats changes more) {container : NodeId}
    {path : Path} {next : Option NodeId} (found : .relink container path next ∈ changes) :
    Repeats changes (more ++ [.relink container path next])

variable {changes more : List LinkChange}

theorem Concerted.mono (h : Concerted more) (subset : changes ⊆ more) : Concerted changes :=
  ⟨fun change member => h.seemly change (subset member),
    fun container path next found change member =>
      h.respects container path next (subset found) change (subset member)⟩

theorem Repeats.append (h : Repeats changes more) (rest : List LinkChange) :
    Repeats (changes ++ rest) (more ++ rest) := by
  induction rest generalizing changes more with
  | nil =>
    rw [List.append_nil, List.append_nil]
    exact h
  | cons change rest ih =>
    rw [← List.singleton_append, ← List.append_assoc, ← List.append_assoc]
    exact ih (h.both change)

theorem Repeats.subset (h : Repeats changes more) : more ⊆ changes := by
  induction h with
  | nil => exact List.Subset.refl _
  | both _ change ih =>
    exact List.append_subset.mpr ⟨List.Subset.trans ih (List.subset_append_left _ _),
      List.subset_append_right _ _⟩
  | again _ found ih =>
    exact List.append_subset.mpr ⟨ih, List.cons_subset.mpr ⟨found, List.nil_subset _⟩⟩

end LinkChange

namespace Draft

open LinkChange

variable {draft : Draft} {changes more : List LinkChange} {container : NodeId} {path : Path}
  {next : Option NodeId}

/-- Of concerted changes, each leaves its place settled to the end. -/
theorem settled_applyAll (h : Upheld draft.node?) (concerted : Concerted changes)
    (found : .relink container path next ∈ changes) :
    Settled (draft.applyAll changes) container path next := by
  have whole := (concerted.seemly _ found).1
  have respects := concerted.respects container path next found
  have seemly := concerted.seemly
  clear concerted
  induction changes generalizing draft with
  | nil => cases found
  | cons change changes ih =>
    have later : ∀ change ∈ changes, change.Seemly := fun other member =>
      seemly other (List.mem_cons_of_mem _ member)
    have respectsLater : ∀ change ∈ changes, change.Respects container path next :=
      fun other member => respects other (List.mem_cons_of_mem _ member)
    rcases List.mem_cons.mp found with rfl | found
    · exact (settled_apply h).applyAll (h.apply (seemly _ List.mem_cons_self)) whole later
        respectsLater
    · exact ih (h.apply (seemly change List.mem_cons_self)) found respectsLater later

/-- To make concerted changes again changes nothing but the order of links. -/
theorem level_applyAll (repeats : Repeats changes more) (h : Upheld draft.node?)
    (concerted : Concerted changes) : Level (draft.applyAll changes) (draft.applyAll more) := by
  have upheld {some : List LinkChange} (subset : some ⊆ changes) :
      Upheld (draft.applyAll some).node? :=
    h.applyAll (concerted.mono subset).seemly
  induction repeats with
  | nil => exact .refl draft
  | @both changes more repeats change ih =>
    have before := List.subset_append_left changes [change]
    have level := ih (concerted.mono before) fun subset =>
      upheld (List.Subset.trans subset before)
    rw [applyAll_append, applyAll_append]
    exact level.apply (upheld before) (upheld (List.Subset.trans repeats.subset before)) change
  | @again changes more repeats container path next found ih =>
    have level := ih concerted upheld
    have settled := (settled_applyAll h concerted found).of_level level
    rw [applyAll_append]
    exact level.trans (settled.again (upheld repeats.subset) (concerted.seemly _ found).1)

end Draft
end ResponseGraph
