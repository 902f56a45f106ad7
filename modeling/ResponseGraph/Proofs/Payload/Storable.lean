import ResponseGraph.Proofs.Draft.Repeated
import ResponseGraph.Proofs.Payload.Coherent

/-!
What a payload says of its places.

Of a coherent payload the positions that can be stored say one thing about each place, and they
are nested: around each of them the payload has an object or a list that leads there.  That is
known before anything is merged.  A merge may stop at a position that cannot be stored, and nothing
has to be said of what it did until then but that it came to storable positions.

The changes that come of storable positions are concerted.  A place that is relinked is one at
which an entity or null is brought, so no other position is below it, and a link that is detached
leads from where no position is.
-/

namespace ResponseGraph

open Nodes NodeId

namespace Visit

variable {visits all : List Visit} {site : Site} {content other : Content}

/-- The positions that can be stored. -/
def storable (visits : List Visit) : List Visit := visits.filter fun visit =>
  match visit with
  | .brought _ .misfit => false
  | _ => true

theorem mem_storable :
    .brought site content ∈ storable visits ↔
      .brought site content ∈ visits ∧ content ≠ .misfit := by
  unfold storable
  rw [List.mem_filter]
  refine and_congr_right fun _ => ?_
  cases content <;> simp

theorem Coherent.agrees (h : Coherent all) (stored : .brought site other ∈ storable all)
    (member : .brought site content ∈ all) : other.agrees content := by
  obtain ⟨here, fine⟩ := mem_storable.mp stored
  exact (h site other content here member).resolve_right fun misfits => fine misfits.1

theorem Coherent.consistent (h : Coherent all) : Consistent (storable all) :=
  fun _ _ _ one two => h.agrees one (mem_storable.mp two).1

/-! ## Nesting -/

/-- A position has what leads to it around it, and the root of an entity has members. -/
def Embedded (all : List Visit) : Visit → Prop
  | .brought site content =>
    Enclosed all site ∧
      (site.path = [] → Whole site.container → content ≠ .misfit → content = .object)
  | .entered _ _ _ _ => True

/-- A site at which anything may be brought. -/
structure Opening (all : List Visit) (site : Site) : Prop where
  enclosed : Enclosed all site
  inner : site.path = [] → ¬ Whole site.container

theorem Opening.embedded (h : Opening all site) (content : Content) :
    Embedded all (.brought site content) :=
  ⟨h.enclosed, fun root whole _ => absurd whole (h.inner root)⟩

theorem Opening.step {step : Step} (enclosed : Enclosed all site)
    (around : .brought site content ∈ all) (leads : content.Leads step) :
    Opening all (site.step step) :=
  ⟨enclosed.step around leads, fun root =>
    absurd root (List.append_ne_nil_of_right_ne_nil _ (List.cons_ne_nil _ _))⟩

theorem embedded_root (all : List Visit) (id : NodeId) :
    Embedded all (.brought (.root id) .object) := ⟨enclosed_root all id, fun _ _ _ => rfl⟩

/-- What a descent has to show at an object. -/
def Embeds (identify : Json → Option NodeId) (fields : Fields) (all : List Visit) : Prop :=
  ∀ (site : Site) (members : List (String × Json)),
    Fields.visits true identify site members fields ⊆ all → .brought site .object ∈ all →
    Enclosed all site → ∀ visit ∈ Fields.visits true identify site members fields,
      Embedded all visit

variable {identify : Json → Option NodeId} {set : Nat} {fields : Fields}

mutual
theorem embedded_ofValue (embeds : Embeds identify fields all) :
    (payload : Json) → (site : Site) → Opening all site →
    ofValue true identify set fields (Fields.below true identify fields) site payload ⊆ all →
    ∀ visit ∈ ofValue true identify set fields (Fields.below true identify fields) site payload,
      Embedded all visit
  | .null, site, opening, _ | .bool _, site, opening, _ | .number _, site, opening, _
  | .string _, site, opening, _ => by
    intro visit member
    cases List.mem_singleton.mp member
    exact opening.embedded _
  | .object members, site, opening, within => by
    intro visit member
    cases named : identify (.object members) with
    | none =>
      unfold ofValue at within member
      rw [named] at within member
      obtain ⟨here, below⟩ := List.cons_subset.mp within
      rcases List.mem_cons.mp member with rfl | member
      · exact opening.embedded _
      · exact embeds site members below here opening.enclosed visit member
    | some id =>
      unfold ofValue ofEntity at within member
      rw [named] at within member
      simp only [if_pos, List.cons_subset] at within
      obtain ⟨-, root, -, below⟩ := within
      simp only [if_pos, List.mem_cons] at member
      rcases member with rfl | rfl | rfl | member
      · exact opening.embedded _
      · exact embedded_root all id
      · trivial
      · exact embeds (.root id) members below root (enclosed_root all id) visit member
  | .array payloads, site, opening, within => by
    intro visit member
    unfold ofValue at within member
    obtain ⟨here, below⟩ := List.cons_subset.mp within
    rcases List.mem_cons.mp member with rfl | member
    · exact opening.embedded _
    · exact embedded_ofItems embeds payloads site 0 payloads.length (Nat.zero_add _) here
        opening.enclosed below visit member

theorem embedded_ofItems (embeds : Embeds identify fields all) :
    (payloads : List Json) → (site : Site) → (index length : Nat) →
    index + payloads.length = length → .brought site (.list length) ∈ all → Enclosed all site →
    ofItems true identify set fields (Fields.below true identify fields) site index payloads ⊆ all →
    ∀ visit ∈ ofItems true identify set fields (Fields.below true identify fields) site index
      payloads, Embedded all visit
  | [], _, _, _, _, _, _, _ => fun _ member => absurd member List.not_mem_nil
  | payload :: rest, site, index, length, total, around, enclosed, within => by
    intro visit member
    rw [List.length_cons] at total
    unfold ofItems at within member
    obtain ⟨here, later⟩ := List.append_subset.mp within
    have inside : (Content.list length).Leads (.index index) := by
      show index < length
      omega
    rcases List.mem_append.mp member with member | member
    · exact embedded_ofValue embeds payload _ (.step enclosed around inside) here visit member
    · exact embedded_ofItems embeds rest site (index + 1) length (by omega) around enclosed later
        visit member
end

/-- The site of a field of an object. -/
theorem Opening.field {head : FieldHead} {name : String} {here : Site}
    (enclosed : Enclosed all site) (around : .brought site .object ∈ all)
    (located : head.site site name = .ok here) : Opening all here := by
  unfold FieldHead.site at located
  dsimp only at located
  split at located
  · cases located
    exact .step enclosed around trivial
  · obtain ⟨id, address, rfl⟩ := exists_of_map_eq_ok located
    exact ⟨enclosed_root all id, fun _ => NodeId.not_whole_of_parameterized address⟩

end Visit

open Visit

mutual
theorem Field.embedded {identify : Json → Option NodeId} {all : List Visit} :
    (field : Field) → (site : Site) → (payload : Json) → Opening all site →
    field.visits true identify site payload ⊆ all →
    ∀ visit ∈ field.visits true identify site payload, Embedded all visit
  | .leaf _ _, site, payload, opening, _ => fun visit member => by
    cases List.mem_singleton.mp member
    exact opening.embedded _
  | .composite _ _ _ _ fields, site, payload, opening, within =>
    embedded_ofValue (fun site members => Fields.embedded fields site members) payload site opening
      within

theorem Fields.embedded {identify : Json → Option NodeId} {all : List Visit} :
    (fields : Fields) → (site : Site) → (members : List (String × Json)) →
    Fields.visits true identify site members fields ⊆ all → .brought site .object ∈ all →
    Enclosed all site → ∀ visit ∈ Fields.visits true identify site members fields,
      Embedded all visit
  | [], _, _, _, _, _ => fun _ member => absurd member List.not_mem_nil
  | (name, field) :: rest, site, members, within, around, enclosed => by
    intro visit member
    unfold Fields.visits at within member
    split at within
    · next excluded =>
      rw [if_pos excluded] at member
      exact Fields.embedded rest site members within around enclosed visit member
    · next included =>
      rw [if_neg included] at member
      obtain ⟨here, later⟩ := List.append_subset.mp within
      rcases List.mem_append.mp member with member | member
      · cases located : field.head.site site name with
        | ok below =>
          rw [located] at here member
          exact Field.embedded field below (payloadOf members name)
            (.field enclosed around located) here visit member
        | error _ =>
          rw [located] at member
          cases List.mem_singleton.mp member
          exact ⟨enclosed, fun _ _ fine => absurd rfl fine⟩
      · exact Fields.embedded rest site members later around enclosed visit member
end

namespace Visit

variable {identify : Json → Option NodeId} {root : NodeId} {fields : Fields} {all : List Visit}
  {members : List (String × Json)}

/-- The storable positions of a payload are nested. -/
theorem nested_storable (identify : Json → Option NodeId) (root : NodeId) (fields : Fields)
    (members : List (String × Json)) :
    Nested (storable (Visit.ofPayload identify root fields (.object members))) := by
  have embedded : ∀ visit ∈ Visit.ofPayload identify root fields (.object members),
      Embedded (Visit.ofPayload identify root fields (.object members)) visit := by
    intro visit member
    rcases List.mem_cons.mp member with rfl | member
    · exact embedded_root _ root
    · exact Fields.embedded fields (.root root) members (List.subset_cons_self _ _)
        List.mem_cons_self (enclosed_root _ root) visit member
  refine ⟨fun site content member => ?_, fun id content member whole => ?_⟩
  · intro above step rest e
    obtain ⟨found, around, leads⟩ := (embedded _ (mem_storable.mp member).1).1 above step rest e
    exact ⟨found, mem_storable.mpr ⟨around, fun misfit => by subst misfit; exact leads⟩, leads⟩
  · obtain ⟨here, fine⟩ := mem_storable.mp member
    exact (embedded _ here).2 rfl whole fine

/-! ## Changes -/

variable {container : NodeId} {path place : Path}

/-- Where sites of one node are apart, they part by steps of one kind. -/
theorem Enclosed.parts (consistent : Consistent all) (above : Path)
    (one : Enclosed all ⟨container, above ++ path⟩)
    (two : Enclosed all ⟨container, above ++ place⟩) (apart : Path.Apart path place) :
    Path.Parts path place := by
  induction path generalizing above place with
  | nil => exact absurd apart.symm (Path.not_apart_nil _)
  | cons step path ih =>
    cases place with
    | nil => exact absurd apart (Path.not_apart_nil _)
    | cons next place =>
      by_cases same : step = next
      · subst same
        refine .step step (ih (above ++ [step]) ?_ ?_ ?_)
        · rwa [List.append_assoc, List.singleton_append]
        · rwa [List.append_assoc, List.singleton_append]
        · exact (Path.apart_cons.mp apart).resolve_left fun ne => ne rfl
      · obtain ⟨content, around, leads⟩ := one above step path rfl
        obtain ⟨other, around', leads'⟩ := two above next place rfl
        have leads' := leads'.of_agrees (consistent _ _ _ around around')
        rcases Content.leads_cases leads with ⟨rfl, name, rfl⟩ | ⟨length, i, rfl, rfl, -⟩
        · cases next with
          | key other => exact .keys (fun e => same (congrArg Step.key e)) _ _
          | index j => exact leads'.elim
        · cases next with
          | key other => exact leads'.elim
          | index j => exact .indices (fun e => same (congrArg Step.index e)) _ _

theorem next?_eq_of_agrees {content other : Content} {next next' : Option NodeId}
    (same : content.agrees other) (decides : content.next? = some next)
    (decides' : other.next? = some next') : next = next' := by
  cases content <;> cases decides <;> cases other <;> cases decides' <;>
    first | rfl | cases same | skip
  rw [Content.agrees, beq_iff_eq] at same
  rw [same]

/-- Changes that come of storable positions are concerted. -/
theorem concerted (named : Named all) (consistent : Consistent all) (nested : Nested all)
    {changes : List LinkChange} (accounted : Accounted changes all) :
    LinkChange.Concerted changes := by
  refine ⟨fun change member => ?_, fun container path next found change member => ?_⟩
  · cases change with
    | detach => trivial
    | relink container path next =>
      obtain ⟨content, brought, decides⟩ := accounted.relinked container path next member
      refine ⟨fun target e => ?_, fun whole => ?_⟩
      · subst e
        cases content <;> cases decides
        exact named _ brought target rfl
      · refine nested.starts_with_key (nested.enclosed _ content brought) whole fun root => ?_
        change path = [] at root
        subst root
        rw [nested.root container content brought whole] at decides
        cases decides
  · obtain ⟨content, brought, decides⟩ := accounted.relinked container path next found
    have enclosed := nested.enclosed _ content brought
    cases change with
    | detach id place target =>
      rintro ⟨rfl, rfl⟩
      exact (accounted.detached id place target member).not_enclosed consistent enclosed
    | relink id place other =>
      rintro rfl
      obtain ⟨content', brought', decides'⟩ := accounted.relinked id place other member
      have enclosed' := nested.enclosed _ content' brought'
      -- Nothing leads on from a place that is relinked, so neither path goes through the other.
      have ends {place path step rest} {content : Content} {next : Option NodeId}
          (brought : .brought ⟨id, path⟩ content ∈ all) (decides : content.next? = some next)
          (enclosed : Enclosed all ⟨id, place⟩) : place ≠ path ++ step :: rest := by
        intro e
        obtain ⟨around, opened, leads⟩ := enclosed path step rest e
        exact Content.not_leads_of_next? decides
          (leads.of_agrees (consistent _ _ _ brought opened))
      rcases Path.cases place path with ⟨rest, e⟩ | ⟨step, rest, e⟩ | apart
      · cases rest with
        | nil =>
          rw [List.append_nil] at e
          subst e
          have same := consistent _ _ _ brought' brought
          exact Or.inl ⟨rfl, next?_eq_of_agrees same decides' decides⟩
        | cons step rest => exact absurd e (ends brought' decides' enclosed)
      · exact absurd e (ends brought decides enclosed')
      · exact Or.inr (Enclosed.parts consistent [] enclosed' enclosed apart)

end Visit
end ResponseGraph
