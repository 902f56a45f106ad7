import ResponseGraph.Proofs.Payload.Outcome

/-!
Walks that bring the same in another order.

Two drafts that follow from the same nodes and from the same visits are alike.  The same is read in
both: what was brought is stored in both, up to the order of members, and what was not touched is
as it was.  So they have the same references and the same links, and the collection leaves the
same nodes, since a node that one of them keeps is linked from kept nodes in the other as well.
-/

namespace ResponseGraph

open Nodes NodeId Visit

/-! ## Values that hold the same content -/

namespace Content

variable {content : Content} {stored more : Option Value}

/-- Only members can be brought where nothing is stored. -/
theorem Holds.exists_stored (h : content.Holds stored) (other : content ≠ .object) :
    ∃ value, stored = some value := by
  cases content with
  | leaf payload =>
    obtain ⟨value, held, -⟩ := h.1
    exact ⟨value, held⟩
  | null => exact ⟨_, h.2 none rfl⟩
  | list length =>
    obtain ⟨items, held, -⟩ := h.1
    exact ⟨.list items, held⟩
  | object => exact absurd rfl other
  | entity id => exact ⟨_, h.2 (some id) rfl⟩
  | misfit => exact h.1.elim

/-- Where a list of some length ends, nothing is read. -/
theorem Holds.get?_of_not_leads {length : Nat} (h : (Content.list length).Holds stored)
    {step : Step} {rest : Path} (ends : ¬ (Content.list length).Leads step) :
    (stored.bind fun value => value.get? (step :: rest)) = none := by
  obtain ⟨items, held, long⟩ := h.1
  rw [held, Option.bind_some, Value.get?_cons]
  cases step with
  | key name => rfl
  | index i =>
    have beyond : ¬ i < length := ends
    rw [Value.step?_index, show (Value.list items).items = items from rfl,
      List.getElem?_eq_none (by omega), Option.bind_none]

/-- In two values that hold the same content the same is read, unless a payload goes on there. -/
theorem Holds.sameTop (h : content.Holds stored) (h' : content.Holds more)
    (other : content ≠ .object)
    (distinct : ∀ value, stored = some value → value.distinct)
    (distinct' : ∀ value, more = some value → value.distinct)
    (leaf : ∀ payload, content = .leaf payload → payload.distinct) {rest : Path}
    (ends : ∀ step below, rest = step :: below → ¬ content.Leads step) :
    Value.SameTop (stored.bind fun value => value.get? rest)
      (more.bind fun value => value.get? rest) := by
  cases content with
  | leaf payload =>
    obtain ⟨value, rfl, same⟩ := h.1
    obtain ⟨value', rfl, same'⟩ := h'.1
    have named := leaf payload rfl
    have like := (Value.sameAsJson_iff (distinct _ rfl) named).mp same
    have like' := (Value.sameAsJson_iff (distinct' _ rfl) named).mp same'
    exact (like.trans like'.symm) rest
  | null =>
    rw [h.2 none rfl, h'.2 none rfl]
    exact .refl _
  | list length =>
    cases rest with
    | nil =>
      obtain ⟨items, rfl, long⟩ := h.1
      obtain ⟨items', rfl, long'⟩ := h'.1
      exact .some (beq_iff_eq.mpr (long.trans long'.symm))
    | cons step below =>
      have closed := ends step below rfl
      rw [h.get?_of_not_leads closed, h'.get?_of_not_leads closed]
      exact .refl _
  | object => exact absurd rfl other
  | entity id =>
    rw [h.2 (some id) rfl, h'.2 (some id) rfl]
    exact .refl _
  | misfit => exact h.1.elim

/-- Members are held by an object, if something is stored in it. -/
theorem Holds.eq_object (h : Content.object.Holds stored) {name : String} {rest : Path}
    {below : Value} (inside : (stored.bind fun value => value.get? (.key name :: rest)) =
      some below) : ∃ members, stored = some (.object members) := by
  obtain ⟨value, rfl, found⟩ := Option.bind_eq_some_iff.mp inside
  cases value with
  | object members => exact ⟨members, rfl⟩
  | _ => cases found

end Content

/-- What stays is the same in both, if lists have the items for which they have room. -/
theorem Nodes.Stays.read_eq {base nodes more : Nodes} {seen : List Visit} {id : NodeId}
    {path : Path} (h : base.Stays nodes seen id path) (h' : base.Stays more seen id path)
    (full : Itemed seen id path → (nodes.read id path).isSome)
    (full' : Itemed seen id path → (more.read id path).isSome) :
    more.read id path = nodes.read id path := by
  rcases h with same | ⟨missing, null, item⟩ <;> rcases h' with same' | ⟨missing', null', item'⟩
  · rw [same, same']
  · have there := full item'
    rw [same, missing'] at there
    cases there
  · have there := full' item
    rw [same', missing] at there
    cases there
  · rw [null, null']

namespace Draft.Outcome

variable {root : NodeId} {base : Nodes} {all : List Visit} {draft more : Draft} {id : NodeId}
  {path : Path}

/-! ## Reads -/

theorem isSome_of_itemed (h : draft.Outcome root base all) (item : Itemed all id path) :
    (Nodes.read draft.node? id path).isSome := by
  obtain ⟨above, i, length, rfl, inside, member⟩ := item
  obtain ⟨items, held, long⟩ := (h.holds _ _ member).1
  rw [read_append, show Nodes.read draft.node? id above = _ from held, Option.bind_some,
    Value.get?_cons, Value.step?_index, show (Value.list items).items = items from rfl,
    List.getElem?_eq_getElem (by omega)]
  rfl

/-- What was brought above a path decides what is read there. -/
theorem sameTop_below (h : draft.Outcome root base all) (h' : more.Outcome root base all)
    (unrepeated : Unrepeated all) {place rest : Path} {content : Content}
    (member : .brought ⟨id, place⟩ content ∈ all) (other : content ≠ .object)
    (ends : ∀ step below, rest = step :: below → ¬ content.Leads step) :
    Value.SameTop (Nodes.read draft.node? id (place ++ rest))
      (Nodes.read more.node? id (place ++ rest)) := by
  rw [read_append, read_append]
  refine (h.holds _ _ member).sameTop (h'.holds _ _ member) other (fun _ => h.once.read)
    (fun _ => h'.once.read) (fun payload e => ?_) ends
  subst e
  exact unrepeated _ payload member

/-- Above what was brought there is a list or an object in both. -/
theorem sameTop_above (h : draft.Outcome root base all) (h' : more.Outcome root base all)
    (unrepeated : Unrepeated all) {step : Step} {rest : Path} {content : Content}
    (member : .brought ⟨id, path ++ step :: rest⟩ content ∈ all) (other : content ≠ .object) :
    Value.SameTop (Nodes.read draft.node? id path) (Nodes.read more.node? id path) := by
  obtain ⟨around, above, leads⟩ := h.nested.enclosed _ content member path step rest rfl
  rcases Content.leads_cases leads with ⟨rfl, name, rfl⟩ | ⟨length, i, rfl, -⟩
  · have object {found : Draft} (outcome : found.Outcome root base all) :
        ∃ members, Nodes.read found.node? id path = some (.object members) := by
      obtain ⟨below, held⟩ := (outcome.holds _ _ member).exists_stored other
      rw [read_append] at held
      exact (outcome.holds _ _ above).eq_object held
    obtain ⟨members, held⟩ := object h
    obtain ⟨members', held'⟩ := object h'
    rw [held, held']
    exact .some rfl
  · have list : Content.list length ≠ .object := by rintro ⟨⟩
    rw [← List.append_nil path]
    exact h.sameTop_below h' unrepeated above list fun _ _ e => by cases e

/-- The same is read in both. -/
theorem sameTop (h : draft.Outcome root base all) (h' : more.Outcome root base all)
    (unrepeated : Unrepeated all) (id : NodeId) (path : Path) :
    Value.SameTop (Nodes.read draft.node? id path) (Nodes.read more.node? id path) := by
  by_cases untouched : Untouched all id path
  · rw [(h.intact id path untouched).read_eq (h'.intact id path untouched) h.isSome_of_itemed
      h'.isSome_of_itemed]
    exact .refl _
  · unfold Untouched at untouched
    push Not at untouched
    obtain ⟨place, content, member, other, meets, closed⟩ := untouched
    rcases Path.cases place path with ⟨rest, rfl⟩ | ⟨step, rest, rfl⟩ | apart
    · refine h.sameTop_below h' unrepeated member other fun step below e leads => ?_
      subst e
      rcases Content.leads_cases leads with ⟨object, -⟩ | ⟨length, i, list, rfl, inside⟩
      · exact other object
      · exact closed length i below list inside rfl
    · exact h.sameTop_above h' unrepeated member other
    · exact absurd apart meets

theorem sameData (h : draft.Outcome root base all) (h' : more.Outcome root base all)
    (unrepeated : Unrepeated all) (id : NodeId) : SameData draft.node? more.node? id :=
  (sameData_iff h.once h'.once).mpr (h.sameTop h' unrepeated id)

/-! ## Links -/

theorem mem_outbound (h : draft.Outcome root base all) (h' : more.Outcome root base all)
    (unrepeated : Unrepeated all) {target : NodeId}
    (linked : ⟨target, path⟩ ∈ Nodes.links draft.node? .outbound id) :
    ⟨target, path⟩ ∈ Nodes.links more.node? .outbound id := by
  by_cases whole : Whole target
  · have stored := (h.linked.linked id path target linked whole).resolve_right not_false
    have top := h.sameTop h' unrepeated id path
    rw [stored] at top
    exact (h'.linked.stored id path target top.eq_reference).1
  · exact (h'.values id path target whole).mpr ((h.values id path target whole).mp linked)

/-! ## Nodes that stay -/

/-- What one of them keeps is linked from kept nodes in the other. -/
theorem moored (h : draft.Outcome root base all) (h' : more.Outcome root base all)
    (unrepeated : Unrepeated all) :
    Nodes.Moored root (Nodes.Has draft.collectOrphans.node?) more.node? := by
  intro id has
  rcases h.attended id has with same | waits | linked
  · exact Or.inl same
  · exact waits.elim
  · obtain ⟨⟨container, path⟩, inbound⟩ := List.exists_mem_of_ne_nil _ linked
    have outbound := (h.sound.collectOrphans.mirrored container id path).mpr inbound
    have kept := has_of_mem outbound
    rw [Draft.outbound_collectOrphans draft kept] at outbound
    exact Or.inr ⟨container, path, kept, h.mem_outbound h' unrepeated outbound⟩

theorem has_root (h : draft.Outcome root base all) (h' : more.Outcome root base all)
    (unrepeated : Unrepeated all) (has : Nodes.Has draft.node? root) :
    Nodes.Has more.node? root := by
  refine h'.present.mpr ((h.present.mp has).imp_right (Or.imp (fun data => ?_) ?_))
  · have top := h.sameTop h' unrepeated root []
    generalize Nodes.read draft.node? root [] = found, Nodes.read more.node? root [] = found'
      at data top ⊢
    cases top with
    | none => cases data
    | some => rfl
  · rintro ⟨⟨target, path⟩, linked⟩
    exact ⟨⟨target, path⟩, h.mem_outbound h' unrepeated linked⟩

/-- What one of them keeps the other keeps. -/
theorem has_collectOrphans (h : draft.Outcome root base all) (h' : more.Outcome root base all)
    (unrepeated : Unrepeated all) (has : Nodes.Has draft.collectOrphans.node? id) :
    Nodes.Has more.collectOrphans.node? id := by
  have moored := h.moored h' unrepeated
  refine ((h'.aloof.collectOrphans h'.sound moored).2 id has).1.mpr ?_
  rcases moored id has with rfl | ⟨container, path, -, linked⟩
  · exact h.has_root h' unrepeated (Draft.has_of_collectOrphans has)
  · exact has_of_mem ((h'.sound.mirrored container id path).mp linked)

end Draft.Outcome

/-! ## Nodes that are alike -/

/-- The same node, up to the order of links and of members. -/
structure Node.Alike (node more : Node) : Prop where
  kind : node.kind = more.kind
  data : Option.Rel (fun a b => a.same b) node.data more.data
  links : ∀ direction, (node.links direction).Perm (more.links direction)

/-- The same nodes, up to the order of links and of members. -/
def Nodes.Alike (nodes more : Nodes) : Prop := ∀ id, Option.Rel Node.Alike (nodes id) (more id)

namespace Draft.Outcome

variable {root : NodeId} {base : Nodes} {all : List Visit} {draft more : Draft} {id : NodeId}
  {path : Path}

theorem mem_collectOrphans (h : draft.Outcome root base all) (h' : more.Outcome root base all)
    (unrepeated : Unrepeated all) {direction : Direction} {link : Link}
    (linked : link ∈ Nodes.links draft.collectOrphans.node? direction id) :
    link ∈ Nodes.links more.collectOrphans.node? direction id := by
  obtain ⟨other, path⟩ := link
  have outbound {id other : NodeId}
      (linked : ⟨other, path⟩ ∈ Nodes.links draft.collectOrphans.node? .outbound id) :
      ⟨other, path⟩ ∈ Nodes.links more.collectOrphans.node? .outbound id := by
    have has := has_of_mem linked
    rw [Draft.outbound_collectOrphans draft has] at linked
    rw [Draft.outbound_collectOrphans more (h.has_collectOrphans h' unrepeated has)]
    exact h.mem_outbound h' unrepeated linked
  cases direction with
  | outbound => exact outbound linked
  | inbound =>
    rw [← h.sound.collectOrphans.mirrored] at linked
    exact (h'.sound.collectOrphans.mirrored _ _ _).mp (outbound linked)

theorem alike_of_some (h : draft.Outcome root base all) (h' : more.Outcome root base all)
    (unrepeated : Unrepeated all) {node node' : Node}
    (found : draft.collectOrphans.node? id = some node)
    (found' : more.collectOrphans.node? id = some node') : node.Alike node' := by
  have sound := h.sound.collectOrphans
  have sound' := h'.sound.collectOrphans
  refine ⟨?_, ?_, fun direction => ?_⟩
  · have same := (sound.kind id node found).trans (sound'.kind id node' found').symm
    cases kind : node.kind <;> cases kind' : node'.kind <;> simp [kind, kind'] at same ⊢
  · have stored {found : Draft} {held : Node} (there : found.collectOrphans.node? id = some held) :
        Nodes.data? found.node? id = held.data := by
      rw [← read_nil, ← Draft.read_collectOrphans found (has_of_some there), read_nil,
        Nodes.data?, there]
      rfl
    have same := h.sameData h' unrepeated id
    unfold SameData at same
    rwa [stored found, stored found'] at same
  · have links := links_of_some found direction
    have links' := links_of_some found' direction
    refine (List.perm_ext_iff_of_nodup ?_ ?_).mpr fun link => ?_
    · exact links ▸ sound.distinct direction id
    · exact links' ▸ sound'.distinct direction id
    · rw [← links, ← links']
      exact ⟨h.mem_collectOrphans h' unrepeated, h'.mem_collectOrphans h unrepeated⟩

/-- Drafts that follow from the same visits are alike when the orphans are collected. -/
theorem alike (h : draft.Outcome root base all) (h' : more.Outcome root base all)
    (unrepeated : Unrepeated all) :
    Nodes.Alike draft.collectOrphans.node? more.collectOrphans.node? := by
  intro id
  have has : Nodes.Has draft.collectOrphans.node? id ↔ Nodes.Has more.collectOrphans.node? id :=
    ⟨h.has_collectOrphans h' unrepeated, h'.has_collectOrphans h unrepeated⟩
  unfold Nodes.Has at has
  cases found : draft.collectOrphans.node? id <;> cases found' : more.collectOrphans.node? id
  · exact .none
  · simp [found, found'] at has
  · simp [found, found'] at has
  · exact .some (h.alike_of_some h' unrepeated found found')

end Draft.Outcome
end ResponseGraph
