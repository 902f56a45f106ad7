import ResponseGraph.Proofs.Draft.Edits
import ResponseGraph.Proofs.Payload.Linked
import ResponseGraph.Proofs.Value.Observed

/-!
Names in stored data.

If no object of a payload repeats a name, then no object that the payload brings does.  So a
merge keeps it up that no object in the data of a node has two members of one name, and two
nodes can be compared by what is read in them.
-/

namespace ResponseGraph

open Nodes Visit

/-! ## What a payload brings -/

namespace Visit

/-- No object in a value without sub-selection repeats a name. -/
def Unrepeated (visits : List Visit) : Prop :=
  ∀ site payload, .brought site (.leaf payload) ∈ visits → payload.distinct

namespace Unrepeated

variable {visits more : List Visit}

theorem nil : Unrepeated [] := fun _ _ member => absurd member List.not_mem_nil

theorem mono (h : Unrepeated more) (subset : visits ⊆ more) : Unrepeated visits :=
  fun site payload member => h site payload (subset member)

theorem append (first : Unrepeated visits) (second : Unrepeated more) :
    Unrepeated (visits ++ more) := fun site payload member =>
  (List.mem_append.mp member).elim (first site payload) (second site payload)

theorem cons {visit : Visit} (here : ∀ site payload, visit = .brought site (.leaf payload) →
    payload.distinct) (rest : Unrepeated visits) : Unrepeated (visit :: visits) := by
  intro site payload member
  rcases List.mem_cons.mp member with e | member
  · exact here site payload e.symm
  · exact rest site payload member

end Unrepeated

variable {deep : Bool} {identify : Json → Option NodeId} {set : Nat} {fields : Fields}
  {below : Below}

/-- Members that repeat no name are brought below an object. -/
def UnrepeatedBelow (below : Below) : Prop :=
  ∀ site members, Json.distinctMembers members → Unrepeated (below site members)

mutual
theorem unrepeated_ofValue (inner : UnrepeatedBelow below) : (payload : Json) → (site : Site) →
    payload.distinct → Unrepeated (ofValue deep identify set fields below site payload)
  | .null, _, _ | .bool _, _, _ | .number _, _, _ | .string _, _, _ =>
    Unrepeated.nil.cons fun _ _ e => by cases e
  | .object members, site, distinct => by
    have here := inner site members (Json.distinct_object distinct).2
    have inside := fun id => inner (.root id) members (Json.distinct_object distinct).2
    unfold ofValue ofEntity
    split
    · exact here.cons fun _ _ e => by cases e
    · next id _ =>
      have rest : Unrepeated (if deep then below (.root id) members else []) := by
        split
        · exact inside id
        · exact .nil
      exact ((rest.cons fun _ _ e => by cases e).cons fun _ _ e => by cases e).cons
        fun _ _ e => by cases e
  | .array payloads, site, distinct =>
    (unrepeated_ofItems inner payloads site 0 distinct).cons fun _ _ e => by cases e

theorem unrepeated_ofItems (inner : UnrepeatedBelow below) : (payloads : List Json) →
    (site : Site) → (index : Nat) → Json.distinctItems payloads →
    Unrepeated (ofItems deep identify set fields below site index payloads)
  | [], _, _, _ => .nil
  | payload :: rest, site, index, distinct => by
    obtain ⟨here, later⟩ := (Bool.and_eq_true _ _).mp (show (_ && _) = true from distinct)
    exact (unrepeated_ofValue inner payload _ here).append
      (unrepeated_ofItems inner rest site (index + 1) later)
end

end Visit

theorem distinct_payloadOf {members : List (String × Json)} (h : Json.distinctMembers members)
    (name : String) : (payloadOf members name).distinct := by
  unfold payloadOf
  cases found : Entries.get? name members with
  | none => rfl
  | some payload => exact Json.distinct_of_get? h found

mutual
theorem Field.unrepeated {deep : Bool} {identify : Json → Option NodeId} : (field : Field) →
    (site : Site) → (payload : Json) → payload.distinct →
    Unrepeated (Field.visits deep identify site payload field)
  | .leaf _ _, _, _, distinct => Unrepeated.nil.cons fun _ _ e => by
    cases e
    exact distinct
  | .composite _ _ _ _ fields, site, payload, distinct =>
    unrepeated_ofValue (fun below members => Fields.unrepeated fields below members) payload site
      distinct

theorem Fields.unrepeated {deep : Bool} {identify : Json → Option NodeId} : (fields : Fields) →
    (site : Site) → (members : List (String × Json)) → Json.distinctMembers members →
    Unrepeated (Fields.visits deep identify site members fields)
  | [], _, _, _ => .nil
  | (name, field) :: rest, site, members, distinct => by
    unfold Fields.visits
    split
    · exact Fields.unrepeated rest site members distinct
    · refine Unrepeated.append ?_ (Fields.unrepeated rest site members distinct)
      split
      · exact Field.unrepeated field _ _ (distinct_payloadOf distinct name)
      · exact Unrepeated.nil.cons fun _ _ e => by cases e
end

theorem Visit.unrepeated_ofPayload {identify : Json → Option NodeId} {root : NodeId}
    {fields : Fields} {payload : Json} (distinct : payload.distinct) :
    Unrepeated (ofPayload identify root fields payload) := by
  cases payload with
  | object members =>
    exact (Fields.unrepeated fields (.root root) members (Json.distinct_object distinct).2).cons
      fun _ _ e => by cases e
  | _ => exact .nil

/-! ## What is stored -/

namespace Nodes

/-- No object in the data of a node repeats a name. -/
def NamedOnce (nodes : Nodes) : Prop :=
  ∀ id value, nodes.read id [] = some value → value.distinct

variable {nodes : Nodes} {id : NodeId} {path : Path} {value : Value}

theorem NamedOnce.read (h : NamedOnce nodes) (stored : nodes.read id path = some value) :
    value.distinct := by
  rw [← List.nil_append path, read_append] at stored
  obtain ⟨top, held, below⟩ := Option.bind_eq_some_iff.mp stored
  exact Value.distinct_get? (h id top held) below

theorem NamedOnce.write (h : NamedOnce nodes) (distinct : value.distinct) :
    NamedOnce (nodes.write id path value) := by
  intro other found stored
  by_cases e : id = other
  · subst e
    rw [read_write] at stored
    cases stored
    refine Value.distinct_set ?_ path distinct
    rcases of_get?_data (show (nodes.data id).get? [] = some _ from rfl) with held | ⟨null, -⟩
    · exact h id _ held
    · rw [null]
      rfl
  · rw [read_write_of_ne e] at stored
    exact h other found stored

theorem NamedOnce.of_reads {more : Nodes} (h : NamedOnce nodes)
    (kept : ∀ id value, more.read id [] = some value → nodes.read id [] = some value) :
    NamedOnce more := fun id value stored => h id value (kept id value stored)

/-! ## Data that is the same -/

/-- The data of a node is the same as values, or there is none. -/
def SameData (nodes more : Nodes) (id : NodeId) : Prop :=
  Option.Rel (fun a b => a.same b) (nodes.data? id) (more.data? id)

theorem read_nil (nodes : Nodes) (id : NodeId) : nodes.read id [] = nodes.data? id := by
  unfold Nodes.read data?
  cases nodes id with
  | none => rfl
  | some node =>
    show node.data.bind some = node.data
    cases node.data <;> rfl

theorem read_eq_bind (nodes : Nodes) (id : NodeId) (path : Path) :
    nodes.read id path = (nodes.data? id).bind fun data => data.get? path := by
  rw [← read_nil, ← read_append, List.nil_append]

variable {more : Nodes}

theorem NamedOnce.data (h : NamedOnce nodes) (held : nodes.data? id = some value) :
    value.distinct := h id value ((read_nil nodes id).trans held)

/-- Data is the same if the same is read everywhere in it. -/
theorem sameData_iff (once : NamedOnce nodes) (once' : NamedOnce more) :
    SameData nodes more id ↔ ∀ path, Value.SameTop (nodes.read id path) (more.read id path) := by
  simp only [read_eq_bind]
  unfold SameData
  cases held : nodes.data? id <;> cases held' : more.data? id
  · exact iff_of_true .none fun _ => .none
  · exact iff_of_false (fun h => by cases h) fun h => by cases h []
  · exact iff_of_false (fun h => by cases h) fun h => by cases h []
  · rw [Option.rel_some_some, Value.same_iff _ _ (once.data held) (once'.data held')]
    exact Iff.rfl

theorem sameData_of_eq (once : NamedOnce nodes) (h : more.data? id = nodes.data? id) :
    SameData nodes more id := by
  unfold SameData
  rw [h]
  cases held : nodes.data? id with
  | none => exact .none
  | some value =>
    have distinct := once.data held
    exact .some ((Value.same_iff value value distinct distinct).mpr (.refl value))

namespace SameData

variable {between : Nodes}

theorem symm (h : SameData nodes more id) (once : NamedOnce nodes) (once' : NamedOnce more) :
    SameData more nodes id :=
  (sameData_iff once' once).mpr fun path => ((sameData_iff once once').mp h path).symm

theorem trans (first : SameData nodes between id) (second : SameData between more id)
    (once : NamedOnce nodes) (once' : NamedOnce between) (once'' : NamedOnce more) :
    SameData nodes more id := (sameData_iff once once'').mpr fun path =>
  ((sameData_iff once once').mp first path).trans ((sameData_iff once' once'').mp second path)

/-- In the same data the same is read. -/
theorem read (h : SameData nodes more id) (once : NamedOnce nodes) (once' : NamedOnce more)
    (path : Path) : Option.Rel Value.ReadAlike (more.read id path) (nodes.read id path) := by
  refine Value.rel_of_bind (f := Value.get?) (g := Value.get?) (fun _ => Option.some_ne_none _)
    (fun _ => Option.some_ne_none _) fun rest => ?_
  rw [← read_append, ← read_append]
  exact ((sameData_iff once once').mp h (path ++ rest)).symm

end SameData
end Nodes

namespace Walk

variable {identify : Json → Option NodeId} {walk walk' : Walk} {seen seen' : List Visit}
  {place : Place} {content : Content}

theorem Fitted.namedOnce {length : Nat}
    (h : Fitted walk place (list? (walk.stored? place)) length walk')
    (once : NamedOnce walk.draft.node?) : NamedOnce walk'.draft.node? := by
  have wrote {items : List Value} (distinct : ∀ value ∈ items, value.distinct) :
      NamedOnce (walk.write place (.list (Value.resize items length))).draft.node? := by
    show NamedOnce (walk.draft.set _ _ _).node?
    rw [Draft.nodes_set_write]
    exact once.write (Value.distinct_list_iff.mpr (Value.distinct_resize distinct length))
  have before {items : List Value} (stored : list? (walk.stored? place) = some items) :
      ∀ value ∈ items, value.distinct := Value.distinct_list_iff.mp
    (once.read (show Nodes.read walk.draft.node? _ _ = _ from list?_eq_some.mp stored))
  cases h with
  | made => exact wrote fun _ member => absurd member List.not_mem_nil
  | kept => exact once
  | grown stored | cut stored => exact wrote (before stored)

theorem Brings.namedOnce (h : Brings identify walk place content walk')
    (distinct : ∀ payload, content = .leaf payload → payload.distinct)
    (once : NamedOnce walk.draft.node?) : NamedOnce walk'.draft.node? := by
  have null : NamedOnce (walk.draft.set place.container place.path .null).node? := by
    rw [Draft.nodes_set_write]
    exact once.write rfl
  cases h with
  | leaf payload =>
    unfold Walk.leaf
    split
    · exact once
    · show NamedOnce (walk.draft.set _ _ _).node?
      rw [Draft.nodes_set_write]
      exact once.write ((Value.distinct_ofJson payload).trans (distinct payload rfl))
  | clear | fill => exact null
  | unlink | keep | object | refer | same => exact once
  | list length => exact (fitted ..).namedOnce once

theorem Step.namedOnce (h : Step identify walk seen walk' seen') (unrepeated : Unrepeated seen')
    (sound : Walk.Sound walk seen) (once : NamedOnce walk.draft.node?) :
    NamedOnce walk'.draft.node? := by
  cases h with
  | warned | entered => exact once
  | grown name around address fresh =>
    have missing := sound.nodes.eq_none_of_not_linked address fresh
    refine once.of_reads fun id value stored => ?_
    rw [nodes_grow, read_sprout missing rfl] at stored
    exact stored
  | brought due brings =>
    refine brings.namedOnce (fun payload e => ?_) once
    subst e
    exact unrepeated _ payload List.mem_cons_self

theorem Run.namedOnce (h : Run identify walk seen walk' seen') (unrepeated : Unrepeated seen')
    (named : Named seen') (sound : Walk.Sound walk seen) (once : NamedOnce walk.draft.node?) :
    NamedOnce walk'.draft.node? := by
  induction h with
  | refl => exact once
  | tail run step ih =>
    have kept := step.seen_subset
    exact step.namedOnce unrepeated (run.sound (named.mono kept) sound)
      (ih (unrepeated.mono kept) (named.mono kept))

end Walk

/-- Changes of references write references and null only. -/
theorem Draft.namedOnce_apply {draft : Draft} (once : NamedOnce draft.node?)
    (change : LinkChange) : NamedOnce (draft.apply change).node? := by
  cases change with
  | detach container path target =>
    refine once.of_reads fun id value stored => ?_
    rw [read_apply_detach] at stored
    exact stored
  | relink container path next =>
    have distinct : (Value.referring next).distinct := by cases next <;> rfl
    refine (once.write distinct : NamedOnce (Nodes.write _ container path _)).of_reads ?_
    intro id value stored
    rw [read_apply_relink] at stored
    exact stored

theorem Draft.namedOnce_applyAll {draft : Draft} (once : NamedOnce draft.node?)
    (changes : List LinkChange) : NamedOnce (draft.applyAll changes).node? := by
  induction changes generalizing draft with
  | nil => exact once
  | cons change changes ih => exact ih (namedOnce_apply once change)

theorem Walk.namedOnce_finish {walk : Walk} (once : NamedOnce walk.draft.node?) :
    NamedOnce walk.finish.node? := by
  refine (Draft.namedOnce_applyAll once walk.changes).of_reads fun id value stored => ?_
  rw [← Draft.read_collectOrphans _ (has_of_read stored)]
  exact stored

end ResponseGraph
