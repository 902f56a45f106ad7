import ResponseGraph.Graph.Printer
import ResponseGraph.Proofs.Graph.References
import ResponseGraph.Proofs.NodeId.Parts
import ResponseGraph.Proofs.Payload.Distinct
import ResponseGraph.Proofs.Value.Written

/-!
Graphs by their text.

Two graphs have one text exactly if they have the same ids, and under each id the same kind, the
same links in the same order and data that is written alike.  Data written alike may still
differ: where one graph has a reference, the other one may have an object of a payload that looks
like it.  After clean writes this does not happen, since the links of a node, which are part of
the text, say where its references are.
-/

namespace ResponseGraph

open Nodes

theorem Link.text_toJson_inj {a b : Link} (h : a.toJson.text = b.toJson.text) : a = b := by
  obtain ⟨node, tail⟩ := List.cons_eq_cons.mp (Json.text_object_eq_iff.mp h)
  obtain ⟨path, -⟩ := List.cons_eq_cons.mp tail
  have node : a.node = b.node := Json.text_string_eq_iff.mp (Prod.mk.inj node).2
  have path : a.path = b.path := Path.text_toJson_inj (Prod.mk.inj path).2
  cases a
  cases b
  cases node
  cases path
  rfl

namespace Node

/-- All of two nodes that their text tells. -/
structure WrittenAlike (a b : Node) : Prop where
  kind : a.kind = b.kind
  inbound : a.inbound = b.inbound
  outbound : a.outbound = b.outbound
  data : Option.Rel (fun x y => x.writtenAlike y) a.data b.data

/-- The member that lists links, if there are any. -/
def listed (name : String) (links : List Link) : List (String × Json) :=
  if links.isEmpty then [] else [(name, .array (links.map Link.toJson))]

def parts (node : Node) : List (String × Json) :=
  ("type", .string node.kind.text) :: (listed "inbound" node.inbound ++
    listed "outbound" node.outbound ++ node.data.toList.map fun data => ("data", data.toJson))

theorem toJson_eq (node : Node) : node.toJson = .object node.parts := rfl

/-- The members are told apart by their names. -/
theorem get?_parts (node : Node) :
    Entries.get? "type" node.parts = some (.string node.kind.text) ∧
      Entries.get? "inbound" node.parts = Entries.get? "inbound" (listed "inbound" node.inbound) ∧
      Entries.get? "outbound" node.parts =
        Entries.get? "outbound" (listed "outbound" node.outbound) ∧
      Entries.get? "data" node.parts = node.data.map Value.toJson := by
  obtain ⟨kind, inbound, outbound, data⟩ := node
  cases inbound <;> cases outbound <;> cases data <;> simp [parts, listed, Entries.get?_cons]

theorem kind_text_inj {a b : NodeKind} (h : a.text = b.text) : a = b := by
  cases a <;> cases b <;> first | rfl | exact absurd h (by decide)

theorem listed_inj (name : String) {links others : List Link}
    (h : (Entries.get? name (listed name links)).map Json.text =
      (Entries.get? name (listed name others)).map Json.text) : links = others := by
  unfold listed at h
  cases links <;> cases others
  · rfl
  · simp [Entries.get?_cons] at h
  · simp [Entries.get?_cons] at h
  · simp only [List.isEmpty_cons, Bool.false_eq_true, if_false, Entries.get?_cons, if_true,
      Option.map_some, Option.some_inj] at h
    have each := Json.text_array_eq_iff.mp h
    rw [List.map_map, List.map_map] at each
    exact (List.map_inj_right fun a b => Link.text_toJson_inj).mp each

theorem text_toJson_eq_iff {a b : Node} : a.toJson.text = b.toJson.text ↔ a.WrittenAlike b := by
  rw [toJson_eq, toJson_eq, Json.text_object_eq_iff]
  constructor
  · intro h
    have part (name : String) : (Entries.get? name a.parts).map Json.text =
        (Entries.get? name b.parts).map Json.text := by
      have here := congrArg (Entries.get? name) h
      exact ((Entries.get?_map (fun _ => Json.text) name a.parts).symm.trans here).trans
        (Entries.get?_map (fun _ => Json.text) name b.parts)
    obtain ⟨type, inbound, outbound, data⟩ := a.get?_parts
    obtain ⟨type', inbound', outbound', data'⟩ := b.get?_parts
    refine ⟨kind_text_inj ?_, listed_inj "inbound" ?_, listed_inj "outbound" ?_, ?_⟩
    · have here := part "type"
      rw [type, type'] at here
      exact Json.text_string_eq_iff.mp (Option.some_inj.mp here)
    · have here := part "inbound"
      rwa [inbound, inbound'] at here
    · have here := part "outbound"
      rwa [outbound, outbound'] at here
    · have here := part "data"
      rw [data, data'] at here
      generalize a.data = x, b.data = y at here ⊢
      cases x <;> cases y
      · exact .none
      · cases here
      · cases here
      · next x y => exact .some ((Value.text_toJson_eq_iff x y).mp (Option.some_inj.mp here))
  · rintro ⟨kind, inbound, outbound, data⟩
    have last : (a.data.toList.map fun data => ("data", data.toJson)).map Json.written =
        (b.data.toList.map fun data => ("data", data.toJson)).map Json.written := by
      generalize a.data = x, b.data = y at data ⊢
      cases data with
      | none => rfl
      | some alike =>
        exact congrArg (fun text => [("data", text)]) ((Value.text_toJson_eq_iff _ _).mpr alike)
    unfold parts
    rw [kind, inbound, outbound]
    simp only [List.map_cons, List.map_append, last]

/-- Nodes that are written alike are the same if their data is. -/
theorem WrittenAlike.same_iff {a b : Node} (h : a.WrittenAlike b) :
    a.same b ↔ Option.Rel (fun x y => x.same y) a.data b.data := by
  unfold Node.same
  rw [h.kind, h.inbound, h.outbound, beq_self_eq_true, beq_self_eq_true, beq_self_eq_true,
    Bool.true_and, Bool.true_and, Bool.true_and]
  generalize a.data = x, b.data = y
  cases x <;> cases y
  · exact iff_of_true rfl .none
  · exact iff_of_false (fun h => by cases h) fun h => by cases h
  · exact iff_of_false (fun h => by cases h) fun h => by cases h
  · next x y => exact (Option.rel_some_some (r := fun x y : Value => x.same y)).symm

/-- Nodes that are written alike are the same if they have the same references. -/
theorem WrittenAlike.same_iff_references {a b : Node} (h : a.WrittenAlike b)
    (distinct : ∀ x, a.data = some x → x.distinct) (distinct' : ∀ y, b.data = some y → y.distinct)
    (numbers : ∀ x y, a.data = some x → b.data = some y →
      ∀ m ∈ x.numbers, ∀ n ∈ y.numbers, m.text = n.text → m.same n) :
    a.same b ↔ ∀ path target, a.get? path = some (.reference target) ↔
      b.get? path = some (.reference target) := by
  rw [h.same_iff]
  unfold Node.get?
  rcases exists_of_rel h.data with ⟨none, none'⟩ | ⟨x, y, held, held', written⟩
  · rw [none, none']
    exact iff_of_true .none fun path target => Iff.rfl
  · rw [held, held', Option.rel_some_some, Value.same_iff x y (distinct x held) (distinct' y held')]
    exact Value.readAlike_iff_references written (numbers x y held held')

end Node

namespace Graph

/-- The numbers in the data of a graph. -/
def numbers (graph : Graph) : List Number :=
  graph.toList.flatMap fun entry => entry.2.data.elim [] Value.numbers

variable {a b : Graph}

/-- All that the text of a graph tells is the text of the node of each id. -/
theorem text_eq_iff :
    a.text = b.text ↔ ∀ id, Option.Rel Node.WrittenAlike (a.node? id) (b.node? id) := by
  let entries (graph : Graph) := graph.entries.map fun entry => (entry.1, entry.2.toJson.text)
  have look (graph : Graph) (id : NodeId) :
      Entries.get? id (entries graph) = (graph.node? id).map fun node => node.toJson.text :=
    Entries.get?_map (fun _ (node : Node) => node.toJson.text) id graph.entries
  have text : a.text = b.text ↔ entries a = entries b := by
    show (Json.object _).text = (Json.object _).text ↔ _
    rw [Json.text_object_eq_iff, List.map_map, List.map_map]
    exact Iff.rfl
  rw [text]
  constructor
  · intro same id
    have here := congrArg (Entries.get? id) same
    rw [look, look] at here
    generalize a.node? id = x, b.node? id = y at here ⊢
    cases x <;> cases y
    · exact .none
    · cases here
    · cases here
    · exact .some (Node.text_toJson_eq_iff.mp (Option.some_inj.mp here))
  · intro alike
    have increasing (graph : Graph) : Entries.Increasing (entries graph) :=
      graph.increasing.map fun _ node => node.toJson.text
    refine (increasing a).ext (increasing b) fun id => ?_
    rw [look, look]
    have here := alike id
    generalize a.node? id = x, b.node? id = y at here ⊢
    cases here with
    | none => rfl
    | some alike => exact congrArg some (Node.text_toJson_eq_iff.mpr alike)

theorem same_iff :
    a.same b ↔ ∀ id, Option.Rel (fun m n => m.same n) (a.node? id) (b.node? id) := by
  refine Iff.trans ?_ (Entries.forall_rel_get?_iff a.increasing.nodup b.increasing.nodup).symm
  unfold same
  rw [Bool.and_eq_true, beq_iff_eq, List.all_eq_true]
  refine and_congr_right fun _ => ⟨fun all id node member => ?_, fun all entry member => ?_⟩
  · exact (Option.any_eq_true _ _).mp (all (id, node) member)
  · exact (Option.any_eq_true _ _).mpr (all entry.1 entry.2 member)

theorem numbers_subset {graph : Graph} {id : NodeId} {node : Node} {data : Value}
    (found : graph.node? id = some node) (held : node.data = some data) :
    data.numbers ⊆ graph.numbers := by
  intro x member
  refine List.mem_flatMap.mpr ⟨(id, node), Entries.mem_of_get? found, ?_⟩
  rw [held]
  exact member

end Graph

/-! ## After clean writes -/

/-- The payload of a clean write, in which no object repeats a name. -/
structure Registered.Tidy (entry : Registered) (cache : Cache) (graph : Graph)
    (payload : Json) : Prop where
  clean : entry.Clean cache graph payload
  distinct : payload.distinct

instance (entry : Registered) (cache : Cache) (graph : Graph) (payload : Json) :
    Decidable (entry.Tidy cache graph payload) :=
  decidable_of_iff (entry.Clean cache graph payload ∧ payload.distinct)
    ⟨fun ⟨clean, distinct⟩ => ⟨clean, distinct⟩, fun tidy => ⟨tidy.clean, tidy.distinct⟩⟩

namespace Graph

variable {graph a b : Graph}

theorem ReachedBy.faithful_and_namedOnce (h : ReachedBy Registered.Tidy graph) :
    graph.Faithful ∧ NamedOnce graph.node? := by
  induction h with
  | empty => exact ⟨faithful_empty, fun _ _ stored => by cases stored⟩
  | write _ prepared tidy written ih =>
    obtain ⟨faithful, once⟩ := ih
    refine ⟨faithful.write prepared tidy.clean written, ?_⟩
    obtain ⟨batch, warnings, merged, committed⟩ := Cache.write_eq_ok prepared written
    obtain ⟨members, walk, seen, -, finished, traced, within, -⟩ :=
      Batch.merge_clean faithful tidy.clean merged
    have start : Walk.Sound (.ofDraft (.ofGraph _)) _ :=
      .start (Batch.sound_ofGraph faithful.sound) tidy.clean.plain.1
    have unrepeated := (Visit.unrepeated_ofPayload tidy.distinct).mono within
    have once := traced.run.namedOnce unrepeated (tidy.clean.plain.2.mono within) start once
    rw [Batch.nodes_commit tidy.clean.untransformed committed, finished]
    exact Walk.namedOnce_finish once

/-- The same entities are referred to at the same places. -/
def SameReferences (a b : Graph) : Prop :=
  ∀ id path target, Nodes.read a.node? id path = some (.reference target) ↔
    Nodes.read b.node? id path = some (.reference target)

/-- Faithful graphs with the same links have the same references. -/
theorem Faithful.sameReferences (faithful : a.Faithful) (faithful' : b.Faithful)
    (links : ∀ id, Nodes.links a.node? .outbound id = Nodes.links b.node? .outbound id) :
    SameReferences a b := by
  have transfer {a b : Graph} (faithful : a.Faithful) (faithful' : b.Faithful)
      (links : ∀ id, Nodes.links a.node? .outbound id = Nodes.links b.node? .outbound id)
      {id target : NodeId} {path : Path}
      (stored : Nodes.read a.node? id path = some (.reference target)) :
      Nodes.read b.node? id path = some (.reference target) := by
    obtain ⟨linked, whole⟩ := faithful.linked.stored id path target stored
    rw [links id] at linked
    exact (faithful'.linked.linked id path target linked whole).resolve_right fun impossible =>
      impossible
  exact fun id path target =>
    ⟨transfer faithful faithful' links, transfer faithful' faithful fun id => (links id).symm⟩

theorem links_eq_of_text_eq (text : a.text = b.text) (id : NodeId) :
    Nodes.links a.node? .outbound id = Nodes.links b.node? .outbound id := by
  rcases exists_of_rel (text_eq_iff.mp text id) with ⟨none, none'⟩ | ⟨m, n, found, found', alike⟩
  · rw [links_of_none none, links_of_none none']
  · rw [links_of_some found, links_of_some found']
    exact alike.outbound

/-- Graphs of one text are the same exactly if they refer to the same at the same places, provided
that the text tells the numbers in them apart. -/
theorem same_iff_sameReferences (once : NamedOnce a.node?) (once' : NamedOnce b.node?)
    (numbers : ∀ m ∈ a.numbers, ∀ n ∈ b.numbers, m.text = n.text → m.same n)
    (text : a.text = b.text) : a.same b ↔ SameReferences a b := by
  rw [same_iff]
  refine forall_congr' fun id => ?_
  unfold Nodes.read
  rcases exists_of_rel (text_eq_iff.mp text id) with ⟨none, none'⟩ | ⟨m, n, found, found', alike⟩
  · rw [none, none']
    exact iff_of_true .none fun path target => Iff.rfl
  · have distinct {graph : Graph} {node : Node} (once : NamedOnce graph.node?)
        (found : graph.node? id = some node) (data : Value) (held : node.data = some data) :
        data.distinct := by
      refine once id data ?_
      unfold Nodes.read
      rw [found, Option.bind_some, Node.get?_nil, held]
    rw [found, found', Option.rel_some_some]
    exact alike.same_iff_references (distinct once found) (distinct once' found')
      fun x y held held' k member l member' =>
        numbers k (numbers_subset found held member) l (numbers_subset found' held' member')

/-- The text of a graph tells all but one thing: whether an object that has an id as its only
member `__ref` is a reference or came from a payload.  So graphs of one text are the same if they
have their references at the same places, and after clean writes they always have: then the text
tells the graph, as far as it tells the numbers. -/
theorem text_tells_graph (a b : Graph) :
    (a.text = b.text ↔ ∀ id, Option.Rel Node.WrittenAlike (a.node? id) (b.node? id)) ∧
      ((∀ m ∈ a.numbers, ∀ n ∈ b.numbers, m.text = n.text → m.same n) → a.text = b.text →
        (NamedOnce a.node? → NamedOnce b.node? → (a.same b ↔ SameReferences a b)) ∧
        (ReachedBy Registered.Tidy a → ReachedBy Registered.Tidy b → a.same b)) := by
  refine ⟨text_eq_iff, fun numbers text => ⟨fun once once' =>
    same_iff_sameReferences once once' numbers text, fun reached reached' => ?_⟩⟩
  obtain ⟨faithful, once⟩ := reached.faithful_and_namedOnce
  obtain ⟨faithful', once'⟩ := reached'.faithful_and_namedOnce
  exact (same_iff_sameReferences once once' numbers text).mpr
    (faithful.sameReferences faithful' (links_eq_of_text_eq text))

/-- A user of 30 years is written at once, or first without the age: the text is the same, and so
are the graphs. -/
theorem text_tells_graph_of_two_writes :
    ∃ a b, ReachedBy Registered.Tidy a ∧ ReachedBy Registered.Tidy b ∧
      a.numbers = [.int 30] ∧ a.text = b.text ∧ a.same b := by
  let cache := Cache.new .default
  let brief := Request.query "\x7b user \x7b id \x7d \x7d"
  let full := Request.query "\x7b user \x7b id age \x7d \x7d"
  let user := Json.object [("user", .object [("id", .string "1"), ("age", .number (.int 30))])]
  let write (request : Request) (passes : Graph → Bool) (graph : Graph) :=
    cache.test request user (fun entry => decide (entry.Tidy cache graph user)) passes graph
  let told (a b : Graph) := decide (a.numbers = [.int 30] ∧
    (∀ m ∈ a.numbers, ∀ n ∈ b.numbers, m.text = n.text → m.same n) ∧ a.text = b.text)
  have test : write full (fun a => write brief (write full (told a)) .empty) .empty := by
    decide +kernel
  obtain ⟨entry, once, prepared, tidy, written, test⟩ := Cache.exists_of_test test
  obtain ⟨entry₁, first, prepared₁, tidy₁, written₁, test⟩ := Cache.exists_of_test test
  obtain ⟨entry₂, second, prepared₂, tidy₂, written₂, test⟩ := Cache.exists_of_test test
  have reached := ReachedBy.write .empty prepared (of_decide_eq_true tidy) written
  have reached' := ReachedBy.write (.write .empty prepared₁ (of_decide_eq_true tidy₁) written₁)
    prepared₂ (of_decide_eq_true tidy₂) written₂
  obtain ⟨thirty, numbers, text⟩ := of_decide_eq_true test
  exact ⟨_, _, reached, reached', thirty, text,
    ((text_tells_graph _ _).2 numbers text).2 reached reached'⟩

end Graph
end ResponseGraph
