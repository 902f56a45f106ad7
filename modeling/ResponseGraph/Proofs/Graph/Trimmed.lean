import ResponseGraph.Proofs.Field.Prepared
import ResponseGraph.Proofs.Graph.References
import ResponseGraph.Proofs.Payload.Covered
import ResponseGraph.Proofs.Payload.Trimmed

/-!
What is left below null and beyond the end of a list.

After a clean write no node links anything through an item that a list no longer has.  What is
linked below null is what was linked there before, and that is nothing if an object, a list or a
value without sub-selection had to give way.  But where nothing was stored, or null already, the
values of fields with arguments stay linked from below the null.
-/

namespace ResponseGraph

open Nodes NodeId Visit

namespace Graph

/-- The data of the nodes and their links say the same, and links go through items that lists
have. -/
structure Trim (graph : Graph) : Prop extends Faithful graph where
  listed : Nodes.Listed graph.node?

theorem trim_empty : Trim empty :=
  ⟨faithful_empty, fun _ _ _ _ _ member => absurd member List.not_mem_nil⟩

variable {graph : Graph} {cache : Cache} {request : Request} {payload : Json} {entry : Registered}
  {outcome : Outcome}

/-- What is known of the walk of a clean write. -/
theorem Trim.merge {batch : Batch} {warnings : List String} (trim : graph.Trim)
    (clean : entry.Clean cache graph payload)
    (merged : (Batch.ofGraph graph).merge cache entry payload = .ok (batch, warnings)) :
    ∃ members walk seen, payload = .object members ∧ batch.draft = walk.finish ∧
      Traced cache.identity.nonempty (entry.visits cache payload)
        (.ofDraft (.ofGraph graph)) [.brought (.root entry.operation.root) .object] walk seen ∧
      seen ⊆ entry.visits cache payload ∧
      Walked seen (Fields.visits false cache.identity.nonempty (.root entry.operation.root) members
        entry.operation.selection.fields) ∧
      walk.Trimming graph.node? seen := by
  obtain ⟨members, walk, seen, rfl, finished, traced, within, walked⟩ :=
    Draft.merge_traced (Batch.draft_merge merged)
  refine ⟨members, walk, seen, rfl, finished, traced, within, walked, ?_⟩
  have start : Walk.Trimming (Draft.node? (.ofGraph graph)) (.ofDraft (.ofGraph graph))
      [.brought (.root entry.operation.root) .object] :=
    .start (.start trim.sound trim.rooted trim.linked clean.plain.1) trim.rooted clean.plain.1
  exact traced.run.trimming clean.unnamed (clean.plain.2.mono within)
    (clean.consistent.mono within) ((spared_of_spares trim.sound clean.spared).mono within)
    trim.rooted start

/-- A node that stays keeps its data and links when nodes are collected. -/
theorem Trim.write (trim : graph.Trim) (prepared : (cache.prepare request).2 = .ok entry)
    (clean : entry.Clean cache graph payload)
    (written : (cache.write graph request payload).2.2 = .ok outcome) :
    outcome.commit.graph.Trim := by
  obtain ⟨batch, warnings, merged, committed⟩ := Cache.write_eq_ok prepared written
  obtain ⟨members, walk, seen, rfl, finished, -, within, -, trimming⟩ := trim.merge clean merged
  refine ⟨trim.toFaithful.write prepared clean written, ?_⟩
  have listed := trimming.listed (clean.consistent.mono within)
    ((spared_of_spares trim.sound clean.spared).mono within) trim.listed
  rw [Batch.nodes_commit clean.untransformed committed, finished]
  intro id target above i rest member
  have has := has_of_mem member
  unfold Walk.finish at has member ⊢
  rw [Draft.outbound_collectOrphans _ has] at member
  rw [Draft.read_collectOrphans _ has]
  exact listed id target above i rest member

namespace ReachedBy

theorem trim (h : ReachedBy Registered.Clean graph) : graph.Trim := by
  induction h with
  | empty => exact trim_empty
  | write _ prepared clean written ih => exact ih.write prepared clean written

/-- A node links nothing through items beyond the end of a list that the payload brings.  Below
null it links what it did before, unless something was stored that had to give way. -/
theorem linked_below_null_or_end (h : ReachedBy Registered.Clean graph)
    (grown : cache.registry.Grown) (prepared : (cache.prepare request).2 = .ok entry)
    (clean : entry.Clean cache graph payload)
    (written : (cache.write graph request payload).2.2 = .ok outcome) (site : Site)
    (target : NodeId) :
    (∀ step rest, .brought site .null ∈ entry.visits cache payload →
      (⟨target, site.path ++ step :: rest⟩ ∈
          Nodes.links outcome.commit.graph.node? .outbound site.container ↔
        outcome.commit.graph.contains site.container ∧
          ⟨target, site.path ++ step :: rest⟩ ∈
            Nodes.links graph.node? .outbound site.container ∧
          Flat (Nodes.read graph.node? site.container site.path))) ∧
      ∀ length i rest, .brought site (.list length) ∈ entry.visits cache payload → length ≤ i →
        ⟨target, site.path ++ .index i :: rest⟩ ∉
          Nodes.links outcome.commit.graph.node? .outbound site.container := by
  have trim := h.trim
  obtain ⟨batch, warnings, merged, committed⟩ := Cache.write_eq_ok prepared written
  obtain ⟨members, walk, seen, rfl, finished, traced, within, walked, trimming⟩ :=
    trim.merge clean merged
  obtain ⟨labels, known⟩ := grown.known prepared
  have consistent := clean.consistent.mono within
  have covers {content : Content}
      (member : .brought site content ∈ entry.visits cache (.object members)) :
      ∃ other, .brought site other ∈ seen ∧ other.agrees content :=
    traced.covers within walked (fun site other content here =>
      clean.consistent site other content (within here)) known.proper.known member
  have nodes : outcome.commit.graph.node? =
      (walk.draft.applyAll walk.changes).collectOrphans.node? := by
    rw [Batch.nodes_commit clean.untransformed committed, finished]
    rfl
  have listed := (trim.write prepared clean written).listed
  refine ⟨fun step rest member => ?_, fun length i rest member beyond linked => ?_⟩
  · obtain ⟨other, here, null⟩ := covers member
    have spared := (spared_of_spares trim.sound clean.spared).mono within
    rw [← trimming.mem_below_null consistent spared trim.linked here null]
    show _ ↔ Nodes.Has outcome.commit.graph.node? site.container ∧ _
    rw [nodes]
    constructor
    · intro linked
      have has := has_of_mem linked
      exact ⟨has, Draft.outbound_collectOrphans _ has ▸ linked⟩
    · rintro ⟨has, linked⟩
      rw [Draft.outbound_collectOrphans _ has]
      exact linked
  · obtain ⟨other, here, same⟩ := covers member
    obtain ⟨items, stored, inside⟩ := listed site.container target site.path i rest linked
    have has := has_of_mem linked
    rw [nodes] at has stored
    rw [Draft.read_collectOrphans _ has] at stored
    obtain ⟨others, held, long⟩ := ((trimming.linked.holds consistent here).of_agrees same).1
    rw [held] at stored
    cases stored
    omega

/-- A user had nothing but the value of a field with arguments, and a box had a name as well.  Both
become null, and of two tags one is left.  The value of the user is still linked, and those of
the box and of the lost tag are not. -/
theorem linked_below_null_or_end_of_user_and_box :
    ∃ (graph graph' : Graph), ReachedBy Registered.Clean graph ∧
      (∃ user ∈ Nodes.links graph'.node? .outbound queryRoot, [.key "user"] <+: user.path) ∧
      (∃ box ∈ Nodes.links graph.node? .outbound queryRoot, [.key "box"] <+: box.path ∧
        box ∉ Nodes.links graph'.node? .outbound queryRoot) ∧
      ∃ tag ∈ Nodes.links graph.node? .outbound queryRoot,
        [.key "tags", .index 1] <+: tag.path ∧
        tag ∉ Nodes.links graph'.node? .outbound queryRoot := by
  let cache := Cache.new .default
  let first := Request.query
    "\x7b user \x7b post(n: 1) \x7d box \x7b name post(n: 1) \x7d tags \x7b text(n: 1) \x7d \x7d"
  let second := Request.query "\x7b user \x7b name \x7d box \x7b name \x7d tags \x7b name \x7d \x7d"
  let post := ("post", Json.string "a")
  let tag := Json.object [("text", .string "b")]
  let before := Json.object [("user", .object [post]),
    ("box", .object [("name", .string "c"), post]), ("tags", .array [tag, tag])]
  let after := Json.object [("user", .null), ("box", .null),
    ("tags", .array [.object [("name", .string "d")]])]
  let site (name : String) : Site := ⟨queryRoot, [.key name]⟩
  let user : Link := ⟨"ROOT_QUERY❖[\"user\",\"post\"]❖\x7b\"n\":1\x7d", [.key "user", .key "post"]⟩
  let box : Link := ⟨"ROOT_QUERY❖[\"box\",\"post\"]❖\x7b\"n\":1\x7d", [.key "box", .key "post"]⟩
  let lost : Link := ⟨"ROOT_QUERY❖[\"tags\",1,\"text\"]❖\x7b\"n\":1\x7d",
    [.key "tags", .index 1, .key "text"]⟩
  let brings (entry : Registered) (name : String) (test : Content → Bool) :=
    (entry.visits cache after).any (Visit.brings (site name) test)
  let isNull (content : Content) := decide (content.next? = some none)
  let allowed (graph : Graph) (entry : Registered) := decide (entry.Clean cache graph after) &&
    brings entry "user" isNull && brings entry "box" isNull &&
    brings entry "tags" fun content => content.agrees (.list 1)
  let linked (graph : Graph) := decide ([user, box, lost] ⊆
    Nodes.links graph.node? .outbound queryRoot) &&
    (Nodes.read graph.node? queryRoot [.key "user"]).isNone &&
    (Nodes.read graph.node? queryRoot [.key "box"]).any fun value => value.object?.isSome
  let passes (graph graph' : Graph) := linked graph && graph'.contains queryRoot
  have test : cache.test first before (fun entry => decide (entry.Clean cache .empty before))
      (fun graph => cache.test second after (allowed graph) (passes graph) graph) .empty := by
    decide +kernel
  obtain ⟨entry, outcome, prepared, clean, written, test⟩ := Cache.exists_of_test test
  obtain ⟨entry', outcome', prepared', checked, written', passed⟩ := Cache.exists_of_test test
  have reached := ReachedBy.write .empty prepared (of_decide_eq_true clean) written
  simp only [allowed, passes, linked, Bool.and_eq_true, Option.isNone_iff_eq_none,
    Option.any_eq_true] at checked passed
  obtain ⟨⟨⟨clean', nobody⟩, nothing⟩, short⟩ := checked
  obtain ⟨⟨⟨there, missing⟩, value, held, filled⟩, has⟩ := passed
  have there := of_decide_eq_true there
  have left (site : Site) (target : NodeId) := reached.linked_below_null_or_end .empty prepared'
    (of_decide_eq_true clean') written' site target
  have null {name : String} (h : brings entry' name isNull) :
      .brought (site name) .null ∈ entry'.visits cache after := by
    obtain ⟨content, member, same⟩ := exists_of_brings h
    cases content <;> first | exact member | cases of_decide_eq_true same
  obtain ⟨content, short, same⟩ := exists_of_brings short
  obtain rfl := Content.eq_list_of_agrees same
  have user_linked : user ∈ _ := there List.mem_cons_self
  have box_linked : box ∈ _ := there (List.mem_cons_of_mem _ List.mem_cons_self)
  have lost_linked : lost ∈ _ :=
    there (List.mem_cons_of_mem _ (List.mem_cons_of_mem _ List.mem_cons_self))
  refine ⟨outcome.commit.graph, outcome'.commit.graph, reached, ⟨user, ?_, [.key "post"], rfl⟩,
    ⟨box, box_linked, ⟨[.key "post"], rfl⟩, fun linked => ?_⟩,
    ⟨lost, lost_linked, ⟨[.key "text"], rfl⟩, ?_⟩⟩
  · refine ((left (site "user") _).1 (.key "post") [] (null nobody)).mpr ⟨has, user_linked, ?_⟩
    intro value stored
    rw [show Nodes.read outcome.commit.graph.node? (site "user").container (site "user").path = _
      from missing] at stored
    cases stored
  · have flat := (((left (site "box") _).1 (.key "post") [] (null nothing)).mp linked).2.2
    rcases flat value held with rfl | ⟨id, rfl⟩ <;> cases filled
  · exact (left (site "tags") _).2 1 1 [.key "text"] short (Nat.le_refl 1)

end ReachedBy
end Graph
end ResponseGraph
