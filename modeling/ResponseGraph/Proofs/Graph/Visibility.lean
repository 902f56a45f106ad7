import ResponseGraph.Proofs.Draft.Edits
import ResponseGraph.Proofs.Graph.History

/-!
Changes that are seen from afar.

A reader that holds a node need not look below it as long as the node is the very same.  For
this a commit copies all nodes that lead to an edited one.  So whatever can be reached from a
shared node was not edited, and its data is what it was.

One change slips through.  Where a field with arguments is met that its container does not
link, a new node is made for its value.  If there was a node with that id already, its data is
gone, and this does not count as an edit.
-/

namespace ResponseGraph

open Nodes

/-! ## Merging is editing -/

namespace Walk

variable {identify : Json → Option NodeId} {walk walk' : Walk} {seen seen' : List Visit}

theorem edits_grow (walk : Walk) (place : Place) (id : NodeId) :
    Draft.Edits walk.draft (walk.grow place id).draft :=
  (Draft.Edit.made (Node.kind_addLink _ _ _) (Node.data_addLink _ _ _)).edits.tail
    (Draft.edit_addLink _ place.container .outbound _)

theorem Step.edits (h : Step identify walk seen walk' seen') :
    Draft.Edits walk.draft walk'.draft := by
  cases h with
  | warned | entered => exact .refl
  | grown => exact edits_grow walk _ _
  | brought _ brings =>
    rcases brings.touches.written with same | ⟨value, written⟩
    · rw [same]
    · rw [written]
      exact (Draft.Edit.written _ _ _).edits

theorem Run.edits (h : Run identify walk seen walk' seen') :
    Draft.Edits walk.draft walk'.draft := by
  induction h with
  | refl => exact .refl
  | tail _ step ih => exact ih.trans step.edits

end Walk

theorem Draft.edits_merge {identify : Json → Option NodeId} {root : NodeId} {fields : Fields}
    {payload : Json} {draft draft' : Draft} {warnings : List String}
    (h : draft.merge identify root fields payload = .ok (draft', warnings)) :
    Edits draft draft' := by
  obtain ⟨members, walk, seen, -, rfl, traced, -⟩ := Draft.merge_traced h
  exact (traced.run.edits.trans (edits_applyAll _ _)).trans (edits_collectOrphans _)

theorem Batch.edits_mergeAll {cache : Cache} {merges : List (Registered × Json)}
    {batch batch' : Batch} (merged : batch.mergeAll cache merges = .ok batch') :
    Draft.Edits batch.draft batch'.draft := by
  induction merges generalizing batch with
  | nil =>
    cases merged
    exact .refl
  | cons merge rest ih =>
    obtain ⟨entry, payload⟩ := merge
    obtain ⟨⟨middle, warnings⟩, first, merged⟩ := exists_of_bind_eq_ok merged
    exact (Draft.edits_merge (Batch.draft_merge first)).trans (ih merged)

/-! ## Following references -/

namespace Graph

/-- Outbound links lead from the first id to the other. -/
inductive Leads (graph : Graph) (id : NodeId) : NodeId → Prop
  | here : Leads graph id id
  | on {middle : NodeId} {link : Link} (leads : Leads graph id middle)
    (linked : link ∈ Nodes.links graph.node? .outbound middle) : Leads graph id link.node

theorem Leads.trans {graph : Graph} {id middle target : NodeId} (first : graph.Leads id middle)
    (second : graph.Leads middle target) : graph.Leads id target := by
  induction second with
  | here => exact first
  | on _ linked ih => exact ih.on linked

/-- Whatever leads to a node from which inbound links lead up is led up to as well. -/
theorem Leads.above {graph : Graph} (verified : graph.verify = .ok ()) {first : NodeId → Prop}
    {id target : NodeId} (leads : graph.Leads id target)
    (above : Nodes.Above graph.node? first target) : Nodes.Above graph.node? first id := by
  induction leads with
  | here => exact above
  | on _ linked ih => exact ih (above.up ((verify_eq_ok.mp verified _ _ _).mp linked))

end Graph

/-! ## Shared nodes -/

/-- The graph that is committed has the very node of the base. -/
def Commit.Shares (commit : Commit) (base : Graph) (id : NodeId) : Prop :=
  base.contains id ∧ commit.graph.contains id ∧ ¬ commit.copied.contains id

instance (commit : Commit) (base : Graph) (id : NodeId) : Decidable (commit.Shares base id) :=
  inferInstanceAs (Decidable (_ ∧ _ ∧ _))

namespace Draft

variable {transform : Option (Value → Value)} {draft : Draft}

theorem shapes_committed (transform : Option (Value → Value)) (draft : Draft) :
    Nodes.shapes (draft.committed transform).graph.node? = Nodes.shapes draft.node? := by
  unfold committed
  dsimp only
  rw [nodes_graph, shapes_transforming, nodes_ownAncestors]

theorem links_committed (transform : Option (Value → Value)) (draft : Draft)
    (direction : Direction) (id : NodeId) :
    Nodes.links (draft.committed transform).graph.node? direction id =
      Nodes.links draft.node? direction id := by
  rw [← links_shapes, shapes_committed, links_shapes]

/-- A transformer is given edited nodes only. -/
theorem node?_committed_of_unedited (transform : Option (Value → Value)) {draft : Draft}
    {id : NodeId} (unedited : ¬ draft.edited.contains id) :
    (draft.committed transform).graph.node? id = draft.node? id := by
  have kept (node : Node) : transformed transform draft.ownAncestors.edited id node = node := by
    rw [(alike_ownAncestors draft).2.1]
    unfold transformed
    cases transform with
    | none => rfl
    | some f => exact if_neg fun marked => unedited (Bool.and_eq_true _ _ ▸ marked).1
  have same : draft.ownAncestors.node? id = draft.node? id := by rw [nodes_ownAncestors]
  unfold committed
  dsimp only
  rw [node?_graph, node?_transforming, ← same]
  unfold node?
  cases draft.ownAncestors.changes.get? id with
  | none => rfl
  | some change =>
    cases change with
    | none => rfl
    | some node => exact congrArg some (kept node)

/-- A node that was not copied is the node of the base. -/
theorem node?_committed_of_shares {id : NodeId}
    (shared : (draft.committed transform).Shares draft.base id) :
    (draft.committed transform).graph.node? id = draft.base.node? id := by
  obtain ⟨-, present, uncopied⟩ := shared
  rw [contains_copied, not_exists] at uncopied
  have here := node?_transforming transform draft.ownAncestors id
  rw [(alike_ownAncestors draft).1, ← node?_graph] at here
  cases found : draft.ownAncestors.changes.get? id with
  | none => rwa [found] at here
  | some change =>
    cases change with
    | none =>
      rw [found] at here
      have gone : (draft.committed transform).graph.node? id = none := here
      have present : ((draft.committed transform).graph.node? id).isSome := present
      rw [gone] at present
      cases present
    | some node => exact absurd found (uncopied node)

/-- What can be reached from a node that was not copied was not edited. -/
theorem not_edited_of_leads (edited : ∀ id, draft.edited.contains id → draft.changes.contains id)
    (verified : (draft.committed transform).graph.verify = .ok ()) {id target : NodeId}
    (has : Nodes.Has draft.node? id) (shared : ¬ (draft.committed transform).copied.contains id)
    (leads : (draft.committed transform).graph.Leads id target) :
    ¬ draft.edited.contains target := by
  intro marked
  have above : Nodes.Above (draft.committed transform).graph.node?
      (fun id => draft.edited.contains id) id := leads.above verified (.first marked)
  -- A commit copies nodes but keeps their links, so the way up is one in the draft.
  have above : Nodes.Above draft.node? (fun id => draft.edited.contains id) id := by
    clear shared has leads
    induction above with
    | first h => exact .first h
    | up _ linked ih =>
      rw [links_committed] at linked
      exact ih.up linked
  obtain ⟨change, found⟩ :=
    Option.isSome_iff_exists.mp (contains_changes_ownAncestors edited above has)
  refine shared (contains_copied.mpr ?_)
  have here : draft.ownAncestors.node? id = change := by
    unfold node?
    rw [found]
  rw [nodes_ownAncestors] at here
  obtain ⟨node, present⟩ := Option.isSome_iff_exists.mp has
  exact ⟨node, by rw [found, ← here, present]⟩

end Draft

/-- From a node that a commit shares with the base, nothing is reached that was edited.  What is
reached has the data of the base, except for values of fields with arguments whose node was
made anew and has no data. -/
theorem Batch.unchanged_below_shared {cache : Cache} {base : Graph}
    {merges : List (Registered × Json)} {batch : Batch} {outcome : Outcome}
    (merged : (Batch.ofGraph base).mergeAll cache merges = .ok batch)
    (committed : batch.commit cache = .ok outcome)
    (verified : outcome.commit.graph.verify = .ok ()) {id target : NodeId}
    (shared : outcome.commit.Shares base id) (leads : outcome.commit.graph.Leads id target) :
    ¬ outcome.commit.edited.contains target ∧
      (data? outcome.commit.graph.node? target = data? base.node? target ∨
        Blank outcome.commit.graph.node? target) := by
  have tracked : Draft.Tracked base batch.draft :=
    (Batch.edits_mergeAll merged).tracked (Draft.tracked_ofGraph base)
  have commit := Draft.eq_committed (Batch.commit_eq_ok committed)
  have edited : outcome.commit.edited = batch.draft.edited := by
    rw [commit]
    exact (Draft.alike_ownAncestors batch.draft).2.1
  obtain ⟨-, present, uncopied⟩ := shared
  rw [commit] at verified present uncopied leads
  have has : Nodes.Has batch.draft.node? id := by
    rw [← has_shapes, ← Draft.shapes_committed cache.transform, has_shapes]
    exact present
  have unedited := Draft.not_edited_of_leads tracked.changed verified has uncopied leads
  rw [edited, commit]
  refine ⟨unedited, ?_⟩
  have same := Draft.node?_committed_of_unedited cache.transform unedited
  unfold data? Blank
  rw [same]
  exact tracked.kept target unedited

/-- A node was written under the id that the posts of a user have once they are met.  When they
are met, the root is shared though it leads to them, and what was written is gone. -/
theorem Batch.unchanged_below_shared_blank :
    ∃ (cache : Cache) (base : Graph) (merges : List (Registered × Json)) (batch : Batch)
      (outcome : Outcome) (target : NodeId), base.verify = .ok () ∧
      (Batch.ofGraph base).mergeAll cache merges = .ok batch ∧
      batch.commit cache = .ok outcome ∧ outcome.commit.graph.verify = .ok () ∧
      outcome.commit.Shares base NodeId.queryRoot ∧
      outcome.commit.graph.Leads NodeId.queryRoot target ∧
      (data? base.node? target).isSome ∧ ¬ outcome.commit.edited.contains target ∧
      Blank outcome.commit.graph.node? target := by
  let cache := Cache.new .default
  let posts := "1❖[\"posts\"]❖\x7b\"first\":1\x7d"
  let user (members : List (String × Json)) :=
    Json.object [("user", .object (("id", .string "1") :: members))]
  let base : Option Graph := do
    let first ← (cache.write .empty (.query "\x7b user \x7b id \x7d \x7d") (user [])).2.2.toOption
    let second ← (cache.write first.commit.graph
      (.fragment "fragment Posts on Posts \x7b total \x7d" posts)
      (.object [("total", .number (.int 2))])).2.2.toOption
    return second.commit.graph
  let request := Request.query
    "\x7b user \x7b id posts(first: 1) \x7b total @skip(if: true) \x7d \x7d \x7d"
  let merges (entry : Registered) := [(entry, user [("posts", .object [])])]
  have test : base.any fun base => (cache.prepare request).2.toOption.any fun entry =>
      ((Batch.ofGraph base).mergeAll cache (merges entry)).toOption.any fun batch =>
        (batch.commit cache).toOption.any fun outcome =>
          base.verify.toBool && outcome.commit.graph.verify.toBool &&
          decide (outcome.commit.Shares base NodeId.queryRoot ∧
            ⟨"1", [.key "user"]⟩ ∈
              Nodes.links outcome.commit.graph.node? .outbound NodeId.queryRoot ∧
            ⟨posts, [.key "posts"]⟩ ∈ Nodes.links outcome.commit.graph.node? .outbound "1" ∧
            (data? base.node? posts).isSome ∧
            (data? outcome.commit.graph.node? posts).isNone) := by
    decide +kernel
  obtain ⟨base, -, test⟩ := (Option.any_eq_true _ _).mp test
  obtain ⟨entry, -, test⟩ := (Option.any_eq_true _ _).mp test
  obtain ⟨batch, merged, test⟩ := (Option.any_eq_true _ _).mp test
  obtain ⟨outcome, committed, test⟩ := (Option.any_eq_true _ _).mp test
  rw [Bool.and_eq_true, Bool.and_eq_true] at test
  obtain ⟨⟨before, verified⟩, test⟩ := test
  obtain ⟨shared, user, posts, some, none⟩ := of_decide_eq_true test
  have merged := eq_ok_of_toOption merged
  have committed := eq_ok_of_toOption committed
  have verified := eq_ok_of_toBool verified
  have leads := (Graph.Leads.here.on user).on posts
  obtain ⟨unedited, kept⟩ :=
    Batch.unchanged_below_shared merged committed verified shared leads
  refine ⟨cache, base, merges entry, batch, outcome, _, eq_ok_of_toBool before, merged, committed,
    verified, shared, leads, some, unedited, kept.resolve_left fun same => ?_⟩
  rw [← same, Option.isSome_iff_ne_none, ne_eq] at some
  exact some (Option.isNone_iff_eq_none.mp none)

end ResponseGraph
