import ResponseGraph.Proofs.Graph.Reordered
import ResponseGraph.Proofs.Payload.Positions

/-!
Writes that fail.

The checks of a merge are made against data that the same merge is rewriting.  If the payload says
one thing about each place, they come out as if all of them were made against the graph before the
write: a merge fails exactly if some position clashes with what the graph has there.
-/

namespace ResponseGraph

open Nodes NodeId

/-- What a graph has at a site. -/
def Graph.stored? (graph : Graph) (site : Site) : Option Value :=
  (graph.node? site.container).bind fun node => node.get? site.path

namespace Registered

variable {entry : Registered} {cache : Cache} {graph : Graph} {payload : Json}

/-- The positions of a payload where the selection of an operation goes on. -/
def positions (entry : Registered) (cache : Cache) : Json → List (Site × Json)
  | .object members =>
    Fields.positions cache.identity.nonempty (.root entry.operation.root) members
      entry.operation.selection.fields
  | _ => []

/-- A payload that is coherent and suits a graph is consistent. -/
theorem CoherentQuery.consistent (coherent : entry.CoherentQuery cache graph payload)
    (suited : Suited graph.node? (entry.visits cache payload)) :
    Visit.Consistent (entry.visits cache payload) := by
  intro site first second one two
  refine (coherent.coherent site first second one two).resolve_right ?_
  rintro ⟨rfl, -⟩
  exact suited site .misfit one

end Registered

namespace Graph

variable {graph : Graph} {cache : Cache} {entry : Registered} {members : List (String × Json)}

/-- A coherent object is merged exactly if it suits the graph. -/
theorem Tidy.merges_iff (tidy : graph.Tidy) (kept : graph.Kept)
    (coherent : entry.CoherentQuery cache graph (.object members)) :
    (∃ batch warnings, (Batch.ofGraph graph).merge cache entry (.object members) =
        .ok (batch, warnings)) ↔
      Suited graph.node? (entry.visits cache (.object members)) := by
  obtain ⟨labels, known⟩ := coherent.labelled
  have ready := tidy.ready kept coherent.query
  have clean := coherent.clean kept.sound tidy.queried.faithful.rooted
  constructor
  · rintro ⟨batch, warnings, merged⟩
    exact (ready.suited coherent.coherent clean known.proper.known (Batch.draft_merge merged)).2
  · intro suited
    obtain ⟨settled, warnings, merged, -⟩ := ready.merges
      (clean (coherent.consistent suited)) suited
      (Visit.unrepeated_ofPayload coherent.unrepeated) known.proper.known
    obtain ⟨batch, done, -⟩ := Batch.merge_eq_ok merged
    exact ⟨batch, warnings, done⟩

/-- The merge of a coherent object into a graph that comes of coherent queries fails exactly if
some position clashes with what the graph has there. -/
theorem ReachedBy.merge_fails_iff_clashes (h : ReachedBy Registered.CoherentQuery graph)
    (coherent : entry.CoherentQuery cache graph (.object members)) :
    (∃ e, (Batch.ofGraph graph).merge cache entry (.object members) = .error e) ↔
      ∃ site payload, (site, payload) ∈ entry.positions cache (.object members) ∧
        payload.clashes cache.identity.nonempty (graph.stored? site) := by
  obtain ⟨tidy, kept⟩ := h.tidy_of_coherent
  have whole : Whole entry.operation.root := coherent.query ▸ whole_queryRoot
  have suited := Visit.suited_iff tidy.queried.faithful.rooted whole coherent.named
    coherent.coherent
  have merges := tidy.merges_iff kept coherent
  constructor
  · rintro ⟨e, fails⟩
    by_contra none
    have fine : Suited graph.node? (entry.visits cache (.object members)) := by
      refine suited.mpr fun site payload member => Bool.eq_false_iff.mpr fun clash => none ?_
      exact ⟨site, payload, member, clash⟩
    obtain ⟨batch, warnings, merged⟩ := merges.mpr fine
    rw [fails] at merged
    cases merged
  · rintro ⟨site, payload, member, clash⟩
    cases outcome : (Batch.ofGraph graph).merge cache entry (.object members) with
    | error e => exact ⟨e, rfl⟩
    | ok result =>
      have fine := suited.mp (merges.mp ⟨result.1, result.2, outcome⟩) site payload member
      exact absurd clash (Bool.eq_false_iff.mp fine)

/-- Where a list of users is stored, another list is merged, whose second user is new.  An object
is not, with or without an id. -/
theorem ReachedBy.merge_fails_iff_clashes_with_users :
    ∃ (cache : Cache) (graph : Graph) (entry : Registered) (payload : Json → Json),
      ReachedBy Registered.CoherentQuery graph ∧
      (∃ e, (Batch.ofGraph graph).merge cache entry (payload (.object [("id", .string "1")])) =
        .error e) ∧
      (∃ e, (Batch.ofGraph graph).merge cache entry (payload (.object [])) = .error e) ∧
      ¬ ∃ e, (Batch.ofGraph graph).merge cache entry
        (payload (.array [.object [("id", .string "1")], .object [("id", .string "2")]])) =
          .error e := by
  let cache := Cache.new .default
  let request := Request.query "\x7b users \x7b id \x7d \x7d"
  let user (id : String) := Json.object [("id", .string id)]
  let payload (users : Json) := Json.object [("users", users)]
  let head : FieldHead := ⟨none, none, [], false⟩
  let below : Fields := [("id", .leaf 2 head)]
  let users := Field.composite 0 head (Fields.traits below) 1 below
  let fields : Fields := [("users", users)]
  let labels : Labels := fun label => match label with
    | 0 => some (.field users)
    | 1 => some (.set below)
    | 2 => some (.field (.leaf 2 head))
    | _ => some (.set fields)
  let entry : Registered := ⟨0, request.key, queryRoot,
    ⟨.query, none, ⟨3, fields⟩, [], Table.empty, 4⟩, ⟨3, fields⟩, Table.empty⟩
  let clashes (graph : Graph) (payload : Json) := (entry.positions cache payload).any
    fun position => position.2.clashes cache.identity.nonempty (graph.stored? position.1)
  let named := payload (user "1")
  let plain := payload (.object [])
  let list := payload (.array [user "1", user "2"])
  let fits (graph : Graph) :=
    (decide (entry.TidyQuery cache graph named) && clashes graph named) &&
      (decide (entry.TidyQuery cache graph plain) && clashes graph plain) &&
      (decide (entry.TidyQuery cache graph list) && !clashes graph list)
  have test : cache.test request (payload (.array [user "1"]))
      (fun entry => decide (entry.TidyQuery cache .empty (payload (.array [user "1"])))) fits
      .empty := by
    decide +kernel
  obtain ⟨first, reply, prepared, clean, written, test⟩ := Cache.exists_of_test test
  have known : entry.operation.Labelled := ⟨labels, rfl, by decide +kernel,
    ⟨rfl, rfl, rfl, List.nodup_singleton _, rfl, trivial⟩, trivial⟩
  have reached := ReachedBy.write .empty prepared
    ((of_decide_eq_true clean).coherent (Registry.Grown.empty.known prepared)) written
  -- What the test says of a payload is what the theorem asks for.
  have fails {members : List (String × Json)}
      (tidy : decide (entry.TidyQuery cache reply.commit.graph (.object members)) = true) :=
    reached.merge_fails_iff_clashes ((of_decide_eq_true tidy).coherent known)
  have found {members : List (String × Json)}
      (clash : clashes reply.commit.graph (.object members) = true) :
      ∃ site payload, (site, payload) ∈ entry.positions cache (.object members) ∧
        payload.clashes cache.identity.nonempty (reply.commit.graph.stored? site) := by
    obtain ⟨⟨site, payload⟩, member, clash⟩ := List.any_eq_true.mp clash
    exact ⟨site, payload, member, clash⟩
  simp only [fits, Bool.and_eq_true, Bool.not_eq_true'] at test
  obtain ⟨⟨⟨tidy, clash⟩, tidy', clash'⟩, tidy'', none⟩ := test
  refine ⟨cache, reply.commit.graph, entry, payload, reached, (fails tidy).mpr (found clash),
    (fails tidy').mpr (found clash'), fun failed => ?_⟩
  obtain ⟨site, payload, member, clash⟩ := (fails tidy'').mp failed
  exact absurd clash (List.any_eq_false.mp none (site, payload) member)

end Graph
end ResponseGraph
