import ResponseGraph.Proofs.Field.Prepared
import ResponseGraph.Proofs.Graph.History
import ResponseGraph.Proofs.Payload.Normal

/-!
Normal forms of payloads.

With the default identity function nothing of a payload matters but its normal form, whatever was
merged before.
-/

namespace ResponseGraph

/-- The normal form of a payload under the selection of an operation. -/
def Operation.normal (operation : Operation) (payload : Json) : Json :=
  payload.cut operation.selection.fields.normal

namespace Batch

variable {cache : Cache} {request : Request} {entry : Registered}

/-- A payload and its normal form are merged alike: both fail, with errors that differ in nothing
but the payload that they show, or both succeed, and the drafts and all that a commit makes of them
are the same.  The normal form gives no warning. -/
theorem normal_merges_alike (batch : Batch) (members : List (String × Json))
    (grown : cache.registry.Grown) (prepared : (cache.prepare request).2 = .ok entry)
    (byId : cache.identity = Identity.byId) :
    (∃ e e', batch.merge cache entry (.object members) = .error e ∧
        batch.merge cache entry (entry.operation.normal (.object members)) = .error e' ∧
        e.Alike e' ∧ e.message = e'.message) ∨
      ∃ merged merged' warnings,
        batch.merge cache entry (.object members) = .ok (merged, warnings) ∧
        batch.merge cache entry (entry.operation.normal (.object members)) = .ok (merged', []) ∧
        merged'.draft = merged.draft ∧ merged'.written = merged.written ∧
        (merged'.commit cache).map Outcome.commit = (merged.commit cache).map Outcome.commit := by
  obtain ⟨labels, known⟩ := grown.known prepared
  have abreast := Fields.merge_normal [] entry.operation.selection.fields
    known.proper.known (.root entry.operation.root) members
    (entry.operation.selection.fields.normal members) (.ofDraft batch.draft)
    fun _ _ selected included => Fields.get?_normal known.proper.names selected included
  have start : (Walk.ofDraft batch.draft).warned [] = .ofDraft batch.draft := rfl
  have normal : entry.operation.normal (.object members) =
      .object (entry.operation.selection.fields.normal members) := rfl
  rw [start] at abreast
  unfold Batch.merge Draft.merge
  rw [normal, byId]
  dsimp only
  generalize Fields.merge _ _ members _ _ = first,
    Fields.merge _ _ (entry.operation.selection.fields.normal members) _ _ = second at abreast ⊢
  cases abreast with
  | error alike => exact Or.inl ⟨_, _, rfl, rfl, alike, alike.message⟩
  | ok walk =>
    refine Or.inr ⟨_, _, _, rfl, rfl, rfl, rfl, ?_⟩
    unfold Batch.commit
    dsimp only
    rw [show (walk.warned []).finish = walk.finish from rfl]
    cases walk.finish.commit cache.transform cache.config.freezeSnapshots <;> rfl

/-- The name of a user is missing, and two members are not selected. -/
theorem normal_merges_alike_of_user :
    ∃ (cache : Cache) (entry : Registered) (payload : Json) (merged merged' : Batch)
      (warnings : List String),
      (entry.operation.normal payload).text =
        "\x7b\"user\":\x7b\"id\":\"1\",\"name\":null\x7d\x7d" ∧
      (Batch.ofGraph .empty).merge cache entry payload = .ok (merged, warnings) ∧
      warnings = ["Encountered undefined at user.name. Treating as null"] ∧
      (Batch.ofGraph .empty).merge cache entry (entry.operation.normal payload) =
        .ok (merged', []) ∧
      merged'.draft = merged.draft := by
  let cache := Cache.new .default
  let request := Request.query "\x7b user \x7b id name \x7d \x7d"
  let members := [("more", Json.bool true),
    ("user", .object [("age", .null), ("id", .string "1")])]
  let text := "\x7b\"user\":\x7b\"id\":\"1\",\"name\":null\x7d\x7d"
  let warns (entry : Registered) := decide
    ((((Batch.ofGraph .empty).merge cache entry (.object members)).toOption.map Prod.snd) =
      some ["Encountered undefined at user.name. Treating as null"])
  have test : (cache.prepare request).2.toOption.any fun entry =>
      decide ((entry.operation.normal (.object members)).text = text) && warns entry := by
    decide +kernel
  obtain ⟨entry, prepared, test⟩ := (Option.any_eq_true _ _).mp test
  obtain ⟨shown, warned⟩ := (Bool.and_eq_true _ _).mp test
  obtain ⟨⟨first, warnings⟩, done, e⟩ := Option.map_eq_some_iff.mp (of_decide_eq_true warned)
  have first_merge := eq_ok_of_toOption done
  have normal := normal_merges_alike (.ofGraph .empty) members Registry.Grown.empty
    (eq_ok_of_toOption prepared) (rfl : cache.identity = Identity.byId)
  rcases normal with ⟨_, _, fails, -⟩ | ⟨merged, merged', found, same, normal, draft, -⟩
  · rw [fails] at first_merge
    cases first_merge
  · rw [same] at first_merge
    cases first_merge
    exact ⟨cache, entry, .object members, first, merged', warnings, of_decide_eq_true shown, same,
      e, normal, draft⟩

end Batch
end ResponseGraph
