import ResponseGraph.Proofs.Draft.Repeated
import ResponseGraph.Proofs.Payload.Linked
import ResponseGraph.Proofs.Payload.Parallel

/-!
Merging without skipping.

A merge skips the members of an entity that it has met with the same fields.
`Fields.mergeAfresh` goes into them every time: it is the same recursion, with a walk that forgets
what it has met whenever it goes into an object.

Where a merge skips, a walk that goes on comes to positions that say again what is already stored.
It writes nothing there, and what it finds to be changed was found before.  So it follows the walk
that skips, with the same draft and with changes that repeat those of the other
(`Walk.Follows`).
-/

namespace ResponseGraph

open Nodes NodeId

/-- The walk as if no entity had been merged. -/
def Walk.forget (walk : Walk) : Walk := { walk with visited := [] }

mutual
def Field.mergeAfresh (identify : Json → Option NodeId) (place : Place) (payload : Json) :
    Field → Walk → Except Error Walk
  | .leaf _ _, walk => .ok (walk.leaf place payload)
  | .composite _ _ _ set fields, walk =>
    Walk.value identify set
      (fun below members walk => Fields.mergeAfresh identify below members fields walk.forget)
      place payload walk
termination_by structural field => field

def Fields.mergeAfresh (identify : Json → Option NodeId) (place : Place)
    (members : List (String × Json)) : Fields → Walk → Except Error Walk
  | [], walk => .ok walk
  | (name, field) :: rest, walk =>
    if field.head.excluded then Fields.mergeAfresh identify place members rest walk
    else do
      let (walk, payload) := walk.member place name members
      let (walk, here) ← walk.field place name field.head
      let walk ← Field.mergeAfresh identify here payload field walk
      Fields.mergeAfresh identify place members rest walk
termination_by structural fields => fields
end

/-- Merges a payload rooted at a node, and goes into every object that it meets. -/
def Draft.mergeAfresh (identify : Json → Option NodeId) (root : NodeId) (fields : Fields)
    (payload : Json) (draft : Draft) : Except Error (Draft × List String) :=
  match payload with
  | .object members => do
    let walk ← Fields.mergeAfresh identify (.root root) members fields (.ofDraft draft)
    return (walk.finish, walk.warnings)
  | _ => .error ((Place.root root).misfit "Expected the operation payload to be an object" payload)

namespace Walk

variable {identify : Json → Option NodeId} {walk : Walk} {place : Place} {set : Nat} {id : NodeId}
  {descend : Descent}

/-! ## Nothing is skipped -/

/-- An entity that has not been met is not skipped. -/
theorem visit_of_unvisited (unvisited : walk.visited = []) :
    walk.visit place set id = (walk.mark id set, some (place.enter id)) := by
  have unmet : ¬ walk.visited.contains (id, set) := by
    rw [unvisited]
    exact Bool.false_ne_true
  exact if_neg unmet

/-- A descent that starts with nothing marked leaves nothing marked. -/
def LeavesUnmarked (descend : Descent) : Prop :=
  ∀ (place : Place) (members : List (String × Json)) (walk walk' : Walk),
    walk.visited = [] → descend place members walk = .ok walk' → walk'.visited = []

mutual
theorem value_unvisited (below : LeavesUnmarked descend) : (payload : Json) → {place : Place} →
    {walk walk' : Walk} → walk.visited = [] →
    value identify set (fun below members walk => descend below members walk.forget) place payload
      walk = .ok walk' → walk'.visited = []
  | .null, place, walk, walk', unvisited, h => (brings_of_null h).visited.trans unvisited
  | .bool _, _, _, _, _, h | .number _, _, _, _, _, h | .string _, _, _, _, _, h => by
    rw [value] at h
    · cases h
    all_goals simp
  | .object members, place, walk, walk', unvisited, h => by
    rcases brings_of_object h with ⟨-, -, inside⟩ |
      ⟨id, middle, entering, below?, -, brings, visit, inside⟩
    · exact below _ _ _ _ rfl inside
    · rw [visit_of_unvisited (brings.visited.trans unvisited)] at visit
      cases visit
      exact below _ _ _ _ rfl inside
  | .array payloads, place, walk, walk', unvisited, h => by
    obtain ⟨middle, brings, h⟩ := brings_of_array h
    exact items_unvisited below payloads (brings.visited.trans unvisited) h

theorem items_unvisited (below : LeavesUnmarked descend) : (payloads : List Json) →
    {place : Place} → {index : Nat} → {walk walk' : Walk} → walk.visited = [] →
    items identify set (fun below members walk => descend below members walk.forget) place index
      payloads walk = .ok walk' → walk'.visited = []
  | [], _, _, walk, walk', unvisited, h => by
    cases h
    exact unvisited
  | payload :: rest, place, index, walk, walk', unvisited, h => by
    rw [items] at h
    obtain ⟨middle, first, h⟩ := exists_of_bind_eq_ok h
    exact items_unvisited below rest (value_unvisited below payload unvisited first) h
end

end Walk

mutual
theorem Field.mergeAfresh_unvisited {identify : Json → Option NodeId} : (field : Field) →
    {place : Place} → {payload : Json} → {walk walk' : Walk} → walk.visited = [] →
    field.mergeAfresh identify place payload walk = .ok walk' → walk'.visited = []
  | .leaf _ _, place, payload, walk, walk', unvisited, h => by
    cases h
    have brings : Walk.Brings identify walk place (.leaf payload) _ := .leaf payload
    exact brings.visited.trans unvisited
  | .composite _ _ _ _ fields, place, payload, walk, walk', unvisited, h => by
    have below : Walk.LeavesUnmarked
        fun below members walk => Fields.mergeAfresh identify below members fields walk :=
      fun _ _ _ _ unvisited h => Fields.mergeAfresh_unvisited fields unvisited h
    exact Walk.value_unvisited below payload unvisited h

/-- Wherever the merge comes to an entity nothing is marked, so it goes into every entity
(`Walk.visit_of_unvisited`). -/
theorem Fields.mergeAfresh_unvisited {identify : Json → Option NodeId} : (fields : Fields) →
    {place : Place} → {members : List (String × Json)} → {walk walk' : Walk} →
    walk.visited = [] → Fields.mergeAfresh identify place members fields walk = .ok walk' →
    walk'.visited = []
  | [], _, _, _, _, unvisited, h => by
    cases h
    exact unvisited
  | (name, field) :: rest, place, members, walk, walk', unvisited, h => by
    rw [Fields.mergeAfresh] at h
    split at h
    · exact Fields.mergeAfresh_unvisited rest unvisited h
    · obtain ⟨warnings, selected⟩ := walk.member_eq place name members
      rw [selected] at h
      obtain ⟨⟨grown, here⟩, located, h⟩ := exists_of_bind_eq_ok h
      obtain ⟨middle, first, h⟩ := exists_of_bind_eq_ok h
      have made : grown.visited = [] := (Walk.field_visited located).trans unvisited
      exact Fields.mergeAfresh_unvisited rest
        (Field.mergeAfresh_unvisited field made first) h
end

namespace Walk

variable {identify : Json → Option NodeId} {walk more : Walk} {place : Place}

/-! ## Following -/

/-- A walk that goes into every object follows one that skips some. -/
structure Follows (walk more : Walk) : Prop where
  draft : more.draft = walk.draft
  repeats : LinkChange.Repeats walk.changes more.changes
  unvisited : more.visited = []

namespace Follows

theorem stored?_eq (h : Follows walk more) (place : Place) :
    more.stored? place = walk.stored? place := by
  unfold stored?
  rw [h.draft]

/-- What was found before is found again. -/
theorem again (h : Follows walk more) {next : Option NodeId}
    (found : .relink place.container place.path next ∈ walk.changes) :
    Follows walk (more.relink place next) :=
  ⟨h.draft, h.repeats.again found, h.unvisited⟩

/-- The one walk goes into an entity, and so does the other, which forgets it. -/
theorem mark (h : Follows walk more) (id : NodeId) (set : Nat) :
    Follows (walk.mark id set) (more.mark id set).forget := ⟨h.draft, h.repeats, rfl⟩

theorem forget (h : Follows walk more) : Follows walk more.forget := ⟨h.draft, h.repeats, rfl⟩

theorem warned (h : Follows walk more) (warnings warnings' : List String) :
    Follows { walk with warnings } { more with warnings := warnings' } :=
  ⟨h.draft, h.repeats, h.unvisited⟩

theorem parallel : Parallel Follows where
  stored?_eq h place := (h.stored?_eq place).symm
  write h place value :=
    ⟨congrArg (fun draft => draft.set place.container place.path value) h.draft, h.repeats,
      h.unvisited⟩
  relink h place next := ⟨h.draft, h.repeats.append _, h.unvisited⟩
  detachBelow h place first? := by
    refine ⟨h.draft, ?_, h.unvisited⟩
    unfold Walk.detachBelow
    rw [h.draft]
    exact h.repeats.append _
  parameterized h place arguments := by
    unfold Walk.parameterized
    rw [h.draft]
    split
    · exact .error _
    · dsimp only
      split
      · exact .ok ⟨h, rfl⟩
      · exact .ok ⟨⟨rfl, h.repeats, h.unvisited⟩, rfl⟩

end Follows
end Walk
end ResponseGraph
