import ResponseGraph.Proofs.Draft.Twin
import ResponseGraph.Proofs.Payload.Parallel

/-!
Merges into twin drafts.

A walk reads its draft only through the current nodes.  So the same payload is merged into
twin drafts alike: with the same error, or with the same warnings into drafts that are
twins again (`Draft.Twin.merge`).
-/

namespace ResponseGraph
namespace Walk

/-- Walks that differ in nothing but what their drafts were edited before. -/
structure Twin (earlier : NameSet) (a b : Walk) : Prop where
  draft : a.draft.Twin earlier b.draft
  changes : a.changes = b.changes
  warnings : a.warnings = b.warnings
  visited : a.visited = b.visited

namespace Twin

variable {earlier : NameSet} {a b : Walk}

theorem parallel (earlier : NameSet) : Parallel (Twin earlier) where
  stored?_eq h place := by
    unfold Walk.stored? Draft.get?
    rw [h.draft.nodes]
  write h place value := ⟨h.draft.set _ _ _, h.changes, h.warnings, h.visited⟩
  relink h place next := ⟨h.draft, congrArg (· ++ _) h.changes, h.warnings, h.visited⟩
  detachBelow h place first? := by
    refine ⟨h.draft, ?_, h.warnings, h.visited⟩
    unfold Walk.detachBelow
    dsimp only
    rw [h.draft.nodes, h.changes]
  parameterized h place arguments := by
    unfold Walk.parameterized
    split
    · exact .error _
    · next id _ =>
      dsimp only
      rw [h.draft.nodes]
      split
      · exact .ok ⟨h, rfl⟩
      · refine .ok ⟨⟨?_, h.changes, h.warnings, h.visited⟩, rfl⟩
        exact (h.draft.put id _).update place.container fun container =>
          container.addLink .outbound ⟨id, place.path⟩

theorem member (h : Twin earlier a b) (place : Place) (name : String)
    (members : List (String × Json)) :
    Along (Twin earlier) (a.member place name members) (b.member place name members) := by
  unfold Walk.member
  split
  · exact ⟨h, rfl⟩
  · exact ⟨⟨h.draft, h.changes, congrArg (· ++ _) h.warnings, h.visited⟩, rfl⟩

theorem visit (h : Twin earlier a b) (place : Place) (set : Nat) (id : NodeId) :
    Along (Twin earlier) (a.visit place set id) (b.visit place set id) := by
  unfold Walk.visit
  rw [h.visited]
  split
  · exact ⟨h, rfl⟩
  · exact ⟨⟨h.draft, h.changes, h.warnings, rfl⟩, rfl⟩

theorem object (h : Twin earlier a b) (identify : Json → Option NodeId) (set : Nat) (place : Place)
    (previous : Option Value) (members : List (String × Json)) :
    Paired (Along (Twin earlier)) (a.object identify set place previous members)
      (b.object identify set place previous members) := by
  cases named : identify (.object members) with
  | none =>
    rw [object_of_unnamed named, object_of_unnamed named]
    split
    · exact .error _
    · exact .ok ⟨h, rfl⟩
  | some id =>
    rw [object_of_named named, object_of_named named]
    exact ((parallel earlier).refer h place previous members id).map fun _ _ h =>
      h.visit place set id

/-- A descent that takes twins to twins. -/
def Descends (earlier : NameSet) (descend : Descent) : Prop :=
  ∀ (place : Place) (members : List (String × Json)) {a b : Walk}, Twin earlier a b →
    Paired (Twin earlier) (descend place members a) (descend place members b)

mutual
theorem value {descend : Descent} (descends : Descends earlier descend)
    (identify : Json → Option NodeId) (set : Nat) : (payload : Json) → (place : Place) →
    {a b : Walk} → Twin earlier a b →
    Paired (Twin earlier) (Walk.value identify set descend place payload a)
      (Walk.value identify set descend place payload b)
  | .null, place, a, b, h => (parallel earlier).value_null h place
  | .bool _, _, _, _, _ | .number _, _, _, _, _ | .string _, _, _, _, _ => .error _
  | .object members, place, a, b, h => by
    rw [Walk.value, Walk.value, (parallel earlier).stored?_eq h]
    split
    · exact .error _
    · refine (h.object identify set place _ members).bind fun (a, below?) (b, below) given => ?_
      obtain ⟨twin, same⟩ := given
      dsimp only at same ⊢
      rw [same]
      split
      · exact descends _ members twin
      · exact .ok twin
  | .array payloads, place, a, b, h => by
    rw [Walk.value, Walk.value, (parallel earlier).stored?_eq h]
    split
    · exact .error _
    · exact items descends identify set payloads place 0
        ((parallel earlier).fit h place _ payloads.length)

theorem items {descend : Descent} (descends : Descends earlier descend)
    (identify : Json → Option NodeId) (set : Nat) : (payloads : List Json) → (place : Place) →
    (index : Nat) → {a b : Walk} → Twin earlier a b →
    Paired (Twin earlier) (Walk.items identify set descend place index payloads a)
      (Walk.items identify set descend place index payloads b)
  | [], _, _, _, _, h => .ok h
  | payload :: rest, place, index, _, _, h => by
    rw [Walk.items, Walk.items]
    exact (value descends identify set payload _ h).bind fun _ _ h =>
      items descends identify set rest place (index + 1) h
end

end Twin
end Walk

mutual
theorem Field.merge_twin {earlier : NameSet} (identify : Json → Option NodeId) : (field : Field) →
    (place : Place) → (payload : Json) → {a b : Walk} → a.Twin earlier b →
    Paired (Walk.Twin earlier) (field.merge identify place payload a)
      (field.merge identify place payload b)
  | .leaf _ _, place, payload, _, _, h => .ok ((Walk.Twin.parallel earlier).leaf h place payload)
  | .composite _ _ _ set fields, place, payload, _, _, h => by
    have descends : Walk.Twin.Descends earlier fun below members walk =>
        Fields.merge identify below members fields walk :=
      fun below members _ _ h => Fields.merge_twin identify fields below members h
    exact Walk.Twin.value descends identify set payload place h

theorem Fields.merge_twin {earlier : NameSet} (identify : Json → Option NodeId) :
    (fields : Fields) → (place : Place) → (members : List (String × Json)) → {a b : Walk} →
    a.Twin earlier b →
    Paired (Walk.Twin earlier) (Fields.merge identify place members fields a)
      (Fields.merge identify place members fields b)
  | [], _, _, _, _, h => .ok h
  | (name, field) :: rest, place, members, a, b, h => by
    rw [Fields.merge, Fields.merge]
    split
    · exact Fields.merge_twin identify rest place members h
    · obtain ⟨twin, same⟩ := h.member place name members
      dsimp only
      rw [same]
      refine ((Walk.Twin.parallel earlier).field twin place name field.head).bind
        fun (a, here) (b, there) given => ?_
      obtain ⟨twin, same⟩ := given
      dsimp only at same ⊢
      rw [same]
      exact (Field.merge_twin identify field there _ twin).bind fun _ _ h =>
        Fields.merge_twin identify rest place members h
end

namespace Draft

/-- A payload is merged into twins alike, and no orphans are left. -/
theorem Twin.merge {earlier : NameSet} {a b : Draft} (h : Twin earlier a b)
    (identify : Json → Option NodeId) (root : NodeId) (fields : Fields) (payload : Json) :
    Paired (fun x y => x.1.Twin earlier y.1 ∧ x.1.orphans = Table.empty ∧ x.2 = y.2)
      (a.merge identify root fields payload) (b.merge identify root fields payload) := by
  unfold Draft.merge
  split
  · next members =>
    have start : (Walk.ofDraft a).Twin earlier (.ofDraft b) := ⟨h, rfl, rfl, rfl⟩
    refine (Fields.merge_twin identify fields (.root root) members start).bind fun a b h => ?_
    refine .ok ⟨?_, orphans_collectOrphans _, h.warnings⟩
    unfold Walk.finish
    rw [h.changes]
    exact (h.draft.applyAll b.changes).collectOrphans
  · exact .error _

end Draft
end ResponseGraph
