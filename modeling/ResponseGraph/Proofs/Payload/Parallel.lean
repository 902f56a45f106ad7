import ResponseGraph.Proofs.Payload.Trace

/-!
Parallel walks.

At a place a walk looks at what is stored there, it writes, and it finds what is to be relinked
or detached.  For a field with arguments it makes a node.  All else that it does at one place is
made of these.  So if they keep a relation of walks (`Walk.Parallel`), then whatever happens at one
place keeps it, and related walks fail in the same way.
-/

namespace ResponseGraph
namespace Walk

/-- Walks that are related, with the same to go on with. -/
def Along {α : Type} (related : Walk → Walk → Prop) (a b : Walk × α) : Prop :=
  related a.1 b.1 ∧ a.2 = b.2

/-- Related walks find the same at every place, and are related after each thing that they do. -/
structure Parallel (related : Walk → Walk → Prop) : Prop where
  stored?_eq : ∀ {a b : Walk}, related a b → ∀ place, a.stored? place = b.stored? place
  write : ∀ {a b : Walk}, related a b → ∀ place value,
    related (a.write place value) (b.write place value)
  relink : ∀ {a b : Walk}, related a b → ∀ place next,
    related (a.relink place next) (b.relink place next)
  detachBelow : ∀ {a b : Walk}, related a b → ∀ place first?,
    related (a.detachBelow place first?) (b.detachBelow place first?)
  parameterized : ∀ {a b : Walk}, related a b → ∀ place arguments,
    Paired (Along related) (a.parameterized place arguments) (b.parameterized place arguments)

namespace Parallel

variable {related : Walk → Walk → Prop} {a b : Walk} {identify : Json → Option NodeId} {set : Nat}
  {descend descend' : Descent}

theorem field (parallel : Parallel related) (h : related a b) (place : Place) (name : String)
    (head : FieldHead) :
    Paired (Along related) (a.field place name head) (b.field place name head) := by
  unfold Walk.field
  dsimp only
  split
  · exact .ok ⟨h, rfl⟩
  · exact parallel.parameterized h _ _

theorem leaf (parallel : Parallel related) (h : related a b) (place : Place) (payload : Json) :
    related (a.leaf place payload) (b.leaf place payload) := by
  unfold Walk.leaf
  rw [parallel.stored?_eq h]
  split
  · exact h
  · exact parallel.write h _ _

theorem clear (parallel : Parallel related) (h : related a b) (place : Place) :
    related (a.clear place) (b.clear place) :=
  parallel.write (parallel.detachBelow h place none) place .null

theorem null (parallel : Parallel related) (h : related a b) (place : Place)
    (previous : Option Value) :
    Paired related (a.null identify place previous) (b.null identify place previous) := by
  unfold Walk.null
  split
  · exact .ok (parallel.relink h _ _)
  · split
    · exact .ok (parallel.clear h _)
    · split
      · exact .ok (parallel.write h _ _)
      · exact .ok h
  · split
    · exact .ok (parallel.clear h _)
    · exact .error _
  · split
    · exact .error _
    · exact .error _

theorem value_null (parallel : Parallel related) (h : related a b) (place : Place) :
    Paired related (value identify set descend place .null a)
      (value identify set descend' place .null b) := by
  rw [value, value, parallel.stored?_eq h]
  split
  · exact .ok (parallel.clear h place)
  · exact parallel.null h place _

theorem refer (parallel : Parallel related) (h : related a b) (place : Place)
    (previous : Option Value) (members : List (String × Json)) (id : NodeId) :
    Paired related (a.refer place previous members id) (b.refer place previous members id) := by
  unfold Walk.refer
  split
  · split
    · exact .error _
    · exact .ok (parallel.relink h _ _)
  · split
    · exact .ok h
    · exact .ok (parallel.relink h _ _)

theorem fit (parallel : Parallel related) (h : related a b) (place : Place)
    (previous : Option (List Value)) (length : Nat) :
    related (a.fit place previous length) (b.fit place previous length) := by
  unfold Walk.fit
  split
  · exact parallel.write h _ _
  · dsimp only
    split
    · exact h
    · split
      · exact parallel.detachBelow (parallel.write h _ _) _ _
      · exact parallel.write h _ _

end Parallel
end Walk
end ResponseGraph
