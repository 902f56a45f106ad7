import ResponseGraph.Proofs.Field.Alternatives
import ResponseGraph.Proofs.Field.Shapes

/-!
What shapes say, path by path.

The outline of a shape gives the head at each path below it.  Merging shapes joins their outlines,
and it fails exactly if two heads at one path disagree (`Merges`): so whatever holds of joining
heads holds of merging shapes.
-/

namespace ResponseGraph

/-! ## Heads -/

namespace FieldHead

variable {a b c d : FieldHead} {path : List String}

theorem sameArguments_comm (a b : FieldHead) : a.sameArguments b = b.sameArguments a := by
  unfold sameArguments
  cases a.arguments <;> cases b.arguments
  · rfl
  · rfl
  · rfl
  · exact Argument.sameMembers_comm _ _

theorem sameArguments_trans (first : a.sameArguments b) (second : b.sameArguments c) :
    a.sameArguments c := by
  unfold sameArguments at *
  generalize a.arguments = x at first ⊢
  generalize b.arguments = y at first second
  generalize c.arguments = z at second ⊢
  match x, y, z with
  | none, none, none => rfl
  | some x, some y, some z => exact Argument.sameMembers_trans x first second
  | none, some _, _ => cases first
  | some _, none, _ => cases first
  | none, none, some _ => cases second
  | some _, some _, none => cases second

/-- Two selections of one response name may be merged. -/
structure Agrees (a b : FieldHead) : Prop where
  arguments : a.sameArguments b
  schemaName : a.schemaName = b.schemaName

namespace Agrees

theorem refl (head : FieldHead) : head.Agrees head := ⟨sameArguments_refl head, rfl⟩

theorem symm (h : a.Agrees b) : b.Agrees a :=
  ⟨by rw [sameArguments_comm]; exact h.arguments, h.schemaName.symm⟩

theorem trans (first : a.Agrees b) (second : b.Agrees c) : a.Agrees c :=
  ⟨sameArguments_trans first.arguments second.arguments, first.schemaName.trans second.schemaName⟩

end Agrees

def join (a b : FieldHead) : FieldHead :=
  { a with guards := Guard.union a.guards b.guards, excluded := false }

/-- A head that may be missing on either side. -/
def join? : Option FieldHead → Option FieldHead → Option FieldHead
  | none, other => other
  | some head, none => some head
  | some head, some other => some (head.join other)

@[simp] theorem none_join? (other : Option FieldHead) : join? none other = other := rfl

@[simp] theorem join?_none (head : Option FieldHead) : join? head none = head := by
  cases head <;> rfl

theorem agrees_join (a b : FieldHead) : a.Agrees (a.join b) := ⟨sameArguments_refl a, rfl⟩

theorem combine_of_agrees (h : a.Agrees b) : a.combine path b = .ok (a.join b) := by
  unfold combine
  rw [h.arguments, h.schemaName]
  simp [join, h.schemaName]

theorem agrees_of_combine {head : FieldHead} (h : a.combine path b = .ok head) : a.Agrees b := by
  unfold combine at h
  split at h
  · cases h
  · next alike =>
    split at h
    · cases h
    · next named => exact ⟨by simpa using alike, by simpa using named⟩

/-- The same but for the order of the guards. -/
structure Alike (a b : FieldHead) : Prop where
  agrees : a.Agrees b
  guards : Guard.Alike a.guards b.guards
  excluded : a.excluded = b.excluded

namespace Alike

theorem refl (head : FieldHead) : head.Alike head := ⟨.refl head, .refl _, rfl⟩

theorem symm (h : a.Alike b) : b.Alike a := ⟨h.agrees.symm, h.guards.symm, h.excluded.symm⟩

theorem trans (first : a.Alike b) (second : b.Alike c) : a.Alike c :=
  ⟨first.agrees.trans second.agrees, first.guards.trans second.guards,
    first.excluded.trans second.excluded⟩

theorem join (first : a.Alike b) (second : c.Alike d) : (a.join c).Alike (b.join d) :=
  ⟨⟨first.agrees.arguments, first.agrees.schemaName⟩, first.guards.union second.guards, rfl⟩

end Alike

theorem rel_refl (head : Option FieldHead) : Option.Rel Alike head head := by
  cases head with
  | none => exact .none
  | some head => exact .some (.refl head)

theorem alike_join_comm (h : a.Agrees b) : (a.join b).Alike (b.join a) :=
  ⟨⟨h.arguments, h.schemaName⟩, Guard.alike_union_comm _ _, rfl⟩

theorem alike_join_right_comm (a b c : FieldHead) :
    ((a.join b).join c).Alike ((a.join c).join b) :=
  ⟨⟨sameArguments_refl a, rfl⟩, Guard.alike_union_right_comm _ _ _, rfl⟩

end FieldHead

/-! ## Outlines -/

abbrev Outline := List String → Option FieldHead

namespace Outline

variable {a b c a' b' : Outline}

/-- Wherever both have a head, the heads agree. -/
def Compatible (a b : Outline) : Prop :=
  ∀ path head other, a path = some head → b path = some other → head.Agrees other

def join (a b : Outline) : Outline := fun path => FieldHead.join? (a path) (b path)

/-- The heads are alike. -/
def Alike (a b : Outline) : Prop := ∀ path, Option.Rel FieldHead.Alike (a path) (b path)

namespace Alike

theorem refl (a : Outline) : Alike a a := fun path => FieldHead.rel_refl (a path)

theorem symm (h : Alike a b) : Alike b a := by
  intro path
  have here := h path
  generalize a path = x at here ⊢
  generalize b path = y at here ⊢
  cases here with
  | none => exact .none
  | some heads => exact .some heads.symm

theorem trans (first : Alike a b) (second : Alike b c) : Alike a c := by
  intro path
  have here := first path
  have there := second path
  generalize a path = x at here ⊢
  generalize b path = y at here there
  generalize c path = z at there ⊢
  cases here with
  | none => exact there
  | some heads =>
    cases there with
    | some heads' => exact .some (heads.trans heads')

/-- What one outline has at a path, the other has as well. -/
theorem exists_of_eq_some (h : Alike a b) {path : List String} {head : FieldHead}
    (found : b path = some head) : ∃ other, a path = some other ∧ other.Alike head := by
  have here := h path
  rw [found] at here
  generalize a path = x at here ⊢
  cases here with
  | some heads => exact ⟨_, rfl, heads⟩

theorem compatible (first : Alike a a') (second : Alike b b') (h : Compatible a b) :
    Compatible a' b' := by
  intro path head other found found'
  obtain ⟨head', here, alike⟩ := first.exists_of_eq_some found
  obtain ⟨other', here', alike'⟩ := second.exists_of_eq_some found'
  exact (alike.agrees.symm.trans (h path head' other' here here')).trans alike'.agrees

theorem join (first : Alike a a') (second : Alike b b') : Alike (a.join b) (a'.join b') := by
  intro path
  have here := first path
  have there := second path
  unfold Outline.join
  generalize a path = x at here ⊢
  generalize a' path = x' at here ⊢
  generalize b path = y at there ⊢
  generalize b' path = y' at there ⊢
  cases here with
  | none => exact there
  | some heads =>
    cases there with
    | none => exact .some heads
    | some heads' => exact .some (heads.join heads')

end Alike

theorem Compatible.symm (h : Compatible a b) : Compatible b a :=
  fun path head other found found' => (h path other head found' found).symm

/-- What is compatible with two outlines is compatible with both joined. -/
theorem Compatible.join_iff (h : Compatible a b) :
    Compatible (a.join b) c ↔ Compatible a c ∧ Compatible b c := by
  unfold Compatible at *
  rw [← forall_and]
  refine forall_congr' fun path => ?_
  have agrees := h path
  unfold join
  generalize a path = x at agrees ⊢
  generalize b path = y at agrees ⊢
  cases x with
  | none => simp
  | some head =>
    cases y with
    | none => simp
    | some other =>
      have first := head.agrees_join other
      have second := (agrees head other rfl rfl).symm.trans first
      constructor
      · intro both
        constructor
        · rintro _ last ⟨⟩ found
          exact first.trans (both _ last rfl found)
        · rintro _ last ⟨⟩ found
          exact second.trans (both _ last rfl found)
      · rintro ⟨left, -⟩ _ last ⟨⟩ found
        exact first.symm.trans (left _ last rfl found)

/-- What can be merged with two outlines joined can be merged with one after the other. -/
theorem compatible_join_right (h : Compatible b c) :
    Compatible a (b.join c) ↔ Compatible a b ∧ Compatible (a.join b) c := by
  constructor
  · intro both
    have apart := h.join_iff.mp both.symm
    exact ⟨apart.1.symm, apart.1.symm.join_iff.mpr ⟨apart.2.symm, h⟩⟩
  · rintro ⟨first, second⟩
    have apart := first.join_iff.mp second
    exact (h.join_iff.mpr ⟨first.symm, apart.1.symm⟩).symm

/-- It does not matter in which order outlines are joined. -/
theorem compatible_right_comm :
    Compatible a b ∧ Compatible (a.join b) c ↔ Compatible a c ∧ Compatible (a.join c) b := by
  constructor
  · intro ⟨first, second⟩
    have both := first.join_iff.mp second
    exact ⟨both.1, both.1.join_iff.mpr ⟨first, both.2.symm⟩⟩
  · intro ⟨first, second⟩
    have both := first.join_iff.mp second
    exact ⟨both.1, both.1.join_iff.mpr ⟨first, both.2.symm⟩⟩

theorem alike_join_right_comm (h : Compatible b c) :
    Alike ((a.join b).join c) ((a.join c).join b) := by
  intro path
  have agrees := h path
  unfold join
  generalize a path = x
  generalize b path = y at agrees ⊢
  generalize c path = z at agrees ⊢
  match x, y, z with
  | x, none, z => simpa using FieldHead.rel_refl _
  | x, some _, none => simpa using FieldHead.rel_refl _
  | none, some head, some other =>
    exact .some (FieldHead.alike_join_comm (agrees head other rfl rfl))
  | some first, some head, some other =>
    exact .some (FieldHead.alike_join_right_comm first head other)

end Outline

/-! ## Outlines of shapes -/

/-- The shapes below a shape, of which a leaf has none. -/
def Shape.inner (shape : Shape) : Shapes := shape.fields?.getD []

/-- The head at a path below a shape. -/
def Shape.at? (shape : Shape) : Outline
  | [] => some shape.head
  | name :: path =>
    match Entries.get? name shape.inner with
    | none => none
    | some below => below.at? path

def Shapes.at? (shapes : Shapes) : Outline
  | [] => none
  | name :: path =>
    match Entries.get? name shapes with
    | none => none
    | some shape => shape.at? path

theorem Shape.inner_of (head : FieldHead) (fields? : Option Shapes) :
    (Shape.of head fields?).inner = fields?.getD [] := by
  cases fields? <;> rfl

theorem Shape.head_of (head : FieldHead) (fields? : Option Shapes) :
    (Shape.of head fields?).head = head := by
  cases fields? <;> rfl

/-- A result is the joined outline, and there is none exactly if heads disagree. -/
inductive Outline.Merges {α : Type} (outline : α → Outline) (a b : Outline) :
    Except DocumentError α → Prop
  | ok {merged : α} (compatible : Compatible a b) (joined : outline merged = a.join b) :
    Merges outline a b (.ok merged)
  | error (conflict : ¬ Compatible a b) (problem : DocumentError) :
    Merges outline a b (.error problem)

namespace Shapes

open Outline

variable {path : List String} {name : String} {shape : Shape} {shapes into rest : Shapes}

theorem at?_nil : Shapes.at? [] = fun _ => none := by
  funext path
  cases path <;> rfl

theorem at?_cons (names : name ∉ rest.map Prod.fst) :
    Shapes.at? ((name, shape) :: rest) = (Shapes.at? [(name, shape)]).join (Shapes.at? rest) := by
  funext path
  cases path with
  | nil => rfl
  | cons other path =>
    unfold join
    simp only [Shapes.at?, Entries.get?_cons, Entries.get?_nil]
    by_cases same : name = other
    · subst same
      simp [Entries.get?_eq_none_iff.mpr names]
    · simp [same]

/-- Outlines of shapes with other names do not meet. -/
theorem at?_apart (names : name ∉ rest.map Prod.fst) (path : List String) :
    Shapes.at? [(name, shape)] path = none ∨ Shapes.at? rest path = none := by
  cases path with
  | nil => exact Or.inl rfl
  | cons other path =>
    simp only [Shapes.at?, Entries.get?_cons, Entries.get?_nil]
    by_cases same : name = other
    · subst same
      exact Or.inr (by rw [Entries.get?_eq_none_iff.mpr names])
    · exact Or.inl (by rw [if_neg same])

theorem at?_put_of_none (absent : Entries.get? name into = none) :
    Shapes.at? (Entries.put name shape into) =
      (Shapes.at? into).join (Shapes.at? [(name, shape)]) := by
  funext path
  cases path with
  | nil => rfl
  | cons other path =>
    unfold join
    simp only [Shapes.at?, Entries.get?_put, Entries.get?_cons, Entries.get?_nil]
    by_cases same : name = other
    · subst same
      simp [absent]
    · simp [same]

theorem at?_put_of_some {existing merged : Shape} (present : Entries.get? name into = some existing)
    (joined : merged.at? = existing.at?.join shape.at?) :
    Shapes.at? (Entries.put name merged into) =
      (Shapes.at? into).join (Shapes.at? [(name, shape)]) := by
  funext path
  cases path with
  | nil => rfl
  | cons other path =>
    unfold join at joined ⊢
    simp only [Shapes.at?, Entries.get?_put, Entries.get?_cons, Entries.get?_nil]
    by_cases same : name = other
    · subst same
      simp [present, joined]
    · simp [same]

theorem compatible_singleton {existing : Shape} (present : Entries.get? name into = some existing) :
    Compatible (Shapes.at? into) (Shapes.at? [(name, shape)]) ↔
      Compatible existing.at? shape.at? := by
  constructor
  · intro both path head other found found'
    refine both (name :: path) head other ?_ ?_
    · rw [Shapes.at?, present]
      exact found
    · rw [Shapes.at?, Entries.get?_cons, if_pos rfl]
      exact found'
  · intro both path head other found found'
    cases path with
    | nil => cases found
    | cons label path =>
      simp only [Shapes.at?, Entries.get?_cons, Entries.get?_nil] at found found'
      by_cases same : name = label
      · subst same
        rw [present] at found
        rw [if_pos rfl] at found'
        exact both path head other found found'
      · rw [if_neg same] at found'
        cases found'

theorem compatible_of_none (absent : Entries.get? name into = none) :
    Compatible (Shapes.at? into) (Shapes.at? [(name, shape)]) := by
  rintro (_ | ⟨label, path⟩) head other found found'
  · cases found
  · simp only [Shapes.at?, Entries.get?_cons, Entries.get?_nil] at found found'
    by_cases same : name = label
    · subst same
      rw [absent] at found
      cases found
    · rw [if_neg same] at found'
      cases found'

end Shapes

namespace Outline

variable {a b : Shape} {merged : Shape}

/-- Shapes are compatible if their heads agree and the shapes below are compatible. -/
theorem compatible_shape : Compatible a.at? b.at? ↔
    a.head.Agrees b.head ∧ Compatible (Shapes.at? a.inner) (Shapes.at? b.inner) := by
  constructor
  · intro both
    refine ⟨both [] a.head b.head rfl rfl, fun path head other found found' => ?_⟩
    cases path with
    | nil => cases found
    | cons name path => exact both (name :: path) head other found found'
  · rintro ⟨heads, below⟩ path head other found found'
    cases path with
    | nil =>
      cases found
      cases found'
      exact heads
    | cons name path => exact below (name :: path) head other found found'

theorem join_shape (head : merged.head = a.head.join b.head)
    (below : Shapes.at? merged.inner = (Shapes.at? a.inner).join (Shapes.at? b.inner)) :
    merged.at? = a.at?.join b.at? := by
  funext path
  cases path with
  | nil => exact congrArg some head
  | cons name path => exact congrFun below (name :: path)

end Outline

/-- Heads that do not agree are a conflict, whatever is to be done with the merged head. -/
theorem Outline.merges_conflict {a b : Shape} (h : ¬ a.head.Agrees b.head) (path : List String)
    (next : FieldHead → Except DocumentError Shape) :
    Merges Shape.at? a.at? b.at? (a.head.combine path b.head >>= next) := by
  cases made : a.head.combine path b.head with
  | error problem => exact .error (fun both => h (compatible_shape.mp both).1) problem
  | ok head => exact absurd (FieldHead.agrees_of_combine made) h

namespace Outline

variable {a b c : Outline}

theorem compatible_nil (a : Outline) : Compatible a (Shapes.at? []) := by
  rw [Shapes.at?_nil]
  rintro path head other - ⟨⟩

theorem join_nil (a : Outline) : a.join (Shapes.at? []) = a := by
  rw [Shapes.at?_nil]
  funext path
  exact FieldHead.join?_none _

theorem join_assoc (apart : ∀ path, b path = none ∨ c path = none) :
    a.join (b.join c) = (a.join b).join c := by
  funext path
  unfold join
  rcases apart path with none | none
  · rw [none, FieldHead.none_join?, FieldHead.join?_none]
  · rw [none, FieldHead.join?_none, FieldHead.join?_none]

theorem compatible_of_apart (apart : ∀ path, b path = none ∨ c path = none) : Compatible b c := by
  intro path head other found found'
  rcases apart path with none | none
  · rw [none] at found
    cases found
  · rw [none] at found'
    cases found'

/-- Something is merged, and then something that is apart from it. -/
theorem Merges.after {α : Type} {outline : α → Outline} {outcome : Except DocumentError α}
    (apart : ∀ path, b path = none ∨ c path = none) (first : Compatible a b)
    (second : Merges outline (a.join b) c outcome) : Merges outline a (b.join c) outcome := by
  have both := @compatible_join_right a b c (compatible_of_apart apart)
  cases second with
  | ok compatible joined =>
    exact .ok (both.mpr ⟨first, compatible⟩) (joined.trans (join_assoc apart).symm)
  | error conflict problem => exact .error (fun all => conflict (both.mp all).2) problem

theorem nil_join (a : Outline) : Outline.join (Shapes.at? []) a = a := by
  rw [Shapes.at?_nil]
  rfl

end Outline

mutual
theorem Shape.merges_combine {path : List String} {existing : Shape} : (incoming : Shape) →
    incoming.Exact →
    Outline.Merges Shape.at? existing.at? incoming.at? (Shape.combine path existing incoming)
  | .leaf head, _ => by
    rw [Shape.combine]
    by_cases agrees : existing.head.Agrees head
    · rw [FieldHead.combine_of_agrees agrees]
      refine .ok (Outline.compatible_shape.mpr ⟨agrees, ?_⟩) (Outline.join_shape ?_ ?_)
      · exact Outline.compatible_nil _
      · exact Shape.head_of ..
      · rw [Shape.inner_of]
        exact (Outline.join_nil _).symm
    · exact Outline.merges_conflict agrees path _
  | .composite head traits fields, exact => by
    rw [Shape.combine]
    by_cases agrees : existing.head.Agrees head
    · rw [FieldHead.combine_of_agrees agrees]
      show Outline.Merges _ _ _ (match existing.fields? with | none => _ | some old => _)
      cases present : existing.fields? with
      | none =>
        have nothing : existing.inner = [] := by rw [Shape.inner, present]; rfl
        refine .ok (Outline.compatible_shape.mpr ⟨agrees, ?_⟩) (Outline.join_shape rfl ?_)
        · rw [nothing]
          exact (Outline.compatible_nil _).symm
        · rw [nothing]
          exact (Outline.nil_join _).symm
      | some old =>
        have same : existing.inner = old := by rw [Shape.inner, present]; rfl
        have below := @Shapes.merges_combine path old fields ⟨exact.2.2.2.1, exact.2.2.2.2⟩
        rw [← same] at below
        show Outline.Merges _ _ _ (Shapes.combine path old fields >>= _)
        rw [← same]
        generalize Shapes.combine path existing.inner fields = outcome at below ⊢
        cases below with
        | ok compatible joined =>
          refine .ok (Outline.compatible_shape.mpr ⟨agrees, compatible⟩)
            (Outline.join_shape (Shape.head_of ..) ?_)
          rw [Shape.inner_of]
          exact joined
        | error conflict problem =>
          exact .error (fun both => conflict (Outline.compatible_shape.mp both).2) problem
    · exact Outline.merges_conflict agrees path _

theorem Shapes.merges_combine {path : List String} {into : Shapes} : (incoming : Shapes) →
    incoming.Exact → Outline.Merges Shapes.at? (Shapes.at? into) (Shapes.at? incoming)
      (Shapes.combine path into incoming)
  | [], _ => .ok (Outline.compatible_nil _) (Outline.join_nil _).symm
  | (name, shape) :: rest, exact => by
    have names : name ∉ rest.map Prod.fst := (List.nodup_cons.mp exact.names).1
    rw [Shapes.combine, Shapes.at?_cons names]
    cases present : Entries.get? name into with
    | none =>
      have later := @Shapes.merges_combine path (Entries.put name shape into) rest exact.tail
      rw [Shapes.at?_put_of_none present] at later
      exact later.after (Shapes.at?_apart names) (Shapes.compatible_of_none present)
    | some existing =>
      have first := @Shape.merges_combine (path ++ [name]) existing shape exact.all.1
      show Outline.Merges _ _ _ (Shape.combine (path ++ [name]) existing shape >>= _)
      generalize Shape.combine (path ++ [name]) existing shape = outcome at first ⊢
      cases first with
      | @ok joined compatible same =>
        have later := @Shapes.merges_combine path (Entries.put name joined into) rest exact.tail
        rw [Shapes.at?_put_of_some present same] at later
        exact later.after (Shapes.at?_apart names)
          ((Shapes.compatible_singleton present).mpr compatible)
      | error conflict problem =>
        refine .error (fun both => conflict ?_) problem
        have apart := Outline.compatible_of_apart (@Shapes.at?_apart name shape rest names)
        exact (Shapes.compatible_singleton present).mp
          ((Outline.compatible_join_right apart).mp both).1
end

end ResponseGraph
