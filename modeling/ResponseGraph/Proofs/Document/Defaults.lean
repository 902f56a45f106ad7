import ResponseGraph.Plan
import ResponseGraph.Proofs.Argument.Variables
import ResponseGraph.Proofs.Json.Sameness
import ResponseGraph.Proofs.NodeId.Arguments

/-!
Declared defaults.

The default of a variable is read as a constant, so it has no variables and is a JSON value.  That
is why a variable that is declared with a default has one in every plan of its document.  Literals
become arguments in which no object repeats a name, and neither does the value of a default.
-/

namespace ResponseGraph

/-- The default has no variables, if there is one. -/
def VariableDefinition.Constant (definition : VariableDefinition) : Prop :=
  ∀ literal, definition.default = some literal → literal.variableNames = []

namespace Document

/-! ## Constants -/

/-- What is read as a constant has no variables. -/
theorem constant_of_read : (bound : Nat) → {tokens : List Token} →
    (∀ literal rest, readValue true bound tokens = some (literal, rest) →
      literal.variableNames = []) ∧
    (∀ items rest, readItems true bound tokens = some (items, rest) →
      Literal.namesOfItems items = []) ∧
    (∀ close members rest, readNamed true close bound tokens = some (members, rest) →
      Literal.namesOfMembers members = [])
  | 0, _ => ⟨fun _ _ h => (nomatch h), fun _ _ h => (nomatch h), fun _ _ _ h => (nomatch h)⟩
  | bound + 1, tokens => by
    refine ⟨fun literal rest h => ?_, fun items rest h => ?_, fun close members rest h => ?_⟩
    · unfold readValue at h
      split at h
      case h_1 => cases h
      case h_11 => cases h
      all_goals try (cases h; rfl)
      · obtain ⟨⟨items, _⟩, found, e⟩ := Option.map_eq_some_iff.mp h
        cases e
        exact (constant_of_read bound).2.1 items _ found
      · obtain ⟨⟨members, _⟩, found, e⟩ := Option.map_eq_some_iff.mp h
        cases e
        exact (constant_of_read bound).2.2 _ members _ found
    · unfold readItems at h
      split at h
      · cases h
        rfl
      · obtain ⟨⟨item, middle⟩, first, h⟩ := Option.bind_eq_some_iff.mp h
        obtain ⟨⟨more, last⟩, later, h⟩ := Option.bind_eq_some_iff.mp h
        cases h
        have none := (constant_of_read bound).1 item _ first
        have all := (constant_of_read bound).2.1 more _ later
        rw [Literal.namesOfItems, none, all, List.append_nil]
    · unfold readNamed at h
      split at h
      · obtain ⟨⟨value, middle⟩, first, h⟩ := Option.bind_eq_some_iff.mp h
        obtain ⟨⟨more, last⟩, later, h⟩ := Option.bind_eq_some_iff.mp h
        cases h
        have none := (constant_of_read bound).1 value _ first
        have all := (constant_of_read bound).2.2 close more _ later
        rw [Literal.namesOfMembers, none, all, List.append_nil]
      · split at h
        · cases h
          rfl
        · cases h
      · cases h

theorem constant_default {bound : Nat} {tokens rest : List Token} {name : String}
    {default : Option Literal}
    (h : (readValue true bound tokens).map (fun read => (some read.1, read.2)) =
      some (default, rest)) : (VariableDefinition.mk name default).Constant := by
  obtain ⟨⟨value, _⟩, found, e⟩ := Option.map_eq_some_iff.mp h
  cases e
  intro literal given
  cases given
  exact (constant_of_read bound).1 value _ found

theorem constant_readVariables : (bound : Nat) → {tokens rest : List Token} →
    {definitions : List VariableDefinition} →
    readVariables bound tokens = some (definitions, rest) →
    ∀ definition ∈ definitions, definition.Constant
  | 0, _, _, _, h => nomatch h
  | bound + 1, tokens, rest, definitions, h => by
    unfold readVariables at h
    split at h
    · next name rest =>
      obtain ⟨typed, -, h⟩ := Option.bind_eq_some_iff.mp h
      dsimp only at h
      split at h
      all_goals
        obtain ⟨⟨default, valued⟩, read, h⟩ := Option.bind_eq_some_iff.mp h
        have here : (VariableDefinition.mk name default).Constant := by
          first
          | exact constant_default read
          | cases read; exact fun _ given => (nomatch given)
        obtain ⟨⟨_, directed⟩, -, h⟩ := Option.bind_eq_some_iff.mp h
        dsimp only at h
        split at h
        · cases h
          exact List.forall_mem_singleton.mpr here
        · obtain ⟨⟨more, last⟩, later, h⟩ := Option.bind_eq_some_iff.mp h
          cases h
          exact List.forall_mem_cons.mpr ⟨here, constant_readVariables bound later⟩
    · cases h

theorem constant_readOperation {bound : Nat} {kind : OperationKind} {tokens rest : List Token}
    {operation : OperationDefinition}
    (h : readOperation bound kind tokens = some (operation, rest)) :
    ∀ definition ∈ operation.variableDefinitions, definition.Constant := by
  unfold readOperation at h
  dsimp only at h
  split at h
  · obtain ⟨⟨definitions, _⟩, read, h⟩ := Option.bind_eq_some_iff.mp h
    obtain ⟨_, -, h⟩ := Option.bind_eq_some_iff.mp h
    obtain ⟨_, -, h⟩ := Option.bind_eq_some_iff.mp h
    cases h
    exact constant_readVariables bound read
  · obtain ⟨_, none, h⟩ := Option.bind_eq_some_iff.mp h
    obtain ⟨_, -, h⟩ := Option.bind_eq_some_iff.mp h
    obtain ⟨_, -, h⟩ := Option.bind_eq_some_iff.mp h
    cases none
    cases h
    exact fun _ member => absurd member List.not_mem_nil

theorem constant_readDefinitions : (bound : Nat) → {tokens : List Token} → {document : Document} →
    readDefinitions bound tokens = some document → ∀ operation ∈ document.operations,
    ∀ definition ∈ operation.variableDefinitions, definition.Constant
  | 0, tokens, document, h => by
    unfold readDefinitions at h
    split at h
    · cases h
      exact fun _ member => absurd member List.not_mem_nil
    · cases h
  | bound + 1, tokens, document, h => by
    unfold readDefinitions at h
    split at h
    · cases h
      exact fun _ member => absurd member List.not_mem_nil
    · obtain ⟨⟨fragment, rest⟩, -, h⟩ := Option.bind_eq_some_iff.mp h
      obtain ⟨later, read, h⟩ := Option.bind_eq_some_iff.mp h
      cases h
      intro operation member
      exact constant_readDefinitions bound read operation member
    · dsimp only at h
      split at h
      case h_5 => cases h
      all_goals
        obtain ⟨⟨operation, rest⟩, found, h⟩ := Option.bind_eq_some_iff.mp h
        obtain ⟨later, read, h⟩ := Option.bind_eq_some_iff.mp h
        cases h
        refine List.forall_mem_cons.mpr ⟨?_, constant_readDefinitions bound read⟩
      · -- A selection set alone declares no variables.
        obtain ⟨_, -, e⟩ := Option.map_eq_some_iff.mp found
        cases e
        exact fun _ member => absurd member List.not_mem_nil
      all_goals exact constant_readOperation found

/-- Every default that a document declares is a constant. -/
theorem constant_parse? {text : String} {document : Document} (h : parse? text = some document) :
    ∀ operation ∈ document.operations,
    ∀ definition ∈ operation.variableDefinitions, definition.Constant := by
  unfold parse? at h
  dsimp only at h
  split at h
  · cases h
  · obtain ⟨tokens, -, h⟩ := Option.bind_eq_some_iff.mp h
    exact constant_readDefinitions _ h

end Document

/-! ## Defaults -/

theorem Table.contains_ofList {α : Type} {entries : List (String × α)} {name : String} :
    (Table.ofList entries).contains name ↔ ∃ entry ∈ entries, entry.1 = name := by
  have fold (table : Table α) :
      (entries.foldl (fun table entry => table.insert entry.1 entry.2) table).contains name ↔
        table.contains name ∨ ∃ entry ∈ entries, entry.1 = name := by
    induction entries generalizing table with
    | nil => simp
    | cons first rest ih =>
      rw [List.foldl_cons, ih, Table.contains, Table.get?_insert, List.exists_mem_cons_iff,
        ← or_assoc]
      by_cases same : first.1 = name <;> simp [same, Table.contains]
  exact (fold Table.empty).trans (or_iff_right Bool.false_ne_true)

/-- A variable that is declared with a constant default has a value without the caller. -/
theorem Plan.contains_declaredDefaults {operation : OperationDefinition}
    {definition : VariableDefinition} {literal : Literal}
    (member : definition ∈ operation.variableDefinitions) (constant : definition.Constant)
    (given : definition.default = some literal) :
    (declaredDefaults operation).contains definition.name := by
  have closed : literal.toArgument.variableNames = [] := by
    refine List.subset_nil.mp ?_
    rw [← constant literal given]
    exact Literal.variableNames_toArgument literal
  obtain ⟨value, made⟩ := Option.isSome_iff_exists.mp
    ((Argument.isSome_toJson?_iff _).mpr closed)
  refine Table.contains_ofList.mpr ⟨(definition.name, value), ?_, rfl⟩
  refine List.mem_filterMap.mpr ⟨definition, member, ?_⟩
  rw [given]
  show (literal.toArgument.toJson?).bind _ = _
  rw [made]
  rfl

/-! ## Defaults without repeated names -/

namespace Argument

theorem orderedMembers_iff {members : List (String × Argument)} :
    OrderedMembers members ↔ ∀ entry ∈ members, entry.2.Ordered := by
  induction members with
  | nil => exact iff_of_true trivial fun _ member => absurd member List.not_mem_nil
  | cons entry rest ih =>
    rw [List.forall_mem_cons, ← ih]
    rfl

theorem names_toMembers? {members : List (String × Argument)} {values : List (String × Json)}
    (h : toMembers? members = some values) : values.map Prod.fst = members.map Prod.fst := by
  induction members generalizing values with
  | nil =>
    cases h
    rfl
  | cons entry rest ih =>
    obtain ⟨value, -, h⟩ := Option.bind_eq_some_iff.mp h
    obtain ⟨others, below, rfl⟩ := Option.map_eq_some_iff.mp h
    rw [List.map_cons, List.map_cons, ih below]

mutual
/-- The value of an argument whose objects are in order repeats no name. -/
theorem distinct_toJson? : (argument : Argument) → argument.Ordered → {value : Json} →
    argument.toJson? = some value → value.distinct
  | .null, _, _, h | .bool _, _, _, h | .number _, _, _, h | .string _, _, _, h => by
    cases h
    rfl
  | .variable _, _, _, h => nomatch h
  | .list items, ordered, _, h => by
    obtain ⟨values, below, rfl⟩ := Option.map_eq_some_iff.mp h
    exact distinct_toItems? items ordered below
  | .object members, ordered, _, h => by
    obtain ⟨values, below, rfl⟩ := Option.map_eq_some_iff.mp h
    have names := names_toMembers? below ▸ ordered.1.nodup
    rw [Json.distinct, decide_eq_true names, distinct_toMembers? members ordered.2 below]
    rfl

theorem distinct_toItems? : (items : List Argument) → OrderedItems items →
    {values : List Json} → toItems? items = some values → Json.distinctItems values
  | [], _, _, h => by
    cases h
    rfl
  | x :: xs, ordered, _, h => by
    obtain ⟨value, here, h⟩ := Option.bind_eq_some_iff.mp h
    obtain ⟨others, below, rfl⟩ := Option.map_eq_some_iff.mp h
    exact (Bool.and_eq_true _ _).mpr
      ⟨distinct_toJson? x ordered.1 here, distinct_toItems? xs ordered.2 below⟩

theorem distinct_toMembers? : (members : List (String × Argument)) → OrderedMembers members →
    {values : List (String × Json)} → toMembers? members = some values →
    Json.distinctMembers values
  | [], _, _, h => by
    cases h
    rfl
  | (_, x) :: xs, ordered, _, h => by
    obtain ⟨value, here, h⟩ := Option.bind_eq_some_iff.mp h
    obtain ⟨others, below, rfl⟩ := Option.map_eq_some_iff.mp h
    exact (Bool.and_eq_true _ _).mpr
      ⟨distinct_toJson? x ordered.1 here, distinct_toMembers? xs ordered.2 below⟩
end

end Argument

namespace Literal

mutual
/-- The argument a literal stands for has its objects in order. -/
theorem ordered_toArgument : (literal : Literal) → literal.toArgument.Ordered
  | .null | .bool _ | .int _ | .float none | .float (some _) | .string _ | .enum _
  | .variable _ => trivial
  | .list items => ordered_toArguments items
  | .object members =>
    ⟨Entries.increasing_sort _, Argument.orderedMembers_iff.mpr fun entry sorted =>
      Argument.orderedMembers_iff.mp (ordered_toMembers members) entry
        (Entries.mem_of_mem_sort sorted)⟩

theorem ordered_toArguments : (items : List Literal) →
    Argument.OrderedItems (toArguments items)
  | [] => trivial
  | x :: xs => ⟨ordered_toArgument x, ordered_toArguments xs⟩

theorem ordered_toMembers : (members : List (String × Literal)) →
    Argument.OrderedMembers (toMembers members)
  | [] => trivial
  | (_, x) :: xs => ⟨ordered_toArgument x, ordered_toMembers xs⟩
end

end Literal

theorem Table.mem_of_get?_ofList {α : Type} {entries : List (String × α)} {name : String}
    {value : α} (h : (Table.ofList entries).get? name = some value) : (name, value) ∈ entries := by
  have fold (table : Table α)
      (found : (entries.foldl (fun table entry => table.insert entry.1 entry.2) table).get? name =
        some value) : table.get? name = some value ∨ (name, value) ∈ entries := by
    clear h
    induction entries generalizing table with
    | nil => exact Or.inl found
    | cons first rest ih =>
      rcases ih _ found with old | later
      · rw [Table.get?_insert] at old
        split at old
        · next same =>
          cases old
          exact Or.inr (same ▸ List.mem_cons_self)
        · exact Or.inl old
      · exact Or.inr (List.mem_cons_of_mem _ later)
  exact (fold Table.empty h).resolve_left fun impossible => nomatch impossible

/-- No default that is declared repeats a name. -/
theorem Plan.distinct_declaredDefaults (operation : OperationDefinition) :
    (declaredDefaults operation).Distinct := by
  intro name value found
  obtain ⟨definition, -, made⟩ := List.mem_filterMap.mp (Table.mem_of_get?_ofList found)
  obtain ⟨literal, -, made⟩ := Option.bind_eq_some_iff.mp made
  obtain ⟨value', json, made⟩ := Option.bind_eq_some_iff.mp made
  cases made
  exact Argument.distinct_toJson? _ literal.ordered_toArgument json

end ResponseGraph
