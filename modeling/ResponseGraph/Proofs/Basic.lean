import Mathlib.Data.List.Perm.Subperm
import ResponseGraph.Table

/-!
Lemmas about named entries and about computations that may fail.
-/

namespace ResponseGraph

namespace Entries

variable {α : Type}

theorem get?_eq_none_iff {name : String} {entries : List (String × α)} :
    get? name entries = none ↔ name ∉ entries.map Prod.fst := by
  induction entries with
  | nil => exact iff_of_true rfl List.not_mem_nil
  | cons entry rest ih =>
    obtain ⟨key, old⟩ := entry
    rw [get?_cons, List.map_cons, List.mem_cons]
    split
    · next same => exact iff_of_false (fun h => by cases h) fun h => h (Or.inl same.symm)
    · next other =>
      rw [ih]
      exact not_congr (or_iff_right fun e => other e.symm).symm

/-- A name of a list without repeated names has one value. -/
theorem get?_of_mem {name : String} {value : α}
    {entries : List (String × α)} (names : (entries.map Prod.fst).Nodup)
    (member : (name, value) ∈ entries) : get? name entries = some value := by
  induction entries with
  | nil => cases member
  | cons entry rest ih =>
    obtain ⟨key, old⟩ := entry
    rw [List.map_cons, List.nodup_cons] at names
    rw [get?_cons]
    rcases List.mem_cons.mp member with e | member
    · cases e
      exact if_pos rfl
    · rw [if_neg, ih names.2 member]
      intro same
      subst same
      exact names.1 (List.mem_map.mpr ⟨_, member, rfl⟩)

theorem Increasing.nodup {entries : List (String × α)} (h : Increasing entries) :
    (entries.map Prod.fst).Nodup := by
  refine List.pairwise_map.mpr (List.Pairwise.imp (fun lt => ?_) h)
  intro same
  rw [same] at lt
  exact String.lt_irrefl _ lt

theorem get?_map {β : Type} (f : String → α → β) (name : String) (entries : List (String × α)) :
    get? name (entries.map fun entry => (entry.1, f entry.1 entry.2)) =
      (get? name entries).map (f name) := by
  induction entries with
  | nil => rfl
  | cons head rest ih =>
    obtain ⟨key, value⟩ := head
    rw [List.map_cons, get?_cons, get?_cons]
    split
    · next e => rw [e, Option.map_some]
    · exact ih

/-- Lists of one length, of which one has every name of the other, have the same names. -/
theorem mem_names_of_length {β : Type} {left : List (String × α)} {right : List (String × β)}
    (names : (left.map Prod.fst).Nodup) (long : left.length = right.length)
    (among : ∀ entry ∈ left, entry.1 ∈ right.map Prod.fst) {name : String}
    (member : name ∈ right.map Prod.fst) : name ∈ left.map Prod.fst := by
  have within : left.map Prod.fst ⊆ right.map Prod.fst := by
    intro other found
    obtain ⟨entry, here, rfl⟩ := List.mem_map.mp found
    exact among entry here
  have lengths : (right.map Prod.fst).length = (left.map Prod.fst).length := by
    rw [List.length_map, List.length_map, long]
  exact ((names.subperm within).perm_of_length_le (Nat.le_of_eq lengths)).mem_iff.mpr member

/-- Two maps are related name by name exactly if they have one size and each value of the left
one is related to one on the right. -/
theorem forall_rel_get?_iff {β : Type} {related : α → β → Prop} {left : List (String × α)}
    {right : List (String × β)} (names : (left.map Prod.fst).Nodup)
    (names' : (right.map Prod.fst).Nodup) :
    (∀ name, Option.Rel related (get? name left) (get? name right)) ↔
      left.length = right.length ∧ ∀ name value, (name, value) ∈ left →
        ∃ other, get? name right = some other ∧ related value other := by
  constructor
  · intro all
    have same : ∀ name, name ∈ left.map Prod.fst ↔ name ∈ right.map Prod.fst := by
      intro name
      refine not_iff_not.mp ?_
      rw [← get?_eq_none_iff, ← get?_eq_none_iff]
      have here := all name
      cases found : get? name left <;> cases found' : get? name right <;> simp_all
    have lengths := ((List.perm_ext_iff_of_nodup names names').mpr same).length_eq
    rw [List.length_map, List.length_map] at lengths
    refine ⟨lengths, fun name value member => ?_⟩
    have here := all name
    rw [get?_of_mem names member] at here
    cases found : get? name right with
    | none =>
      rw [found] at here
      cases here
    | some other =>
      rw [found] at here
      cases here with
      | some related => exact ⟨other, rfl, related⟩
  · rintro ⟨long, each⟩ name
    cases found : get? name left with
    | some value =>
      obtain ⟨other, here, related⟩ := each name value (mem_of_get? found)
      rw [here]
      exact .some related
    | none =>
      have absent : name ∉ right.map Prod.fst := by
        intro member
        refine get?_eq_none_iff.mp found (mem_names_of_length names long (fun entry member => ?_)
          member)
        obtain ⟨other, here, -⟩ := each entry.1 entry.2 member
        exact List.mem_map.mpr ⟨(entry.1, other), mem_of_get? here, rfl⟩
      rw [get?_eq_none_iff.mpr absent]
      exact .none

/-! ## Order of names -/

theorem increasing_foldl_insert {entries sorted : List (String × α)} (h : Increasing sorted) :
    Increasing (entries.foldl (fun acc entry => insert entry.1 entry.2 acc) sorted) := by
  induction entries generalizing sorted with
  | nil => exact h
  | cons entry rest ih => exact ih (h.insert entry.1 entry.2)

theorem increasing_sort (entries : List (String × α)) : Increasing (sort entries) :=
  increasing_foldl_insert .nil

theorem mem_of_mem_sort {entry : String × α} {entries : List (String × α)}
    (h : entry ∈ sort entries) : entry ∈ entries := by
  have fold (sorted : List (String × α)) (member : entry ∈
      entries.foldl (fun acc entry => insert entry.1 entry.2 acc) sorted) :
      entry ∈ sorted ∨ entry ∈ entries := by
    clear h
    induction entries generalizing sorted with
    | nil => exact Or.inl member
    | cons first rest ih =>
      rcases ih _ member with old | later
      · rcases mem_insert old with rfl | old
        · exact Or.inr List.mem_cons_self
        · exact Or.inl old
      · exact Or.inr (List.mem_cons_of_mem _ later)
  exact (fold [] h).resolve_left List.not_mem_nil

theorem get?_foldl_insert {entries : List (String × α)} (names : (entries.map Prod.fst).Nodup)
    (name : String) (sorted : List (String × α)) :
    get? name (entries.foldl (fun acc entry => insert entry.1 entry.2 acc) sorted) =
      (get? name entries).or (get? name sorted) := by
  induction entries generalizing sorted with
  | nil => rfl
  | cons entry rest ih =>
    obtain ⟨key, value⟩ := entry
    rw [List.map_cons, List.nodup_cons] at names
    rw [List.foldl_cons, ih names.2, get?_insert, get?_cons]
    split
    · next same =>
      subst same
      rw [get?_eq_none_iff.mpr names.1]
      rfl
    · rfl

theorem get?_sort {entries : List (String × α)} (names : (entries.map Prod.fst).Nodup)
    (name : String) : get? name (sort entries) = get? name entries := by
  rw [sort, get?_foldl_insert names, get?_nil, Option.or_none]

theorem Increasing.sort_eq {entries : List (String × α)} (h : Increasing entries) :
    sort entries = entries :=
  (increasing_sort entries).ext h (get?_sort h.nodup)

/-! ## Changes -/

/-- A value that is put where it is changes nothing. -/
theorem put_of_get? {name : String} {value : α} {entries : List (String × α)}
    (h : get? name entries = some value) : put name value entries = entries := by
  induction entries with
  | nil => cases h
  | cons entry rest ih =>
    obtain ⟨key, old⟩ := entry
    rw [get?_cons] at h
    rw [put]
    split
    · next same =>
      rw [if_pos same] at h
      cases h
      rfl
    · next other =>
      rw [if_neg other] at h
      rw [ih h]

theorem put_put (name : String) (first last : α) (entries : List (String × α)) :
    put name last (put name first entries) = put name last entries := by
  induction entries with
  | nil => simp [put]
  | cons entry rest ih =>
    obtain ⟨key, old⟩ := entry
    by_cases same : key = name
    · simp [put, same]
    · simp [put, same, ih]

theorem map_fst_put (name : String) (value : α) (entries : List (String × α)) :
    (put name value entries).map Prod.fst =
      if name ∈ entries.map Prod.fst then entries.map Prod.fst
      else entries.map Prod.fst ++ [name] := by
  induction entries with
  | nil => rfl
  | cons entry rest ih =>
    obtain ⟨key, old⟩ := entry
    rw [put]
    by_cases same : key = name
    · subst same
      simp
    · rw [if_neg same, List.map_cons, ih, List.map_cons]
      have other : ¬ name = key := fun e => same e.symm
      simp only [List.mem_cons, other, false_or]
      split <;> rfl

theorem mem_map_fst_put {name other : String} {value : α}
    {entries : List (String × α)} : other ∈ (put name value entries).map Prod.fst ↔
      other = name ∨ other ∈ entries.map Prod.fst := by
  rw [map_fst_put]
  split
  · next present =>
    refine ⟨Or.inr, fun h => h.elim (fun same => same ▸ present) id⟩
  · rw [List.mem_append, List.mem_singleton, or_comm]

theorem nodup_put {entries : List (String × α)}
    (names : (entries.map Prod.fst).Nodup) (name : String) (value : α) :
    ((put name value entries).map Prod.fst).Nodup := by
  rw [map_fst_put]
  split
  · exact names
  · next absent =>
    refine List.nodup_append.mpr ⟨names, List.pairwise_singleton _ _, ?_⟩
    intro other member last single
    rw [List.mem_singleton.mp single]
    intro e
    subst e
    exact absent member

theorem mem_put {entries : List (String × α)}
    (names : (entries.map Prod.fst).Nodup) {name other : String} {value found : α}
    (h : (other, found) ∈ put name value entries) :
    other = name ∧ found = value ∨ other ≠ name ∧ (other, found) ∈ entries := by
  have present := get?_of_mem (nodup_put names name value) h
  rw [get?_put] at present
  split at present
  · next same =>
    cases present
    exact Or.inl ⟨same.symm, rfl⟩
  · next other => exact Or.inr ⟨fun e => other e.symm, mem_of_get? present⟩

theorem erase_of_notMem {name : String} {entries : List (String × α)}
    (absent : name ∉ entries.map Prod.fst) : erase name entries = entries :=
  List.filter_eq_self.mpr fun _ member => decide_eq_true fun same =>
    absent (same ▸ List.mem_map_of_mem member)

theorem nodup_erase {entries : List (String × α)} (names : (entries.map Prod.fst).Nodup)
    (name : String) : ((erase name entries).map Prod.fst).Nodup :=
  names.sublist (List.filter_sublist.map Prod.fst)

/-- An entry may be put first. -/
theorem perm_erase {name : String} {value : α} {entries : List (String × α)}
    (names : (entries.map Prod.fst).Nodup) (h : get? name entries = some value) :
    entries.Perm ((name, value) :: erase name entries) := by
  induction entries with
  | nil => cases h
  | cons entry rest ih =>
    obtain ⟨key, old⟩ := entry
    rw [List.map_cons, List.nodup_cons] at names
    rw [get?_cons] at h
    split at h
    · next same =>
      subst same
      cases h
      rw [erase, List.filter_cons_of_neg (by simp)]
      exact .of_eq (congrArg (List.cons _) (erase_of_notMem names.1).symm)
    · next other =>
      rw [erase, List.filter_cons_of_pos (by simpa using other)]
      exact ((ih names.2 h).cons _).trans (.swap _ _ _)

theorem total_insert (measure : α → Nat) (name : String) (value : α)
    {entries : List (String × α)} (h : Increasing entries) :
    total measure (insert name value entries) + (get? name entries).elim 0 measure =
      total measure entries + measure value := by
  induction entries with
  | nil => exact Nat.add_comm _ _
  | cons head rest ih =>
    obtain ⟨key, old⟩ := head
    obtain ⟨above, tail⟩ := List.pairwise_cons.mp h
    rw [insert]
    split
    · next lt =>
      have ne : key ≠ name := fun e => String.lt_irrefl _ (e ▸ lt)
      have none : get? name rest = none :=
        get?_eq_none_of_forall_lt fun entry member => String.lt_trans lt (above entry member)
      rw [get?_cons, if_neg ne, none, total_cons, Option.elim_none]
      omega
    · split
      · next e =>
        subst e
        rw [get?_cons, if_pos rfl, total_cons, total_cons, Option.elim_some]
        omega
      · next ne =>
        rw [get?_cons, if_neg (Ne.symm ne), total_cons, total_cons]
        have rest := ih tail
        omega

theorem total_erase (measure : α → Nat) (name : String) {entries : List (String × α)}
    (h : Increasing entries) :
    total measure (erase name entries) + (get? name entries).elim 0 measure =
      total measure entries := by
  induction entries with
  | nil => rfl
  | cons head rest ih =>
    obtain ⟨key, old⟩ := head
    obtain ⟨above, tail⟩ := List.pairwise_cons.mp h
    have rest := ih tail
    rw [erase] at rest ⊢
    rw [get?_cons, total_cons]
    by_cases e : key = name
    · subst e
      have none : get? key _ = none := get?_eq_none_of_forall_lt above
      rw [none, Option.elim_none] at rest
      rw [List.filter_cons_of_neg (by simp), if_pos rfl, Option.elim_some]
      omega
    · rw [if_neg e, List.filter_cons_of_pos (by simpa using e), total_cons]
      omega

end Entries

theorem Table.mem_keys_iff {α : Type} {table : Table α} {name : String} :
    name ∈ table.keys ↔ table.contains name := by
  unfold Table.contains Table.get?
  rw [Option.isSome_iff_ne_none, ne_eq, Entries.get?_eq_none_iff, Classical.not_not]
  rfl

theorem Table.get?_override {α : Type} (table changes : Table α) (name : String) :
    (table.override changes).get? name = (changes.get? name).or (table.get? name) := by
  have entries (list : List (String × α)) : ∀ table : Table α,
      (list.foldl (fun acc entry => acc.insert entry.1 entry.2) table).entries =
        list.foldl (fun acc entry => Entries.insert entry.1 entry.2 acc) table.entries := by
    induction list with
    | nil => exact fun _ => rfl
    | cons first rest ih => exact fun table => ih (table.insert first.1 first.2)
  rw [Table.override, Table.get?, entries,
    Entries.get?_foldl_insert changes.increasing.nodup]
  rfl

theorem NameSet.contains_ofList {names : List String} {name : String} :
    (ofList names).contains name ↔ name ∈ names := by
  have fold (set : NameSet) :
      (names.foldl add set).contains name ↔ set.contains name ∨ name ∈ names := by
    induction names generalizing set with
    | nil => simp
    | cons first rest ih =>
      rw [List.foldl_cons, ih, contains_add, Bool.or_eq_true, decide_eq_true_iff, List.mem_cons,
        eq_comm (a := first), or_comm (a := name = first), or_assoc]
  refine (fold Table.empty).trans (or_iff_right fun member => ?_)
  cases member

theorem NameSet.ext {names others : NameSet}
    (h : ∀ name, names.contains name ↔ others.contains name) : names = others := by
  refine Table.ext fun name => ?_
  have here := h name
  unfold Table.contains at here
  generalize names.get? name = found, others.get? name = found' at here ⊢
  cases found <;> cases found' <;> simp at here ⊢

theorem exists_of_rel {α β : Type} {related : α → β → Prop} {x : Option α} {y : Option β}
    (h : Option.Rel related x y) :
    (x = none ∧ y = none) ∨ ∃ a b, x = some a ∧ y = some b ∧ related a b := by
  cases h with
  | none => exact Or.inl ⟨rfl, rfl⟩
  | some h => exact Or.inr ⟨_, _, rfl, rfl, h⟩

theorem forall₂_trans {α β γ : Type} {first : α → β → Prop} {second : β → γ → Prop}
    {both : α → γ → Prop} {xs : List α} {ys : List β} {zs : List γ}
    (h : List.Forall₂ first xs ys) (h' : List.Forall₂ second ys zs)
    (compose : ∀ x y z, first x y → second y z → both x z) : List.Forall₂ both xs zs := by
  induction h generalizing zs with
  | nil =>
    cases h'
    exact .nil
  | cons here _ ih =>
    cases h' with
    | cons here' rest => exact .cons (compose _ _ _ here here') (ih rest)

/-! ## Positions -/

/-- Every member has its position as its number. -/
def Numbered {α : Type} (number : α → Nat) (list : List α) : Prop :=
  ∀ index x, list[index]? = some x → number x = index

namespace Numbered

variable {α : Type} {number : α → Nat} {list : List α}

theorem nil : Numbered number [] := fun _ _ found => (nomatch found)

theorem snoc {x : α} (h : Numbered number list) (last : number x = list.length) :
    Numbered number (list ++ [x]) := by
  intro index y found
  rw [List.getElem?_append] at found
  split at found
  · exact h index y found
  · obtain ⟨position, rfl⟩ := List.getElem?_eq_some_iff.mp found
    rw [List.length_singleton] at position
    rw [List.getElem_singleton, last]
    omega

theorem eq_of_eq {x y : α} (h : Numbered number list) (hx : x ∈ list) (hy : y ∈ list)
    (same : number x = number y) : x = y := by
  obtain ⟨i, found⟩ := List.mem_iff_getElem?.mp hx
  obtain ⟨j, found'⟩ := List.mem_iff_getElem?.mp hy
  rw [h i x found, h j y found'] at same
  rw [same, found'] at found
  exact (Option.some.inj found).symm

end Numbered

/-! ## Results -/

theorem exists_of_bind_eq_ok {ε α β : Type} {x : Except ε α} {f : α → Except ε β} {result : β}
    (h : (x >>= f) = .ok result) : ∃ a, x = .ok a ∧ f a = .ok result := by
  cases x with
  | error e => cases h
  | ok a => exact ⟨a, rfl, h⟩

theorem exists_of_map_eq_ok {ε α β : Type} {x : Except ε α} {f : α → β} {result : β}
    (h : x.map f = .ok result) : ∃ a, x = .ok a ∧ f a = result := by
  cases x with
  | error e => cases h
  | ok a =>
    cases h
    exact ⟨a, rfl, rfl⟩

/-- What a computation may come to: values that are `good`, and failures that are `bad`. -/
inductive Ends {ε α : Type} (good : α → Prop) (bad : ε → Prop) : Except ε α → Prop
  | error {e : ε} (h : bad e) : Ends good bad (.error e)
  | ok {a : α} (h : good a) : Ends good bad (.ok a)

namespace Ends

variable {ε α β : Type} {good : α → Prop} {bad : ε → Prop} {x : Except ε α}

theorem bind {last : β → Prop} {f : α → Except ε β} (h : Ends good bad x)
    (next : ∀ a, good a → Ends last bad (f a)) : Ends last bad (x >>= f) := by
  cases h with
  | error h => exact .error h
  | ok h => exact next _ h

theorem map {last : β → Prop} {f : α → β} (h : Ends good bad x)
    (next : ∀ a, good a → last (f a)) : Ends last bad (x.map f) := by
  cases h with
  | error h => exact .error h
  | ok h => exact .ok (next _ h)

theorem mono_error {more : ε → Prop} (h : Ends good bad x) (imp : ∀ e, bad e → more e) :
    Ends good more x := by
  cases h with
  | error h => exact .error (imp _ h)
  | ok h => exact .ok h

theorem of_ok {a : α} (h : Ends good bad x) (made : x = .ok a) : good a := by
  cases h with
  | error h => cases made
  | ok h =>
    cases made
    exact h

theorem of_error {e : ε} (h : Ends good bad x) (failed : x = .error e) : bad e := by
  cases h with
  | error h =>
    cases failed
    exact h
  | ok h => cases failed

end Ends

/-- Both results are the same error, or both are values that are related. -/
inductive Paired {ε α β : Type} (related : α → β → Prop) : Except ε α → Except ε β → Prop
  | error (e : ε) : Paired related (.error e) (.error e)
  | ok {a : α} {b : β} (h : related a b) : Paired related (.ok a) (.ok b)

theorem Paired.mono {ε α β : Type} {related more : α → β → Prop} {x : Except ε α}
    {y : Except ε β} (h : Paired related x y) (imp : ∀ a b, related a b → more a b) :
    Paired more x y := by
  cases h with
  | error e => exact .error e
  | ok h => exact .ok (imp _ _ h)

/-- What follows of the first result may be used. -/
theorem Paired.mono_of_eq {ε α β : Type} {related more : α → β → Prop} {x : Except ε α}
    {y : Except ε β} (h : Paired related x y)
    (imp : ∀ a b, x = .ok a → related a b → more a b) : Paired more x y := by
  cases h with
  | error e => exact .error e
  | ok h => exact .ok (imp _ _ rfl h)

theorem Paired.bind {ε α β α' β' : Type} {related : α → β → Prop} {related' : α' → β' → Prop}
    {x : Except ε α} {y : Except ε β} {f : α → Except ε α'} {g : β → Except ε β'}
    (h : Paired related x y) (next : ∀ a b, related a b → Paired related' (f a) (g b)) :
    Paired related' (x >>= f) (y >>= g) := by
  cases h with
  | error e => exact .error e
  | ok h => exact next _ _ h

theorem Paired.map {ε α β α' β' : Type} {related : α → β → Prop} {related' : α' → β' → Prop}
    {x : Except ε α} {y : Except ε β} {f : α → α'} {g : β → β'} (h : Paired related x y)
    (next : ∀ a b, related a b → related' (f a) (g b)) : Paired related' (x.map f) (y.map g) := by
  cases h with
  | error e => exact .error e
  | ok h => exact .ok (next _ _ h)

theorem Paired.trans {ε α β γ : Type} {first : α → β → Prop} {second : β → γ → Prop}
    {both : α → γ → Prop} {x : Except ε α} {y : Except ε β} {z : Except ε γ}
    (h : Paired first x y) (h' : Paired second y z)
    (compose : ∀ a b c, first a b → second b c → both a c) : Paired both x z := by
  cases h with
  | error e =>
    cases h'
    exact .error e
  | ok h =>
    cases h' with
    | ok h' => exact .ok (compose _ _ _ h h')

theorem Paired.symm {ε α β : Type} {related : α → β → Prop} {x : Except ε α} {y : Except ε β}
    (h : Paired related x y) : Paired (fun b a => related a b) y x := by
  cases h with
  | error e => exact .error e
  | ok h => exact .ok h

theorem Paired.refl {ε α : Type} (x : Except ε α) : Paired Eq x x := by
  cases x with
  | error e => exact .error e
  | ok a => exact .ok rfl

/-- If the one gives a value, so does the other. -/
theorem Paired.exists_of_eq_ok {ε α β : Type} {related : α → β → Prop} {x : Except ε α}
    {y : Except ε β} {a : α} (h : Paired related x y) (made : x = .ok a) :
    ∃ b, y = .ok b ∧ related a b := by
  cases h with
  | error e => cases made
  | ok h =>
    cases made
    exact ⟨_, rfl, h⟩

/-- The second steps need only be paired for what the first steps give. -/
theorem Paired.bind_of_eq {ε α β α' β' : Type} {related : α → β → Prop}
    {related' : α' → β' → Prop} {x : Except ε α} {y : Except ε β} {f : α → Except ε α'}
    {g : β → Except ε β'} (h : Paired related x y)
    (next : ∀ a b, x = .ok a → y = .ok b → related a b → Paired related' (f a) (g b)) :
    Paired related' (x >>= f) (y >>= g) := by
  cases h with
  | error e => exact .error e
  | ok h => exact next _ _ rfl rfl h

/-- Both fail, or both give values that are related. -/
inductive SameOutcome {ε α β : Type} (related : α → β → Prop) : Except ε α → Except ε β → Prop
  | error (e e' : ε) : SameOutcome related (.error e) (.error e')
  | ok {a : α} {b : β} (h : related a b) : SameOutcome related (.ok a) (.ok b)

namespace SameOutcome

variable {ε α β γ α' β' : Type} {related : α → β → Prop} {x : Except ε α} {y : Except ε β}

theorem mono {more : α → β → Prop} (h : SameOutcome related x y)
    (imp : ∀ a b, x = .ok a → y = .ok b → related a b → more a b) : SameOutcome more x y := by
  cases h with
  | error e e' => exact .error e e'
  | ok h => exact .ok (imp _ _ rfl rfl h)

theorem bind {related' : α' → β' → Prop} {f : α → Except ε α'} {g : β → Except ε β'}
    (h : SameOutcome related x y)
    (next : ∀ a b, related a b → SameOutcome related' (f a) (g b)) :
    SameOutcome related' (x >>= f) (y >>= g) := by
  cases h with
  | error e e' => exact .error e e'
  | ok h => exact next _ _ h

theorem trans {z : Except ε γ} {second : β → γ → Prop} {both : α → γ → Prop}
    (h : SameOutcome related x y) (h' : SameOutcome second y z)
    (compose : ∀ a b c, related a b → second b c → both a c) : SameOutcome both x z := by
  cases h with
  | error e e' =>
    cases h' with
    | error _ e'' => exact .error e e''
  | ok h =>
    cases h' with
    | ok h' => exact .ok (compose _ _ _ h h')

end SameOutcome

theorem eq_ok_of_toOption {ε α : Type} {action : Except ε α} {result : α}
    (h : action.toOption = some result) : action = .ok result := by
  cases action with
  | error e => cases h
  | ok found =>
    cases h
    rfl

theorem eq_ok_of_toBool {ε : Type} {action : Except ε Unit} (h : action.toBool) :
    action = .ok () := by
  cases action with
  | error e => cases h
  | ok _ => rfl

theorem forM_eq_ok {α ε : Type} {f : α → Except ε Unit} {list : List α}
    (h : ∀ x ∈ list, f x = .ok ()) : list.forM f = .ok () := by
  induction list with
  | nil => rfl
  | cons x rest ih =>
    show (f x >>= fun _ => rest.forM f) = .ok ()
    rw [h x List.mem_cons_self]
    exact ih fun y member => h y (List.mem_cons_of_mem _ member)

theorem of_forM_eq_ok {α ε : Type} {f : α → Except ε Unit} {list : List α}
    (h : list.forM f = .ok ()) : ∀ x ∈ list, f x = .ok () := by
  induction list with
  | nil => exact fun x member => absurd member List.not_mem_nil
  | cons x rest ih =>
    obtain ⟨_, first, later⟩ := exists_of_bind_eq_ok h
    intro y member
    rcases List.mem_cons.mp member with e | member
    · rw [e]
      exact first
    · exact ih later y member

end ResponseGraph
