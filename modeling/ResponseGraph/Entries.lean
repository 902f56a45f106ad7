/-!
Named entries.

The members of an object are a list of entries, a name and a value each.  Two
disciplines are used.  An object read from text keeps its members in the order
in which their names first appeared, and `put` is the insertion for it.  A map
whose order carries no meaning is kept strictly increasing by name, and `insert`
is the insertion for it, so that equal maps are equal lists.

Both are lists rather than a wrapped type because they occur inside recursive
data, where recursion has to see the list.  `get?` is the view: each operation is
described by what it does to `get?`.
-/

namespace ResponseGraph
namespace Entries

variable {α β : Type}

/-- The value of the first entry with the given name. -/
def get? (name : String) : List (String × α) → Option α
  | [] => none
  | (key, value) :: rest => if key = name then some value else get? name rest

/-- Replaces the value of an entry where it stands, or adds the entry at the
end. -/
def put (name : String) (value : α) : List (String × α) → List (String × α)
  | [] => [(name, value)]
  | (key, old) :: rest =>
    if key = name then (key, value) :: rest else (key, old) :: put name value rest

/-- Each name keeps its first position and its last value. -/
def ofList (entries : List (String × α)) : List (String × α) :=
  entries.foldl (fun acc entry => put entry.1 entry.2 acc) []

def erase (name : String) (entries : List (String × α)) : List (String × α) :=
  entries.filter (fun entry => entry.1 ≠ name)

/-- Insertion by name into an increasing list, replacing an entry of that
name. -/
def insert (name : String) (value : α) : List (String × α) → List (String × α)
  | [] => [(name, value)]
  | (key, old) :: rest =>
    if name < key then (name, value) :: (key, old) :: rest
    else if name = key then (name, value) :: rest
    else (key, old) :: insert name value rest

/-- The entries in increasing order of name, the last value of a name winning. -/
def sort (entries : List (String × α)) : List (String × α) :=
  entries.foldl (fun acc entry => insert entry.1 entry.2 acc) []

/-- The sum of a measure of the values. -/
def total (measure : α → Nat) : List (String × α) → Nat
  | [] => 0
  | (_, value) :: rest => measure value + total measure rest

/-- Strictly increasing by name, hence without a repeated name. -/
def Increasing (entries : List (String × α)) : Prop :=
  entries.Pairwise (fun a b => a.1 < b.1)

theorem total_cons (measure : α → Nat) (name : String) (value : α) (rest : List (String × α)) :
    total measure ((name, value) :: rest) = measure value + total measure rest := rfl

@[simp] theorem get?_nil (name : String) : get? name ([] : List (String × α)) = none := rfl

theorem get?_cons (name key : String) (value : α) (rest : List (String × α)) :
    get? name ((key, value) :: rest) = if key = name then some value else get? name rest := rfl

theorem get?_put (name other : String) (value : α) (entries : List (String × α)) :
    get? other (put name value entries) =
      if name = other then some value else get? other entries := by
  induction entries with
  | nil => simp [put, get?]
  | cons head rest ih =>
    obtain ⟨key, old⟩ := head
    by_cases h : key = name
    · subst h
      by_cases h' : key = other <;> simp [put, get?, h']
    · by_cases h' : key = other
      · subst h'
        simp [put, get?, h, Ne.symm h]
      · simp [put, get?, h, h', ih]

theorem get?_insert (name other : String) (value : α) (entries : List (String × α)) :
    get? other (insert name value entries) =
      if name = other then some value else get? other entries := by
  induction entries with
  | nil => simp [insert, get?]
  | cons head rest ih =>
    obtain ⟨key, old⟩ := head
    rw [insert]
    split
    · simp [get?]
    · split
      · next h =>
        subst h
        by_cases h' : name = other <;> simp [get?, h']
      · next h =>
        by_cases h' : key = other
        · subst h'
          simp [get?, h]
        · simp [get?, h', ih]

theorem get?_erase (name other : String) (entries : List (String × α)) :
    get? other (erase name entries) = if name = other then none else get? other entries := by
  induction entries with
  | nil => simp [erase, get?]
  | cons head rest ih =>
    obtain ⟨key, old⟩ := head
    rw [erase] at ih ⊢
    by_cases h : key = name
    · subst h
      by_cases h' : key = other <;> simp_all [get?]
    · by_cases h' : key = other
      · subst h'
        simp [get?, h, Ne.symm h]
      · simpa [get?, h, h'] using ih

theorem mem_of_get? {name : String} {value : α} {entries : List (String × α)}
    (h : get? name entries = some value) : (name, value) ∈ entries := by
  induction entries with
  | nil => simp at h
  | cons head rest ih =>
    obtain ⟨key, old⟩ := head
    rw [get?_cons] at h
    split at h
    · next he =>
      cases h
      exact he ▸ List.mem_cons_self
    · exact List.mem_cons_of_mem _ (ih h)

theorem mem_insert {name : String} {value : α} {entry : String × α}
    {entries : List (String × α)} (h : entry ∈ insert name value entries) :
    entry = (name, value) ∨ entry ∈ entries := by
  induction entries with
  | nil => simpa [insert] using h
  | cons head rest ih =>
    obtain ⟨key, old⟩ := head
    rw [insert] at h
    split at h
    · simpa using h
    · split at h
      · rcases List.mem_cons.mp h with e | m
        · exact Or.inl e
        · exact Or.inr (List.mem_cons_of_mem _ m)
      · rcases List.mem_cons.mp h with e | m
        · exact Or.inr (e ▸ List.mem_cons_self)
        · exact (ih m).imp_right (List.mem_cons_of_mem _)

theorem Increasing.nil : Increasing ([] : List (String × α)) := List.Pairwise.nil

theorem Increasing.insert {entries : List (String × α)} (h : Increasing entries) (name : String)
    (value : α) : Increasing (insert name value entries) := by
  induction entries with
  | nil => simp [Increasing, Entries.insert]
  | cons head rest ih =>
    obtain ⟨key, old⟩ := head
    obtain ⟨above, tail⟩ := List.pairwise_cons.mp h
    rw [Entries.insert]
    split
    · next lt =>
      refine List.pairwise_cons.mpr ⟨fun entry member => ?_, h⟩
      rcases List.mem_cons.mp member with e | m
      · exact e ▸ lt
      · exact String.lt_trans lt (above entry m)
    · next notLt =>
      split
      · next e =>
        subst e
        exact List.pairwise_cons.mpr ⟨above, tail⟩
      · next ne =>
        have lt : key < name := by
          rcases Std.lt_trichotomy name key with l | e | g
          · exact absurd l notLt
          · exact absurd e ne
          · exact g
        refine List.pairwise_cons.mpr ⟨fun entry member => ?_, ih tail⟩
        rcases mem_insert member with e | m
        · exact e ▸ lt
        · exact above entry m

theorem Increasing.erase {entries : List (String × α)} (h : Increasing entries) (name : String) :
    Increasing (erase name entries) :=
  List.Pairwise.filter _ h

theorem Increasing.map {entries : List (String × α)} (h : Increasing entries)
    (f : String → α → β) :
    Increasing (entries.map fun entry => (entry.1, f entry.1 entry.2)) :=
  List.pairwise_map.mpr h

theorem get?_eq_none_of_forall_lt {name : String} {entries : List (String × α)}
    (h : ∀ entry ∈ entries, name < entry.1) : get? name entries = none := by
  induction entries with
  | nil => rfl
  | cons head rest ih =>
    obtain ⟨key, old⟩ := head
    have lt : name < key := h (key, old) List.mem_cons_self
    have ne : key ≠ name := fun e => String.lt_irrefl _ (e ▸ lt)
    rw [get?_cons, if_neg ne]
    exact ih fun entry member => h entry (List.mem_cons_of_mem _ member)

/-- Increasing lists that answer every look-up alike are the same list. -/
theorem Increasing.ext {left right : List (String × α)} (hl : Increasing left)
    (hr : Increasing right) (same : ∀ name, get? name left = get? name right) : left = right := by
  induction left generalizing right with
  | nil =>
    cases right with
    | nil => rfl
    | cons head rest => simpa [get?] using same head.1
  | cons head rest ih =>
    obtain ⟨key, value⟩ := head
    cases right with
    | nil => simpa [get?] using same key
    | cons other tail =>
      obtain ⟨key', value'⟩ := other
      obtain ⟨above, restInc⟩ := List.pairwise_cons.mp hl
      obtain ⟨above', tailInc⟩ := List.pairwise_cons.mp hr
      have keys : key = key' := by
        rcases Std.lt_trichotomy key key' with lt | e | gt
        · have hk := same key
          rw [get?_cons, if_pos rfl, get?_eq_none_of_forall_lt] at hk
          · cases hk
          · intro entry member
            rcases List.mem_cons.mp member with e | m
            · exact e ▸ lt
            · exact String.lt_trans lt (above' entry m)
        · exact e
        · have hk := same key'
          rw [get?_cons key' key', if_pos rfl, get?_eq_none_of_forall_lt] at hk
          · cases hk
          · intro entry member
            rcases List.mem_cons.mp member with e | m
            · exact e ▸ gt
            · exact String.lt_trans gt (above entry m)
      subst keys
      have values : value = value' := by simpa [get?] using same key
      subst values
      have tails : ∀ name, get? name rest = get? name tail := by
        intro name
        by_cases h : key = name
        · subst h
          rw [get?_eq_none_of_forall_lt above, get?_eq_none_of_forall_lt above']
        · simpa [get?, h] using same name
      rw [ih restInc tailInc tails]

end Entries
end ResponseGraph
