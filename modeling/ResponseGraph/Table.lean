import ResponseGraph.Entries

/-!
Finite tables keyed by text.

A table is an increasing list of entries together with the proof that it is one.
Two tables that answer every look-up alike are therefore equal (`Table.ext`), and
a statement about the content of a table is a statement about the table.
-/

namespace ResponseGraph

structure Table (α : Type) where
  entries : List (String × α)
  increasing : Entries.Increasing entries

namespace Table

variable {α β : Type}

instance [DecidableEq α] : DecidableEq (Table α) := fun a b =>
  if h : a.entries = b.entries then
    isTrue (by cases a; cases b; cases h; rfl)
  else
    isFalse (fun e => h (e ▸ rfl))

def empty : Table α := ⟨[], .nil⟩

instance : Inhabited (Table α) := ⟨empty⟩

def get? (table : Table α) (name : String) : Option α := Entries.get? name table.entries

def contains (table : Table α) (name : String) : Bool := (table.get? name).isSome

def insert (table : Table α) (name : String) (value : α) : Table α :=
  ⟨Entries.insert name value table.entries, table.increasing.insert name value⟩

def erase (table : Table α) (name : String) : Table α :=
  ⟨Entries.erase name table.entries, table.increasing.erase name⟩

def map (f : String → α → β) (table : Table α) : Table β :=
  ⟨table.entries.map fun entry => (entry.1, f entry.1 entry.2), table.increasing.map f⟩

/-- The last value of a name wins. -/
def ofList (entries : List (String × α)) : Table α :=
  entries.foldl (fun table entry => table.insert entry.1 entry.2) empty

def toList (table : Table α) : List (String × α) := table.entries

def keys (table : Table α) : List String := table.entries.map Prod.fst

def size (table : Table α) : Nat := table.entries.length

def isEmpty (table : Table α) : Bool := table.entries.isEmpty

/-- The entries of `changes` replace those of `table`. -/
def override (table changes : Table α) : Table α :=
  changes.entries.foldl (fun acc entry => acc.insert entry.1 entry.2) table

@[simp] theorem get?_empty (name : String) : (empty : Table α).get? name = none := rfl

theorem get?_insert (table : Table α) (name other : String) (value : α) :
    (table.insert name value).get? other =
      if name = other then some value else table.get? other :=
  Entries.get?_insert name other value table.entries

theorem get?_erase (table : Table α) (name other : String) :
    (table.erase name).get? other = if name = other then none else table.get? other :=
  Entries.get?_erase name other table.entries

theorem ext {a b : Table α} (h : ∀ name, a.get? name = b.get? name) : a = b := by
  obtain ⟨entries, ha⟩ := a
  obtain ⟨entries', hb⟩ := b
  cases Entries.Increasing.ext ha hb h
  rfl

end Table

/-- A finite set of names, listed in increasing order. -/
abbrev NameSet := Table Unit

namespace NameSet

def add (set : NameSet) (name : String) : NameSet := set.insert name ()

def ofList (names : List String) : NameSet := names.foldl add Table.empty

theorem contains_add (set : NameSet) (name other : String) :
    (add set name).contains other = (decide (name = other) || set.contains other) := by
  unfold add Table.contains
  rw [Table.get?_insert]
  by_cases h : name = other <;> simp [h]

end NameSet
end ResponseGraph
