/-!
# Tables

A finite table from strings to values, as a list of entries. Order is part of the table: an entry
stands where its key first came, and a later value for the same key takes that place. `insertSorted`
serves the tables that are kept in the order of their keys instead.
-/

namespace RecordQuery

/-- The entries of a table, a key occurring once. -/
abbrev Table (α : Type) := List (String × α)

namespace Table

variable {α : Type}

/-- The value under a key. -/
def get? (table : Table α) (key : String) : Option α :=
  List.lookup key table

@[simp] theorem get?_nil (name : String) : get? ([] : Table α) name = none := rfl

/-- A key is looked up in the first entry, then in the others. -/
theorem get?_cons (entry : String × α) (rest : Table α) (name : String) :
    get? (entry :: rest) name = if name = entry.1 then some entry.2 else get? rest name := by
  obtain ⟨key, value⟩ := entry
  rw [get?, List.lookup_cons]
  by_cases h : name = key
  · rw [if_pos h, beq_iff_eq.mpr h]
  · rw [if_neg h, beq_eq_false_iff_ne.mpr h]
    rfl

/-- Whether a key has a value. -/
def contains (table : Table α) (key : String) : Bool :=
  (get? table key).isSome

/-- Puts a value under a key: in the place the key has, or behind all others. -/
def insert : Table α → String → α → Table α
  | [], key, value => [(key, value)]
  | entry :: rest, key, value =>
    if entry.1 = key then (key, value) :: rest else entry :: insert rest key value

/-- Takes a key and its value out. -/
def erase (table : Table α) (key : String) : Table α :=
  table.filter fun entry => entry.1 != key

/-- Puts a value under a key of a table whose keys increase, keeping them so. -/
def insertSorted : Table α → String → α → Table α
  | [], key, value => [(key, value)]
  | entry :: rest, key, value =>
    if entry.1 = key then (key, value) :: rest
    else if key < entry.1 then (key, value) :: entry :: rest
    else entry :: insertSorted rest key value

/-- The table that results from putting the entries in one after the other. -/
def ofEntries (entries : List (String × α)) : Table α :=
  entries.foldl (fun table entry => insert table entry.1 entry.2) []

end Table

end RecordQuery
