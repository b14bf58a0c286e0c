import Mathlib.Tactic.Common
import RecordQuery.Registry

/-!
# Registries find ids by the names they show

Names and ids are registered on both sides at once, and what either was registered with before is
dropped on the other side. So each side of a table is the inverse of the other, whatever was
registered in whatever order.
-/

namespace RecordQuery

namespace Table

variable {α : Type}

/-- A table with an entry put in has this value for its key, and all others as before. -/
lemma get?_insert (table : Table α) (key name : String) (value : α) :
    get? (insert table key value) name = if name = key then some value else get? table name := by
  induction table with
  | nil => rw [insert, get?_cons]
  | cons entry rest ih =>
    rw [insert]
    split
    · rename_i hkey
      rw [get?_cons, get?_cons, hkey]
      by_cases h : name = key <;> simp [h]
    · rename_i hkey
      rw [get?_cons, get?_cons, ih]
      by_cases h : name = entry.1
      · simp [h, hkey]
      · simp [h]

/-- A table with a key taken out has nothing for it, and all others as before. -/
lemma get?_erase (table : Table α) (key name : String) :
    get? (erase table key) name = if name = key then none else get? table name := by
  unfold erase at *
  induction table with
  | nil => simp
  | cons entry rest ih =>
    rw [get?_cons]
    by_cases hkey : entry.1 = key
    · rw [List.filter_cons_of_neg (by simp [hkey]), ih]
      by_cases h : name = key <;> simp [h, hkey]
    · rw [List.filter_cons_of_pos (by simp [hkey]), get?_cons, ih]
      by_cases h : name = entry.1
      · simp [h, hkey]
      · simp [h]

end Table

namespace NameTable

/-- Whether each side of a name table is the inverse of the other. -/
def IsMutual (table : NameTable) : Prop :=
  ∀ name id, table.id? name = some id ↔ table.name? id = some name

/-- The empty table has every pair both ways. -/
lemma isMutual_empty : IsMutual {} := by
  intro name id
  constructor <;> rintro ⟨⟩

/-- The names by id, without the name that is about to be registered. -/
def freed (table : NameTable) (name : String) : Table String :=
  match Table.get? table.byName name with
  | some old => Table.erase table.byId old
  | none => table.byId

/-- A pair is put in both ways, after what its name and its id were registered with is freed. -/
lemma insert_eq (table : NameTable) (name id : String) :
    table.insert name id =
      { byName := match Table.get? (table.freed name) id with
          | some old => Table.erase (Table.insert table.byName name id) old
          | none => Table.insert table.byName name id
        byId := Table.insert (table.freed name) id name } := rfl

namespace IsMutual

variable {table : NameTable}

/-- Freeing a name takes its id's entry out and leaves all others. -/
lemma get?_freed (h : table.IsMutual) (name id : String) :
    Table.get? (table.freed name) id =
      if table.name? id = some name then none else table.name? id := by
  have hname : table.name? id = some name ↔ Table.get? table.byName name = some id :=
    (h name id).symm
  unfold freed
  cases hold : Table.get? table.byName name with
  | none =>
    rw [hold] at hname
    rw [if_neg fun hid => nomatch hname.mp hid]
    rfl
  | some old =>
    rw [hold, Option.some_inj] at hname
    simp only [hname]
    rw [Table.get?_erase]
    simp only [eq_comm]
    rfl

/-- After a registration the id has the name, and no other id has it. -/
lemma name?_insert (h : table.IsMutual) (name id other : String) :
    (table.insert name id).name? other =
      if other = id then some name
      else if table.name? other = some name then none else table.name? other := by
  rw [insert_eq, name?, Table.get?_insert, h.get?_freed]

/-- After a registration the name has the id, and no other name has it. -/
lemma id?_insert (h : table.IsMutual) (name id other : String) :
    (table.insert name id).id? other =
      if other = name then some id
      else if table.id? other = some id then none else table.id? other := by
  have hfreed := h.get?_freed name id
  rw [insert_eq, id?]
  dsimp only
  split
  · rename_i old hold
    rw [hold] at hfreed
    split at hfreed
    · cases hfreed
    · rename_i hname
      have hother : table.id? other = some id ↔ other = old := by
        rw [h other id, ← hfreed, Option.some_inj, eq_comm]
      have hne : old ≠ name := by
        rintro rfl
        exact hname hfreed.symm
      rw [Table.get?_erase, Table.get?_insert]
      simp only [hother]
      by_cases hold : other = old
      · simp [hold, hne]
      · simp [hold, id?]
  · rename_i hold
    rw [hold] at hfreed
    rw [Table.get?_insert]
    split
    · rfl
    · rename_i hne
      have hother : table.id? other ≠ some id := by
        rw [Ne, h other id]
        intro hid
        simp [hid] at hfreed
        exact hne hfreed
      rw [if_neg hother]
      rfl

/-- Registering a name and an id keeps the sides inverse to each other. -/
lemma insert (h : table.IsMutual) (name id : String) : (table.insert name id).IsMutual := by
  intro other otherId
  rw [h.id?_insert, h.name?_insert]
  by_cases hname : other = name
  · by_cases hid : otherId = id
    · simp [hname, hid]
    · subst hname
      have hdropped : ∀ found, (if found = some other then none else found) ≠ some other := by
        intro found
        split
        · exact fun h => nomatch h
        · assumption
      simp only [if_true, if_neg hid, Option.some_inj, hdropped, iff_false]
      exact fun heq => hid heq.symm
  · by_cases hid : otherId = id
    · subst hid
      have hdropped : ∀ found, (if found = some otherId then none else found) ≠ some otherId := by
        intro found
        split
        · exact fun h => nomatch h
        · assumption
      simp only [if_true, if_neg hname, Option.some_inj, hdropped, false_iff]
      exact fun heq => hname heq.symm
    · rw [if_neg hname, if_neg hid]
      have hboth := h other otherId
      constructor
      · intro hfound
        split at hfound
        · cases hfound
        · simp [hboth.mp hfound, hname]
      · intro hfound
        split at hfound
        · cases hfound
        · simp [hboth.mpr hfound, hid]

end IsMutual

/-- A table made of entries has every pair both ways. -/
lemma isMutual_ofEntries (entries : List (String × String)) : (ofEntries entries).IsMutual := by
  have hfold : ∀ (entries : List (String × String)) (table : NameTable), table.IsMutual →
      (entries.foldl (fun table entry => table.insert entry.1 entry.2) table).IsMutual := by
    intro entries
    induction entries with
    | nil => exact fun _ h => h
    | cons entry entries ih => exact fun table h => ih _ (h.insert entry.1 entry.2)
  exact hfold entries empty isMutual_empty

end NameTable

namespace Registry

/-- The registries that can be built. -/
inductive IsBuilt : Registry → Prop
  | empty : IsBuilt empty
  | registerProperty {registry : Registry} (h : IsBuilt registry) (name id : String) :
      IsBuilt (registry.registerProperty name id)
  | registerValue {registry : Registry} (h : IsBuilt registry) (name id : String) :
      IsBuilt (registry.registerValue name id)
  | read {registry : Registry} {text : String} (h : read? text = some registry) : IsBuilt registry

/-- Whether properties and values are found by the names that they are shown under. -/
structure IsMutual (registry : Registry) : Prop where
  properties : registry.properties.IsMutual
  values : registry.values.IsMutual

/-- A table that is read from an object has every pair both ways. -/
lemma isMutual_of_namesOf? {written : Json.Written} {table : NameTable}
    (h : namesOf? written = some table) : table.IsMutual := by
  simp only [namesOf?, Option.pure_def, Option.bind_eq_bind, Option.bind_eq_some_iff,
    Option.some_inj] at h
  obtain ⟨_, -, _, -, entries, -, rfl⟩ := h
  exact NameTable.isMutual_ofEntries _

/-- A table that is read from a member has every pair both ways. -/
lemma isMutual_of_tableUnder? {members : List (String × Json.Written)} {key : String}
    {table : NameTable} (h : tableUnder? members key = some table) : table.IsMutual := by
  unfold tableUnder? at h
  split at h
  · cases h
    exact NameTable.isMutual_empty
  · exact isMutual_of_namesOf? h
  · cases h

/-- A registry that is read from a text has every pair both ways. -/
lemma isMutual_of_read? {text : String} {registry : Registry} (h : read? text = some registry) :
    registry.IsMutual := by
  simp only [read?, Option.pure_def, Option.bind_eq_bind, Option.bind_eq_some_iff] at h
  obtain ⟨written, -, h⟩ := h
  split at h
  · simp only [Option.bind_eq_some_iff, Option.some_inj] at h
    obtain ⟨members, -, properties, hproperties, values, hvalues, rfl⟩ := h
    exact ⟨isMutual_of_tableUnder? hproperties, isMutual_of_tableUnder? hvalues⟩
  · cases h
    exact ⟨NameTable.isMutual_empty, NameTable.isMutual_empty⟩
  · simp only [Option.bind_eq_some_iff, Option.some_inj] at h
    obtain ⟨properties, hproperties, rfl⟩ := h
    exact ⟨isMutual_of_namesOf? hproperties, NameTable.isMutual_empty⟩
  · simp only [Option.bind_eq_some_iff, Option.some_inj] at h
    obtain ⟨properties, hproperties, values, hvalues, rfl⟩ := h
    exact ⟨isMutual_of_namesOf? hproperties, isMutual_of_namesOf? hvalues⟩
  · cases h

/-- However a registry was built, each of its sides is the inverse of the other. -/
theorem IsBuilt.isMutual {registry : Registry} (h : registry.IsBuilt) : registry.IsMutual := by
  induction h with
  | empty => exact ⟨NameTable.isMutual_empty, NameTable.isMutual_empty⟩
  | registerProperty _ name id ih => exact ⟨ih.properties.insert name id, ih.values⟩
  | registerValue _ name id ih => exact ⟨ih.properties, ih.values.insert name id⟩
  | read h => exact isMutual_of_read? h

/-- A property that has a name, or an id that is no name, is found by what it is shown under. -/
lemma IsMutual.propertyId_propertyName {registry : Registry} (h : registry.IsMutual) {id : String}
    (hid : (registry.properties.name? id).isSome ∨ registry.properties.id? id = none) :
    registry.propertyId (registry.propertyName id) = id := by
  unfold propertyId propertyName
  cases hname : registry.properties.name? id with
  | some name =>
    rw [Option.getD_some, (h.properties name id).mpr hname]
    rfl
  | none =>
    rw [hname] at hid
    obtain hid | hid := hid
    · cases hid
    · rw [Option.getD_none, hid]
      rfl

end Registry

end RecordQuery
