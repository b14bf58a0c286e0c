import Mathlib.Data.Set.Card
import RecordQuery.Proofs.NameTables

/-!
# What is left of registrations

A registration drops what its name and its id were registered with before. So what a name table
holds can be told from the registrations alone: a name and an id belong together if the last
registration of the name is the last registration of the id. Whatever came before it, and whatever
names and ids were taken from one another on the way, makes no difference.

The step is `NameTable.IsMutual.id?_insert`, and the run is an induction on the registrations, the
latest one first. The number of names is the number of pairs because no name has two entries, which
the sides of a table keep as well.
-/

namespace RecordQuery

namespace Table

variable {α : Type}

/-- Putting an entry in adds its key. -/
lemma mem_keys_insert (table : Table α) (key name : String) (value : α) :
    name ∈ (insert table key value).map Prod.fst ↔ name = key ∨ name ∈ table.map Prod.fst := by
  induction table with
  | nil => simp [insert]
  | cons entry rest ih =>
    rw [insert]
    split
    · rename_i hkey
      simp [hkey]
    · rw [List.map_cons, List.map_cons, List.mem_cons, List.mem_cons, ih]
      tauto

/-- Putting an entry in keeps keys apart. -/
lemma nodup_keys_insert {table : Table α} (h : (table.map Prod.fst).Nodup) (key : String)
    (value : α) : ((insert table key value).map Prod.fst).Nodup := by
  induction table with
  | nil => simp [insert]
  | cons entry rest ih =>
    rw [List.map_cons, List.nodup_cons] at h
    rw [insert]
    split
    · rename_i hkey
      rw [List.map_cons, List.nodup_cons, ← hkey]
      exact h
    · rename_i hkey
      rw [List.map_cons, List.nodup_cons, mem_keys_insert, not_or]
      exact ⟨⟨hkey, h.1⟩, ih h.2⟩

/-- Taking an entry out keeps keys apart. -/
lemma nodup_keys_erase {table : Table α} (h : (table.map Prod.fst).Nodup) (key : String) :
    ((erase table key).map Prod.fst).Nodup :=
  h.sublist (List.filter_sublist.map _)

/-- In a table whose keys are distinct, every entry is found. -/
lemma get?_eq_some_iff_mem {table : Table α} (h : (table.map Prod.fst).Nodup) {name : String}
    {value : α} : get? table name = some value ↔ (name, value) ∈ table := by
  induction table with
  | nil => simp
  | cons entry rest ih =>
    obtain ⟨key, first⟩ := entry
    rw [List.map_cons, List.nodup_cons] at h
    rw [get?_cons, List.mem_cons, Prod.mk.injEq]
    by_cases hname : name = key
    · have hrest : (name, value) ∉ rest := fun hmem =>
        h.1 (List.mem_map.mpr ⟨_, hmem, hname⟩)
      simp [hname, hname ▸ hrest, eq_comm]
    · simp [hname, ih h.2]

end Table

/-! ## One table -/

/-- Whether the entry at a place is the last one of a list with a property. -/
def IsLastWith {α : Type} (P : α → Prop) (l : List α) (k : ℕ) : Prop :=
  (∃ a, l[k]? = some a ∧ P a) ∧ ∀ j a, k < j → l[j]? = some a → ¬ P a

section

variable {α : Type} {P : α → Prop} {l : List α} {a : α} {k : ℕ}

/-- The last member is the last one with a property if it has it. -/
lemma isLastWith_concat_length : IsLastWith P (l ++ [a]) l.length ↔ P a := by
  constructor
  · rintro ⟨⟨b, hb, hP⟩, -⟩
    rw [List.getElem?_concat_length, Option.some_inj] at hb
    exact hb ▸ hP
  · intro hP
    refine ⟨⟨a, List.getElem?_concat_length, hP⟩, fun j b hj hb => ?_⟩
    rw [List.getElem?_eq_none (by simp; omega)] at hb
    cases hb

/-- An earlier member is the last one with a property if it was and the new one does not have it. -/
lemma isLastWith_concat_of_lt (hk : k < l.length) :
    IsLastWith P (l ++ [a]) k ↔ ¬ P a ∧ IsLastWith P l k := by
  constructor
  · rintro ⟨⟨b, hb, hP⟩, hlast⟩
    rw [List.getElem?_append_left hk] at hb
    refine ⟨hlast l.length a hk List.getElem?_concat_length, ⟨b, hb, hP⟩, fun j c hj hc => ?_⟩
    obtain ⟨hlt, -⟩ := List.getElem?_eq_some_iff.mp hc
    exact hlast j c hj (List.getElem?_append_left hlt ▸ hc)
  · rintro ⟨ha, ⟨b, hb, hP⟩, hlast⟩
    refine ⟨⟨b, List.getElem?_append_left hk ▸ hb, hP⟩, fun j c hj hc => ?_⟩
    obtain hlt | rfl | hgt := lt_trichotomy j l.length
    · exact hlast j c hj (List.getElem?_append_left hlt ▸ hc)
    · rw [List.getElem?_concat_length, Option.some_inj] at hc
      exact hc ▸ ha
    · rw [List.getElem?_eq_none (by simp; omega)] at hc
      cases hc

end

namespace NameTable

/-- Whether a name and an id were registered together, neither of them being registered again. -/
def RegisteredLast (entries : List (String × String)) (name id : String) : Prop :=
  ∃ k, entries[k]? = some (name, id) ∧
    IsLastWith (fun entry => entry.1 = name) entries k ∧
    IsLastWith (fun entry => entry.2 = id) entries k

/-- Without registrations nothing is registered. -/
lemma not_registeredLast_nil (name id : String) : ¬ RegisteredLast [] name id := by
  rintro ⟨k, hk, -⟩
  cases hk

/-- One more registration: it counts itself, and of the others those that share nothing with it. -/
lemma registeredLast_concat (entries : List (String × String)) (entry : String × String)
    (name id : String) :
    RegisteredLast (entries ++ [entry]) name id ↔
      entry = (name, id) ∨ (entry.1 ≠ name ∧ entry.2 ≠ id ∧ RegisteredLast entries name id) := by
  constructor
  · rintro ⟨k, hk, hname, hid⟩
    obtain ⟨hlt, -⟩ := List.getElem?_eq_some_iff.mp hk
    rw [List.length_append, List.length_singleton, Nat.lt_succ_iff_lt_or_eq] at hlt
    obtain hlt | rfl := hlt
    · rw [isLastWith_concat_of_lt hlt] at hname hid
      rw [List.getElem?_append_left hlt] at hk
      exact .inr ⟨hname.1, hid.1, k, hk, hname.2, hid.2⟩
    · rw [List.getElem?_concat_length, Option.some_inj] at hk
      exact .inl hk
  · rintro (rfl | ⟨hname, hid, k, hk, hlastName, hlastId⟩)
    · exact ⟨entries.length, List.getElem?_concat_length, isLastWith_concat_length.mpr rfl,
        isLastWith_concat_length.mpr rfl⟩
    · obtain ⟨hlt, -⟩ := List.getElem?_eq_some_iff.mp hk
      exact ⟨k, List.getElem?_append_left hlt ▸ hk,
        (isLastWith_concat_of_lt hlt).mpr ⟨hname, hlastName⟩,
        (isLastWith_concat_of_lt hlt).mpr ⟨hid, hlastId⟩⟩

/-- A table with more pairs registered, one after the other. -/
def insertAll (table : NameTable) (entries : List (String × String)) : NameTable :=
  entries.foldl (fun table entry => table.insert entry.1 entry.2) table

/-- A table made of entries is made by putting them in one by one. -/
lemma ofEntries_concat (entries : List (String × String)) (entry : String × String) :
    ofEntries (entries ++ [entry]) = (ofEntries entries).insert entry.1 entry.2 := by
  rw [ofEntries, List.foldl_append]
  rfl

/-- After any registrations, the pairs of a table are those that were registered last. -/
lemma id?_ofEntries_eq_some_iff (entries : List (String × String)) (name id : String) :
    (ofEntries entries).id? name = some id ↔ RegisteredLast entries name id := by
  induction entries using List.reverseRecOn with
  | nil => exact ⟨fun h => (nomatch h), fun h => absurd h (not_registeredLast_nil name id)⟩
  | append_singleton entries entry ih =>
    obtain ⟨newName, newId⟩ := entry
    rw [ofEntries_concat, (isMutual_ofEntries entries).id?_insert, registeredLast_concat, ← ih,
      Prod.mk.injEq]
    by_cases hname : name = newName
    · subst hname
      simp
    · rw [if_neg hname]
      by_cases hheld : (ofEntries entries).id? name = some newId
      · rw [if_pos hheld, hheld, Option.some_inj]
        constructor
        · exact fun h => nomatch h
        · rintro (⟨h, -⟩ | ⟨-, hid, h⟩)
          · exact absurd h.symm hname
          · exact absurd h hid
      · rw [if_neg hheld]
        constructor
        · intro h
          refine .inr ⟨Ne.symm hname, ?_, h⟩
          rintro rfl
          exact hheld h
        · rintro (⟨h, -⟩ | ⟨-, -, h⟩)
          · exact absurd h.symm hname
          · exact h

/-- The pairs of a name and an id that a table holds. -/
def pairs (table : NameTable) : Set (String × String) :=
  {pair | table.id? pair.1 = some pair.2}

/-- Registering a name keeps names apart. -/
lemma nodup_names_insert {table : NameTable} (h : (table.byName.map Prod.fst).Nodup)
    (name id : String) : ((table.insert name id).byName.map Prod.fst).Nodup := by
  rw [insert_eq]
  dsimp only
  split
  · exact Table.nodup_keys_erase (Table.nodup_keys_insert h name id) _
  · exact Table.nodup_keys_insert h name id

/-- In a table made of entries names are apart. -/
lemma nodup_names_ofEntries (entries : List (String × String)) :
    ((ofEntries entries).byName.map Prod.fst).Nodup := by
  induction entries using List.reverseRecOn with
  | nil => exact .nil
  | append_singleton entries entry ih =>
    rw [ofEntries_concat]
    exact nodup_names_insert ih entry.1 entry.2

/-- A table whose names are distinct has as many names as pairs. -/
lemma size_eq_ncard_pairs {table : NameTable} (h : (table.byName.map Prod.fst).Nodup) :
    table.size = table.pairs.ncard := by
  have hpairs : table.pairs = (table.byName.toFinset : Set (String × String)) := by
    ext ⟨name, id⟩
    rw [List.coe_toFinset]
    exact Table.get?_eq_some_iff_mem h
  rw [hpairs, Set.ncard_coe_finset, List.toFinset_card_of_nodup (List.Nodup.of_map _ h)]
  rfl

/-- Whether a table holds what is left of some registrations. -/
structure HoldsLast (table : NameTable) (entries : List (String × String)) : Prop where
  /-- Each side of the table is the inverse of the other. -/
  inverse : ∀ name id, table.id? name = some id ↔ table.name? id = some name
  /-- There are as many names as pairs. -/
  size : table.size = table.pairs.ncard
  /-- The pairs are those of which the last registration of the name is that of the id. -/
  pair : ∀ name id, table.id? name = some id ↔ RegisteredLast entries name id

/-- A table made of entries holds what is left of them. -/
lemma holdsLast_ofEntries (entries : List (String × String)) :
    (ofEntries entries).HoldsLast entries :=
  ⟨isMutual_ofEntries entries, size_eq_ncard_pairs (nodup_names_ofEntries entries),
    id?_ofEntries_eq_some_iff entries⟩

end NameTable

/-! ## Both tables -/

namespace Registry

/-- A registration of a name for an id. -/
inductive Registration where
  | property (name id : String)
  | value (name id : String)

namespace Registration

/-- The name and the id, if they are those of a property. -/
def property? : Registration → Option (String × String)
  | property name id => some (name, id)
  | value _ _ => none

/-- The name and the id, if they are those of a value. -/
def value? : Registration → Option (String × String)
  | property _ _ => none
  | value name id => some (name, id)

end Registration

/-- Registers a name. -/
def register (registry : Registry) : Registration → Registry
  | .property name id => registry.registerProperty name id
  | .value name id => registry.registerValue name id

/-- A registration changes the table it is for, and no other. -/
lemma register_eq (registry : Registry) (registration : Registration) :
    registry.register registration =
      { properties := registry.properties.insertAll registration.property?.toList
        values := registry.values.insertAll registration.value?.toList } := by
  cases registration <;> rfl

/-- Registrations of properties and of values go into tables of their own. -/
lemma foldl_register_eq (registry : Registry) (registrations : List Registration) :
    registrations.foldl register registry =
      { properties := registry.properties.insertAll (registrations.filterMap Registration.property?)
        values := registry.values.insertAll (registrations.filterMap Registration.value?) } := by
  induction registrations generalizing registry with
  | nil => rfl
  | cons registration registrations ih =>
    rw [List.foldl_cons, ih, register_eq]
    cases registration <;> rfl

/-- After any registrations a name table holds what is left of them: its pairs are those of which
the last registration of the name is the last one of the id. And however properties and values are
registered in turn, each table of a registry is the one that its own registrations lead to. The
registrations for the other table make no difference, and where there are no others, a table stays
what it was. -/
theorem tables_hold_last :
    (∀ entries : List (String × String), (NameTable.ofEntries entries).HoldsLast entries) ∧
      ∀ (registry : Registry) (registrations : List Registration),
        (registrations.foldl register registry).properties =
            registry.properties.insertAll (registrations.filterMap Registration.property?) ∧
          (registrations.foldl register registry).values =
            registry.values.insertAll (registrations.filterMap Registration.value?) := by
  refine ⟨NameTable.holdsLast_ofEntries, fun registry registrations => ?_⟩
  rw [foldl_register_eq]
  exact ⟨rfl, rfl⟩

end Registry

end RecordQuery
