import RecordQuery.Json.Reader

/-!
# Registered names

The ids of properties and values are opaque, so query texts show registered names in their place.
A name table holds both directions. Registering a name or an id again drops what it was registered
with before on the other side, so each table is the inverse of the other.
-/

namespace RecordQuery

/-- Names and ids, from each side. -/
structure NameTable where
  byName : Table String := []
  byId : Table String := []
deriving DecidableEq, Inhabited

namespace NameTable

/-- The table without entries. -/
def empty : NameTable := {}

/-- Registers a name for an id. The id the name had loses it, and so does the name the id had. -/
def insert (table : NameTable) (name id : String) : NameTable :=
  let byId := match Table.get? table.byName name with
    | some oldId => Table.erase table.byId oldId
    | none => table.byId
  let byName := Table.insert table.byName name id
  { byName := match Table.get? byId id with
      | some oldName => Table.erase byName oldName
      | none => byName
    byId := Table.insert byId id name }

/-- The id registered for a name. -/
def id? (table : NameTable) (name : String) : Option String := Table.get? table.byName name

/-- The name registered for an id. -/
def name? (table : NameTable) (id : String) : Option String := Table.get? table.byId id

/-- The number of registered names. -/
def size (table : NameTable) : Nat := table.byName.length

/-- Whether nothing is registered. -/
def isEmpty (table : NameTable) : Bool := table.byName.isEmpty

/-- The table that results from registering pairs of a name and an id in order. -/
def ofEntries (entries : List (String × String)) : NameTable :=
  entries.foldl (fun table entry => table.insert entry.1 entry.2) empty

end NameTable

/-- The registered names of properties and of values, apart from each other. -/
structure Registry where
  properties : NameTable := {}
  values : NameTable := {}
deriving DecidableEq, Inhabited

namespace Registry

/-- The registry without names. -/
def empty : Registry := {}

/-- Registers the name of a property. -/
def registerProperty (registry : Registry) (name id : String) : Registry :=
  { registry with properties := registry.properties.insert name id }

/-- Registers the name of a value. -/
def registerValue (registry : Registry) (name id : String) : Registry :=
  { registry with values := registry.values.insert name id }

/-- The id of a property, given a name or an id. -/
def propertyId (registry : Registry) (name : String) : String :=
  (registry.properties.id? name).getD name

/-- The name a property is shown under. -/
def propertyName (registry : Registry) (id : String) : String :=
  (registry.properties.name? id).getD id

/-- The name a value is shown under. -/
def valueName (registry : Registry) (id : String) : String :=
  (registry.values.name? id).getD id

/-! ## Registry files -/

/-- The names in an object whose values are all strings, the last value of a repeated key. -/
def namesOf? (written : Json.Written) : Option NameTable := do
  let members ← (← written.value? Json.maxNesting).members?
  let entries ← members.mapM fun (name, id) => id.string?.map fun id => (name, id)
  return NameTable.ofEntries (Table.ofEntries entries)

/-- The table under a key, which may be missing but not repeated. -/
def tableUnder? (members : List (String × Json.Written)) (key : String) : Option NameTable :=
  match members.filter fun member => member.1 == key with
  | [] => some {}
  | [(_, written)] => namesOf? written
  | _ => none

/-- Reads a registry from the text of an object with the members `properties` and `values`, each an
object from names to ids; either may be missing. Of other members only the keys need to denote
anything: their values may be whatever the grammar of JSON allows. A list of the two objects is
accepted as well. -/
def read? (text : String) : Option Registry := do
  match ← Json.Written.ofText? text with
  | .object members => do
    let members ← Json.Written.keyed? members
    let properties ← tableUnder? members "properties"
    let values ← tableUnder? members "values"
    return { properties, values }
  | .array [] => return empty
  | .array [properties] => return { properties := ← namesOf? properties }
  | .array [properties, values] =>
    return { properties := ← namesOf? properties, values := ← namesOf? values }
  | _ => none

end Registry

end RecordQuery
