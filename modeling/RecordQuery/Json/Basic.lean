import RecordQuery.Number.Double
import RecordQuery.Table

/-!
# JSON values

The members of an object keep the order in which they were written. A number is either an integer
or a double, never both: `1` and `1.0` are two different values, and `Json.same`, which decides when
two values are equal, tells them apart. Objects are compared without regard to order.
-/

namespace RecordQuery

/-- A JSON value. -/
inductive Json where
  | null
  | bool (value : Bool)
  | integer (value : Int)
  | double (value : Double)
  | string (value : String)
  | array (items : List Json)
  | object (members : List (String × Json))
deriving Inhabited

namespace Json

/-- The members of an object. -/
def members? : Json → Option (Table Json)
  | object members => some members
  | _ => none

/-- The items of an array. -/
def items? : Json → Option (List Json)
  | array items => some items
  | _ => none

/-- The text of a string. -/
def string? : Json → Option String
  | string value => some value
  | _ => none

/-- The value of a member, where there is one. -/
def get? (json : Json) (key : String) : Option Json :=
  json.members?.bind fun members => Table.get? members key

/-- Whether a value is a number. -/
def isNumber : Json → Bool
  | integer _ | double _ => true
  | _ => false

/-- An array of strings. -/
def strings (values : List String) : Json := array (values.map string)

mutual

/-- Whether two values are equal: numbers of the same sort by value, objects as sets of members. -/
def same : Json → Json → Bool
  | null, null => true
  | bool a, bool b => a == b
  | integer a, integer b => a == b
  | double a, double b => a.same b
  | string a, string b => a == b
  | array a, array b => sameItems a b
  | object a, object b => a.length == b.length && sameMembers a b
  | _, _ => false

/-- Whether two lists are equal item by item. -/
def sameItems : List Json → List Json → Bool
  | [], [] => true
  | a :: as, b :: bs => same a b && sameItems as bs
  | _, _ => false

/-- Whether every member of the first list is a member of the second. -/
def sameMembers : List (String × Json) → List (String × Json) → Bool
  | [], _ => true
  | (key, a) :: rest, bs =>
    (match Table.get? bs key with
      | some b => same a b
      | none => false) && sameMembers rest bs

end

end Json

end RecordQuery
