import RecordQuery.Json.Printer
import RecordQuery.Registry
import RecordQuery.Text.Quoted

/-!
# Scalars

A scalar is a string, a number, a truth value or null, together with the text it was written as.
Numbers are decimals, so a number is shown again with the digits it was typed with.

`ScalarValue.infer` reads a bare word: as a number if it has the form of one and a decimal can be
made of it, else as one of the words `null`, `true` and `false`, else as a string. Quoted text is
always a string.
-/

namespace RecordQuery

/-- The types of scalars. -/
inductive ScalarType where
  | string
  | number
  | boolean
  | null
deriving DecidableEq, Repr, Inhabited

/-- The plain name of a scalar type. -/
def ScalarType.name : ScalarType → String
  | string => "string"
  | number => "number"
  | boolean => "boolean"
  | null => "null"

/-- The value of a scalar. -/
inductive Scalar where
  | string (value : String)
  | number (value : Decimal)
  | boolean (value : Bool)
  | null
deriving DecidableEq, Inhabited

/-- A scalar with the text it was written as. -/
structure ScalarValue where
  value : Scalar
  text : String
deriving DecidableEq, Inhabited

namespace Scalar

/-- The type of a scalar. -/
def type : Scalar → ScalarType
  | string _ => .string
  | number _ => .number
  | boolean _ => .boolean
  | null => .null

/-- Whether two scalars are equal; numbers are if they have one value. -/
def same : Scalar → Scalar → Bool
  | string a, string b => a == b
  | number a, number b => a.same b
  | boolean a, boolean b => a == b
  | null, null => true
  | _, _ => false

end Scalar

namespace Decimal

/-- The JSON number that stands for a decimal: an integer where there is no fraction and 64 bits
hold it, else a double. -/
def toJson (d : Decimal) : Json :=
  match d.toInt64? with
  | some n => .integer n
  | none =>
    match d.toDouble? with
    | some double => .double double
    | none => .null

end Decimal

namespace ScalarValue

/-- A string, written as itself. -/
def ofString (s : String) : ScalarValue := ⟨.string s, s⟩

/-- A number, written as its digits. -/
def ofDecimal (d : Decimal) : ScalarValue := ⟨.number d, d.text⟩

/-- The word for a truth value. -/
def boolText (b : Bool) : String := if b then "true" else "false"

/-- A truth value, written as its word. -/
def ofBool (b : Bool) : ScalarValue := ⟨.boolean b, boolText b⟩

/-- Null, written as its word. -/
def null : ScalarValue := ⟨.null, "null"⟩

/-- The type of a scalar. -/
def type (v : ScalarValue) : ScalarType := v.value.type

/-- The decimal of a number. -/
def decimal? (v : ScalarValue) : Option Decimal :=
  match v.value with
  | .number d => some d
  | _ => none

/-- The text of a string. -/
def string? (v : ScalarValue) : Option String :=
  match v.value with
  | .string s => some s
  | _ => none

/-- Whether two scalars are equal, in value and in text. -/
def same (a b : ScalarValue) : Bool := a.value.same b.value && a.text == b.text

/-- Whether a scalar is a number that is whole and not negative. -/
def isCount (v : ScalarValue) : Bool :=
  match v.decimal? with
  | some d => !d.negative && d.isWhole
  | none => false

/-- The scalar that a text denotes. -/
def infer (text : String) (isQuoted : Bool) : ScalarValue :=
  if isQuoted then ofString text
  else
    match Decimal.ofPlain? text.toList with
    | some d => ⟨.number d, text⟩
    | none =>
      if text = "null" then ⟨.null, text⟩
      else if text = "true" then ⟨.boolean true, text⟩
      else if text = "false" then ⟨.boolean false, text⟩
      else ⟨.string text, text⟩

/-- A string that is a registered name becomes the id; the text stays. -/
def resolveNames (v : ScalarValue) (registry : Registry) : ScalarValue :=
  match v.value with
  | .string s =>
    match registry.values.id? s with
    | some id => { v with value := .string id }
    | none => v
  | _ => v

/-- The JSON form of a scalar. -/
def toJson (v : ScalarValue) : Json :=
  match v.value with
  | .string s => .string s
  | .number d => d.toJson
  | .boolean b => .bool b
  | .null => .null

/-- A scalar in a query text: strings quoted, and shown under their registered name. -/
def render (v : ScalarValue) (registry : Registry) : String :=
  match v.value with
  | .string s => Text.quote (registry.valueName s)
  | .number d => d.text
  | .boolean b => boolText b
  | .null => "null"

end ScalarValue

end RecordQuery
