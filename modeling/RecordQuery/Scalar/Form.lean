import RecordQuery.Problem

/-!
# Reading scalars

Scalars are read from JSON values and from the words of a query text. A JSON number becomes the
decimal that its text denotes and keeps that text; one whose text no decimal holds is refused. A
word may be restricted to some types, an empty list of types allowing all.
-/

namespace RecordQuery.ScalarValue

/-- The scalar of a JSON value that is neither an array nor an object. -/
def ofJson (json : Json) : Except FormFault ScalarValue :=
  match json with
  | .string s => .ok (ofString s)
  | .bool b => .ok (ofBool b)
  | .null => .ok null
  | json =>
    match json.numberText? with
    | some text =>
      match Decimal.ofText? text.toList with
      | some d => .ok ⟨.number d, text⟩
      | none => .error (.numberOutOfRange text)
    | none => .error (.scalarExpected json.text)

/-- Whether a type is among those allowed. -/
def allows (allowed : List ScalarType) (type : ScalarType) : Bool :=
  allowed.isEmpty || allowed.contains type

/-- The scalar that a text denotes, if it is of an allowed type. -/
def inferAs (text : String) (isQuoted : Bool) (allowed : List ScalarType) :
    Except PhraseFault ScalarValue :=
  let value := infer text isQuoted
  if allows allowed value.type then .ok value
  else .error (.wrongType allowed value.type text)

end RecordQuery.ScalarValue
