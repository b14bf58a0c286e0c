import RecordQuery.Json.DecimalReader
import RecordQuery.Property

/-!
# Testing a record

The JSON form of a condition is tested against one record. Connectives, negation, equality and the
tests for membership in a list are understood; any other operator is a fault. All parts of a
connective are tested before their results are joined, so a fault anywhere in a condition is
reported, whatever the record.

Numbers are equal if they are read as decimals of one value, so `1` is `1.0` here; everything else
is equal if it is the same JSON value, also two numbers of which one is not read. A property that a
record lacks is null.
-/

namespace RecordQuery

/-- A record, told by the value it has for a property in a namespace. -/
abbrev Subject := (name scope : String) → Option Json

/-- A JSON value as a record: the members of an object are the properties of the default namespace,
and the members of a member those of the namespace it is named for. -/
def Subject.ofJson (record : Json) : Subject := fun name scope =>
  if scope = PropertyRef.defaultScope then record.get? name
  else (record.get? scope).bind fun inner => inner.get? name

/-- What can go wrong while a condition is tested. -/
inductive EvaluationFault where
  /-- A key that names no operator the test understands. -/
  | unsupportedOperator (key : String)
  /-- A form that is no condition. -/
  | malformedCondition (found : String)
deriving DecidableEq, Repr

namespace EvaluationFault

/-- The plain name of a fault. -/
def name : EvaluationFault → String
  | unsupportedOperator _ => "unsupported_operator"
  | malformedCondition _ => "malformed_condition"

/-- The message of a fault. -/
def message : EvaluationFault → String
  | unsupportedOperator key => "unsupported operator '" ++ key ++ "' in condition"
  | malformedCondition found => "malformed condition: " ++ found

end EvaluationFault

namespace Evaluation

variable [DecimalReader]

/-- Whether two values are equal: numbers by value, where both are read as decimals. -/
def equal (a b : Json) : Bool :=
  match a.numberText?, b.numberText? with
  | some x, some y =>
    match DecimalReader.read? x, DecimalReader.read? y with
    | some x, some y => x.same y
    | _, _ => a.same b
  | _, _ => a.same b

/-- The value a record has for a property descriptor, which is null where the record lacks the
property; nothing where the descriptor is none. -/
def resolve (subject : Subject) (descriptor : Json) : Option Json :=
  let value (name scope : String) : Json := (subject name scope).getD .null
  match descriptor.get? "source", descriptor.get? "alias" with
  | some (.string id), _ => some (value id PropertyRef.defaultScope)
  | some (.object source), _ =>
    ((Table.get? source "id").bind Json.string?).map fun id =>
      value id (((Table.get? source "ns").bind Json.string?).getD PropertyRef.defaultScope)
  | none, some (.string name) => some (value name PropertyRef.defaultScope)
  | _, _ => none

/-- The values that a value holds: the items of an array, nothing for null, else itself. -/
def held : Json → List Json
  | .array items => items
  | .null => []
  | json => [json]

/-- The fault of a key with operands that do not suit it. -/
def malformed (key : String) (args : Json) : EvaluationFault :=
  .malformedCondition ("'" ++ key ++ "' with operands " ++ args.text)

/-- The test of an operator on a property and one operand, if it is one. -/
def leafTest? (key : String) : Option ((actual operand : Json) → Option Bool) :=
  let onList (f : Json → List Json → Bool) : Json → Json → Option Bool := fun actual operand =>
    operand.items?.map (f actual)
  if key = "=" then some fun actual expected => some (equal actual expected)
  else if key = "!=" then some fun actual expected => some (!equal actual expected)
  else if key = "in" then some (onList fun actual candidates => candidates.any (equal actual))
  else if key = "contains_any" then
    some (onList fun actual wanted => wanted.any fun w => (held actual).any fun h => equal h w)
  else if key = "contains_all" then
    some (onList fun actual wanted => wanted.all fun w => (held actual).any fun h => equal h w)
  else none

/-- Tests an operator on a property and one operand. -/
def testLeaf (subject : Subject) (key : String) (operands : List Json) :
    Except EvaluationFault Bool :=
  match leafTest? key with
  | none => .error (.unsupportedOperator key)
  | some test =>
    match operands with
    | [property, operand] =>
      match (resolve subject property).bind fun actual => test actual operand with
      | some result => .ok result
      | none => .error (malformed key (.array operands))
    | _ => .error (malformed key (.array operands))

mutual

/-- Tests a condition in its JSON form. -/
def test (subject : Subject) : Json → Except EvaluationFault Bool
  | .object [(key, .array operands)] =>
    if key = "and" then do return (← testAll subject operands).all id
    else if key = "or" then do return (← testAll subject operands).any id
    else if key = "not" then
      match operands.length with
      | 1 => do return !(← testAll subject operands).all id
      | _ => .error (malformed key (.array operands))
    else testLeaf subject key operands
  | .object [(key, args)] => .error (malformed key args)
  | json => .error (.malformedCondition json.text)

/-- Tests all conditions of a list. -/
def testAll (subject : Subject) : List Json → Except EvaluationFault (List Bool)
  | [] => .ok []
  | json :: rest => do
    let first ← test subject json
    return first :: (← testAll subject rest)

end

end Evaluation

end RecordQuery
