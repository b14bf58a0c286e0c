import RecordQuery.Operator.Basic
import RecordQuery.Scalar.Form

/-!
# Reading the JSON form of operators

`Operator.ofJson` reads an object with one member, whose key names the kind; the family of the kind
then reads the payload. A family can be asked to read the payload of any kind. The checks come in a
fixed order: the payload is an array, it has the right length, its parts can be read from left to
right, and their types fit.
-/

namespace RecordQuery

/-- The types a comparison takes on its right; an empty list allows all. -/
def Kind.comparable : Kind → List ScalarType
  | .like | .cidrMatch => [.string]
  | _ => []

/-- The type of the second parameter of the functions that have two. -/
def Kind.argumentType? : Kind → Option ScalarType
  | .interval | .window => some .number
  | .regexpMatch => some .string
  | _ => none

/-- The directions of an ordering, as they are kept. -/
def direction? (text : String) : Option String :=
  if upperCase text = "ASC" then some "asc"
  else if upperCase text = "DESC" then some "desc"
  else none

/-- How the payload of an operator is laid out. -/
inductive PayloadShape where
  /-- An array of so many parts, the first of them the subject. -/
  | subjectFirst (count : Nat)
  /-- An array of one property. -/
  | property
  /-- An array of a property and, for some kinds, an argument. -/
  | parameters
  /-- An array of conditions. -/
  | conditions
  /-- An array of subjects. -/
  | subjects
  /-- An array of pairs of a subject and a direction. -/
  | ordering
  /-- An array of two scalars. -/
  | bounds
  /-- A condition. -/
  | condition
  /-- A number of rows. -/
  | rowCount
  /-- None: a clause was expected, and the kind is no clause. -/
  | notClause
deriving DecidableEq, Repr

/-- The layout in which a family reads the payload of a kind. -/
def PayloadShape.of (family : Family) (kind : Kind) : PayloadShape :=
  match family with
  | .comparison => .subjectFirst 2
  | .membership => .subjectFirst (if kind = .between then 3 else 2)
  | .existence => .property
  | .logical => .conditions
  | .projection => if kind = .asName then .subjectFirst 2 else .parameters
  | .clause =>
    match kind with
    | .select | .groupBy | .groupByPermuted => .subjects
    | .whereClause | .having => .condition
    | .orderBy => .ordering
    | .limit => .rowCount
    | .timeRange => .bounds
    | _ => .notClause

namespace Operator

/-! ## Parts that hold no operator -/

/-- The argument list of an operator must have a given length. -/
def checkCount (kind : Kind) (args : List Json) (expected : Nat) : Except FormFault Unit :=
  if args.length = expected then .ok () else .error (.operandCount kind expected args.length)

/-- A subject may be a property or an operator, not a scalar. -/
def checkSubject : Operand → Except FormFault Operand
  | .value v => .error (.subjectExpected v.text)
  | operand => .ok operand

/-- A scalar operand. -/
def valueOperand (json : Json) : Except FormFault Operand :=
  Operand.value <$> ScalarValue.ofJson json

/-- A bound of a range, which is a number. -/
def boundOperand (json : Json) : Except FormFault Operand := do
  let value ← ScalarValue.ofJson json
  if value.type = .number then .ok (.value value) else .error (.numericBoundExpected value.type)

/-- The right side of a comparison. -/
def comparedOperand (kind : Kind) (json : Json) : Except FormFault Operand := do
  let value ← ScalarValue.ofJson json
  if ScalarValue.allows kind.comparable value.type then .ok (.value value)
  else .error (.stringExpected kind value.type)

/-- The values of a membership test. -/
def listedOperands (kind : Kind) : Json → Except FormFault (List Operand)
  | .array [] => .error (.valuesMissing kind)
  | .array values => values.mapM valueOperand
  | _ => .error (.valueListExpected kind)

/-- The name that `AS` introduces. -/
def aliasName : Json → Except FormFault Operand
  | .string name => .ok (.value (.ofString name))
  | _ => .error .aliasNameExpected

/-- The operator of a kind with a subject. `AS` keeps even a property among its operands. -/
def leading (family : Family) (kind : Kind) (subject : Operand) : Operator :=
  if family = .projection then { kind, operands := [subject] } else about kind subject

/-- The operands behind the subject. -/
def operandsAfter (family : Family) (kind : Kind) (args : List Json) :
    Except FormFault (List Operand) :=
  match family, args with
  | .comparison, [right] => do .ok [← comparedOperand kind right]
  | .membership, [right] => listedOperands kind right
  | .membership, bounds => bounds.mapM boundOperand
  | .projection, [name] => do .ok [← aliasName name]
  | _, _ => .ok []

/-- The operator of a kind whose payload is one property. -/
def propertyOf (kind : Kind) : List Json → Except FormFault Operator
  | [property] => do .ok { kind, property := some (← PropertyRef.ofJson property) }
  | args => .error (.operandCount kind 1 args.length)

/-- The operator of a kind whose payload is a property and the argument the kind calls for. -/
def functionOf (kind : Kind) (args : List Json) : Except FormFault Operator :=
  match kind.argumentType? with
  | none => propertyOf kind args
  | some expected =>
    match args with
    | [property, argument] => do
      let property ← PropertyRef.ofJson property
      let value ← ScalarValue.ofJson argument
      if value.type = expected then
        .ok { kind, property := some property, operands := [.value value] }
      else .error (.argumentType kind expected value.type)
    | args => .error (.operandCount kind 2 args.length)

/-- The operator of a row limit. -/
def limitOf (json : Json) : Except FormFault Operator := do
  let value ← ScalarValue.ofJson json
  if value.isCount then .ok { kind := .limit, operands := [.value value] }
  else .error (.rowCountExpected json.text)

/-! ## Parts that hold operators -/

mutual

/-- The operand that a JSON value denotes. -/
def operandOfJson : Json → Except FormFault Operand
  | .object members =>
    if Table.contains members "source" || Table.contains members "alias" then
      Operand.property <$> PropertyRef.ofJson (.object members)
    else Operand.operator <$> ofMembers members
  | json => valueOperand json

/-- The operator that the members of an object denote. -/
def ofMembers : List (String × Json) → Except FormFault Operator
  | [(key, payload)] =>
    match Kind.ofJsonKey? key with
    | some kind => ofPayload kind.family kind payload
    | none => .error (.unknownOperator key)
  | members => .error (.oneKeyExpected members.length)

/-- The operator of a kind that a payload denotes, read the way a family does. -/
def ofPayload (family : Family) (kind : Kind) : Json → Except FormFault Operator
  | .array args =>
    match PayloadShape.of family kind with
    | .subjectFirst count => do
      checkCount kind args count
      let subject ← leadingSubject kind args
      .ok ((leading family kind subject).withOperands (← operandsAfter family kind args.tail))
    | .property => propertyOf kind args
    | .parameters => functionOf kind args
    | .conditions => do
      if kind = .not then checkCount kind args 1
      .ok { kind, operands := ← conditionsOfJson args }
    | .subjects => do .ok { kind, operands := ← subjectsOfJson args }
    | .ordering => do .ok { kind, operands := ← orderOfJson args }
    | .bounds => do
      checkCount kind args 2
      .ok { kind, operands := ← args.mapM valueOperand }
    | .condition => .error (.operatorExpected (Json.array args).text)
    | .rowCount => limitOf (.array args)
    | .notClause => .error (.notClause kind)
  | .object members =>
    match PayloadShape.of family kind with
    | .condition => do
      let condition ← ofMembers members
      if condition.isCondition then .ok { kind, operands := [.operator condition] }
      else .error (.conditionExpected kind condition.kind)
    | .rowCount => limitOf (.object members)
    | .notClause => .error (.notClause kind)
    | _ => .error (.arrayExpected kind (Json.object members).text)
  | json =>
    match PayloadShape.of family kind with
    | .condition => .error (.operatorExpected json.text)
    | .rowCount => limitOf json
    | .notClause => .error (.notClause kind)
    | _ => .error (.arrayExpected kind json.text)

/-- The subject that the first of the arguments denotes. -/
def leadingSubject (kind : Kind) : List Json → Except FormFault Operand
  | [] => .error (.operandCount kind 1 0)
  | json :: _ => do checkSubject (← operandOfJson json)

/-- The conditions that a list of JSON values denotes. -/
def conditionsOfJson : List Json → Except FormFault (List Operand)
  | [] => .ok []
  | .object members :: rest => do
    let condition ← ofMembers members
    if condition.isCondition then .ok (.operator condition :: (← conditionsOfJson rest))
    else .error (.notCondition condition.kind)
  | json :: _ => .error (.operatorExpected json.text)

/-- The subjects that a list of JSON values denotes. -/
def subjectsOfJson : List Json → Except FormFault (List Operand)
  | [] => .ok []
  | json :: rest => do
    let subject ← checkSubject (← operandOfJson json)
    .ok (subject :: (← subjectsOfJson rest))

/-- The expressions and directions that the entries of an ordering denote, one after the other. -/
def orderOfJson : List Json → Except FormFault (List Operand)
  | [] => .ok []
  | .array [expression, direction] :: rest =>
    match direction.string?.bind direction? with
    | none => .error (.invalidDirection direction.text)
    | some word => do
      let subject ← checkSubject (← operandOfJson expression)
      .ok (subject :: .value (.ofString word) :: (← orderOfJson rest))
  | json :: _ => .error (.orderEntryExpected json.text)

end

/-- The operator that a JSON value denotes. -/
def ofJson : Json → Except FormFault Operator
  | .object members => ofMembers members
  | json => .error (.operatorExpected json.text)

end Operator

/-- The operand that a JSON value denotes. -/
def Operand.ofJson (json : Json) : Except FormFault Operand := Operator.operandOfJson json

end RecordQuery
