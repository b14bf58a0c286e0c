import RecordQuery.Operator.Basic

/-!
# The JSON form of operators

An operator becomes an object with one member: its key, and a payload whose shape depends on the
family. Most payloads are arrays that start with the subject; membership tests put their values in
an array of their own, ordering clauses put each expression in an array with its direction, and the
clauses that hold one condition or one number have that as their payload.
-/

namespace RecordQuery.Operator

/-- The payload of an operator, given the forms of its property and of its operands. -/
def payload (kind : Kind) (property : Option Json) (operands : List Json) : Json :=
  let subject := match property with
    | some p => p
    | none => operands.headD .null
  let rest := match property with
    | some _ => operands
    | none => operands.tail
  match kind.family with
  | .comparison => .array [subject, rest.headD .null]
  | .membership => if kind = .between then .array (subject :: rest)
      else .array [subject, .array rest]
  | .existence => .array [property.getD .null]
  | .logical => .array operands
  | .projection => .array (subject :: rest)
  | .clause =>
    match kind with
    | .whereClause | .having | .limit => operands.headD .null
    | .orderBy => .array ((pairs operands).map .array)
    | _ => .array operands

mutual

/-- The JSON form of an operator. -/
def toJson : Operator → Json
  | ⟨kind, property, operands, _⟩ =>
    .object
      [(kind.jsonKey, payload kind (property.map PropertyRef.toJson) (operandsToJson operands))]

/-- The JSON forms of operands. -/
def operandsToJson : List Operand → List Json
  | [] => []
  | .property p :: rest => p.toJson :: operandsToJson rest
  | .value v :: rest => v.toJson :: operandsToJson rest
  | .operator op :: rest => toJson op :: operandsToJson rest

end

end RecordQuery.Operator

namespace RecordQuery.Operand

/-- The JSON form of an operand. -/
def toJson : Operand → Json
  | property p => p.toJson
  | value v => v.toJson
  | operator op => op.toJson

end RecordQuery.Operand
