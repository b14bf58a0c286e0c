import RecordQuery.Phrase.Basic
import RecordQuery.Scalar.Form

/-!
# Items as operands

An item is read as what the operator beside it asks for: a property, a subject, a scalar, a name or
a condition. A bare word can be the first three; which of them is noted as its role.
-/

namespace RecordQuery.Item

/-- An item as a property. A word that is bound as an alias refers to that alias. -/
def property (setting : Setting) (item : Item) : Parse PropertyRef := do
  match item.term, item.token.kind with
  | .raw, .word | .raw, .bracketed =>
    let text := item.token.text
    let isAlias := (← get).draft.isAlias text
    Parse.setRole item.token .property
    return if isAlias then .byAlias text else .ofText text setting.registry
  | .node (.property p), _ => return p
  | _, _ => Parse.failAt setting (.propertyExpected (setting.slice item.span)) item.token

/-- An item as the subject of an operator: a property, or an operator that is no condition. -/
def subject (setting : Setting) (item : Item) : Parse Operand := do
  match item.term with
  | .node (.operator op) =>
    if op.isCondition then return .property (← item.property setting) else return .operator op
  | _ => return .property (← item.property setting)

/-- An item as an expression of a list: a property, or any operator. -/
def expression (setting : Setting) (item : Item) : Parse Operand := do
  match item.term with
  | .node (.operator op) => return .operator op
  | _ => return .property (← item.property setting)

/-- An item as a scalar of one of some types. -/
def value (setting : Setting) (item : Item) (allowed : List ScalarType) : Parse ScalarValue := do
  match item.term, item.token.kind with
  | .raw, .word | .raw, .literal | .raw, .blob =>
    match ScalarValue.inferAs item.token.text item.token.isLiteral allowed with
    | .error fault => Parse.failAt setting fault item.token
    | .ok value =>
      Parse.setRole item.token .value
      return value.resolveNames setting.registry
  | .node (.value v), _ => return v
  | _, _ => Parse.failAt setting (.valueExpected (setting.slice item.span)) item.token

/-- An item as a name. -/
def word (setting : Setting) (item : Item) (role : Role) : Parse String := do
  match item.term, item.token.kind with
  | .raw, .word | .raw, .bracketed | .raw, .literal =>
    Parse.setRole item.token role
    return item.token.text
  | _, _ => Parse.failAt setting (.nameExpected (setting.slice item.span)) item.token

/-- The condition an item is, if it is one. -/
def condition? (item : Item) : Option Operator :=
  match item.term with
  | .node (.operator op) => if op.isCondition then some op else none
  | _ => none

/-- An item as a condition. -/
def condition (setting : Setting) (item : Item) : Parse Operator := do
  match item.condition? with
  | some op => return op
  | none => Parse.failAt setting (.conditionExpected (setting.slice item.span)) item.token

end RecordQuery.Item
