import RecordQuery.Operator.Decode
import RecordQuery.Phrase.Operand

/-!
# Operators inside a phrase

An operator makes itself out of its neighbours in the phrase and of the parameters in its
parentheses. A comparison takes an item on either side, a membership test the item before it, an
existence test and a negation the item after it, `AS` one on either side, and a function none.

Each family looks for its parts in a fixed order, and the first one missing is the fault reported.
-/

namespace RecordQuery

/-- Whether an operator claims the item before it. -/
def Kind.claimsLeft (kind : Kind) : Bool :=
  match kind.family with
  | .comparison | .membership => true
  | .projection => kind == .asName
  | _ => false

/-- Whether an operator claims the item after it. -/
def Kind.claimsRight (kind : Kind) : Bool :=
  match kind.family with
  | .comparison | .existence => true
  | .logical => kind == .not
  | .projection => kind == .asName
  | _ => false

/-- An operator that is about to claim its neighbours. -/
structure Claim where
  kind : Kind
  token : Token
  parameters : Option (List Item)
  left : Option Item
  right : Option Item

namespace Claim

/-- An item that has to be there. -/
def require (setting : Setting) (claim : Claim) (fault : PhraseFault) : Option Item → Parse Item
  | some item => return item
  | none => Parse.failAt setting fault claim.token

/-- The parameters, which have to be there. -/
def requireParameters (setting : Setting) (claim : Claim) : Parse (List Item) :=
  match claim.parameters with
  | some items => return items
  | none => Parse.failAt setting (.parenthesisExpected claim.kind) claim.token

/-- The parameters, of which there have to be so many. -/
def exactParameters (setting : Setting) (claim : Claim) (count : Nat) : Parse (List Item) := do
  let items ← claim.requireParameters setting
  if items.length = count then return items
  else Parse.failAt setting (.parameterCount claim.kind count items.length) claim.token

/-- Scalars out of items. -/
def values (setting : Setting) (allowed : List ScalarType) : List Item → Parse (List Operand)
  | [] => return []
  | item :: rest => do
    let value ← item.value setting allowed
    return .value value :: (← values setting allowed rest)

/-- A comparison. -/
def comparison (setting : Setting) (claim : Claim) : Parse Operator := do
  let left ← claim.require setting (.leftOperandMissing .comparison claim.kind) claim.left
  let right ← claim.require setting (.rightOperandMissing .comparison claim.kind) claim.right
  let subject ← left.subject setting
  let value ← right.value setting claim.kind.comparable
  return (Operator.about claim.kind subject).withOperands [.value value]

/-- A membership test. -/
def membership (setting : Setting) (claim : Claim) : Parse Operator := do
  let items ← claim.requireParameters setting
  let left ← claim.require setting (.leftOperandMissing .membership claim.kind) claim.left
  let subject ← left.subject setting
  if claim.kind = .between then
    if items.length ≠ 2 then Parse.failAt setting (.boundCount items.length) claim.token
  else if items.isEmpty then Parse.failAt setting (.valuesMissing claim.kind) claim.token
  let allowed := if claim.kind = .between then [.number] else []
  return (Operator.about claim.kind subject).withOperands (← values setting allowed items)

/-- An existence test. -/
def existence (setting : Setting) (claim : Claim) : Parse Operator := do
  let right ← claim.require setting (.rightOperandMissing .existence claim.kind) claim.right
  return { kind := claim.kind, property := some (← right.property setting) }

/-- A negation. The other logical operators join whole phrases and claim nothing. -/
def logical (setting : Setting) (claim : Claim) : Parse Operator := do
  if claim.kind ≠ .not then
    Parse.failAt setting (.conditionOnBothSides claim.kind.keyword) claim.token
  let right ← claim.require setting (.rightOperandMissing .logical claim.kind) claim.right
  return { kind := claim.kind, operands := [.operator (← right.condition setting)] }

/-- The introduction of a name. -/
def naming (setting : Setting) (claim : Claim) : Parse Operator := do
  let left ← claim.require setting (.leftOperandMissing .projection .asName) claim.left
  let right ← claim.require setting (.rightOperandMissing .projection .asName) claim.right
  let target ← left.subject setting
  let name ← right.word setting .aliasName
  Parse.bindAlias name target
  return { kind := .asName, operands := [target, .value (.ofString name)] }

/-- The parameters of a function, which have been counted: a property, and an argument where the
kind calls for one. -/
def arguments (setting : Setting) (claim : Claim) : List Item → Parse Operator
  | [] => throw { fault := .phrase .parameterMissing }
  | first :: rest => do
    let property ← first.property setting
    let allowed := claim.kind.argumentType?.toList
    let operands ← values setting allowed rest
    return { kind := claim.kind, property := some property, operands }

/-- A function. An aggregate also introduces its default name. -/
def function (setting : Setting) (claim : Claim) : Parse Operator := do
  let items ← claim.exactParameters setting (if claim.kind.argumentType?.isSome then 2 else 1)
  let op ← claim.arguments setting items
  if let some name := op.defaultAlias? then
    Parse.bindAlias name (.operator op)
  return op

/-- The operator that a claim makes, the way a family makes it. -/
def produce (setting : Setting) (family : Family) (claim : Claim) : Parse Operator :=
  match family with
  | .comparison => claim.comparison setting
  | .membership => claim.membership setting
  | .existence => claim.existence setting
  | .logical => claim.logical setting
  | .projection => if claim.kind = .asName then claim.naming setting else claim.function setting
  | .clause => throw { fault := .phrase (.onlyClause claim.kind) }

/-- The span of an operator and of what it has claimed. -/
def span (claim : Claim) (own : Span) : Span :=
  (claim.left.toList ++ claim.right.toList).foldl (fun span item => span.cover item.span) own

end Claim

end RecordQuery
