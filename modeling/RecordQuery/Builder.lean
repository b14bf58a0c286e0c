import RecordQuery.Query.Basic

/-!
# Building conditions step by step

A builder holds a query and a path. The path leads from the condition of the query to the group that
is being filled: each of its numbers picks one operand, and the last operator it leads to is that
group. A condition goes behind those of this group. Where the condition of the query is no group, it
becomes the first one of an `AND` group then.

Opening a group puts an empty one behind the conditions of the group being filled, and makes the
path lead to it. A negated group is an `AND` group in a negation, so the path grows by two numbers,
and closing it takes both away. Closing does nothing where no group is open.

The query that is built has no groups that never received a condition, so opening and closing in
vain leaves no trace.
-/

namespace RecordQuery

/-- An operand with the operator it is changed. -/
def Operand.mapOperator (f : Operator → Operator) : Operand → Operand
  | operator op => operator (f op)
  | operand => operand

namespace Operator

/-- A condition with another one put behind it. A condition that is no group becomes the first one
of an `AND` group. -/
def extend (root condition : Operator) : Operator :=
  if root.isConnective then root.withOperands [.operator condition]
  else .group .and [root, condition]

/-- The operator that a path leads to. -/
def at? : List Nat → Operator → Option Operator
  | [], op => some op
  | i :: path, op => (op.operands[i]?.bind Operand.operator?).bind (at? path)

/-- An operator with the one that a path leads to changed. -/
def modifyAt (f : Operator → Operator) : List Nat → Operator → Operator
  | [], op => f op
  | i :: path, op =>
    { op with operands := op.operands.modify i (Operand.mapOperator (modifyAt f path)) }

end Operator

/-- A query that is being built. -/
structure Builder where
  query : Query := {}
  /-- The operands that lead from the condition to the group that is being filled. -/
  path : List Nat := []
deriving Inhabited

namespace Builder

/-- The builder that starts from nothing. -/
def empty : Builder := {}

/-- The builder that starts from a query. -/
def ofQuery (query : Query) : Builder := { query }

/-- The group that is being filled. -/
def focus? (b : Builder) : Option Operator := b.query.rootCondition.at? b.path

/-- Puts a condition behind those of the group being filled, and tells the place it has there. -/
def attach (b : Builder) (condition : Operator) : Option Nat × Builder :=
  (b.focus?.map fun group => (group.extend condition).operands.length - 1,
    { b with query := b.query.modifyCondition (.modifyAt (·.extend condition) b.path) })

/-! ## Conditions -/

/-- Adds a condition to the group being filled. -/
def add (b : Builder) (condition : Operator) : Builder := (b.attach condition).2

/-- The condition that a property stands in a relation to some values. -/
def leaf (kind : Kind) (property : PropertyRef) (values : List ScalarValue) : Operator :=
  { kind, property := some property, operands := values.map .value }

/-- Adds the condition that a property has a value. -/
def equals (b : Builder) (property : PropertyRef) (value : ScalarValue) : Builder :=
  b.add (leaf .equals property [value])

/-- Adds the condition that a property has another value. -/
def notEquals (b : Builder) (property : PropertyRef) (value : ScalarValue) : Builder :=
  b.add (leaf .notEquals property [value])

/-- Adds the condition that a property has one of some values. -/
def isIn (b : Builder) (property : PropertyRef) (values : List ScalarValue) : Builder :=
  b.add (leaf .isIn property values)

/-! ## Groups -/

/-- Puts in a condition that holds an empty group. The group is filled from then on: `steps` leads
to it from the condition. -/
def enter (b : Builder) (condition : Operator) (steps : List Nat) : Builder :=
  match b.attach condition with
  | (some place, b) => { b with path := b.path ++ place :: steps }
  | (none, b) => b

/-- Opens a group whose conditions a connective joins. -/
def openGroup (b : Builder) (connective : Connective) : Builder := b.enter (.group connective []) []

/-- Opens a group whose conditions are not all to hold. -/
def openNegation (b : Builder) : Builder :=
  b.enter { kind := .not, operands := [.operator (.group .and [])] } [0]

/-- Closes the innermost open group, if there is one. Where the path leads to a negation then, the
group was a negated one. -/
def close (b : Builder) : Builder :=
  let outer : Builder :=
    { query := b.query.modifyCondition fun root => root, path := b.path.dropLast }
  if outer.focus?.any fun op => op.kind == .not then { outer with path := outer.path.dropLast }
  else outer

/-! ## The result -/

/-- The query that was built. -/
def build (b : Builder) : Query := b.query.prune

end Builder

end RecordQuery
