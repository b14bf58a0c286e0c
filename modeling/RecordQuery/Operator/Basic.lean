import RecordQuery.Property

/-!
# The operator tree

A query is a tree of operators. The operands of an operator are properties, scalars and further
operators. The *subject* of an operator, what it is about, is a property in most cases and has a
place of its own then; any other subject, as the aggregate in `COUNT(host) > 3`, is the first
operand.

Operators read from a text know their span in it. Spans do not take part in comparisons.
-/

namespace RecordQuery

mutual

/-- An operand of an operator. -/
inductive Operand where
  | property (property : PropertyRef)
  | value (value : ScalarValue)
  | operator (operator : Operator)

/-- A node of the operator tree. -/
structure Operator where
  kind : Kind
  property : Option PropertyRef := none
  operands : List Operand := []
  span : Option Span := none

end

instance : Inhabited Operator := ⟨{ kind := .equals }⟩

instance : Inhabited Operand := ⟨.value .null⟩

namespace Operand

/-- The operator an operand is. -/
def operator? : Operand → Option Operator
  | operator op => some op
  | _ => none

/-- The scalar an operand is. -/
def value? : Operand → Option ScalarValue
  | value v => some v
  | _ => none

/-- The string an operand is. -/
def string? (operand : Operand) : Option String := operand.value?.bind ScalarValue.string?

end Operand

namespace Operator

/-! ## Building -/

/-- An operator about a subject: a property takes its own place, all else comes first among the
operands. -/
def about (kind : Kind) : Operand → Operator
  | .property p => { kind, property := some p }
  | subject => { kind, operands := [subject] }

/-- An operator with more operands behind those it has. -/
def withOperands (op : Operator) (more : List Operand) : Operator :=
  { op with operands := op.operands ++ more }

/-- An operator that spans a range of the source. -/
def withSpan (op : Operator) (span : Span) : Operator := { op with span := some span }

/-- A group of conditions. -/
def group (connective : Connective) (conditions : List Operator) : Operator :=
  { kind := connective.kind, operands := conditions.map .operator }

/-! ## Views -/

/-- The subject, and the operands without it. -/
def splitSubject (op : Operator) : Option Operand × List Operand :=
  match op.property with
  | some p => (some (.property p), op.operands)
  | none => (op.operands.head?, op.operands.tail)

/-- What an operator is about. -/
def subject? (op : Operator) : Option Operand := op.splitSubject.1

/-- The scalars among the operands. -/
def values (op : Operator) : List ScalarValue := op.operands.filterMap Operand.value?

/-- The operators among the operands. -/
def children (op : Operator) : List Operator := op.operands.filterMap Operand.operator?

/-- Whether an operator joins conditions. -/
def isConnective (op : Operator) : Bool := op.kind.isConnective

/-- Whether an operator is true or false of a record. -/
def isCondition (op : Operator) : Bool := op.kind.isCondition

/-- Whether an operator joins or negates conditions but has none. -/
def isEmptyGroup (op : Operator) : Bool :=
  (op.isConnective || op.kind == .not) && op.operands.isEmpty

/-- The name an aggregate has without `AS`: the label of its property and the suffix of its kind. -/
def defaultAlias? (op : Operator) : Option String :=
  match op.kind.aliasSuffix?, op.property with
  | some suffix, some p => some (p.label ++ suffix)
  | _, _ => none

mutual

/-- Whether an operator or anything beneath it aggregates. -/
def containsAggregate : Operator → Bool
  | ⟨kind, _, operands, _⟩ => kind.isAggregate || anyAggregate operands

/-- Whether anything in or beneath some operands aggregates. -/
def anyAggregate : List Operand → Bool
  | [] => false
  | .operator op :: rest => containsAggregate op || anyAggregate rest
  | _ :: rest => anyAggregate rest

end

mutual

/-- An operator without the groups beneath it that hold no condition. -/
def prune : Operator → Operator
  | ⟨kind, property, operands, span⟩ => ⟨kind, property, pruneOperands operands, span⟩

/-- Operands without the groups that hold no condition, and without such groups beneath them. -/
def pruneOperands : List Operand → List Operand
  | [] => []
  | .operator op :: rest =>
    if (prune op).isEmptyGroup then pruneOperands rest
    else .operator (prune op) :: pruneOperands rest
  | operand :: rest => operand :: pruneOperands rest

end

mutual

/-- The first property an operator is about, in the operator or beneath it. -/
def firstProperty? : Operator → Option PropertyRef
  | ⟨_, some p, _, _⟩ => some p
  | ⟨_, none, operands, _⟩ => firstPropertyIn? operands

/-- The first property in or beneath some operands. -/
def firstPropertyIn? : List Operand → Option PropertyRef
  | [] => none
  | .property p :: _ => some p
  | .operator op :: rest => (firstProperty? op).or (firstPropertyIn? rest)
  | .value _ :: rest => firstPropertyIn? rest

end

mutual

/-- Whether two operators are equal, without regard to spans. -/
def same : Operator → Operator → Bool
  | ⟨kind, property, operands, _⟩, other =>
    kind == other.kind && property == other.property && sameOperands operands other.operands

/-- Whether two lists of operands are equal, without regard to spans. -/
def sameOperands : List Operand → List Operand → Bool
  | [], [] => true
  | .property a :: as, .property b :: bs => a == b && sameOperands as bs
  | .value a :: as, .value b :: bs => a.same b && sameOperands as bs
  | .operator a :: as, .operator b :: bs => same a b && sameOperands as bs
  | _, _ => false

end

end Operator

/-- A list cut into pairs, the last of which is short if the length is odd. -/
def pairs {α : Type} : List α → List (List α)
  | [] => []
  | [a] => [[a]]
  | a :: b :: rest => [a, b] :: pairs rest

end RecordQuery
