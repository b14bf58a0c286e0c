import RecordQuery.Evaluation
import RecordQuery.Operator.Decode
import RecordQuery.Operator.Encode
import RecordQuery.Operator.Render
import RecordQuery.Query.Draft

/-!
# Queries

A query is a list of clauses, in the fixed order of clauses and one of each kind at most, the two
grouping clauses counting as one. Beside the clauses it knows the names they introduce and the
problems that were met while they were read.

Two answers are remembered once they are computed: whether the query aggregates, and the JSON form
of its condition. Any change to the clauses forgets both. So reading these answers gives back the
query as well.
-/

namespace RecordQuery

/-- Answers that were computed already. -/
structure Memo where
  isAggregate : Option Bool := none
  conditionJson : Option (Option Json) := none
deriving Inhabited

/-- A query. -/
structure Query where
  name : Option String := none
  clauses : List Operator := []
  aliases : Table Operand := []
  warnings : List Problem := []
  memo : Memo := {}
deriving Inhabited

namespace Query

/-- The query without clauses. -/
def empty : Query := {}

/-- A query without clauses that has a name. -/
def named (name : String) : Query := { name := some name }

/-- The clause of a kind. -/
def clause? (q : Query) (kind : Kind) : Option Operator :=
  q.clauses.find? fun clause => clause.kind == kind

/-! ## The clauses -/

/-- Puts a clause before the first one that comes later in the order of clauses. -/
def insertClause (clause : Operator) : List Operator → List Operator
  | [] => [clause]
  | other :: rest =>
    if clause.kind.rank < other.kind.rank then clause :: other :: rest
    else other :: insertClause clause rest

/-- A query with other clauses, nothing remembered. -/
def withClauses (q : Query) (clauses : List Operator) : Query := { q with clauses, memo := {} }

/-- Puts a clause in, in place of the one it competes with. -/
def setClause (q : Query) (clause : Operator) : Query :=
  q.withClauses <|
    insertClause clause (q.clauses.filter fun other => !other.kind.competes clause.kind)

/-- The condition of the query. -/
def condition? (q : Query) : Option Operator :=
  (q.clause? .whereClause).bind fun clause => clause.operands.head?.bind Operand.operator?

/-- The condition that the operands of a clause hold; anything else counts as an empty group. -/
def conditionOf (operands : List Operand) : Operator :=
  match operands with
  | .operator condition :: _ => condition
  | _ => .group .and []

/-- The condition that `modifyCondition` starts from. -/
def rootCondition (q : Query) : Operator :=
  match q.clause? .whereClause with
  | some clause => conditionOf clause.operands
  | none => .group .and []

/-- The clauses with the condition of the first `WHERE` among them changed. -/
def modifyFirst (f : Operator → Operator) : List Operator → List Operator
  | [] => []
  | clause :: rest =>
    if clause.kind = .whereClause then
      { clause with
        operands := .operator (f (conditionOf clause.operands)) :: clause.operands.tail } ::
        rest
    else clause :: modifyFirst f rest

/-- Changes the condition. A query without one gets an empty group first. -/
def modifyCondition (q : Query) (f : Operator → Operator) : Query :=
  let clauses :=
    if (q.clause? .whereClause).isSome then q.clauses
    else insertClause { kind := .whereClause } q.clauses
  q.withClauses (modifyFirst f clauses)

/-- The clauses with the first `WHERE` among them pruned. -/
def pruneFirst : List Operator → List Operator
  | [] => []
  | clause :: rest =>
    if clause.kind = .whereClause then clause.prune :: rest else clause :: pruneFirst rest

/-- Drops the groups without conditions, and a `WHERE` that is left with nothing. -/
def prune (q : Query) : Query :=
  q.withClauses <| (pruneFirst q.clauses).filter fun clause =>
    clause.kind != .whereClause || !clause.operands.isEmpty

/-- A condition joined to another with a connective. A group of that connective takes the new
condition in, and so does an empty group, whatever its connective was. -/
def combine (connective : Connective) (condition root : Operator) : Operator :=
  if root.kind = connective.kind ∨ (root.isConnective ∧ root.operands.isEmpty) then
    { root with kind := connective.kind, operands := root.operands ++ [.operator condition] }
  else .group connective [root, condition]

/-- Joins a condition to that of the query with `AND`. -/
def and (q : Query) (condition : Operator) : Query := q.modifyCondition (combine .and condition)

/-- Joins a condition to that of the query with `OR`. -/
def or (q : Query) (condition : Operator) : Query := q.modifyCondition (combine .or condition)

/-! ## Single clauses -/

/-- The columns clause. -/
def select? (q : Query) : Option Operator := q.clause? .select

/-- The grouping clause, of either kind. -/
def groupBy? (q : Query) : Option Operator := (q.clause? .groupBy).or (q.clause? .groupByPermuted)

/-- The condition on groups. -/
def having? (q : Query) : Option Operator :=
  (q.clause? .having).bind fun clause => clause.operands.head?.bind Operand.operator?

/-- The ordering clause. -/
def orderBy? (q : Query) : Option Operator := q.clause? .orderBy

/-- The time range clause. -/
def timeRange? (q : Query) : Option Operator := q.clause? .timeRange

/-- The limit on the number of rows. -/
def limit? (q : Query) : Option Nat := do
  let clause ← q.clause? .limit
  let value ← clause.values.head?
  (← value.decimal?).toUInt64?

/-! ## Columns -/

/-- What a column shows. -/
inductive ColumnType where
  | property
  | aggregate
  | function
  | condition
deriving DecidableEq, Repr

/-- The plain name of a type of columns. -/
def ColumnType.name : ColumnType → String
  | property => "property"
  | aggregate => "aggregate"
  | function => "function"
  | condition => "condition"

/-- A column of the result. -/
structure Column where
  name : String
  type : ColumnType
  isAggregate : Bool
deriving DecidableEq

mutual

/-- The column that an operand of the columns clause makes. -/
def columnOf : Operand → Column
  | .property p => ⟨p.label, .property, false⟩
  | .value v => ⟨v.text, .property, false⟩
  | .operator op => columnOfOperator op

/-- The column that an operator of the columns clause makes. -/
def columnOfOperator : Operator → Column
  | ⟨kind, property, operands, span⟩ =>
    let op : Operator := ⟨kind, property, operands, span⟩
    if kind = .asName then
      let target := firstColumn? operands
      let name := (op.values.head?.bind ScalarValue.string?).getD ""
      ⟨name, (target.map Column.type).getD .property, (target.map Column.isAggregate).getD false⟩
    else if kind.isAggregate then
      ⟨op.defaultAlias?.getD (String.ofList (kind.keyword.toList.map Char.toLower)),
        .aggregate, true⟩
    else
      ⟨kind.keyword ++ "(" ++ (property.map PropertyRef.label).getD "" ++ ")",
        if kind.isCondition then .condition else .function, false⟩

/-- The column that the first of some operands makes. -/
def firstColumn? : List Operand → Option Column
  | [] => none
  | operand :: _ => some (columnOf operand)

end

/-- The columns of the result. -/
def columnsOf (q : Query) : List Column :=
  match q.select? with
  | some select => select.operands.map columnOf
  | none => []

/-! ## Answers that are remembered -/

/-- Whether the query aggregates: it groups, or aggregates in its columns. -/
def aggregates (q : Query) : Bool :=
  q.groupBy?.isSome || (q.clause? .having).isSome || q.select?.any Operator.containsAggregate

/-- Whether the query aggregates, from memory where it is known. -/
def isAggregate (q : Query) : Bool × Query :=
  match q.memo.isAggregate with
  | some answer => (answer, q)
  | none => (q.aggregates, { q with memo := { q.memo with isAggregate := some q.aggregates } })

/-- The columns of the result. A column that aggregates settles that the query does. -/
def columns (q : Query) : List Column × Query :=
  let columns := q.columnsOf
  let known := q.memo.isAggregate.or (if columns.any Column.isAggregate then some true else none)
  (columns, { q with memo := { q.memo with isAggregate := known } })

/-- The JSON form of the condition, from memory where it is known. -/
def conditionJson (q : Query) : Option Json × Query :=
  match q.memo.conditionJson with
  | some answer => (answer, q)
  | none =>
    let answer := q.condition?.map Operator.toJson
    (answer, { q with memo := { q.memo with conditionJson := some answer } })

/-- Tests a record against the condition. Without a condition every record passes. -/
def test [DecimalReader] (q : Query) (subject : Subject) : Except EvaluationFault Bool × Query :=
  let (condition, q) := q.conditionJson
  match condition with
  | some condition => (Evaluation.test subject condition, q)
  | none => (.ok true, q)

/-! ## JSON form and text -/

/-- The JSON form of a query. -/
def toJson (q : Query) : Json :=
  .object <| q.clauses.foldl (fun members clause =>
    match clause.toJson with
    | .object entries =>
      entries.foldl (fun members entry => Table.insert members entry.1 entry.2) members
    | _ => members) []

/-- The text of a query. -/
def render (q : Query) (registry : Registry) : String :=
  " ".intercalate (q.clauses.map (Operator.render registry))

/-- The text of the condition. -/
def renderCondition (q : Query) (registry : Registry) : String :=
  match q.condition? with
  | some condition => condition.render registry
  | none => ""

/-- The names that a column introduces: an aggregate its default name, and `AS` its own. -/
def namesOf (op : Operator) : List (String × Operand) :=
  let target? := if op.kind = .asName then op.operands.head?.bind Operand.operator? else some op
  let default := match target? with
    | some target => target.defaultAlias?.toList.map fun name => (name, .operator target)
    | none => []
  let own :=
    if op.kind = .asName then
      match op.operands.head?, op.values.head?.bind ScalarValue.string? with
      | some target, some name => [(name, target)]
      | _, _ => []
    else []
  default ++ own

/-- The names that the columns introduce. -/
def collectAliases (q : Query) : Table Operand :=
  match q.select? with
  | some select =>
    (select.children.flatMap namesOf).foldl
      (fun table entry => Table.insertSorted table entry.1 entry.2) []
  | none => []

/-- Puts in the clauses that the members of an object denote. -/
def addMembers (q : Query) : List (String × Json) → Except FormFault Query
  | [] => .ok q
  | (key, payload) :: rest =>
    match (Kind.ofJsonKey? key).filter Kind.isClause with
    | none => .error (.unknownClause key)
    | some kind => do
      let clause ← Operator.ofPayload kind.family kind payload
      (q.setClause clause).addMembers rest

/-- The query that a JSON object denotes. -/
def ofJson (json : Json) : Except FormFault Query :=
  match json.members? with
  | none => .error (.queryExpected json.text)
  | some members => do
    let q ← empty.addMembers members
    .ok { q with aliases := q.collectAliases }

/-- The query that a draft has become. -/
def ofDraft (draft : Draft) : Query :=
  draft.clauses.foldl (fun q entry => q.setClause entry.2)
    { aliases := draft.aliases, warnings := draft.problems }

end Query

end RecordQuery
