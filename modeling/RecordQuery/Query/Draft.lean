import RecordQuery.Operator.Basic

/-!
# Drafts

What is known of a query while its text is being read: the clauses found so far, the names they
introduce, and the problems that do not stop the reading. A clause found again takes the place of
the earlier one. The names are kept in alphabetical order.
-/

namespace RecordQuery

/-- A query that is being read. -/
structure Draft where
  clauses : List (Kind × Operator) := []
  problems : List Problem := []
  aliases : Table Operand := []
deriving Inhabited

namespace Draft

/-- The clause recorded under a kind. -/
def clause? (draft : Draft) (kind : Kind) : Option Operator := List.lookup kind draft.clauses

/-- The clauses with one recorded under a kind, in the place the kind has or behind all others. -/
def recordIn (kind : Kind) (clause : Operator) : List (Kind × Operator) → List (Kind × Operator)
  | [] => [(kind, clause)]
  | entry :: rest =>
    if entry.1 = kind then (kind, clause) :: rest else entry :: recordIn kind clause rest

/-- Records a clause. -/
def record (draft : Draft) (kind : Kind) (clause : Operator) : Draft :=
  { draft with clauses := recordIn kind clause draft.clauses }

/-- Takes the clause of a kind out. -/
def take (draft : Draft) (kind : Kind) : Option Operator × Draft :=
  (draft.clause? kind,
    { draft with clauses := draft.clauses.eraseP fun entry => entry.1 == kind })

/-- Notes a problem. -/
def note (draft : Draft) (problem : Problem) : Draft :=
  { draft with problems := draft.problems ++ [problem] }

/-- Binds a name to what it stands for. -/
def bind (draft : Draft) (name : String) (target : Operand) : Draft :=
  { draft with aliases := Table.insertSorted draft.aliases name target }

/-- Whether a name is bound. -/
def isAlias (draft : Draft) (name : String) : Bool := Table.contains draft.aliases name

end Draft

end RecordQuery
