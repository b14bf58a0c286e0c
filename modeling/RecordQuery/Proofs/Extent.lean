import RecordQuery.Proofs.Shape
import RecordQuery.Operator.Render
import RecordQuery.Token.Tree

/-!
# The extent of operators

The ceilings of a reading bound how deep parentheses are nested and for how many rounds a loop goes
on. What an operator takes of both when its text is read can be told from its tree: the parentheses
of functions and of the operands that are enclosed in them, and the rounds of three loops, which
join the conditions of a group, read the items in parentheses, and settle the operators of a phrase.
-/

namespace RecordQuery

namespace Kind

/-- Only kinds of the family of clauses are clauses. -/
lemma isClause_eq_false {kind : Kind} (h : kind.family ≠ .clause) : kind.isClause = false :=
  beq_eq_false_iff_ne.mpr h

/-- Connectives are logical. -/
lemma isConnective_eq_false {kind : Kind} (h : kind.family ≠ .logical) :
    kind.isConnective = false := by
  cases kind <;> first | rfl | exact absurd rfl h

/-- No clause is a condition. -/
lemma isClause_of_isCondition {kind : Kind} (h : kind.isCondition = true) :
    kind.isClause = false := by
  revert h
  cases kind <;> decide

end Kind

namespace Operator

/-- Whether an operand of an operator is written in parentheses. -/
def encloses (kind : Kind) (operand : Operator) : Bool :=
  kind.family == .logical &&
    ((operand.isConnective && decide (1 < operand.operands.length)) ||
      (kind == .not && operand.kind == .not))

mutual

/-- The deepest nesting of parentheses in the text of an operator. -/
def depth : Operator → Nat
  | ⟨kind, _, operands, _⟩ => max (if kind.isFunction then 1 else 0) (depthIn kind operands)

/-- The deepest nesting of parentheses in the texts of operands, with those that an operator of a
kind puts around them. -/
def depthIn (kind : Kind) : List Operand → Nat
  | [] => 0
  | .operator op :: rest =>
    max (depth op + if encloses kind op then 1 else 0) (depthIn kind rest)
  | .property _ :: rest | .value _ :: rest => depthIn kind rest

end

/-- The depth of an operator is that of its operands, or of the parentheses of a function. -/
lemma depth_eq (op : Operator) :
    op.depth = max (if op.kind.isFunction then 1 else 0) (depthIn op.kind op.operands) := by
  cases op
  rw [depth]

/-- An operand is no deeper than all of them together. -/
lemma le_depthIn {kind : Kind} {operands : List Operand} {op : Operator}
    (h : .operator op ∈ operands) :
    op.depth + (if encloses kind op then 1 else 0) ≤ depthIn kind operands := by
  induction operands with
  | nil => cases h
  | cons operand rest ih =>
    obtain rfl | h := List.mem_cons.mp h
    · rw [depthIn]
      exact Nat.le_max_left _ _
    · have := ih h
      cases operand with
      | operator other => rw [depthIn]; omega
      | _ => rwa [depthIn]

/-- Only negations and groups put parentheses around operands. -/
lemma encloses_eq_false {kind : Kind} (h : kind.family ≠ .logical) (operand : Operator) :
    encloses kind operand = false := by
  rw [encloses, beq_eq_false_iff_ne.mpr h, Bool.false_and]

mutual

/-- How many operators are settled in the phrase that an operator is written as. What stands in
parentheses is a phrase of its own, and so is each condition of a group. -/
def rounds : Operator → Nat
  | ⟨kind, _, operands, _⟩ =>
    if kind.isConnective || kind.isClause then 0 else 1 + roundsIn kind operands

/-- How many operators are settled in a phrase for the first operand of an operator. -/
def roundsIn (kind : Kind) : List Operand → Nat
  | .operator op :: _ => if encloses kind op then 0 else rounds op
  | _ => 0

end

/-- An operator takes a round more than its operands; groups and clauses take none. -/
lemma rounds_eq (op : Operator) :
    op.rounds = if op.kind.isConnective || op.kind.isClause then 0 else
      1 + roundsIn op.kind op.operands := by
  cases op
  rw [rounds]

/-- How many things a loop goes through that joins the conditions of an operator or reads the items
in its parentheses. -/
def breadth (op : Operator) : Nat :=
  match op.kind.family with
  | .logical => op.operands.length
  | .membership => op.values.length
  | .projection => if op.kind = .asName then 0 else op.operands.length + 1
  | .clause => if op.kind = .timeRange then op.operands.length else 0
  | _ => 0

/-- Whether no loop that reads an operator goes on for more than some steps. -/
def Paced (steps : Nat) (op : Operator) : Prop := op.rounds ≤ steps ∧ op.breadth ≤ steps

instance (steps : Nat) : DecidablePred (Paced steps) :=
  fun op => inferInstanceAs (Decidable (op.rounds ≤ steps ∧ op.breadth ≤ steps))

/-- Whether the text of an operator can be read within the ceilings of a reading. -/
structure Fits (ceilings : Ceilings) (op : Operator) : Prop where
  depth : op.depth ≤ ceilings.depth
  steps : op.Everywhere (Paced ceilings.steps)

instance (ceilings : Ceilings) : DecidablePred (Fits ceilings) := fun op =>
  decidable_of_iff (op.depth ≤ ceilings.depth ∧ op.Everywhere (Paced ceilings.steps))
    ⟨fun h => ⟨h.1, h.2⟩, fun h => ⟨h.depth, h.steps⟩⟩

/-- What fits into some rounds fits into more. -/
lemma Paced.mono {m n : Nat} {op : Operator} (h : op.Paced m) (hmn : m ≤ n) : op.Paced n :=
  ⟨Nat.le_trans h.1 hmn, Nat.le_trans h.2 hmn⟩

mutual

/-- The loops that read an operator end after some steps. -/
lemma exists_paced : (op : Operator) → ∃ steps, op.Everywhere (Paced steps)
  | ⟨kind, property, operands, span⟩ => by
    obtain ⟨steps, hsteps⟩ := exists_pacedIn operands
    let op : Operator := ⟨kind, property, operands, span⟩
    refine ⟨max steps (max op.rounds op.breadth), ⟨?_, ?_⟩, ?_⟩
    · exact Nat.le_trans (Nat.le_max_left _ _) (Nat.le_max_right _ _)
    · exact Nat.le_trans (Nat.le_max_right _ _) (Nat.le_max_right _ _)
    · exact EverywhereIn.imp (fun _ h => h.mono (Nat.le_max_left _ _)) operands hsteps

/-- The loops that read some operands end after some steps. -/
lemma exists_pacedIn : (operands : List Operand) → ∃ steps, EverywhereIn (Paced steps) operands
  | [] => ⟨0, trivial⟩
  | .operator op :: rest => by
    obtain ⟨m, hm⟩ := exists_paced op
    obtain ⟨n, hn⟩ := exists_pacedIn rest
    refine ⟨max m n, ?_, ?_⟩
    · exact Everywhere.imp (fun _ h => h.mono (Nat.le_max_left _ _)) op hm
    · exact EverywhereIn.imp (fun _ h => h.mono (Nat.le_max_right _ _)) rest hn
  | .property _ :: rest | .value _ :: rest => exists_pacedIn rest

end

/-- Every operator can be read within some ceilings. -/
lemma exists_fits (op : Operator) : ∃ ceilings, op.Fits ceilings := by
  obtain ⟨steps, hsteps⟩ := op.exists_paced
  exact ⟨⟨op.depth, steps⟩, Nat.le_refl _, hsteps⟩

end Operator

end RecordQuery
