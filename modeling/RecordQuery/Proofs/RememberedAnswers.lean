import RecordQuery.Proofs.QueryHistory

/-!
# Remembered answers

A query remembers two answers: whether it aggregates, and the JSON form of its condition. The first
is put there in two ways. `Query.isAggregate` looks into the tree of the columns clause down to its
leaves, whereas `Query.columns` looks at single columns, and into a column only where `AS` names it.
A column that aggregates by the second rule does so by the first, so what is put there is right
either way (`Query.Step.isCurrent`).

That no answer is out of date is a statement about two runs. `Query.answers` lists what some moves
on some queries answer, copies of queries made in between. `Query.freshAnswers` does the same with
queries that forget everything before each move. The two lists are the same, because the moves do
the same to both, up to memory.
-/

namespace RecordQuery

/-! ## Columns that aggregate -/

namespace Query

/-- A column that aggregates comes of an operator that does, in itself or beneath. -/
lemma containsAggregate_of_columnOfOperator (op : Operator) :
    (columnOfOperator op).isAggregate = true → op.containsAggregate = true := by
  induction op using Operator.induction with
  | step op ih =>
    intro h
    obtain ⟨kind, property, operands, span⟩ := op
    rw [Operator.containsAggregate, Bool.or_eq_true]
    rw [columnOfOperator] at h
    split_ifs at h with hname hkind
    · -- the column is that of what `AS` names
      rcases operands with _ | ⟨p | v | child, rest⟩
      · cases h
      · cases h
      · cases h
      · have hchild := ih child List.mem_cons_self h
        exact .inr (by rw [Operator.anyAggregate, hchild, Bool.true_or])
    · exact .inl hkind

/-- Some operand aggregates if its column does. -/
lemma anyAggregate_of_columnOf {operand : Operand} {operands : List Operand}
    (hmem : operand ∈ operands) (h : (columnOf operand).isAggregate = true) :
    Operator.anyAggregate operands = true := by
  induction operands with
  | nil => cases hmem
  | cons first rest ih =>
    rcases List.mem_cons.mp hmem with rfl | hrest
    · rcases operand with p | v | op
      · cases h
      · cases h
      · rw [Operator.anyAggregate, containsAggregate_of_columnOfOperator op h, Bool.true_or]
    · rcases first with p | v | op
      · exact ih hrest
      · exact ih hrest
      · rw [Operator.anyAggregate, ih hrest, Bool.or_true]

/-- A query with a column that aggregates does so. -/
lemma aggregates_of_columnsOf {q : Query} (h : q.columnsOf.any Column.isAggregate = true) :
    q.aggregates = true := by
  unfold columnsOf at h
  split at h
  · rename_i select hselect
    rw [List.any_map, List.any_eq_true] at h
    obtain ⟨operand, hmem, hcolumn⟩ := h
    have hany : select.containsAggregate = true := by
      obtain ⟨kind, property, operands, span⟩ := select
      rw [Operator.containsAggregate, anyAggregate_of_columnOf hmem hcolumn, Bool.or_true]
    rw [aggregates, hselect, Option.any_some, hany, Bool.or_true]
  · cases h

/-! ## What is remembered is current -/

/-- Whether what a query remembers are the answers it would give if it remembered nothing. -/
structure IsCurrent (q : Query) : Prop where
  aggregates : ∀ answer, q.memo.isAggregate = some answer → answer = q.aggregates
  condition : q.RemembersCondition

/-- A query that remembers nothing is current. -/
lemma isCurrent_of_memo {q : Query} (h : q.memo = {}) : q.IsCurrent := by
  refine ⟨fun answer hanswer => ?_, remembersCondition_of_memo h⟩
  rw [h] at hanswer
  cases hanswer

/-- No call makes a query remember an answer that is out of date. -/
lemma Step.isCurrent {q q' : Query} (hstep : q.Step q') (h : q.IsCurrent) : q'.IsCurrent := by
  have hcondition := hstep.remembersCondition h.condition
  refine ⟨?_, hcondition⟩
  cases hstep with
  | setClause clause => exact nofun
  | modifyCondition f => exact nofun
  | prune => exact nofun
  | isAggregate =>
    unfold Query.isAggregate
    split
    · exact h.aggregates
    · rintro answer ⟨⟩
      rfl
  | columns =>
    intro answer hanswer
    rcases hmemo : q.memo.isAggregate with _ | known
    · -- only a column that aggregates is remembered
      simp only [Query.columns, hmemo, Option.none_or] at hanswer
      split at hanswer
      · rename_i hany
        cases hanswer
        exact (aggregates_of_columnsOf hany).symm
      · cases hanswer
    · simp only [Query.columns, hmemo, Option.some_or, Option.some.injEq] at hanswer
      exact hanswer ▸ h.aggregates known hmemo
  | conditionJson =>
    unfold Query.conditionJson
    split <;> exact h.aggregates
  | test subject =>
    rw [test_snd]
    unfold Query.conditionJson
    split <;> exact h.aggregates

/-- Every query that is reached is current. -/
lemma Reached.isCurrent {q : Query} (h : q.Reached) : q.IsCurrent := by
  induction h with
  | empty => exact isCurrent_of_memo rfl
  | named name => exact isCurrent_of_memo rfl
  | read h => exact isCurrent_of_memo h.memo_eq
  | step _ hstep ih => exact hstep.isCurrent ih

/-! ## Forgetting -/

/-- The query with nothing remembered. -/
def forget (q : Query) : Query := { q with memo := {} }

/-- Asking whether a query aggregates changes its memory only. -/
lemma forget_isAggregate (q : Query) : q.isAggregate.2.forget = q.forget := by
  unfold isAggregate
  split <;> rfl

/-- Asking for the JSON form of the condition changes the memory only. -/
lemma forget_conditionJson (q : Query) : q.conditionJson.2.forget = q.forget := by
  unfold conditionJson
  split <;> rfl

/-- Whether a query aggregates is answered rightly from a current memory. -/
lemma isAggregate_fst {q : Query} (h : q.IsCurrent) : q.isAggregate.1 = q.aggregates := by
  unfold isAggregate
  split
  · rename_i answer hanswer
    exact h.aggregates answer hanswer
  · rfl

/-! ## Calls -/

/-- A call on a query: a change of it, or a question. -/
inductive Call where
  | setClause (clause : Operator)
  | modifyCondition (f : Operator → Operator)
  | and (condition : Operator)
  | or (condition : Operator)
  | prune
  | isAggregate
  | columns
  | conditionJson
  | test (subject : Subject)

/-- What a call answers. -/
inductive Answer where
  | done
  | isAggregate (answer : Bool)
  | columns (answer : List Column)
  | conditionJson (answer : Option Json)
  | tested (answer : Except EvaluationFault Bool)

section

variable [DecimalReader]

/-- Makes a call. -/
def call (q : Query) : Call → Answer × Query
  | .setClause clause => (.done, q.setClause clause)
  | .modifyCondition f => (.done, q.modifyCondition f)
  | .and condition => (.done, q.and condition)
  | .or condition => (.done, q.or condition)
  | .prune => (.done, q.prune)
  | .isAggregate => (.isAggregate q.isAggregate.1, q.isAggregate.2)
  | .columns => (.columns q.columns.1, q.columns.2)
  | .conditionJson => (.conditionJson q.conditionJson.1, q.conditionJson.2)
  | .test subject => (.tested (q.test subject).1, (q.test subject).2)

/-- A call is a step. -/
lemma step_call (q : Query) (c : Call) : q.Step (q.call c).2 := by
  cases c with
  | setClause clause => exact .setClause clause
  | modifyCondition f => exact .modifyCondition f
  | and condition => exact .modifyCondition _
  | or condition => exact .modifyCondition _
  | prune => exact .prune
  | isAggregate => exact .isAggregate
  | columns => exact .columns
  | conditionJson => exact .conditionJson
  | test subject => exact .test subject

/-- A test is answered rightly from a current memory. -/
lemma test_fst {q : Query} (h : q.IsCurrent) (subject : Subject) :
    (q.test subject).1 =
      match q.condition?.map Operator.toJson with
      | some condition => Evaluation.test subject condition
      | none => .ok true := by
  have hcondition := conditionJson_fst h.condition
  rw [← hcondition]
  unfold test
  rcases q.conditionJson with ⟨_ | condition, q'⟩
  · rfl
  · rfl

/-- A query whose memory is current answers as it would with nothing remembered. -/
lemma call_fst_eq {q : Query} (h : q.IsCurrent) (c : Call) :
    (q.call c).1 = (q.forget.call c).1 := by
  have hforget : q.forget.IsCurrent := isCurrent_of_memo rfl
  cases c with
  | isAggregate =>
    refine congrArg Answer.isAggregate ?_
    rw [isAggregate_fst h, isAggregate_fst hforget]
    rfl
  | conditionJson =>
    refine congrArg Answer.conditionJson ?_
    rw [conditionJson_fst h.condition, conditionJson_fst hforget.condition]
    rfl
  | test subject =>
    refine congrArg Answer.tested ?_
    rw [test_fst h, test_fst hforget]
    rfl
  | _ => rfl

/-- Up to memory, a call does the same to a query whatever it remembers. -/
lemma forget_call (q : Query) (c : Call) : (q.call c).2.forget = (q.forget.call c).2.forget := by
  cases c with
  | isAggregate => exact (forget_isAggregate q).trans (forget_isAggregate q.forget).symm
  | conditionJson => exact (forget_conditionJson q).trans (forget_conditionJson q.forget).symm
  | test subject =>
    simp only [call, test_snd, forget_conditionJson]
    rfl
  | _ => rfl

/-! ## Moves on several queries -/

/-- A move on some queries: a call on one of them, or a copy of it, memory included. -/
inductive Move where
  | call (place : Nat) (c : Call)
  | copy (place : Nat)

/-- Makes a move. A move on a query that is not there does nothing. -/
def move (pool : List Query) : Move → Answer × List Query
  | .call place c =>
    match pool[place]? with
    | some q => ((q.call c).1, pool.set place (q.call c).2)
    | none => (.done, pool)
  | .copy place => (.done, pool ++ pool[place]?.toList)

/-- The queries that some moves lead to. -/
def after (pool : List Query) (moves : List Move) : List Query :=
  moves.foldl (fun pool m => (move pool m).2) pool

/-- What some moves answer. -/
def answers (pool : List Query) : List Move → List Answer
  | [] => []
  | m :: rest => (move pool m).1 :: answers (move pool m).2 rest

/-- What some moves answer when everything is forgotten before each of them. -/
def freshAnswers (pool : List Query) : List Move → List Answer
  | [] => []
  | m :: rest => (move (pool.map forget) m).1 :: freshAnswers (move (pool.map forget) m).2 rest

/-- Moves keep all queries current. -/
lemma isCurrent_move {pool : List Query} (h : ∀ q ∈ pool, q.IsCurrent) (m : Move) :
    ∀ q ∈ (move pool m).2, q.IsCurrent := by
  intro q hq
  cases m with
  | call place c =>
    rw [move] at hq
    split at hq
    · rename_i first hfirst
      rcases List.mem_or_eq_of_mem_set hq with hq | rfl
      · exact h q hq
      · exact (first.step_call c).isCurrent (h first (List.mem_of_getElem? hfirst))
    · exact h q hq
  | copy place =>
    rcases List.mem_append.mp hq with hq | hq
    · exact h q hq
    · rw [Option.mem_toList] at hq
      exact h q (List.mem_of_getElem? hq)

/-- A move on current queries answers as it would if they remembered nothing. -/
lemma move_fst_eq {pool : List Query} (h : ∀ q ∈ pool, q.IsCurrent) (m : Move) :
    (move pool m).1 = (move (pool.map forget) m).1 := by
  cases m with
  | call place c =>
    rw [move, move, List.getElem?_map]
    rcases hplace : pool[place]? with _ | q
    · rfl
    · exact call_fst_eq (h q (List.mem_of_getElem? hplace)) c
  | copy place => rfl

/-- A move leaves the queries that it would if they remembered nothing, up to memory. -/
lemma map_forget_move (pool : List Query) (m : Move) :
    (move pool m).2.map forget = (move (pool.map forget) m).2.map forget := by
  have hforget : (pool.map forget).map forget = pool.map forget := by
    rw [List.map_map]
    rfl
  cases m with
  | call place c =>
    rw [move, move, List.getElem?_map]
    rcases pool[place]? with _ | q
    · exact hforget.symm
    · show (pool.set place (q.call c).2).map forget =
        ((pool.map forget).set place (q.forget.call c).2).map forget
      rw [List.map_set, List.map_set, forget_call q c, hforget]
  | copy place =>
    rw [move, move, List.map_append, List.map_append, hforget, List.getElem?_map]
    rcases pool[place]? <;> rfl

/-- Queries that are the same up to memory give the same answers, if the memory of those that are
not made to forget is current. -/
lemma answers_eq {pool fresh : List Query} (hcurrent : ∀ q ∈ pool, q.IsCurrent)
    (hsame : pool.map forget = fresh.map forget) (moves : List Move) :
    answers pool moves = freshAnswers fresh moves := by
  induction moves generalizing pool fresh with
  | nil => rfl
  | cons m rest ih =>
    rw [answers, freshAnswers, ← hsame, move_fst_eq hcurrent m]
    congr 1
    exact ih (isCurrent_move hcurrent m) (map_forget_move pool m)

/-- Any run of moves keeps all queries current. -/
lemma isCurrent_after {pool : List Query} (h : ∀ q ∈ pool, q.IsCurrent) (moves : List Move) :
    ∀ q ∈ after pool moves, q.IsCurrent := by
  induction moves generalizing pool with
  | nil => exact h
  | cons m rest ih => exact ih (isCurrent_move h m)

/-- Whatever was done with some queries, and whatever is done and asked from then on, copies
included, each answer is the one that queries with the same clauses and nothing remembered would
give. And whatever a query remembers in the end of whether it aggregates, by its columns or not, is
what it would find out if it remembered nothing. -/
theorem answers_eq_freshAnswers (pool : List Query) (hpool : ∀ q ∈ pool, q.Reached)
    (moves : List Move) :
    answers pool moves = freshAnswers pool moves ∧
      ∀ q ∈ after pool moves, ∀ answer, q.memo.isAggregate = some answer →
        answer = q.forget.isAggregate.1 := by
  have hcurrent : ∀ q ∈ pool, q.IsCurrent := fun q hq => (hpool q hq).isCurrent
  constructor
  · exact answers_eq hcurrent rfl moves
  · intro q hq answer hanswer
    have hq' := isCurrent_after hcurrent moves q hq
    rw [isAggregate_fst (isCurrent_of_memo rfl)]
    exact hq'.aggregates answer hanswer

end

/-- The columns settle that a query aggregates. A copy made then forgets it with its columns clause,
and the query it was made from does not. -/
theorem answers_eq_freshAnswers_copy :
    ∃ moves : List Move,
      answers [empty] moves = freshAnswers [empty] moves ∧
      answers [empty] moves = [.done, .columns [⟨"n", .aggregate, true⟩], .done, .done,
        .isAggregate true, .isAggregate false, .tested (.ok true)] := by
  obtain ⟨named, hnamed⟩ : ∃ named : Operator, named =
      { kind := .asName
        operands := [.operator { kind := .count, property := some (.ofId "x") },
          .value (.ofString "n")] } := ⟨_, rfl⟩
  obtain ⟨moves, hmoves⟩ : ∃ moves : List Move, moves =
      [.call 0 (.setClause { kind := .select, operands := [.operator named] }), .call 0 .columns,
        .copy 0, .call 1 (.setClause { kind := .select, operands := [.property (.ofId "x")] }),
        .call 0 .isAggregate, .call 1 .isAggregate,
        .call 1 (.test (Subject.ofJson .null))] := ⟨_, rfl⟩
  refine ⟨moves, (answers_eq_freshAnswers [empty] ?_ moves).1, ?_⟩
  · intro q hq
    rw [List.mem_singleton.mp hq]
    exact .empty
  · subst hmoves hnamed
    rfl

end Query

end RecordQuery
