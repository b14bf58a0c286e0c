import RecordQuery.Proofs.JsonForm

/-!
# Queries and what was done with them

A query starts empty or is read, and is changed and asked from then on. Asking changes it too, since
answers are remembered. `Query.Step` is one call of either sort, and `Query.Reached` says that a
query comes of such calls.

What holds of a query at the start and is kept by every step holds of all that are reached. The JSON
form that a query remembers for its condition is such a case: every change forgets it, and what is
put there is the form of the condition the query has at that time.
-/

namespace RecordQuery

namespace Query

/-- What one call makes of a query. A change of the condition may be any, joining another one with a
connective among them. -/
inductive Step (q : Query) : Query → Prop
  | setClause (clause : Operator) : Step q (q.setClause clause)
  | modifyCondition (f : Operator → Operator) : Step q (q.modifyCondition f)
  | prune : Step q q.prune
  | isAggregate : Step q q.isAggregate.2
  | columns : Step q q.columns.2
  | conditionJson : Step q q.conditionJson.2
  | test [DecimalReader] (subject : Subject) : Step q (q.test subject).2

/-- Whether a query is empty or was read, up to calls made since. -/
inductive Reached : Query → Prop
  | empty : Reached empty
  | named (name : String) : Reached (named name)
  | read {q : Query} (h : q.IsRead) : Reached q
  | step {q q' : Query} (h : Reached q) (hstep : q.Step q') : Reached q'

/-! ## The remembered condition -/

/-- Whether the JSON form that a query remembers for its condition, if any, is that of the condition
it has. -/
def RemembersCondition (q : Query) : Prop :=
  ∀ answer, q.memo.conditionJson = some answer → answer = q.condition?.map Operator.toJson

/-- A query that remembers nothing remembers nothing wrong. -/
lemma remembersCondition_of_memo {q : Query} (h : q.memo = {}) : q.RemembersCondition := by
  intro answer hanswer
  rw [h] at hanswer
  cases hanswer

/-- Reading clauses from JSON remembers nothing. -/
lemma memo_addMembers {q q' : Query} (members : List (String × Json)) (hq : q.memo = {})
    (h : q.addMembers members = .ok q') : q'.memo = {} := by
  induction members generalizing q with
  | nil =>
    cases h
    exact hq
  | cons member rest ih =>
    obtain ⟨key, payload⟩ := member
    rw [addMembers] at h
    split at h
    · cases h
    · rename_i kind _
      rcases hclause : Operator.ofPayload kind.family kind payload with e | clause
      · rw [hclause] at h
        cases h
      · rw [hclause] at h
        exact ih rfl h

/-- A query made of a draft remembers nothing. -/
lemma memo_ofDraft (draft : Draft) : (ofDraft draft).memo = {} := by
  have hfold : ∀ (entries : List (Kind × Operator)) (q : Query), q.memo = {} →
      (entries.foldl (fun q entry => q.setClause entry.2) q).memo = {} := by
    intro entries
    induction entries with
    | nil => exact fun q hq => hq
    | cons entry rest ih => exact fun q _ => ih _ rfl
  exact hfold draft.clauses _ rfl

/-- A query that is compiled remembers nothing. -/
lemma memo_of_compile {r : Reading} {reading : Parse Unit} {q : Query}
    (h : r.compile reading = .ok q) : q.memo = {} := by
  rw [Reading.compile_eq] at h
  split at h
  · cases h
    exact memo_ofDraft _
  · cases h

/-- A query that was just read remembers nothing. -/
lemma IsRead.memo_eq {q : Query} (h : q.IsRead) : q.memo = {} := by
  have ofMode : ∀ (mode : Mode) (text : String) (registry : Registry) (ceilings : Ceilings),
      mode.query text registry ceilings = .ok q → q.memo = {} := by
    intro mode text registry ceilings h
    rw [Mode.query_eq] at h
    rcases hstart : Reading.start text registry ceilings with e | r
    · rw [hstart] at h
      cases h
    · rw [hstart] at h
      exact memo_of_compile h
  cases h with
  | ofJson json h =>
    unfold Query.ofJson at h
    split at h
    · cases h
    · rename_i members _
      rcases hmembers : Query.empty.addMembers members with e | q'
      · rw [hmembers] at h
        cases h
      · rw [hmembers] at h
        cases h
        exact (memo_addMembers members rfl hmembers : q'.memo = {})
  | ofText text registry ceilings h => exact ofMode .clauses text registry ceilings h
  | ofCondition text registry ceilings h => exact ofMode .condition text registry ceilings h

/-- Asking for the JSON form of the condition remembers it. -/
lemma remembersCondition_conditionJson {q : Query} (h : q.RemembersCondition) :
    q.conditionJson.2.RemembersCondition := by
  unfold conditionJson
  split
  · exact h
  · rintro answer ⟨⟩
    rfl

/-- Testing a record changes a query no more than asking for the JSON form of its condition. -/
lemma test_snd [DecimalReader] (q : Query) (subject : Subject) :
    (q.test subject).2 = q.conditionJson.2 := by
  unfold test
  obtain ⟨condition, q'⟩ := q.conditionJson
  cases condition <;> rfl

/-- No call makes a query remember anything wrong. -/
lemma Step.remembersCondition {q q' : Query} (hstep : q.Step q') (h : q.RemembersCondition) :
    q'.RemembersCondition := by
  cases hstep with
  | setClause clause => exact remembersCondition_of_memo rfl
  | modifyCondition f => exact remembersCondition_of_memo rfl
  | prune => exact remembersCondition_of_memo rfl
  | isAggregate =>
    unfold Query.isAggregate
    split <;> exact h
  | columns => exact h
  | conditionJson => exact remembersCondition_conditionJson h
  | test subject =>
    rw [test_snd]
    exact remembersCondition_conditionJson h

/-- What a query remembers of its condition is right, whatever was done with the query. -/
theorem Reached.remembersCondition {q : Query} (h : q.Reached) : q.RemembersCondition := by
  induction h with
  | empty => exact remembersCondition_of_memo rfl
  | named name => exact remembersCondition_of_memo rfl
  | read h => exact remembersCondition_of_memo h.memo_eq
  | step _ hstep ih => exact hstep.remembersCondition ih

/-- The answer to what the JSON form of the condition is does not depend on memory. -/
lemma conditionJson_fst {q : Query} (h : q.RemembersCondition) :
    q.conditionJson.1 = q.condition?.map Operator.toJson := by
  unfold conditionJson
  split
  · rename_i answer hanswer
    exact h answer hanswer
  · rfl

end Query

end RecordQuery
