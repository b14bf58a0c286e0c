import Mathlib.Tactic.Common
import RecordQuery.Proofs.BuiltCondition
import RecordQuery.Proofs.RememberedAnswers

/-!
# What joined conditions come to

A condition that is joined to a query goes to the end of the group that is there, or into a new
group with the condition that is there, or into the place of an empty group. All three come to the
same: the test of the query is that of the old condition and that of the new one, joined. The old
condition is tested first, so its fault is the one reported if both have one.

A group with one more part is tested as the group without it and the part
(`Operator.outcome_append`). That covers the empty groups as well: without parts, a group is neutral
for its own connective, and it takes on that of the call before the condition is put in.
-/

namespace RecordQuery

/-- What two results come to where a connective joins them. -/
def Connective.value : Connective → (first second : Bool) → Bool
  | and, first, second => first && second
  | or, first, second => first || second

/-- What two tests come to where a connective joins what they test: the fault of the first one if
it has one, else that of the second, else their results joined. -/
def Connective.combined (connective : Connective) :
    (first second : Except EvaluationFault Bool) → Except EvaluationFault Bool
  | .error fault, _ => .error fault
  | .ok _, .error fault => .error fault
  | .ok first, .ok second => .ok (connective.value first second)

/-- What a group without parts comes to. -/
def Connective.neutral : Connective → Bool
  | and => true
  | or => false

namespace Connective

/-- What a group comes to, of the results of its parts. -/
def valueOfAll (connective : Connective) (results : List Bool) : Bool :=
  match connective with
  | and => results.all id
  | or => results.any id

/-- One more result is joined to what the others come to. -/
lemma valueOfAll_append (connective : Connective) (results : List Bool) (result : Bool) :
    connective.valueOfAll (results ++ [result]) =
      connective.value (connective.valueOfAll results) result := by
  cases connective
  · simp [valueOfAll, value]
  · simp [valueOfAll, value]

/-- What a group of nothing comes to changes no result. -/
lemma combined_neutral (connective : Connective) (test : Except EvaluationFault Bool) :
    connective.combined (.ok connective.neutral) test = test := by
  cases test with
  | error fault => rfl
  | ok result => cases connective <;> cases result <;> rfl

end Connective

namespace Evaluation

/-- One more condition is tested after all others. -/
lemma testAll_append [DecimalReader] (subject : Subject) (conditions : List Json)
    (condition : Json) : testAll subject (conditions ++ [condition]) = do
      let results ← testAll subject conditions
      return results ++ [← test subject condition] := by
  induction conditions with
  | nil =>
    rw [List.nil_append, testAll, testAll]
    cases test subject condition <;> rfl
  | cons first rest ih =>
    rw [List.cons_append, testAll, testAll, ih]
    cases test subject first with
    | error fault => rfl
    | ok result =>
      cases testAll subject rest with
      | error fault => rfl
      | ok results => cases test subject condition <;> rfl

end Evaluation

namespace Operator

/-! ## Conditions -/

/-- Whether a condition is an `AND` or `OR` of nothing. -/
def IsVacant (condition : Operator) : Prop :=
  condition.isConnective = true ∧ condition.operands = []

/-- What a condition was joined to is no empty group any more. -/
lemma not_isVacant_combine (connective : Connective) (condition root : Operator) :
    ¬ (Query.combine connective condition root).IsVacant := by
  rintro ⟨-, hnil⟩
  unfold Query.combine at hnil
  split at hnil
  · exact List.append_ne_nil_of_right_ne_nil _ (List.cons_ne_nil _ _) hnil
  · cases hnil

variable [DecimalReader]

/-- What the test of a record against a condition comes to. -/
def outcome (subject : Subject) (condition : Operator) : Except EvaluationFault Bool :=
  Evaluation.test subject condition.toJson

variable {connective : Connective} {group : Operator} (subject : Subject)

/-- All parts of a group are tested before their results are joined. -/
lemma outcome_connective (hkind : group.kind = connective.kind) :
    group.outcome subject =
      Evaluation.testAll subject (group.operands.map Operand.toJson) >>= fun results =>
        .ok (connective.valueOfAll results) := by
  obtain ⟨kind, property, operands, span⟩ := group
  cases hkind
  rw [outcome, toJson, operandsToJson_eq_map]
  cases connective
  · show Evaluation.test subject (.object [("and", .array _)]) = _
    rw [Evaluation.test, if_pos rfl]
    rfl
  · show Evaluation.test subject (.object [("or", .array _)]) = _
    rw [Evaluation.test, if_neg (by decide), if_pos rfl]
    rfl

/-- A group with one more part comes to what the group without it and the part come to. -/
lemma outcome_append (hkind : group.kind = connective.kind) (condition : Operator) :
    (group.withOperands [.operator condition]).outcome subject =
      connective.combined (group.outcome subject) (condition.outcome subject) := by
  have hmore : (group.withOperands [.operator condition]).kind = connective.kind := hkind
  rw [outcome_connective subject hmore, outcome_connective subject hkind, withOperands,
    List.map_append, List.map_singleton, Evaluation.testAll_append, outcome]
  show (Evaluation.testAll subject _ >>= fun results =>
    Evaluation.test subject condition.toJson >>= fun result => .ok (results ++ [result])) >>= _ = _
  cases Evaluation.testAll subject (group.operands.map Operand.toJson) with
  | error fault => rfl
  | ok results =>
    cases Evaluation.test subject condition.toJson with
    | error fault => rfl
    | ok result => exact congrArg Except.ok (connective.valueOfAll_append results result)

/-- A group of nothing. -/
lemma outcome_nil (hkind : group.kind = connective.kind) (hnil : group.operands = []) :
    group.outcome subject = .ok connective.neutral := by
  rw [outcome_connective subject hkind, hnil]
  cases connective <;> rfl

/-- A group of one condition comes to what that does. -/
lemma outcome_group_singleton (connective : Connective) (condition : Operator) :
    (Operator.group connective [condition]).outcome subject = condition.outcome subject := by
  have hkind : (Operator.group connective []).kind = connective.kind := rfl
  have happend := outcome_append subject hkind condition
  rw [outcome_nil subject hkind rfl, connective.combined_neutral] at happend
  exact happend

/-- A group of two conditions comes to what they do, joined. -/
lemma outcome_group_pair (connective : Connective) (first second : Operator) :
    (Operator.group connective [first, second]).outcome subject =
      connective.combined (first.outcome subject) (second.outcome subject) := by
  have hkind : (Operator.group connective [first]).kind = connective.kind := rfl
  have happend := outcome_append subject hkind second
  rw [outcome_group_singleton] at happend
  exact happend

/-- A condition joined to one that is no empty group comes to what both come to, joined. -/
lemma outcome_combine (connective : Connective) (condition : Operator) {root : Operator}
    (hroot : ¬ root.IsVacant) :
    (Query.combine connective condition root).outcome subject =
      connective.combined (root.outcome subject) (condition.outcome subject) := by
  unfold Query.combine
  by_cases hkind : root.kind = connective.kind
  · rw [if_pos (.inl hkind), ← hkind]
    exact outcome_append subject hkind condition
  · have hother : ¬ (root.kind = connective.kind ∨ root.isConnective ∧ root.operands.isEmpty) := by
      rintro (hsame | ⟨hconnective, hempty⟩)
      · exact hkind hsame
      · exact hroot ⟨hconnective, List.isEmpty_iff.mp hempty⟩
    rw [if_neg hother]
    exact outcome_group_pair subject connective root condition

/-- A condition joined to an empty group takes its place. -/
lemma outcome_combine_vacant (connective : Connective) (condition : Operator) {root : Operator}
    (hroot : root.IsVacant) :
    (Query.combine connective condition root).outcome subject = condition.outcome subject := by
  obtain ⟨hconnective, hnil⟩ := hroot
  have hempty : root.isConnective ∧ root.operands.isEmpty := ⟨hconnective, by rw [hnil]; rfl⟩
  rw [Query.combine, if_pos (.inr hempty)]
  have hkind : { root with kind := connective.kind }.kind = connective.kind := rfl
  have happend := outcome_append subject hkind condition
  rw [outcome_nil subject hkind hnil, connective.combined_neutral] at happend
  exact happend

end Operator

namespace Query

/-! ## Queries -/

/-- Joins a condition to that of the query. -/
def join (q : Query) (connective : Connective) (condition : Operator) : Query :=
  match connective with
  | .and => q.and condition
  | .or => q.or condition

/-- Joins conditions to that of the query, one after the other. -/
def joins (q : Query) (calls : List (Connective × Operator)) : Query :=
  calls.foldl (fun q call => q.join call.1 call.2) q

/-- To join a condition is to change the one there is. -/
lemma join_eq (q : Query) (connective : Connective) (condition : Operator) :
    q.join connective condition = q.modifyCondition (combine connective condition) := by
  cases connective <;> rfl

/-- Where a query has no condition, an empty group stands for it. -/
lemma rootCondition_eq (q : Query) : q.rootCondition = q.condition?.getD (.group .and []) := by
  unfold rootCondition condition?
  rcases q.clause? .whereClause with _ | clause
  · rfl
  · show conditionOf clause.operands = (clause.operands.head?.bind Operand.operator?).getD _
    unfold conditionOf
    rcases clause.operands with _ | ⟨p | v | condition, rest⟩ <;> rfl

/-- The condition is the one that the change made, whatever stood in its place. -/
lemma condition?_modifyCondition (q : Query) (f : Operator → Operator) :
    (q.modifyCondition f).condition? = some (f q.rootCondition) := by
  unfold condition? rootCondition
  rw [clause?, Query.modifyCondition, withClauses, find?_modifyFirst]
  rcases hclause : q.clause? .whereClause with _ | clause
  · rw [if_neg (by simp), find?_insertClause .whereClause rfl hclause]
    rfl
  · rw [if_pos (by simp), ← clause?, hclause]
    rfl

/-- The condition of a query after another one was joined to it. -/
lemma condition?_join (q : Query) (connective : Connective) (condition : Operator) :
    (q.join connective condition).condition? =
      some (combine connective condition (q.condition?.getD (.group .and []))) := by
  rw [join_eq, condition?_modifyCondition, rootCondition_eq]

/-- Nothing is remembered of the old condition, so the test is that of the new one. -/
lemma test_join_fst [DecimalReader] (q : Query) (connective : Connective) (condition : Operator)
    (subject : Subject) :
    ((q.join connective condition).test subject).1 =
      (combine connective condition (q.condition?.getD (.group .and []))).outcome subject := by
  have hcurrent : (q.join connective condition).IsCurrent := by
    rw [join_eq]
    exact isCurrent_of_memo rfl
  rw [test_fst hcurrent, condition?_join]
  rfl

/-- A group of the connective of the calls takes in one condition after the other. -/
lemma condition?_joins (connective : Connective) (conditions : List Operator) {q : Query}
    {group : Operator} (hgroup : q.condition? = some group) (hkind : group.kind = connective.kind) :
    (q.joins (conditions.map fun condition => (connective, condition))).condition? =
      some (group.withOperands (conditions.map .operator)) := by
  induction conditions generalizing q group with
  | nil =>
    rw [List.map_nil, List.map_nil, Operator.withOperands, List.append_nil]
    cases group
    exact hgroup
  | cons condition rest ih =>
    have hnext : (q.join connective condition).condition? =
        some (group.withOperands [.operator condition]) := by
      rw [condition?_join, hgroup, Option.getD_some, combine, if_pos (.inl hkind), ← hkind]
      rfl
    have hrest := ih hnext hkind
    rw [Operator.withOperands, Operator.withOperands, List.append_assoc] at hrest
    exact hrest

/-- What a run of calls comes to, where there is a condition to join the first one to: the results
are joined in the order of the calls, and the first fault is the one reported. -/
theorem test_joins [DecimalReader] {q : Query} (hq : q.Reached) {old : Operator}
    (hold : q.condition? = some old)
    (hvacant : ¬ old.IsVacant) (calls : List (Connective × Operator)) (subject : Subject) :
    ((q.joins calls).test subject).1 =
      calls.foldl (fun test call => call.1.combined test (call.2.outcome subject))
        (q.test subject).1 := by
  induction calls generalizing q old with
  | nil => rfl
  | cons call rest ih =>
    obtain ⟨connective, condition⟩ := call
    have hfirst : ((q.join connective condition).test subject).1 =
        connective.combined (q.test subject).1 (condition.outcome subject) := by
      have hbefore : (q.test subject).1 = old.outcome subject := by
        rw [test_fst hq.isCurrent, hold]
        rfl
      rw [test_join_fst, hold, Option.getD_some,
        Operator.outcome_combine subject connective condition hvacant, hbefore]
    have hreached : (q.join connective condition).Reached := by
      rw [join_eq]
      exact hq.step (.modifyCondition _)
    rw [List.foldl_cons, ← hfirst]
    exact ih hreached (q.condition?_join connective condition)
      (Operator.not_isVacant_combine connective condition _)

/-- What a query comes to after a condition was joined to its own. If it had one that is no empty
`AND` or `OR`, both are tested, the old one first, and joined. If it had none, the new condition
alone is tested. All else stays as it was, and calls with one connective, made on a query without a
condition, build one group of the conditions in the order of the calls. -/
theorem test_join [DecimalReader] (q : Query) (connective : Connective) (condition : Operator)
    (subject : Subject) :
    (∀ old, q.condition? = some old → ¬ old.IsVacant →
        ((q.join connective condition).test subject).1 =
          connective.combined (old.outcome subject) (condition.outcome subject)) ∧
      ((∀ old, q.condition? = some old → old.IsVacant) →
        ((q.join connective condition).test subject).1 = condition.outcome subject) ∧
      (q.join connective condition).others = q.others ∧
      (q.join connective condition).name = q.name ∧
      (q.join connective condition).aliases = q.aliases ∧
      (q.join connective condition).warnings = q.warnings ∧
      (q.condition? = none → ∀ more : List Operator,
        (q.joins ((condition :: more).map fun condition => (connective, condition))).condition? =
          some (.group connective (condition :: more))) := by
  have hmodify := q.join_eq connective condition
  refine ⟨?_, ?_, ?_, ?_, ?_, ?_, ?_⟩
  · intro old hold hvacant
    rw [test_join_fst, hold]
    exact Operator.outcome_combine subject connective condition hvacant
  · intro hvacant
    rw [test_join_fst]
    apply Operator.outcome_combine_vacant
    rcases hcondition : q.condition? with _ | old
    · exact ⟨rfl, rfl⟩
    · exact hvacant old hcondition
  · rw [hmodify]
    exact q.others_modifyCondition _
  · rw [hmodify]
    rfl
  · rw [hmodify]
    rfl
  · rw [hmodify]
    rfl
  · intro hnone more
    have hfirst :
        (q.join connective condition).condition? = some (.group connective [condition]) := by
      rw [condition?_join, hnone, Option.getD_none, combine, if_pos (.inr ⟨rfl, rfl⟩)]
      rfl
    exact condition?_joins connective more hfirst rfl

/-- A condition that fails before another one that does, and three conditions for a query that had
none. -/
theorem test_join_sample :
    ∃ (q : Query) (old first second : Operator) (subject : Subject),
      q.condition? = some old ∧ ¬ old.IsVacant ∧
      first.outcome subject = .error (.unsupportedOperator "like") ∧
      ((q.join .or first).test subject).1 = .error (.unsupportedOperator ">") ∧
      ((empty.join .or second).test subject).1 = .ok true ∧
      (empty.joins [(.or, first), (.or, second), (.or, first)]).condition? =
        some (.group .or [first, second, first]) := by
  obtain ⟨old, hold⟩ : ∃ old : Operator, old =
      Builder.leaf .greaterThan (.ofId "size") [.ofString "1"] := ⟨_, rfl⟩
  obtain ⟨first, hfirst⟩ : ∃ first : Operator, first =
      Builder.leaf .like (.ofId "host") [.ofString "a"] := ⟨_, rfl⟩
  obtain ⟨second, hsecond⟩ : ∃ second : Operator, second =
      Builder.leaf .equals (.ofId "host") [.ofString "b"] := ⟨_, rfl⟩
  obtain ⟨subject, hsubject⟩ : ∃ subject : Subject, subject =
      Subject.ofJson (.object [("host", .string "b")]) := ⟨_, rfl⟩
  have hcondition : (empty.and old).condition? = some (.group .and [old]) := rfl
  have hvacant : ¬ (Operator.group .and [old]).IsVacant := by
    rintro ⟨-, hnil⟩
    cases hnil
  have hfault :
      (Operator.group .and [old]).outcome subject = .error (.unsupportedOperator ">") := by
    subst hold
    rfl
  have hlike : first.outcome subject = .error (.unsupportedOperator "like") := by
    subst hfirst
    rfl
  have hequal : second.outcome subject = .ok true := by
    subst hsecond hsubject
    rfl
  refine ⟨empty.and old, .group .and [old], first, second, subject, hcondition, hvacant, hlike, ?_,
    ?_, ?_⟩
  · rw [(test_join (empty.and old) .or first subject).1 _ hcondition hvacant, hfault]
    rfl
  · rw [(test_join empty .or second subject).2.1 nofun, hequal]
  · exact (test_join empty .or first subject).2.2.2.2.2.2 rfl [second, first]

end Query

end RecordQuery
