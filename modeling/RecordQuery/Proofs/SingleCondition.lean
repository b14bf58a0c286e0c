import RecordQuery.Proofs.ConditionRoundTrip
import RecordQuery.Proofs.PlainWords

/-!
# Texts that denote one condition

A text *denotes* a condition if it compiles to a query that has this condition and nothing else,
without a warning. It does so if what begins its reading is read as one group, to the end. The other
way round, all that the condition holds comes from the words of the text: what no token of the text
comes to is not found in the condition.
-/

namespace RecordQuery

open Reader Text

/-- A scalar of one of two operators with the same core is in the other with the same value. -/
lemma Operator.exists_mem_values_of_core_eq {a b : Operator} (h : a.core = b.core) {v : ScalarValue}
    (hv : v ∈ b.values) : ∃ w ∈ a.values, w.value = v.value := by
  have hmem : Operand.core (.value v) ∈ a.operands.map Operand.core := by
    rw [(core_eq_iff.mp h).2.2]
    exact List.mem_map_of_mem (mem_values.mp hv)
  obtain ⟨operand, hoperand, hcore⟩ := List.mem_map.mp hmem
  cases operand with
  | value w =>
    simp only [Operand.core, Operand.value.injEq, ScalarValue.mk.injEq, and_true] at hcore
    exact ⟨w, mem_values.mpr hoperand, hcore⟩
  | _ => cases hcore

namespace Query

/-- Whether a query has a condition, wherever this stood, but neither another clause
nor a warning. -/
structure HasOnly (condition : Operator) (q : Query) : Prop where
  warnings : q.warnings = []
  clauses : ∃ read span, q.clauses = [⟨.whereClause, none, [.operator read], span⟩] ∧
    read.core = condition.core

/-- Whether a text is compiled as a condition to a query that has this condition only. -/
def Denotes (text : String) (registry : Registry) (ceilings : Ceilings) (condition : Operator) :
    Prop :=
  ∃ q, ofCondition text registry ceilings = .ok q ∧ q.HasOnly condition

variable {text : String} {registry : Registry} {ceilings : Ceilings} {condition : Operator}
  {q : Query}

/-- A query with nothing but a condition is written with one member. -/
lemma HasOnly.toJson_eq (h : q.HasOnly condition) :
    q.toJson = .object [("where", condition.toJson)] := by
  obtain ⟨read, span, hclauses, hcore⟩ := h.clauses
  rw [toJson_eq_ofEntries, hclauses, ← Operator.toJson_eq_of_core_eq hcore]
  rfl

/-- A text denotes what its elements are read as, as one group. -/
lemma denotes_of_isGroup {r : Reading} {names : List String}
    (hstart : Reading.start text registry ceilings = .ok r) (hnotes : r.notes = {})
    (hgroup : Phrase.IsGroup r.setting [] names r.elements condition)
    (hcondition : condition.isCondition = true) : Denotes text registry ceilings condition := by
  obtain ⟨n, read, span, hrun, hcore, hproblems, hclauses⟩ :=
    Clause.on_readCondition hgroup hcondition
  refine ⟨.ofDraft n.draft, ?_, ?_⟩
  · rw [ofCondition, hstart]
    change r.compile (Clause.readCondition r.setting r.elements) = _
    rw [Reading.compile_eq, hnotes, hrun]
  · rw [ofDraft, hclauses, hproblems]
    exact ⟨rfl, read, span, rfl, hcore⟩

/-- A text denotes the operator that is sketched as what its reading begins with. -/
lemma denotes_of_begins {r : Reading} {raw : Lexeme → Prop} {sketches : List Sketch}
    (hsketched : condition.IsSketchedAs (.of text registry ceilings) raw sketches)
    (hstart : Reading.start text registry ceilings = .ok r)
    (hbegins : r.Begins (.of text registry ceilings) sketches)
    (hresolves : Mention.resolves registry [] condition.mentions = true)
    (hpaced : condition.Everywhere (Operator.Paced ceilings.steps))
    (hcondition : condition.isCondition = true) : Denotes text registry ceilings condition := by
  have hgroup := (hsketched.reads [] r.elements hbegins.reads hresolves hpaced).group hcondition
  rw [← hbegins.setting] at hgroup
  exact denotes_of_isGroup hstart hbegins.notes hgroup hcondition

/-- The values that a condition holds come from the tokens of a text that denotes it. -/
lemma Denotes.exists_scalar {V : Vocabulary} (h : Denotes text registry ceilings condition)
    (hcovers : ∀ forest, TokenForest.ofText text ceilings = .ok forest →
      TokenTree.AllOf (V.Covers registry) forest.merge.trees)
    (hcondition : condition.isCondition = true) {v : ScalarValue} (hv : v ∈ condition.values) :
    ∃ w : ScalarValue, w.value = v.value ∧ V.scalar w := by
  obtain ⟨q, hq, hhas⟩ := h
  obtain ⟨read, span, hclauses, hcore⟩ := hhas.clauses
  have hshaped := (isOfText_ofCondition_of_allOf hcovers hq).shaped
    ⟨.whereClause, none, [.operator read], span⟩ (by rw [hclauses]; exact List.mem_singleton_self _)
  have hread : read.Shaped (.ofText V) :=
    ((Operator.everywhere_iff.mp hshaped).2 read (List.mem_singleton_self _)).root
  have hkind : read.kind ≠ .asName ∧ read.kind ≠ .orderBy := by
    rw [(Operator.core_eq_iff.mp hcore).1]
    constructor
    all_goals
      intro hkind
      rw [Operator.isCondition, hkind] at hcondition
      cases hcondition
  obtain ⟨w, hw, hvalue⟩ := Operator.exists_mem_values_of_core_eq hcore hv
  exact ⟨w, hvalue,
    hread.scalar_of_mem_values_of_ne hkind.1 hkind.2 (fun _ h => h) (fun _ h => h) hw⟩

/-- A string of a condition holds no typographic quote, whatever text the condition
was read from. -/
lemma Denotes.isStraight (h : Denotes text .empty ceilings condition)
    (hcondition : condition.isCondition = true) {s : String}
    (hs : .ofString s ∈ condition.values) : IsStraight s.toList := by
  obtain ⟨w, hvalue, hplain⟩ :=
    h.exists_scalar (fun _ hforest => TokenForest.allOf_covers_plain hforest) hcondition hs
  exact (hplain s hvalue).2

end Query

end RecordQuery
