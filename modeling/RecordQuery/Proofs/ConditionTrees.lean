import RecordQuery.Proofs.FullConditions
import RecordQuery.Proofs.RepeatedNegation

/-!
# Condition trees with empty groups

A condition tree is made of comparisons by negations and groups, and groups may be empty. Some trees
are *hollow*: nothing is left of them when empty groups are pruned. Rendering leaves a hollow tree
out if its text is empty, and pruning leaves it out in any case, so the two agree on a tree only if
it is *spare*: no parentheses stand around a hollow tree in it. A pruned tree is always spare,
because it has no hollow trees in it at all.

A group of one condition is written as the condition alone, and this is how it is read.
`Operator.settled` is the condition that remains when such groups are taken away together with the
hollow trees. Pruning does not change it.
-/

namespace RecordQuery

/-- The condition that conditions with a connective between them are read as. -/
def Connective.joined (connective : Connective) : List Operator → Operator
  | [condition] => condition
  | conditions => .group connective conditions

/-- Joined conditions are a condition. -/
lemma Connective.isCondition_joined (connective : Connective) {conditions : List Operator}
    (h : ∀ c ∈ conditions, c.isCondition = true) :
    (connective.joined conditions).isCondition = true := by
  unfold joined
  split
  · exact h _ (List.mem_singleton_self _)
  · cases connective <;> rfl

namespace Operator

/-- The trees that negations and groups make of comparisons of properties with numbers. -/
inductive IsTree : Operator → Prop
  | test {id : String} {v : ScalarValue} {span : Option Span}
      (plain : (PropertyRef.ofId id).isPlain .empty = true) (number : v.type = .number) :
      IsTree (stated .equals (.property (.ofId id)) [.value v] span)
  | not {condition : Operator} {span : Option Span} (tree : IsTree condition) :
      IsTree ⟨.not, none, [.operator condition], span⟩
  | group {connective : Connective} {conditions : List Operator} {span : Option Span}
      (trees : ∀ c ∈ conditions, IsTree c) :
      IsTree ⟨connective.kind, none, conditions.map .operator, span⟩

/-! ## Hollow trees -/

/-- Whether pruning leaves nothing of a tree. -/
def isHollow (op : Operator) : Bool := op.prune.isEmptyGroup

/-- The conditions of which pruning leaves something. -/
def kept (conditions : List Operator) : List Operator := conditions.filter fun c => !c.isHollow

@[simp] lemma mem_kept {conditions : List Operator} {c : Operator} :
    c ∈ kept conditions ↔ c ∈ conditions ∧ c.isHollow = false := by
  simp [kept]

/-- Nothing is kept exactly if all conditions are hollow. -/
lemma kept_eq_nil_iff {conditions : List Operator} :
    kept conditions = [] ↔ ∀ c ∈ conditions, c.isHollow = true := by
  simp [kept]

/-- Conditions of which none is hollow are all kept. -/
lemma kept_eq_self {conditions : List Operator} (h : ∀ c ∈ conditions, c.isHollow = false) :
    kept conditions = conditions := List.filter_eq_self.mpr (by simpa using h)

/-- Pruning some conditions prunes those that are kept. -/
lemma pruneOperands_map (conditions : List Operator) :
    pruneOperands (conditions.map .operator) = ((kept conditions).map prune).map .operator := by
  induction conditions with
  | nil => rfl
  | cons c conditions ih =>
    rw [List.map_cons, pruneOperands, ih, kept, kept, List.filter_cons]
    change (if c.isHollow = true then _ else _) = _
    cases c.isHollow <;> rfl

/-- Pruning a group prunes the conditions that are kept. -/
lemma prune_group (connective : Connective) (conditions : List Operator) (span : Option Span) :
    (Operator.mk connective.kind none (conditions.map .operator) span).prune =
      ⟨connective.kind, none, ((kept conditions).map prune).map .operator, span⟩ := by
  rw [prune, pruneOperands_map]

/-- A group is hollow if nothing of it is kept. -/
lemma isHollow_group (connective : Connective) (conditions : List Operator) (span : Option Span) :
    (Operator.mk connective.kind none (conditions.map .operator) span).isHollow =
      (kept conditions).isEmpty := by
  have hconnective : connective.kind.isConnective = true := by cases connective <;> rfl
  rw [isHollow, prune_group, isEmptyGroup]
  simp [isConnective, hconnective]

/-- A negation is hollow if its condition is. -/
lemma isHollow_negation (condition : Operator) (span : Option Span) :
    (Operator.mk .not none [.operator condition] span).isHollow = condition.isHollow := by
  have hprune := pruneOperands_map [condition]
  rw [List.map_singleton] at hprune
  rw [isHollow, prune, hprune, kept, List.filter_singleton, isEmptyGroup]
  cases condition.isHollow <;> rfl

/-- Pruning a negation that is not hollow prunes its condition. -/
lemma prune_negation {condition : Operator} (h : condition.isHollow = false) (span : Option Span) :
    (Operator.mk .not none [.operator condition] span).prune =
      ⟨.not, none, [.operator condition.prune], span⟩ := by
  have hprune := pruneOperands_map [condition]
  rw [List.map_singleton, kept_eq_self (by simpa using h)] at hprune
  rw [prune, hprune]
  rfl

mutual

/-- Pruning a pruned tree changes nothing. -/
lemma prune_prune : (op : Operator) → op.prune.prune = op.prune
  | ⟨_, _, operands, _⟩ => by
    rw [prune, prune, pruneOperands_pruneOperands operands]

/-- Operands that were pruned are not changed by pruning them again. -/
lemma pruneOperands_pruneOperands : (operands : List Operand) →
    pruneOperands (pruneOperands operands) = pruneOperands operands
  | [] => rfl
  | .operator op :: rest => by
    rw [pruneOperands]
    split
    · exact pruneOperands_pruneOperands rest
    · rename_i hempty
      rw [pruneOperands, prune_prune op, if_neg hempty, pruneOperands_pruneOperands rest]
  | .property _ :: rest => by
    simp only [pruneOperands, pruneOperands_pruneOperands rest]
  | .value _ :: rest => by
    simp only [pruneOperands, pruneOperands_pruneOperands rest]

end

@[simp] lemma isHollow_prune (op : Operator) : op.prune.isHollow = op.isHollow := by
  rw [isHollow, prune_prune, isHollow]

/-- The operators that pruning leaves among some operands. -/
lemma exists_of_mem_pruneOperands {operands : List Operand} {child : Operator}
    (h : .operator child ∈ pruneOperands operands) :
    ∃ op, .operator op ∈ operands ∧ op.isHollow = false ∧ child = op.prune := by
  induction operands with
  | nil => cases h
  | cons operand rest ih =>
    have hrest : .operator child ∈ pruneOperands rest →
        ∃ op, .operator op ∈ operand :: rest ∧ op.isHollow = false ∧ child = op.prune := fun h => by
      obtain ⟨op, hop, hfound⟩ := ih h
      exact ⟨op, List.mem_cons_of_mem _ hop, hfound⟩
    cases operand with
    | operator op =>
      rw [pruneOperands] at h
      split at h
      · exact hrest h
      · rename_i hempty
        obtain h | h := List.mem_cons.mp h
        · cases h
          exact ⟨op, List.mem_cons_self .., Bool.eq_false_of_not_eq_true hempty, rfl⟩
        · exact hrest h
    | property p => exact hrest (by simpa [pruneOperands] using h)
    | value v => exact hrest (by simpa [pruneOperands] using h)

/-- What pruning leaves of a tree is a tree. -/
lemma IsTree.prune {op : Operator} (h : op.IsTree) (hhollow : op.isHollow = false) :
    op.prune.IsTree := by
  induction h with
  | test plain number => exact .test plain number
  | not _ ih =>
    rw [isHollow_negation] at hhollow
    rw [prune_negation hhollow]
    exact .not (ih hhollow)
  | group _ ih =>
    rw [prune_group]
    refine .group fun c hc => ?_
    obtain ⟨d, hd, rfl⟩ := List.mem_map.mp hc
    obtain ⟨hmem, hhollow⟩ := mem_kept.mp hd
    exact ih d hmem hhollow

/-! ## Spare trees -/

/-- Whether no parentheses stand around a hollow tree. -/
def IsSpare (op : Operator) : Prop :=
  op.Everywhere fun op => ∀ child ∈ op.children, encloses op.kind child = true →
  child.isHollow = false

instance : DecidablePred IsSpare := fun op => inferInstanceAs (Decidable (op.Everywhere _))

/-- The children of an operator are the operators among its operands. -/
lemma mem_children_iff {op child : Operator} : child ∈ op.children ↔
    .operator child ∈ op.operands := by
  rw [children, List.mem_filterMap]
  constructor
  · rintro ⟨operand, hmem, hchild⟩
    cases operand with
    | operator other =>
      cases hchild
      exact hmem
    | property | value => cases hchild
  · exact fun hmem => ⟨_, hmem, rfl⟩

/-- There are no hollow trees in a pruned one. -/
lemma isSpare_prune (op : Operator) : op.prune.IsSpare := by
  induction op using Operator.induction with
  | step op ih =>
    refine everywhere_iff.mpr ⟨fun child hchild _ => ?_, fun child hchild => ?_⟩
    · rw [mem_children_iff, operands_prune] at hchild
      obtain ⟨other, -, hhollow, rfl⟩ := exists_of_mem_pruneOperands hchild
      rw [isHollow_prune, hhollow]
    · rw [operands_prune] at hchild
      obtain ⟨other, hother, -, rfl⟩ := exists_of_mem_pruneOperands hchild
      exact ih other hother

/-- An operator is spare if its children are, and no hollow one of them is in parentheses. -/
lemma isSpare_iff {op : Operator} : op.IsSpare ↔ ∀ child ∈ op.children,
    (encloses op.kind child = true → child.isHollow = false) ∧ child.IsSpare := by
  constructor
  · intro h child hchild
    obtain ⟨hroot, hbelow⟩ := everywhere_iff.mp h
    exact ⟨hroot child hchild, hbelow child (mem_children_iff.mp hchild)⟩
  · intro h
    exact everywhere_iff.mpr ⟨fun child hchild => (h child hchild).1, fun child hchild =>
      (h child (mem_children_iff.mpr hchild)).2⟩

/-- A group is spare if its conditions are, and no hollow one of them is in parentheses. -/
lemma isSpare_group {connective : Connective} {conditions : List Operator} {span : Option Span} :
    (Operator.mk connective.kind none (conditions.map .operator) span).IsSpare ↔
      ∀ c ∈ conditions, (encloses connective.kind c = true → c.isHollow = false) ∧ c.IsSpare := by
  rw [isSpare_iff]
  simp [mem_children_iff]

/-- A negation is spare if its condition is, and is not hollow if it is in parentheses. -/
lemma isSpare_negation {condition : Operator} {span : Option Span} :
    (Operator.mk .not none [.operator condition] span).IsSpare ↔
      (encloses .not condition = true → condition.isHollow = false) ∧ condition.IsSpare := by
  rw [isSpare_iff]
  simp [mem_children_iff]

/-! ## Settled trees -/

mutual

/-- The condition that a tree comes to without its hollow trees, if groups of one condition are
replaced by what they hold. -/
def settled : Operator → Operator
  | ⟨kind, property, operands, span⟩ =>
    match kind with
    | .and => Connective.and.joined (settledIn operands)
    | .or => Connective.or.joined (settledIn operands)
    | .not => ⟨.not, none, (settledIn operands).map .operator, none⟩
    | _ => ⟨kind, property, operands, span⟩

/-- What the trees among some operands come to. -/
def settledIn : List Operand → List Operator
  | [] => []
  | .operator op :: rest => if op.isHollow then settledIn rest else settled op :: settledIn rest
  | _ :: rest => settledIn rest

end

/-- What conditions come to is what those that are kept come to. -/
lemma settledIn_map (conditions : List Operator) :
    settledIn (conditions.map .operator) = (kept conditions).map settled := by
  induction conditions with
  | nil => rfl
  | cons c conditions ih =>
    rw [List.map_cons, settledIn, ih, kept, kept, List.filter_cons]
    cases c.isHollow <;> rfl

/-- A group comes to what is kept of it, joined. -/
lemma settled_group (connective : Connective) (conditions : List Operator) (span : Option Span) :
    (Operator.mk connective.kind none (conditions.map .operator) span).settled =
      connective.joined ((kept conditions).map settled) := by
  rw [← settledIn_map]
  cases connective <;> rfl

/-- A negation that is not hollow comes to the negation of what its condition comes to. -/
lemma settled_negation {condition : Operator} (h : condition.isHollow = false)
    (span : Option Span) :
    (Operator.mk .not none [.operator condition] span).settled = condition.settled.negation := by
  have hsettled := settledIn_map [condition]
  rw [List.map_singleton, kept_eq_self (by simpa using h)] at hsettled
  rw [settled, hsettled]
  rfl

/-- Pruning a tree leaves what it comes to. -/
theorem IsTree.settled_prune {op : Operator} (h : op.IsTree) (hhollow : op.isHollow = false) :
    op.prune.settled = op.settled := by
  induction h with
  | test => rfl
  | @not condition span _ ih =>
    rw [isHollow_negation] at hhollow
    have hpruned : condition.prune.isHollow = false := by rw [isHollow_prune, hhollow]
    rw [prune_negation hhollow, settled_negation hpruned, settled_negation hhollow, ih hhollow]
  | @group connective conditions span _ ih =>
    have hpruned : ∀ c ∈ (kept conditions).map Operator.prune, c.isHollow = false := by
      simp only [List.mem_map, mem_kept]
      rintro _ ⟨c, ⟨-, hc⟩, rfl⟩
      rw [isHollow_prune, hc]
    rw [prune_group, settled_group, settled_group, kept_eq_self hpruned, List.map_map]
    refine congrArg _ (List.map_congr_left fun c hc => ?_)
    obtain ⟨hmem, hc⟩ := mem_kept.mp hc
    exact ih c hmem hc

/-- What a condition tree comes to is a condition. -/
lemma IsTree.isCondition_settled {op : Operator} (h : op.IsTree) :
    op.settled.isCondition = true := by
  induction h with
  | test => rfl
  | not => rfl
  | @group connective conditions span _ ih =>
    rw [settled_group]
    refine Connective.isCondition_joined _ fun c hc => ?_
    obtain ⟨d, hd, rfl⟩ := List.mem_map.mp hc
    exact ih d (mem_kept.mp hd).1

end Operator

end RecordQuery
