import RecordQuery.Proofs.BuilderPath
import RecordQuery.Proofs.Shape

/-!
# Conditions without empty groups

Pruning drops the groups that hold no condition, and negations of such groups. A condition that
holds no empty group stays as it is (`Operator.prune_eq_self`), and of the contents of a group
pruning leaves what `Contents.trim` leaves (`Contents.pruneOperands_eq`).

The leaves of a condition are what its groups and negations are made of. Where these hold conditions
only, and none is empty, each of them has leaves beneath it (`Operator.leaves_ne_nil`).
-/

namespace RecordQuery

namespace Operator

/-- Whether an operator and all operators beneath it are no empty groups. -/
def IsFull (op : Operator) : Prop := op.Everywhere fun op => op.isEmptyGroup = false

/-- Whether an operator, if it joins or negates conditions, has some, and nothing but operators
among its operands. -/
def IsProper (op : Operator) : Prop :=
  op.kind.family = .logical →
  op.operands ≠ [] ∧ ∀ operand ∈ op.operands, ∃ child, operand = .operator child

mutual

/-- The leaves of a condition from left to right: the operators that its groups and negations are
made of. -/
def leaves : Operator → List Operator
  | ⟨kind, property, operands, span⟩ =>
    if kind.family = .logical then leavesIn operands else [⟨kind, property, operands, span⟩]

/-- The leaves of the operators among some operands. -/
def leavesIn : List Operand → List Operator
  | [] => []
  | .operator op :: rest => leaves op ++ leavesIn rest
  | _ :: rest => leavesIn rest

end

/-- An empty group is a group or a negation without operands. -/
lemma isEmptyGroup_iff (op : Operator) :
    op.isEmptyGroup = true ↔ op.kind.family = .logical ∧ op.operands = [] := by
  have hfamily : (op.isConnective || op.kind == .not) = true ↔ op.kind.family = .logical := by
    unfold isConnective
    cases op.kind <;> decide
  rw [isEmptyGroup, Bool.and_eq_true, hfamily, List.isEmpty_iff]

/-- A proper operator is no empty group. -/
lemma IsProper.isEmptyGroup_eq_false {op : Operator} (h : op.IsProper) :
    op.isEmptyGroup = false := by
  rw [Bool.eq_false_iff]
  intro hempty
  obtain ⟨hfamily, hoperands⟩ := (isEmptyGroup_iff op).mp hempty
  exact (h hfamily).1 hoperands

/-- What holds everywhere in an operator holds everywhere in its operands. -/
lemma Everywhere.operands {P : Operator → Prop} {op : Operator} (h : op.Everywhere P) :
    EverywhereIn P op.operands := by
  cases op
  exact h.2

/-- A condition that is proper everywhere is full. -/
lemma isFull_of_isProper {op : Operator} (h : op.Everywhere IsProper) : op.IsFull :=
  Everywhere.imp (fun _ => IsProper.isEmptyGroup_eq_false) op h

/-! ## Leaves -/

/-- The leaves of a group or a negation are those of its operands. -/
lemma leaves_of_logical {op : Operator} (h : op.kind.family = .logical) :
    op.leaves = leavesIn op.operands := by
  cases op
  rw [leaves, if_pos h]

/-- Any other operator is its own leaf. -/
lemma leaves_of_not_logical {op : Operator} (h : op.kind.family ≠ .logical) : op.leaves = [op] := by
  cases op
  rw [leaves, if_neg h]

@[simp] lemma leavesIn_append (operands more : List Operand) :
    leavesIn (operands ++ more) = leavesIn operands ++ leavesIn more := by
  induction operands with
  | nil => rfl
  | cons operand rest ih =>
    cases operand <;> simp only [List.cons_append, leavesIn, ih, List.append_assoc]

/-- More operands bring their leaves, behind those that were there. -/
lemma leaves_withOperands {op : Operator} (h : op.kind.family = .logical) (more : List Operand) :
    (op.withOperands more).leaves = op.leaves ++ leavesIn more := by
  have hmore : (op.withOperands more).kind.family = .logical := h
  rw [leaves_of_logical h, leaves_of_logical hmore, withOperands, leavesIn_append]

/-- Groups are logical operators. -/
lemma family_of_isConnective {op : Operator} (h : op.isConnective = true) :
    op.kind.family = .logical := by
  unfold isConnective at h
  cases hkind : op.kind <;> rw [hkind] at h <;> first | rfl | cases h

/-- Making a group of an operator leaves its leaves. -/
lemma leaves_asGroup (root : Operator) : root.asGroup.leaves = root.leaves := by
  unfold asGroup
  split
  · rfl
  · rw [leaves_of_logical rfl]
    simp [group, leavesIn]

/-- Where groups and negations hold conditions, and nothing else, there are leaves. -/
lemma leaves_ne_nil (op : Operator) : op.Everywhere IsProper → op.leaves ≠ [] := by
  induction op using Operator.induction with
  | step op ih =>
    intro h
    by_cases hfamily : op.kind.family = .logical
    · obtain ⟨hne, hoperators⟩ := h.root hfamily
      obtain ⟨first, rest, hoperands⟩ := List.exists_cons_of_ne_nil hne
      obtain ⟨child, rfl⟩ := hoperators first (by simp [hoperands])
      have hchild : .operator child ∈ op.operands := by simp [hoperands]
      rw [leaves_of_logical hfamily, hoperands, leavesIn]
      exact List.append_ne_nil_of_left_ne_nil
        (ih child hchild ((everywhere_iff.mp h).2 child hchild)) _
    · rw [leaves_of_not_logical hfamily]
      exact List.cons_ne_nil _ _

/-- In a proper condition every group and negation has leaves beneath it. -/
lemma everywhere_leaves_ne_nil {op : Operator} (h : op.Everywhere IsProper) :
    op.Everywhere fun op => op.kind.family = .logical → op.leaves ≠ [] := by
  induction op using Operator.induction with
  | step op ih =>
    refine everywhere_iff.mpr ⟨fun _ => leaves_ne_nil op h, fun child hchild => ?_⟩
    exact ih child hchild ((everywhere_iff.mp h).2 child hchild)

/-! ## Pruning -/

@[simp] lemma kind_prune (op : Operator) : op.prune.kind = op.kind := by
  cases op
  rw [prune]

@[simp] lemma operands_prune (op : Operator) : op.prune.operands = pruneOperands op.operands := by
  cases op
  rw [prune]

mutual

/-- Pruning leaves a condition without empty groups as it is. -/
lemma prune_eq_self : (op : Operator) → op.IsFull → op.prune = op
  | ⟨_, _, operands, _⟩, h => by
    rw [prune, pruneOperands_eq_self operands h.2]

/-- Pruning leaves operands without empty groups as they are. -/
lemma pruneOperands_eq_self : (operands : List Operand) →
    EverywhereIn (fun op => op.isEmptyGroup = false) operands → pruneOperands operands = operands
  | [], _ => rfl
  | .operator op :: rest, h => by
    have hop := prune_eq_self op h.1
    have hempty : ¬ op.isEmptyGroup = true := by
      rw [Everywhere.root h.1]
      exact Bool.false_ne_true
    rw [pruneOperands, hop, if_neg hempty, pruneOperands_eq_self rest h.2]
  | .property _ :: rest, h => by rw [pruneOperands, pruneOperands_eq_self rest h]; simp
  | .value _ :: rest, h => by rw [pruneOperands, pruneOperands_eq_self rest h]; simp

end

/-- Operands are pruned one by one. -/
lemma pruneOperands_append (operands more : List Operand) :
    pruneOperands (operands ++ more) = pruneOperands operands ++ pruneOperands more := by
  induction operands with
  | nil => rfl
  | cons operand rest ih =>
    cases operand with
    | operator op =>
      rw [List.cons_append, pruneOperands, pruneOperands, ih]
      split <;> rfl
    | property p => simp [pruneOperands, ih]
    | value v => simp [pruneOperands, ih]

/-- Pruning a group prunes what was put behind its operands, if these hold no empty group. -/
lemma prune_withOperands {op : Operator}
    (h : EverywhereIn (fun op => op.isEmptyGroup = false) op.operands) (more : List Operand) :
    (op.withOperands more).prune = op.withOperands (pruneOperands more) := by
  obtain ⟨kind, property, operands, span⟩ := op
  rw [withOperands, prune, pruneOperands_append, pruneOperands_eq_self operands h, withOperands]

/-! ## Proper groups -/

/-- Making a group of a proper condition leaves it proper. -/
lemma everywhere_asGroup {root : Operator} (h : root.Everywhere IsProper) :
    root.asGroup.Everywhere IsProper := by
  unfold asGroup
  split
  · exact h
  · refine everywhere_iff.mpr ⟨fun _ => ⟨List.cons_ne_nil _ _, ?_⟩, ?_⟩
    · simp [group]
    · simpa [group] using h

/-- Conditions behind those of a group keep it proper, and make it so if it was empty. -/
lemma everywhere_withOperands {op : Operator} {more : List Operator}
    (hop : op.Everywhere IsProper ∨ (op.operands = [] ∧ more ≠ []))
    (hmore : ∀ c ∈ more, c.Everywhere IsProper) :
    (op.withOperands (more.map .operator)).Everywhere IsProper := by
  have hchild : ∀ child, .operator child ∈ more.map Operand.operator → child.Everywhere IsProper :=
    fun child hmem => hmore child (by simpa using hmem)
  rcases hop with hop | ⟨hnil, hne⟩
  · obtain ⟨hroot, hbelow⟩ := everywhere_iff.mp hop
    refine everywhere_iff.mpr ⟨fun hfamily => ?_, fun child hmem => ?_⟩
    · obtain ⟨hne, hoperators⟩ := hroot hfamily
      refine ⟨List.append_ne_nil_of_left_ne_nil hne _, fun operand hmem => ?_⟩
      rcases List.mem_append.mp hmem with hmem | hmem
      · exact hoperators operand hmem
      · obtain ⟨child, -, rfl⟩ := List.mem_map.mp hmem
        exact ⟨child, rfl⟩
    · rcases List.mem_append.mp hmem with hmem | hmem
      · exact hbelow child hmem
      · exact hchild child hmem
  · have hoperands : (op.withOperands (more.map .operator)).operands = more.map .operator := by
      rw [withOperands, hnil, List.nil_append]
    refine everywhere_iff.mpr ⟨fun _ => ?_, ?_⟩
    · rw [hoperands]
      refine ⟨by simpa using hne, fun operand hmem => ?_⟩
      obtain ⟨child, -, rfl⟩ := List.mem_map.mp hmem
      exact ⟨child, rfl⟩
    · rw [hoperands]
      exact hchild

end Operator

namespace GroupSort

variable (sort : GroupSort) (conditions : List Operator)

/-- An opened group has the leaves of its conditions. -/
lemma leaves_condition :
    (sort.condition conditions).leaves = Operator.leavesIn (conditions.map .operator) := by
  have hgroup : ∀ connective, (Operator.group connective conditions).leaves =
      Operator.leavesIn (conditions.map .operator) := fun connective =>
    Operator.leaves_of_logical (Operator.family_of_isConnective (Operator.isConnective_group _ _))
  cases sort with
  | joined connective => exact hgroup connective
  | negated =>
    rw [condition, wrap, Operator.leaves_of_logical rfl, Operator.leavesIn, Operator.leavesIn,
      List.append_nil]
    exact hgroup .and

variable {conditions}

/-- An opened group with proper conditions is proper, if it has any. -/
lemma everywhere_condition (hne : conditions ≠ [])
    (h : ∀ c ∈ conditions, c.Everywhere Operator.IsProper) :
    (sort.condition conditions).Everywhere Operator.IsProper := by
  have hgroup : ∀ connective,
      (Operator.group connective conditions).Everywhere Operator.IsProper := by
    intro connective
    rw [Operator.group_eq_withOperands]
    exact Operator.everywhere_withOperands (.inr ⟨rfl, hne⟩) h
  cases sort with
  | joined connective => exact hgroup connective
  | negated =>
    refine Operator.everywhere_iff.mpr ⟨fun _ => ⟨List.cons_ne_nil _ _, ?_⟩, fun child hchild => ?_⟩
    · exact fun operand hmem => ⟨_, List.mem_singleton.mp hmem⟩
    · cases List.mem_singleton.mp hchild
      exact hgroup .and

/-- Pruning drops a group if nothing remains of its conditions, and else leaves the group of what
remains. -/
lemma pruneOperands_condition {remaining : List Operator}
    (h : Operator.pruneOperands (conditions.map .operator) = remaining.map .operator) :
    Operator.pruneOperands [.operator (sort.condition conditions)] =
      if remaining.isEmpty then [] else [.operator (sort.condition remaining)] := by
  have hgroup : ∀ connective, Operator.pruneOperands [.operator (.group connective conditions)] =
      if remaining.isEmpty then [] else [.operator (.group connective remaining)] := by
    intro connective
    have hprune : (Operator.group connective conditions).prune = .group connective remaining := by
      rw [Operator.group, Operator.prune, h, Operator.group]
    have hempty : (Operator.group connective remaining).isEmptyGroup = remaining.isEmpty := by
      cases connective <;> cases remaining <;> rfl
    rw [Operator.pruneOperands, hprune, hempty, Operator.pruneOperands]
  cases sort with
  | joined connective => exact hgroup connective
  | negated =>
    rw [condition, wrap, Operator.pruneOperands, Operator.prune, connective, hgroup .and]
    cases remaining <;> rfl

end GroupSort

namespace Contents

/-- Of the contents of a group pruning leaves what remains when the groups without conditions are
dropped. -/
lemma pruneOperands_eq (contents : Contents) (around : List OpenedGroup)
    (h : ∀ addition ∈ contents.additions around, addition.2.IsFull) :
    Operator.pruneOperands (contents.operators.map .operator) =
      contents.trim.operators.map .operator := by
  induction contents generalizing around with
  | nil => rfl
  | condition added rest ih =>
    obtain ⟨hadded, hrest⟩ := List.forall_mem_cons.mp h
    have hself := Operator.pruneOperands_eq_self [.operator added] ⟨hadded, trivial⟩
    rw [operators, List.map_cons, ← List.singleton_append, Operator.pruneOperands_append, hself,
      ih around hrest]
    rfl
  | group opened inside rest ihinside ihrest =>
    obtain ⟨hinside, hrest⟩ := List.forall_mem_append.mp h
    have hgroup := opened.sort.pruneOperands_condition (ihinside _ hinside)
    rw [operators, List.map_cons, ← List.singleton_append, Operator.pruneOperands_append, hgroup,
      ihrest around hrest]
    rcases trim_group opened inside rest with ⟨hnil, htrim⟩ | ⟨hne, htrim⟩
    · rw [htrim, hnil]
      rfl
    · have hsome : inside.trim.operators.isEmpty = false := by
        rw [Bool.eq_false_iff, ne_eq, List.isEmpty_iff, operators_eq_nil_iff]
        exact hne
      rw [htrim, hsome]
      rfl

/-- The leaves of contents are those of the conditions. -/
lemma leavesIn_operators (contents : Contents) (around : List OpenedGroup) :
    Operator.leavesIn (contents.operators.map .operator) =
      (contents.additions around).flatMap fun addition => addition.2.leaves := by
  induction contents generalizing around with
  | nil => rfl
  | condition added rest ih =>
    rw [operators, List.map_cons, Operator.leavesIn, ih around, additions, List.flatMap_cons]
  | group opened inside rest ihinside ihrest =>
    rw [operators, List.map_cons, Operator.leavesIn, GroupSort.leaves_condition, ihinside, ihrest,
      additions, List.flatMap_append]

/-- Contents without empty groups make proper conditions, if what was added is proper. -/
lemma IsFilled.everywhere_isProper {contents : Contents} (h : contents.IsFilled)
    (around : List OpenedGroup)
    (hadditions : ∀ addition ∈ contents.additions around, addition.2.Everywhere Operator.IsProper) :
    ∀ c ∈ contents.operators, c.Everywhere Operator.IsProper := by
  induction contents generalizing around with
  | nil => exact fun c hc => absurd hc List.not_mem_nil
  | condition added rest ih =>
    obtain ⟨hadded, hrest⟩ := List.forall_mem_cons.mp hadditions
    exact List.forall_mem_cons.mpr ⟨hadded, ih h around hrest⟩
  | group opened inside rest ihinside ihrest =>
    obtain ⟨hne, hinside, hrest⟩ := h
    obtain ⟨hadditions, hothers⟩ := List.forall_mem_append.mp hadditions
    refine List.forall_mem_cons.mpr ⟨?_, ihrest hrest around hothers⟩
    refine opened.sort.everywhere_condition ?_ (ihinside hinside _ hadditions)
    rw [ne_eq, operators_eq_nil_iff]
    exact hne

end Contents

end RecordQuery
