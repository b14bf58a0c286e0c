import RecordQuery.Proofs.OpenedGroups

/-!
# The path of a builder

The path of a builder is a list of numbers. That it leads to the innermost open group, and that this
group can be filled there, is an invariant of all calls. It is stated with the outline of the calls
(`Outline.path`): at each level the operand that is followed is the last one, its number that of the
operands before it, and a negation takes one more step.

Three facts follow, each by induction on the outline. The path leads to a connective, with as many
operands as the outline has room for (`Outline.at?_path`). Putting a condition behind the operands
there is adding it to the outline (`Outline.modifyAt_path`). And what closing does to the path is
what closing does to the outline (`Outline.outerPath_path`); where the number that was taken away
leads from a negation, one more goes.
-/

namespace RecordQuery

namespace Operator

/-- A condition as a group. One that is none becomes the only condition of an `AND` group. -/
def asGroup (root : Operator) : Operator := if root.isConnective then root else .group .and [root]

/-- A condition with others behind it in its group, if there are others. -/
def followedBy (root : Operator) : List Operator → Operator
  | [] => root
  | more => root.asGroup.withOperands (more.map .operator)

/-- The path that closing makes of one. -/
def outerPath (root : Operator) (path : List Nat) : List Nat :=
  if (root.at? path.dropLast).any fun op => op.kind == .not then path.dropLast.dropLast
  else path.dropLast

variable {root inner : Operator}

@[simp] lemma isConnective_withOperands (op : Operator) (more : List Operand) :
    (op.withOperands more).isConnective = op.isConnective := rfl

@[simp] lemma isConnective_group (connective : Connective) (conditions : List Operator) :
    (group connective conditions).isConnective = true := by
  cases connective <;> rfl

@[simp] lemma length_group_nil (connective : Connective) :
    (group connective []).operands.length = 0 := rfl

/-- Any operator is a group once it is made one. -/
lemma isConnective_asGroup (root : Operator) : root.asGroup.isConnective = true := by
  unfold asGroup
  split
  · assumption
  · exact isConnective_group _ _

/-- A group is one already. -/
lemma asGroup_of_isConnective (h : root.isConnective = true) : root.asGroup = root := if_pos h

/-- No group is a negation. -/
lemma kind_ne_not (h : root.isConnective = true) : root.kind ≠ .not := by
  intro hkind
  rw [isConnective, hkind] at h
  cases h

@[simp] lemma withOperands_withOperands (op : Operator) (more others : List Operand) :
    (op.withOperands more).withOperands others = op.withOperands (more ++ others) := by
  simp [withOperands]

/-- A group of conditions is an empty one with the conditions put into it. -/
lemma group_eq_withOperands (connective : Connective) (conditions : List Operator) :
    group connective conditions = (group connective []).withOperands (conditions.map .operator) :=
    rfl

/-- Extending an operator puts the condition at the end of it as a group. -/
lemma extend_eq (root condition : Operator) :
    root.extend condition = root.asGroup.withOperands [.operator condition] := by
  unfold extend asGroup
  split <;> rfl

/-- Conditions that follow an operator are put at the end of it as a group. -/
lemma followedBy_of_ne_nil (root : Operator) {more : List Operator} (h : more ≠ []) :
    root.followedBy more = root.asGroup.withOperands (more.map .operator) := by
  cases more with
  | nil => exact absurd rfl h
  | cons condition rest => rfl

/-! ## The last operand -/

/-- A path to the last operand goes on inside that operand. -/
lemma at?_last (op last : Operator) (operators : List Operator) (path : List Nat) :
    (op.withOperands ((operators ++ [last]).map .operator)).at?
      ((op.operands.length + operators.length) :: path) = last.at? path := by
  simp [at?, withOperands, Operand.operator?]

/-- A change at a path to the last operand changes that operand. -/
lemma modifyAt_last (f : Operator → Operator) (op last : Operator) (operators : List Operator)
    (path : List Nat) :
    (op.withOperands ((operators ++ [last]).map .operator)).modifyAt f
      ((op.operands.length + operators.length) :: path) =
      op.withOperands ((operators ++ [last.modifyAt f path]).map .operator) := by
  have hlast := List.modifyTailIdx_add (List.modifyHead (Operand.mapOperator (modifyAt f path))) 0
    (op.operands ++ operators.map .operator) [.operator last]
  simpa [modifyAt, withOperands, List.modify, Operand.mapOperator] using hlast

/-! ## Ways out -/

/-- A way out that stays inside a group is one out of that group. -/
lemma outerPath_append {way path : List Nat}
    (hway : ∀ path, root.at? (way ++ path) = inner.at? path)
    (hinner : inner.isConnective = true) (hpath : path ≠ []) :
    root.outerPath (way ++ path) = way ++ inner.outerPath path := by
  unfold outerPath
  rw [List.dropLast_append_of_ne_nil hpath, hway]
  split
  · rename_i hnegation
    have houter : path.dropLast ≠ [] := by
      intro hnil
      rw [hnil, at?, Option.any_some, beq_iff_eq] at hnegation
      exact kind_ne_not hinner hnegation
    rw [List.dropLast_append_of_ne_nil houter]
  · rfl

@[simp] lemma outerPath_nil (root : Operator) : root.outerPath [] = [] := by
  unfold outerPath
  split <;> rfl

end Operator

namespace GroupSort

variable (sort : GroupSort) (inner : Operator) (path : List Nat)

/-- The steps of an opened group lead into it. -/
lemma at?_steps : (sort.wrap inner).at? (sort.steps ++ path) = inner.at? path := by
  cases sort <;> rfl

/-- A change behind the steps of an opened group changes what is in the group. -/
lemma modifyAt_steps (f : Operator → Operator) :
    (sort.wrap inner).modifyAt f (sort.steps ++ path) = sort.wrap (inner.modifyAt f path) := by
  cases sort <;> rfl

end GroupSort

namespace Outline

/-! ## The path to the innermost open group -/

/-- The operands that lead to the innermost open group, where some operands stand
before all others. -/
def path (before : Nat) : Outline → List Nat
  | here _ => []
  | within contents opened inner =>
    (before + contents.operators.length) :: (opened.sort.steps ++ inner.path 0)

/-- The number of operands of the innermost open group, where some operands stand before all
others. -/
def room (before : Nat) : Outline → Nat
  | here contents => before + contents.operators.length
  | within _ _ inner => inner.room 0

/-- Adding a condition leaves the path as it is. -/
lemma path_add (before : Nat) (condition : Operator) (outline : Outline) :
    (outline.add condition).path before = outline.path before := by
  induction outline generalizing before with
  | here contents => rfl
  | within contents opened inner ih => rw [add, path, ih, path]

/-- Opening a group makes the path lead to the new group. -/
lemma path_enter (before : Nat) (group : OpenedGroup) (outline : Outline) :
    (outline.enter group).path before =
      outline.path before ++ outline.room before :: group.sort.steps := by
  induction outline generalizing before with
  | here contents => simp [enter, path, room]
  | within contents opened inner ih => simp [enter, path, room, ih]

/-- The group that holds what calls have made. -/
def fill (base : Operator) (outline : Outline) : Operator :=
  base.withOperands (outline.closed.operators.map .operator)

variable {base : Operator} {before : Nat}

/-- Within a group, what calls have made is what they have made in the innermost one. -/
lemma fill_within (base : Operator) (contents : Contents) (opened : OpenedGroup) (inner : Outline) :
    fill base (within contents opened inner) =
      base.withOperands ((contents.operators ++
        [opened.sort.wrap (fill (.group opened.sort.connective []) inner)]).map .operator) := by
  simp [fill, closed, Contents.operators, GroupSort.condition, Operator.group,
    Operator.withOperands]

/-- The path leads to a connective, with as many operands as there is room for. -/
lemma at?_path (hbase : base.isConnective = true) (hbefore : base.operands.length = before)
    (outline : Outline) :
    ∃ group, (fill base outline).at? (outline.path before) = some group ∧
      group.isConnective = true ∧ group.operands.length = outline.room before := by
  induction outline generalizing base before with
  | here contents =>
    refine ⟨fill base (here contents), rfl, hbase, ?_⟩
    simp [fill, closed, room, Operator.withOperands, hbefore]
  | within contents opened inner ih =>
    rw [fill_within, path, ← hbefore, Operator.at?_last, GroupSort.at?_steps]
    exact ih (Operator.isConnective_group _ _) (Operator.length_group_nil _)

/-- A condition that is put behind the operands the path leads to is added to the innermost open
group. -/
lemma modifyAt_path (hbase : base.isConnective = true) (hbefore : base.operands.length = before)
    (condition : Operator) (outline : Outline) :
    (fill base outline).modifyAt (·.extend condition) (outline.path before) =
      fill base (outline.add condition) := by
  induction outline generalizing base before with
  | here contents =>
    have hfill : (fill base (here contents)).isConnective = true := hbase
    rw [path, Operator.modifyAt, Operator.extend_eq, Operator.asGroup_of_isConnective hfill]
    simp [fill, add, closed, Contents.operators]
  | within contents opened inner ih =>
    rw [fill_within, path, ← hbefore, Operator.modifyAt_last, GroupSort.modifyAt_steps,
      ih (Operator.isConnective_group _ _) (Operator.length_group_nil _), add, fill_within]

/-- Closing the innermost open group takes the path to the group around it. -/
lemma outerPath_path (hbase : base.isConnective = true) (hbefore : base.operands.length = before)
    (outline : Outline) :
    (fill base outline).outerPath (outline.path before) = outline.close.path before := by
  induction outline using close.induct generalizing base before with
  | case1 contents => exact Operator.outerPath_nil _
  | case2 contents opened inside =>
    have hfill : (fill base (within contents opened (here inside))).isConnective = true := hbase
    rw [close, path, path, path, List.append_nil]
    rcases hsort : opened.sort with connective | _
    · have hroot := Operator.kind_ne_not hfill
      simp [Operator.outerPath, GroupSort.steps, Operator.at?]
    · have hlast : (fill base (within contents opened (here inside))).at?
          [before + contents.operators.length] =
            some (opened.sort.wrap (fill (.group opened.sort.connective []) (here inside))) := by
        rw [fill_within, ← hbefore, Operator.at?_last, Operator.at?]
      simp [Operator.outerPath, GroupSort.steps, hlast, hsort, GroupSort.wrap]
  | case3 contents opened inner hinner ih =>
    have hgroup := Operator.isConnective_group opened.sort.connective []
    rw [close, path, path, ← List.cons_append, ← List.cons_append,
      ← ih hgroup (Operator.length_group_nil _)]
    · refine Operator.outerPath_append (fun path => ?_) hgroup ?_
      · rw [fill_within, List.cons_append, ← hbefore, Operator.at?_last, GroupSort.at?_steps]
      · cases inner with
        | here inside => exact absurd rfl (hinner inside)
        | within _ _ _ => exact List.cons_ne_nil _ _
    · exact hinner

/-! ## Conditions that were there before -/

variable (root : Operator) (outline : Outline)

/-- A condition with what calls have made behind it is the one that was there as long as nothing was
made. No group is open then. -/
lemma followedBy_cases :
    (outline = here .nil ∧ root.followedBy outline.closed.operators = root) ∨
      (outline.closed.operators ≠ [] ∧
        root.followedBy outline.closed.operators = fill root.asGroup outline) := by
  by_cases h : outline.closed.operators = []
  · rw [eq_here_of_operators_eq_nil h]
    exact .inl ⟨rfl, rfl⟩
  · exact .inr ⟨h, root.followedBy_of_ne_nil h⟩

/-- The path leads to the innermost open group, and a condition that extends it is put in at the
next free place. -/
lemma exists_at?_path (condition : Operator) :
    ∃ group, (root.followedBy outline.closed.operators).at?
        (outline.path root.asGroup.operands.length) = some group ∧
      (group.extend condition).operands.length - 1 = outline.room root.asGroup.operands.length := by
  rcases outline.followedBy_cases root with ⟨rfl, hroot⟩ | ⟨-, hroot⟩
  · refine ⟨root, by rw [hroot]; rfl, ?_⟩
    rw [Operator.extend_eq]
    simp [Operator.withOperands, room, Contents.operators]
  · obtain ⟨group, hat, hgroup, hlength⟩ := at?_path root.isConnective_asGroup rfl outline
    refine ⟨group, by rw [hroot]; exact hat, ?_⟩
    rw [Operator.extend_eq, Operator.asGroup_of_isConnective hgroup, ← hlength]
    simp [Operator.withOperands]

/-- Extending at the path adds the condition to the outline. -/
lemma modifyAt_path_root (condition : Operator) :
    (root.followedBy outline.closed.operators).modifyAt (·.extend condition)
        (outline.path root.asGroup.operands.length) =
      root.followedBy (outline.add condition).closed.operators := by
  rw [root.followedBy_of_ne_nil (outline.operators_add_ne_nil condition)]
  rcases outline.followedBy_cases root with ⟨rfl, hroot⟩ | ⟨-, hroot⟩
  · rw [hroot, path, Operator.modifyAt, Operator.extend_eq]
    rfl
  · rw [hroot]
    exact modifyAt_path root.isConnective_asGroup rfl condition outline

/-- The path out of the innermost group is that of the outline with the group closed. -/
lemma outerPath_path_root :
    (root.followedBy outline.closed.operators).outerPath
        (outline.path root.asGroup.operands.length) =
      outline.close.path root.asGroup.operands.length := by
  rcases outline.followedBy_cases root with ⟨rfl, -⟩ | ⟨-, hroot⟩
  · exact Operator.outerPath_nil _
  · rw [hroot]
    exact outerPath_path root.isConnective_asGroup rfl outline

end Outline

end RecordQuery
