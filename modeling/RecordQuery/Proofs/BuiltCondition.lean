import RecordQuery.Proofs.ClauseStore
import RecordQuery.Proofs.FullConditions

/-!
# What a builder builds

A builder changes the condition of its query and nothing else. `Builder.Follows` relates it to an
outline of the calls made so far: the path is that of the outline, and the condition is the one that
was there before with what the outline holds behind it. A condition that is no group stays as it is
until something is put behind it, and a query without a condition gets an empty group by the first
call of any sort.

Each call keeps a builder with its outline (`Follows.call`), and so does a run of calls. What is
built is known then: the contents of the outline, without the groups that hold no condition, stand
behind the condition that was there (`Builder.build_run`).
-/

namespace RecordQuery

namespace Operator

/-- A shape that is no empty group is that of a proper group, or of none. -/
lemma Shaped.isProper {op : Operator} (h : Shaped .ofJson op) (hempty : op.isEmptyGroup = false) :
    op.IsProper := by
  intro hfamily
  refine ⟨fun hnil => ?_, ?_⟩
  · rw [(isEmptyGroup_iff op).mpr ⟨hfamily, hnil⟩] at hempty
    cases hempty
  cases h with
  | negation => simp
  | group => simp
  | comparison family => simp_all
  | membership family => simp_all
  | existence family => simp_all
  | function family => simp_all
  | naming => cases hfamily
  | listing lists => rcases lists with rfl | rfl | rfl <;> cases hfamily
  | filter filters => rcases filters with rfl | rfl <;> cases hfamily
  | ordering => cases hfamily
  | limit => cases hfamily
  | timeRange => cases hfamily

/-- A `WHERE` holds one condition. -/
lemma Shaped.operands_of_whereClause {clause : Operator} (h : Shaped .ofJson clause)
    (hkind : clause.kind = .whereClause) :
    ∃ condition, clause.operands = [.operator condition] := by
  cases h with
  | filter => exact ⟨_, rfl⟩
  | comparison family => simp_all [Kind.family]
  | membership family => simp_all [Kind.family]
  | existence family => simp_all [Kind.family]
  | function family => simp_all [Kind.family]
  | negation => cases hkind
  | @group connective => cases connective <;> cases hkind
  | naming => cases hkind
  | listing lists => rcases lists with rfl | rfl | rfl <;> cases hkind
  | ordering => cases hkind
  | limit => cases hkind
  | timeRange => cases hkind

end Operator

namespace Query

/-! ## The condition of a query -/

/-- Whether a query has the given condition and nothing else in its `WHERE`, or no `WHERE` where no
condition is given. -/
def HasCondition (q : Query) (condition? : Option Operator) : Prop :=
  (q.clause? .whereClause).map Operator.operands =
    condition?.map fun condition => [.operator condition]

/-- The clauses other than the condition. -/
def others (q : Query) : List Operator := q.clauses.filter fun clause => clause.kind != .whereClause

/-- A query with a known condition has no `WHERE`, or one with this condition. -/
lemma HasCondition.cases {q : Query} {condition? : Option Operator}
    (h : q.HasCondition condition?) : (condition? = none ∧ q.clause? .whereClause = none) ∨
      ∃ condition clause, condition? = some condition ∧ q.clause? .whereClause = some clause ∧
        clause.operands = [.operator condition] := by
  unfold HasCondition at h
  rcases hclause : q.clause? .whereClause with _ | clause <;>
    rcases condition? with _ | condition <;>
    rw [hclause] at h
  · exact .inl ⟨rfl, rfl⟩
  · cases h
  · cases h
  · exact .inr ⟨condition, clause, rfl, rfl, Option.some.inj h⟩

namespace HasCondition

variable {q : Query} {condition? : Option Operator}

/-- The condition of a query is the one it has. -/
lemma condition?_eq (h : q.HasCondition condition?) : q.condition? = condition? := by
  unfold Query.condition?
  rcases h.cases with ⟨rfl, hclause⟩ | ⟨condition, clause, rfl, hclause, hoperands⟩
  · rw [hclause, Option.bind_none]
  · rw [hclause, Option.bind_some, hoperands]
    rfl

/-- The root condition is the one there is, or else an empty group. -/
lemma rootCondition_eq (h : q.HasCondition condition?) :
    q.rootCondition = condition?.getD (.group .and []) := by
  unfold rootCondition
  rcases h.cases with ⟨rfl, hclause⟩ | ⟨condition, clause, rfl, hclause, hoperands⟩
  · rw [hclause]
    rfl
  · rw [hclause]
    simp [hoperands, conditionOf]

/-- A query has no `WHERE` exactly if it has no condition. -/
lemma clause?_eq_none_iff (h : q.HasCondition condition?) :
    q.clause? .whereClause = none ↔ condition? = none := by
  rw [← Option.map_eq_none_iff, h, Option.map_eq_none_iff]

end HasCondition

/-- The empty query has no condition. -/
lemma hasCondition_empty : empty.HasCondition none := rfl

/-- A query with nothing but a name has no condition. -/
lemma hasCondition_named (name : String) : (named name).HasCondition none := rfl

/-- A query that was read has one condition in its `WHERE`. -/
lemma IsRead.hasCondition {q : Query} (h : q.IsRead) : q.HasCondition q.condition? := by
  unfold HasCondition condition?
  rcases hclause : q.clause? .whereClause with _ | clause
  · rfl
  · have hkind : clause.kind = .whereClause := by simpa using List.find?_some hclause
    have hshaped := (h.wellFormed.clauses clause (List.mem_of_find?_eq_some hclause)).root
    obtain ⟨condition, hoperands⟩ := hshaped.operands_of_whereClause hkind
    rw [Option.map_some, Option.bind_some, hoperands]
    rfl

/-! ### Changing the condition -/

/-- The `WHERE` that is found after a change is the changed one. -/
lemma find?_modifyFirst (f : Operator → Operator) (clauses : List Operator) :
    (modifyFirst f clauses).find? (fun clause => clause.kind == .whereClause) =
      (clauses.find? fun clause => clause.kind == .whereClause).map fun clause =>
        { clause with
          operands := .operator (f (conditionOf clause.operands)) :: clause.operands.tail } := by
  induction clauses with
  | nil => rfl
  | cons clause rest ih =>
    rw [modifyFirst]
    by_cases hkind : clause.kind = .whereClause
    · rw [if_pos hkind, List.find?_cons_of_pos (by simpa using hkind),
        List.find?_cons_of_pos (by simpa using hkind), Option.map_some]
    · rw [if_neg hkind, List.find?_cons_of_neg (by simpa using hkind),
        List.find?_cons_of_neg (by simpa using hkind), ih]

/-- A clause that was put in where none was is found. -/
lemma find?_insertClause {clauses : List Operator} {clause : Operator} (kind : Kind)
    (hkind : clause.kind = kind) (h : clauses.find? (fun other => other.kind == kind) = none) :
    (insertClause clause clauses).find? (fun other => other.kind == kind) = some clause := by
  obtain ⟨before, after, hinsert, hrest⟩ := exists_insertClause_eq clause clauses
  rw [← hrest, List.find?_append, Option.or_eq_none_iff] at h
  rw [hinsert, List.find?_append, h.1, Option.none_or, List.find?_cons_of_pos (by simp [hkind])]

/-- A query has the condition that was made of its old one. -/
lemma HasCondition.modifyCondition {q : Query} {condition? : Option Operator}
    (h : q.HasCondition condition?) (f : Operator → Operator) :
    (q.modifyCondition f).HasCondition (some (f q.rootCondition)) := by
  unfold HasCondition
  rw [h.rootCondition_eq, clause?, Query.modifyCondition, withClauses, find?_modifyFirst]
  rcases h.cases with ⟨rfl, hclause⟩ | ⟨condition, clause, rfl, hclause, hoperands⟩
  · rw [hclause, if_neg (by simp), find?_insertClause .whereClause rfl hclause]
    rfl
  · rw [hclause, if_pos (by simp), ← clause?, hclause]
    simp [hoperands, conditionOf]

/-- Changing the condition changes no other clause. -/
lemma others_modifyCondition (q : Query) (f : Operator → Operator) :
    (q.modifyCondition f).others = q.others := by
  have hmodify : ∀ clauses : List Operator,
      (modifyFirst f clauses).filter (fun clause => clause.kind != .whereClause) =
        clauses.filter fun clause => clause.kind != .whereClause := by
    intro clauses
    induction clauses with
    | nil => rfl
    | cons clause rest ih =>
      rw [modifyFirst]
      by_cases hkind : clause.kind = .whereClause
      · rw [if_pos hkind, List.filter_cons_of_neg (by simpa using hkind),
          List.filter_cons_of_neg (by simpa using hkind)]
      · rw [if_neg hkind, List.filter_cons_of_pos (by simpa using hkind),
          List.filter_cons_of_pos (by simpa using hkind), ih]
  rw [others, modifyCondition, withClauses, hmodify, others]
  split
  · rfl
  · obtain ⟨before, after, hinsert, hrest⟩ :=
      exists_insertClause_eq { kind := .whereClause } q.clauses
    rw [hinsert, ← hrest, List.filter_append, List.filter_append, List.filter_cons_of_neg (by simp)]

/-! ### Pruning -/

/-- The `WHERE` that is found after pruning is the pruned one. -/
lemma find?_pruneFirst (clauses : List Operator) :
    (pruneFirst clauses).find? (fun clause => clause.kind == .whereClause) =
      (clauses.find? fun clause => clause.kind == .whereClause).map Operator.prune := by
  induction clauses with
  | nil => rfl
  | cons clause rest ih =>
    rw [pruneFirst]
    by_cases hkind : clause.kind = .whereClause
    · have hprune : clause.prune.kind = .whereClause := by
        rw [Operator.kind_prune, hkind]
      rw [if_pos hkind, List.find?_cons_of_pos (by simpa using hprune),
        List.find?_cons_of_pos (by simpa using hkind), Option.map_some]
    · rw [if_neg hkind, List.find?_cons_of_neg (by simpa using hkind),
        List.find?_cons_of_neg (by simpa using hkind), ih]

/-- Where no kind comes twice, leaving clauses out leaves out the one of a kind or none of that
kind. -/
lemma find?_filter_of_nodup {clauses : List Operator} (h : (clauses.map Operator.kind).Nodup)
    (keeps : Operator → Bool) (kind : Kind) :
    (clauses.filter keeps).find? (fun clause => clause.kind == kind) =
      (clauses.find? fun clause => clause.kind == kind).filter keeps := by
  induction clauses with
  | nil => rfl
  | cons clause rest ih =>
    obtain ⟨hnot, hrest⟩ := List.nodup_cons.mp h
    by_cases hkind : clause.kind = kind
    · have hnone : (rest.filter keeps).find? (fun clause => clause.kind == kind) = none := by
        refine List.find?_eq_none.mpr fun other hother => ?_
        have hmem := List.mem_map_of_mem (f := Operator.kind) (List.mem_filter.mp hother).1
        rw [beq_iff_eq, ← hkind]
        exact fun heq => hnot (heq ▸ hmem)
      rw [List.find?_cons_of_pos (by simpa using hkind), Option.filter_some, List.filter_cons]
      split
      · rw [List.find?_cons_of_pos (by simpa using hkind)]
      · exact hnone
    · rw [List.find?_cons_of_neg (by simpa using hkind), ← ih hrest, List.filter_cons]
      split
      · rw [List.find?_cons_of_neg (by simpa using hkind)]
      · rfl

/-- What remains of the condition is that of the query, if it is no empty group. -/
lemma HasCondition.prune {q : Query} {condition? : Option Operator} (h : q.HasCondition condition?)
    (hkinds : (q.clauses.map Operator.kind).Nodup) :
    q.prune.HasCondition
      ((condition?.map Operator.prune).filter fun condition => !condition.isEmptyGroup) := by
  have hnodup : ((pruneFirst q.clauses).map Operator.kind).Nodup := by
    rw [map_kind_pruneFirst]
    exact hkinds
  unfold HasCondition
  rw [clause?, Query.prune, withClauses, find?_filter_of_nodup hnodup, find?_pruneFirst, ← clause?]
  rcases h.cases with ⟨rfl, hclause⟩ | ⟨condition, clause, rfl, hclause, hoperands⟩
  · rw [hclause]
    rfl
  · have hkind : clause.kind = .whereClause := by simpa using List.find?_some hclause
    have hpruned : Operator.pruneOperands clause.operands =
        if condition.prune.isEmptyGroup then [] else [.operator condition.prune] := by
      rw [hoperands]
      rfl
    rw [hclause, Option.map_some, Option.map_some, Option.filter_some, Option.filter_some]
    by_cases hempty : condition.prune.isEmptyGroup = true <;> simp [hkind, hpruned, hempty]

/-- Pruning changes no other clause. -/
lemma others_prune (q : Query) : q.prune.others = q.others := by
  have hprune : ∀ clauses : List Operator,
      (pruneFirst clauses).filter (fun clause => clause.kind != .whereClause) =
        clauses.filter fun clause => clause.kind != .whereClause := by
    intro clauses
    induction clauses with
    | nil => rfl
    | cons clause rest ih =>
      rw [pruneFirst]
      by_cases hkind : clause.kind = .whereClause
      · have hpruned : clause.prune.kind = .whereClause := by
          rw [Operator.kind_prune, hkind]
        rw [if_pos hkind, List.filter_cons_of_neg (by simpa using hpruned),
          List.filter_cons_of_neg (by simpa using hkind)]
      · rw [if_neg hkind, List.filter_cons_of_pos (by simpa using hkind),
          List.filter_cons_of_pos (by simpa using hkind), ih]
  rw [others, prune, withClauses, List.filter_filter, others, ← hprune]
  refine List.filter_congr fun clause _ => ?_
  rw [Bool.and_or_distrib_left, Bool.and_self]
  cases clause.kind != .whereClause <;> rfl

/-- A condition of a query that was read, if it holds no empty group, is made of proper groups. -/
lemma IsRead.everywhere_isProper {q : Query} (h : q.IsRead) {condition : Operator}
    (hcondition : q.condition? = some condition) (hfull : condition.IsFull) :
    condition.Everywhere Operator.IsProper := by
  rcases h.hasCondition.cases with ⟨hnone, -⟩ | ⟨condition', clause, hsome, hclause, hoperands⟩
  · rw [hnone] at hcondition
    cases hcondition
  · rw [hsome] at hcondition
    cases hcondition
    have hshaped := h.wellFormed.clauses clause (List.mem_of_find?_eq_some hclause)
    have hbelow := (Operator.everywhere_iff.mp hshaped).2 condition (by simp [hoperands])
    exact (hbelow.and hfull).imp (fun _ hop => hop.1.isProper hop.2)

end Query

namespace Builder

/-! ## Calls and outlines -/

/-- Calls of one effect work alike. -/
lemma call_eq (b : Builder) (call : Call) :
    b.call call =
      match call.effect with
      | .adds condition => b.add condition
      | .opens sort => b.enter (sort.condition []) sort.steps
      | .closes => b.close := by
  cases call <;> rfl

/-- Whether a builder that was started with a query has got to where an outline of the calls is. -/
structure Follows (start : Query) (outline : Outline) (b : Builder) : Prop where
  path : b.path = outline.path start.rootCondition.asGroup.operands.length
  condition : b.query.HasCondition
      (some (start.rootCondition.followedBy outline.closed.operators)) ∨
    (outline.closed.operators = [] ∧ b.query.HasCondition start.condition?)
  others : b.query.others = start.others
  areKept : Kind.AreKept (b.query.clauses.map Operator.kind)
  name : b.query.name = start.name
  aliases : b.query.aliases = start.aliases
  warnings : b.query.warnings = start.warnings

namespace Follows

variable {start : Query} {outline : Outline} {b : Builder}

/-- The query of a builder has a condition, or none. -/
lemma exists_hasCondition (h : Follows start outline b) :
    ∃ condition?, b.query.HasCondition condition? := by
  rcases h.condition with h | ⟨-, h⟩ <;> exact ⟨_, h⟩

/-- The condition that calls start from is the one that was there with what the outline holds behind
it. -/
lemma rootCondition_eq (h : Follows start outline b)
    (hstart : start.HasCondition start.condition?) :
    b.query.rootCondition = start.rootCondition.followedBy outline.closed.operators := by
  rcases h.condition with h | ⟨hnil, h⟩
  · rw [h.rootCondition_eq, Option.getD_some]
  · rw [h.rootCondition_eq, hnil, hstart.rootCondition_eq]
    rfl

/-- A change of the condition leads to another outline if the condition is that of it. -/
lemma modifyCondition {f : Operator → Operator} {next : Outline} {path : List Nat}
    (h : Follows start outline b)
    (hcondition : f b.query.rootCondition = start.rootCondition.followedBy next.closed.operators)
    (hpath : path = next.path start.rootCondition.asGroup.operands.length) :
    Follows start next { query := b.query.modifyCondition f, path } where
  path := hpath
  condition := by
    obtain ⟨condition?, hcurrent⟩ := h.exists_hasCondition
    rw [← hcondition]
    exact .inl (hcurrent.modifyCondition f)
  others := (b.query.others_modifyCondition f).trans h.others
  areKept := Query.areKept_modifyCondition f h.areKept
  name := h.name
  aliases := h.aliases
  warnings := h.warnings

/-- A condition that is attached is added to the innermost open group, and the place it is said to
have is the one there is room at. -/
lemma attach (h : Follows start outline b) (hstart : start.HasCondition start.condition?)
    (condition : Operator) :
    (b.attach condition).1 = some (outline.room start.rootCondition.asGroup.operands.length) ∧
      Follows start (outline.add condition) (b.attach condition).2 := by
  have hroot := h.rootCondition_eq hstart
  constructor
  · obtain ⟨group, hat, hroom⟩ := outline.exists_at?_path start.rootCondition condition
    rw [Builder.attach, focus?, hroot, h.path, hat, Option.map_some, hroom]
  · refine h.modifyCondition ?_ (h.path.trans (outline.path_add _ _).symm)
    rw [hroot, h.path, outline.modifyAt_path_root]

/-- Opening a group keeps a builder with its outline. -/
lemma enter (h : Follows start outline b) (hstart : start.HasCondition start.condition?)
    (group : OpenedGroup) :
    Follows start (outline.enter group)
      (b.enter (group.sort.condition []) group.sort.steps) := by
  obtain ⟨hplace, hattach⟩ := h.attach hstart (group.sort.condition [])
  have henter : b.enter (group.sort.condition []) group.sort.steps =
      { (b.attach (group.sort.condition [])).2 with
        path := (b.attach (group.sort.condition [])).2.path ++
          outline.room start.rootCondition.asGroup.operands.length :: group.sort.steps } := by
    rw [Builder.enter]
    split
    · rename_i place next hnext
      rw [hnext] at hplace
      cases hplace
      rw [hnext]
    · rename_i next hnext
      rw [hnext] at hplace
      cases hplace
  rw [henter]
  exact {
    path := by rw [hattach.path, outline.path_add, outline.path_enter]
    condition := by
      rw [outline.operators_enter]
      exact hattach.condition
    others := hattach.others
    areKept := hattach.areKept
    name := hattach.name
    aliases := hattach.aliases
    warnings := hattach.warnings }

/-- Closing a group keeps a builder with its outline. -/
lemma close (h : Follows start outline b) (hstart : start.HasCondition start.condition?) :
    Follows start outline.close b.close := by
  have hroot := h.rootCondition_eq hstart
  have hmodified : (b.query.modifyCondition fun root => root).rootCondition =
      start.rootCondition.followedBy outline.closed.operators := by
    obtain ⟨condition?, hcurrent⟩ := h.exists_hasCondition
    rw [(hcurrent.modifyCondition fun root => root).rootCondition_eq, Option.getD_some, hroot]
  have hclose : b.close =
      { query := b.query.modifyCondition fun root => root
        path := (start.rootCondition.followedBy outline.closed.operators).outerPath b.path } := by
    unfold Builder.close focus? Operator.outerPath
    dsimp only
    rw [hmodified]
    split <;> rfl
  rw [hclose]
  refine h.modifyCondition ?_ ?_
  · rw [hroot, outline.closed_close]
  · rw [h.path, outline.outerPath_path_root]

/-- Any run of calls keeps a builder with its outline. -/
lemma run (h : Follows start outline b) (hstart : start.HasCondition start.condition?)
    (number : Nat)
    (calls : List Call) : Follows start (outline.run number calls) (b.run calls) := by
  induction calls generalizing outline b number with
  | nil => exact h
  | cons call rest ih =>
    have hcall := b.call_eq call
    rw [Builder.run, List.foldl_cons, ← Builder.run]
    rcases heffect : call.effect with condition | sort | _ <;>
      simp only [heffect] at hcall <;> simp only [Outline.run, heffect, hcall]
    · exact ih (h.attach hstart condition).2 number
    · exact ih (h.enter hstart ⟨number, sort⟩) (number + 1)
    · exact ih (h.close hstart) number

/-- A builder starts with nothing behind the condition of the query. -/
lemma ofQuery (hkinds : Kind.AreKept (start.clauses.map Operator.kind))
    (hstart : start.HasCondition start.condition?) :
    Follows start (.here .nil) (Builder.ofQuery start) where
  path := rfl
  condition := .inr ⟨rfl, hstart⟩
  others := rfl
  areKept := hkinds
  name := rfl
  aliases := rfl
  warnings := rfl

end Follows

/-! ## Added conditions -/

namespace Call

/-- A condition that a call adds is a leaf. -/
lemma eq_leaf_of_condition? {call : Call} {condition : Operator}
    (h : call.condition? = some condition) :
    condition.kind.family ≠ .logical ∧ ∀ child, .operator child ∉ condition.operands := by
  cases call <;> cases h <;> simp [leaf, Kind.family]

/-- A condition that is added holds no empty group. -/
lemma everywhere_isProper {call : Call} {condition : Operator}
    (h : call.condition? = some condition) : condition.Everywhere Operator.IsProper := by
  obtain ⟨hfamily, hchild⟩ := eq_leaf_of_condition? h
  refine Operator.everywhere_iff.mpr ⟨fun hlogical => absurd hlogical hfamily, fun child hmem => ?_⟩
  exact absurd hmem (hchild child)

/-- What is added is the condition of one of the calls. -/
lemma exists_of_mem_additions {number : Nat} {opened : List OpenedGroup} {calls : List Call}
    {addition : List OpenedGroup × Operator} (h : addition ∈ additions number opened calls) :
    ∃ call ∈ calls, call.condition? = some addition.2 := by
  have hmem := List.mem_map_of_mem (f := Prod.snd) h
  rw [map_snd_additions, List.mem_filterMap] at hmem
  exact hmem

/-- The leaves of what is added are the conditions of the calls, in order. -/
lemma leaves_additions (number : Nat) (opened : List OpenedGroup) (calls : List Call) :
    ((additions number opened calls).flatMap fun addition => addition.2.leaves) =
      calls.filterMap condition? := by
  rw [← map_snd_additions number opened, List.map_eq_flatMap]
  refine List.flatMap_congr fun addition hmem => ?_
  obtain ⟨call, -, hcall⟩ := exists_of_mem_additions hmem
  exact Operator.leaves_of_not_logical (eq_leaf_of_condition? hcall).1

end Call

end Builder

/-- The condition of a query that had one or none, with contents behind it. -/
def Contents.behind (contents : Contents) : Option Operator → Option Operator
  | some root => some (root.asGroup.withOperands (contents.operators.map .operator))
  | none => if contents.operators.isEmpty then none else some (.group .and contents.operators)

namespace Contents

variable (contents : Contents)

/-- Conditions that are put behind another one have their leaves behind those of the other. -/
lemma leaves_behind (condition? : Option Operator) :
    (contents.behind condition?).toList.flatMap Operator.leaves =
      condition?.toList.flatMap Operator.leaves ++
        (contents.additions []).flatMap fun addition => addition.2.leaves := by
  rw [← contents.leavesIn_operators []]
  rcases condition? with _ | root
  · rw [behind]
    split
    · rename_i hempty
      rw [List.isEmpty_iff.mp hempty]
      rfl
    · have hlogical := Operator.family_of_isConnective
        (Operator.isConnective_group .and contents.operators)
      rw [Option.toList_some, List.flatMap_singleton, Operator.leaves_of_logical hlogical]
      rfl
  · have hlogical := Operator.family_of_isConnective root.isConnective_asGroup
    simp [behind, Operator.leaves_withOperands hlogical, Operator.leaves_asGroup]

/-- There is no condition only if there was none and none was put behind it. -/
lemma behind_eq_none_iff (condition? : Option Operator) :
    contents.behind condition? = none ↔ condition? = none ∧ contents.operators = [] := by
  rcases condition? with _ | root
  · simp [behind]
  · simp [behind]

/-- Filled contents behind a condition that is made of proper groups make such a condition. -/
lemma everywhere_behind {contents : Contents} (hfilled : contents.IsFilled)
    (hadditions : ∀ addition ∈ contents.additions [], addition.2.Everywhere Operator.IsProper)
    {condition? : Option Operator}
    (hproper : ∀ root, condition? = some root → root.Everywhere Operator.IsProper) {root : Operator}
    (hroot : contents.behind condition? = some root) : root.Everywhere Operator.IsProper := by
  have hoperators := hfilled.everywhere_isProper [] hadditions
  rcases condition? with _ | start
  · rw [behind] at hroot
    split at hroot
    · cases hroot
    · rename_i hne
      cases hroot
      rw [Operator.group_eq_withOperands]
      exact Operator.everywhere_withOperands (.inr ⟨rfl, by simpa using hne⟩) hoperators
  · cases hroot
    exact Operator.everywhere_withOperands (.inl (Operator.everywhere_asGroup (hproper start rfl)))
      hoperators

end Contents

namespace Query

/-- What calls build on a query. -/
def built (q : Query) (calls : List Builder.Call) : Query := ((Builder.ofQuery q).run calls).build

section

variable {q : Query} (hproper : ∀ root, q.condition? = some root →
  root.Everywhere Operator.IsProper)

include hproper

/-- Pruning leaves a condition without empty groups as it is. -/
lemma prune_condition? :
    (q.condition?.map Operator.prune).filter (fun condition => !condition.isEmptyGroup) =
      q.condition? := by
  rcases hroot : q.condition? with _ | root
  · rfl
  · have hfull := Operator.isFull_of_isProper (hproper root hroot)
    have hempty : root.isEmptyGroup = false := hfull.root
    rw [Option.map_some, Operator.prune_eq_self root hfull, Option.filter_some, hempty]
    rfl

/-- Pruning takes away the empty group that a query without a condition gets. -/
lemma prune_rootCondition (hcondition : q.HasCondition q.condition?) :
    (some q.rootCondition.prune).filter (fun condition => !condition.isEmptyGroup) =
      q.condition? := by
  have hprune := prune_condition? hproper
  rw [hcondition.rootCondition_eq]
  rcases hroot : q.condition? with _ | root <;> rw [hroot] at hprune
  · rfl
  · exact hprune

/-- Pruning leaves of what stands behind a condition what remains without the groups that hold no
condition. -/
lemma prune_followedBy (hcondition : q.HasCondition q.condition?) {contents : Contents}
    (hne : contents.operators ≠ [])
    (hadditions : ∀ addition ∈ contents.additions [], addition.2.IsFull) :
    (some (q.rootCondition.followedBy contents.operators).prune).filter
        (fun condition => !condition.isEmptyGroup) =
      contents.trim.behind q.condition? := by
  rw [Operator.followedBy_of_ne_nil _ hne, hcondition.rootCondition_eq]
  rcases hroot : q.condition? with _ | root
  · have hgroup : (Operator.group .and []).asGroup = .group .and [] := rfl
    have hnone : Operator.EverywhereIn (fun op => op.isEmptyGroup = false)
        (Operator.group .and []).operands := trivial
    rw [Option.getD_none, hgroup, Operator.prune_withOperands hnone,
      contents.pruneOperands_eq [] hadditions, ← Operator.group_eq_withOperands, Contents.behind,
      Option.filter_some]
    cases contents.trim.operators <;> rfl
  · have hasGroup := Operator.everywhere_asGroup (hproper root hroot)
    have hpruned : (root.asGroup.withOperands
        (contents.trim.operators.map .operator)).isEmptyGroup = false := by
      rw [Bool.eq_false_iff]
      intro hempty
      have hnil := ((Operator.isEmptyGroup_iff _).mp hempty).2
      have hlogical := Operator.family_of_isConnective root.isConnective_asGroup
      exact (hasGroup.root hlogical).1 (List.append_eq_nil_iff.mp hnil).1
    rw [Option.getD_some,
      Operator.prune_withOperands (Operator.isFull_of_isProper hasGroup).operands,
      contents.pruneOperands_eq [] hadditions, Option.filter_some, hpruned]
    rfl

end

/-- The condition that calls build on a query is known from the contents they have made. -/
lemma hasCondition_built {q : Query} (hcondition : q.HasCondition q.condition?)
    (hkept : Kind.AreKept (q.clauses.map Operator.kind))
    (hproper : ∀ root, q.condition? = some root → root.Everywhere Operator.IsProper)
    (calls : List Builder.Call) :
    ∃ contents : Contents, contents.additions [] = Builder.Call.additions 0 [] calls ∧
      contents.numbers.Nodup ∧ contents.IsFilled ∧
      ((∀ call ∈ calls, call = .close) → (q.built calls).HasCondition q.condition?) ∧
      (¬ (∀ call ∈ calls, call = .close) →
        (q.built calls).HasCondition (contents.behind q.condition?)) := by
  have hfollows := (Builder.Follows.ofQuery hkept hcondition).run hcondition 0 calls
  have hclosing := Outline.operators_run_eq_nil_iff (.here .nil) 0 calls
  have hadditions : (Outline.run 0 (.here .nil) calls).closed.additions [] =
      Builder.Call.additions 0 [] calls := Outline.additions_run _ 0 calls
  have hnumbers := Outline.nodup_numbers_run (.here .nil) 0 calls rfl
  generalize Outline.run 0 (.here .nil) calls = outline at *
  have hnodup := hfollows.areKept.nodup
  refine ⟨outline.closed.trim, ?_, hnumbers.sublist outline.closed.numbers_trim_sublist,
    outline.closed.isFilled_trim, fun hall => ?_, fun hall => ?_⟩
  · rw [Contents.additions_trim, hadditions]
  · have hnil := hclosing.mpr ⟨rfl, hall⟩
    rcases hfollows.condition with hcurrent | ⟨-, hcurrent⟩
    · rw [hnil, Operator.followedBy] at hcurrent
      have hpruned := hcurrent.prune hnodup
      rw [Option.map_some, prune_rootCondition hproper hcondition] at hpruned
      exact hpruned
    · have hpruned := hcurrent.prune hnodup
      rw [prune_condition? hproper] at hpruned
      exact hpruned
  · have hne : outline.closed.operators ≠ [] := fun hnil => hall (hclosing.mp hnil).2
    rcases hfollows.condition with hcurrent | ⟨hnil, -⟩
    · have hpruned := hcurrent.prune hnodup
      rw [Option.map_some, prune_followedBy hproper hcondition hne] at hpruned
      · exact hpruned
      · intro addition hmem
        rw [hadditions] at hmem
        obtain ⟨call, -, hcall⟩ := Builder.Call.exists_of_mem_additions hmem
        exact Operator.isFull_of_isProper (Builder.Call.everywhere_isProper hcall)
    · exact absurd hnil hne

/-- A query that is empty or was read can be built on. -/
lemma hasCondition_of_start {q : Query}
    (hq : q = .empty ∨ (∃ name, q = .named name) ∨ q.IsRead) :
    q.HasCondition q.condition? ∧ Kind.AreKept (q.clauses.map Operator.kind) ∧
      ∀ root, q.condition? = some root → root.IsFull → root.Everywhere Operator.IsProper := by
  rcases hq with rfl | ⟨name, rfl⟩ | hread
  · exact ⟨hasCondition_empty, .nil, fun root hroot => by cases hroot⟩
  · exact ⟨hasCondition_named name, .nil, fun root hroot => by cases hroot⟩
  · exact ⟨hread.hasCondition, (Reached.read hread).areKept, fun root => hread.everywhere_isProper⟩

/-- What is built on a query that is empty or was read, and whose condition holds no empty group.

There are contents that hold the added conditions in the order of the calls, each in the groups that
were open at its call, and no group without a condition. They stand behind the condition that was
there: in it if it is a group, and behind it in an `AND` group if not; where all calls have closed
groups, the condition is the one that was there. So the leaves of the condition are those that were
there with the added conditions behind them, every group and negation has leaves beneath it, and
there is a `WHERE` unless there was none and no condition was added. All else is as it was. -/
theorem built_holds_calls {q : Query}
    (hq : q = .empty ∨ (∃ name, q = .named name) ∨ q.IsRead)
    (hfull : ∀ root, q.condition? = some root → root.IsFull) (calls : List Builder.Call) :
    (∃ contents : Contents,
      contents.additions [] = Builder.Call.additions 0 [] calls ∧
      contents.numbers.Nodup ∧
      contents.IsFilled ∧
      ((∀ call ∈ calls, call = .close) → (q.built calls).condition? = q.condition?) ∧
      (¬ (∀ call ∈ calls, call = .close) →
        (q.built calls).condition? = contents.behind q.condition?)) ∧
    (q.built calls).condition?.toList.flatMap Operator.leaves =
      q.condition?.toList.flatMap Operator.leaves ++ calls.filterMap Builder.Call.condition? ∧
    (∀ root, (q.built calls).condition? = some root →
      root.IsFull ∧ root.Everywhere fun op => op.kind.family = .logical → op.leaves ≠ []) ∧
    ((q.built calls).clause? .whereClause = none ↔
      q.condition? = none ∧ calls.filterMap Builder.Call.condition? = []) ∧
    (q.built calls).others = q.others ∧
    (q.built calls).name = q.name ∧
    (q.built calls).aliases = q.aliases ∧
    (q.built calls).warnings = q.warnings := by
  obtain ⟨hcondition, hkept, hstart⟩ := hasCondition_of_start hq
  have hproper := fun root hroot => hstart root hroot (hfull root hroot)
  have hfollows := (Builder.Follows.ofQuery hkept hcondition).run hcondition 0 calls
  obtain ⟨contents, hadditions, hnumbers, hfilled, hclosing, hbuilt⟩ :=
    hasCondition_built hcondition hkept hproper calls
  have hleaves := Builder.Call.leaves_additions 0 [] calls
  rw [← hadditions] at hleaves
  refine ⟨⟨contents, hadditions, hnumbers, hfilled, fun hall => (hclosing hall).condition?_eq,
    fun hall => (hbuilt hall).condition?_eq⟩, ?_⟩
  have hrest : (q.built calls).others = q.others ∧ (q.built calls).name = q.name ∧
      (q.built calls).aliases = q.aliases ∧ (q.built calls).warnings = q.warnings :=
    ⟨(others_prune _).trans hfollows.others, hfollows.name, hfollows.aliases, hfollows.warnings⟩
  -- calls that only close leave the condition as it is, all others put contents behind it
  by_cases hall : ∀ call ∈ calls, call = .close
  · have hsame := hclosing hall
    have hnone : calls.filterMap Builder.Call.condition? = [] :=
      List.filterMap_eq_nil_iff.mpr fun call hcall => by rw [hall call hcall]; rfl
    refine ⟨?_, fun root hroot => ?_, ?_, hrest⟩
    · rw [hsame.condition?_eq, hnone, List.append_nil]
    · rw [hsame.condition?_eq] at hroot
      have hroot := hproper root hroot
      exact ⟨Operator.isFull_of_isProper hroot, Operator.everywhere_leaves_ne_nil hroot⟩
    · rw [hsame.clause?_eq_none_iff, hnone]
      exact (and_iff_left rfl).symm
  · have hbehind := hbuilt hall
    refine ⟨?_, fun root hroot => ?_, ?_, hrest⟩
    · rw [hbehind.condition?_eq, contents.leaves_behind, hleaves]
    · rw [hbehind.condition?_eq] at hroot
      have hroot := Contents.everywhere_behind hfilled (fun addition hmem => by
        rw [hadditions] at hmem
        obtain ⟨call, -, hcall⟩ := Builder.Call.exists_of_mem_additions hmem
        exact Builder.Call.everywhere_isProper hcall) hproper hroot
      exact ⟨Operator.isFull_of_isProper hroot, Operator.everywhere_leaves_ne_nil hroot⟩
    · have hnone : contents.operators = [] ↔ calls.filterMap Builder.Call.condition? = [] := by
        rw [contents.operators_eq_nil_iff, ← Builder.Call.map_snd_additions 0 [], ← hadditions,
          List.map_eq_nil_iff]
        constructor
        · rintro rfl
          rfl
        · exact fun hnil => by_contra fun hne => hfilled.additions_ne_nil hne [] hnil
      rw [hbehind.clause?_eq_none_iff, contents.behind_eq_none_iff, hnone]

/-- A condition that is no group, a negated group that stays empty, and one in another group. -/
theorem built_holds_calls_sample :
    ∃ (q : Query) (calls : List Builder.Call) (start first second : Operator),
      q.IsRead ∧ q.condition? = some start ∧ start.IsFull ∧
      calls.filterMap Builder.Call.condition? = [first, second] ∧
      (q.built calls).condition? = some (.group .and
        [start, .group .or
          [first, { kind := .not, operands := [.operator (.group .and [second])] }]]) ∧
      (q.built calls).condition?.toList.flatMap Operator.leaves = [start, first, second] ∧
      (q.built calls).others = q.others := by
  obtain ⟨start, hstart⟩ : ∃ start : Operator, start =
      { kind := .isNull, property := some (.ofId "user") } := ⟨_, rfl⟩
  obtain ⟨json, hjson⟩ : ∃ json : Json, json = .object [
      ("group_by", .array [.object [("source", .string "host")]]),
      ("where", .object [("isnull", .array [.object [("source", .string "user")]])])] := ⟨_, rfl⟩
  obtain ⟨q, hq⟩ : ∃ q : Query, q = { clauses := [
      { kind := .whereClause, operands := [.operator start] },
      { kind := .groupBy, operands := [.property (.ofId "host")] }] } := ⟨_, rfl⟩
  obtain ⟨calls, hcalls⟩ : ∃ calls : List Builder.Call, calls = [.openNegation, .close,
      .openGroup .or, .equals (.ofId "host") (.ofString "a"), .openNegation,
      .isIn (.ofId "host") [.ofString "b"], .close, .close, .close] := ⟨_, rfl⟩
  have hread : q.IsRead := by
    refine .ofJson json ?_
    subst hjson hq hstart
    rfl
  have hcondition : q.condition? = some start := by
    subst hq
    rfl
  have hfull : start.IsFull := by
    subst hstart
    exact ⟨rfl, trivial⟩
  have hadded : calls.filterMap Builder.Call.condition? =
      [Builder.leaf .equals (.ofId "host") [.ofString "a"],
        Builder.leaf .isIn (.ofId "host") [.ofString "b"]] := by
    subst hcalls
    rfl
  -- the negated group is still there, and is dropped in the end
  have hrun : ((Builder.ofQuery q).run calls).query = { clauses := [
      { kind := .whereClause, operands := [.operator (.group .and [start,
        { kind := .not, operands := [.operator (.group .and [])] },
        .group .or [Builder.leaf .equals (.ofId "host") [.ofString "a"],
          { kind := .not, operands := [.operator (.group .and
            [Builder.leaf .isIn (.ofId "host") [.ofString "b"]])] }]])] },
      { kind := .groupBy, operands := [.property (.ofId "host")] }] } := by
    subst hq hcalls hstart
    rfl
  obtain ⟨-, hleaves, -, -, hothers, -⟩ := built_holds_calls (.inr (.inr hread))
    (fun root hroot => by
      rw [hcondition] at hroot
      cases hroot
      exact hfull) calls
  rw [hcondition, hadded] at hleaves
  refine ⟨q, calls, start, _, _, hread, hcondition, hfull, hadded, ?_, ?_, hothers⟩
  · rw [built, Builder.build, hrun]
    subst hstart
    rfl
  · rw [hleaves]
    subst hstart
    rfl

end Query

end RecordQuery
