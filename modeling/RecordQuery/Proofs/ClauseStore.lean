import Mathlib.Data.List.Pairwise
import Mathlib.Data.List.Perm.Basic
import RecordQuery.Proofs.ClauseOrder
import RecordQuery.Proofs.QueryHistory

/-!
# How a query keeps its clauses

A query that was read has its clauses in the fixed order, one of each kind at most. What is done
with it later can put in any operator as a clause, even one that is none, and still leaves the list
in order: operators that are no clause come behind all others, and none competes with another for
its place. `Kind.AreKept` says so of the kinds of some clauses, since nothing else about them
matters.

There are three ways to change the list. Putting a clause in takes out those it competes with, and
finds its place by the rank of its kind. Changing the condition leaves all kinds as they are, but
may put a `WHERE` in where there is none. Pruning may take the `WHERE` out. Each keeps the kinds in
order, so they are in order in every query that is reached.
-/

namespace RecordQuery

namespace Kind

/-- Whether some kinds come in the order of clauses, those that are no clause last, and none
competes with another. -/
structure AreKept (kinds : List Kind) : Prop where
  ordered : kinds.Pairwise fun a b => a.rank ≤ b.rank
  distinct : kinds.Pairwise fun a b => a.competes b = false

namespace AreKept

variable {kinds : List Kind}

/-- No kinds are kept in order. -/
lemma nil : AreKept [] := ⟨.nil, .nil⟩

/-- Leaving kinds out keeps the others in order. -/
lemma sublist {fewer : List Kind} (h : AreKept kinds) (hsub : fewer.Sublist kinds) :
    AreKept fewer := by
  constructor
  · exact h.ordered.sublist hsub
  · exact h.distinct.sublist hsub

/-- No kind comes twice. -/
lemma nodup (h : AreKept kinds) : kinds.Nodup := by
  refine h.distinct.imp fun hab heq => ?_
  rw [heq, competes_self] at hab
  cases hab

/-- There is one grouping kind at most. -/
lemma not_both (h : AreKept kinds) : ¬ (groupBy ∈ kinds ∧ groupByPermuted ∈ kinds) := by
  rintro ⟨hplain, hpermuted⟩
  have : Std.Symm fun a b : Kind => a.competes b = false :=
    ⟨fun a b hab => (competes_comm b a).trans hab⟩
  cases h.distinct.forall hplain hpermuted (by decide)

end AreKept

/-- The order has all kinds of clauses, and no other kind. -/
lemma mem_clauseOrder_iff (kind : Kind) : kind ∈ clauseOrder ↔ kind.isClause = true := by
  cases kind <;> decide

/-- A kind of a lower rank than another, or of the same, is that of a clause if the other is. -/
lemma isClause_of_rank_le {a b : Kind} (h : a.rank ≤ b.rank) (hb : b.isClause = true) :
    a.isClause = true := by
  rw [← mem_clauseOrder_iff] at hb ⊢
  exact List.idxOf_lt_length_iff.mp (Nat.lt_of_le_of_lt h (List.idxOf_lt_length_iff.mpr hb))

namespace AreKept

variable {kinds : List Kind}

/-- The kinds of clauses come in the fixed order. -/
lemma filter_isClause_eq (h : AreKept kinds) :
    kinds.filter isClause = clauseOrder.filter fun kind => decide (kind ∈ kinds) := by
  have horder : clauseOrder.Pairwise fun a b => a.rank < b.rank := by decide
  have hkinds : (kinds.filter isClause).Pairwise fun a b => a.rank < b.rank := by
    refine ((h.ordered.and h.nodup).filter _).imp_of_mem fun {a b} ha _ hab => ?_
    have hne : a.rank ≠ b.rank := fun heq => hab.2 (rank_inj (List.mem_filter.mp ha).2 heq)
    exact Nat.lt_of_le_of_ne hab.1 hne
  refine List.Perm.eq_of_pairwise (fun a b _ _ hab hba => absurd hab (Nat.lt_asymm hba)) hkinds
    (horder.filter _) ((List.perm_ext_iff_of_nodup (h.nodup.filter _)
      ((by decide : clauseOrder.Nodup).filter _)).mpr fun kind => ?_)
  rw [List.mem_filter, List.mem_filter, mem_clauseOrder_iff, decide_eq_true_iff]
  exact and_comm

/-- The kinds of clauses come before all others. -/
lemma eq_append (h : AreKept kinds) :
    kinds = kinds.filter isClause ++ kinds.filter fun kind => !kind.isClause := by
  induction kinds with
  | nil => rfl
  | cons kind rest ih =>
    obtain ⟨hle, hordered⟩ := List.pairwise_cons.mp h.ordered
    have hrest := ih (h.sublist (List.sublist_cons_self kind rest))
    by_cases hkind : kind.isClause = true
    · rw [List.filter_cons_of_pos hkind, List.filter_cons_of_neg (by simp [hkind]),
        List.cons_append, ← hrest]
    · have hnone : ∀ other ∈ rest, other.isClause = false := by
        intro other hother
        rw [Bool.eq_false_iff]
        intro hclause
        exact hkind (isClause_of_rank_le (hle other hother) hclause)
      have hfilter : (kind :: rest).filter isClause = [] := by
        simpa [hkind] using hnone
      rw [hfilter, List.nil_append, List.filter_eq_self.mpr]
      simpa [hkind] using hnone

end AreKept

end Kind

namespace Query

/-! ## Putting clauses in -/

/-- Putting a clause in puts it somewhere between the others. -/
lemma exists_insertClause_eq (clause : Operator) (clauses : List Operator) :
    ∃ before after, insertClause clause clauses = before ++ clause :: after ∧
      before ++ after = clauses := by
  induction clauses with
  | nil => exact ⟨[], [], rfl, rfl⟩
  | cons other rest ih =>
    rw [insertClause]
    split
    · exact ⟨[], other :: rest, rfl, rfl⟩
    · obtain ⟨before, after, hinsert, hrest⟩ := ih
      refine ⟨other :: before, after, ?_, ?_⟩
      · rw [hinsert, List.cons_append]
      · rw [List.cons_append, hrest]

/-- Putting a clause in that competes with none keeps the kinds in order. -/
lemma areKept_insertClause {clause : Operator} {clauses : List Operator}
    (h : Kind.AreKept (clauses.map Operator.kind))
    (hcompetes : ∀ other ∈ clauses, other.kind.competes clause.kind = false) :
    Kind.AreKept ((insertClause clause clauses).map Operator.kind) := by
  induction clauses with
  | nil => exact ⟨List.pairwise_singleton _ _, List.pairwise_singleton _ _⟩
  | cons first rest ih =>
    obtain ⟨hle, hordered⟩ := List.pairwise_cons.mp h.ordered
    obtain ⟨hapart, hdistinct⟩ := List.pairwise_cons.mp h.distinct
    obtain ⟨hfirst, hrest⟩ := List.forall_mem_cons.mp hcompetes
    rw [insertClause]
    split
    · rename_i hrank
      constructor
      · refine .cons (fun kind hkind => ?_) h.ordered
        rcases List.mem_cons.mp hkind with rfl | hkind
        · exact Nat.le_of_lt hrank
        · exact Nat.le_trans (Nat.le_of_lt hrank) (hle kind hkind)
      · refine .cons (fun kind hkind => ?_) h.distinct
        obtain ⟨other, hother, rfl⟩ := List.mem_map.mp hkind
        rw [Kind.competes_comm]
        exact hcompetes other hother
    · rename_i hrank
      obtain ⟨hordered', hdistinct'⟩ := ih ⟨hordered, hdistinct⟩ hrest
      -- what comes behind the first clause is what was there, and the one put in
      have hbehind : ∀ kind ∈ (insertClause clause rest).map Operator.kind,
          first.kind.rank ≤ kind.rank ∧ first.kind.competes kind = false := by
        intro kind hkind
        obtain ⟨other, hother, rfl⟩ := List.mem_map.mp hkind
        rcases mem_insertClause.mp hother with rfl | hother
        · exact ⟨Nat.le_of_not_lt hrank, hfirst⟩
        · have hmem := List.mem_map_of_mem (f := Operator.kind) hother
          exact ⟨hle _ hmem, hapart _ hmem⟩
      constructor
      · exact .cons (fun kind hkind => (hbehind kind hkind).1) hordered'
      · exact .cons (fun kind hkind => (hbehind kind hkind).2) hdistinct'

/-- Putting a clause in takes out those it competes with, and leaves the others as they are. -/
lemma exists_setClause_eq (q : Query) (clause : Operator) :
    ∃ before after, (q.setClause clause).clauses = before ++ clause :: after ∧
      before ++ after = q.clauses.filter fun other => !other.kind.competes clause.kind :=
  exists_insertClause_eq clause _

/-- A clause that was put in is the one of its kind. -/
lemma clause?_setClause (q : Query) (clause : Operator) :
    (q.setClause clause).clause? clause.kind = some clause := by
  obtain ⟨before, after, hclauses, hrest⟩ := q.exists_setClause_eq clause
  have hbefore : ∀ other ∈ before, (other.kind == clause.kind) = false := by
    intro other hother
    have hmem : other ∈ q.clauses.filter fun other => !other.kind.competes clause.kind := by
      rw [← hrest]
      exact List.mem_append_left _ hother
    have hcompetes : other.kind.competes clause.kind = false := by
      simpa using (List.mem_filter.mp hmem).2
    rw [Kind.competes, Bool.or_eq_false_iff] at hcompetes
    exact hcompetes.1
  rw [clause?, hclauses, List.find?_append, List.find?_eq_none.mpr (by simpa using hbefore)]
  simp

/-- Setting a clause keeps the kinds in order. -/
lemma areKept_setClause {q : Query} (clause : Operator)
    (h : Kind.AreKept (q.clauses.map Operator.kind)) :
    Kind.AreKept ((q.setClause clause).clauses.map Operator.kind) := by
  refine areKept_insertClause (h.sublist (List.filter_sublist.map _)) fun other hother => ?_
  simpa using (List.mem_filter.mp hother).2

/-! ## Changing the condition -/

/-- Changing the condition of a `WHERE` changes no kind. -/
lemma map_kind_modifyFirst (f : Operator → Operator) (clauses : List Operator) :
    (modifyFirst f clauses).map Operator.kind = clauses.map Operator.kind := by
  induction clauses with
  | nil => rfl
  | cons clause rest ih =>
    rw [modifyFirst]
    split
    · rfl
    · rw [List.map_cons, List.map_cons, ih]

/-- Changing the condition keeps the kinds in order. -/
lemma areKept_modifyCondition {q : Query} (f : Operator → Operator)
    (h : Kind.AreKept (q.clauses.map Operator.kind)) :
    Kind.AreKept ((q.modifyCondition f).clauses.map Operator.kind) := by
  rw [modifyCondition, withClauses, map_kind_modifyFirst]
  split
  · exact h
  · rename_i hnone
    refine areKept_insertClause h fun other hother => ?_
    have hkind : other.kind ≠ .whereClause := by
      rw [clause?, Bool.not_eq_true, Option.isSome_eq_false_iff, Option.isNone_iff_eq_none,
        List.find?_eq_none] at hnone
      simpa using hnone other hother
    simp [Kind.competes, Kind.isGrouping, hkind]

/-- Pruning the condition of a `WHERE` changes no kind. -/
lemma map_kind_pruneFirst (clauses : List Operator) :
    (pruneFirst clauses).map Operator.kind = clauses.map Operator.kind := by
  induction clauses with
  | nil => rfl
  | cons clause rest ih =>
    rw [pruneFirst]
    split
    · cases clause
      rw [Operator.prune, List.map_cons, List.map_cons]
    · rw [List.map_cons, List.map_cons, ih]

/-- Pruning keeps the kinds in order. -/
lemma areKept_prune {q : Query} (h : Kind.AreKept (q.clauses.map Operator.kind)) :
    Kind.AreKept (q.prune.clauses.map Operator.kind) := by
  refine Kind.AreKept.sublist ?_ (List.filter_sublist.map Operator.kind)
  rw [map_kind_pruneFirst]
  exact h

/-! ## Any history -/

/-- No call puts the clauses out of order. -/
lemma Step.areKept {q q' : Query} (hstep : q.Step q')
    (h : Kind.AreKept (q.clauses.map Operator.kind)) :
    Kind.AreKept (q'.clauses.map Operator.kind) := by
  cases hstep with
  | setClause clause => exact areKept_setClause clause h
  | modifyCondition f => exact areKept_modifyCondition f h
  | prune => exact areKept_prune h
  | isAggregate =>
    unfold Query.isAggregate
    split <;> exact h
  | columns => exact h
  | conditionJson =>
    unfold Query.conditionJson
    split <;> exact h
  | test subject =>
    rw [test_snd]
    unfold Query.conditionJson
    split <;> exact h

/-- Clauses in order are of kinds in order. -/
lemma InOrder.areKept {clauses : List Operator} (h : InOrder clauses) :
    Kind.AreKept (clauses.map Operator.kind) := by
  constructor
  · exact List.pairwise_map.mpr (h.increasing.imp fun hab => Nat.le_of_lt hab.1)
  · exact List.pairwise_map.mpr (h.increasing.imp fun hab => hab.2)

/-- Every query that is reached has its kinds in order. -/
lemma Reached.areKept {q : Query} (h : q.Reached) : Kind.AreKept (q.clauses.map Operator.kind) := by
  induction h with
  | empty => exact .nil
  | named name => exact .nil
  | read h => exact h.wellFormed.inOrder.areKept
  | step _ hstep ih => exact hstep.areKept ih

/-- Where no kind comes twice, the JSON form of a query lists the members of its clauses. -/
lemma toJson_eq_of_nodup {q : Query} (h : (q.clauses.map Operator.kind).Nodup) :
    q.toJson = .object (q.clauses.map Operator.entry) := by
  rw [toJson_eq_ofEntries, Table.ofEntries_eq_self]
  rw [List.map_map, List.Nodup, List.pairwise_map]
  exact (List.pairwise_map.mp h).imp fun hab heq => hab (Kind.jsonKey_inj heq)

/-- Whatever was done with a query, no kind of clauses comes twice in it, nor do both kinds of
grouping come, and the clauses are in the fixed order, with operators that are no clause behind
them. So its JSON form has one member for each clause, in that order. Putting a clause in makes it
the one of its kind, takes out those it competes with, and leaves all others as they are and in
their order. -/
theorem Reached.clauses_kept {q : Query} (h : q.Reached) :
    (q.clauses.map Operator.kind).Nodup ∧
    ¬ (Kind.groupBy ∈ q.clauses.map Operator.kind ∧
      Kind.groupByPermuted ∈ q.clauses.map Operator.kind) ∧
    q.clauses.map Operator.kind =
      (Kind.clauseOrder.filter fun kind => decide (kind ∈ q.clauses.map Operator.kind)) ++
        (q.clauses.map Operator.kind).filter (fun kind => !kind.isClause) ∧
    (∃ members : List (String × Json), q.toJson = .object members ∧
      (members.map Prod.fst).Nodup ∧
      List.Forall₂ (fun clause member => member.1 = clause.kind.jsonKey ∧
        clause.toJson = .object [member]) q.clauses members) ∧
    ∀ clause, (q.setClause clause).clause? clause.kind = some clause ∧
      ∃ before after, (q.setClause clause).clauses = before ++ clause :: after ∧
        before ++ after = q.clauses.filter fun other => !(other.kind == clause.kind ||
          other.kind.isGrouping && clause.kind.isGrouping) := by
  have hkept := h.areKept
  refine ⟨hkept.nodup, hkept.not_both, ?_, ⟨q.clauses.map Operator.entry,
    toJson_eq_of_nodup hkept.nodup, ?_, ?_⟩, fun clause => ⟨q.clause?_setClause clause,
    q.exists_setClause_eq clause⟩⟩
  · rw [← hkept.filter_isClause_eq]
    exact hkept.eq_append
  · rw [List.map_map, List.Nodup, List.pairwise_map]
    exact (List.pairwise_map.mp hkept.nodup).imp fun hab heq => hab (Kind.jsonKey_inj heq)
  · refine List.forall₂_map_right_iff.mpr (List.forall₂_same.mpr fun clause _ => ?_)
    exact ⟨rfl, clause.toJson_eq_entry⟩

/-- A query that was read, got an operator that is no clause, a condition, and the other grouping
clause. -/
theorem Reached.clauses_kept_sample :
    ∃ q : Query, q.Reached ∧
      q.clauses.map Operator.kind = [.whereClause, .groupByPermuted, .limit, .isNull] ∧
      (q.clauses.map Operator.kind).Nodup ∧
      ∀ clause, (q.setClause clause).clause? clause.kind = some clause := by
  obtain ⟨json, hjson⟩ : ∃ json : Json, json = .object [("limit", .integer 5),
      ("group_by", .array [.object [("source", .string "host")]])] := ⟨_, rfl⟩
  obtain ⟨start, hstart⟩ : ∃ start : Query, start = { clauses := [
      { kind := .groupBy, operands := [.property (.ofId "host")] },
      { kind := .limit
        operands := [.value ⟨.number ⟨false, 5, 0, by decide, by decide, by simp⟩, "5"⟩] }] } :=
    ⟨_, rfl⟩
  obtain ⟨missing, hmissing⟩ : ∃ missing : Operator, missing =
      { kind := .isNull, property := some (.ofId "user") } := ⟨_, rfl⟩
  obtain ⟨q, hq⟩ : ∃ q : Query, q = ((start.setClause missing).or missing).setClause
      { kind := .groupByPermuted, operands := [.property (.ofId "user")] } := ⟨_, rfl⟩
  have hread : Query.ofJson json = .ok start := by
    subst hjson hstart
    rfl
  have hreached : q.Reached := by
    subst hq
    exact .step (.step (.step (.read (.ofJson json hread)) (.setClause missing))
      (.modifyCondition (combine .or missing))) (.setClause _)
  obtain ⟨hnodup, -, -, -, hset⟩ := hreached.clauses_kept
  refine ⟨q, hreached, ?_, hnodup, fun clause => (hset clause).1⟩
  subst hq hstart hmissing
  rfl

end Query

end RecordQuery
