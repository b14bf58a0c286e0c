import Mathlib.Data.List.Pairwise
import Mathlib.Data.List.Perm.Basic
import RecordQuery.Proofs.QueryForm

/-!
# The clauses that remain of recorded ones

The clauses of a draft are put into a query one after the other, each in place of those it competes
with. So a recorded clause is one of the query in the end if no later one competes with it, whatever
the order in which the others come. And as a query keeps its clauses in order, it is determined by
which clauses these are.

From both it follows that clauses which do not compete with one another can be recorded in any
order: `Query.toJson_ofDraft_of_flatMap` lists the members of the query that results.
-/

namespace RecordQuery

namespace Kind

/-- A kind competes with itself. -/
lemma competes_self (a : Kind) : a.competes a = true := by
  rw [competes, beq_self_eq_true, Bool.true_or]

/-- Kinds that compete with one kind compete with one another. -/
lemma competes_trans {a b c : Kind} (hab : a.competes b = true) (hbc : b.competes c = true) :
    a.competes c = true := by
  simp only [competes, Bool.or_eq_true, beq_iff_eq, Bool.and_eq_true] at hab hbc ⊢
  obtain rfl | ⟨ha, hb⟩ := hab
  · exact hbc
  · obtain rfl | ⟨-, hc⟩ := hbc
    · exact .inr ⟨ha, hb⟩
    · exact .inr ⟨ha, hc⟩

/-- Kinds that compete with kinds that do not compete do not compete either. -/
lemma not_competes_of_competes {a a' b b' : Kind} (h : a.competes b = false)
    (ha : a.competes a' = true) (hb : b'.competes b = true) : a'.competes b' = false :=
  Bool.eq_false_iff.mpr fun hcompetes => by
    rw [competes_trans (competes_trans ha hcompetes) hb] at h
    cases h

end Kind

/-- Operators of kinds that do not compete for one place in a query. -/
def Operator.Compatible (a b : Operator) : Prop := a.kind.competes b.kind = false

instance : Std.Symm Operator.Compatible := ⟨fun a b h => (Kind.competes_comm b.kind a.kind).trans h⟩

namespace Query

/-! ## One query from recorded clauses -/

/-- The clauses that remain of some recorded ones. -/
def remaining (entries : List (Kind × Operator)) : List Operator :=
  (entries.foldl (fun q entry => q.setClause entry.2) empty).clauses

@[simp] lemma remaining_nil : remaining [] = [] := rfl

/-- The clauses of a query are what remains of those that were noted. -/
lemma clauses_ofDraft_eq_remaining (draft : Draft) :
    (ofDraft draft).clauses = remaining draft.clauses := by
  have hfold : ∀ (entries : List (Kind × Operator)) (p q : Query), p.clauses = q.clauses →
      (entries.foldl (fun q entry => q.setClause entry.2) p).clauses =
        (entries.foldl (fun q entry => q.setClause entry.2) q).clauses := by
    intro entries
    induction entries with
    | nil => exact fun _ _ h => h
    | cons entry rest ih =>
      intro p q h
      refine ih _ _ ?_
      simp only [setClause, withClauses, h]
  exact hfold _ _ _ rfl

/-- Setting a clause takes out those it competes with, and no other. -/
lemma mem_setClause_iff {q : Query} {clause other : Operator} :
    other ∈ (q.setClause clause).clauses ↔
      other = clause ∨ (other ∈ q.clauses ∧ other.Compatible clause) := by
  rw [setClause, withClauses]
  simp [mem_insertClause, Operator.Compatible]

/-- A clause that was there before remains if none that is put in competes with it. -/
lemma mem_foldl_setClause {clause : Operator} (entries : List (Kind × Operator)) (q : Query) :
    clause ∈ (entries.foldl (fun q entry => q.setClause entry.2) q).clauses ↔
      (clause ∈ q.clauses ∧ ∀ entry ∈ entries, clause.Compatible entry.2) ∨
        clause ∈ remaining entries := by
  induction entries generalizing q with
  | nil => simp
  | cons entry rest ih =>
    have hrest : clause ∈ remaining (entry :: rest) ↔
        (clause = entry.2 ∧ ∀ entry ∈ rest, clause.Compatible entry.2) ∨
        clause ∈ remaining rest := by
      rw [remaining, List.foldl_cons, ih, mem_setClause_iff]
      simp [empty]
    rw [List.foldl_cons, ih, mem_setClause_iff, hrest, List.forall_mem_cons]
    tauto

/-- What remains of two lists remains of the second, or of the first and competes with none of the
second. -/
lemma mem_remaining_append {clause : Operator} {as bs : List (Kind × Operator)} :
    clause ∈ remaining (as ++ bs) ↔
      (clause ∈ remaining as ∧ ∀ entry ∈ bs, clause.Compatible entry.2) ∨
      clause ∈ remaining bs := by
  rw [remaining, List.foldl_append, mem_foldl_setClause]
  rfl

/-- What remains is the first clause, if no later one competes with it, or remains of the later
ones. -/
lemma mem_remaining_cons {clause : Operator} {entry : Kind × Operator}
    {rest : List (Kind × Operator)} :
    clause ∈ remaining (entry :: rest) ↔
      (clause = entry.2 ∧ ∀ other ∈ rest, clause.Compatible other.2) ∨ clause ∈ remaining rest := by
  rw [remaining, List.foldl_cons, mem_foldl_setClause, mem_setClause_iff]
  simp [empty]

/-- Clauses that do not compete all remain. -/
lemma mem_remaining_of_pairwise {clause : Operator} {entries : List (Kind × Operator)}
    (h : entries.Pairwise fun a b => a.2.Compatible b.2) :
    clause ∈ remaining entries ↔ ∃ entry ∈ entries, entry.2 = clause := by
  induction entries with
  | nil => simp
  | cons entry rest ih =>
    obtain ⟨hentry, hrest⟩ := List.pairwise_cons.mp h
    rw [mem_remaining_cons, ih hrest, List.exists_mem_cons_iff]
    refine or_congr_left ⟨fun hclause => hclause.1.symm, ?_⟩
    rintro rfl
    exact ⟨rfl, hentry⟩

/-- What remains was noted. -/
lemma mem_of_mem_remaining {clause : Operator} {entries : List (Kind × Operator)}
    (h : clause ∈ remaining entries) : ∃ entry ∈ entries, entry.2 = clause := by
  induction entries with
  | nil => cases h
  | cons entry rest ih =>
    obtain ⟨rfl, -⟩ | h := mem_remaining_cons.mp h
    · exact ⟨entry, List.mem_cons_self, rfl⟩
    · obtain ⟨other, hother, rfl⟩ := ih h
      exact ⟨other, List.mem_cons_of_mem _ hother, rfl⟩

/-- Where a recorded clause does not remain, one does that competes with it. -/
lemma exists_competing {entries : List (Kind × Operator)} {entry : Kind × Operator}
    (h : entry ∈ entries) :
    ∃ clause ∈ remaining entries, clause.kind.competes entry.2.kind = true := by
  induction entries generalizing entry with
  | nil => cases h
  | cons first rest ih =>
    obtain rfl | h := List.mem_cons.mp h
    · by_cases hrest : ∀ other ∈ rest, entry.2.Compatible other.2
      · exact ⟨entry.2, mem_remaining_cons.mpr (.inl ⟨rfl, hrest⟩), Kind.competes_self _⟩
      · push Not at hrest
        obtain ⟨other, hother, hcompetes⟩ := hrest
        rw [Operator.Compatible, Bool.not_eq_false] at hcompetes
        obtain ⟨clause, hclause, hkind⟩ := ih hother
        refine ⟨clause, mem_remaining_cons.mpr (.inr hclause), Kind.competes_trans hkind ?_⟩
        rwa [Kind.competes_comm]
    · obtain ⟨clause, hclause, hkind⟩ := ih h
      exact ⟨clause, mem_remaining_cons.mpr (.inr hclause), hkind⟩

/-- What remains of all clauses of some drafts is what remains of each, if no clause of one draft
competes with one of another. -/
lemma mem_remaining_flatten {clause : Operator} {drafts : List (List (Kind × Operator))}
    (h : drafts.Pairwise fun as bs => ∀ a ∈ as, ∀ b ∈ bs, a.2.Compatible b.2) :
    clause ∈ remaining drafts.flatten ↔ ∃ entries ∈ drafts, clause ∈ remaining entries := by
  induction drafts with
  | nil => simp
  | cons first rest ih =>
    obtain ⟨hfirst, hrest⟩ := List.pairwise_cons.mp h
    have hkeeps : clause ∈ remaining first → ∀ entry ∈ rest.flatten, clause.Compatible entry.2 := by
      intro hclause entry hentry
      obtain ⟨own, hown, rfl⟩ := mem_of_mem_remaining hclause
      obtain ⟨entries, hentries, hentry⟩ := List.mem_flatten.mp hentry
      exact hfirst entries hentries own hown entry hentry
    rw [List.flatten_cons, mem_remaining_append, ih hrest, List.exists_mem_cons_iff]
    exact or_congr_left (and_iff_left_of_imp hkeeps)

/-! ## Clauses in order -/

/-- Clauses in order are determined by which they are. -/
lemma InOrder.ext {as bs : List Operator} (ha : InOrder as) (hb : InOrder bs)
    (h : ∀ clause, clause ∈ as ↔ clause ∈ bs) : as = bs := by
  have hincreasing : ∀ {clauses : List Operator}, InOrder clauses →
      clauses.Pairwise fun a b => a.kind.rank < b.kind.rank :=
    fun hclauses => hclauses.increasing.imp fun hab => hab.1
  have hnodup : ∀ {clauses : List Operator}, InOrder clauses → clauses.Nodup :=
    fun hclauses => (hincreasing hclauses).imp fun hab heq => by
      rw [heq] at hab
      exact Nat.lt_irrefl _ hab
  refine List.Perm.eq_of_pairwise (fun a b _ _ hab hba => ?_) (hincreasing ha) (hincreasing hb)
    ((List.perm_ext_iff_of_nodup (hnodup ha) (hnodup hb)).mpr h)
  exact absurd hab (Nat.lt_asymm hba)

/-- Some clauses, in the order of their kinds. -/
def arranged (clauses : List Operator) : List Operator :=
  Kind.clauseOrder.flatMap fun kind => clauses.filter fun clause => clause.kind == kind

variable {clauses : List Operator}

/-- Arranging clauses loses none and adds none. -/
lemma mem_arranged (hclauses : ∀ clause ∈ clauses, clause.kind.isClause = true)
    (clause : Operator) : clause ∈ arranged clauses ↔ clause ∈ clauses := by
  have hmem : clause ∈ clauses → clause.kind ∈ Kind.clauseOrder := by
    intro h
    have hkind := hclauses clause h
    revert hkind
    cases clause.kind <;> decide
  simp only [arranged, List.mem_flatMap, List.mem_filter, beq_iff_eq]
  exact ⟨fun ⟨_, _, h, _⟩ => h, fun h => ⟨_, hmem h, h, rfl⟩⟩

/-- Compatible clauses are in order when they are arranged. -/
lemma inOrder_arranged (hclauses : ∀ clause ∈ clauses, clause.kind.isClause = true)
    (hcompatible : clauses.Pairwise Operator.Compatible) : InOrder (arranged clauses) := by
  refine ⟨fun clause hclause => hclauses clause ((mem_arranged hclauses clause).mp hclause), ?_⟩
  have hranks : Kind.clauseOrder.Pairwise fun a b => a.rank < b.rank := by decide
  refine List.pairwise_flatMap.mpr ⟨fun kind _ => ?_, hranks.imp fun {a b} hab x hx y hy => ?_⟩
  · -- there is no second clause of the kind
    refine (hcompatible.filter _).imp_of_mem fun {x y} hx hy hxy => ?_
    have hxkind : x.kind = kind := by simpa using (List.mem_filter.mp hx).2
    have hykind : y.kind = kind := by simpa using (List.mem_filter.mp hy).2
    rw [Operator.Compatible, hxkind, hykind, Kind.competes_self] at hxy
    cases hxy
  · obtain ⟨hxmem, hxkind⟩ := List.mem_filter.mp hx
    obtain ⟨hymem, hykind⟩ := List.mem_filter.mp hy
    rw [beq_iff_eq] at hxkind hykind
    rw [← hxkind, ← hykind] at hab
    refine ⟨hab, hcompatible.forall hxmem hymem ?_⟩
    rintro rfl
    exact Nat.lt_irrefl _ hab

/-- What remains is in order. -/
lemma inOrder_remaining {entries : List (Kind × Operator)}
    (h : ∀ entry ∈ entries, entry.2.kind.isClause = true) : InOrder (remaining entries) := by
  have hfold : ∀ (entries : List (Kind × Operator)) (q : Query),
      (∀ entry ∈ entries, entry.2.kind.isClause = true) → InOrder q.clauses →
        InOrder (entries.foldl (fun q entry => q.setClause entry.2) q).clauses := by
    intro entries
    induction entries with
    | nil => exact fun _ _ hq => hq
    | cons entry rest ih =>
      intro q hentries hq
      obtain ⟨hentry, hrest⟩ := List.forall_mem_cons.mp hentries
      exact ih _ hrest (hq.setClause hentry)
  exact hfold entries _ h .nil

/-- Clauses that compete with clauses that do not compete do not compete either. -/
lemma compatible_of_remaining {as bs : List (Kind × Operator)} {a b : Operator}
    (ha : remaining as = [a]) (hb : remaining bs = [b]) (hab : a.Compatible b) :
    ∀ x ∈ as, ∀ y ∈ bs, x.2.Compatible y.2 := by
  intro x hx y hy
  obtain ⟨a', ha', hcompetes⟩ := exists_competing hx
  obtain ⟨b', hb', hcompetes'⟩ := exists_competing hy
  rw [ha, List.mem_singleton] at ha'
  rw [hb, List.mem_singleton] at hb'
  subst ha' hb'
  exact Kind.not_competes_of_competes hab hcompetes ((Kind.competes_comm _ _).trans hcompetes')

variable {α : Type} {parts : List α} {entries : α → List (Kind × Operator)} {clause : α → Operator}

/-- Recorded clauses that are put together, of each part of which one clause remains that competes
with none of another part, come to these clauses in the order of their kinds. -/
theorem toJson_ofDraft_of_flatMap {draft : Draft} (hdraft : draft.clauses = parts.flatMap entries)
    (hsingle : ∀ part ∈ parts, remaining (entries part) = [clause part])
    (hkinds : ∀ part ∈ parts, ∀ entry ∈ entries part, entry.2.kind.isClause = true)
    (hcompatible : parts.Pairwise fun p q => (clause p).Compatible (clause q)) :
    (ofDraft draft).toJson = .object ((arranged (parts.map clause)).map Operator.entry) := by
  have hapart : (parts.map entries).Pairwise fun as bs =>
      ∀ a ∈ as, ∀ b ∈ bs, a.2.Compatible b.2 :=
    List.pairwise_map.mpr <| hcompatible.imp_of_mem fun hp hq hpq =>
      compatible_of_remaining (hsingle _ hp) (hsingle _ hq) hpq
  have hisClause : ∀ one ∈ parts.map clause, one.kind.isClause = true := by
    intro one hone
    obtain ⟨part, hpart, rfl⟩ := List.mem_map.mp hone
    have hmem : clause part ∈ remaining (entries part) := by
      rw [hsingle part hpart]
      exact List.mem_singleton_self _
    obtain ⟨entry, hentry, heq⟩ := mem_of_mem_remaining hmem
    exact heq ▸ hkinds part hpart entry hentry
  have hclauses : remaining (parts.flatMap entries) = arranged (parts.map clause) := by
    refine InOrder.ext (inOrder_remaining fun entry hentry => ?_)
      (inOrder_arranged hisClause (List.pairwise_map.mpr hcompatible)) fun one => ?_
    · obtain ⟨part, hpart, hentry⟩ := List.mem_flatMap.mp hentry
      exact hkinds part hpart entry hentry
    · rw [mem_arranged hisClause, List.flatMap_def, mem_remaining_flatten hapart]
      simp only [List.mem_map, exists_exists_and_eq_and]
      refine exists_congr fun part => and_congr_right fun hpart => ?_
      rw [hsingle part hpart, List.mem_singleton, eq_comm]
  have hquery : (ofDraft draft).clauses = arranged (parts.map clause) := by
    rw [clauses_ofDraft_eq_remaining, hdraft, hclauses]
  rw [toJson_eq_entries (hquery ▸ inOrder_arranged hisClause (List.pairwise_map.mpr hcompatible)),
    hquery]

end Query

end RecordQuery
