import Mathlib.Data.List.Forall2
import RecordQuery.Proofs.Shape
import RecordQuery.Query.Basic

/-!
# The JSON form of a query

Each clause is one member of the JSON form of a query. So the form depends on the cores of the
clauses only, and neither on where they stand in a text nor on the words they are written in.
-/

namespace RecordQuery

/-- The member of the JSON form of a query that a clause becomes. -/
def Operator.entry (clause : Operator) : String × Json :=
  (clause.kind.jsonKey,
    Operator.payload clause.kind (clause.property.map PropertyRef.toJson)
      (Operator.operandsToJson clause.operands))

@[simp] lemma Operator.toJson_eq_entry (clause : Operator) :
    clause.toJson = .object [clause.entry] := by
  cases clause
  rw [Operator.toJson, Operator.entry]

/-! ## Tables with distinct keys -/

namespace Table

variable {α : Type}

/-- A new key is put behind those that are there. -/
lemma insert_of_notMem {table : Table α} {key : String} (h : key ∉ table.map Prod.fst) (value : α) :
    insert table key value = table ++ [(key, value)] := by
  induction table with
  | nil => rfl
  | cons entry rest ih =>
    rw [List.map_cons, List.mem_cons, not_or] at h
    rw [insert, if_neg (Ne.symm h.1), ih h.2, List.cons_append]

/-- Entries with distinct keys are a table as they stand. -/
lemma ofEntries_eq_self {entries : List (String × α)} (h : (entries.map Prod.fst).Nodup) :
    ofEntries entries = entries := by
  have hfold : ∀ (after before : List (String × α)), ((before ++ after).map Prod.fst).Nodup →
      after.foldl (fun table entry => insert table entry.1 entry.2) before = before ++ after := by
    intro after
    induction after with
    | nil => exact fun before _ => (List.append_nil before).symm
    | cons entry rest ih =>
      intro before hnodup
      have hnew : entry.1 ∉ before.map Prod.fst := by
        rw [List.map_append, List.map_cons] at hnodup
        exact fun hmem => (List.nodup_append.mp hnodup).2.2 _ hmem _ (by simp) rfl
      rw [List.foldl_cons, insert_of_notMem hnew, ih, List.append_assoc, List.singleton_append]
      rwa [List.append_assoc]
  exact hfold entries [] h

end Table

/-! ## Kinds -/

namespace Kind

/-- The key of a kind is that of no other. -/
@[simp] lemma ofJsonKey?_jsonKey (kind : Kind) : ofJsonKey? kind.jsonKey = some kind := by
  cases kind <;> rfl

/-- Kinds have different keys in JSON. -/
lemma jsonKey_inj {a b : Kind} (h : a.jsonKey = b.jsonKey) : a = b := by
  have hread := congrArg ofJsonKey? h
  simpa using hread

/-- The clauses have places of their own. -/
lemma rank_inj {a b : Kind} (ha : a.isClause = true) (h : a.rank = b.rank) : a = b := by
  have hmem : ∀ kind : Kind, kind.isClause = true → kind ∈ clauseOrder := by
    intro kind hkind
    cases kind <;> simp [isClause, family, clauseOrder] at hkind ⊢
  exact (List.idxOf_inj (hmem a ha)).mp h

/-- If a kind competes with another, so does the other with it. -/
lemma competes_comm (a b : Kind) : a.competes b = b.competes a := by
  rw [competes, competes, BEq.comm, Bool.and_comm]

end Kind

namespace Query

/-- The JSON form of a query has a member for each clause. -/
lemma toJson_eq_ofEntries (q : Query) :
    q.toJson = .object (Table.ofEntries (q.clauses.map Operator.entry)) := by
  simp only [toJson, Table.ofEntries, List.foldl_map, Operator.toJson_eq_entry, List.foldl_cons,
    List.foldl_nil]

/-! ## Clauses with one core -/

/-- Two clauses with one core. -/
def SameCore (a b : Operator) : Prop := a.core = b.core

/-- Clauses of one core are of one kind. -/
lemma SameCore.kind_eq {a b : Operator} (h : SameCore a b) : a.kind = b.kind :=
  (Operator.core_eq_iff.mp h).1

/-- Clauses of one core have one entry in JSON. -/
lemma SameCore.entry_eq {a b : Operator} (h : SameCore a b) : a.entry = b.entry := by
  have hforms := Operator.toJson_eq_of_core_eq h
  simpa using hforms

/-- Clauses of one core are put in the same place. -/
lemma insertClause_rel {a b : Operator} (hab : SameCore a b) {as bs : List Operator}
    (h : List.Forall₂ SameCore as bs) :
    List.Forall₂ SameCore (insertClause a as) (insertClause b bs) := by
  induction h with
  | nil => exact .cons hab .nil
  | cons hxy hrest ih =>
    rw [insertClause, insertClause, hab.kind_eq, hxy.kind_eq]
    split
    · exact .cons hab (.cons hxy hrest)
    · exact .cons hxy ih

/-- Setting clauses of one core leaves all clauses of one core. -/
lemma setClause_rel {p q : Query} {a b : Operator} (hab : SameCore a b)
    (h : List.Forall₂ SameCore p.clauses q.clauses) :
    List.Forall₂ SameCore (p.setClause a).clauses (q.setClause b).clauses := by
  refine insertClause_rel hab (List.rel_filter ?_ h)
  intro x y hxy
  dsimp only
  rw [hab.kind_eq, hxy.kind_eq]

/-- The JSON form of a query depends on the cores of its clauses only. -/
lemma toJson_eq {p q : Query} (h : List.Forall₂ SameCore p.clauses q.clauses) :
    p.toJson = q.toJson := by
  have hentries : ∀ {as bs : List Operator}, List.Forall₂ SameCore as bs →
      as.map Operator.entry = bs.map Operator.entry := by
    intro as bs h
    induction h with
    | nil => rfl
    | cons hab _ ih => rw [List.map_cons, List.map_cons, hab.entry_eq, ih]
  rw [toJson_eq_ofEntries, toJson_eq_ofEntries, hentries h]

/-! ## Clauses in order -/

/-- Whether all of some operators are clauses, in the order of clauses, none of which competes with
another. -/
structure InOrder (clauses : List Operator) : Prop where
  areClauses : ∀ clause ∈ clauses, clause.kind.isClause = true
  increasing : clauses.Pairwise fun a b =>
    a.kind.rank < b.kind.rank ∧ a.kind.competes b.kind = false

/-- No clauses are in order. -/
lemma InOrder.nil : InOrder [] := ⟨by simp, .nil⟩

/-- A clause that is put in is added to those that are there. -/
lemma mem_insertClause {clause other : Operator} {clauses : List Operator} :
    other ∈ insertClause clause clauses ↔ other = clause ∨ other ∈ clauses := by
  induction clauses with
  | nil => simp [insertClause]
  | cons first rest ih =>
    rw [insertClause]
    split
    · simp
    · rw [List.mem_cons, ih, List.mem_cons]
      tauto

/-- A clause that competes with none is put in where the order asks for it. -/
lemma InOrder.insertClause {clause : Operator} {clauses : List Operator}
    (hclause : clause.kind.isClause = true) (h : InOrder clauses)
    (hcompetes : ∀ other ∈ clauses, other.kind.competes clause.kind = false) :
    InOrder (insertClause clause clauses) := by
  induction clauses with
  | nil => exact ⟨by simpa [Query.insertClause] using hclause, by simp [Query.insertClause]⟩
  | cons first rest ih =>
    obtain ⟨hfirst, hrest⟩ := List.forall_mem_cons.mp h.areClauses
    obtain ⟨hbefore, hincreasing⟩ := List.pairwise_cons.mp h.increasing
    obtain ⟨hcompetes₁, hcompetes₂⟩ := List.forall_mem_cons.mp hcompetes
    rw [Query.insertClause]
    split
    · rename_i hrank
      refine ⟨List.forall_mem_cons.mpr ⟨hclause, h.areClauses⟩, .cons ?_ h.increasing⟩
      refine List.forall_mem_cons.mpr ⟨⟨hrank, ?_⟩, fun other hother => ⟨?_, ?_⟩⟩
      · rw [Kind.competes_comm, hcompetes₁]
      · exact Nat.lt_trans hrank (hbefore other hother).1
      · rw [Kind.competes_comm, hcompetes₂ other hother]
    · rename_i hrank
      obtain ⟨hclauses, hinserted⟩ := ih ⟨hrest, hincreasing⟩ hcompetes₂
      refine ⟨List.forall_mem_cons.mpr ⟨hfirst, hclauses⟩, .cons (fun other hother => ?_) hinserted⟩
      obtain rfl | hother := mem_insertClause.mp hother
      · have hne : first.kind.rank ≠ other.kind.rank := fun heq => by
          rw [Kind.rank_inj hfirst heq, Kind.competes, beq_self_eq_true] at hcompetes₁
          cases hcompetes₁
        exact ⟨by omega, hcompetes₁⟩
      · exact hbefore other hother

/-- Setting a clause keeps clauses in order. -/
lemma InOrder.setClause {q : Query} {clause : Operator} (hclause : clause.kind.isClause = true)
    (h : InOrder q.clauses) : InOrder (q.setClause clause).clauses := by
  refine InOrder.insertClause hclause ⟨fun other hother => ?_, h.increasing.filter _⟩ ?_
  · exact h.areClauses other (List.mem_of_mem_filter hother)
  · intro other hother
    simpa using (List.mem_filter.mp hother).2

/-- Setting a clause brings in no other. -/
lemma mem_setClause {q : Query} {clause other : Operator}
    (h : other ∈ (q.setClause clause).clauses) : other = clause ∨ other ∈ q.clauses := by
  obtain rfl | hmem := mem_insertClause.mp h
  · exact .inl rfl
  · exact .inr (List.mem_of_mem_filter hmem)

/-- A clause that comes after all others, and competes with none, is put behind them. -/
lemma setClause_eq_append {q : Query} {clause : Operator}
    (h : ∀ other ∈ q.clauses,
      other.kind.rank < clause.kind.rank ∧ other.kind.competes clause.kind = false) :
    (q.setClause clause).clauses = q.clauses ++ [clause] := by
  have hfilter : q.clauses.filter (fun other => !other.kind.competes clause.kind) = q.clauses :=
    List.filter_eq_self.mpr fun other hother => by simp [(h other hother).2]
  have hinsert : ∀ clauses : List Operator,
      (∀ other ∈ clauses, other.kind.rank < clause.kind.rank) →
        insertClause clause clauses = clauses ++ [clause] := by
    intro clauses hclauses
    induction clauses with
    | nil => rfl
    | cons first rest ih =>
      obtain ⟨hfirst, hrest⟩ := List.forall_mem_cons.mp hclauses
      rw [insertClause, if_neg (by omega), ih hrest, List.cons_append]
  rw [setClause, withClauses, hfilter]
  exact hinsert q.clauses fun other hother => (h other hother).1

/-- Where the clauses are in order, the JSON form of a query lists their members. -/
lemma toJson_eq_entries {q : Query} (h : InOrder q.clauses) :
    q.toJson = .object (q.clauses.map Operator.entry) := by
  have hkeys : ((q.clauses.map Operator.entry).map Prod.fst).Nodup := by
    rw [List.map_map, List.Nodup, List.pairwise_map]
    refine h.increasing.imp fun {a b} hab heq => ?_
    have hkind : a.kind = b.kind := Kind.jsonKey_inj heq
    rw [hkind] at hab
    exact absurd hab.1 (Nat.lt_irrefl _)
  rw [toJson_eq_ofEntries, Table.ofEntries_eq_self hkeys]

/-! ## What clauses leave as it is -/

/-- What putting one clause in does not change, putting in all clauses of a draft does not. -/
lemma eq_foldl_setClause {β : Type} {f : Query → β} (h : ∀ q clause, f (q.setClause clause) = f q)
    (entries : List (Kind × Operator)) (q : Query) :
    f (entries.foldl (fun q entry => q.setClause entry.2) q) = f q := by
  induction entries generalizing q with
  | nil => rfl
  | cons entry rest ih => rw [List.foldl_cons, ih, h]

/-- The warnings of a query are the problems of its draft. -/
lemma warnings_ofDraft {draft : Draft} : (ofDraft draft).warnings = draft.problems :=
  eq_foldl_setClause (fun _ _ => rfl) draft.clauses _

/-- The aliases of a query are those of its draft. -/
lemma aliases_ofDraft {draft : Draft} : (ofDraft draft).aliases = draft.aliases :=
  eq_foldl_setClause (fun _ _ => rfl) draft.clauses _

end Query

end RecordQuery
