import RecordQuery.Proofs.IntroducedNames
import RecordQuery.Proofs.JsonForm

/-!
# Names after reading a JSON form back

A query that is read from a text knows every name that is bound while reading, wherever in the text
that is. A query that is read from a JSON form looks for names among its columns only, and only at
the columns themselves: an aggregate has its default name, and `AS` has its own and the default name
of what it renames. All else that binds names is in the JSON form, and is read back, but its names
are not known then.

So the two know the same names exactly if the columns introduce all names of the query.
-/

namespace RecordQuery

variable {name : String}

/-! ## The names of columns -/

namespace Operator

/-- The names that a column introduces. -/
def declared (column : Operator) : List String :=
  (if column.kind = .asName then
    ((column.operands.head?.bind Operand.operator?).bind defaultAlias?).toList else []) ++
    column.introduces?.toList

/-- The names that a column has are those it declares. -/
lemma map_fst_namesOf (column : Operator) :
    (Query.namesOf column).map Prod.fst = column.declared := by
  have hdefault : ∀ target : Operator,
      (target.defaultAlias?.toList.map fun name => (name, Operand.operator target)).map Prod.fst =
        target.defaultAlias?.toList := by
    intro target
    cases target.defaultAlias? <;> rfl
  unfold Query.namesOf declared introduces?
  by_cases hkind : column.kind = .asName
  · simp only [if_pos hkind, List.map_append]
    congr 1
    · cases column.operands.head?.bind Operand.operator? with
      | none => rfl
      | some target => exact hdefault target
    · cases hoperands : column.operands with
      | nil => simp [values, hoperands]
      | cons first rest => cases column.values.head?.bind ScalarValue.string? <;> simp
  · simp only [if_neg hkind, List.append_nil, List.nil_append]
    exact hdefault column

/-- The names that a column introduces are bound in it. -/
lemma binds_of_mem_declared {column : Operator} (h : name ∈ column.declared) :
    column.Binds name := by
  rcases List.mem_append.mp h with h | h
  · split at h
    · rw [Option.mem_toList] at h
      obtain ⟨target, htarget, halias⟩ := Option.bind_eq_some_iff.mp h
      obtain ⟨operand, hhead, hoperator⟩ := Option.bind_eq_some_iff.mp htarget
      cases operand <;> cases hoperator
      refine .beneath (List.mem_of_head? hhead) (.root ?_)
      rw [introduces?, if_neg fun has => ?_]
      · exact halias
      · rw [defaultAlias?, has] at halias
        cases halias
    · cases h
  · exact .root (Option.mem_toList.mp h)

end Operator

namespace Query

/-- The names that the columns of a query introduce. -/
def columnNames (q : Query) : List String :=
  q.select?.elim [] fun select => select.children.flatMap Operator.declared

/-- Putting entries into a sorted table adds their names. -/
lemma contains_foldl_insertSorted {α : Type} (entries : List (String × α)) (table : Table α) :
    Table.contains
        (entries.foldl (fun table entry => Table.insertSorted table entry.1 entry.2) table) name =
      true ↔ name ∈ entries.map Prod.fst ∨ Table.contains table name = true := by
  induction entries generalizing table with
  | nil => simp
  | cons entry rest ih =>
    rw [List.foldl_cons, ih, Table.contains_insertSorted, Bool.or_eq_true, beq_iff_eq,
      List.map_cons, List.mem_cons, or_left_comm, or_assoc]

/-- The aliases that are collected are the names of the columns. -/
lemma contains_collectAliases {q : Query} :
    Table.contains q.collectAliases name = true ↔ name ∈ q.columnNames := by
  unfold collectAliases columnNames
  cases q.select? with
  | none => simp [Table.contains]
  | some select =>
    rw [contains_foldl_insertSorted, List.map_flatMap]
    simp [Operator.map_fst_namesOf, Table.contains]

/-- The names of columns are names of the query. -/
lemma exists_binds_of_mem_columnNames {q : Query} (h : name ∈ q.columnNames) :
    ∃ clause ∈ q.clauses, clause.Binds name := by
  unfold columnNames at h
  cases hselect : q.select? with
  | none =>
    rw [hselect] at h
    cases h
  | some select =>
    rw [hselect, Option.elim_some, List.mem_flatMap] at h
    obtain ⟨column, hcolumn, hname⟩ := h
    obtain ⟨operand, hoperand, hoperator⟩ := List.mem_filterMap.mp hcolumn
    cases operand <;> cases hoperator
    exact ⟨select, List.mem_of_find?_eq_some hselect,
      .beneath hoperand (Operator.binds_of_mem_declared hname)⟩

end Query

/-! ## Equal trees -/

namespace Operator

/-- Operators of one tree have one default alias. -/
lemma SameTree.defaultAlias?_eq {a b : Operator} (h : SameTree a b) :
    a.defaultAlias? = b.defaultAlias? := by
  cases h
  rfl

/-- The first string among operands does not depend on how scalars are written. -/
lemma head?_values_eq {as bs : List Operand} (h : List.Forall₂ Operand.SameTree as bs) :
    (as.filterMap Operand.value?).head?.bind ScalarValue.string? =
      (bs.filterMap Operand.value?).head?.bind ScalarValue.string? := by
  induction h with
  | nil => rfl
  | @cons x y as bs hxy _ ih =>
    cases hxy with
    | property p => exact ih
    | operator same => exact ih
    | @value v w same =>
      obtain ⟨v, text⟩ := v
      obtain ⟨w, text'⟩ := w
      cases v <;> cases w <;> simp_all [Scalar.same, Operand.value?, ScalarValue.string?]

/-- Operators of one tree declare the same names. -/
lemma SameTree.declared_eq {a b : Operator} (h : SameTree a b) : a.declared = b.declared := by
  have halias := h.defaultAlias?_eq
  cases h with
  | @intro kind property as bs r s hoperands =>
    have htarget : (as.head?.bind Operand.operator?).bind defaultAlias? =
        (bs.head?.bind Operand.operator?).bind defaultAlias? := by
      cases hoperands with
      | nil => rfl
      | cons hxy _ =>
        cases hxy with
        | property p => rfl
        | value same => rfl
        | operator same => exact same.defaultAlias?_eq
    simp only [declared, introduces?, values, htarget, head?_values_eq hoperands, halias]

/-- The children of operators of one tree declare the same names. -/
lemma SameTree.flatMap_declared_eq {a b : Operator} (h : SameTree a b) :
    a.children.flatMap declared = b.children.flatMap declared := by
  cases h with
  | intro hoperands =>
    simp only [children]
    induction hoperands with
    | nil => rfl
    | cons hxy _ ih =>
      cases hxy with
      | property p => exact ih
      | value same => exact ih
      | operator same => simp only [List.filterMap_cons, Operand.operator?, List.flatMap_cons,
          same.declared_eq, ih]

end Operator

namespace Query

/-- Equal clauses have columns of equal names. -/
lemma columnNames_eq {q d : Query} (h : List.Forall₂ Operator.SameTree q.clauses d.clauses) :
    q.columnNames = d.columnNames := by
  unfold columnNames select? clause?
  generalize q.clauses = as at h
  generalize d.clauses = bs at h
  induction h with
  | nil => rfl
  | cons hab _ ih =>
    rw [List.find?_cons, List.find?_cons, hab.kind_eq]
    split
    · exact hab.flatMap_declared_eq
    · exact ih

/-! ## Reading back -/

/-- A query that is read back from its JSON form has its clauses, and the names of its columns. -/
lemma exists_ofJson_toJson {q : Query} (hread : q.IsRead)
    (hwhole : ∀ clause ∈ q.clauses, clause.Everywhere Operator.HoldsWhole) :
    ∃ d, Query.ofJson q.toJson = .ok d ∧ List.Forall₂ Operator.SameTree q.clauses d.clauses ∧
      ∀ name, Table.contains d.aliases name = true ↔ name ∈ q.columnNames := by
  obtain ⟨horder, hwell⟩ := hread.wellFormed
  have hback : ∀ clause ∈ q.clauses, clause.IsReadBack := fun clause hclause =>
    Operator.isReadBack_of_wellFormed clause (hwell clause hclause) (hwhole clause hclause)
  obtain ⟨d, hd, hsame⟩ := succeeds_addMembers q.clauses [] empty .nil horder hback
  rw [List.nil_append] at hsame
  refine ⟨{ d with aliases := d.collectAliases }, ?_, hsame, fun name => ?_⟩
  · rw [toJson_eq_entries horder, ofJson]
    simp only [Json.members?, hd]
    rfl
  · rw [columnNames_eq hsame]
    exact contains_collectAliases

/-- A query that is compiled in any mode is one that was read. -/
lemma isRead_of_mode {mode : Mode} {text : String} {registry : Registry} {ceilings : Ceilings}
    {q : Query} (h : mode.query text registry ceilings = .ok q) : q.IsRead := by
  cases mode with
  | clauses => exact .ofText text registry ceilings h
  | condition => exact .ofCondition text registry ceilings h

/-- A query that was read from a text has all names that are bound in its clauses, and the one that
its JSON form denotes has those that its columns introduce. So both have the same names exactly if
each name that is bound in a clause is introduced by a column. -/
theorem names_ofJson_toJson {mode : Mode} {text : String} {registry : Registry}
    {ceilings : Ceilings} {q : Query} (h : mode.query text registry ceilings = .ok q)
    (hwhole : ∀ clause ∈ q.clauses, clause.Everywhere Operator.HoldsWhole) :
    ∃ d, Query.ofJson q.toJson = .ok d ∧ List.Forall₂ Operator.SameTree q.clauses d.clauses ∧
      (∀ name, Table.contains q.aliases name = true ↔ ∃ clause ∈ q.clauses, clause.Binds name) ∧
      (∀ name, Table.contains d.aliases name = true ↔ name ∈ q.columnNames) ∧
      ((∀ name, Table.contains d.aliases name = Table.contains q.aliases name) ↔
        ∀ clause ∈ q.clauses, ∀ name, clause.Binds name → name ∈ q.columnNames) := by
  obtain ⟨d, hd, hsame, hcolumns⟩ := exists_ofJson_toJson (isRead_of_mode h) hwhole
  have hbound : ∀ name, Table.contains q.aliases name = true ↔
      ∃ clause ∈ q.clauses, clause.Binds name := fun _ => contains_aliases_iff h
  refine ⟨d, hd, hsame, hbound, hcolumns, ?_⟩
  simp only [Bool.eq_iff_iff, hbound, hcolumns]
  constructor
  · intro hall clause hclause name hbinds
    exact (hall name).mpr ⟨clause, hclause, hbinds⟩
  · intro hall name
    constructor
    · exact exists_binds_of_mem_columnNames
    · rintro ⟨clause, hclause, hbinds⟩
      exact hall clause hclause name hbinds

instance (v : ScalarValue) : Decidable v.IsWhole :=
  match h : v.value with
  | .number d => decidable_of_iff (d.toInt64?.isSome = true) (by simp [ScalarValue.IsWhole, h])
  | .string _ | .boolean _ | .null => .isTrue (by simp [ScalarValue.IsWhole, h])

instance : DecidablePred Operator.HoldsWhole := fun op =>
  decidable_of_iff (∀ v ∈ op.values, v.IsWhole) <| by
    simp only [Operator.values, List.mem_filterMap, Operator.HoldsWhole]
    refine forall_congr' fun v => imp_congr_left ⟨?_, fun h => ⟨_, h, rfl⟩⟩
    rintro ⟨operand, hmem, hvalue⟩
    cases operand <;> cases hvalue
    exact hmem

/-- An aggregate in a condition on groups has a default name, by which the rows are ordered. No
column introduces it. -/
theorem names_ofJson_toJson_having :
    ∃ q d, Mode.clauses.query "HAVING COUNT(x) > 5 ORDER BY xCount DESC" .empty {} = .ok q ∧
      Query.ofJson q.toJson = .ok d ∧ Table.contains q.aliases "xCount" = true ∧
      Table.contains d.aliases "xCount" = false := by
  have hsample : (Mode.clauses.query "HAVING COUNT(x) > 5 ORDER BY xCount DESC" .empty
      {}).toOption.any (fun q =>
        decide (∀ clause ∈ q.clauses, clause.Everywhere Operator.HoldsWhole) &&
        Table.contains q.aliases "xCount" && !q.columnNames.contains "xCount") = true := by
    decide +kernel
  rcases hq : Mode.clauses.query "HAVING COUNT(x) > 5 ORDER BY xCount DESC" .empty {} with e | q
  · rw [hq] at hsample
    cases hsample
  · rw [hq] at hsample
    simp only [Except.toOption, Option.any_some, Bool.and_eq_true, decide_eq_true_eq] at hsample
    obtain ⟨⟨hwhole, hbound⟩, hcolumns⟩ := hsample
    obtain ⟨d, hd, -, -, hnames, -⟩ := names_ofJson_toJson hq hwhole
    refine ⟨q, d, rfl, hd, hbound, ?_⟩
    rw [Bool.eq_false_iff, Ne, hnames]
    simpa using hcolumns

end Query

end RecordQuery
