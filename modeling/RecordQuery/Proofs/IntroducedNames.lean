import RecordQuery.Proofs.BookedClauses
import RecordQuery.Proofs.ClauseOrder

/-!
# The names that a text binds

While a text is read, names are bound on the way: an `AS` binds its own when it is settled, and an
aggregate its default name. Nothing else does, and neither kind of operator is dropped once it is
settled. So at any time the names that are bound are those of the operators that were made, and
these are in hand or in a clause. That is a ledger, and reading keeps it. When all is read, the
names that are bound are those that are bound somewhere in the clauses, and these are the clauses of
the query.
-/

namespace RecordQuery

open Reader

variable {name : String}

/-! ## Names in trees -/

namespace Operator

/-- Whether an operator or one beneath it introduces a name. -/
inductive Binds (name : String) : Operator → Prop
  | root {op : Operator} (introduces : op.introduces? = some name) : Binds name op
  | beneath {op child : Operator} (mem : .operator child ∈ op.operands) (binds : Binds name child) :
      Binds name op

end Operator

/-! ## Notes -/

/-- Whether a name is bound in one of some clauses that were noted. -/
def Draft.SomeBinds (name : String) (clauses : List (Kind × Operator)) : Prop :=
  ∃ entry ∈ clauses, entry.2.Binds name

/-- Whether a name is bound exactly if it is in hand so often or in a clause that was noted, no two
of which compete. -/
structure Notes.IsFaithful (name : String) (m : Nat) (n : Notes) : Prop where
  names : n.draft.isAlias name = true ↔ 0 < m ∨ Draft.SomeBinds name n.draft.clauses
  kinds : ∀ entry ∈ n.draft.clauses, entry.2.kind = entry.1
  apart : n.draft.clauses.Pairwise fun a b => a.2.Compatible b.2

namespace Ledger

/-- The ledger of a name. -/
def naming (name : String) : Ledger where
  ofToken _ := 0
  ofName other := if other = name then 1 else 0
  Balances m n := n.IsFaithful name m
  setRole := by
    rintro n token role m hn
    rw [Nat.zero_add] at hn
    exact ⟨hn.names, hn.kinds, hn.apart⟩
  bindAlias := by
    rintro n other target m hn
    refine ⟨?_, hn.kinds, hn.apart⟩
    have hbefore := hn.names
    rw [Draft.isAlias] at hbefore ⊢
    rw [Draft.bind, Table.contains_insertSorted, Bool.or_eq_true, beq_iff_eq, hbefore, ← or_assoc]
    refine or_congr_left ?_
    split
    · rename_i h
      exact iff_of_true (.inl h.symm) (Nat.add_pos_left Nat.one_pos _)
    · rename_i h
      rw [Nat.zero_add]
      exact or_iff_right (Ne.symm h)
  congr := by
    rintro n n' m - haliases hclauses hn
    refine ⟨?_, hclauses ▸ hn.kinds, hclauses ▸ hn.apart⟩
    rw [Draft.isAlias, haliases, hclauses]
    exact hn.names

/-- An operator that binds a name brings it into hand. -/
lemma pos_of_binds {op : Operator} (h : op.Binds name) : 0 < (naming name).ofOperator op := by
  induction h with
  | root introduces =>
    rw [ofOperator_eq, introduces, Option.elim_some]
    exact Nat.add_pos_left (by show 0 < if name = name then 1 else 0; simp) _
  | @beneath op child mem _ ih =>
    obtain ⟨before, after, hoperands⟩ := List.append_of_mem mem
    rw [ofOperator_eq, hoperands, ofOperands_append, ofOperands_cons, ofOperand_operator]
    omega

mutual

/-- An operator that counts for a name binds it. -/
lemma binds_of_pos : (op : Operator) → 0 < (naming name).ofOperator op → op.Binds name
  | ⟨kind, property, operands, span⟩, h => by
    rw [ofOperator] at h
    obtain hown | hoperands := Nat.add_pos_iff_pos_or_pos.mp h
    · cases hother : Operator.introduces? ⟨kind, property, operands, span⟩ with
      | none =>
        rw [hother] at hown
        cases hown
      | some other =>
        rw [hother, Option.elim_some] at hown
        have hname : other = name := by
          by_contra hne
          exact absurd hown (by show ¬ 0 < if other = name then 1 else 0; simp [hne])
        exact .root (hname ▸ hother)
    · obtain ⟨child, hmem, hchild⟩ := exists_of_pos operands hoperands
      exact .beneath hmem hchild

/-- Operands that count for a name have a child that binds it. -/
lemma exists_of_pos : (operands : List Operand) → 0 < (naming name).ofOperands operands →
    ∃ child, .operator child ∈ operands ∧ child.Binds name
  | [], h => by
    rw [ofOperands] at h
    cases h
  | .property _ :: rest, h | .value _ :: rest, h => by
    rw [ofOperands] at h
    obtain ⟨child, hmem, hchild⟩ := exists_of_pos rest h
    exact ⟨child, List.mem_cons_of_mem _ hmem, hchild⟩
  | .operator op :: rest, h => by
    rw [ofOperands] at h
    obtain hop | hrest := Nat.add_pos_iff_pos_or_pos.mp h
    · exact ⟨op, List.mem_cons_self, binds_of_pos op hop⟩
    · obtain ⟨child, hmem, hchild⟩ := exists_of_pos rest hrest
      exact ⟨child, List.mem_cons_of_mem _ hmem, hchild⟩

end

/-- There is a name in an operator exactly if the operator binds it. -/
lemma ofOperator_pos_iff {op : Operator} : 0 < (naming name).ofOperator op ↔ op.Binds name :=
  ⟨binds_of_pos op, pos_of_binds⟩

/-- A name stays bound in a clause that is noted. -/
lemma records_naming (name : String) : (naming name).Records where
  recordClause := by
    rintro n kind clause m hkind hnone hn
    have hclauses : (n.draft.record kind clause).clauses = n.draft.clauses ++ [(kind, clause)] :=
      Clause.recordIn_eq_append clause hnone
    refine ⟨?_, ?_, ?_⟩
    · have hnames : n.draft.isAlias name = true ↔ _ := hn.names
      rw [Nat.add_pos_iff_pos_or_pos, ofOperator_pos_iff] at hnames
      rw [hclauses]
      refine hnames.trans ?_
      simp only [Draft.SomeBinds, List.mem_append, List.mem_singleton, or_and_right, exists_or,
        exists_eq_left]
      exact Iff.of_eq (by ac_rfl)
    · rw [hclauses]
      intro entry hentry
      rcases List.mem_append.mp hentry with hentry | hentry
      · exact hn.kinds entry hentry
      · rw [List.mem_singleton.mp hentry]
        exact hkind
    · rw [hclauses]
      refine List.pairwise_append.mpr ⟨hn.apart, List.pairwise_singleton _ _, fun a ha b hb => ?_⟩
      rw [List.mem_singleton.mp hb, Operator.Compatible, hn.kinds a ha, hkind]
      exact hnone a ha

end Ledger

namespace TokenTree

mutual

/-- Trees ask for nothing where tokens are worth nothing. -/
lemma asked_zero : (tree : TokenTree) → tree.asked (fun _ => 0) = 0
  | ⟨token, children, _⟩ => by
    have hchildren := askedOf_zero children
    rw [asked, hchildren]
    split
    · rfl
    · split
      · rfl
      · split <;> split <;> rfl

/-- Where no token is worth anything, nothing is asked. -/
lemma askedOf_zero : (trees : List TokenTree) → askedOf (fun _ => 0) trees = 0
  | [] => by rw [askedOf]
  | tree :: rest => by rw [askedOf, asked_zero tree, askedOf_zero rest]

end

end TokenTree

/-- Where a text is read, the names that are bound are those in the clauses that were noted. -/
lemma Mode.isFaithful_body (mode : Mode) {s : Setting} {trees : List TokenTree} {n n' : Notes}
    (h : on (mode.body s (TokenTree.elements s trees)) n = (.ok (), n'))
    (hempty : n.draft.clauses = []) (hn : n.IsFaithful name 0) : n'.IsFaithful name 0 := by
  have hzero : TokenTree.askedOf (Ledger.naming name).ofToken trees = 0 :=
    TokenTree.askedOf_zero trees
  have howe := Ledger.owe_elements (L := .naming name) s trees
  rw [hzero] at howe
  have hstart : (Ledger.naming name).Balances (0 + 0) n := hn
  have hsettled := (Ledger.records_naming name).body mode s howe hempty hstart
  rw [h] at hsettled
  obtain ⟨_, rfl | rfl, hnotes⟩ := hsettled <;> exact hnotes

namespace Query

/-- The names of a query that was read from a text are those that its clauses bind. -/
theorem contains_aliases_iff {mode : Mode} {text : String} {registry : Registry}
    {ceilings : Ceilings} {q : Query} (h : mode.query text registry ceilings = .ok q) :
    Table.contains q.aliases name = true ↔ ∃ clause ∈ q.clauses, clause.Binds name := by
  rw [Mode.query_eq] at h
  cases hforest : TokenForest.ofText text ceilings with
  | error e =>
    rw [Reading.start, hforest] at h
    cases h
  | ok forest =>
    rw [Reading.start, hforest] at h
    change Reading.compile _ _ = _ at h
    rw [Reading.compile_eq] at h
    split at h
    · rename_i notes hbody
      cases h
      have hstart : Notes.IsFaithful name 0 { draft := { problems := forest.problems } } :=
        ⟨by simp [Draft.SomeBinds, Draft.isAlias, Table.contains], by simp, .nil⟩
      have hnotes := mode.isFaithful_body hbody rfl hstart
      rw [aliases_ofDraft, clauses_ofDraft_eq_remaining]
      simp only [mem_remaining_of_pairwise hnotes.apart, exists_exists_and_eq_and]
      exact hnotes.names.trans (or_iff_right (Nat.lt_irrefl 0))
    · cases h

end Query

end RecordQuery
