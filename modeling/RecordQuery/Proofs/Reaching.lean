import RecordQuery.Proofs.BookedClauses

/-!
# What is read of the source

A token that stands for itself is held by an item until it is noted what the token was read as, so
how often it is held and how often it has been read are the two sides of one ledger. A token tree
asks for the token if it is its root, or is asked for by a tree in its parentheses, as long as these
are read at all: those of a group and those of a function are. When all clauses of a text have been
read, nothing is held any more, and what was asked for has been read.
-/

namespace RecordQuery

open Reader

namespace Token

/-- Whether a token stands for itself: it is no keyword, separates nothing and is no group. -/
def IsBare (token : Token) : Prop :=
  token.rule = none ∧ token.isDelimiter = false ∧ token.kind ≠ .group

/-- Whether the list of a token is read: that of a group, and that of a word that is no keyword or
the keyword of a function. -/
def ReadsList (token : Token) : Prop :=
  token.kind = .group ∨
    (token.isDelimiter = false ∧ ∀ kind, token.rule = some kind → kind.isFunction = true)

end Token

/-- Whether a tree asks for a token to be read. -/
inductive TokenTree.Asks (t : Token) : TokenTree → Prop
  | root {children absorbed : List TokenTree} (bare : t.IsBare) : Asks t ⟨t, children, absorbed⟩
  | beneath {token : Token} {children absorbed : List TokenTree} {child : TokenTree}
      (readsList : token.ReadsList) (hasChildren : token.hasChildren = true)
      (mem : child ∈ children) (asks : Asks t child) : Asks t ⟨token, children, absorbed⟩

/-- How often it is noted what the token of a number was read as. -/
def Notes.timesRead (notes : Notes) (id : Nat) : Nat := (notes.roles.map Prod.fst).count id

/-- A token that is read at least once has a role. -/
lemma Notes.role?_isSome_of_timesRead {n : Notes} {t : Token} (h : 0 < n.timesRead t.id) :
    (n.role? t).isSome := by
  rw [Notes.role?, Option.isSome_iff_ne_none, ne_eq, List.lookup_eq_none_iff]
  intro hnone
  obtain ⟨entry, hentry, hid⟩ := List.mem_map.mp (List.count_pos_iff.mp h)
  simpa [hid] using hnone entry hentry

namespace TokenTree

/-- One for the token of a number, and nothing for any other. -/
def countId (id : Nat) (token : Token) : Nat := if token.id = id then 1 else 0

variable {id : Nat}

mutual

/-- A tree asks for a token no more often than the tree has it. -/
lemma asked_countId_le : (tree : TokenTree) →
    tree.asked (countId id) ≤ (tree.tokens.map Token.id).count id
  | ⟨token, children, absorbed⟩ => by
    have hchildren := askedOf_countId_le children
    rw [asked, tokens]
    simp only [List.map_cons, List.map_append, List.count_cons, List.count_append, beq_iff_eq,
      countId]
    split
    · exact Nat.zero_le _
    · split
      · omega
      · split
        · split <;> omega
        · generalize (if token.id = id then 1 else 0) = own
          split <;> omega

/-- Some trees ask for a token no more often than they have it. -/
lemma askedOf_countId_le : (trees : List TokenTree) →
    askedOf (countId id) trees ≤ ((tokensOf trees).map Token.id).count id
  | [] => by
    rw [askedOf]
    exact Nat.zero_le _
  | tree :: rest => by
    rw [askedOf, tokensOf, List.map_append, List.count_append]
    exact Nat.add_le_add (asked_countId_le tree) (askedOf_countId_le rest)

end

/-- A sequence asks for what one of its trees asks for. -/
lemma askedOf_pos {worth : Token → Nat} {tree : TokenTree} {trees : List TokenTree}
    (hmem : tree ∈ trees) (h : 0 < tree.asked worth) : 0 < askedOf worth trees := by
  induction trees with
  | nil => cases hmem
  | cons first rest ih =>
    rw [askedOf]
    obtain rfl | hrest := List.mem_cons.mp hmem
    · exact Nat.add_pos_left h _
    · exact Nat.add_pos_right _ (ih hrest)

/-- A tree that asks for a token asks for it once at least. -/
lemma Asks.pos {t : Token} {tree : TokenTree} (h : tree.Asks t) :
    0 < tree.asked (countId t.id) := by
  induction h with
  | root bare =>
    obtain ⟨hrule, hdelimiter, hgroup⟩ := bare
    rw [asked, hdelimiter, if_neg Bool.false_ne_true, if_neg hgroup, hrule]
    exact Nat.add_pos_left (by rw [countId, if_pos rfl]; exact Nat.one_pos) _
  | @beneath token children _ child readsList hasChildren mem _ ih =>
    have hchildren := askedOf_pos mem ih
    rw [asked]
    obtain hgroup | ⟨hdelimiter, hfunction⟩ := readsList
    · simpa [Token.isDelimiter, hgroup] using hchildren
    · rw [hdelimiter, if_neg Bool.false_ne_true, hasChildren]
      split
      · exact hchildren
      · cases hrule : token.rule with
        | some kind => simpa [hfunction kind hrule] using hchildren
        | none => exact Nat.add_pos_right _ hchildren

end TokenTree

/-! ## The ledger of a token -/

namespace Ledger

open TokenTree

/-- The ledger of the token of a number, which is in hand or has been read so often in all. -/
def reading (id total : Nat) : Ledger where
  ofToken := countId id
  ofName _ := 0
  Balances m n := m + n.timesRead id = total
  setRole := by
    rintro n token role m hn
    rw [← hn, Notes.timesRead, Notes.timesRead, List.map_cons, List.count_cons, countId]
    simp only [beq_iff_eq]
    omega
  bindAlias := by
    rintro n name target m hn
    rwa [Nat.zero_add]
  congr := by
    rintro n n' m hroles - - hn
    rwa [Notes.timesRead, hroles]

mutual

/-- Where there is nothing in a name, there is nothing in an operator. -/
lemma ofOperator_eq_zero {L : Ledger} (h : ∀ name, L.ofName name = 0) :
    (op : Operator) → L.ofOperator op = 0
  | ⟨kind, property, operands, span⟩ => by
    rw [ofOperator, ofOperands_eq_zero h operands]
    cases Operator.introduces? ⟨kind, property, operands, span⟩ with
    | none => rfl
    | some name => exact h name

/-- A ledger without names finds nothing in operands. -/
lemma ofOperands_eq_zero {L : Ledger} (h : ∀ name, L.ofName name = 0) :
    (operands : List Operand) → L.ofOperands operands = 0
  | [] => by rw [ofOperands]
  | .property _ :: rest | .value _ :: rest => by rw [ofOperands, ofOperands_eq_zero h rest]
  | .operator op :: rest => by
    rw [ofOperands, ofOperator_eq_zero h op, ofOperands_eq_zero h rest]

end

/-- The ledger of how often a token is read is kept when clauses are noted. -/
lemma records_reading (id total : Nat) : (reading id total).Records where
  recordClause := by
    rintro n kind clause m - - hn
    rwa [ofOperator_eq_zero (fun _ => rfl), Nat.zero_add] at hn

end Ledger

open TokenTree

variable {s : Setting} {trees : List TokenTree} {n n' : Notes}

/-- A token is read as often as it is asked for, where all clauses are read. -/
lemma Clause.timesRead_of_readAll (h : on (readAll s (elements s trees)) n = (.ok (), n'))
    (id : Nat) : n'.timesRead id = askedOf (countId id) trees + n.timesRead id := by
  let L := Ledger.reading id (askedOf (countId id) trees + n.timesRead id)
  have hn : L.Balances (askedOf (countId id) trees + 0) n := rfl
  have hsettled := (Ledger.records_reading id _).readAll s _ (Ledger.owe_elements s trees) hn
  rw [h] at hsettled
  obtain ⟨_, rfl, htimes⟩ := hsettled
  exact (Nat.zero_add _).symm.trans htimes

/-- A token is read no more often than it is asked for, whether the reading succeeds or fails. -/
lemma Mode.timesRead_body_le (mode : Mode) (hempty : n.draft.clauses = []) (id : Nat) :
    (on (mode.body s (elements s trees)) n).2.timesRead id ≤
      askedOf (countId id) trees + n.timesRead id := by
  let L := Ledger.reading id (askedOf (countId id) trees + n.timesRead id)
  have hn : L.Balances (askedOf (countId id) trees + 0) n := rfl
  have hsettled := (Ledger.records_reading id _).body mode s (Ledger.owe_elements s trees) hempty hn
  obtain ⟨m, htimes⟩ := hsettled.exists_balances
  exact (Nat.le_add_left _ _).trans htimes.le

end RecordQuery
