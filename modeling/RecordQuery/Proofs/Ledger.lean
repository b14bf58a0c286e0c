import RecordQuery.Proofs.Guards
import RecordQuery.Proofs.Names

/-!
# Books on what readings use up

Some things are neither lost nor doubled while a text is read. A token that stands for itself is
held by an item until it is noted what the token was read as; a name that was bound stays with the
operator that introduces it. A *ledger* says how much of such a thing there is in a token and in a
name, and which notes agree with how much of it is in hand.

`Ledger.Keeps` says that a reading keeps the books: what was in hand before it and what comes of it
have been noted, or are in hand afterwards. What lies aside while the reading goes on stays in hand.
A reading that fails may let go of what it would have come to.

There is one lemma for each way to read. What is not in any of them can be neither lost nor doubled:
a reading that drops an item without a look at it, or that looks at it twice, has no such lemma.
-/

namespace RecordQuery

open Reader

/-- Books on something that readings hold, note and make. -/
structure Ledger where
  /-- How much of it a token holds that stands for itself. -/
  ofToken : Token → Nat
  /-- How much of it comes with an operator that introduces a name. -/
  ofName : String → Nat
  /-- Whether notes agree with how much of it is in hand. -/
  Balances : Nat → Notes → Prop
  /-- A token is no more in hand when it is noted what it was read as. -/
  setRole : ∀ {n : Notes} {token : Token} {role : Role} {m : Nat}, Balances (ofToken token + m) n →
    Balances m { n with roles := (token.id, role) :: n.roles }
  /-- A name comes into hand when it is bound. -/
  bindAlias : ∀ {n : Notes} {name : String} {target : Operand} {m : Nat}, Balances m n →
    Balances (ofName name + m) { n with draft := n.draft.bind name target }
  /-- Other notes do not matter. -/
  congr : ∀ {n n' : Notes} {m : Nat}, n'.roles = n.roles → n'.draft.aliases = n.draft.aliases →
    n'.draft.clauses = n.draft.clauses → Balances m n → Balances m n'

namespace Ledger

variable (L : Ledger) {ε δ α β : Type} {owed owed' owed'' aside : Nat} {R : α → Nat → Prop}
  {S : β → Nat → Prop} {held : α → Nat}

/-- Whether the books balance when a reading has come to an end, with what its result holds and with
what lies aside. A reading that has failed may have let go of something. -/
def Settled (R : α → Nat → Prop) (aside : Nat) : Except ε α × Notes → Prop
  | (.ok a, n) => ∃ m, R a m ∧ L.Balances (m + aside) n
  | (.error _, n) => ∃ lost, L.Balances (lost + aside) n

/-- Whether a reading keeps the books: what it is owed is noted, or is in hand with what it comes
to. No such reading records a clause. -/
def Keeps (owed : Nat) (R : α → Nat → Prop) (reading : Reader ε α) : Prop :=
  ∀ aside n, L.Balances (owed + aside) n →
    L.Settled R aside (on reading n) ∧ (on reading n).2.draft.clauses = n.draft.clauses

/-- Whether a reading keeps the books, where it is known how much its result holds. -/
abbrev Passes (owed : Nat) (held : α → Nat) (reading : Reader ε α) : Prop :=
  L.Keeps owed (fun a m => m = held a) reading

/-- Whether a reading uses up what it is owed. -/
abbrev Uses (owed : Nat) (reading : Reader ε α) : Prop := L.Passes owed (fun _ => 0) reading

variable {L}

/-- A settled outcome may be said to owe what follows from what it owes. -/
lemma Settled.mono {R' : α → Nat → Prop} {outcome : Except ε α × Notes}
    (h : L.Settled R aside outcome) (hR : ∀ a m, R a m → R' a m) : L.Settled R' aside outcome := by
  obtain ⟨e | a, n⟩ := outcome
  · exact h
  · exact h.imp fun m hm => hm.imp_left (hR a m)

/-- The books balance in the end, however a reading ends. -/
lemma Settled.exists_balances {outcome : Except ε α × Notes} (h : L.Settled R aside outcome) :
    ∃ m, L.Balances (m + aside) outcome.2 := by
  obtain ⟨e | a, n⟩ := outcome
  · exact h
  · exact h.imp fun _ hm => hm.2

/-- Where the first step of a reading ends, the others go on. -/
lemma Settled.goOn {outcome : Except ε α × Notes} {next : α → Reader ε β}
    (h : L.Settled R aside outcome)
    (hnext : ∀ a m, R a m → ∀ n, L.Balances (m + aside) n → L.Settled S aside (on (next a) n)) :
    L.Settled S aside (goOn outcome next) := by
  obtain ⟨e | a, n⟩ := outcome
  · exact h
  · obtain ⟨m, hm, hn⟩ := h
    exact hnext a m hm n hn

namespace Keeps

/-- What a reading takes over may be written in another way. -/
lemma of_eq {reading : Reader ε α} (h : L.Keeps owed R reading) (howed : owed' = owed) :
    L.Keeps owed' R reading := howed ▸ h

/-- A result owes what was taken over. -/
lemma pure {a : α} (h : R a owed) : L.Keeps owed R (pure a : Reader ε α) :=
  fun _ _ hn => ⟨⟨owed, h, hn⟩, rfl⟩

/-- Nothing is asked of a reading that fails. -/
lemma throw {e : ε} : L.Keeps owed R (throw e : Reader ε α) := fun _ _ hn => ⟨⟨owed, hn⟩, rfl⟩

/-- A reading that fails notes nothing, whatever was to come after it. -/
lemma stop {e : ε} {next : α → Reader ε β} : L.Keeps owed S (MonadExcept.throw e >>= next) := by
  intro aside n hn
  rw [on_bind, on_throw, goOn_error]
  exact ⟨⟨owed, hn⟩, rfl⟩

/-- What is owed to a reading in steps is owed to the first step, or to the others. -/
lemma bind {reading : Reader ε α} {next : α → Reader ε β} (h : L.Keeps owed R reading)
    (hnext : ∀ a m, R a m → L.Keeps (m + owed') S (next a)) (howed : owed'' = owed + owed') :
    L.Keeps owed'' S (reading >>= next) := by
  intro aside n hn
  rw [howed, Nat.add_assoc] at hn
  obtain ⟨hfirst, hclauses⟩ := h (owed' + aside) n hn
  rw [on_bind]
  rcases hr : on reading n with ⟨e | a, middle⟩ <;> rw [hr] at hfirst hclauses
  · obtain ⟨lost, hlost⟩ := hfirst
    exact ⟨⟨lost + owed', by rwa [Nat.add_assoc]⟩, hclauses⟩
  · obtain ⟨m, hm, hmiddle⟩ := hfirst
    obtain ⟨hlater, hclauses'⟩ := hnext a m hm aside middle (by rwa [Nat.add_assoc])
    exact ⟨hlater, hclauses'.trans hclauses⟩

/-- A first step that is owed all. -/
lemma bind_all {reading : Reader ε α} {next : α → Reader ε β} (h : L.Keeps owed R reading)
    (hnext : ∀ a m, R a m → L.Keeps m S (next a)) : L.Keeps owed S (reading >>= next) :=
  h.bind (fun a m hm => (hnext a m hm).of_eq (Nat.add_zero m)) (Nat.add_zero owed).symm

/-- Facts about what a reading comes to. -/
lemma ensures {P : α → Prop} {reading : Reader ε α} (h : L.Keeps owed R reading)
    (hP : Ensures P reading) : L.Keeps owed (fun a m => R a m ∧ P a) reading := by
  intro aside n hn
  obtain ⟨hsettled, hclauses⟩ := h aside n hn
  refine ⟨?_, hclauses⟩
  rcases hr : on reading n with ⟨e | a, n'⟩ <;> rw [hr] at hsettled
  · exact hsettled
  · obtain ⟨m, hm, hn'⟩ := hsettled
    exact ⟨m, ⟨hm, hP n a n' hr⟩, hn'⟩

/-- Keeping the books has nothing to do with how failures are reported. -/
lemma adapt {f : ε → δ} {reading : Reader ε α} (h : L.Keeps owed R reading) :
    L.Keeps owed R (ExceptT.adapt f reading) := by
  intro aside n hn
  have hreading := h aside n hn
  rw [on_adapt]
  rcases hr : on reading n with ⟨e | a, n'⟩ <;> rw [hr] at hreading <;> exact hreading

end Keeps

/-- A first step that it is known of how much its result holds. -/
lemma Passes.bind {reading : Reader ε α} {next : α → Reader ε β} (h : L.Passes owed held reading)
    (hnext : ∀ a, L.Keeps (held a + owed') S (next a)) (howed : owed'' = owed + owed') :
    L.Keeps owed'' S (reading >>= next) :=
  Keeps.bind h (by rintro a _ rfl; exact hnext a) howed

/-- What the first step passes on is what the second one takes over. -/
lemma Passes.bind_all {reading : Reader ε α} {next : α → Reader ε β}
    (h : L.Passes owed held reading)
    (hnext : ∀ a, L.Keeps (held a) S (next a)) : L.Keeps owed S (reading >>= next) :=
  Passes.bind h (fun a => (hnext a).of_eq (Nat.add_zero _)) (Nat.add_zero owed).symm

/-- A first step that uses up what it is owed. -/
lemma Uses.bind {reading : Reader ε α} {next : α → Reader ε β} (h : L.Uses owed reading)
    (hnext : ∀ a, L.Keeps owed' S (next a)) (howed : owed'' = owed + owed') :
    L.Keeps owed'' S (reading >>= next) :=
  Passes.bind h (fun a => (hnext a).of_eq (Nat.zero_add _)) howed

/-- A first step that is owed nothing, and leaves nothing. -/
lemma Uses.bind_after {reading : Reader ε α} {next : α → Reader ε β} (h : L.Uses 0 reading)
    (hnext : ∀ a, L.Keeps owed' S (next a)) : L.Keeps owed' S (reading >>= next) :=
  Uses.bind h hnext (Nat.zero_add _).symm

/-! ## Notes -/

/-- Looking at the notes needs nothing. -/
lemma uses_get : L.Uses 0 (get : Reader ε Notes) :=
  fun _ _ hn => ⟨⟨0, rfl, hn⟩, rfl⟩

/-- Taking a note of another sort. -/
lemma uses_modify {f : Notes → Notes} (hroles : ∀ n, (f n).roles = n.roles)
    (haliases : ∀ n, (f n).draft.aliases = n.draft.aliases)
    (hclauses : ∀ n, (f n).draft.clauses = n.draft.clauses) :
    L.Uses 0 (modify f : Reader ε Unit) :=
  fun _ n hn => ⟨⟨0, rfl, L.congr (hroles n) (haliases n) (hclauses n) hn⟩, hclauses n⟩

/-- Giving a token its role settles what the token costs. -/
lemma uses_setRole (token : Token) (role : Role) :
    L.Uses (L.ofToken token) (Parse.setRole token role) := by
  intro aside n hn
  exact ⟨⟨0, rfl, by rw [Nat.zero_add]; exact L.setRole hn⟩, rfl⟩

/-- Binding a name takes nothing over, and has the name in hand afterwards. -/
lemma passes_bindAlias (name : String) (target : Operand) :
    L.Passes 0 (fun _ => L.ofName name) (Parse.bindAlias name target) := by
  intro aside n hn
  rw [Nat.zero_add] at hn
  exact ⟨⟨_, rfl, L.bindAlias hn⟩, rfl⟩

/-- Noting a phrase needs nothing. -/
lemma uses_recordPhrase (anchor : Token) (span : Span) (op : Operator) :
    L.Uses 0 (Parse.recordPhrase anchor span op) :=
  uses_modify (fun _ => rfl) (fun _ => rfl) fun _ => rfl

/-- Noting that a token opens a list needs nothing. -/
lemma uses_markOpened (token : Token) : L.Uses 0 (Parse.markOpened token) :=
  uses_modify (fun _ => rfl) (fun _ => rfl) fun _ => rfl

/-! ## Operators -/

section

variable (L)

mutual

/-- How much there is in an operator and those beneath it. -/
def ofOperator : Operator → Nat
  | ⟨kind, property, operands, span⟩ =>
    (Operator.introduces? ⟨kind, property, operands, span⟩).elim 0 L.ofName + ofOperands operands

/-- How much there is in some operands. -/
def ofOperands : List Operand → Nat
  | [] => 0
  | .property _ :: rest => ofOperands rest
  | .value _ :: rest => ofOperands rest
  | .operator op :: rest => ofOperator op + ofOperands rest

end

/-- How much there is in an operand. -/
def ofOperand : Operand → Nat
  | .operator op => L.ofOperator op
  | _ => 0

end

@[simp] lemma ofOperand_property (p : PropertyRef) : L.ofOperand (.property p) = 0 := rfl

@[simp] lemma ofOperand_value (v : ScalarValue) : L.ofOperand (.value v) = 0 := rfl

@[simp] lemma ofOperand_operator (op : Operator) : L.ofOperand (.operator op) = L.ofOperator op :=
  rfl

/-- An operator holds the name that it introduces, if any, and what its operands hold. -/
lemma ofOperator_eq (op : Operator) :
    L.ofOperator op = op.introduces?.elim 0 L.ofName + L.ofOperands op.operands := by
  obtain ⟨kind, property, operands, span⟩ := op
  rw [ofOperator]

@[simp] lemma ofOperands_nil : L.ofOperands [] = 0 := by rw [ofOperands]

@[simp] lemma ofOperands_cons (x : Operand) (operands : List Operand) :
    L.ofOperands (x :: operands) = L.ofOperand x + L.ofOperands operands := by
  cases x <;> simp [ofOperands, ofOperand]

@[simp] lemma ofOperands_append (operands others : List Operand) :
    L.ofOperands (operands ++ others) = L.ofOperands operands + L.ofOperands others := by
  induction operands with
  | nil => simp
  | cons x rest ih => rw [List.cons_append, ofOperands_cons, ofOperands_cons, ih, Nat.add_assoc]

@[simp] lemma ofOperator_withSpan (op : Operator) (span : Span) :
    L.ofOperator (op.withSpan span) = L.ofOperator op := by
  rw [ofOperator_eq, ofOperator_eq]
  rfl

/-- There is no more in an operator that introduces no name than in its operands. -/
lemma ofOperator_of_family {op : Operator} (h : op.kind.family ≠ .projection) :
    L.ofOperator op = L.ofOperands op.operands := by
  rw [ofOperator_eq, Operator.introduces?_eq_none h, Option.elim_none, Nat.zero_add]

/-- What there is in a comparison or a membership test is in its parts. -/
lemma ofOperator_about {kind : Kind} (h : kind.family ≠ .projection) (subject : Operand)
    (operands : List Operand) :
    L.ofOperator ((Operator.about kind subject).withOperands operands) =
      L.ofOperand subject + L.ofOperands operands := by
  have hkind : ((Operator.about kind subject).withOperands operands).kind.family ≠ .projection := by
    cases subject <;> exact h
  rw [ofOperator_of_family hkind]
  cases subject <;> simp [Operator.about, Operator.withOperands]

/-! ## Items -/

section

variable (L)

mutual

/-- How much there is in an item: in the token that it is, in its parameters, or in the operator
that was made of it. -/
def ofItem : Item → Nat
  | ⟨token, _, .raw⟩ => L.ofToken token
  | ⟨_, _, .pending _ none⟩ => 0
  | ⟨_, _, .pending kind (some items)⟩ => if kind.isFunction then ofItems items else 0
  | ⟨_, _, .node x⟩ => L.ofOperand x

/-- How much there is in some items. -/
def ofItems : List Item → Nat
  | [] => 0
  | item :: rest => ofItem item + ofItems rest

end

/-- How much there is in an item, if there is one. -/
def ofOption (one : Option Item) : Nat := one.elim 0 L.ofItem

end

@[simp] lemma ofItem_raw (token : Token) (span : Span) :
    L.ofItem ⟨token, span, .raw⟩ = L.ofToken token := by rw [ofItem]

@[simp] lemma ofItem_node (token : Token) (span : Span) (x : Operand) :
    L.ofItem ⟨token, span, .node x⟩ = L.ofOperand x := by rw [ofItem]

@[simp] lemma ofItems_nil : L.ofItems [] = 0 := by rw [ofItems]

@[simp] lemma ofItems_cons (item : Item) (items : List Item) :
    L.ofItems (item :: items) = L.ofItem item + L.ofItems items := by rw [ofItems]

@[simp] lemma ofItems_append (items others : List Item) :
    L.ofItems (items ++ others) = L.ofItems items + L.ofItems others := by
  induction items with
  | nil => simp
  | cons item rest ih => rw [List.cons_append, ofItems_cons, ofItems_cons, ih, Nat.add_assoc]

@[simp] lemma ofItems_reverse (items : List Item) : L.ofItems items.reverse = L.ofItems items := by
  induction items with
  | nil => rfl
  | cons item rest ih => simp [ih, Nat.add_comm]

@[simp] lemma ofOption_none : L.ofOption none = 0 := rfl

@[simp] lemma ofOption_some (item : Item) : L.ofOption (some item) = L.ofItem item := rfl

/-- An operator that waits to be settled holds what its parameters hold, if it is a function. -/
lemma ofItem_pending (token : Token) (span : Span) (kind : Kind) (parameters : Option (List Item)) :
    L.ofItem ⟨token, span, .pending kind parameters⟩ =
      if kind.isFunction then parameters.elim 0 L.ofItems else 0 := by
  cases parameters with
  | none => rw [ofItem, Option.elim_none, ite_self]
  | some items => rw [ofItem, Option.elim_some]

@[simp] lemma ofItem_withSpan (item : Item) (span : Span) :
    L.ofItem { item with span } = L.ofItem item := by
  obtain ⟨token, span', _ | ⟨kind, parameters⟩ | x⟩ := item
  · rw [ofItem_raw, ofItem_raw]
  · rw [ofItem_pending, ofItem_pending]
  · rw [ofItem_node, ofItem_node]

/-- What there is in a condition is in its operator. -/
lemma ofItem_of_condition? {item : Item} {op : Operator} (h : item.condition? = some op) :
    L.ofItem item = L.ofOperator op := by
  obtain ⟨token, span, term⟩ := item
  unfold Item.condition? at h
  dsimp only at h
  split at h
  · split at h <;> cases h
    exact ofItem_node _ _ _
  · cases h

variable {s : Setting}

/-- Reading a token as a property settles it. -/
lemma uses_property (item : Item) : L.Uses (L.ofItem item) (item.property s) := by
  obtain ⟨token, span, term⟩ := item
  unfold Item.property
  dsimp only
  split
  case h_1 | h_2 =>
    refine uses_get.bind_after fun notes => ?_
    exact (uses_setRole token .property).bind (fun _ => .pure rfl) (ofItem_raw _ _)
  case h_3 => exact .pure (ofItem_node _ _ _)
  case h_4 => exact .throw

/-- An item that can only be a property. -/
lemma passes_property (item : Item) :
    L.Passes (L.ofItem item) L.ofOperand (do return .property (← item.property s)) :=
  (uses_property item).bind_all fun _ => .pure rfl

/-- Reading an item as a subject settles its token, or passes on what is in its operator. -/
lemma passes_subject (item : Item) : L.Passes (L.ofItem item) L.ofOperand (item.subject s) := by
  unfold Item.subject
  split
  · rename_i op hterm
    split
    · exact passes_property item
    · obtain ⟨token, span, term⟩ := item
      cases hterm
      exact .pure (ofItem_node _ _ _)
  · exact passes_property item

/-- A subject is no scalar. -/
lemma ensures_subject (item : Item) : Ensures (fun x => x.value? = none) (item.subject s) := by
  have hproperty : Ensures (fun x : Operand => x.value? = none)
      (do return Operand.property (← item.property s)) :=
    Ensures.trivial.bind fun _ _ => .pure rfl
  unfold Item.subject
  split
  · split
    · exact hproperty
    · exact .pure rfl
  · exact hproperty

/-- Reading an item as an expression settles its token, or passes on what is in its operator. -/
lemma passes_expression (item : Item) :
    L.Passes (L.ofItem item) L.ofOperand (item.expression s) := by
  unfold Item.expression
  split
  · rename_i op hterm
    obtain ⟨token, span, term⟩ := item
    cases hterm
    exact .pure (ofItem_node _ _ _)
  · exact passes_property item

/-- Reading a token as a value settles it. -/
lemma uses_value (item : Item) (allowed : List ScalarType) :
    L.Uses (L.ofItem item) (item.value s allowed) := by
  obtain ⟨token, span, term⟩ := item
  unfold Item.value
  dsimp only
  split
  case h_1 | h_2 | h_3 =>
    split
    · exact .throw
    · exact (uses_setRole token .value).bind (fun _ => .pure rfl) (ofItem_raw _ _)
  case h_4 => exact .pure (ofItem_node _ _ _)
  case h_5 => exact .throw

/-- Reading a token as a word settles it. -/
lemma uses_word (item : Item) (role : Role) : L.Uses (L.ofItem item) (item.word s role) := by
  obtain ⟨token, span, term⟩ := item
  unfold Item.word
  dsimp only
  split
  case h_1 | h_2 | h_3 =>
    exact (uses_setRole token role).bind (fun _ => .pure rfl) (ofItem_raw _ _)
  case h_4 => exact .throw

/-- Reading an item as a condition passes on what is in the condition. -/
lemma passes_condition (item : Item) :
    L.Passes (L.ofItem item) L.ofOperator (item.condition s) := by
  unfold Item.condition
  split
  · rename_i op hop
    exact .pure (ofItem_of_condition? hop)
  · exact .throw

end Ledger

end RecordQuery
