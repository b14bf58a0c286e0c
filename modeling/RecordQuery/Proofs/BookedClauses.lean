import RecordQuery.Proofs.BookedGroups
import RecordQuery.Proofs.Compiling

/-!
# Books on clauses

The body of a clause takes elements from the front and leaves the others, and what it takes is in
the clause that it is read as. A clause that is read is noted behind those that were there, since
one that competes with another is refused. So if the books also balance when such a clause passes
from hand into the notes, reading a whole text keeps them.
-/

namespace RecordQuery

open Reader Phrase Clause

namespace Clause

/-- A clause is of the kind that its keyword says. -/
lemma ensures_produce_kind {s : Setting} {es : List Element} {kind : Kind} (family : Family)
    (keyword : Element) :
    Ensures (fun made => made.1.kind = kind) (produce s family kind keyword es) := by
  have hprojection : ∀ kind, Ensures (fun made => made.1.kind = kind)
      (projection s kind keyword.token es) := fun kind =>
    Ensures.trivial.bind fun _ _ => Ensures.trivial.bind fun _ _ => .pure rfl
  have hcondition : ∀ kind, Ensures (fun made => made.1.kind = kind)
      (condition s kind keyword.token es) := by
    intro kind
    refine Ensures.trivial.bind fun drawn _ => ?_
    obtain ⟨_ | item, left⟩ := drawn
    · exact .throw
    · dsimp only
      split
      · exact .pure rfl
      · exact .throw
  have htimeRange : Ensures (fun op => op.kind = .timeRange) (timeRange s keyword) := by
    unfold timeRange
    dsimp only
    split <;>
      exact Ensures.trivial.bind fun _ _ => Ensures.trivial.bind fun _ _ =>
        Ensures.trivial.bind fun _ _ => .pure rfl
  unfold produce
  split
  · split
    · exact hprojection _
    · exact hprojection _
    · exact hprojection _
    · exact hcondition _
    · exact hcondition _
    · exact Ensures.trivial.bind fun _ _ => .pure rfl
    · refine Ensures.trivial.bind fun item _ => ?_
      cases item with
      | none => exact .throw
      | some item =>
        refine Ensures.trivial.bind fun value _ => ?_
        split
        · exact .pure rfl
        · exact .throw
    · exact Ensures.bind htimeRange fun op hop => .pure hop
    · exact .throw
  · exact .throw

end Clause

namespace Ledger

variable {L : Ledger} {s : Setting} {es : List Element} {keyword : Element} {kind : Kind}
  {k m : Nat}

/-! ## Bodies of clauses -/

/-- Reading a list takes in hand what its phrases owe, and leaves the rest. -/
lemma keeps_commaList (s : Setting) (kind : Kind) (token : Token) :
    (es : List Element) → {k : Nat} → L.Owe es k →
      L.Keeps k (L.WithRest L.ofItems) (commaList s kind token es)
  | es, k, h => by
    rw [commaList_eq]
    obtain ⟨a, b, hrun, hafter, rfl⟩ := h.exists_run
    refine Passes.bind (passes_drawOne hrun).adapt (fun drawn => ?_) rfl
    cases drawn with
    | none => exact .throw
    | some item =>
      have hone : L.ofItems [item] = L.ofItem item := by simp
      cases hcons : afterRun es with
      | nil =>
        rw [hcons] at hafter
        exact .pure ⟨b, hafter, by rw [hone]; rfl⟩
      | cons e rest =>
        rw [hcons] at hafter
        dsimp only
        split
        · rename_i hcomma
          have hrest := hafter.of_isIdle (Token.isIdle_of_isComma hcomma)
          refine (keeps_commaList s kind token rest hrest).bind ?_ (Nat.add_comm _ _)
          rintro ⟨items, left⟩ _ ⟨c, hleft, rfl⟩
          refine .pure ⟨c, hleft, ?_⟩
          simp only [ofItems_cons, Option.elim_some]
          omega
        · exact .pure ⟨b, hafter, by rw [hone]; rfl⟩
termination_by es => es.length
decreasing_by
  have := length_afterRun_le es
  rw [hcons] at this
  simp only [List.length_cons] at this
  omega

/-- Reading items as operands of a listing takes in hand what they hold. -/
lemma passes_expressions (items : List Item) :
    L.Passes (L.ofItems items) L.ofOperands (expressions s items) := by
  induction items with
  | nil => exact .pure (ofItems_nil.trans ofOperands_nil.symm)
  | cons item rest ih =>
    refine (passes_expression item).bind (fun expression => ?_) (ofItems_cons _ _)
    refine ih.bind (fun operands => .pure ?_) (Nat.add_comm _ _)
    rw [ofOperands_cons, Nat.add_comm]

/-- There is no more in a clause than in its operands. -/
lemma ofOperator_clause (h : kind.family = .clause) (operands : List Operand) (span : Option Span) :
    L.ofOperator ⟨kind, none, operands, span⟩ = L.ofOperands operands :=
  ofOperator_of_family (by show kind.family ≠ _; rw [h]; decide)

/-- A clause that lists operands holds what they owe. -/
lemma keeps_projection (hkind : kind.family = .clause) (h : L.Owe es k) (token : Token) :
    L.Keeps k (L.WithRest L.ofOperator) (projection s kind token es) := by
  unfold projection
  refine (keeps_commaList s kind token es h).bind_all ?_
  rintro ⟨items, left⟩ _ ⟨c, hleft, rfl⟩
  refine (passes_expressions items).bind (fun operands => .pure ⟨c, hleft, ?_⟩) rfl
  rw [ofOperator_clause hkind]

/-- A clause with a condition holds what the condition owes. -/
lemma keeps_condition (hkind : kind.family = .clause) (h : L.Owe es k) (token : Token) :
    L.Keeps k (L.WithRest L.ofOperator) (condition s kind token es) := by
  unfold condition
  refine (keeps_drawGroup h).adapt.bind_all ?_
  rintro ⟨item, left⟩ _ ⟨⟨c, hleft, rfl⟩, -⟩
  cases item with
  | none => exact .throw
  | some item =>
    dsimp only
    split
    · rename_i op hop
      refine .pure ⟨c, hleft, ?_⟩
      rw [ofOperator_clause hkind, ofOption_some, ofItem_of_condition? hop]
      simp
    · exact .throw

/-- An entry of an ordering holds what its items do, with the direction settled. -/
lemma passes_orderEntry (items : List Item) (last : Item) :
    L.Passes (L.ofItems (items ++ [last])) L.ofOperands (orderEntry s items last) := by
  have hitems : L.ofItems (items ++ [last]) = L.ofItem last + L.ofItems items := by
    rw [ofItems_append, ofItems_cons, ofItems_nil, Nat.add_zero, Nat.add_comm]
  unfold orderEntry
  split
  · exact .throw
  · refine (uses_word last .direction).bind (fun _ => ?_) hitems
    refine (passes_reduce items).bind_all fun subject => ?_
    exact (passes_expression subject).bind_all fun expression => .pure (by simp)

/-- The entries of an ordering hold what they owe. -/
lemma keeps_orderEntries (s : Setting) (token : Token) :
    (es : List Element) → {k : Nat} → L.Owe es k →
      L.Keeps k (L.WithRest L.ofOperands) (orderEntries s token es)
  | es, k, h => by
    rw [orderEntries_eq]
    obtain ⟨a, b, hentry, hafter, rfl⟩ := h.exists_entry
    refine Passes.bind (passes_readAll hentry (fun e he => isDelimiter_of_mem_entry he) _).adapt
      (fun items => ?_) rfl
    cases hlast : items.getLast? with
    | none => exact .throw
    | some last =>
      obtain ⟨init, rfl⟩ := List.getLast?_eq_some_iff.mp hlast
      rw [List.dropLast_concat]
      refine (passes_orderEntry init last).bind (fun operands => ?_) rfl
      cases hcons : afterEntry es with
      | nil =>
        rw [hcons] at hafter
        exact .pure ⟨b, hafter, rfl⟩
      | cons e rest =>
        rw [hcons] at hafter
        dsimp only
        split
        · rename_i hcomma
          have hrest := hafter.of_isIdle (Token.isIdle_of_isComma hcomma)
          refine (keeps_orderEntries s token rest hrest).bind ?_ (Nat.add_comm _ _)
          rintro ⟨more, left⟩ _ ⟨c, hleft, rfl⟩
          refine .pure ⟨c, hleft, ?_⟩
          simp only [ofOperands_append]
          omega
        · exact .pure ⟨b, hafter, rfl⟩
termination_by es => es.length
decreasing_by
  have := length_afterEntry_le es
  rw [hcons] at this
  simp only [List.length_cons] at this
  omega

/-- Reading a limit settles its value. -/
lemma keeps_limit (h : L.Owe es k) (token : Token) :
    L.Keeps k (L.WithRest L.ofOperator) (limit s token es) := by
  obtain ⟨a, b, hrun, hafter, rfl⟩ := h.exists_run
  unfold limit
  refine Passes.bind (passes_drawOne hrun).adapt (fun drawn => ?_) rfl
  cases drawn with
  | none => exact .throw
  | some item =>
    refine (uses_value item _).bind (fun value => ?_) rfl
    split
    · refine .pure ⟨b, hafter, ?_⟩
      rw [ofOperator_clause rfl]
      simp
    · exact .throw

/-- The keyword of a range of time owes what is in its parentheses. -/
lemma passes_timeRange (hkeyword : L.Owes keyword k) (hrule : keyword.token.rule = some .timeRange)
    (hword : keyword.token.kind = .word) : L.Passes k L.ofOperator (timeRange s keyword) := by
  have hbounds : ∀ items : Option (List Item),
      L.Passes (items.elim 0 L.ofItems) L.ofOperator (do
        let bounds ← Claim.exactParameters s ⟨.timeRange, keyword.token, items, none, none⟩ 2
        let operands ← Claim.values s [.string, .number] bounds
        return ({ kind := .timeRange, operands } : Operator)) := by
    intro items
    refine (passes_exactParameters ⟨.timeRange, keyword.token, items, none, none⟩ 2).bind_all
      fun bounds => ?_
    exact (passes_values _ bounds).bind_all fun operands => .pure (ofOperator_clause rfl _ _).symm
  unfold timeRange
  rw [map_eq_pure_bind]
  dsimp only
  split
  · rename_i hchildren
    have hcall := Token.isCall_of_rule hword hrule rfl hchildren
    have hitems : L.Passes k (fun items => items.elim 0 L.ofItems)
        (do return some (← keyword.parameters)) :=
      (hkeyword.parameters hcall).bind_all fun items => .pure rfl
    exact hitems.bind_all hbounds
  · rename_i hchildren
    refine (hbounds none).of_eq (hkeyword.idle (Token.isIdle_of_rule hword hrule ?_))
    rw [Bool.not_eq_true] at hchildren
    rw [hchildren, Bool.and_false]

/-- Reading the body of a clause keeps the books of what its keyword and the elements behind it
owe. -/
lemma keeps_produce (hkeyword : L.Owes keyword k) (hrule : keyword.token.rule = some kind)
    (hword : keyword.token.kind = .word) (h : L.Owe es m) :
    L.Keeps (k + m) (L.WithRest L.ofOperator) (produce s kind.family kind keyword es) := by
  have hbody : ∀ {reading : Parse (Operator × List Element)}, kind.isFunction = false →
      L.Keeps m (L.WithRest L.ofOperator) reading →
        L.Keeps (k + m) (L.WithRest L.ofOperator) reading := by
    intro reading hfunction hreading
    have hidle := Token.isIdle_of_rule hword hrule (by rw [hfunction, Bool.false_and])
    exact hreading.of_eq (by rw [hkeyword.idle hidle, Nat.zero_add])
  unfold produce
  split
  · split
    · exact hbody rfl (keeps_projection rfl h _)
    · exact hbody rfl (keeps_projection rfl h _)
    · exact hbody rfl (keeps_projection rfl h _)
    · exact hbody rfl (keeps_condition rfl h _)
    · exact hbody rfl (keeps_condition rfl h _)
    · refine hbody rfl ((keeps_orderEntries s _ es h).bind_all ?_)
      rintro ⟨operands, left⟩ _ ⟨c, hleft, rfl⟩
      exact .pure ⟨c, hleft, by rw [ofOperator_clause rfl]⟩
    · exact hbody rfl (keeps_limit h _)
    · exact (passes_timeRange hkeyword hrule hword).bind (fun op => .pure ⟨m, h, rfl⟩) rfl
    · exact .throw
  · exact .throw

/-! ## Texts -/

/-- Whether the books also balance when a clause is noted that competes with no other. -/
structure Records (L : Ledger) : Prop where
  recordClause : ∀ {n : Notes} {kind : Kind} {clause : Operator} {m : Nat}, clause.kind = kind →
    (∀ entry ∈ n.draft.clauses, entry.1.competes kind = false) →
      L.Balances (L.ofOperator clause + m) n →
        L.Balances m { n with draft := n.draft.record kind clause }

variable {aside : Nat} {n : Notes}

/-- Noting a clause that competes with no other. -/
lemma Records.noteClause (hL : L.Records) {made : Operator × List Element} {left : Nat}
    (token : Token) (hkind : made.1.kind = kind) (hleft : L.Owe made.2 left)
    (hsuffix : made.2 <:+ es) (hnone : ∀ entry ∈ n.draft.clauses, entry.1.competes kind = false)
    (hn : L.Balances (L.ofOperator made.1 + left + aside) n) :
    L.Settled (fun used m => L.Owe (es.drop used) m) aside
      (on (Clause.noteClause kind token es made) n) := by
  refine ⟨left, ?_, ?_⟩
  · show L.Owe (es.drop (es.length - made.2.length)) left
    rwa [← List.suffix_iff_eq_drop.mp hsuffix]
  · refine hL.recordClause hkind hnone ?_
    rw [ofOperator_withSpan, ← Nat.add_assoc]
    exact L.congr (n := n) rfl rfl rfl hn

/-- A clause that is closed passes from hand into the notes. -/
lemma Records.close (hL : L.Records) {made : Operator × List Element} {left : Nat}
    (token : Token) (hkind : made.1.kind = kind) (hleft : L.Owe made.2 left)
    (hsuffix : made.2 <:+ es) (hnone : ∀ entry ∈ n.draft.clauses, entry.1.competes kind = false)
    (hn : L.Balances (L.ofOperator made.1 + left + aside) n) :
    L.Settled (fun used m => L.Owe (es.drop used) m) aside
      (on (Clause.close s kind token es made) n) := by
  cases hend : atEnd made.2 with
  | true =>
    rw [close_of_atEnd hend]
    exact hL.noteClause token hkind hleft hsuffix hnone hn
  | false =>
    obtain ⟨clause, _ | ⟨e, rest⟩⟩ := made
    · cases hend
    · unfold Clause.close
      simp only [List.head?_cons, hend, Bool.not_false, if_true]
      exact ⟨_, hn⟩

/-- Reading a clause leaves what the elements owe that it does not take. -/
lemma Records.read (hL : L.Records) (hkeyword : L.Owes keyword k)
    (hrule : keyword.token.rule = some kind) (hword : keyword.token.kind = .word) (h : L.Owe es m)
    (hn : L.Balances (k + m + aside) n) :
    L.Settled (fun used m => L.Owe (es.drop used) m) aside
      (on (Clause.read s kind keyword es) n) := by
  rw [on_read_eq]
  split
  · exact ⟨_, hn⟩
  · rename_i hany
    have hnone : ∀ entry ∈ n.draft.clauses, entry.1.competes kind = false := by simpa using hany
    unfold readOnce
    split
    · -- a keyword without a body owes nothing, and leaves all elements
      rename_i hempty
      have hchildren : keyword.token.hasChildren = false := by
        simpa using (Bool.and_eq_true_iff.mp hempty).1
      have hidle := Token.isIdle_of_rule hword hrule (by rw [hchildren, Bool.and_false])
      rw [hkeyword.idle hidle, Nat.zero_add] at hn
      exact ⟨m, h, L.congr (n := n) rfl rfl rfl hn⟩
    · have hproduce := (keeps_produce hkeyword hrule hword h (s := s)).ensures
        (ensures_produce_suffix kind.family kind keyword)
      obtain ⟨hmade, hclauses⟩ := (hproduce.ensures (ensures_produce_kind kind.family keyword))
        aside n hn
      rw [on_bind]
      rcases hr : on (produce s kind.family kind keyword es) n with ⟨e | made, middle⟩ <;>
        rw [hr] at hmade hclauses
      · exact hmade
      · obtain ⟨_, ⟨⟨⟨left, hleft, rfl⟩, hsuffix⟩, hkind⟩, hmiddle⟩ := hmade
        exact hL.close _ hkind hleft hsuffix (hclauses ▸ hnone) hmiddle

/-- Reading a query uses up what its elements owe. -/
lemma Records.readAll (hL : L.Records) (s : Setting) :
    (es : List Element) → {k : Nat} → L.Owe es k → {n : Notes} → L.Balances (k + aside) n →
      L.Settled (fun _ m => m = 0) aside (on (Clause.readAll s es) n)
  | [], k, h, n, hn => by
    obtain rfl := h.eq_zero
    unfold Clause.readAll
    exact ⟨0, rfl, hn⟩
  | e :: rest, k, h, n, hn => by
    unfold Clause.readAll
    split
    · rename_i hsemicolon
      have hidle := Token.isIdle_of_isDelimiter (Bool.and_eq_true_iff.mp hsemicolon).1
      exact hL.readAll s rest (h.of_isIdle hidle) hn
    · split
      · rename_i kind hrule
        split
        · rename_i hclause
          rw [Token.isClause, Bool.and_eq_true, beq_iff_eq] at hclause
          obtain - | ⟨head, tail⟩ := h
          rw [on_bind]
          refine (hL.read head hrule hclause.1 tail hn).goOn fun used left hleft middle hmiddle =>
            ?_
          exact hL.readAll s (rest.drop used) hleft hmiddle
        · exact ⟨_, hn⟩
      · exact ⟨_, hn⟩
termination_by es => es.length
decreasing_by
  all_goals
    simp only [List.length_drop, List.length_cons]
    omega

/-- Reading a condition uses up what its elements owe, unless it finds none. -/
lemma Records.readCondition (hL : L.Records) (h : L.Owe es k) (hempty : n.draft.clauses = [])
    (hn : L.Balances (k + aside) n) :
    L.Settled (fun _ m => m = 0 ∨ m = k) aside (on (Clause.readCondition s es) n) := by
  obtain ⟨hdrawn, hclauses⟩ := (keeps_drawGroup h (s := s)).adapt aside n hn
  unfold Clause.readCondition Draw.forget
  rw [on_bind]
  rcases hr : on (ExceptT.adapt Stuck.problem (drawGroup s es)) n
    with ⟨e | ⟨item, left⟩, middle⟩ <;>
    rw [hr] at hdrawn hclauses
  · exact hdrawn
  · obtain ⟨_, ⟨⟨c, hleft, rfl⟩, hall⟩, hmiddle⟩ := hdrawn
    rw [goOn_ok]
    cases item with
    | none => exact ⟨_, .inr (hall rfl), hmiddle⟩
    | some item =>
      cases left with
      | cons e rest => exact ⟨_, hmiddle⟩
      | nil =>
        obtain rfl := hleft.eq_zero
        dsimp only [List.head?_nil]
        obtain ⟨hcondition, hclauses'⟩ := passes_condition item (s := s) aside middle hmiddle
        rw [on_bind]
        rcases hop : on (item.condition s) middle with ⟨e | op, last⟩ <;>
          rw [hop] at hcondition hclauses'
        · exact hcondition
        · obtain ⟨_, rfl, hlast⟩ := hcondition
          have hnothing : last.draft.clauses = [] := (hclauses'.trans hclauses).trans hempty
          have hnone : ∀ entry ∈ last.draft.clauses, entry.1.competes .whereClause = false := by
            simp [hnothing]
          refine ⟨0, .inl rfl, hL.recordClause rfl hnone ?_⟩
          rw [ofOperator_clause rfl]
          simpa using hlast

/-- Reading a text uses up what its elements owe, unless it finds nothing to read. -/
lemma Records.body (hL : L.Records) (mode : Mode) (s : Setting) (h : L.Owe es k)
    (hempty : n.draft.clauses = []) (hn : L.Balances (k + aside) n) :
    L.Settled (fun _ m => m = 0 ∨ m = k) aside (on (mode.body s es) n) := by
  cases mode with
  | clauses => exact (hL.readAll s es h hn).mono fun _ _ => .inl
  | condition => exact hL.readCondition h hempty hn

end Ledger

end RecordQuery
