import RecordQuery.Proofs.ReadBack

/-!
# Reading the bodies of clauses

A clause is read back if its expressions are. The lemmas of this file say so for each sort of body:
lists of expressions, conditions, orderings, limits and ranges. A body ends with the text or before
the keyword of the next clause, and its reading leaves what is there alone.
-/

namespace RecordQuery

open Reader Item Phrase

namespace Clause

variable {s : Setting} {names names' names'' : List String} {es after : List Element}

/-- Whether elements begin with the keyword of a clause, if with anything. -/
def Closes (after : List Element) : Prop := ∀ e ∈ after.head?, e.token.isClause = true

/-- The keyword of a clause is a delimiter. -/
lemma isDelimiter_of_isClause {t : Token} (h : t.isClause = true) : t.isDelimiter = false := by
  rw [Token.isClause, Bool.and_eq_true, beq_iff_eq] at h
  rw [Token.isDelimiter, h.1]
  rfl

/-- What closes a clause stops a phrase. -/
lemma Closes.stops (h : Closes after) : Stops after := by
  intro e he
  have hclause := h e he
  refine ⟨by rw [Phrase.continues, hclause]; simp, ?_⟩
  rw [Token.isClause, Bool.and_eq_true] at hclause
  cases hrule : e.token.rule with
  | none => simp [Token.isConnective, hrule]
  | some kind =>
    rw [hrule, Option.any_some] at hclause
    have hkind : kind.isConnective = false := by
      have := hclause.2
      cases kind <;> first | rfl | cases this
    simp [Token.isConnective, hrule, hkind]

/-- A clause is at its end where something closes it. -/
lemma Closes.atEnd (h : Closes after) : Clause.atEnd after = true := by
  cases after with
  | nil => rfl
  | cons e after => rw [Clause.atEnd, h e rfl, Bool.true_or]

/-- No comma closes a clause. -/
lemma Closes.isComma (h : Closes after) : ∀ e ∈ after.head?, e.token.isComma = false := by
  intro e he
  rw [Token.isComma, isDelimiter_of_isClause (h e he), Bool.false_and]

/-! ## Lists of expressions -/

/-- Whether elements are phrases that are read as operands, with commas between them. -/
inductive IsList (s : Setting) : List String → List String → List Element → List Operand → Prop
  | one {names names' : List String} {es : List Element} {x : Operand}
      (phrase : IsPhrase s names names' es x) : IsList s names names' es [x]
  | more {names names' names'' : List String} {es es' : List Element} {x : Operand}
      {xs : List Operand} {comma : Element} (phrase : IsPhrase s names names' es x)
      (separator : Sketch.comma.Reads s comma) (rest : IsList s names' names'' es' xs) :
      IsList s names names'' (es ++ comma :: es') (x :: xs)

/-- A list begins with something that goes on with a phrase. -/
lemma IsList.begins {xs : List Operand} (h : IsList s names names' es xs) :
    es ≠ [] ∧ ∀ e ∈ es.head?, Phrase.continues e.token = true := by
  cases h with
  | one phrase => exact ⟨phrase.nonempty, phrase.begins⟩
  | more phrase =>
    rw [List.head?_append_of_ne_nil _ phrase.nonempty]
    exact ⟨by simp, phrase.begins⟩

/-- A list of phrases is read up to what closes the clause. -/
lemma yields_commaList {xs : List Operand} (h : IsList s names names' es xs) (hafter : Closes after)
    (kind : Kind) (token : Token) :
    Yields names names' (fun made => List.Forall₂ (Shows s.registry) xs made.1 ∧ made.2 = after)
      (commaList s kind token (es ++ after)) := by
  induction h with
  | @one names names' es x phrase =>
    obtain ⟨-, hrest⟩ := run_append phrase.nonempty phrase.continues hafter.stops.ends
    rw [commaList_eq]
    refine (phrase.yields_drawOne hafter.stops.ends).adapt.bind ?_
    rintro _ ⟨item, rfl, hitem⟩
    dsimp only
    rw [hrest]
    cases after with
    | nil => exact .pure ⟨.cons hitem .nil, rfl⟩
    | cons e after =>
      simp only [hafter.isComma e rfl, Bool.false_eq_true, if_false]
      exact .pure ⟨.cons hitem .nil, rfl⟩
  | @more names names' names'' es es' x xs comma phrase separator _ ih =>
    obtain ⟨hends, hcomma⟩ := continues_comma separator
    have hnext : Ends (comma :: (es' ++ after)) := by simpa [Ends] using hends
    obtain ⟨-, hrest⟩ := run_append phrase.nonempty phrase.continues hnext
    rw [List.append_assoc, List.cons_append, commaList_eq]
    refine (phrase.yields_drawOne hnext).adapt.bind ?_
    rintro _ ⟨item, rfl, hitem⟩
    dsimp only
    rw [hrest]
    simp only [hcomma, if_true]
    refine ih.bind ?_
    rintro ⟨items, left⟩ ⟨hitems, rfl⟩
    exact .pure ⟨.cons hitem hitems, rfl⟩

/-- Items that show operands of a listing are read as them. -/
lemma yields_expressions {xs : List Operand} {items : List Item}
    (h : List.Forall₂ (Shows s.registry) xs items)
    (hxs : ∀ x ∈ xs, Resolved s.registry names x) :
    Yields names names (fun ys => ys.map Operand.core = xs.map Operand.core)
      (expressions s items) := by
  induction h with
  | nil => exact .pure rfl
  | cons hfirst _ ih =>
    obtain ⟨hx, hrest⟩ := List.forall_mem_cons.mp hxs
    refine (yields_expression hfirst hx).bind fun y hy => (ih hrest).bind fun ys hys => .pure ?_
    rw [List.map_cons, List.map_cons, hy, hys]

/-- Whether what was read is a clause, up to the elements behind it. -/
def Comes (clause : Operator) (after : List Element) (made : Operator × List Element) : Prop :=
  made.1.core = clause.core ∧ made.2 = after

/-- A clause that lists operands is read as it is. -/
lemma yields_projection {xs : List Operand} (h : IsList s names names' es xs)
    (hxs : ∀ x ∈ xs, Resolved s.registry names' x) (hafter : Closes after) (kind : Kind)
    (token : Token) (span : Option Span) :
    Yields names names' (Comes ⟨kind, none, xs, span⟩ after)
      (projection s kind token (es ++ after)) := by
  refine (yields_commaList h hafter kind token).bind ?_
  rintro ⟨items, left⟩ ⟨hitems, rfl⟩
  refine (yields_expressions hitems hxs).bind fun ys hys => .pure ⟨?_, rfl⟩
  rw [Operator.core_eq_iff]
  exact ⟨rfl, rfl, hys⟩

/-! ## Conditions -/

/-- A clause with a condition is read as it is. -/
lemma yields_condition {op : Operator} (h : IsGroup s names names' es op)
    (hcondition : op.isCondition = true) (hafter : Closes after) (kind : Kind) (token : Token)
    (span : Option Span) :
    Yields names names' (Comes ⟨kind, none, [.operator op], span⟩ after)
      (condition s kind token (es ++ after)) := by
  refine (h after hafter.stops).adapt.bind ?_
  rintro _ ⟨item, rfl, hshows⟩
  obtain ⟨op', hop', hcore⟩ := condition?_of_shows hshows hcondition
  dsimp only
  rw [hop']
  refine .pure ⟨?_, rfl⟩
  rw [Operator.core_eq_iff]
  simp [Operand.core, hcore]

/-! ## Orderings -/

/-- Whether elements are a phrase that is read as an operand, and a direction. -/
structure IsEntry (s : Setting) (names names' : List String) (es : List Element) (x : Operand)
    (word : String) : Prop where
  parts : ∃ body last, es = body ++ [last] ∧ IsPhrase s names names' body x ∧
    Sketch.IsLeaf (upperCase word) last ∧ last.token.kind = .word
  continues : ∀ e ∈ es, continuesEntry e.token = true
  direction : word = "asc" ∨ word = "desc"
  resolved : Resolved s.registry names' x

/-- Whether elements are entries of an ordering, with commas between them. -/
inductive IsOrdering (s : Setting) :
    List String → List String → List Element → List (Operand × String) → Prop
  | one {names names' : List String} {es : List Element} {entry : Operand × String}
      (first : IsEntry s names names' es entry.1 entry.2) : IsOrdering s names names' es [entry]
  | more {names names' names'' : List String} {es es' : List Element}
      {entry : Operand × String} {entries : List (Operand × String)} {comma : Element}
      (first : IsEntry s names names' es entry.1 entry.2)
      (separator : Sketch.comma.Reads s comma) (rest : IsOrdering s names' names'' es' entries) :
      IsOrdering s names names'' (es ++ comma :: es') (entry :: entries)

/-- An entry of an ordering is taken up to what ends it. -/
lemma entry_append (hne : es ≠ []) (hes : ∀ e ∈ es, continuesEntry e.token = true)
    (hafter : ∀ e ∈ after.head?, continuesEntry e.token = false) :
    entry (es ++ after) = es ∧ afterEntry (es ++ after) = after := by
  obtain ⟨e, es, rfl⟩ := List.exists_cons_of_ne_nil hne
  obtain ⟨he, hes⟩ := List.forall_mem_cons.mp hes
  have hdelimiter : ¬ e.token.isDelimiter = true := by
    intro h
    simp [continuesEntry, h] at he
  have htail : after.takeWhile (fun e => continuesEntry e.token) = [] ∧
      after.dropWhile (fun e => continuesEntry e.token) = after := by
    cases after with
    | nil => exact ⟨rfl, rfl⟩
    | cons f after => simp [hafter f rfl]
  constructor
  · rw [List.cons_append, entry, if_neg hdelimiter, List.takeWhile_append_of_pos hes, htail.1,
      List.append_nil]
  · rw [List.cons_append, afterEntry, if_neg hdelimiter, List.dropWhile_append_of_pos hes, htail.2]

/-- An entry of an ordering with its direction is taken up to what ends it. -/
lemma IsEntry.append {x : Operand} {word : String} (h : IsEntry s names names' es x word)
    (hafter : ∀ e ∈ after.head?, continuesEntry e.token = false) :
    entry (es ++ after) = es ∧ afterEntry (es ++ after) = after := by
  obtain ⟨body, last, rfl, -⟩ := h.parts
  exact entry_append (by simp) h.continues hafter

/-- A comma ends an entry. -/
lemma endsEntry_comma {e : Element} (h : Sketch.comma.Reads s e) :
    continuesEntry e.token = false ∧ e.token.isComma = true := by
  cases h with
  | comma leaf hclass =>
    simp [continuesEntry, Token.isDelimiter, Token.isComma, hclass, leaf.text_eq]

/-- What closes a clause ends an entry. -/
lemma Closes.endsEntry (h : Closes after) :
    ∀ e ∈ after.head?, continuesEntry e.token = false := by
  intro e he
  have hclause := h e he
  rw [Token.isClause, Bool.and_eq_true] at hclause
  simp [continuesEntry, hclause.2]

/-- As many items are read as there are elements. -/
lemma ensures_length_readAll (es after : List Element) :
    Ensures (fun items => items.length = es.length) (Phrase.readAll es after) := by
  induction es with
  | nil => exact .pure rfl
  | cons e es ih =>
    exact Ensures.bind .trivial fun item _ => ih.bind fun items hitems => .pure (by simp [hitems])

/-- A direction is known by its name in capitals. -/
lemma direction?_upperCase {word : String} (h : word = "asc" ∨ word = "desc") :
    direction? (upperCase word) = some word := by
  obtain rfl | rfl := h <;> decide +kernel

/-- The items of an entry end with the direction, and those before it are read as the expression. -/
lemma IsEntry.yields_readAll {x : Operand} {word : String} (h : IsEntry s names names' es x word)
    (after : List Element) :
    ∃ middle, Yields names middle
      (fun items => ∃ init token, items = init ++ [ofToken token] ∧ init ≠ [] ∧
        token.kind = .word ∧ token.text = upperCase word ∧
          Yields middle names' (Shows s.registry x) (reduce s init))
      (Phrase.readAll es after) := by
  obtain ⟨body, last, rfl, phrase, leaf, hkind⟩ := h.parts
  obtain ⟨middle, hreads⟩ := phrase.reads
  have hlast : Gathers middle middle [last] (fun items => ∃ item, items = [item] ∧
      item = ofToken last.token) := by
    refine Gathers.single ?_
    rw [leaf.item]
    exact .pure rfl
  refine ⟨middle, ?_⟩
  rw [readAll_append]
  refine ((hreads _).ensures (ensures_length_readAll body _)).bind fun init hinit => ?_
  refine (hlast _).bind ?_
  rintro _ ⟨_, rfl, rfl⟩
  refine .pure ⟨init, last.token, rfl, ?_, hkind, leaf.text_eq, hinit.1⟩
  rintro rfl
  exact phrase.nonempty (List.length_eq_zero_iff.mp hinit.2.symm)

/-- An entry is read as its operand and its direction. -/
lemma yields_orderEntry {x : Operand} {word : String} {init : List Item} {token : Token}
    (hne : init ≠ []) (hkind : token.kind = .word) (htext : token.text = upperCase word)
    (hword : word = "asc" ∨ word = "desc")
    (hread : Yields names names' (Shows s.registry x) (reduce s init))
    (hx : Resolved s.registry names' x) :
    Yields names names'
      (fun made => made.map Operand.core = [x, .value (.ofString word)].map Operand.core)
      (orderEntry s init (ofToken token)) := by
  have hdirection : direction init (ofToken token) = some word := by
    simp [direction, ofToken, hne, htext, direction?_upperCase hword]
  rw [orderEntry, hdirection]
  dsimp only
  refine (yields_word (.inl hkind) .direction).bind fun _ _ => hread.bind fun item hitem => ?_
  exact (yields_expression hitem hx).bind fun y hy => .pure (by simp [hy])

/-- An ordering begins with something that goes on with a phrase. -/
lemma IsOrdering.begins {entries : List (Operand × String)}
    (h : IsOrdering s names names' es entries) :
    es ≠ [] ∧ ∀ e ∈ es.head?, Phrase.continues e.token = true := by
  have first : ∀ {names names' : List String} {es : List Element} {x : Operand} {word : String},
      IsEntry s names names' es x word →
        es ≠ [] ∧ ∀ e ∈ es.head?, Phrase.continues e.token = true := by
    intro names names' es x word hentry
    obtain ⟨body, last, rfl, phrase, -⟩ := hentry.parts
    rw [List.head?_append_of_ne_nil _ phrase.nonempty]
    exact ⟨by simp, phrase.begins⟩
  cases h with
  | one hentry => exact first hentry
  | more hentry =>
    obtain ⟨hne, hbegins⟩ := first hentry
    rw [List.head?_append_of_ne_nil _ hne]
    exact ⟨by simp, hbegins⟩

/-- The entries of an ordering are read one by one, up to what closes the clause. -/
lemma yields_orderEntries {entries : List (Operand × String)}
    (h : IsOrdering s names names' es entries) (hafter : Closes after) (token : Token) :
    Yields names names'
      (fun made => made.1.map Operand.core = (Operator.orderOperands entries).map Operand.core ∧
        made.2 = after) (orderEntries s token (es ++ after)) := by
  induction h with
  | @one names names' es entry first =>
    obtain ⟨hentry, hrest⟩ := first.append hafter.endsEntry
    obtain ⟨middle, hreads⟩ := first.yields_readAll after
    rw [orderEntries_eq, hentry, hrest]
    refine hreads.adapt.bind ?_
    rintro _ ⟨init, last, rfl, hne, hkind, htext, hread⟩
    rw [List.getLast?_append_of_ne_nil _ (List.cons_ne_nil _ _), List.dropLast_concat]
    dsimp only [List.getLast?_singleton]
    refine (yields_orderEntry hne hkind htext first.direction hread first.resolved).bind
      fun operands hoperands => ?_
    cases after with
    | nil => exact .pure ⟨hoperands, rfl⟩
    | cons e after =>
      simp only [hafter.isComma e rfl, Bool.false_eq_true, if_false]
      exact .pure ⟨hoperands, rfl⟩
  | @more names names' names'' es es' entry entries comma first separator _ ih =>
    obtain ⟨hends, hcomma⟩ := endsEntry_comma separator
    have hnext : ∀ e ∈ (comma :: (es' ++ after)).head?, continuesEntry e.token = false := by
      simpa using hends
    obtain ⟨hentry, hrest⟩ := first.append hnext
    obtain ⟨middle, hreads⟩ := first.yields_readAll (comma :: (es' ++ after))
    rw [List.append_assoc, List.cons_append, orderEntries_eq, hentry, hrest]
    refine hreads.adapt.bind ?_
    rintro _ ⟨init, last, rfl, hne, hkind, htext, hread⟩
    rw [List.getLast?_append_of_ne_nil _ (List.cons_ne_nil _ _), List.dropLast_concat]
    dsimp only [List.getLast?_singleton]
    refine (yields_orderEntry hne hkind htext first.direction hread first.resolved).bind
      fun operands hoperands => ?_
    simp only [hcomma, if_true]
    refine ih.bind ?_
    rintro ⟨more, left⟩ ⟨hmore, rfl⟩
    refine .pure ⟨?_, rfl⟩
    rw [List.map_append, hoperands, hmore, Operator.orderOperands, Operator.orderOperands,
      List.flatMap_cons, List.map_append]

/-! ## Limits and ranges -/

/-- Whether a value is a count depends on the scalar only, not on its text. -/
lemma isCount_congr {v w : ScalarValue} (h : v.value = w.value) : v.isCount = w.isCount := by
  rw [ScalarValue.isCount, ScalarValue.decimal?, h, ScalarValue.isCount, ScalarValue.decimal?]

/-- A limit is read as it is. -/
lemma yields_limit {v : ScalarValue} {sketch : Sketch} {e : Element}
    (hv : sketch.Denotes s (.value v)) (he : sketch.Reads s e) (htype : v.type = .number)
    (hcount : v.isCount = true) (hafter : Closes after) (token : Token) (span : Option Span) :
    Yields names names (Comes ⟨.limit, none, [.value v], span⟩ after)
      (limit s token ([e] ++ after)) := by
  have hphrase : IsPhrase s names names [e] (.value v) := .of_leaf hv he
  obtain ⟨-, hrest⟩ := run_append hphrase.nonempty hphrase.continues hafter.stops.ends
  unfold limit
  refine (hphrase.yields_drawOne hafter.stops.ends).adapt.bind ?_
  rintro _ ⟨item, rfl, hitem⟩
  dsimp only
  refine (yields_value hitem (by rw [htype]; rfl)).bind fun w hw => ?_
  rw [isCount_congr hw, hcount, hrest]
  refine .pure ⟨?_, rfl⟩
  rw [Operator.core_eq_iff]
  exact ⟨rfl, rfl, by simp [Operand.core, hw]⟩

/-- A range of time is read as it is. -/
lemma yields_timeRange {first last : ScalarValue} {leaves : List Sketch} {e : Element}
    (hbounds : List.Forall₂ (Sketch.Denotes s) [.value first, .value last] leaves)
    (hsteps : 2 ≤ s.ceilings.steps)
    (he : (Sketch.call .timeRange ([.comma].intercalate (leaves.map ([·])))).Reads s e)
    (hfirst : first.type = .string ∨ first.type = .number)
    (hlast : last.type = .string ∨ last.type = .number) (span : Option Span) :
    Yields names names
      (fun made => made.core =
        (Operator.mk .timeRange none [.value first, .value last] span).core) (timeRange s e) := by
  cases he with
  | @call _ _ _ contents reads _ parameters_eq _ _ owns =>
    have hitems : Yields names names
        (fun items? => ∃ items, items? = some items ∧
          List.Forall₂ (Shows s.registry) [.value first, .value last] items)
        (some <$> e.parameters) := by
      rw [parameters_eq]
      exact (yields_parameters e.token hbounds hsteps reads).map fun items hitems =>
        ⟨items, rfl, hitems⟩
    unfold timeRange
    simp only [owns, if_true]
    refine hitems.bind ?_
    rintro _ ⟨items, rfl, hshows⟩
    have hexact : Yields names names (· = items)
        (Claim.exactParameters s ⟨.timeRange, e.token, some items, none, none⟩ 2) := by
      refine (Yields.pure rfl).bind fun is his => ?_
      subst his
      have hcount : items.length = 2 := hshows.length_eq.symm
      rw [if_pos hcount]
      exact .pure rfl
    refine hexact.bind fun is his => ?_
    subst his
    have hvalues : Claim.ShowValues s.registry [first, last] is :=
      Operator.showValues_of_shows hshows
    have hallowed : ∀ v ∈ [first, last], ScalarValue.allows [.string, .number] v.type = true := by
      simp only [List.mem_cons, List.not_mem_nil, or_false, forall_eq_or_imp, forall_eq]
      constructor
      · obtain h | h := hfirst <;> rw [h] <;> rfl
      · obtain h | h := hlast <;> rw [h] <;> rfl
    refine (Claim.yields_values hvalues hallowed).bind fun operands hoperands => .pure ?_
    rw [Operator.core_eq_iff]
    exact ⟨rfl, rfl, hoperands⟩

/-! ## Clauses in a row -/

/-- Whether a keyword and the elements behind it are read as a clause, up to where the next one
begins. -/
structure IsClause (s : Setting) (names names' : List String) (keyword : Element)
    (es : List Element) (clause : Operator) : Prop where
  rule : keyword.token.rule = some clause.kind
  isClause : keyword.token.isClause = true
  bodied : keyword.token.hasChildren = true ∨ Clause.atEnd es = false
  yields : ∀ after, Closes after → Yields names names' (Comes clause after)
    (produce s clause.kind.family clause.kind keyword (es ++ after))

/-- A clause that competes with none before it is noted behind them. -/
lemma on_read {keyword : Element} {clause : Operator}
    (h : IsClause s names names' keyword es clause) (hafter : Closes after) {n : Notes}
    {clauses : List (Kind × Operator)} (hn : Notes.Knows names clauses n)
    (hfree : ∀ entry ∈ clauses, entry.1.competes clause.kind = false) :
    ∃ n' made, on (read s clause.kind keyword (es ++ after)) n = (.ok es.length, n') ∧
      made.core = clause.core ∧ Notes.Knows names' (clauses ++ [(clause.kind, made)]) n' := by
  obtain ⟨⟨made, left⟩, n', hrun, ⟨hcore, hleft⟩, hn'⟩ := h.yields after hafter n clauses hn
  obtain rfl : after = left := hleft.symm
  have hcompetes : ¬ (n.draft.clauses.any fun entry => entry.1.competes clause.kind) = true := by
    rw [hn.clauses, List.any_eq_true]
    rintro ⟨entry, hentry, hyes⟩
    rw [hfree entry hentry] at hyes
    cases hyes
  have hbodied : ¬ (!keyword.token.hasChildren && Clause.atEnd (es ++ after)) = true := by
    obtain hchildren | hend := h.bodied
    · simp [hchildren]
    · cases es with
      | nil => cases hend
      | cons e es =>
        have hend' : Clause.atEnd (e :: es ++ after) = false := hend
        rw [hend', Bool.and_false]
        exact Bool.false_ne_true
  have hlength : (es ++ after).length - after.length = es.length := by
    rw [List.length_append, Nat.add_sub_cancel]
  unfold read
  simp only [on_bind, on_get, goOn_ok, if_neg hcompetes, if_neg hbodied, hrun, hlength]
  generalize ((es ++ after).take es.length).foldl
    (fun span e => span.cover e.token.fullSpan) keyword.token.fullSpan = span
  let phrase : Phrase := ⟨made.kind, keyword.token.id, span, made.withSpan span⟩
  refine ⟨{ n' with
      phrases := n'.phrases.push phrase
      draft := n'.draft.record clause.kind (made.withSpan span) },
    made.withSpan span, ?_, by rw [Operator.core_withSpan, hcore], hn'.isAlias, ?_, hn'.problems⟩
  · cases after with
    | nil => rfl
    | cons e after =>
      have hend : ¬ (!Clause.atEnd (e :: after)) = true := by simp [hafter.atEnd]
      simp only [List.head?_cons, if_neg hend]
      rfl
  · rw [← recordIn_eq_append _ hfree, ← hn'.clauses]
    rfl

/-- Whether elements are keywords with the elements that are read as the clauses of a query. -/
inductive AreClauses (s : Setting) :
    List String → List String → List Element → List Operator → Prop
  | nil {names : List String} : AreClauses s names names [] []
  | cons {names names' names'' : List String} {keyword : Element} {es es' : List Element}
      {clause : Operator} {clauses : List Operator}
      (first : IsClause s names names' keyword es clause)
      (rest : AreClauses s names' names'' es' clauses) :
      AreClauses s names names'' (keyword :: (es ++ es')) (clause :: clauses)

/-- Further clauses, or the end of the text, close a clause. -/
lemma AreClauses.closes {clauses : List Operator} (h : AreClauses s names names' es clauses) :
    Closes es := by
  cases h with
  | nil => simp [Closes]
  | cons first => simpa [Closes] using first.isClause

/-- Clauses that do not compete are noted one behind the other. -/
theorem on_readAll {clauses : List Operator} (h : AreClauses s names names' es clauses)
    (hcompetes : clauses.Pairwise fun a b => a.kind.competes b.kind = false) {n : Notes}
    {before : List (Kind × Operator)} (hn : Notes.Knows names before n)
    (hfree : ∀ entry ∈ before, ∀ clause ∈ clauses, entry.1.competes clause.kind = false) :
    ∃ n' made, on (readAll s es) n = (.ok (), n') ∧ Notes.Knows names' (before ++ made) n' ∧
      List.Forall₂ (fun clause entry => entry.2.core = clause.core) clauses made := by
  induction h generalizing n before with
  | nil =>
    refine ⟨n, [], ?_, by rwa [List.append_nil], .nil⟩
    rw [readAll]
    rfl
  | @cons names names' names'' keyword es es' clause clauses first rest ih =>
    obtain ⟨hfirst, hrest⟩ := List.pairwise_cons.mp hcompetes
    obtain ⟨n₁, made, hread, hcore, hn₁⟩ := on_read first rest.closes hn fun entry hentry =>
      hfree entry hentry clause (List.mem_cons_self ..)
    obtain ⟨n₂, more, hreadAll, hn₂, hcores⟩ := ih hrest hn₁ (fun entry hentry other hother => by
      obtain hentry | hentry := List.mem_append.mp hentry
      · exact hfree entry hentry other (List.mem_cons_of_mem _ hother)
      · obtain rfl := List.mem_singleton.mp hentry
        exact hfirst other hother)
    refine ⟨n₂, (clause.kind, made) :: more, ?_, by simpa using hn₂, .cons hcore hcores⟩
    have hsemicolon : ¬ keyword.token.isSemicolon = true := by
      simp [Token.isSemicolon, isDelimiter_of_isClause first.isClause]
    rw [readAll]
    simp only [if_neg hsemicolon, first.rule, first.isClause, if_true]
    rw [on_bind, hread, goOn_ok, List.drop_left, hreadAll]

end Clause

end RecordQuery
