import RecordQuery.Proofs.ClauseReading
import RecordQuery.Proofs.RenderedText

/-!
# Clauses are read back

The text of a clause can be sketched as that of any operator, and elements that are read as the
sketch are read as the clause, whatever clause follows. There is one lemma for each sort of body.

The lists of columns and of groups are special in that they look up their references last, when the
names of all columns are bound.
-/

namespace RecordQuery

open Reader Item Sketch

namespace Operator

open Phrase

variable {s : Setting} {raw : Lexeme → Prop} {kind : Kind} {x : Operand} {sketches : List Sketch}

/-! ## Expressions -/

/-- Whether sketches write an expression of a clause, and are read as it. -/
structure IsExpression (s : Setting) (raw : Lexeme → Prop) (x : Operand) (sketches : List Sketch) :
    Prop where
  writes : Writes raw (depthIn .select [x]) (x.render s.registry) sketches
  reads : ∀ names es, Sketch.ReadsAll s sketches es →
    Mention.resolves s.registry names (mentionsIn false [x]) = true →
    (∀ op, x = .operator op → op.Everywhere (Paced s.ceilings.steps)) →
    IsPhrase s names (Mention.bound names (mentionsIn false [x])) es x

/-- A writable reference is an expression of a listing. -/
lemma isExpression_reference {p : PropertyRef} (hp : p.IsWritable s.registry) :
    IsExpression s raw (.property p) [p.sketch s.registry] := by
  refine ⟨Writes.of_token (isToken_reference hp raw False), fun names es hes _ _ => ?_⟩
  obtain ⟨e, rfl, he⟩ := readsAll_single hes
  exact .of_leaf (denotes_reference s p) he

/-- An operator that is read back is an expression of a listing, if it is no group. -/
lemma isExpression_operator {op : Operator} (h : IsSketchedAs s raw op sketches)
    (hconnective : op.isConnective = false) : IsExpression s raw (.operator op) sketches := by
  refine ⟨?_, fun names es hes hnames hpaced => ?_⟩
  · rw [depthIn_operator (by decide)]
    exact h.writes
  · rw [mentionsIn_operator] at hnames ⊢
    exact (h.reads names es hes hnames (hpaced op rfl)).phrase hconnective

/-- Every expression that a clause may list is read from its text as it was. -/
lemma exists_isExpression (hx : (ShapeRules.written s.registry).listed x)
    (hop : ∀ op, x = .operator op → op.Everywhere (IsWritable s.registry raw)) :
    ∃ sketches, IsExpression s raw x sketches := by
  cases x with
  | property p => exact ⟨_, isExpression_reference hx⟩
  | value v => exact hx.elim
  | operator op =>
    obtain ⟨sketches, hsketches⟩ := exists_isSketchedAs s raw op (hop op rfl) hx.1
    exact ⟨sketches, isExpression_operator hsketches hx.2⟩

/-! ## Clauses -/

/-- Whether sketches spell a clause, and are read as it. -/
structure IsClauseSketch (s : Setting) (raw : Lexeme → Prop) (clause : Operator)
    (sketches : List Sketch) : Prop where
  spells : Spells raw clause.depth (clause.render s.registry) sketches
  reads : ∀ names es, Sketch.ReadsAll s sketches es →
    Mention.resolves s.registry names clause.mentions = true →
    clause.Everywhere (Paced s.ceilings.steps) →
    ∃ keyword body, es = keyword :: body ∧
      Clause.IsClause s names (Mention.bound names clause.mentions) keyword body clause

/-- A clause is not at its end where something goes on with a phrase. -/
lemma atEnd_of_begins {es : List Element} (hne : es ≠ [])
    (h : ∀ e ∈ es.head?, Phrase.continues e.token = true) : Clause.atEnd es = false := by
  obtain ⟨e, es, rfl⟩ := List.exists_cons_of_ne_nil hne
  have he := h e rfl
  simp only [Phrase.continues, Phrase.separates, Bool.and_eq_true, Bool.not_eq_true',
    Bool.or_eq_false_iff] at he
  rw [Clause.atEnd, he.2, Token.isSemicolon, he.1.1, Bool.false_or, Bool.false_and]

/-- The keyword of a clause with a body behind it. -/
lemma isClause_of_reads {names names' : List String} {e : Element} {es : List Element}
    {clause : Operator} (hclause : clause.kind.isClause = true)
    (he : (Sketch.keyword clause.kind).Reads s e) (hne : es ≠ [])
    (hbegins : ∀ e ∈ es.head?, Phrase.continues e.token = true)
    (h : ∀ after, Clause.Closes after → Yields names names' (Clause.Comes clause after)
      (Clause.produce s clause.kind.family clause.kind e (es ++ after))) :
    Clause.IsClause s names names' e es clause := by
  cases he with
  | keyword item rule class_ =>
    refine ⟨rule, ?_, .inr (atEnd_of_begins hne hbegins), h⟩
    have hword : clause.kind.tokenKind = .word := by
      revert hclause
      cases clause.kind <;> decide
    simp [Token.isClause, class_, hword, rule, hclause]

/-! ## Lists of expressions -/

/-- Elements that are read as expressions with commas between them are a list. -/
lemma isList_of_readsAll {xs : List Operand} {entries : List (List Sketch)}
    (h : List.Forall₂ (IsExpression s raw) xs entries) (hne : xs ≠ []) {names : List String}
    {es : List Element} (hes : Sketch.ReadsAll s ([.comma].intercalate entries) es)
    (hnames : Mention.resolves s.registry names (mentionsIn false xs) = true)
    (hpaced : ∀ op, .operator op ∈ xs → op.Everywhere (Paced s.ceilings.steps)) :
    Clause.IsList s names (Mention.bound names (mentionsIn false xs)) es xs := by
  induction h generalizing names es with
  | nil => exact absurd rfl hne
  | @cons x entry xs entries hfirst hrest ih =>
    have hpaced₁ : ∀ op, x = .operator op → op.Everywhere (Paced s.ceilings.steps) :=
      fun op hop => hpaced op (hop ▸ List.mem_cons_self ..)
    rw [mentionsIn_cons, Mention.resolves_append, Bool.and_eq_true] at hnames
    rw [mentionsIn_cons, Mention.bound_append]
    cases hrest with
    | nil =>
      rw [List.intercalate_singleton] at hes
      exact .one (hfirst.reads names es hes hnames.1 hpaced₁)
    | @cons y next xs entries hsecond hrest =>
      rw [List.intercalate_cons_cons, List.append_assoc] at hes
      obtain ⟨es₁, more, rfl, hes₁, hmore⟩ := readsAll_append hes
      obtain ⟨comma, es₂, hcomma, hes₂, rfl⟩ := List.forall₂_cons_left_iff.mp hmore
      exact .more (hfirst.reads names es₁ hes₁ hnames.1 hpaced₁) hcomma
        (ih (List.cons_ne_nil _ _) hes₂ hnames.2
          fun op hop => hpaced op (List.mem_cons_of_mem _ hop))

/-- References that are looked up at the end are looked up with all names bound. -/
lemma resolved_of_references {names : List String} {xs : List Operand}
    (hlisted : ∀ x ∈ xs, (ShapeRules.written s.registry).listed x)
    (h : Mention.resolves s.registry names (references xs) = true) :
    ∀ x ∈ xs, Resolved s.registry names x := by
  induction xs with
  | nil => simp
  | cons x xs ih =>
    obtain ⟨hx, hrest⟩ := List.forall_mem_cons.mp hlisted
    cases x with
    | property p =>
      have hrefer : Mention.resolves s.registry names (.refer p :: references xs) = true := h
      rw [Mention.resolves, Bool.and_eq_true, beq_iff_eq] at hrefer
      exact List.forall_mem_cons.mpr ⟨⟨hx, hrefer.1⟩, ih hrest hrefer.2⟩
    | value v => exact hx.elim
    | operator op => exact List.forall_mem_cons.mpr ⟨trivial, ih hrest h⟩

/-- Expressions are written by their sketches one by one. -/
lemma writes_expressions {xs : List Operand} {entries : List (List Sketch)}
    (h : List.Forall₂ (IsExpression s raw) xs entries) {n : Nat} (hdepth : depthIn .select xs ≤ n) :
    List.Forall₂ (Writes raw n) (xs.map (Operand.render s.registry)) entries := by
  induction h with
  | nil => exact .nil
  | cons hfirst _ ih =>
    rw [depthIn_cons] at hdepth
    exact .cons (hfirst.writes.mono (by omega)) (ih (by omega))

/-- A clause has the depth of what it lists. -/
lemma depth_clause {kind : Kind} (family : kind.family = .clause) (hrange : kind ≠ .timeRange)
    (operands : List Operand) (span : Option Span) :
    (Operator.mk kind none operands span).depth = depthIn .select operands := by
  have hfunction : kind.isFunction = false := by
    cases kind <;> first | rfl | exact absurd rfl hrange | cases family
  have hencloses : ∀ op, encloses kind op = encloses .select op := fun op => by
    rw [encloses_eq_false (by rw [family]; decide), encloses_eq_false (by decide)]
  rw [depth, hfunction, if_neg Bool.false_ne_true, Nat.zero_max]
  induction operands with
  | nil => rfl
  | cons operand rest ih =>
    cases operand <;> simp [depthIn, hencloses, ih]

/-- A clause that lists expressions is read back. -/
theorem isClauseSketch_listing {xs : List Operand} {entries : List (List Sketch)}
    {span : Option Span} (lists : kind = .select ∨ kind = .groupBy ∨ kind = .groupByPermuted)
    (h : List.Forall₂ (IsExpression s raw) xs entries) (hne : xs ≠ [])
    (hlisted : ∀ x ∈ xs, (ShapeRules.written s.registry).listed x) :
    IsClauseSketch s raw ⟨kind, none, xs, span⟩
      (.keyword kind :: [.comma].intercalate entries) := by
  have hkind : kind.family = .clause ∧ kind.isClause = true ∧ kind.isFunction = false ∧
      kind.looksUpLast = true ∧ kind ≠ .orderBy ∧ kind ≠ .timeRange := by
    obtain rfl | rfl | rfl := lists <;> decide
  obtain ⟨family, hclause, hfunction, hlast, hordering, hrange⟩ := hkind
  constructor
  · rw [render_clause family hordering hrange, depth_clause family hrange]
    have hbody := Writes.list (writes_expressions h (Nat.le_refl _)) (by simpa using hne)
    have hspells := ((Spells.keyword hfunction).mono (Nat.zero_le _)).append hbody.spells
    rwa [String.append_assoc] at hspells ⊢
  · intro names es hes hnames hpaced
    obtain ⟨keyword, body, hkeyword, hbody, rfl⟩ := List.forall₂_cons_left_iff.mp hes
    rw [mentions_clause family, hlast, if_pos rfl] at hnames ⊢
    rw [Mention.resolves_append, Bool.and_eq_true] at hnames
    have hlist := isList_of_readsAll h hne hbody hnames.1 (everywhere_iff.mp hpaced).2
    have hresolved := resolved_of_references hlisted hnames.2
    have hbound : ∀ names, Mention.bound names (references xs) = names := by
      intro names
      clear * -
      induction xs with
      | nil => rfl
      | cons x xs ih => cases x <;> exact ih
    rw [Mention.bound_append, hbound]
    refine ⟨keyword, body, rfl, isClause_of_reads hclause hkeyword hlist.begins.1 hlist.begins.2
      fun after hafter => ?_⟩
    have hproduce : Clause.produce s kind.family kind keyword (body ++ after) =
        Clause.projection s kind keyword.token (body ++ after) := by
      obtain rfl | rfl | rfl := lists <;> rfl
    dsimp only
    rw [hproduce]
    exact Clause.yields_projection hlist hresolved hafter kind keyword.token span

/-! ## Conditions -/

/-- A clause with a condition is read back if the condition is. -/
theorem isClauseSketch_filter {condition : Operator} {span : Option Span}
    (filters : kind = .whereClause ∨ kind = .having) (h : IsSketchedAs s raw condition sketches)
    (hcondition : condition.isCondition = true) :
    IsClauseSketch s raw ⟨kind, none, [.operator condition], span⟩ (.keyword kind :: sketches) := by
  have hkind : kind.family = .clause ∧ kind.isClause = true ∧ kind.isFunction = false ∧
      kind.looksUpLast = false ∧ kind ≠ .orderBy ∧ kind ≠ .timeRange := by
    obtain rfl | rfl := filters <;> decide
  obtain ⟨family, hclause, hfunction, hlast, hordering, hrange⟩ := hkind
  constructor
  · have hdepth : depthIn .select [.operator condition] = condition.depth :=
      depthIn_operator (by decide) condition
    have htext : commaList ([.operator condition].map (Operand.render s.registry)) =
        condition.render s.registry := by
      simp [commaList, Operand.render]
    rw [render_clause family hordering hrange, depth_clause family hrange, hdepth, htext,
      String.append_assoc]
    have hspells := ((Spells.keyword hfunction).mono (Nat.zero_le _)).append h.writes.spells
    rwa [String.append_assoc] at hspells
  · intro names es hes hnames hpaced
    obtain ⟨keyword, body, hkeyword, hbody, rfl⟩ := List.forall₂_cons_left_iff.mp hes
    have hmentions : (Operator.mk kind none [.operator condition] span).mentions =
        condition.mentions := by
      rw [mentions_clause family, hlast, mentionsIn_operator]
      exact List.append_nil _
    rw [hmentions] at hnames ⊢
    have hread := h.reads names body hbody hnames
      ((everywhere_iff.mp hpaced).2 condition (List.mem_cons_self ..))
    refine ⟨keyword, body, rfl, isClause_of_reads hclause hkeyword hread.nonempty hread.begins
      fun after hafter => ?_⟩
    have hproduce : Clause.produce s kind.family kind keyword (body ++ after) =
        Clause.condition s kind keyword.token (body ++ after) := by
      obtain rfl | rfl := filters <;> rfl
    dsimp only
    rw [hproduce]
    exact Clause.yields_condition (hread.group hcondition) hcondition hafter kind keyword.token span

/-! ## Orderings -/

/-- A direction is a word that is no keyword. -/
lemma isToken_direction {word : String} (h : word = "asc" ∨ word = "desc") :
    Writes.IsToken raw False (upperCase word) (.word (upperCase word)) := by
  obtain rfl | rfl := h
  all_goals
    refine ⟨rfl, rfl, ⟨?_, ?_, Nat.le_refl 0⟩⟩
    · simp only [Sound]
      decide +kernel
    · simp only [Steady]
      decide +kernel

/-- What goes on with a phrase goes on with an entry of an ordering. -/
lemma continuesEntry_of_reads {sketch : Sketch} {e : Element} (h : sketch.Reads s e)
    (hcontinues : Phrase.continues e.token = true) : Clause.continuesEntry e.token = true := by
  simp only [Phrase.continues, Phrase.separates, Bool.and_eq_true, Bool.not_eq_true',
    Bool.or_eq_false_iff] at hcontinues
  obtain ⟨⟨hdelimiter, -⟩, hclause⟩ := hcontinues
  have hrule : e.token.rule.any Kind.isClause = false := by
    cases h with
    | @keyword kind e item rule class_ =>
      rw [rule, Option.any_some]
      by_contra hkind
      rw [Bool.not_eq_false] at hkind
      have hword : kind.tokenKind = .word := by
        revert hkind
        cases kind <;> decide
      simp [Token.isClause, class_, hword, rule, hkind] at hclause
    | call reads item parameters_eq rule class_ =>
      simpa [Token.isClause, class_] using hclause
    | group reads item rule => simp [rule]
    | word leaf | bracketed leaf | quoted leaf | comma leaf => simp [leaf.rule]
  simp [Clause.continuesEntry, hdelimiter, hrule]

/-- Elements that go on with a phrase go on with an entry of an ordering. -/
lemma continuesEntry_of_readsAll {es : List Element} (h : Sketch.ReadsAll s sketches es)
    (hcontinues : ∀ e ∈ es, Phrase.continues e.token = true) :
    ∀ e ∈ es, Clause.continuesEntry e.token = true := by
  induction h with
  | nil => simp
  | cons hfirst _ ih =>
    obtain ⟨he, hrest⟩ := List.forall_mem_cons.mp hcontinues
    exact List.forall_mem_cons.mpr ⟨continuesEntry_of_reads hfirst he, ih hrest⟩

/-- The references of an expression are looked up where it stands in an ordering. -/
lemma resolves_expression {names : List String}
    (hx : (ShapeRules.written s.registry).listed x)
    (h : Mention.resolves s.registry names (mentionsIn true [x]) = true) :
    Mention.resolves s.registry names (mentionsIn false [x]) = true ∧
      Mention.bound names (mentionsIn false [x]) = Mention.bound names (mentionsIn true [x]) ∧
        Resolved s.registry (Mention.bound names (mentionsIn true [x])) x := by
  cases x with
  | property p => exact ⟨rfl, rfl, resolved_reference hx h⟩
  | value v => exact hx.elim
  | operator op =>
    rw [mentionsIn_operator] at h
    rw [mentionsIn_operator, mentionsIn_operator]
    exact ⟨h, rfl, trivial⟩

/-- An expression with a direction behind it is an entry of an ordering. -/
lemma isEntry_of_readsAll {word : String} (h : IsExpression s raw x sketches)
    (hx : (ShapeRules.written s.registry).listed x) (hword : word = "asc" ∨ word = "desc")
    {names : List String} {es : List Element}
    (hes : Sketch.ReadsAll s (sketches ++ [.word (upperCase word)]) es)
    (hnames : Mention.resolves s.registry names (mentionsIn true [x]) = true)
    (hpaced : ∀ op, x = .operator op → op.Everywhere (Paced s.ceilings.steps)) :
    Clause.IsEntry s names (Mention.bound names (mentionsIn true [x])) es x word := by
  obtain ⟨hlater, hbound, hresolved⟩ := resolves_expression hx hnames
  obtain ⟨body, more, rfl, hbody, hmore⟩ := readsAll_append hes
  obtain ⟨last, rfl, hlast⟩ := readsAll_single hmore
  have hphrase := h.reads names body hbody hlater hpaced
  rw [hbound] at hphrase
  cases hlast with
  | word leaf class_ =>
    refine ⟨⟨body, last, rfl, hphrase, leaf, class_⟩, ?_, hword, hresolved⟩
    refine continuesEntry_of_readsAll hes fun e he => ?_
    obtain he | he := List.mem_append.mp he
    · exact hphrase.continues e he
    · rw [List.mem_singleton.mp he]
      exact leaf.continues (by rw [class_]; decide)

/-- The sketches of the entries of an ordering, given those of its expressions. -/
def entrySketches (entries : List (Operand × String)) (sketches : List (List Sketch)) :
    List (List Sketch) :=
  List.zipWith (fun entry sketch => sketch ++ [.word (upperCase entry.2)]) entries sketches

/-- Entries with commas between them are an ordering. -/
lemma isOrdering_of_readsAll {entries : List (Operand × String)} {sketches : List (List Sketch)}
    (h : List.Forall₂ (fun entry sketch => IsExpression s raw entry.1 sketch) entries sketches)
    (hne : entries ≠ [])
    (hlisted : ∀ entry ∈ entries, (ShapeRules.written s.registry).listed entry.1)
    (hwords : ∀ entry ∈ entries, entry.2 = "asc" ∨ entry.2 = "desc") {names : List String}
    {es : List Element}
    (hes : Sketch.ReadsAll s ([.comma].intercalate (entrySketches entries sketches)) es)
    (hnames : Mention.resolves s.registry names (mentionsIn true (orderOperands entries)) = true)
    (hpaced : ∀ op, .operator op ∈ orderOperands entries →
      op.Everywhere (Paced s.ceilings.steps)) :
    Clause.IsOrdering s names (Mention.bound names (mentionsIn true (orderOperands entries))) es
      entries := by
  rw [mentionsIn_orderOperands] at hnames ⊢
  induction h generalizing names es with
  | nil => exact absurd rfl hne
  | @cons entry sketch entries sketches hfirst hrest ih =>
    obtain ⟨hlisted₁, hlisteds⟩ := List.forall_mem_cons.mp hlisted
    obtain ⟨hword, hwords⟩ := List.forall_mem_cons.mp hwords
    have hpaced₁ : ∀ op, entry.1 = .operator op → op.Everywhere (Paced s.ceilings.steps) :=
      fun op hop => hpaced op (by simp [orderOperands, hop])
    have hpaceds : ∀ op, .operator op ∈ orderOperands entries →
        op.Everywhere (Paced s.ceilings.steps) := by
      intro op hop
      refine hpaced op ?_
      rw [orderOperands, List.flatMap_cons]
      exact List.mem_append_right _ hop
    rw [List.flatMap_cons, Mention.resolves_append, Bool.and_eq_true] at hnames
    rw [List.flatMap_cons, Mention.bound_append]
    rw [entrySketches, List.zipWith_cons_cons] at hes
    cases hrest with
    | nil =>
      rw [List.zipWith_nil_right, List.intercalate_singleton] at hes
      exact .one (isEntry_of_readsAll hfirst hlisted₁ hword hes hnames.1 hpaced₁)
    | @cons next sketch' entries sketches hsecond hrest =>
      rw [List.zipWith_cons_cons, List.intercalate_cons_cons, List.append_assoc] at hes
      obtain ⟨es₁, more, rfl, hes₁, hmore⟩ := readsAll_append hes
      obtain ⟨comma, es₂, hcomma, hes₂, rfl⟩ := List.forall₂_cons_left_iff.mp hmore
      exact .more (isEntry_of_readsAll hfirst hlisted₁ hword hes₁ hnames.1 hpaced₁) hcomma
        (ih (List.cons_ne_nil _ _) hlisteds hwords hes₂ hnames.2 hpaceds)

/-- Entries of an ordering are written by their sketches one by one. -/
lemma writes_entrySketches {entries : List (Operand × String)} {sketches : List (List Sketch)}
    (h : List.Forall₂ (fun entry sketch => IsExpression s raw entry.1 sketch) entries sketches)
    (hwords : ∀ entry ∈ entries, entry.2 = "asc" ∨ entry.2 = "desc") {n : Nat}
    (hdepth : depthIn .select (orderOperands entries) ≤ n) :
    List.Forall₂ (Writes raw n)
      (entries.map fun entry => entry.1.render s.registry ++ " " ++ upperCase entry.2)
      (entrySketches entries sketches) := by
  induction h with
  | nil => exact .nil
  | @cons entry sketch entries sketches hfirst _ ih =>
    obtain ⟨hword, hwords⟩ := List.forall_mem_cons.mp hwords
    have hcons : orderOperands (entry :: entries) =
        entry.1 :: .value (.ofString entry.2) :: orderOperands entries := rfl
    rw [hcons, depthIn_cons, depthIn] at hdepth
    refine .cons ((hfirst.writes.mono (by omega)).append ?_) (ih hwords (by omega))
    exact (Writes.of_token (isToken_direction hword)).mono (Nat.zero_le _)

/-- An ordering by expressions is read back. -/
theorem isClauseSketch_ordering {entries : List (Operand × String)} {sketches : List (List Sketch)}
    {span : Option Span}
    (h : List.Forall₂ (fun entry sketch => IsExpression s raw entry.1 sketch) entries sketches)
    (hne : entries ≠ [])
    (hlisted : ∀ entry ∈ entries, (ShapeRules.written s.registry).listed entry.1)
    (hwords : ∀ entry ∈ entries, entry.2 = "asc" ∨ entry.2 = "desc") :
    IsClauseSketch s raw ⟨.orderBy, none, orderOperands entries, span⟩
      (.keyword .orderBy :: [.comma].intercalate (entrySketches entries sketches)) := by
  constructor
  · rw [render_ordering, depth_clause rfl (by decide)]
    have hbody := Writes.list (writes_entrySketches h hwords (Nat.le_refl _)) (by simpa using hne)
    have hkeyword : Spells raw 0 Kind.orderBy.keyword [.keyword .orderBy] := .keyword rfl
    have hspells := (hkeyword.mono (Nat.zero_le _)).append hbody.spells
    rwa [String.append_assoc] at hspells
  · intro names es hes hnames hpaced
    obtain ⟨keyword, body, hkeyword, hbody, rfl⟩ := List.forall₂_cons_left_iff.mp hes
    have hmentions : (Operator.mk .orderBy none (orderOperands entries) span).mentions =
        mentionsIn true (orderOperands entries) := by
      rw [mentions_clause rfl]
      exact List.append_nil _
    rw [hmentions] at hnames ⊢
    have hordering := isOrdering_of_readsAll h hne hlisted hwords hbody hnames
      (everywhere_iff.mp hpaced).2
    refine ⟨keyword, body, rfl, isClause_of_reads rfl hkeyword hordering.begins.1
      hordering.begins.2 fun after hafter => ?_⟩
    refine (Clause.yields_orderEntries hordering hafter keyword.token).bind ?_
    rintro ⟨operands, left⟩ ⟨hoperands, rfl⟩
    refine .pure ⟨?_, rfl⟩
    rw [core_eq_iff]
    exact ⟨rfl, rfl, hoperands⟩

/-! ## Limits and ranges -/

/-- A limit by a writable count is read back. -/
theorem isClauseSketch_limit {v : ScalarValue} {span : Option Span}
    (hv : v.IsWritable s.registry raw) (htype : v.type = .number) (hcount : v.isCount = true) :
    IsClauseSketch s raw ⟨.limit, none, [.value v], span⟩
      [.keyword .limit, v.sketch s.registry] := by
  constructor
  · have htext : commaList ([.value v].map (Operand.render s.registry)) = v.render s.registry := by
      simp [commaList, Operand.render]
    rw [render_clause rfl (by decide) (by decide), depth_clause rfl (by decide), htext]
    have hkeyword : Spells raw 0 Kind.limit.keyword [.keyword .limit] := .keyword rfl
    exact hkeyword.append (Writes.of_token (isToken_scalar hv False)).spells
  · intro names es hes _ _
    obtain ⟨keyword, e, rfl, hkeyword, he⟩ := readsAll_pair hes
    have hbegins : ∀ f ∈ [e].head?, Phrase.continues f.token = true := by
      simpa using (denotes_scalar hv e he).1
    refine ⟨keyword, [e], rfl, isClause_of_reads rfl hkeyword (List.cons_ne_nil _ _) hbegins
      fun after hafter => ?_⟩
    exact Clause.yields_limit (denotes_scalar hv) he htype hcount hafter keyword.token span

/-- A range of time with writable bounds is read back. -/
theorem isClauseSketch_timeRange {first last : ScalarValue} {span : Option Span}
    (hfirst : first.IsWritable s.registry raw) (hlast : last.IsWritable s.registry raw)
    (firstType : first.type = .string ∨ first.type = .number)
    (lastType : last.type = .string ∨ last.type = .number) :
    IsClauseSketch s raw ⟨.timeRange, none, [.value first, .value last], span⟩
      [.call .timeRange ([.comma].intercalate
        (([first, last].map fun v => v.sketch s.registry).map ([·])))] := by
  have hwritable : ∀ v ∈ [first, last], v.IsWritable s.registry raw := by
    simpa using ⟨hfirst, hlast⟩
  obtain ⟨htokens, hdenotes⟩ := tokens_scalars hwritable (False ∨ Kind.timeRange = .regexpMatch)
  constructor
  · have hdepth : (Operator.mk .timeRange none [.value first, .value last] span).depth = 1 := rfl
    have hfunction : Kind.timeRange.isFunction = true := rfl
    rw [render_timeRange, hdepth]
    exact (Writes.call hfunction htokens).spells
  · intro names es hes _ hpaced
    obtain ⟨e, rfl, he⟩ := readsAll_single hes
    have hsteps : 2 ≤ s.ceilings.steps := hpaced.root.2
    refine ⟨e, [], rfl, ?_⟩
    cases he with
    | call reads item parameters_eq rule class_ owns =>
      refine ⟨rule, by simp [Token.isClause, class_, rule, Kind.isClause, Kind.family], .inl owns,
        fun after hafter => ?_⟩
      refine (Clause.yields_timeRange hdenotes hsteps
        (.call reads item parameters_eq rule class_ owns) firstType lastType span).bind
          fun made hmade => .pure ⟨hmade, rfl⟩

/-! ## All clauses -/

/-- Every writable clause is read from its text as it was. -/
theorem exists_isClauseSketch (s : Setting) (raw : Lexeme → Prop) {clause : Operator}
    (h : clause.Everywhere (IsWritable s.registry raw)) (hclause : clause.kind.isClause = true) :
    ∃ sketches, IsClauseSketch s raw clause sketches := by
  obtain ⟨⟨hshaped, hscalars, -⟩, hchildren⟩ := everywhere_iff.mp h
  cases hshaped with
  | @listing kind operands span lists hlisted size =>
    obtain ⟨entries, hentries⟩ : ∃ entries, List.Forall₂ (IsExpression s raw) operands entries :=
      exists_forall₂ fun x hx => exists_isExpression (hlisted x hx) fun op hop =>
        hchildren op (hop ▸ hx)
    exact ⟨_, isClauseSketch_listing lists hentries (List.ne_nil_of_length_pos size) hlisted⟩
  | @filter kind condition span filters hcondition =>
    obtain ⟨sketches, hsketches⟩ := exists_isSketchedAs s raw condition
      (hchildren condition (List.mem_cons_self ..)) (Kind.isClause_of_isCondition hcondition)
    exact ⟨_, isClauseSketch_filter filters hsketches hcondition⟩
  | @ordering entries span hlisted directions size =>
    obtain ⟨sketches, hsketches⟩ : ∃ sketches, List.Forall₂
        (fun entry sketch => IsExpression s raw entry.1 sketch) entries sketches :=
      exists_forall₂ fun entry hentry => exists_isExpression (hlisted entry hentry) fun op hop =>
        hchildren op (List.mem_flatMap.mpr ⟨entry, hentry, by simp [hop]⟩)
    exact ⟨_, isClauseSketch_ordering hsketches (List.ne_nil_of_length_pos size) hlisted directions⟩
  | @limit v span _ hcount =>
    have htype : v.type = .number := by
      revert hcount
      rw [ScalarValue.isCount, ScalarValue.decimal?, ScalarValue.type]
      cases v.value <;> simp [Scalar.type]
    exact ⟨_, isClauseSketch_limit (hscalars rfl v (List.mem_cons_self ..)) htype hcount⟩
  | @timeRange first last span _ _ firstType lastType =>
    exact ⟨_, isClauseSketch_timeRange (hscalars rfl first (List.mem_cons_self ..))
      (hscalars rfl last (List.mem_cons_of_mem _ (List.mem_cons_self ..))) firstType lastType⟩
  | comparison family =>
    rw [stated_kind, Kind.isClause_eq_false (by rw [family]; decide)] at hclause
    cases hclause
  | membership family =>
    rw [stated_kind, Kind.isClause_eq_false (by rw [family]; decide)] at hclause
    cases hclause
  | existence family | function family =>
    rw [Kind.isClause_eq_false (by rw [family]; decide)] at hclause
    cases hclause
  | negation | naming => cases hclause
  | @group connective => cases connective <;> cases hclause

end Operator

end RecordQuery
