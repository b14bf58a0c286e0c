import RecordQuery.Proofs.Settling

/-!
# Gathering phrases

The elements of a phrase are read one by one into the items that are settled afterwards. What stands
in parentheses is read in its place: the parameters of a function are phrases of one token each, and
a group is read as the condition in it.
-/

namespace RecordQuery

open Reader Item

/-! ## Sketches that continue a phrase -/

namespace Sketch

/-- Whether a sketch is one token that shows an operand. -/
def Denotes (s : Setting) (x : Operand) (sketch : Sketch) : Prop :=
  ∀ e, sketch.Reads s e → Phrase.continues e.token = true ∧
    ∃ token, e.item = pure (ofToken token) ∧ Item.Shows s.registry x (ofToken token)

/-- A single token that is no delimiter goes on with a phrase. -/
lemma IsLeaf.continues {text : String} {e : Element} (h : IsLeaf text e)
    (hclass : e.token.kind ≠ .delimiter) : Phrase.continues e.token = true := by
  simp [Phrase.continues, Phrase.separates, Token.isDelimiter, Token.isConnective, Token.isClause,
    h.rule, hclass]

/-- A keyword that is neither a clause nor a connective goes on with a phrase. -/
lemma continues_of_rule {t : Token} {kind : Kind} (hrule : t.rule = some kind)
    (hclass : t.kind ≠ .delimiter) (hclause : kind.isClause = false)
    (hconnective : kind.isConnective = false) : Phrase.continues t = true := by
  simp [Phrase.continues, Phrase.separates, Token.isDelimiter, Token.isConnective, Token.isClause,
    hrule, hclass, hclause, hconnective]

/-- The sketch of a reference denotes it. -/
lemma denotes_reference (s : Setting) (p : PropertyRef) :
    (p.sketch s.registry).Denotes s (.property p) := by
  intro e h
  unfold PropertyRef.sketch at h
  split at h
  · cases h with
    | word leaf hclass =>
      exact ⟨leaf.continues (by rw [hclass]; decide), e.token, leaf.item,
        .property ⟨.inl hclass, leaf.text_eq⟩⟩
  · cases h with
    | bracketed leaf hclass =>
      exact ⟨leaf.continues (by rw [hclass]; decide), e.token, leaf.item,
        .property ⟨.inr hclass, leaf.text_eq⟩⟩

/-- A word that is inferred to be a scalar shows it. -/
lemma denotes_word {s : Setting} {v : ScalarValue} {text : String}
    (h : (ScalarValue.infer text false).value = v.value) (hstring : v.type ≠ .string) :
    (Sketch.word text).Denotes s (.value v) := by
  intro e hreads
  cases hreads with | word leaf hclass => ?_
  refine ⟨leaf.continues (by rw [hclass]; decide), e.token, leaf.item, .value ⟨.inl hclass, ?_⟩⟩
  have hliteral : e.token.isLiteral = false := by rw [Token.isLiteral, hclass]; rfl
  rw [leaf.text_eq, hliteral, ScalarValue.resolveNames]
  have hnot : ∀ t, (ScalarValue.infer text false).value ≠ .string t := by
    intro t ht
    refine hstring ?_
    rw [ScalarValue.type, ← h, ht]
    rfl
  split
  · rename_i t ht
    exact absurd ht (hnot t)
  · exact h

/-- A quotation denotes the value that its text is resolved to. -/
lemma denotes_quoted {s : Setting} {v : ScalarValue} {lexeme : Lexeme} {text : String}
    (h : ((ScalarValue.ofString text).resolveNames s.registry).value = v.value) :
    (Sketch.quoted lexeme text).Denotes s (.value v) := by
  intro e hreads
  cases hreads with | quoted leaf hclass => ?_
  have hliteral : e.token.isLiteral = true := by
    obtain hclass | hclass := hclass <;> rw [Token.isLiteral, hclass] <;> rfl
  have hdelimiter : e.token.kind ≠ .delimiter := by
    obtain hclass | hclass := hclass <;> rw [hclass] <;> decide
  refine ⟨leaf.continues hdelimiter, e.token, leaf.item, .value ⟨.inr hclass, ?_⟩⟩
  rw [leaf.text_eq, hliteral]
  exact h

/-- The sketch of a writable scalar denotes it. -/
lemma denotes_scalar {s : Setting} {v : ScalarValue} {raw : Lexeme → Prop}
    (h : v.IsWritable s.registry raw) : (v.sketch s.registry).Denotes s (.value v) := by
  have hinfer : ∀ text : String, Decimal.ofPlain? text.toList = none →
      ScalarValue.infer text false =
        if text = "null" then ⟨.null, text⟩
        else if text = "true" then ⟨.boolean true, text⟩
        else if text = "false" then ⟨.boolean false, text⟩
        else ⟨.string text, text⟩ := by
    intro text htext
    simp only [ScalarValue.infer, htext, Bool.false_eq_true, if_false]
  unfold ScalarValue.sketch
  split
  · rename_i t ht
    exact denotes_quoted (h.readBack t ht)
  · rename_i d hd
    refine denotes_word ?_ (by rw [ScalarValue.type, hd]; exact fun h => nomatch h)
    have hplain : Decimal.ofPlain? d.text.toList = some d := by
      rw [Decimal.text, String.toList_ofList, Decimal.ofPlain?_toChars]
    simp only [ScalarValue.infer, hplain, Bool.false_eq_true, if_false, hd]
  · rename_i b hb
    refine denotes_word ?_ (by rw [ScalarValue.type, hb]; exact fun h => nomatch h)
    rw [hb]
    cases b
    · rw [hinfer _ (by decide +kernel)]
      rfl
    · rw [hinfer _ (by decide +kernel)]
      rfl
  · rename_i hnull
    refine denotes_word ?_ (by rw [ScalarValue.type, hnull]; exact fun h => nomatch h)
    rw [hinfer _ (by decide +kernel), hnull]
    rfl

/-- The sketch of a pattern denotes it. -/
lemma denotes_pattern {s : Setting} {v : ScalarValue} (h : v.IsPattern s.registry) :
    v.patternSketch.Denotes s (.value v) := denotes_quoted h.readBack

end Sketch

namespace Phrase

/-! ## Reading elements -/

variable {s : Setting} {names names' names'' : List String}

/-- Whether elements are read into items that have a property, whatever stands behind them. -/
def Gathers (names names' : List String) (es : List Element) (P : List Item → Prop) : Prop :=
  ∀ after, Yields names names' P (readAll es after)

/-- What elements are gathered to may be said in a weaker way. -/
lemma Gathers.mono {es : List Element} {P Q : List Item → Prop} (h : Gathers names names' es P)
    (hPQ : ∀ items, P items → Q items) : Gathers names names' es Q :=
  fun after => (h after).mono hPQ

/-- One element is gathered to its item. -/
lemma Gathers.single {e : Element} {P : Item → Prop} (h : Yields names names' P e.item) :
    Gathers names names' [e] (fun items => ∃ item, items = [item] ∧ P item) := by
  intro after
  refine h.adapt.bind fun item hitem => ?_
  exact (Yields.pure rfl).bind fun _ hrest => .pure ⟨item, by rw [← hrest], hitem⟩

/-- Elements in two parts are read one part after the other. -/
lemma readAll_append (es es' after : List Element) :
    readAll (es ++ es') after = (do
      let items ← readAll es (es' ++ after)
      let items' ← readAll es' after
      return items ++ items') := by
  induction es with
  | nil => simp [readAll]
  | cons e es ih =>
    rw [List.cons_append, readAll, ih, readAll]
    simp [List.append_assoc]

/-- Elements in two parts are gathered to items in two parts. -/
lemma Gathers.append {es es' : List Element} {P Q : List Item → Prop}
    (h : Gathers names names' es P) (h' : Gathers names' names'' es' Q) :
    Gathers names names'' (es ++ es') (fun items => ∃ a b, items = a ++ b ∧ P a ∧ Q b) := by
  intro after
  rw [readAll_append]
  exact (h _).bind fun a ha => (h' _).bind fun b hb => .pure ⟨a, b, rfl, ha, hb⟩

/-- A token that shows an operand is read as it stands. -/
lemma Gathers.leaf {x : Operand} {sketch : Sketch} {e : Element} (hx : sketch.Denotes s x)
    (h : sketch.Reads s e) :
    Gathers names names [e] (fun items => ∃ token, items = [ofToken token] ∧
      Shows s.registry x (ofToken token)) := by
  obtain ⟨-, token, hitem, hshows⟩ := hx e h
  have hread : Yields names names (fun item => item = ofToken token) e.item := by
    rw [hitem]
    exact .pure rfl
  refine (Gathers.single hread).mono ?_
  rintro _ ⟨_, rfl, rfl⟩
  exact ⟨token, rfl, hshows⟩

/-- A keyword without parentheses is read as an operator that waits for its neighbours. -/
lemma Gathers.keyword {kind : Kind} {e : Element} (h : (Sketch.keyword kind).Reads s e) :
    Gathers names names [e]
      (fun items => items = [⟨e.token, e.token.fullSpan, .pending kind none⟩]) := by
  cases h with
  | keyword item =>
    have hread : Yields names names
        (fun i => i = ⟨e.token, e.token.fullSpan, .pending kind none⟩) e.item := by
      rw [item]
      exact .pure rfl
    refine (Gathers.single hread).mono ?_
    rintro _ ⟨_, rfl, rfl⟩
    rfl

/-! ## One phrase -/

/-- Whether a phrase ends before some elements. -/
def Ends (after : List Element) : Prop := ∀ e ∈ after.head?, continues e.token = false

/-- A phrase is still the first one where it ends before others. -/
lemma run_append_of_run {es after : List Element} (hne : es ≠ []) (hes : run es = es)
    (hafter : Ends after) : run (es ++ after) = es ∧ afterRun (es ++ after) = after := by
  cases es with
  | nil => exact absurd rfl hne
  | cons e es =>
    rw [run] at hes
    split at hes
    · cases hes
    · rename_i hseparates
      have hall := List.takeWhile_eq_self_iff.mp (List.cons.inj hes).2
      have htail : after.takeWhile (fun e => continues e.token) = [] ∧
          after.dropWhile (fun e => continues e.token) = after := by
        cases after with
        | nil => exact ⟨rfl, rfl⟩
        | cons f after => simp [hafter f rfl]
      constructor
      · rw [List.cons_append, run, if_neg hseparates, List.takeWhile_append_of_pos hall, htail.1,
          List.append_nil]
      · rw [List.cons_append, afterRun, if_neg hseparates, List.dropWhile_append_of_pos hall,
          htail.2]

/-- Elements that go on with a phrase are taken together, up to what ends it. -/
lemma run_append {es after : List Element} (hne : es ≠ [])
    (hes : ∀ e ∈ es, continues e.token = true) (hafter : Ends after) :
    run (es ++ after) = es ∧ afterRun (es ++ after) = after := by
  refine run_append_of_run hne ?_ hafter
  cases es with
  | nil => exact absurd rfl hne
  | cons e es =>
    obtain ⟨he, hes⟩ := List.forall_mem_cons.mp hes
    have hseparates : ¬ separates e.token = true := by
      intro h
      simp [continues, h] at he
    rw [run, if_neg hseparates, List.takeWhile_eq_self_iff.mpr hes]

/-- Whether elements are a phrase that is read as an operand. -/
structure IsPhrase (s : Setting) (names names' : List String) (es : List Element) (x : Operand) :
    Prop where
  nonempty : es ≠ []
  continues : ∀ e ∈ es, continues e.token = true
  reads : ∃ middle, Gathers names middle es fun items =>
    Yields middle names' (Shows s.registry x) (reduce s items)

variable {x : Operand} {es after : List Element}

/-- A phrase is drawn as one item. -/
lemma IsPhrase.yields_drawOne (h : IsPhrase s names names' es x) (hafter : Ends after) :
    Yields names names' (fun item? => ∃ item, item? = some item ∧ Shows s.registry x item)
      (drawOne s (es ++ after)) := by
  obtain ⟨middle, hreads⟩ := h.reads
  obtain ⟨hrun, hrest⟩ := run_append h.nonempty h.continues hafter
  unfold drawOne
  rw [hrun, hrest]
  obtain ⟨e, es, rfl⟩ := List.exists_cons_of_ne_nil h.nonempty
  refine (hreads after).bind fun items hitems => ?_
  exact hitems.adapt.bind fun item hitem => .pure ⟨item, rfl, hitem⟩

/-- A single token that denotes an operand is a phrase. -/
lemma IsPhrase.of_leaf {sketch : Sketch} {e : Element} (hx : sketch.Denotes s x)
    (h : sketch.Reads s e) : IsPhrase s names names [e] x := by
  refine ⟨List.cons_ne_nil _ _, by simpa using (hx e h).1, names, ?_⟩
  refine (Gathers.leaf hx h).mono ?_
  rintro _ ⟨token, rfl, hshows⟩
  exact (Chains.of_condenses (.of_shows hshows)).reduce (Nat.zero_le _)

/-! ## Parameters -/

/-- A comma ends a phrase. -/
lemma continues_comma {e : Element} (h : Sketch.comma.Reads s e) :
    continues e.token = false ∧ e.token.isComma = true := by
  cases h with
  | comma leaf hclass =>
    simp [continues, separates, Token.isDelimiter, Token.isComma, hclass, leaf.text_eq]

/-- Operands with commas between them are drawn as parameters. -/
lemma yields_drawParameters (owner : Token) {xs : List Operand} {leaves : List Sketch}
    (hxs : List.Forall₂ (Sketch.Denotes s) xs leaves) (hne : xs ≠ []) {budget : Nat}
    (hbudget : xs.length ≤ budget) {es : List Element}
    (h : Sketch.ReadsAll s ([.comma].intercalate (leaves.map ([·]))) es) :
    Yields names names (List.Forall₂ (Shows s.registry) xs) (drawParameters s owner budget es) := by
  induction hxs generalizing budget es with
  | nil => exact absurd rfl hne
  | @cons x leaf xs leaves hx hrest ih =>
    have hpositive : ¬ budget = 0 := by
      rw [List.length_cons] at hbudget
      omega
    rw [drawParameters_eq]
    simp only [if_neg hpositive]
    cases hrest with
    | nil =>
      -- the last parameter stands at the end
      obtain ⟨e, _, hleaf, hnil, rfl⟩ := List.forall₂_cons_left_iff.mp h
      cases hnil
      have hphrase : IsPhrase s names names [e] x := .of_leaf hx hleaf
      have hafter : Ends [] := by simp [Ends]
      have hdraw := hphrase.yields_drawOne hafter
      obtain ⟨-, hend⟩ := run_append (List.cons_ne_nil e []) (by simpa using (hx e hleaf).1) hafter
      refine hdraw.adapt.bind ?_
      rintro _ ⟨item, rfl, hitem⟩
      dsimp only
      rw [List.append_nil] at hend
      rw [hend]
      exact .pure (.cons hitem .nil)
    | @cons y leaf' xs leaves hy hrest =>
      rw [List.map_cons, List.map_cons, List.intercalate_cons_cons] at h
      obtain ⟨e, _, hleaf, htail, rfl⟩ := List.forall₂_cons_left_iff.mp h
      -- a comma ends every other one
      obtain ⟨comma, es, hcomma, hmore, rfl⟩ := List.forall₂_cons_left_iff.mp htail
      obtain ⟨hends, hisComma⟩ := continues_comma hcomma
      have hafter : Ends (comma :: es) := by simpa [Ends] using hends
      have hphrase : IsPhrase s names names [e] x := .of_leaf hx hleaf
      have hdraw := hphrase.yields_drawOne hafter
      obtain ⟨-, hend⟩ := run_append (List.cons_ne_nil e []) (by simpa using (hx e hleaf).1) hafter
      refine hdraw.adapt.bind ?_
      rintro _ ⟨item, rfl, hitem⟩
      dsimp only
      rw [List.singleton_append] at hend
      rw [hend]
      simp only [hisComma, if_true]
      rw [List.length_cons] at hbudget
      refine (ih (List.cons_ne_nil _ _) (by omega) ?_).bind fun items hitems =>
        .pure (.cons hitem hitems)
      exact hmore

/-- The parameters in parentheses show what their sketches denote. -/
lemma yields_parameters (owner : Token) {xs : List Operand} {leaves : List Sketch}
    (hxs : List.Forall₂ (Sketch.Denotes s) xs leaves) (hsteps : xs.length ≤ s.ceilings.steps)
    {es : List Element} (h : Sketch.ReadsAll s ([.comma].intercalate (leaves.map ([·]))) es) :
    Yields names names (List.Forall₂ (Shows s.registry) xs) (parameters s owner es) := by
  unfold parameters
  cases hxs with
  | nil =>
    cases h
    exact .pure .nil
  | @cons x leaf xs leaves hx hrest =>
    have hne : es ≠ [] := by
      rintro rfl
      cases leaves <;> cases h
    have hfull : ¬ es.isEmpty = true := by simpa using hne
    rw [if_neg hfull]
    exact yields_drawParameters owner (.cons hx hrest) (List.cons_ne_nil _ _) hsteps h

/-- A keyword with parentheses is read as an operator with parameters. -/
lemma Gathers.call {kind : Kind} {xs : List Operand} {leaves : List Sketch}
    (hxs : List.Forall₂ (Sketch.Denotes s) xs leaves) (hsteps : xs.length ≤ s.ceilings.steps)
    {e : Element} (h : (Sketch.call kind ([.comma].intercalate (leaves.map ([·])))).Reads s e) :
    Gathers names names [e]
      (fun items => ∃ parameters, List.Forall₂ (Shows s.registry) xs parameters ∧
        items = [⟨e.token, e.token.fullSpan, .pending kind (some parameters)⟩]) := by
  cases h with
  | call reads item =>
    have hread : Yields names names
        (fun i => ∃ parameters, List.Forall₂ (Shows s.registry) xs parameters ∧
          i = ⟨e.token, e.token.fullSpan, .pending kind (some parameters)⟩) e.item := by
      rw [item]
      exact (yields_parameters e.token hxs hsteps reads).bind fun parameters hparameters =>
        .pure ⟨parameters, hparameters, rfl⟩
    refine (Gathers.single hread).mono ?_
    rintro _ ⟨_, rfl, parameters, hparameters, rfl⟩
    exact ⟨parameters, hparameters, rfl⟩

end Phrase

end RecordQuery
