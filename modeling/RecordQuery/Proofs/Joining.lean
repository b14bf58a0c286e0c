import RecordQuery.Proofs.Gathering

/-!
# Joining phrases

Phrases with one connective between them are drawn one after the other and fold into a group of the
conditions that they are. A phrase alone folds into itself. So what is read in parentheses, or
behind `WHERE`, is either the one or the other.
-/

namespace RecordQuery

open Reader Item

namespace Phrase

variable {s : Setting} {names names' names'' : List String}

/-- Whether nothing can be joined to a condition before some elements. -/
def Stops (after : List Element) : Prop :=
  ∀ e ∈ after.head?, continues e.token = false ∧ e.token.isConnective = false

/-- A phrase stops at the end of the text. -/
lemma Stops.nil : Stops [] := by simp [Stops]

/-- What stops a group ends a phrase. -/
lemma Stops.ends {after : List Element} (h : Stops after) : Ends after := fun e he => (h e he).1

/-! ## Folding -/

section

variable {connective : Connective}

/-- Whether links are joined by a connective and show conditions. -/
def Linked (registry : Registry) (connective : Connective) (conditions : List Operator)
    (links : List (Token × Item)) : Prop :=
  List.Forall₂ (fun c link => link.1.rule = some connective.kind ∧
    Shows registry (.operator c) link.2) conditions links

/-- Items that show conditions are read as them. -/
lemma yields_conditions {conditions : List Operator} {items : List Item}
    (h : List.Forall₂ (fun c item => Shows s.registry (.operator c) item) conditions items)
    (hconditions : ∀ c ∈ conditions, c.isCondition = true) :
    Yields names names (fun made => made.map Operator.core = conditions.map Operator.core)
      (Phrase.conditions s connective items) := by
  induction h with
  | nil => exact .pure rfl
  | @cons c item conditions items hfirst _ ih =>
    obtain ⟨hc, hrest⟩ := List.forall_mem_cons.mp hconditions
    obtain ⟨op, hop, hcore⟩ := condition?_of_shows hfirst hc
    rw [Phrase.conditions, hop]
    exact (ih hrest).bind fun made hmade => .pure (by
      rw [List.map_cons, List.map_cons, hcore, hmade])

/-- One item is not joined with anything. -/
lemma join_alone (item : Item) : join s connective ⟨item, []⟩ = pure item := rfl

/-- Conditions that are joined become a group. -/
lemma yields_join {c : Operator} {conditions : List Operator} {first : Item}
    {links : List (Token × Item)} (hfirst : Shows s.registry (.operator c) first)
    (hlinks : List.Forall₂ (fun c link => Shows s.registry (.operator c) (Prod.snd link))
      conditions links)
    (hne : conditions ≠ []) (hconditions : ∀ d ∈ c :: conditions, d.isCondition = true) :
    Yields names names
      (Shows s.registry (.operator ⟨connective.kind, none, (c :: conditions).map .operator, none⟩))
      (join s connective ⟨first, links⟩) := by
  cases hlinks with
  | nil => exact absurd rfl hne
  | @cons d link conditions links hd hlinks =>
    have hitems : List.Forall₂ (fun c item => Shows s.registry (.operator c) item)
        (c :: d :: conditions) (first :: link.2 :: links.map Prod.snd) :=
      .cons hfirst (.cons hd (List.forall₂_map_right_iff.mpr hlinks))
    have hmade := @yields_conditions s names connective _ _ hitems hconditions
    unfold join
    dsimp only
    refine hmade.bind fun made hmade => (Yields.recordPhrase _ _ _).bind fun _ _ => .pure ?_
    refine .operator ?_
    rw [Operator.core_withSpan, Operator.core_eq_iff]
    refine ⟨rfl, rfl, ?_⟩
    have hcores := congrArg (List.map Operand.operator) hmade
    simpa [Operator.group, Operand.core, Function.comp_def] using hcores

/-- A chain of `AND`s is one run. -/
lemma andRuns_and {first : Item} {links : List (Token × Item)}
    (h : ∀ link ∈ links, link.1.rule = some .and) :
    andRuns first links = ⟨⟨first, links⟩, []⟩ := by
  induction links generalizing first with
  | nil => rfl
  | cons link links ih =>
    obtain ⟨token, item⟩ := link
    obtain ⟨hlink, hrest⟩ := List.forall_mem_cons.mp h
    rw [andRuns, if_pos hlink, ih hrest]

/-- In a chain of `OR`s each item is a run. -/
lemma andRuns_or {first : Item} {links : List (Token × Item)}
    (h : ∀ link ∈ links, link.1.rule = some .or) :
    andRuns first links = ⟨⟨first, []⟩, links.map fun link => (link.1, ⟨link.2, []⟩)⟩ := by
  induction links generalizing first with
  | nil => rfl
  | cons link links ih =>
    obtain ⟨token, item⟩ := link
    obtain ⟨hlink, hrest⟩ := List.forall_mem_cons.mp h
    have hand : ¬ token.rule = some .and := by rw [hlink]; decide
    rw [andRuns, if_neg hand, ih hrest]
    rfl

/-- Runs of one item are left as they are. -/
lemma joinRuns_alone (links : List (Token × Item)) :
    joinRuns s (links.map fun link => (link.1, ⟨link.2, []⟩)) = pure links := by
  induction links with
  | nil => rfl
  | cons link links ih =>
    rw [List.map_cons, joinRuns, join_alone, pure_bind, ih, pure_bind]

/-- One item is folded into itself. -/
lemma fold_alone (item : Item) : fold s ⟨item, []⟩ = pure item := rfl

/-- Conditions with one connective between them fold into a group. -/
lemma yields_fold {c : Operator} {conditions : List Operator} {first : Item}
    {links : List (Token × Item)} (hfirst : Shows s.registry (.operator c) first)
    (hlinks : Linked s.registry connective conditions links) (hne : conditions ≠ [])
    (hconditions : ∀ d ∈ c :: conditions, d.isCondition = true) :
    Yields names names
      (Shows s.registry (.operator ⟨connective.kind, none, (c :: conditions).map .operator, none⟩))
      (fold s ⟨first, links⟩) := by
  have hrules : ∀ link ∈ links, link.1.rule = some connective.kind := by
    intro link hlink
    obtain ⟨c, hc⟩ := List.forall₂_iff_get.mp hlinks
    obtain ⟨i, hi, rfl⟩ := List.mem_iff_getElem.mp hlink
    exact (hc i (by omega) hi).1
  have hshows : List.Forall₂ (fun c link => Shows s.registry (.operator c) (Prod.snd link))
      conditions links := hlinks.imp fun _ _ h => h.2
  have hjoin := @yields_join s names connective _ _ _ _ hfirst hshows hne hconditions
  unfold fold
  cases connective with
  | and =>
    rw [andRuns_and hrules]
    refine hjoin.bind fun item hitem => ?_
    rw [joinRuns, pure_bind, join_alone]
    exact .pure hitem
  | or =>
    rw [andRuns_or hrules]
    dsimp only
    rw [join_alone, pure_bind, joinRuns_alone, pure_bind]
    exact hjoin

end

/-! ## Drawing -/

section

variable {x : Operand} {es after : List Element}

/-- A phrase is drawn as a term. -/
lemma yields_drawTerm (h : IsPhrase s names names' es x) (hafter : Ends after) {budget : Nat}
    (hbudget : 1 ≤ budget) :
    Yields names names' (fun item? => ∃ item, item? = some item ∧ Shows s.registry x item)
      (drawTerm s budget (es ++ after)) := by
  have hdraw := h.yields_drawOne hafter
  obtain ⟨e, es, rfl⟩ := List.exists_cons_of_ne_nil h.nonempty
  have hpositive : ¬ budget = 0 := by omega
  have hconnective : ¬ e.token.isConnective = true := by
    intro hconnective
    have he := (List.forall_mem_cons.mp h.continues).1
    simp [continues, separates, hconnective] at he
  unfold drawTerm
  simp only [if_neg hpositive, List.cons_append, List.head?_cons, if_neg hconnective] at hdraw ⊢
  exact hdraw

/-- Whether elements are phrases that are read as conditions, with a connective between them. -/
inductive IsChain (s : Setting) (connective : Connective) :
    List String → List String → List Element → List Operator → Prop
  | one {names names' : List String} {es : List Element} {c : Operator}
      (phrase : IsPhrase s names names' es (.operator c)) : IsChain s connective names names' es [c]
  | more {names names' names'' : List String} {es es' : List Element} {c : Operator}
      {conditions : List Operator} {link : Element}
      (phrase : IsPhrase s names names' es (.operator c))
      (keyword : (Sketch.keyword connective.kind).Reads s link)
      (rest : IsChain s connective names' names'' es' conditions) :
      IsChain s connective names names'' (es ++ link :: es') (c :: conditions)

/-- A chain has a condition. -/
lemma IsChain.ne_nil {connective : Connective} {conditions : List Operator}
    (h : IsChain s connective names names' es conditions) : conditions ≠ [] := by
  cases h <;> exact List.cons_ne_nil _ _

/-- A chain has an element. -/
lemma IsChain.nonempty {connective : Connective} {conditions : List Operator}
    (h : IsChain s connective names names' es conditions) : es ≠ [] := by
  cases h with
  | one phrase => exact phrase.nonempty
  | more => simp

/-- A phrase begins with something that goes on with a phrase. -/
lemma IsPhrase.begins {x : Operand} (h : IsPhrase s names names' es x) :
    ∀ e ∈ es.head?, Phrase.continues e.token = true :=
  fun e he => h.continues e (List.mem_of_mem_head? he)

/-- A chain begins with something that goes on with a phrase. -/
lemma IsChain.begins {connective : Connective} {conditions : List Operator}
    (h : IsChain s connective names names' es conditions) :
    ∀ e ∈ es.head?, continues e.token = true := by
  cases h with
  | one phrase => exact phrase.begins
  | more phrase =>
    rw [List.head?_append_of_ne_nil _ phrase.nonempty]
    exact phrase.begins

/-- A keyword that is a connective is read as one, and ends a phrase. -/
lemma isConnective_of_reads {connective : Connective} {link : Element}
    (h : (Sketch.keyword connective.kind).Reads s link) :
    link.token.isConnective = true ∧ continues link.token = false ∧
      link.token.rule = some connective.kind := by
  cases h with
  | keyword item rule class_ =>
    have hconnective : link.token.isConnective = true := by
      rw [Token.isConnective, rule, class_]
      cases connective <;> rfl
    exact ⟨hconnective, by simp [continues, separates, hconnective], rule⟩

/-- Nothing is drawn where nothing can be joined. -/
lemma yields_drawLinks_stop (hafter : Stops after) (budget : Nat) :
    Yields names names (fun made => made = ([], after)) (drawLinks s budget after) := by
  cases after with
  | nil =>
    rw [drawLinks]
    exact .pure rfl
  | cons e after =>
    rw [drawLinks]
    simp only [(hafter e rfl).2, Bool.not_false, if_true]
    exact .pure rfl

/-- The conditions of a chain behind the first one are drawn one by one. -/
lemma yields_drawLinks {connective : Connective} {conditions : List Operator} {link : Element}
    (hlink : (Sketch.keyword connective.kind).Reads s link)
    (h : IsChain s connective names names' es conditions) (hafter : Stops after) {budget : Nat}
    (hbudget : conditions.length ≤ budget) :
    Yields names names'
      (fun made => Linked s.registry connective conditions made.1 ∧ made.2 = after)
      (drawLinks s budget (link :: (es ++ after))) := by
  induction h generalizing link budget with
  | @one names names' es c phrase =>
    obtain ⟨hconnective, -, hrule⟩ := isConnective_of_reads hlink
    obtain ⟨-, hrest⟩ := run_append phrase.nonempty phrase.continues hafter.ends
    rw [drawLinks]
    simp only [hconnective, Bool.not_true, Bool.false_eq_true, if_false]
    refine (yields_drawTerm phrase hafter.ends hbudget).bind ?_
    rintro _ ⟨item, rfl, hitem⟩
    dsimp only
    rw [hrest]
    refine (yields_drawLinks_stop hafter _).bind ?_
    rintro _ rfl
    exact .pure ⟨.cons ⟨hrule, hitem⟩ .nil, rfl⟩
  | @more names names' names'' es es' c conditions next phrase keyword _ ih =>
    obtain ⟨hconnective, -, hrule⟩ := isConnective_of_reads hlink
    obtain ⟨-, hends, -⟩ := isConnective_of_reads keyword
    have hnext : Ends (next :: (es' ++ after)) := by simpa [Ends] using hends
    obtain ⟨-, hrest⟩ := run_append phrase.nonempty phrase.continues hnext
    rw [List.length_cons] at hbudget
    rw [List.append_assoc, List.cons_append, drawLinks]
    simp only [hconnective, Bool.not_true, Bool.false_eq_true, if_false]
    refine (yields_drawTerm phrase hnext (by omega)).bind ?_
    rintro _ ⟨item, rfl, hitem⟩
    dsimp only
    rw [hrest]
    refine (ih keyword (by omega)).bind ?_
    rintro ⟨links, left⟩ ⟨hlinks, rfl⟩
    exact .pure ⟨.cons ⟨hrule, hitem⟩ hlinks, rfl⟩

/-- Whether elements are read as a condition, up to where nothing can be joined to it. -/
def IsGroup (s : Setting) (names names' : List String) (es : List Element) (op : Operator) : Prop :=
  ∀ after, Stops after → Yields names names'
    (fun drawn => ∃ item, drawn = (some item, after) ∧ Shows s.registry (.operator op) item)
    (drawGroup s (es ++ after))

/-- A phrase alone is read as itself. -/
lemma IsGroup.of_phrase {op : Operator} (h : IsPhrase s names names' es (.operator op))
    (hsteps : 1 ≤ s.ceilings.steps) : IsGroup s names names' es op := by
  intro after hafter
  obtain ⟨-, hrest⟩ := run_append h.nonempty h.continues hafter.ends
  rw [drawGroup_eq]
  refine (yields_drawTerm h hafter.ends hsteps).bind ?_
  rintro _ ⟨item, rfl, hitem⟩
  dsimp only
  rw [hrest]
  refine (yields_drawLinks_stop hafter _).bind ?_
  rintro _ rfl
  dsimp only
  rw [fold_alone]
  exact (Yields.pure hitem).adapt.bind fun item hitem => .pure ⟨item, rfl, hitem⟩

/-- Phrases that are joined are read as a group. -/
lemma IsGroup.of_chain {connective : Connective} {conditions : List Operator}
    (h : IsChain s connective names names' es conditions) (hsize : 2 ≤ conditions.length)
    (hsteps : conditions.length ≤ s.ceilings.steps)
    (hconditions : ∀ c ∈ conditions, c.isCondition = true) (span : Option Span) :
    IsGroup s names names' es ⟨connective.kind, none, conditions.map .operator, span⟩ := by
  intro after hafter
  cases h with
  | one => simp at hsize
  | @more _ middle _ es es' c conditions link phrase keyword rest =>
    obtain ⟨-, hends, -⟩ := isConnective_of_reads keyword
    have hlink : Ends (link :: (es' ++ after)) := by simpa [Ends] using hends
    obtain ⟨-, hrest⟩ := run_append phrase.nonempty phrase.continues hlink
    rw [List.length_cons] at hsteps
    rw [List.append_assoc, List.cons_append]
    rw [drawGroup_eq]
    refine (yields_drawTerm phrase hlink (by omega)).bind ?_
    rintro _ ⟨item, rfl, hitem⟩
    dsimp only
    rw [hrest]
    refine (yields_drawLinks keyword rest hafter (by omega)).bind ?_
    rintro ⟨links, left⟩ ⟨hlinks, rfl⟩
    have hfold := @yields_fold s names' connective _ _ _ _ hitem hlinks rest.ne_nil hconditions
    refine hfold.adapt.bind fun group hgroup => .pure ⟨group, rfl, ?_⟩
    cases hgroup with
    | operator core => exact .operator core

/-- A group in parentheses is read as the condition in it. -/
lemma Gathers.group {op : Operator} {contents : List Sketch} {e : Element}
    (h : (Sketch.group contents).Reads s e)
    (hcontents : ∀ inner, Sketch.ReadsAll s contents inner → IsGroup s names names' inner op) :
    Gathers names names' [e]
      (fun items => ∃ item, items = [item] ∧ Shows s.registry (.operator op) item) := by
  cases h with
  | @group _ _ inner reads hitem =>
    refine Gathers.single ?_
    rw [hitem]
    have hdraw := hcontents inner reads [] .nil
    rw [List.append_nil] at hdraw
    unfold groupItem
    refine hdraw.adapt.bind ?_
    rintro _ ⟨item, rfl, hshows⟩
    dsimp only
    refine (Yields.markOpened _).bind fun _ _ => .pure ?_
    cases hshows with
    | operator core => exact .operator core

/-- A pair of parentheses goes on with a phrase. -/
lemma continues_group {contents : List Sketch} {e : Element}
    (h : (Sketch.group contents).Reads s e) : continues e.token = true := by
  cases h with
  | group reads item rule class_ =>
    simp [continues, separates, Token.isDelimiter, Token.isConnective, Token.isClause, rule, class_]

end

end Phrase

end RecordQuery
