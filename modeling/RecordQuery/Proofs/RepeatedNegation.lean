import RecordQuery.Proofs.Rendition

/-!
# Negations of negations without parentheses

`NOT` may stand before another `NOT`. The pass over negations goes from right to left, so that the
last of them takes the condition behind it first, and each one before it takes what the others have
become. So a condition behind any number of `NOT`s is reduced to its negations.

Nothing in such a phrase is bound to a name, so all is said of readings that know no names.
-/

namespace RecordQuery

open Reader Item

/-- The negation of a condition. -/
def Operator.negation (condition : Operator) : Operator := ⟨.not, none, [.operator condition], none⟩

namespace Phrase

variable {s : Setting}

/-! ## Settling negations -/

/-- Whether items are negations, each before the next, and a finished condition behind them. -/
inductive Stacks (registry : Registry) : Nat → List Item → Operator → Prop
  | one {item : Item} {op : Operator} (shows : Shows registry (.operator op) item)
      (isCondition : op.isCondition = true) : Stacks registry 0 [item] op
  | not {rounds : Nat} {items : List Item} {op : Operator} {token : Token} {span : Span}
      {parameters : Option (List Item)} (rest : Stacks registry rounds items op) :
      Stacks registry (rounds + 1) (⟨token, span, .pending .not parameters⟩ :: items) op.negation

/-- What stacked negations come to is a condition. -/
lemma Stacks.isCondition {rounds : Nat} {items : List Item} {op : Operator}
    (h : Stacks s.registry rounds items op) : op.isCondition = true := by
  cases h with
  | one _ isCondition => exact isCondition
  | not => rfl

/-- A negation is settled with the condition behind it. -/
lemma yields_settle_not {op : Operator} {right : Item}
    (hright : Shows s.registry (.operator op) right)
    (hcondition : op.isCondition = true) (token : Token) (span : Span)
    (parameters : Option (List Item)) (names : List String) :
    Yields names names (Shows s.registry (.operator op.negation))
      (settle s span ⟨.not, token, parameters, none, some right⟩) :=
  yields_settle (Claim.yields_negation hright hcondition parameters none) span

/-- The pass over negations leaves one condition of a stack. -/
lemma Stacks.yields_passBackward {rounds : Nat} {items : List Item} {op : Operator}
    (h : Stacks s.registry rounds items op) {budget : Nat} (hbudget : rounds ≤ budget) :
    Yields [] [] (fun made => IsOne s.registry (.operator op) made.1 ∧ made.2 = budget - rounds)
      (passBackward s 4 budget items) := by
  induction h with
  | @one item op hshows hcondition =>
    have hidle : Idle 4 [item] := idle_cons.mpr ⟨pendingAt?_of_shows hshows, .nil⟩
    rw [passBackward_idle hidle]
    exact .pure ⟨⟨item, rfl, hshows⟩, rfl⟩
  | @not rounds items op token span parameters rest ih =>
    rw [passBackward_cons]
    refine (ih (by omega)).bind ?_
    rintro ⟨_, left⟩ ⟨⟨right, rfl, hright⟩, rfl⟩
    have htier : Kind.not.tier = 4 ∧ Kind.not.claimsRight = true := ⟨rfl, rfl⟩
    have hpositive : ¬ budget - rounds = 0 := by omega
    dsimp only
    rw [pendingAt?_pending, if_pos htier.1]
    simp only [if_neg hpositive, htier.2, if_true, List.head?_cons, List.tail_cons]
    refine (yields_settle_not hright rest.isCondition token span parameters []).bind ?_
    exact fun item hitem => .pure ⟨⟨item, rfl, hitem⟩, by omega⟩

/-- Whether items are negations, each before the next, and a condition behind them that the first
three tiers make one item of. -/
inductive Negates (s : Setting) (names : List String) : Nat → List Item → Operator → Prop
  | base {rounds : Nat} {items : List Item} {op : Operator}
      (condenses : Condenses s rounds names [] items (.operator op))
      (isCondition : op.isCondition = true) : Negates s names rounds items op
  | not {rounds : Nat} {items : List Item} {op : Operator} {token : Token} {span : Span}
      {parameters : Option (List Item)} (rest : Negates s names rounds items op) :
      Negates s names (rounds + 1) (⟨token, span, .pending .not parameters⟩ :: items) op.negation

variable {names : List String}

/-- The first three tiers leave a stack of negations, and enough rounds to settle it. -/
lemma Negates.yields_early {rounds : Nat} {items : List Item} {op : Operator}
    (h : Negates s names rounds items op) {before : List Item} (hbefore : Late before)
    {budget : Nat} (hbudget : rounds ≤ budget) :
    Yields names [] (fun made => ∃ left stack, made.1 = before ++ stack ∧
        Stacks s.registry left stack op ∧ left ≤ rounds ∧ made.2 = budget - (rounds - left))
      (early s budget (before ++ items)) := by
  induction h generalizing before with
  | @base rounds items op hcondenses hcondition =>
    have hearly := hcondenses before [] hbefore .nil budget hbudget
    rw [List.append_nil] at hearly
    refine hearly.mono ?_
    rintro ⟨_, _⟩ ⟨⟨item, rfl, hitem⟩, rfl⟩
    exact ⟨0, [item], rfl, .one hitem hcondition, Nat.zero_le _, rfl⟩
  | @not rounds items op token span parameters rest ih =>
    have hnot : Late [⟨token, span, .pending .not parameters⟩] := by
      refine ⟨?_, ?_, ?_⟩ <;> rw [idle_cons, pendingAt?_pending] <;> exact ⟨rfl, .nil⟩
    have hearly := ih (late_append.mpr ⟨hbefore, hnot⟩) (by omega)
    rw [List.append_assoc, List.singleton_append] at hearly
    refine hearly.mono ?_
    rintro ⟨_, _⟩ ⟨left, stack, rfl, hstack, hleft, rfl⟩
    refine ⟨left + 1, ⟨token, span, .pending .not parameters⟩ :: stack, ?_, .not hstack, by omega,
      ?_⟩
    · rw [List.append_assoc, List.singleton_append]
    · dsimp only
      omega

/-- A condition behind negations is reduced to its negations. -/
theorem Negates.reduce {rounds : Nat} {items : List Item} {op : Operator}
    (h : Negates s names rounds items op) (hrounds : rounds ≤ s.ceilings.steps) :
    Yields names [] (Shows s.registry (.operator op)) (reduce s items) := by
  refine yields_reduce ?_
  rw [passes_eq]
  refine (h.yields_early .nil hrounds).bind ?_
  rintro ⟨_, _⟩ ⟨left, stack, rfl, hstack, hleft, rfl⟩
  refine (hstack.yields_passBackward (by omega)).bind ?_
  rintro ⟨_, _⟩ ⟨⟨item, rfl, hitem⟩, -⟩
  have hidle : Idle 5 [item] := idle_cons.mpr ⟨pendingAt?_of_shows hitem, .nil⟩
  refine ((Turns.idle hidle).yields (Nat.zero_le _)).bind ?_
  rintro ⟨_, _⟩ ⟨rfl, -⟩
  exact .pure ⟨item, rfl, hitem⟩

/-! ## Phrases of negations -/

/-- Whether elements are a phrase of negations and a condition behind them. -/
structure IsNegated (s : Setting) (rounds : Nat) (es : List Element) (op : Operator) : Prop where
  nonempty : es ≠ []
  continues : ∀ e ∈ es, Phrase.continues e.token = true
  isCondition : op.isCondition = true
  gathers : ∃ names, Gathers [] names es fun items => Negates s names rounds items op

variable {rounds : Nat} {es : List Element} {op : Operator}

/-- Such a phrase is read as the condition with its negations. -/
lemma IsNegated.isPhrase (h : IsNegated s rounds es op) (hrounds : rounds ≤ s.ceilings.steps) :
    IsPhrase s [] [] es (.operator op) := by
  obtain ⟨names, hgathers⟩ := h.gathers
  exact ⟨h.nonempty, h.continues, names, hgathers.mono fun _ hitems => hitems.reduce hrounds⟩

/-- A condition in parentheses is a phrase of its own. -/
lemma IsNegated.of_group {contents : List Sketch} {e : Element}
    (h : (Sketch.group contents).Reads s e) (hcondition : op.isCondition = true)
    (hcontents : ∀ inner, Sketch.ReadsAll s contents inner → IsGroup s [] [] inner op) :
    IsNegated s 0 [e] op := by
  refine ⟨List.cons_ne_nil _ _, by simpa using continues_group h, hcondition, [], ?_⟩
  refine (Gathers.group h hcontents).mono ?_
  rintro _ ⟨item, rfl, hshows⟩
  exact .base (.of_shows hshows) hcondition

/-- A negation in front of a phrase. -/
lemma IsNegated.not {e : Element} (he : (Sketch.keyword .not).Reads s e)
    (h : IsNegated s rounds es op) : IsNegated s (rounds + 1) (e :: es) op.negation := by
  obtain ⟨names, hgathers⟩ := h.gathers
  refine ⟨List.cons_ne_nil _ _, List.forall_mem_cons.mpr ⟨?_, h.continues⟩, rfl, names, ?_⟩
  · exact Operator.continues_keyword he rfl rfl
  · refine ((Gathers.keyword he).append hgathers).mono ?_
    rintro _ ⟨_, items, rfl, rfl, hitems⟩
    exact .not hitems

end Phrase

end RecordQuery
