import Mathlib.Tactic.Lemma
import RecordQuery.Phrase.Group

/-!
# Guards that no reading meets

Some steps of reading a phrase check once more what the step before has seen to: that an item to be
settled is still an operator, that there are phrases to fold, that folding leaves a node. Where such
a check fails, an internal fault is raised. Here the steps are given by equations without these
checks, from which everything else is derived; so none of these faults is ever raised.
-/

namespace RecordQuery.Phrase

variable {s : Setting} {tier : Nat}

/-! ## Settling -/

/-- The operators that a pass finds are those waiting to be settled in its tier. -/
lemma term_of_pendingAt? {item : Item} {kind : Kind} {parameters : Option (List Item)}
    (h : pendingAt? tier item = some (kind, parameters)) :
    item.term = .pending kind parameters ∧ kind.tier = tier := by
  obtain ⟨token, span, term⟩ := item
  cases term with
  | pending other others =>
    rw [pendingAt?] at h
    dsimp only at h
    split at h
    · rename_i htier
      cases h
      exact ⟨rfl, htier⟩
    · cases h
  | raw => cases h
  | node operand => cases h

/-- An operator that a pass finds is settled with the neighbours its kind claims. -/
lemma digest_eq {item : Item} {kind : Kind} {parameters : Option (List Item)}
    (h : item.term = .pending kind parameters) (before after : List Item) :
    digest s before item after =
      settle s item.span ⟨kind, item.token, parameters,
        if kind.claimsLeft then before.head? else none,
        if kind.claimsRight then after.head? else none⟩ := by
  rw [digest, h]

/-- One step of a pass from left to right. -/
lemma passForward_cons (budget : Nat) (before : List Item) (item : Item) (after : List Item) :
    passForward s tier budget before (item :: after) =
      match pendingAt? tier item with
      | none => passForward s tier budget (item :: before) after
      | some (kind, parameters) => (do
        if budget = 0 then throw s.exhausted
        let left := if kind.claimsLeft then before.head? else none
        let right := if kind.claimsRight then after.head? else none
        let node ← settle s item.span ⟨kind, item.token, parameters, left, right⟩
        passForward s tier (budget - 1)
          (node :: if kind.claimsLeft then before.tail else before)
          (if kind.claimsRight then after.tail else after)) := by
  rw [passForward]
  cases hpending : pendingAt? tier item with
  | none => rfl
  | some found =>
    obtain ⟨kind, parameters⟩ := found
    obtain ⟨hterm, -⟩ := term_of_pendingAt? hpending
    simp only [digest_eq hterm, takesLeft, takesRight, hterm]

/-- One step of a pass from right to left, of a tier whose operators claim nothing before them. -/
lemma passBackward_cons (budget : Nat) (item : Item) (rest : List Item) :
    passBackward s tier budget (item :: rest) = (do
      let (after, budget) ← passBackward s tier budget rest
      match pendingAt? tier item with
      | none => return (item :: after, budget)
      | some (kind, parameters) =>
        if budget = 0 then throw s.exhausted
        let right := if kind.claimsRight then after.head? else none
        let node ← settle s item.span ⟨kind, item.token, parameters, none, right⟩
        return (node :: if kind.claimsRight then after.tail else after, budget - 1)) := by
  rw [passBackward]
  cases hpending : pendingAt? tier item with
  | none => rfl
  | some found =>
    obtain ⟨kind, parameters⟩ := found
    obtain ⟨hterm, -⟩ := term_of_pendingAt? hpending
    simp only [digest_eq hterm, takesRight, hterm, List.head?_nil, ite_self]

/-! ## Folding -/

/-- Folds a chain of phrases into one item. -/
def fold (setting : Setting) (chain : Chain Item) : Parse Item := do
  let runs := andRuns chain.first chain.more
  let first ← join setting .and runs.first
  join setting .or ⟨first, ← joinRuns setting runs.more⟩

/-- Phrases and the connectives between them fold as the chain that they are. -/
lemma consolidate_eq (item : Item) (links : List (Token × Item)) :
    consolidate s (item :: links.map Prod.snd) (links.map Prod.fst) = fold s ⟨item, links⟩ := by
  have hzip : (links.map Prod.fst).zip (links.map Prod.snd) = links :=
    (List.zip_of_prod rfl rfl).symm
  rw [consolidate, fold]
  dsimp only
  rw [hzip]
  refine bind_congr fun node => bind_congr fun links => ?_
  cases links with
  | nil => rfl
  | cons link links => rw [if_neg (by simp)]

/-- Phrases joined by connectives are drawn and folded. -/
lemma drawGroup_eq (elements : List Element) :
    drawGroup s elements = (do
      match ← drawTerm s s.ceilings.steps elements with
      | none => return (none, elements)
      | some item =>
        let (links, rest) ← drawLinks s (s.ceilings.steps - 1) (afterRun elements)
        return (some (← (fold s ⟨item, links⟩).leaving rest), rest)) := by
  unfold drawGroup
  refine bind_congr fun first => ?_
  cases first with
  | none => rfl
  | some item =>
    refine bind_congr fun (links, rest) => ?_
    dsimp only
    rw [consolidate_eq]

end RecordQuery.Phrase
