import RecordQuery.Phrase.Production

/-!
# Reducing a phrase

The operators of a phrase claim their neighbours tier by tier: functions, then comparisons and
membership tests, then existence tests, then negations, then `AS`. Within a tier they go from left
to right, except the two tiers of operators that stand before what they claim, which go from right
to left, so that the innermost is first.

An operator of the tier is never behind the place a pass has come to, so one pass over the items
settles a tier. Each operator settled is one step of a budget that all passes share.
-/

namespace RecordQuery

namespace Phrase

/-- Settles an operator with the neighbours it claims, and notes the phrase. -/
def settle (setting : Setting) (own : Span) (claim : Claim) : Parse Item := do
  let operator ← claim.produce setting claim.kind.family
  let span := claim.span own
  Parse.recordPhrase claim.token span operator
  return ⟨claim.token, span, .node (.operator (operator.withSpan span))⟩

/-- The operator an item is waiting to be, if it is of a tier. -/
def pendingAt? (tier : Nat) (item : Item) : Option (Kind × Option (List Item)) :=
  match item.term with
  | .pending kind parameters => if kind.tier = tier then some (kind, parameters) else none
  | _ => none

/-- Whether an item is an operator that claims the item before it. -/
def takesLeft (item : Item) : Bool :=
  match item.term with
  | .pending kind _ => kind.claimsLeft
  | _ => false

/-- Whether an item is an operator that claims the item after it. -/
def takesRight (item : Item) : Bool :=
  match item.term with
  | .pending kind _ => kind.claimsRight
  | _ => false

/-- Settles the operator an item is waiting to be, between the items before it, the latest first,
and those after it. -/
def digest (setting : Setting) (before : List Item) (item : Item) (after : List Item) :
    Parse Item :=
  match item.term with
  | .pending kind parameters =>
    let left := if kind.claimsLeft then before.head? else none
    let right := if kind.claimsRight then after.head? else none
    settle setting item.span ⟨kind, item.token, parameters, left, right⟩
  | _ => throw { fault := .phrase .settledItem }

/-- Settles the operators of a tier from left to right. `before` holds the items passed, the latest
first. -/
def passForward (setting : Setting) (tier : Nat) :
    (budget : Nat) → (before after : List Item) → Parse (List Item × Nat)
  | budget, before, [] => return (before.reverse, budget)
  | budget, before, item :: after => do
    match pendingAt? tier item with
    | none => passForward setting tier budget (item :: before) after
    | some _ =>
      if budget = 0 then throw setting.exhausted
      let node ← digest setting before item after
      passForward setting tier (budget - 1)
        (node :: if takesLeft item then before.tail else before)
        (if takesRight item then after.tail else after)
termination_by _ _ after => after.length
decreasing_by
  · simp
  · simp only [List.length_cons]
    split
    · rw [List.length_tail]; omega
    · omega

/-- Settles the operators of a tier from right to left. -/
def passBackward (setting : Setting) (tier : Nat) :
    (budget : Nat) → (items : List Item) → Parse (List Item × Nat)
  | budget, [] => return ([], budget)
  | budget, item :: rest => do
    let (after, budget) ← passBackward setting tier budget rest
    match pendingAt? tier item with
    | none => return (item :: after, budget)
    | some _ =>
      if budget = 0 then throw setting.exhausted
      let node ← digest setting [] item after
      return (node :: if takesRight item then after.tail else after, budget - 1)

/-- Settles the operators of all tiers. -/
def passes (setting : Setting) (items : List Item) : Parse (List Item) := do
  let (items, budget) ← passForward setting 1 setting.ceilings.steps [] items
  let (items, budget) ← passForward setting 2 budget [] items
  let (items, budget) ← passBackward setting 3 budget items
  let (items, budget) ← passBackward setting 4 budget items
  let (items, _) ← passForward setting 5 budget [] items
  return items

/-- The span that some items cover together. -/
def coverAll : List Item → Span
  | [] => ⟨0, 0⟩
  | item :: rest => rest.foldl (fun span item => span.cover item.span) item.span

/-- Reduces the items of a phrase to one. -/
def reduce (setting : Setting) (items : List Item) : Parse Item := do
  let settled ← passes setting items
  if let some item := settled.find? fun item => (pendingAt? 0 item).isSome then
    Parse.failAt setting (.unexpectedOperator item.token.text) item.token
  match settled with
  | [item] => return item
  | _ :: second :: _ =>
    Parse.failAt setting (.uninterpretable (setting.slice (coverAll settled))) second.token
  | [] => throw { fault := .phrase .emptyPhrase }

end Phrase

end RecordQuery
