import Mathlib.Data.List.TakeWhile
import RecordQuery.Proofs.BookedPhrases
import RecordQuery.Proofs.Remainders

/-!
# Books on groups

A token that stands for itself is *asked for* by a token tree if it is its root, or is asked for by
a tree in its parentheses, as long as these are read at all: those of a group and those of a
function are. An element owes what its tree asks for.

All that draws phrases from elements keeps the books of what the elements owe: they are read, or are
left for what comes after, and those that are only looked at, commas and connectives and keywords,
owe nothing.
-/

namespace RecordQuery

open Reader Phrase

namespace Token

/-- Whether a token is the keyword of a function that has parentheses. -/
def isCall (token : Token) : Bool :=
  token.kind == .word && token.rule.any fun kind => kind.isFunction && token.hasChildren

/-- Whether there is nothing to read in a token: it is a delimiter, or a keyword without parentheses
of its own. -/
def isIdle (token : Token) : Bool :=
  token.isDelimiter ||
    token.kind == .word && token.rule.any fun kind => !(kind.isFunction && token.hasChildren)

variable {token : Token}

/-- Nothing is asked of a delimiter. -/
lemma isIdle_of_isDelimiter (h : token.isDelimiter = true) : token.isIdle = true := by
  rw [isIdle, h, Bool.true_or]

/-- Nothing is asked of a comma. -/
lemma isIdle_of_isComma (h : token.isComma = true) : token.isIdle = true :=
  isIdle_of_isDelimiter (Bool.and_eq_true_iff.mp h).1

/-- Nothing is asked of a connective. -/
lemma isIdle_of_isConnective (h : token.isConnective = true) : token.isIdle = true := by
  rw [isConnective, Bool.and_eq_true, Option.any_eq_true] at h
  obtain ⟨hword, kind, hrule, hkind⟩ := h
  have hfunction : kind.isFunction = false := by cases kind <;> first | rfl | cases hkind
  rw [isIdle, hword, hrule, Option.any_some, hfunction]
  simp

/-- The keyword of a clause has nothing to read, unless it is a function with parentheses. -/
lemma isIdle_of_rule {kind : Kind} (hword : token.kind = .word) (hrule : token.rule = some kind)
    (h : (kind.isFunction && token.hasChildren) = false) : token.isIdle = true := by
  rw [isIdle, hword, hrule, Option.any_some, h]
  simp

/-- A function with a list is a call. -/
lemma isCall_of_rule {kind : Kind} (hword : token.kind = .word) (hrule : token.rule = some kind)
    (hfunction : kind.isFunction = true) (hchildren : token.hasChildren = true) :
    token.isCall = true := by
  simp [isCall, hword, hrule, hfunction, hchildren]

end Token

namespace Phrase

/-- The elements of a phrase are no delimiters. -/
lemma isDelimiter_of_mem_run {es : List Element} {e : Element} (h : e ∈ run es) :
    e.token.isDelimiter = false := by
  cases es with
  | nil => cases h
  | cons first rest =>
    rw [run] at h
    split at h
    · cases h
    · rename_i hfirst
      obtain rfl | hrest := List.mem_cons.mp h
      · rw [Bool.not_eq_true, separates, Bool.or_eq_false_iff] at hfirst
        exact hfirst.1
      · have hcontinues := List.mem_takeWhile_imp hrest
        simp only [continues, separates, Bool.and_eq_true, Bool.not_eq_true', Bool.or_eq_false_iff]
          at hcontinues
        exact hcontinues.1.1

end Phrase

namespace Clause

/-- The elements of an entry are no delimiters. -/
lemma isDelimiter_of_mem_entry {es : List Element} {e : Element} (h : e ∈ entry es) :
    e.token.isDelimiter = false := by
  cases es with
  | nil => cases h
  | cons first rest =>
    rw [entry] at h
    split at h
    · cases h
    · rename_i hfirst
      obtain rfl | hrest := List.mem_cons.mp h
      · rwa [Bool.not_eq_true] at hfirst
      · have hcontinues := List.mem_takeWhile_imp hrest
        simp only [continuesEntry, Bool.and_eq_true, Bool.not_eq_true'] at hcontinues
        exact hcontinues.1

end Clause

namespace Ledger

/-! ## Elements -/

/-- How much an element owes: reading it, or the parameters of a call, keeps the books of that. -/
structure Owes (L : Ledger) (e : Element) (k : Nat) : Prop where
  item : e.token.isDelimiter = false → L.Passes k L.ofItem e.item
  parameters : e.token.isCall = true → L.Passes k L.ofItems e.parameters
  idle : e.token.isIdle = true → k = 0

/-- How much some elements owe together. -/
inductive Owe (L : Ledger) : List Element → Nat → Prop
  | nil : Owe L [] 0
  | cons {e : Element} {es : List Element} {k m : Nat} (head : L.Owes e k) (tail : Owe L es m) :
      Owe L (e :: es) (k + m)

variable {L : Ledger} {s : Setting} {es : List Element} {k : Nat}

namespace Owe

/-- Without elements nothing is owed. -/
lemma eq_zero (h : L.Owe [] k) : k = 0 := by
  cases h
  rfl

/-- What elements owe is owed by the first ones or by those behind them. -/
lemma exists_of_append {fs : List Element} (h : L.Owe (es ++ fs) k) :
    ∃ a b, L.Owe es a ∧ L.Owe fs b ∧ k = a + b := by
  induction es generalizing k with
  | nil => exact ⟨0, k, .nil, h, (Nat.zero_add k).symm⟩
  | cons e rest ih =>
    obtain - | ⟨head, tail⟩ := h
    obtain ⟨a, b, ha, hb, rfl⟩ := ih tail
    exact ⟨_, b, .cons head ha, hb, (Nat.add_assoc _ _ _).symm⟩

/-- What elements owe is owed by the first phrase or by what is behind it. -/
lemma exists_run (h : L.Owe es k) : ∃ a b, L.Owe (run es) a ∧ L.Owe (afterRun es) b ∧ k = a + b :=
  exists_of_append (by rwa [run_append_afterRun])

/-- What elements owe is owed by the first entry of an ordering or by what is behind it. -/
lemma exists_entry (h : L.Owe es k) :
    ∃ a b, L.Owe (Clause.entry es) a ∧ L.Owe (Clause.afterEntry es) b ∧ k = a + b :=
  exists_of_append (by rwa [Clause.entry_append_afterEntry])

/-- An element that there is nothing to read in owes nothing. -/
lemma of_isIdle {e : Element} (h : L.Owe (e :: es) k) (hidle : e.token.isIdle = true) :
    L.Owe es k := by
  obtain - | ⟨head, tail⟩ := h
  rwa [head.idle hidle, Nat.zero_add]

end Owe

/-- How much is in what was read, and in the elements left behind it. -/
def WithRest {α : Type} (L : Ledger) (held : α → Nat) (made : α × List Element) (m : Nat) : Prop :=
  ∃ left, L.Owe made.2 left ∧ m = held made.1 + left

/-! ## Phrases -/

/-- Reading elements as items takes what they owe in hand. -/
lemma passes_readAll (h : L.Owe es k) (hdelimiter : ∀ e ∈ es, e.token.isDelimiter = false)
    (after : List Element) : L.Passes k L.ofItems (readAll es after) := by
  induction h with
  | nil => exact .pure ofItems_nil.symm
  | cons head _ ih =>
    obtain ⟨he, hrest⟩ := List.forall_mem_cons.mp hdelimiter
    refine Passes.bind (head.item he).adapt (fun item => ?_) rfl
    refine Passes.bind (ih hrest) (fun items => .pure ?_) (Nat.add_comm _ _)
    rw [ofItems_cons, Nat.add_comm]

/-- Drawing a phrase keeps the books. Where no phrase is drawn, its elements are left. -/
lemma passes_drawOne (h : L.Owe (run es) k) :
    L.Passes k (fun drawn => drawn.elim k L.ofItem) (drawOne s es) := by
  unfold drawOne
  split
  · exact .pure rfl
  · refine Passes.bind_all (passes_readAll h (fun e he => isDelimiter_of_mem_run he) _)
      fun items => ?_
    exact Passes.bind_all (passes_reduce items).adapt fun item => .pure rfl

/-! ## Connectives -/

/-- How much there is in the items of a chain. -/
def ofChain (L : Ledger) (chain : Chain Item) : Nat :=
  L.ofItems (chain.first :: chain.more.map Prod.snd)

/-- How much there is in the items of some chains, each behind a token. -/
def ofRuns (L : Ledger) : List (Token × Chain Item) → Nat
  | [] => 0
  | link :: rest => L.ofChain link.2 + ofRuns L rest

/-- Cutting a chain at some of its tokens neither loses nor doubles any of its items. -/
lemma ofChain_andRuns (first : Item) (more : List (Token × Item)) :
    L.ofChain ⟨first, more⟩ =
      L.ofChain (andRuns first more).first + L.ofRuns (andRuns first more).more := by
  induction more generalizing first with
  | nil => rfl
  | cons link rest ih =>
    obtain ⟨token, next⟩ := link
    have hrest := ih next
    rw [andRuns]
    split
    all_goals
      simp only [ofChain, ofRuns, ofItems_cons, ofItems_nil, List.map_cons, List.map_nil] at hrest ⊢
      omega

/-- Reading items as conditions of a group takes what is in them in hand. -/
lemma passes_conditions (connective : Connective) (items : List Item) :
    L.Passes (L.ofItems items) (fun cs => L.ofOperands (cs.map .operator))
      (conditions s connective items) := by
  induction items with
  | nil => exact .pure (ofItems_nil.trans ofOperands_nil.symm)
  | cons item rest ih =>
    unfold conditions
    split
    · rename_i condition hcondition
      refine ih.bind (fun cs => .pure ?_) (by rw [ofItems_cons, Nat.add_comm])
      rw [ofItem_of_condition? hcondition, Nat.add_comm]
      exact (ofOperands_cons (.operator condition) _).symm
    · exact .throw

/-- A group introduces no name, so it holds what its conditions do. -/
lemma ofOperator_group (connective : Connective) (cs : List Operator) :
    L.ofOperator (.group connective cs) = L.ofOperands (cs.map .operator) :=
  ofOperator_of_family (by cases connective <;> exact nofun)

/-- Joining a chain of items loses nothing of what they hold. -/
lemma passes_join (connective : Connective) (chain : Chain Item) :
    L.Passes (L.ofChain chain) L.ofItem (join s connective chain) := by
  unfold join
  split
  · rename_i hmore
    exact .pure (by simp [ofChain, hmore])
  · refine (passes_conditions connective _).bind_all fun cs => ?_
    refine (uses_recordPhrase _ _ _).bind_after fun _ => .pure ?_
    rw [ofItem_node, ofOperand_operator, ofOperator_withSpan, ofOperator_group]

/-- Joining several chains loses nothing of what they hold. -/
lemma passes_joinRuns (runs : List (Token × Chain Item)) :
    L.Passes (L.ofRuns runs) (fun links => L.ofItems (links.map Prod.snd)) (joinRuns s runs) := by
  induction runs with
  | nil => exact .pure ofItems_nil.symm
  | cons link rest ih =>
    unfold joinRuns
    refine (passes_join .and link.2).bind (fun item => ?_) rfl
    refine ih.bind (fun links => .pure ?_) (Nat.add_comm _ _)
    exact (Nat.add_comm _ _).trans (ofItems_cons _ _).symm

/-- Folding a chain of items loses nothing of what they hold. -/
lemma passes_fold (chain : Chain Item) : L.Passes (L.ofChain chain) L.ofItem (fold s chain) := by
  unfold fold
  refine (passes_join .and _).bind (fun first => ?_) (ofChain_andRuns chain.first chain.more)
  refine (passes_joinRuns _).bind (fun links => ?_) (Nat.add_comm _ _)
  refine (passes_join .or _).of_eq ?_
  rw [ofChain, ofItems_cons, Nat.add_comm]

/-- A term takes in hand what is owed by the elements it is drawn from. -/
lemma passes_drawTerm (h : L.Owe (run es) k) (budget : Nat) :
    L.Passes k (fun drawn => drawn.elim k L.ofItem) (drawTerm s budget es) := by
  unfold drawTerm
  cases es with
  | nil =>
    dsimp only [List.head?_nil]
    split
    · exact .stop
    · exact passes_drawOne h
  | cons e rest =>
    dsimp only [List.head?_cons]
    split
    · exact .stop
    · split
      · exact .stop
      · exact passes_drawOne h

/-- Drawing further phrases takes what they owe in hand and leaves the rest. -/
lemma keeps_drawLinks (s : Setting) :
    (budget : Nat) → (es : List Element) → {k : Nat} → L.Owe es k →
      L.Keeps k (L.WithRest fun links => L.ofItems (links.map Prod.snd)) (drawLinks s budget es)
  | _, [], _, h => by
    unfold drawLinks
    exact .pure ⟨_, h, by simp⟩
  | budget, e :: rest, k, h => by
    unfold drawLinks
    split
    · exact .pure ⟨k, h, by simp⟩
    · rename_i hconnective
      have hidle := Token.isIdle_of_isConnective (by simpa using hconnective)
      obtain ⟨a, b, hrun, hafter, hk⟩ := (h.of_isIdle hidle).exists_run
      refine (passes_drawTerm hrun budget).bind (fun drawn => ?_) hk
      cases drawn with
      | none => exact .throw
      | some item =>
        refine (keeps_drawLinks s (budget - 1) (afterRun rest) hafter).bind ?_ (Nat.add_comm _ _)
        rintro ⟨links, left⟩ _ ⟨c, hleft, rfl⟩
        refine .pure ⟨c, hleft, ?_⟩
        simp only [List.map_cons, ofItems_cons, Option.elim_some]
        omega
termination_by _ es => es.length
decreasing_by
  have := length_afterRun_le rest
  simp only [List.length_cons]
  omega

/-- Drawing phrases with connectives keeps the books. Where there is no phrase, all is left. -/
lemma keeps_drawGroup (h : L.Owe es k) :
    L.Keeps k (fun drawn m => L.WithRest L.ofOption drawn m ∧ (drawn.1 = none → m = k))
      (drawGroup s es) := by
  obtain ⟨a, b, hrun, hafter, rfl⟩ := h.exists_run
  rw [drawGroup_eq]
  refine (passes_drawTerm hrun _).bind (fun drawn => ?_) rfl
  cases drawn with
  | none => exact .pure ⟨⟨a + b, h, by simp⟩, fun _ => rfl⟩
  | some item =>
    refine (keeps_drawLinks s _ _ hafter).bind ?_ (Nat.add_comm _ _)
    rintro ⟨links, rest⟩ _ ⟨c, hrest, rfl⟩
    refine Passes.bind (passes_fold ⟨item, links⟩).adapt
      (fun folded => .pure ⟨⟨c, hrest, rfl⟩, nofun⟩) ?_
    simp only [ofChain, ofItems_cons, Option.elim_some]
    omega

/-! ## Parentheses -/

/-- Drawing parameters takes all in hand that is owed by what stands in the parentheses. -/
lemma passes_drawParameters (s : Setting) (owner : Token) :
    (budget : Nat) → (es : List Element) → {k : Nat} → L.Owe es k →
      L.Passes k L.ofItems (drawParameters s owner budget es)
  | budget, es, k, h => by
    rw [drawParameters_eq]
    dsimp only
    by_cases hbudget : budget = 0
    · rw [if_pos hbudget]
      exact .stop
    · rw [if_neg hbudget]
      obtain ⟨a, b, hrun, hafter, rfl⟩ := h.exists_run
      refine Passes.bind (passes_drawOne hrun).adapt (fun drawn => ?_) rfl
      cases drawn with
      | none => exact .throw
      | some item =>
        cases hcons : afterRun es with
        | nil =>
          rw [hcons] at hafter
          exact .pure (by simp [hafter.eq_zero])
        | cons e rest =>
          rw [hcons] at hafter
          dsimp only
          split
          · rename_i hcomma
            have hrest := hafter.of_isIdle (Token.isIdle_of_isComma hcomma)
            refine (passes_drawParameters s owner (budget - 1) rest hrest).bind
              (fun items => .pure ?_) (Nat.add_comm _ _)
            rw [ofItems_cons, Nat.add_comm, Option.elim_some]
          · exact .throw
termination_by _ es => es.length
decreasing_by
  have := length_afterRun_le es
  rw [hcons] at this
  simp only [List.length_cons] at this
  omega

/-- The parameters of a token hold what its list owes. -/
lemma passes_parameters (h : L.Owe es k) (owner : Token) :
    L.Passes k L.ofItems (parameters s owner es) := by
  unfold parameters
  split
  · rename_i hempty
    obtain rfl := List.isEmpty_iff.mp hempty
    exact .pure (h.eq_zero.trans ofItems_nil.symm)
  · exact passes_drawParameters s owner _ _ h

/-- A pair of parentheses holds what is owed by what stands in it. -/
lemma passes_groupItem (h : L.Owe es k) (token : Token) :
    L.Passes k L.ofItem (groupItem s token es) := by
  unfold groupItem
  refine (keeps_drawGroup h).adapt.bind_all ?_
  rintro ⟨item, rest⟩ _ ⟨⟨c, hrest, rfl⟩, -⟩
  dsimp only
  split
  · exact .throw
  · refine (uses_markOpened token).bind_after fun _ => .pure ?_
    rw [hrest.eq_zero, ofItem_withSpan]
    rfl
  · exact .throw

/-! ## Trees -/

end Ledger

namespace TokenTree

variable (worth : Token → Nat)

mutual

/-- What a tree asks for is worth so much. -/
def asked : TokenTree → Nat
  | ⟨token, children, _⟩ =>
    if token.isDelimiter then 0
    else if token.kind = .group then askedOf children
    else
      match token.rule with
      | some kind => if kind.isFunction && token.hasChildren then askedOf children else 0
      | none => worth token + if token.hasChildren then askedOf children else 0

/-- What some trees ask for is worth so much. -/
def askedOf : List TokenTree → Nat
  | [] => 0
  | tree :: rest => asked tree + askedOf rest

end

variable {worth : Token → Nat} {token : Token} {children absorbed : List TokenTree}

/-- What is asked of a call is asked of its list. -/
lemma asked_of_isCall (h : token.isCall = true) :
    asked worth ⟨token, children, absorbed⟩ = askedOf worth children := by
  rw [Token.isCall, Bool.and_eq_true, beq_iff_eq, Option.any_eq_true] at h
  obtain ⟨hword, kind, hrule, hcall⟩ := h
  rw [asked, Token.isDelimiter, hword, hrule]
  show (if (kind.isFunction && token.hasChildren) = true then askedOf worth children else 0) = _
  rw [if_pos hcall]

/-- Nothing is asked of an idle token, whatever its list. -/
lemma asked_of_isIdle (h : token.isIdle = true) : asked worth ⟨token, children, absorbed⟩ = 0 := by
  rw [Token.isIdle, Bool.or_eq_true, Bool.and_eq_true, beq_iff_eq, Option.any_eq_true] at h
  obtain hdelimiter | ⟨hword, kind, hrule, hcall⟩ := h
  · rw [asked, if_pos hdelimiter]
  · rw [Bool.not_eq_true'] at hcall
    rw [asked, Token.isDelimiter, hword, hrule]
    show (if (kind.isFunction && token.hasChildren) = true then askedOf worth children else 0) = 0
    rw [hcall, if_neg Bool.false_ne_true]

end TokenTree

namespace Ledger

open TokenTree

variable {L : Ledger} {s : Setting} {es : List Element} {token : Token}
  {children absorbed : List TokenTree}

/-- A token's item holds the token, if it stands for itself, and what is owed in its parentheses, if
these are read. -/
lemma passes_tokenItem (h : L.Owe es (askedOf L.ofToken children))
    (hdelimiter : token.isDelimiter = false) :
    L.Passes (asked L.ofToken ⟨token, children, absorbed⟩) L.ofItem (tokenItem s token es) := by
  rw [asked, hdelimiter, if_neg Bool.false_ne_true]
  unfold tokenItem
  split
  · exact passes_groupItem h token
  · cases token.rule with
    | some kind =>
      dsimp only
      split
      · rename_i hcall
        obtain ⟨hfunction, -⟩ := Bool.and_eq_true_iff.mp hcall
        refine (passes_parameters h token).bind_all fun items => .pure ?_
        rw [ofItem_pending, if_pos hfunction, Option.elim_some]
      · refine .pure ?_
        rw [ofItem_pending, Option.elim_none, ite_self]
    | none =>
      dsimp only
      split
      · exact .throw
      · exact .pure (ofItem_raw _ _).symm

mutual

/-- The element of a tree owes what the tree asks for. -/
lemma owes_element (s : Setting) :
    (tree : TokenTree) → L.Owes (tree.element s) (tree.asked L.ofToken)
  | ⟨token, children, absorbed⟩ => by
    have hchildren := owe_elements s children
    rw [TokenTree.element]
    exact ⟨passes_tokenItem hchildren,
      fun hcall => (passes_parameters hchildren token).of_eq (asked_of_isCall hcall),
      asked_of_isIdle⟩

/-- The elements of some trees owe what the trees ask for. -/
lemma owe_elements (s : Setting) :
    (trees : List TokenTree) → L.Owe (elements s trees) (askedOf L.ofToken trees)
  | [] => by
    rw [elements, askedOf]
    exact .nil
  | tree :: rest => by
    rw [elements, askedOf]
    exact .cons (owes_element s tree) (owe_elements s rest)

end

end Ledger

end RecordQuery
