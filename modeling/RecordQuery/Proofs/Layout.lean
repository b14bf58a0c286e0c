import Mathlib.Data.List.Intervals
import RecordQuery.Proofs.Building

/-!
# How token trees lie in the source

`Tiles` relates a stretch of the source to the trees and the owners of characters that come of it.
It is built up from the left: a blank, a token, a list claimed by the token before it, or a group.
A list runs to its closing parenthesis or, where that is missing, to the end of the source.

Everything that is said here about numbers, spans, sequences and owners follows by induction on
this relation. In its cases a list changes its owner in nothing but where its list ends, so what
holds of the tokens before the list and of the tokens in it is put together.
-/

namespace RecordQuery

namespace Token

/-- Whether a token has terminators of its own: quoted and verbatim text, and names in brackets. -/
def isEnclosed (token : Token) : Bool := token.isLiteral || token.kind == .bracketed

/-- A token with a list that ends at an offset. -/
def withList (token : Token) (stop : Nat) : Token := { token with childrenEnd := some stop }

variable {token : Token} {stop : Nat}

@[simp] lemma id_withList : (token.withList stop).id = token.id := rfl

@[simp] lemma kind_withList : (token.withList stop).kind = token.kind := rfl

@[simp] lemma span_withList : (token.withList stop).span = token.span := rfl

@[simp] lemma childrenEnd_withList : (token.withList stop).childrenEnd = some stop := rfl

@[simp] lemma isEnclosed_withList : (token.withList stop).isEnclosed = token.isEnclosed := rfl

/-- A token with a list reaches as far as the list does, or as its own end. -/
lemma stop_fullSpan_withList :
    (token.withList stop).fullSpan.stop = max stop token.span.stop := rfl

/-- The full span of a token ends with its list. -/
lemma stop_fullSpan_withList_of_le (h : token.span.stop ≤ stop) :
    (token.withList stop).fullSpan.stop = stop := Nat.max_eq_left h

/-- A token reaches at least to its own end. -/
lemma stop_span_le_fullSpan (token : Token) : token.span.stop ≤ token.fullSpan.stop := by
  unfold fullSpan
  split
  · exact Nat.le_max_right _ _
  · exact le_rfl

/-- Whether a token may own a list: a group, a plain word, or the keyword of a function. -/
def MayOwn (token : Token) : Prop :=
  token.kind = .group ∨ (token.rule = none ∧ token.kind = .word) ∨
    ∃ kind, token.rule = some kind ∧ kind.isFunction = true

/-- A token that claims a parenthesis may own a list. -/
lemma mayOwn_of_claims {offset : Nat} (h : token.claims offset = true) : token.MayOwn := by
  rw [claims, Bool.and_eq_true] at h
  obtain ⟨-, h⟩ := h
  split at h
  · rename_i kind hrule
    exact .inr (.inr ⟨kind, hrule, h⟩)
  · rename_i hrule
    rw [Bool.and_eq_true, beq_iff_eq] at h
    exact .inr (.inl ⟨hrule, h.1⟩)

/-- A token that claims a parenthesis has no list yet. -/
lemma childless_of_claims {offset : Nat} (h : token.claims offset = true) :
    token.childrenEnd = none := by
  rw [claims, Bool.and_eq_true] at h
  simpa [hasChildren] using h.1

/-- A token without a list reaches to its own end. -/
lemma fullSpan_of_childless (h : token.childrenEnd = none) : token.fullSpan = token.span := by
  rw [fullSpan, h]

end Token

namespace TokenTree

/-! ## Subtrees -/

mutual

/-- A tree and all trees in its parentheses, in the order of their tokens. -/
def subtrees : TokenTree → List TokenTree
  | ⟨token, children, absorbed⟩ => ⟨token, children, absorbed⟩ :: subtreesOf children

/-- Some trees and all trees in their parentheses. -/
def subtreesOf : List TokenTree → List TokenTree
  | [] => []
  | tree :: rest => subtrees tree ++ subtreesOf rest

end

/-- The subtrees of a tree are the tree itself and those of its list. -/
lemma subtrees_eq (tree : TokenTree) : tree.subtrees = tree :: subtreesOf tree.children := by
  obtain ⟨token, children, absorbed⟩ := tree
  rw [subtrees]

@[simp] lemma subtreesOf_append (a b : List TokenTree) :
    subtreesOf (a ++ b) = subtreesOf a ++ subtreesOf b := by
  induction a with
  | nil => rfl
  | cons tree rest ih => rw [List.cons_append, subtreesOf, subtreesOf, ih, List.append_assoc]

@[simp] lemma subtreesOf_singleton (tree : TokenTree) :
    subtreesOf [tree] = tree :: subtreesOf tree.children := by
  rw [subtreesOf, subtreesOf, List.append_nil, subtrees_eq]

/-- The tokens of a sequence come in the order of its trees. -/
lemma tokensOf_append (a b : List TokenTree) :
    tokensOf (a ++ b) = tokensOf a ++ tokensOf b := by
  induction a with
  | nil => rfl
  | cons tree rest ih => rw [List.cons_append, tokensOf, tokensOf, ih, List.append_assoc]

/-- The tokens of a tree that has absorbed none. -/
lemma tokensOf_singleton (token : Token) (children : List TokenTree) :
    tokensOf [⟨token, children, []⟩] = token :: tokensOf children := by
  simp [tokensOf, tokens]

/-- A tree without a list has one token. -/
lemma tokensOf_leaf (token : Token) : tokensOf [⟨token, [], []⟩] = [token] := rfl

/-- The token of a tree is among those of the sequence it is in. -/
lemma mem_tokensOf {tree : TokenTree} {trees : List TokenTree} (h : tree ∈ trees) :
    tree.token ∈ tokensOf trees := by
  obtain ⟨a, b, rfl⟩ := List.append_of_mem h
  rw [← List.singleton_append, tokensOf_append, tokensOf_append]
  obtain ⟨token, children, absorbed⟩ := tree
  simp [tokensOf, tokens]

/-- The tokens of a sequence do not change, but for where a list ends, when its last token gets a
list, and the tokens of the list come behind them. -/
lemma map_tokensOf_list {α : Type} {f : Token → α} (trees children : List TokenTree) {owner : Token}
    {stop : Nat} (hf : f (owner.withList stop) = f owner) :
    (tokensOf (trees ++ [⟨owner.withList stop, children, []⟩])).map f =
      (tokensOf (trees ++ [⟨owner, [], []⟩])).map f ++ (tokensOf children).map f := by
  simp only [tokensOf_append, List.map_append, tokensOf_singleton, List.map_cons, hf]
  simp [tokensOf]

/-! ## Parentheses -/

/-- Whether the parenthesis that opens the list of a tree's token stands at an offset. For a group
that is its own character; for other tokens it is the next character behind them that is not
blank. -/
def OpensAt (source : List Char) (tree : TokenTree) (offset : Nat) : Prop :=
  tree.token.hasChildren = true ∧ source[offset]? = some '(' ∧
    if tree.token.kind = .group then offset = tree.token.span.start
    else tree.token.span.stop ≤ offset ∧ ∀ o, tree.token.span.stop ≤ o → o < offset →
      ∃ c, source[o]? = some c ∧ Text.isBlank c = true

/-- Whether the parenthesis that closes the list of a tree's token stands at an offset: the list
ends behind it, and it is in none of the trees of the list. -/
def ClosesAt (source : List Char) (tree : TokenTree) (offset : Nat) : Prop :=
  tree.token.childrenEnd = some (offset + 1) ∧ source[offset]? = some ')' ∧
    ∀ child ∈ tree.children, child.token.fullSpan.stop ≤ offset

/-- Whether a character belongs to the token of a tree in a given way: as part of its text, where
it is not a group, or as a parenthesis of its list. -/
def Owns (source : List Char) (tree : TokenTree) (offset : Nat) (slot : Slot) : Prop :=
  (slot = .token tree.token.id ∧ tree.token.kind ≠ .group ∧
      tree.token.span.contains offset = true) ∨
    (slot = .opening tree.token.id ∧ tree.OpensAt source offset) ∨
      (slot = .closing tree.token.id ∧ tree.ClosesAt source offset)

/-- Whether each tree of a sequence ends before the next one starts. -/
def InSourceOrder (trees : List TokenTree) : Prop :=
  trees.Pairwise fun a b => a.token.fullSpan.stop ≤ b.token.span.start

end TokenTree

open TokenTree

/-! ## Tilings -/

/-- How a list ends before an offset: with a closing parenthesis there, or with the source. -/
def ListEnds (source : List Char) (offset : Nat) (closed : Bool) : Prop :=
  if closed then source[offset]? = some ')' else offset = source.length

/-- `Tiles source start stop first next trees slots`: the source from `start` to `stop` comes to
`trees`, whose tokens have the numbers from `first` to `next`, and `slots` are the owners of its
characters. -/
inductive Tiles (source : List Char) :
    Nat → Nat → Nat → Nat → List TokenTree → List Slot → Prop
  | nil (start first : Nat) : Tiles source start start first first [] []
  | blank {start stop first next : Nat} {trees : List TokenTree} {slots : List Slot} {c : Char}
      (before : Tiles source start stop first next trees slots) (char : source[stop]? = some c)
      (isBlank : Text.isBlank c = true) :
      Tiles source start (stop + 1) first next trees (slots ++ [.space])
  | token {start stop first next : Nat} {trees : List TokenTree} {slots : List Slot}
      {token : Token} (before : Tiles source start stop first next trees slots)
      (id : token.id = next) (starts : token.span.start = stop)
      (nonempty : token.span.start < token.span.stop) (kind : token.kind ≠ .group)
      (chars : token.isEnclosed = false → ∀ o c, token.span.contains o = true →
        source[o]? = some c → Text.isBlank c = false)
      (childless : token.childrenEnd = none) :
      Tiles source start token.span.stop first (next + 1) (trees ++ [⟨token, [], []⟩])
        (slots ++ List.replicate token.span.length (.token token.id))
  | claimed {start stop first next stop' next' : Nat} {trees children : List TokenTree}
      {slots slots' : List Slot} {owner : Token} {closed : Bool}
      (before : Tiles source start stop first next (trees ++ [⟨owner, [], []⟩]) slots)
      (claims : owner.claims stop = true) (char : source[stop]? = some '(')
      (inner : Tiles source (stop + 1) stop' next next' children slots')
      (ends : ListEnds source stop' closed) :
      Tiles source start (stop' + closed.toNat) first next'
        (trees ++ [⟨owner.withList (stop' + closed.toNat), children, []⟩])
        (slots ++ .opening owner.id :: (slots' ++ List.replicate closed.toNat (.closing owner.id)))
  | group {start stop first next stop' next' : Nat} {trees children : List TokenTree}
      {slots slots' : List Slot} {closed : Bool}
      (before : Tiles source start stop first next trees slots) (char : source[stop]? = some '(')
      (inner : Tiles source (stop + 1) stop' (next + 1) next' children slots')
      (ends : ListEnds source stop' closed) :
      Tiles source start (stop' + closed.toNat) first next'
        (trees ++ [⟨(Token.group next stop).withList (stop' + closed.toNat), children, []⟩])
        (slots ++ .opening next :: (slots' ++ List.replicate closed.toNat (.closing next)))

namespace Tiles

variable {source : List Char} {start stop first next : Nat} {trees : List TokenTree}
  {slots : List Slot}

/-! ### Extents -/

/-- A sequence does not stop before it starts. -/
lemma le (h : Tiles source start stop first next trees slots) : start ≤ stop := by
  induction h with
  | nil => exact le_rfl
  | blank _ _ _ ih => omega
  | token _ _ starts nonempty _ _ _ ih => omega
  | claimed _ _ _ _ _ ih ih' => omega
  | group _ _ _ _ ih ih' => omega

/-- Numbers are only counted up. -/
lemma next_le (h : Tiles source start stop first next trees slots) : first ≤ next := by
  induction h with
  | nil => exact le_rfl
  | blank _ _ _ ih => exact ih
  | token _ _ _ _ _ _ _ ih => omega
  | claimed _ _ _ _ _ ih ih' => omega
  | group _ _ _ _ ih ih' => omega

/-- Every character has an owner. -/
lemma length_slots (h : Tiles source start stop first next trees slots) :
    start + slots.length = stop := by
  induction h with
  | nil => rfl
  | blank _ _ _ ih =>
    simp only [List.length_append, List.length_singleton]
    omega
  | token _ _ starts nonempty _ _ _ ih =>
    simp only [List.length_append, List.length_replicate, Span.length]
    omega
  | claimed _ _ _ _ _ ih ih' | group _ _ _ _ ih ih' =>
    simp only [List.length_append, List.length_cons, List.length_replicate]
    omega

/-! ### Numbers and spans -/

/-- Every number is given to one token, and the numbers follow the order of the tokens. -/
lemma ids (h : Tiles source start stop first next trees slots) :
    (tokensOf trees).map Token.id = List.Ico first next := by
  induction h with
  | nil => simp [tokensOf]
  | blank _ _ _ ih => exact ih
  | token before id _ _ _ _ _ ih =>
    rw [tokensOf_append, List.map_append, ih, tokensOf_singleton, ← List.Ico.append_consecutive
      before.next_le (Nat.le_succ _), List.Ico.succ_singleton]
    simp [id, tokensOf]
  | claimed before _ _ inner _ ih ih' =>
    rw [map_tokensOf_list _ _ Token.id_withList, ih, ih',
      List.Ico.append_consecutive before.next_le inner.next_le]
  | group before _ inner _ ih ih' =>
    have hnext := Nat.le_succ_of_le before.next_le
    rw [map_tokensOf_list _ _ Token.id_withList, tokensOf_append, List.map_append, ih, ih',
      tokensOf_singleton, ← List.Ico.append_consecutive hnext inner.next_le,
      ← List.Ico.append_consecutive before.next_le (Nat.le_succ _), List.Ico.succ_singleton]
    rfl

/-- What holds of every token of a tiling: it lies in the stretch together with its list, has a
character, and has no blank unless it has terminators of its own. -/
structure Fits (source : List Char) (start stop : Nat) (token : Token) : Prop where
  starts : start ≤ token.span.start
  nonempty : token.span.start < token.span.stop
  stops : token.fullSpan.stop ≤ stop
  chars : token.kind ≠ .group → token.isEnclosed = false → ∀ o c,
    token.span.contains o = true → source[o]? = some c → Text.isBlank c = false

/-- What fits into a stretch fits into a longer one. -/
lemma Fits.mono {start' stop' : Nat} {token : Token} (h : Fits source start stop token)
    (hstart : start' ≤ start) (hstop : stop ≤ stop') : Fits source start' stop' token :=
  ⟨hstart.trans h.starts, h.nonempty, h.stops.trans hstop, h.chars⟩

/-- A token still fits when it gets a list. -/
lemma Fits.withList {stop' : Nat} {token : Token} (h : Fits source start stop token)
    (hstop : stop ≤ stop') : Fits source start stop' (token.withList stop') where
  starts := h.starts
  nonempty := h.nonempty
  stops := by
    have := (token.stop_span_le_fullSpan).trans (h.stops.trans hstop)
    rw [Token.stop_fullSpan_withList]
    omega
  chars := h.chars

/-- A group consists of its parenthesis. -/
lemma fits_group (id : Nat) (h : start ≤ stop) :
    Fits source start (stop + 1) (Token.group id stop) where
  starts := h
  nonempty := Nat.lt_succ_self _
  stops := le_rfl
  chars hkind := absurd rfl hkind

/-- The tokens of a sequence fit into the stretch it covers. -/
lemma fits (h : Tiles source start stop first next trees slots) :
    ∀ token ∈ tokensOf trees, Fits source start stop token := by
  induction h with
  | nil => simp [tokensOf]
  | blank _ _ _ ih => exact fun token htoken => (ih token htoken).mono le_rfl (Nat.le_succ _)
  | token before _ starts nonempty _ chars childless ih =>
    have hstart := before.le
    rw [tokensOf_append, tokensOf_leaf, List.forall_mem_append, List.forall_mem_singleton]
    exact ⟨fun token htoken => (ih token htoken).mono le_rfl (by omega),
      ⟨by omega, nonempty, by rw [Token.fullSpan_of_childless childless], fun _ => chars⟩⟩
  | @claimed _ stop _ _ stop' _ trees _ _ _ owner _ before _ _ inner _ ih ih' =>
    have hstart := before.le
    have hstop := inner.le
    rw [tokensOf_append, tokensOf_leaf, List.forall_mem_append, List.forall_mem_singleton] at ih
    rw [tokensOf_append, tokensOf_singleton, List.forall_mem_append, List.forall_mem_cons]
    exact ⟨fun token htoken => (ih.1 token htoken).mono le_rfl (by omega),
      ih.2.withList (by omega), fun token htoken => (ih' token htoken).mono (by omega) (by omega)⟩
  | group before _ inner _ ih ih' =>
    have hstart := before.le
    have hstop := inner.le
    rw [tokensOf_append, tokensOf_singleton, List.forall_mem_append, List.forall_mem_cons]
    exact ⟨fun token htoken => (ih token htoken).mono le_rfl (by omega),
      (fits_group _ hstart).withList (by omega),
      fun token htoken => (ih' token htoken).mono (by omega) (by omega)⟩

/-- Tokens before an offset and tokens after it are in order if those before it and those after it
are. -/
lemma pairwise_spans_append {ts ts' : List Token} (offset : Nat)
    (h : (ts.map Token.span).Pairwise fun x y => x.stop ≤ y.start)
    (h' : (ts'.map Token.span).Pairwise fun x y => x.stop ≤ y.start)
    (hts : ∀ token ∈ ts, token.fullSpan.stop ≤ offset)
    (hts' : ∀ token ∈ ts', offset ≤ token.span.start) :
    ((ts ++ ts').map Token.span).Pairwise fun x y => x.stop ≤ y.start := by
  rw [List.map_append]
  refine List.pairwise_append.mpr ⟨h, h', ?_⟩
  simp only [List.forall_mem_map]
  intro x hx y hy
  calc x.span.stop ≤ x.fullSpan.stop := x.stop_span_le_fullSpan
    _ ≤ offset := hts x hx
    _ ≤ y.span.start := hts' y hy

/-- The spans of tokens are disjoint and follow the order of the tokens. -/
lemma pairwise_spans (h : Tiles source start stop first next trees slots) :
    ((tokensOf trees).map Token.span).Pairwise fun a b => a.stop ≤ b.start := by
  induction h with
  | nil => simp [tokensOf]
  | blank _ _ _ ih => exact ih
  | @token _ stop _ _ _ _ token before _ starts nonempty _ chars childless ih =>
    rw [tokensOf_append, tokensOf_leaf]
    refine pairwise_spans_append stop ih (List.pairwise_singleton _ _)
      (fun token htoken => (before.fits token htoken).stops) ?_
    exact List.forall_mem_singleton.mpr starts.ge
  | @claimed _ stop _ _ _ _ _ _ _ _ _ _ before _ _ inner _ ih ih' =>
    rw [map_tokensOf_list _ _ Token.span_withList, ← List.map_append]
    exact pairwise_spans_append stop ih ih' (fun token htoken => (before.fits token htoken).stops)
      fun token htoken => (Nat.le_succ _).trans (inner.fits token htoken).starts
  | @group _ stop _ next _ _ _ _ _ _ _ before _ inner _ ih ih' =>
    rw [map_tokensOf_list _ _ Token.span_withList, ← List.map_append, tokensOf_append,
      tokensOf_leaf, List.append_assoc]
    refine pairwise_spans_append stop ih ?_
      (fun token htoken => (before.fits token htoken).stops) ?_
    · refine List.pairwise_cons.mpr ⟨?_, ih'⟩
      simp only [List.forall_mem_map]
      exact fun token htoken => (inner.fits token htoken).starts
    · refine List.forall_mem_cons.mpr ⟨le_rfl, fun token htoken => ?_⟩
      exact (Nat.le_succ _).trans (inner.fits token htoken).starts

/-! ### Sequences and lists -/

/-- No tree reaches beyond the stretch that its sequence covers. -/
lemma stop_le_of_mem {tree : TokenTree} (h : Tiles source start stop first next trees slots)
    (htree : tree ∈ trees) : tree.token.fullSpan.stop ≤ stop :=
  (h.fits _ (mem_tokensOf htree)).stops

/-- Each tree of a sequence ends before the next one starts. -/
lemma inSourceOrder (h : Tiles source start stop first next trees slots) : InSourceOrder trees := by
  unfold InSourceOrder
  induction h with
  | nil => exact List.Pairwise.nil
  | blank _ _ _ ih => exact ih
  | token before _ starts _ _ _ _ ih =>
    refine List.pairwise_append.mpr ⟨ih, List.pairwise_singleton _ _, ?_⟩
    simp only [List.forall_mem_singleton]
    exact fun tree htree => (before.stop_le_of_mem htree).trans starts.ge
  | claimed before _ _ _ _ ih _ =>
    obtain ⟨htrees, -, hlast⟩ := List.pairwise_append.mp ih
    refine List.pairwise_append.mpr ⟨htrees, List.pairwise_singleton _ _, ?_⟩
    simp only [List.forall_mem_singleton] at hlast ⊢
    exact hlast
  | group before _ _ _ ih _ =>
    refine List.pairwise_append.mpr ⟨ih, List.pairwise_singleton _ _, ?_⟩
    simp only [List.forall_mem_singleton]
    exact fun tree htree => before.stop_le_of_mem htree

/-- Behind the last token of a sequence, if it has no list, only blanks follow. -/
lemma blank_of_last {token : Token}
    (h : Tiles source start stop first next (trees ++ [⟨token, [], []⟩]) slots)
    (childless : token.childrenEnd = none) :
    token.kind ≠ .group ∧ token.span.stop ≤ stop ∧ ∀ o, token.span.stop ≤ o → o < stop →
      ∃ c, source[o]? = some c ∧ Text.isBlank c = true := by
  generalize hall : trees ++ [⟨token, [], []⟩] = all at h
  induction h with
  | nil => simp at hall
  | blank before char isBlank ih =>
    obtain ⟨hkind, hstop, hblank⟩ := ih hall
    refine ⟨hkind, by omega, fun o ho hlt => ?_⟩
    obtain hlt | rfl := Nat.lt_succ_iff_lt_or_eq.mp hlt
    · exact hblank o ho hlt
    · exact ⟨_, char, isBlank⟩
  | token _ _ _ _ kind _ _ _ =>
    obtain ⟨-, hlast⟩ := List.append_inj' hall rfl
    cases hlast
    exact ⟨kind, le_rfl, fun o ho hlt => absurd ho (by omega)⟩
  | claimed | group =>
    obtain ⟨-, hlast⟩ := List.append_inj' hall rfl
    cases hlast
    cases childless

/-- The list of the last token of a sequence opens behind the sequence. -/
lemma opensAt_claimed {owner : Token} {children : List TokenTree} {stop' o : Nat}
    (h : Tiles source start stop first next (trees ++ [⟨owner, [], []⟩]) slots)
    (claims : owner.claims stop = true) (char : source[stop]? = some '(') :
    OpensAt source ⟨owner.withList stop', children, []⟩ o ↔ o = stop := by
  obtain ⟨hkind, hstop, hblank⟩ := h.blank_of_last (Token.childless_of_claims claims)
  have hparen : ∀ c, '(' = c → Text.isBlank c = false := by
    rintro c rfl
    decide
  simp only [OpensAt, Token.kind_withList, hkind, if_false, Token.span_withList]
  constructor
  · rintro ⟨-, hchar, hle, hbefore⟩
    obtain hlt | rfl | hgt := Nat.lt_trichotomy o stop
    · obtain ⟨c, hc, hcblank⟩ := hblank o hle hlt
      rw [hchar, Option.some.injEq] at hc
      rw [hparen c hc] at hcblank
      cases hcblank
    · rfl
    · obtain ⟨c, hc, hcblank⟩ := hbefore stop hstop hgt
      rw [char, Option.some.injEq] at hc
      rw [hparen c hc] at hcblank
      cases hcblank
  · rintro rfl
    exact ⟨rfl, char, hstop, hblank⟩

/-- The list of a group opens with the group. -/
lemma opensAt_group {id offset stop' o : Nat} {children : List TokenTree}
    (char : source[offset]? = some '(') :
    OpensAt source ⟨(Token.group id offset).withList stop', children, []⟩ o ↔ o = offset := by
  constructor
  · rintro ⟨-, -, hstart⟩
    exact hstart
  · rintro rfl
    exact ⟨rfl, char, rfl⟩

/-- A sequence that is not empty ends with a blank or with its last tree. -/
lemma ends (h : Tiles source start stop first next trees slots) :
    stop = start ∨ (∃ o c, stop = o + 1 ∧ source[o]? = some c ∧ Text.isBlank c = true) ∨
      ∃ tree ∈ trees, tree.token.fullSpan.stop = stop := by
  have hlast : ∀ (trees : List TokenTree) (tree : TokenTree), tree ∈ trees ++ [tree] :=
    fun trees tree => List.mem_append_right trees (List.mem_singleton_self tree)
  cases h with
  | nil => exact .inl rfl
  | blank _ char isBlank => exact .inr (.inl ⟨_, _, rfl, char, isBlank⟩)
  | token _ _ _ _ _ _ childless =>
    exact .inr (.inr ⟨_, hlast _ _, by rw [Token.fullSpan_of_childless childless]⟩)
  | claimed before claims _ inner _ =>
    obtain ⟨-, hstop, -⟩ := before.blank_of_last (Token.childless_of_claims claims)
    have hinner := inner.le
    exact .inr (.inr ⟨_, hlast _ _, Token.stop_fullSpan_withList_of_le (by omega)⟩)
  | group before _ inner _ =>
    have hinner := inner.le
    refine .inr (.inr ⟨_, hlast _ _, Token.stop_fullSpan_withList_of_le ?_⟩)
    change _ + 1 ≤ _
    omega

/-- A list closes where it ends with a parenthesis, and nowhere if the source ends before. -/
lemma closesAt {owner : Token} {closed : Bool} {o : Nat}
    (inner : Tiles source (start + 1) stop first next trees slots)
    (char : source[start]? = some '(') (ends : ListEnds source stop closed) :
    ClosesAt source ⟨owner.withList (stop + closed.toNat), trees, []⟩ o ↔
      closed = true ∧ o = stop := by
  constructor
  · rintro ⟨hstop, hchar, hchildren⟩
    simp only [Token.childrenEnd_withList, Option.some.injEq] at hstop
    cases closed with
    | true => exact ⟨rfl, (Nat.succ.inj hstop).symm⟩
    | false =>
      -- The last character of the source would be in no tree of the list, and no blank either.
      have hstop : stop = o + 1 := hstop
      obtain hempty | ⟨o', c, ho', hc, hblank⟩ | ⟨child, hchild, hfull⟩ := inner.ends
      · obtain rfl : start = o := by omega
        rw [char] at hchar
        cases hchar
      · obtain rfl : o = o' := by omega
        rw [hchar] at hc
        cases hc
        exact absurd hblank (by decide)
      · have := hchildren child hchild
        omega
  · rintro ⟨rfl, rfl⟩
    exact ⟨rfl, ends, fun child hchild => inner.stop_le_of_mem hchild⟩

/-- What holds of every tree of a tiling. -/
structure IsLaid (source : List Char) (tree : TokenTree) : Prop where
  absorbed : tree.absorbed = []
  owner : tree.token.hasChildren = true → tree.token.MayOwn
  childless : tree.token.hasChildren = false → tree.children = []
  opens : tree.token.hasChildren = true → ∃ offset, tree.OpensAt source offset
  order : InSourceOrder tree.children
  inside : ∀ start stop, tree.OpensAt source start → tree.token.childrenEnd = some stop →
    ∀ token ∈ tokensOf tree.children, start < token.span.start ∧ token.fullSpan.stop ≤ stop

/-- A tree is laid out well if its list opens before what is in the list, and closes behind it. -/
lemma isLaid_list {owner : Token} {closed : Bool}
    (inner : Tiles source (start + 1) stop first next trees slots) (hown : owner.MayOwn)
    (opens : ∀ o, OpensAt source ⟨owner.withList (stop + closed.toNat), trees, []⟩ o ↔ o = start) :
    IsLaid source ⟨owner.withList (stop + closed.toNat), trees, []⟩ where
  absorbed := rfl
  owner _ := hown
  childless h := by cases h
  opens _ := ⟨start, (opens start).mpr rfl⟩
  order := inner.inSourceOrder
  inside := by
    intro o stop' ho hstop token htoken
    obtain rfl := (opens o).mp ho
    obtain rfl : stop + closed.toNat = stop' := Option.some.inj hstop
    have hfits := inner.fits token htoken
    exact ⟨hfits.starts, hfits.stops.trans (Nat.le_add_right _ _)⟩

/-- All trees in a sequence are laid out in the source, those in lists included. -/
lemma isLaid (h : Tiles source start stop first next trees slots) :
    ∀ tree ∈ subtreesOf trees, IsLaid source tree := by
  induction h with
  | nil => simp [subtreesOf]
  | blank _ _ _ ih => exact ih
  | @token _ _ _ _ _ _ token _ _ _ _ _ _ childless ih =>
    rw [subtreesOf_append, subtreesOf_singleton, List.forall_mem_append, List.forall_mem_cons]
    have hlist : ∀ {P : Prop}, token.hasChildren = true → P := fun h => by
      simp [Token.hasChildren, childless] at h
    refine ⟨ih, ⟨rfl, hlist, fun _ => rfl, hlist, List.Pairwise.nil, ?_⟩, by simp [subtreesOf]⟩
    simp [tokensOf]
  | claimed before claims char inner _ ih ih' =>
    rw [subtreesOf_append, List.forall_mem_append] at ih
    rw [subtreesOf_append, subtreesOf_singleton, List.forall_mem_append, List.forall_mem_cons]
    exact ⟨ih.1, isLaid_list inner (Token.mayOwn_of_claims claims)
      fun o => opensAt_claimed before claims char, ih'⟩
  | group _ char inner _ ih ih' =>
    rw [subtreesOf_append, subtreesOf_singleton, List.forall_mem_append, List.forall_mem_cons]
    exact ⟨ih, isLaid_list inner (.inl rfl) fun o => opensAt_group char, ih'⟩

/-! ### Owners -/

/-- Whether the character at an offset has an owner, where a list of owners begins at another
offset. -/
def IsSlotAt (slots : List Slot) (start offset : Nat) (slot : Slot) : Prop :=
  ∃ index, start + index = offset ∧ slots[index]? = some slot

/-- An owner of a stretch in two parts is one of the first part or one of the second. -/
lemma isSlotAt_append {slots slots' : List Slot} {middle offset : Nat} {slot : Slot}
    (hmiddle : start + slots.length = middle) :
    IsSlotAt (slots ++ slots') start offset slot ↔
      IsSlotAt slots start offset slot ∨ IsSlotAt slots' middle offset slot := by
  constructor
  · rintro ⟨index, rfl, hindex⟩
    rw [List.getElem?_append] at hindex
    split at hindex
    · exact .inl ⟨index, rfl, hindex⟩
    · exact .inr ⟨index - slots.length, by omega, hindex⟩
  · rintro (⟨index, rfl, hindex⟩ | ⟨index, rfl, hindex⟩)
    · obtain ⟨hlt, -⟩ := List.getElem?_eq_some_iff.mp hindex
      exact ⟨index, rfl, by rw [List.getElem?_append_left hlt, hindex]⟩
    · refine ⟨slots.length + index, by omega, ?_⟩
      rw [List.getElem?_append_right (Nat.le_add_right _ _), Nat.add_sub_cancel_left, hindex]

/-- A stretch with one owner has no other. -/
lemma isSlotAt_replicate {n offset : Nat} {slot slot' : Slot} :
    IsSlotAt (List.replicate n slot') start offset slot ↔
      slot = slot' ∧ start ≤ offset ∧ offset < start + n := by
  constructor
  · rintro ⟨index, rfl, hindex⟩
    obtain ⟨hlt, hslot⟩ := List.getElem?_eq_some_iff.mp hindex
    rw [List.getElem_replicate] at hslot
    rw [List.length_replicate] at hlt
    exact ⟨hslot.symm, Nat.le_add_right _ _, by omega⟩
  · rintro ⟨rfl, hle, hlt⟩
    refine ⟨offset - start, by omega, ?_⟩
    rw [List.getElem?_replicate, if_pos (by omega)]

/-- The owners of the characters before a list, and of those of the list and its parentheses. -/
lemma isSlotAt_list {slots slots' : List Slot} {stop' offset : Nat} {owner : Nat} {closed : Bool}
    {slot : Slot} (hstop : start + slots.length = stop)
    (hstop' : stop + 1 + slots'.length = stop') :
    IsSlotAt (slots ++ .opening owner :: (slots' ++ List.replicate closed.toNat (.closing owner)))
        start offset slot ↔
      IsSlotAt slots start offset slot ∨ (slot = .opening owner ∧ offset = stop) ∨
        IsSlotAt slots' (stop + 1) offset slot ∨
          (slot = .closing owner ∧ closed = true ∧ offset = stop') := by
  have hopening : ∀ l : List Slot, .opening owner :: l = List.replicate 1 (.opening owner) ++ l :=
    fun _ => rfl
  have hone : stop ≤ offset ∧ offset < stop + 1 ↔ offset = stop := by omega
  have hclosed : stop' ≤ offset ∧ offset < stop' + closed.toNat ↔
      closed = true ∧ offset = stop' := by
    cases closed
    · simp
    · simp only [Bool.toNat_true, true_and]
      omega
  have hfirst : stop + (List.replicate 1 (Slot.opening owner)).length = stop + 1 := rfl
  rw [hopening, isSlotAt_append hstop, isSlotAt_append hfirst, isSlotAt_append hstop',
    isSlotAt_replicate, isSlotAt_replicate, hone, hclosed]

/-- A token without a list owns its text. -/
lemma owns_leaf {token : Token} {offset : Nat} {slot : Slot}
    (childless : token.childrenEnd = none) : Owns source ⟨token, [], []⟩ offset slot ↔
      slot = .token token.id ∧ token.kind ≠ .group ∧ token.span.contains offset = true := by
  simp [Owns, OpensAt, ClosesAt, Token.hasChildren, childless]

/-- A token with a list owns its text and the parentheses of the list. -/
lemma owns_list {owner : Token} {closed : Bool} {offset : Nat} {slot : Slot}
    (opens : ∀ o, OpensAt source ⟨owner.withList (stop + closed.toNat), trees, []⟩ o ↔ o = start)
    (closes : ∀ o, ClosesAt source ⟨owner.withList (stop + closed.toNat), trees, []⟩ o ↔
      closed = true ∧ o = stop) :
    Owns source ⟨owner.withList (stop + closed.toNat), trees, []⟩ offset slot ↔
      (slot = .token owner.id ∧ owner.kind ≠ .group ∧ owner.span.contains offset = true) ∨
        (slot = .opening owner.id ∧ offset = start) ∨
          (slot = .closing owner.id ∧ closed = true ∧ offset = stop) := by
  simp only [Owns, opens, closes, Token.id_withList, Token.kind_withList, Token.span_withList]

/-- Whether a character belongs to one of some trees in a given way. -/
def Owned (source : List Char) (trees : List TokenTree) (offset : Nat) (slot : Slot) : Prop :=
  ∃ tree ∈ subtreesOf trees, tree.Owns source offset slot

/-- What a sequence in two parts owns is owned in the first or in the second. -/
lemma owned_append {trees trees' : List TokenTree} {offset : Nat} {slot : Slot} :
    Owned source (trees ++ trees') offset slot ↔
      Owned source trees offset slot ∨ Owned source trees' offset slot := by
  simp only [Owned, subtreesOf_append, List.mem_append, or_and_right, exists_or]

/-- What a tree owns is owned by its token or in its list. -/
lemma owned_singleton {tree : TokenTree} {offset : Nat} {slot : Slot} :
    Owned source [tree] offset slot ↔
      tree.Owns source offset slot ∨ Owned source tree.children offset slot := by
  simp only [Owned, subtreesOf_singleton, List.exists_mem_cons_iff]

/-- Without trees nothing is owned. -/
lemma not_owned_nil {offset : Nat} {slot : Slot} : ¬ Owned source [] offset slot := by
  simp [Owned, subtreesOf]

/-- The owners of the characters are those that the trees say. -/
lemma owned_iff (h : Tiles source start stop first next trees slots) (offset : Nat) {slot : Slot}
    (hslot : slot ≠ .space) :
    Owned source trees offset slot ↔ IsSlotAt slots start offset slot := by
  induction h with
  | nil => simp [not_owned_nil, IsSlotAt]
  | blank before _ _ ih =>
    rw [isSlotAt_append before.length_slots, ← List.replicate_one, isSlotAt_replicate, ih]
    simp [hslot]
  | token before _ starts nonempty kind _ childless ih =>
    rw [isSlotAt_append before.length_slots, isSlotAt_replicate, ← ih, owned_append,
      owned_singleton, owns_leaf childless, Span.length, ← starts,
      Nat.add_sub_cancel' (Nat.le_of_lt nonempty)]
    simp [not_owned_nil, kind, Span.contains]
  | claimed before claims char inner ends ih ih' =>
    rw [owned_append, owned_singleton, owns_leaf (Token.childless_of_claims claims)] at ih
    rw [isSlotAt_list before.length_slots inner.length_slots, ← ih, ← ih', owned_append,
      owned_singleton, owns_list (fun o => opensAt_claimed before claims char)
        fun o => closesAt inner char ends]
    simp only [not_owned_nil, or_false, or_assoc]
    exact or_congr_right (or_congr_right (or_congr_right or_comm))
  | group before char inner ends ih ih' =>
    rw [isSlotAt_list before.length_slots inner.length_slots, ← ih, ← ih', owned_append,
      owned_singleton, owns_list (fun o => opensAt_group char) fun o => closesAt inner char ends]
    have hgroup : ∀ id offset, (Token.group id offset).kind ≠ .group ↔ False := by
      simp [Token.group]
    simp only [hgroup, false_and, and_false, false_or, or_assoc]
    exact or_congr_right (or_congr_right or_comm)

/-- A space is a blank. -/
lemma isBlank_of_space (h : Tiles source start stop first next trees slots) {offset : Nat}
    (hslot : IsSlotAt slots start offset .space) :
    ∃ c, source[offset]? = some c ∧ Text.isBlank c = true := by
  induction h with
  | nil =>
    obtain ⟨index, -, hindex⟩ := hslot
    cases hindex
  | blank before char isBlank ih =>
    rw [isSlotAt_append before.length_slots, ← List.replicate_one, isSlotAt_replicate] at hslot
    obtain hslot | ⟨-, hle, hlt⟩ := hslot
    · exact ih hslot
    · obtain rfl := Nat.le_antisymm (Nat.le_of_lt_succ hlt) hle
      exact ⟨_, char, isBlank⟩
  | token before _ _ _ _ _ _ ih =>
    rw [isSlotAt_append before.length_slots, isSlotAt_replicate] at hslot
    obtain hslot | ⟨hslot, -⟩ := hslot
    · exact ih hslot
    · cases hslot
  | claimed before _ _ inner _ ih ih' | group before _ inner _ ih ih' =>
    rw [isSlotAt_list before.length_slots inner.length_slots] at hslot
    obtain hslot | ⟨hslot, -⟩ | hslot | ⟨hslot, -⟩ := hslot
    · exact ih hslot
    · cases hslot
    · exact ih' hslot
    · cases hslot

end Tiles

end RecordQuery
