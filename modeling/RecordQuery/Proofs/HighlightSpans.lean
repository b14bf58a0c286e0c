import Mathlib.Data.List.Pairwise
import RecordQuery.Highlight
import RecordQuery.Proofs.Absorption
import RecordQuery.Proofs.CaretPlaces

/-!
# Where highlights overlap

An editor paints the tokens of a text, groups left out. The tokens that are cut from a text lie one
behind the other, so their highlights would not overlap. But the words that a keyword absorbs stay
tokens, and the keyword reaches over them: `GROUP BY` is painted as a whole, and its `BY` once more.
That is the only way in which highlights overlap, and it happens wherever a keyword of several words
is.

Merging keeps where tokens start, and lets a token stop where another one has stopped. This is
enough to compare tokens of different sequences, as the tokens that were there before are apart.
Only a keyword has to be compared with the tokens that it reaches over, which are those up to the
last of its words (`Extends.keyword`).
-/

namespace RecordQuery

open TokenTree

namespace Token

/-- Whether a token ends before another one begins. -/
def EndsBefore (a b : Token) : Prop := a.span.stop ≤ b.span.start

/-- Whether a token is the keyword of a clause and reaches to the end of another one. -/
def ReachesOver (a b : Token) : Prop :=
  a.isClause = true ∧ a.fault = none ∧ b.span.stop ≤ a.span.stop

/-- Whether a token is painted. -/
def isPainted (token : Token) : Bool := token.kind != .group

end Token

/-! ## Tokens that reach over others -/

/-- Whether tokens lie one behind the other, each with a character, the words without a fault. -/
structure AreSeparate (tokens : List Token) : Prop where
  order : tokens.Pairwise Token.EndsBefore
  nonempty : ∀ t ∈ tokens, t.span.start < t.span.stop
  faultless : ∀ t ∈ tokens, t.kind = .word → t.fault = none

/-- Tokens of a list that are separate are so in its parts, and between them. -/
lemma AreSeparate.append {as bs : List Token} (h : AreSeparate (as ++ bs)) :
    AreSeparate as ∧ AreSeparate bs ∧ ∀ a ∈ as, ∀ b ∈ bs, a.EndsBefore b := by
  obtain ⟨horder, hnonempty, hfaultless⟩ := h
  obtain ⟨has, hbs, hapart⟩ := List.pairwise_append.mp horder
  rw [List.forall_mem_append] at hnonempty hfaultless
  exact ⟨⟨has, hnonempty.1, hfaultless.1⟩, ⟨hbs, hnonempty.2, hfaultless.2⟩, hapart⟩

/-- What becomes of tokens that are apart when some words among them are absorbed. -/
structure Extends (tokens words merged : List Token) : Prop where
  /-- No token starts where none did. -/
  starts : ∀ t ∈ merged, ∃ o ∈ tokens, t.kind = o.kind ∧ t.span.start = o.span.start
  /-- No token stops where none did. -/
  stops : ∀ t ∈ merged, ∃ o ∈ tokens, t.span.stop = o.span.stop
  /-- All tokens are there still, and none is shorter. -/
  kept : ∀ o ∈ tokens, ∃ t ∈ merged,
    t.kind = o.kind ∧ t.span.start = o.span.start ∧ o.span.stop ≤ t.span.stop
  /-- Tokens overlap only where words are absorbed, and by reaching over others. -/
  overlap : merged.Pairwise fun a b => a.EndsBefore b ∨ (words ≠ [] ∧ a.ReachesOver b)
  /-- And they do overlap where words are. -/
  meets : words ≠ [] → ¬ (merged.filter Token.isPainted).Pairwise Token.EndsBefore

namespace Extends

variable {as as' bs bs' words words' : List Token}

/-- A list extends itself, with nothing absorbed. -/
lemma refl (h : AreSeparate as) : Extends as [] as where
  starts t ht := ⟨t, ht, rfl, rfl⟩
  stops t ht := ⟨t, ht, rfl⟩
  kept o ho := ⟨o, ho, rfl, rfl, le_rfl⟩
  overlap := h.order.imp .inl
  meets hne := absurd rfl hne

/-- Tokens and others behind them are extended apart from each other. -/
lemma append (h : Extends as words as') (h' : Extends bs words' bs')
    (hapart : ∀ a ∈ as, ∀ b ∈ bs, a.EndsBefore b) :
    Extends (as ++ bs) (words ++ words') (as' ++ bs') where
  starts := by
    rw [List.forall_mem_append]
    constructor
    · intro t ht
      obtain ⟨o, ho, hsame⟩ := h.starts t ht
      exact ⟨o, List.mem_append_left _ ho, hsame⟩
    · intro t ht
      obtain ⟨o, ho, hsame⟩ := h'.starts t ht
      exact ⟨o, List.mem_append_right _ ho, hsame⟩
  stops := by
    rw [List.forall_mem_append]
    constructor
    · intro t ht
      obtain ⟨o, ho, hsame⟩ := h.stops t ht
      exact ⟨o, List.mem_append_left _ ho, hsame⟩
    · intro t ht
      obtain ⟨o, ho, hsame⟩ := h'.stops t ht
      exact ⟨o, List.mem_append_right _ ho, hsame⟩
  kept := by
    rw [List.forall_mem_append]
    constructor
    · intro o ho
      obtain ⟨t, ht, hsame⟩ := h.kept o ho
      exact ⟨t, List.mem_append_left _ ht, hsame⟩
    · intro o ho
      obtain ⟨t, ht, hsame⟩ := h'.kept o ho
      exact ⟨t, List.mem_append_right _ ht, hsame⟩
  -- a token of the first part stops where one of that part did, before the second part starts
  overlap := by
    refine List.pairwise_append.mpr ⟨h.overlap.imp ?_, h'.overlap.imp ?_, ?_⟩
    · rintro a b (hbefore | ⟨hne, hover⟩)
      · exact .inl hbefore
      · exact .inr ⟨List.append_ne_nil_of_left_ne_nil hne _, hover⟩
    · rintro a b (hbefore | ⟨hne, hover⟩)
      · exact .inl hbefore
      · exact .inr ⟨List.append_ne_nil_of_right_ne_nil _ hne, hover⟩
    · intro a ha b hb
      obtain ⟨x, hx, hstop⟩ := h.stops a ha
      obtain ⟨y, hy, -, hstart⟩ := h'.starts b hb
      have hbefore : x.span.stop ≤ y.span.start := hapart x hx y hy
      exact .inl (hstop.trans_le (hbefore.trans_eq hstart.symm))
  meets hne hpairwise := by
    rw [List.filter_append] at hpairwise
    obtain ⟨has, hbs, -⟩ := List.pairwise_append.mp hpairwise
    by_cases hnil : words = []
    · rw [hnil, List.nil_append] at hne
      exact h'.meets hne hbs
    · exact h.meets hnil has

/-- A keyword reaches over the tokens in its list and over its words, up to the last one. -/
lemma keyword {token key last : Token} {inside inside' front behind : List Token}
    (hseparate : AreSeparate (token :: (inside ++ (front ++ last :: behind))))
    (hinside : Extends inside words' inside') (hwords : words ≠ []) (hkind : key.kind = token.kind)
    (hspan : key.span = ⟨token.span.start, last.span.stop⟩) (hclause : key.isClause = true)
    (hfault : key.fault = none) (hlast : last.isPainted = true) :
    Extends (token :: (inside ++ (front ++ last :: behind))) words
      (key :: (inside' ++ (front ++ last :: behind))) := by
  -- the tokens are the word, those in its list, those up to the last word, and those behind
  have hwhole : AreSeparate ([token] ++ (inside ++ (front ++ last :: behind))) := hseparate
  obtain ⟨-, hbelow, htoken⟩ := hwhole.append
  obtain ⟨-, hspelled, hbefore⟩ := hbelow.append
  obtain ⟨-, hends, hfront⟩ := hspelled.append
  have hrest := hinside.append (refl hspelled) hbefore
  have hstart : key.span.start = token.span.start := by rw [hspan]
  have hstop : key.span.stop = last.span.stop := by rw [hspan]
  have hnonempty : last.span.start < last.span.stop := hends.nonempty last List.mem_cons_self
  have hmem : last ∈ inside ++ (front ++ last :: behind) := by simp
  have hfirst : token.span.stop ≤ last.span.start := htoken token List.mem_cons_self last hmem
  have hover : ∀ t, t.span.stop ≤ last.span.start → key.ReachesOver t := fun t ht =>
    ⟨hclause, hfault, hstop ▸ ht.trans hnonempty.le⟩
  refine ⟨?_, ?_, ?_, ?_, ?_⟩
  · refine List.forall_mem_cons.mpr ⟨⟨token, List.mem_cons_self, hkind, hstart⟩, fun t ht => ?_⟩
    obtain ⟨o, ho, hsame⟩ := hrest.starts t ht
    exact ⟨o, List.mem_cons_of_mem _ ho, hsame⟩
  · refine List.forall_mem_cons.mpr ⟨⟨last, List.mem_cons_of_mem _ hmem, hstop⟩, fun t ht => ?_⟩
    obtain ⟨o, ho, hsame⟩ := hrest.stops t ht
    exact ⟨o, List.mem_cons_of_mem _ ho, hsame⟩
  · refine List.forall_mem_cons.mpr ⟨⟨key, List.mem_cons_self, hkind, hstart, ?_⟩, fun o ho => ?_⟩
    · rw [hstop]
      omega
    · obtain ⟨t, ht, hsame⟩ := hrest.kept o ho
      exact ⟨t, List.mem_cons_of_mem _ ht, hsame⟩
  · refine List.pairwise_cons.mpr ⟨fun t ht => ?_, hrest.overlap.imp ?_⟩
    · -- a token stands in the list, before the last word, as that word, or behind it
      rcases List.mem_append.mp ht with ht | ht
      · obtain ⟨o, ho, hsame⟩ := hinside.stops t ht
        have hle : o.span.stop ≤ last.span.start := hbefore o ho last (by simp)
        exact .inr ⟨hwords, hover t (hsame.trans_le hle)⟩
      · rcases List.mem_append.mp ht with ht | ht
        · exact .inr ⟨hwords, hover t (hfront t ht last List.mem_cons_self)⟩
        · rcases List.mem_cons.mp ht with rfl | ht
          · exact .inr ⟨hwords, hclause, hfault, hstop.ge⟩
          · have hle : last.span.stop ≤ t.span.start := (List.pairwise_cons.mp hends.order).1 t ht
            exact .inl (hstop.trans_le hle)
    · rintro a b (hbefore | ⟨-, hover⟩)
      · exact .inl hbefore
      · exact .inr ⟨hwords, hover⟩
  -- the keyword encloses its last word, which is painted too
  · intro _ hpairwise
    have hkey : key.isPainted = true := by
      rw [Token.isClause, Bool.and_eq_true, beq_iff_eq] at hclause
      rw [Token.isPainted, hclause.1]
      rfl
    rw [List.filter_cons_of_pos hkey] at hpairwise
    have hle : key.span.stop ≤ last.span.start :=
      (List.pairwise_cons.mp hpairwise).1 last (List.mem_filter.mpr ⟨by simp, hlast⟩)
    omega

end Extends

/-! ## Merging -/

namespace TokenTree

/-- The words that keywords in some trees have absorbed. -/
def absorbedIn (trees : List TokenTree) : List Token :=
  (subtreesOf trees).flatMap fun tree => tree.absorbed.map TokenTree.token

/-- What was absorbed in a sequence was absorbed by the first tree, in its list, or behind it. -/
lemma absorbedIn_cons (tree : TokenTree) (rest : List TokenTree) :
    absorbedIn (tree :: rest) =
      tree.absorbed.map TokenTree.token ++ absorbedIn tree.children ++ absorbedIn rest := by
  rw [absorbedIn, subtreesOf, List.flatMap_append, subtrees_eq, List.flatMap_cons]
  rfl

/-- A keyword of several words is the keyword of a clause, and has a word behind its first. -/
lemma isClause_of_mergedKeywords {names : List String} {kind : Kind}
    (h : (names, kind) ∈ mergedKeywords) :
    kind.isClause = true ∧ ∃ first second rest, names = first :: second :: rest := by
  have hall : ∀ entry ∈ mergedKeywords, entry.2.isClause = true ∧ 2 ≤ entry.1.length := by decide
  obtain ⟨hclause, hlength⟩ := hall _ h
  rcases names with _ | ⟨first, _ | ⟨second, rest⟩⟩
  · simp at hlength
  · simp at hlength
  · exact ⟨hclause, first, second, rest, rfl⟩

/-- Only words spell keywords. -/
lemma kind_of_isWord {token : Token} {word : String} (h : token.isWord word = true) :
    token.kind = .word := by
  rw [Token.isWord, Bool.and_eq_true, beq_iff_eq] at h
  exact h.1

/-- A keyword of several words begins with a word, and has a last one behind it. -/
lemma exists_last_of_spells {names : List String} {kind : Kind} {tree : TokenTree}
    {rest : List TokenTree} (hentry : (names, kind) ∈ mergedKeywords)
    (h : spells names (tree :: rest) = true) :
    tree.token.kind = .word ∧ ∃ init last, rest.take (names.length - 1) = init ++ [last] ∧
      last.token.kind = .word := by
  obtain ⟨-, first, second, more, rfl⟩ := isClause_of_mergedKeywords hentry
  rw [spells, Bool.and_eq_true] at h
  have hwords := (forall₂_of_spells h.2).flip
  refine ⟨kind_of_isWord h.1, ?_⟩
  show ∃ init last, rest.take (second :: more).length = init ++ [last] ∧ _
  rcases List.eq_nil_or_concat (rest.take (second :: more).length) with hnil | ⟨init, last, hlast⟩
  · rw [hnil] at hwords
    cases hwords
  · rw [List.concat_eq_append] at hlast
    rw [hlast] at hwords
    have hrest := List.forall₂_drop init.length hwords
    rw [List.drop_left] at hrest
    obtain ⟨word, -, hword, -, -⟩ := List.forall₂_cons_left_iff.mp hrest
    exact ⟨init, last, hlast, kind_of_isWord hword⟩

/-- Whether merging the list of a tree extends its tokens. -/
def ExtendsInside (tree : TokenTree) : Prop :=
  tree.absorbed = [] ∧ Extends (tokensOf tree.children) (absorbedIn (mergeAll tree.children))
    (tokensOf (mergeAll tree.children))

/-- Merging a sequence extends its tokens by what the keywords absorb, if each tree does
so inside. -/
lemma extends_of_longestMatch {trees merged : List TokenTree} (h : LongestMatch trees merged)
    (hseparate : AreSeparate (tokensOf trees)) (hinside : ∀ tree ∈ trees, tree.ExtendsInside) :
    Extends (tokensOf trees) (absorbedIn merged) (tokensOf merged) := by
  induction h with
  | nil => exact .refl hseparate
  | @other tree rest merged _ _ ih =>
    obtain ⟨⟨habsorbed, hchildren⟩, hrest⟩ := List.forall_mem_cons.mp hinside
    obtain ⟨token, children, absorbed⟩ := tree
    obtain rfl : absorbed = [] := habsorbed
    rw [tokensOf, tokens, tokensOf, List.append_nil] at hseparate
    obtain ⟨hfirst, hbehind, hapart⟩ := hseparate.append
    have hwhole : AreSeparate ([token] ++ tokensOf children) := hfirst
    obtain ⟨htoken, -, hlist⟩ := hwhole.append
    have htree := (Extends.refl htoken).append hchildren hlist
    have hall := htree.append (ih hbehind hrest) hapart
    rw [absorbedIn_cons, merge, tokensOf, tokens, tokensOf, tokensOf, tokens, tokensOf,
      List.append_nil, List.append_nil]
    exact hall
  | @keyword tree rest merged names kind entry spelled _ _ ih =>
    obtain ⟨⟨habsorbed, hchildren⟩, hrest⟩ := List.forall_mem_cons.mp hinside
    obtain ⟨hword, init, last, hwords, hlast⟩ := exists_last_of_spells entry spelled
    obtain ⟨token, children, absorbed⟩ := tree
    obtain rfl : absorbed = [] := habsorbed
    have hsplit : tokensOf rest =
        tokensOf (rest.take (names.length - 1)) ++ tokensOf (rest.drop (names.length - 1)) := by
      rw [← tokensOf_append, List.take_append_drop]
    have hspelled : tokensOf (rest.take (names.length - 1)) =
        tokensOf init ++ last.token :: (tokensOf last.children ++ tokensOf last.absorbed) := by
      obtain ⟨token, children, absorbed⟩ := last
      rw [hwords, tokensOf_append, tokensOf, tokens, tokensOf, List.append_nil]
    -- the keyword takes the words up to `last`, with all that is in their lists
    have htokens : tokensOf (⟨token, children, []⟩ :: rest) =
        token :: (tokensOf children ++ (tokensOf init ++
          last.token :: (tokensOf last.children ++ tokensOf last.absorbed))) ++
            tokensOf (rest.drop (names.length - 1)) := by
      rw [tokensOf, tokens, tokensOf, List.append_nil, hsplit, hspelled]
      simp only [List.cons_append, List.append_assoc]
    rw [htokens] at hseparate ⊢
    obtain ⟨hfirst, hbehind, hapart⟩ := hseparate.append
    set key :=
      (becomeKeyword (merge ⟨token, children, []⟩) kind (rest.take (names.length - 1))).token
      with hkey
    have hspan : key.span = ⟨token.span.start, last.token.span.stop⟩ := by
      rw [hkey, hwords, merge, becomeKeyword, List.getLast?_concat]
    have hclause : key.isClause = true := by
      rw [hkey, merge, becomeKeyword, Token.isClause, hword]
      exact (isClause_of_mergedKeywords entry).1
    have hfault : key.fault = none := hfirst.faultless token List.mem_cons_self hword
    have hne : (rest.take (names.length - 1)).map TokenTree.token ++
        absorbedIn (mergeAll children) ≠ [] := by
      rw [hwords]
      simp
    have hpainted : last.token.isPainted = true := by
      rw [Token.isPainted, hlast]
      rfl
    have hkind : key.kind = token.kind := rfl
    have hkeyword := Extends.keyword hfirst hchildren hne hkind hspan hclause hfault hpainted
    have hall := hkeyword.append (ih hbehind fun t ht => hrest t (List.mem_of_mem_drop ht)) hapart
    rw [absorbedIn_cons, merge, becomeKeyword, tokensOf, tokens, hspelled]
    exact hall

mutual

/-- Merging inside a tree extends its tokens by what is absorbed there. -/
lemma extendsInside : (tree : TokenTree) → (∀ t ∈ tree.subtrees, t.absorbed = []) →
    AreSeparate tree.tokens → tree.ExtendsInside
  | ⟨token, children, absorbed⟩, hnone, hseparate => by
    rw [subtrees, List.forall_mem_cons] at hnone
    obtain ⟨rfl, hchildren⟩ := hnone
    rw [tokens, tokensOf, List.append_nil] at hseparate
    have hwhole : AreSeparate ([token] ++ tokensOf children) := hseparate
    obtain ⟨-, hlist, -⟩ := hwhole.append
    exact ⟨rfl, extends_of_longestMatch (longestMatch_mergeAll children) hlist
      (extendsInside_of_mem children hchildren hlist)⟩

/-- Merging inside the trees of a sequence extends the tokens of each. -/
lemma extendsInside_of_mem : (trees : List TokenTree) →
    (∀ t ∈ subtreesOf trees, t.absorbed = []) → AreSeparate (tokensOf trees) →
      ∀ tree ∈ trees, tree.ExtendsInside
  | [], _, _ => by simp
  | tree :: rest, hnone, hseparate => by
    rw [subtreesOf, List.forall_mem_append] at hnone
    rw [tokensOf] at hseparate
    obtain ⟨htree, hrest, -⟩ := hseparate.append
    exact List.forall_mem_cons.mpr
      ⟨extendsInside tree hnone.1 htree, extendsInside_of_mem rest hnone.2 hrest⟩

end

end TokenTree

namespace TokenForest

variable {text : String} {ceilings : Ceilings} {forest : TokenForest}

/-- A word is complete, whatever is wrong with the tokens around it. -/
lemma fault_of_word (h : ofText text ceilings = .ok forest) :
    AllOf (fun t => t.kind = .word → t.fault = none) forest.trees := by
  have hword : ∀ {id kind text span}, (Token.ofWord id kind text span).fault = none := by
    intro id kind text span
    unfold Token.ofWord
    split <;> rfl
  refine allOf_trees h ?_ (fun id offset h => by cases h) fun t stop ht => ht
  intro lexeme _ id span t ht
  cases lexeme with
  | blank | opening | closing => cases ht
  | delimiter | block | bracketed =>
    cases ht
    simp
  | quoted quote body closed =>
    simp only [Token.ofLexeme?, Token.ofQuoted, Option.some.injEq] at ht
    subst ht
    split <;> simp
  | run kind chars =>
    cases kind <;> cases ht
    · exact fun _ => hword
    · exact fun _ => hword
    · simp

/-- The tokens of a text are separate, in order. -/
lemma areSeparate_tokens (h : ofText text ceilings = .ok forest) : AreSeparate forest.tokens := by
  obtain ⟨-, htiled⟩ := isTiled_of_ofText h
  refine ⟨htiled.disjoint.imp And.right, fun t ht => (htiled.spans t ht).1, fun t ht => ?_⟩
  refine (allOf_iff_reachable forest.trees).mp (fault_of_word h) t ?_
  rw [reachableOf_eq_map]
  rw [htiled.tokens_eq] at ht
  exact ht

/-- Merging extends the tokens of a text by the words that keywords absorb. -/
lemma extends_merge (h : ofText text ceilings = .ok forest) :
    Extends forest.tokens forest.merge.absorbedWords forest.merge.tokens := by
  have hseparate := areSeparate_tokens h
  exact extends_of_longestMatch (longestMatch_mergeAll forest.trees) hseparate
    (extendsInside_of_mem forest.trees (absorbed_of_ofText h) hseparate)

/-- Where a character belongs to the text of a token, such a token was cut from there. -/
lemma exists_token_of_slot (h : ofText text ceilings = .ok forest) {offset id : Nat}
    (hslot : forest.merge.slots[offset]? = some (.token id)) :
    ∃ token ∈ forest.tokens, token.isPainted = true ∧ token.span.contains offset = true := by
  obtain ⟨-, htiled⟩ := isTiled_of_ofText h
  rw [merge, List.getElem?_map, Option.map_eq_some_iff] at hslot
  obtain ⟨slot, hslot, howner⟩ := hslot
  have hspace : slot ≠ .space := by
    rintro rfl
    cases howner
  obtain ⟨tree, htree, ⟨rfl, hkind, hcontains⟩ | ⟨rfl, -⟩ | ⟨rfl, -⟩⟩ :=
    (htiled.owner offset slot hspace).mp hslot
  · refine ⟨tree.token, ?_, by simpa [Token.isPainted] using hkind, hcontains⟩
    rw [htiled.tokens_eq]
    exact List.mem_map_of_mem htree
  · cases howner
  · cases howner

/-- Where a token that is no group was cut from, its first character belongs to the text of one. -/
lemma exists_slot_of_token (h : ofText text ceilings = .ok forest) {token : Token}
    (htoken : token ∈ forest.tokens) (hpainted : token.isPainted = true) :
    ∃ id, forest.merge.slots[token.span.start]? = some (.token id) := by
  obtain ⟨-, htiled⟩ := isTiled_of_ofText h
  have hnonempty := (htiled.spans token htoken).1
  rw [htiled.tokens_eq] at htoken
  obtain ⟨tree, htree, rfl⟩ := List.mem_map.mp htoken
  have hspace : Slot.token tree.token.id ≠ .space := nofun
  have hslot : forest.slots[tree.token.span.start]? = some (.token tree.token.id) := by
    refine (htiled.owner _ _ hspace).mpr ⟨tree, htree, .inl ⟨rfl, ?_, ?_⟩⟩
    · simpa [Token.isPainted] using hpainted
    · simpa [Span.contains] using hnonempty
  rw [merge, List.getElem?_map, hslot]
  exact ⟨_, rfl⟩

/-- No token is empty after merging. -/
lemma nonempty_merge (h : ofText text ceilings = .ok forest) :
    ∀ token ∈ forest.merge.tokens, token.span.start < token.span.stop := by
  obtain ⟨next, htiles⟩ := exists_tiles h
  exact nonempty_of_nestedIn _ (nestedIn_mergeAll forest.trees 0 (nestedIn_of_tiles htiles))

end TokenForest

/-! ## Highlights -/

namespace Highlight

/-- Whether a highlight ends before another one begins. -/
def EndsBefore (a b : Highlight) : Prop := a.span.stop ≤ b.span.start

/-- How the highlights of a text, in their order, lie over the tokens of its merged forest. -/
structure LieOver (highlights : List Highlight) (forest : TokenForest) : Prop where
  /-- They start one behind the other. -/
  starts : highlights.Pairwise fun a b => a.span.start < b.span.start
  /-- One ends before another one begins, or it is that of a clause keyword and
  encloses the other. -/
  overlap : highlights.Pairwise fun a b =>
    a.EndsBefore b ∨ (a.category = .clause ∧ a.span.encloses b.span = true)
  /-- Every character in the text of a token is highlighted. -/
  covered : ∀ offset id, forest.slots[offset]? = some (.token id) →
    ∃ highlight ∈ highlights, highlight.span.contains offset = true
  /-- None overlap just where no keyword has absorbed words. -/
  apart : highlights.Pairwise EndsBefore ↔ forest.absorbedWords = []
  /-- And just then every character in the text of a token is highlighted once. -/
  once : (∀ offset id, forest.slots[offset]? = some (.token id) →
    ∃! highlight, highlight ∈ highlights ∧ highlight.span.contains offset = true) ↔
      forest.absorbedWords = []

variable {highlights : List Highlight}

/-- Where highlights are in order, a character that is highlighted is so once. -/
lemma existsUnique_of_pairwise (h : highlights.Pairwise EndsBefore) {offset : Nat}
    (hcovered : ∃ highlight ∈ highlights, highlight.span.contains offset = true) :
    ∃! highlight, highlight ∈ highlights ∧ highlight.span.contains offset = true := by
  have hapart : highlights.Pairwise fun a b => a.EndsBefore b ∨ b.EndsBefore a := h.imp .inl
  have : Std.Symm fun a b : Highlight => a.EndsBefore b ∨ b.EndsBefore a := ⟨fun _ _ => Or.symm⟩
  obtain ⟨a, ha, hcontains⟩ := hcovered
  refine ⟨a, ⟨ha, hcontains⟩, ?_⟩
  rintro b ⟨hb, hcontains'⟩
  by_contra hne
  have hends := hapart.forall hb ha hne
  simp only [EndsBefore, Span.contains, Bool.and_eq_true, decide_eq_true_eq] at *
  omega

/-- Where no highlight starts in another one, they are apart. -/
lemma pairwise_of_existsUnique
    (hstarts : highlights.Pairwise fun a b => a.span.start < b.span.start)
    (hnonempty : ∀ highlight ∈ highlights, highlight.span.start < highlight.span.stop)
    (h : ∀ b ∈ highlights,
      ∃! a, a ∈ highlights ∧ a.span.contains b.span.start = true) :
    highlights.Pairwise EndsBefore := by
  refine List.Pairwise.imp_of_mem (fun {a b} ha hb hlt => ?_) hstarts
  by_contra hreaches
  have hreaches' : b.span.start < a.span.stop := Nat.lt_of_not_le hreaches
  have hsame : a = b := by
    refine (h b hb).unique ⟨ha, ?_⟩ ⟨hb, ?_⟩
    · simp only [Span.contains, Bool.and_eq_true, decide_eq_true_eq]
      exact ⟨hlt.le, hreaches'⟩
    · simp only [Span.contains, Bool.and_eq_true, decide_eq_true_eq]
      exact ⟨le_rfl, hnonempty b hb⟩
  rw [hsame] at hlt
  exact absurd hlt (lt_irrefl _)

end Highlight

namespace Reading

/-- How a token is painted. -/
def highlightOf (r : Reading) (token : Token) : Highlight where
  span := token.span
  category := Highlight.categoryOf token (r.notes.role? token)

/-- Tokens that start one behind the other are painted in their order. -/
lemma highlights_eq {r : Reading}
    (h : r.tokens.Pairwise fun a b => a.span.start < b.span.start) :
    r.highlights = (r.tokens.filter Token.isPainted).map r.highlightOf := by
  refine List.mergeSort_of_pairwise (List.pairwise_map.mpr ?_)
  exact (h.filter Token.isPainted).imp fun hlt => by simpa using hlt.le

/-- Only a keyword of a clause reaches over another token. -/
lemma category_of_reachesOver {r : Reading} {a b : Token} (h : a.ReachesOver b) :
    (r.highlightOf a).category = .clause := by
  obtain ⟨hclause, hfault, -⟩ := h
  rw [highlightOf, Highlight.categoryOf, hfault, hclause]
  rfl

section

variable {text : String} {ceilings : Ceilings} {forest : TokenForest} {r : Reading}
  (h : TokenForest.ofText text ceilings = .ok forest) (hmerged : r.forest = forest.merge)

include h hmerged

/-- A text has a highlight for each token that is painted. -/
lemma highlights_of_merge :
    r.highlights = (forest.merge.tokens.filter Token.isPainted).map r.highlightOf := by
  have htokens : r.tokens = forest.merge.tokens := congrArg TokenForest.tokens hmerged
  have hstarts := (TokenForest.pairwise_tokens_merge h).imp fun hlt => hlt.2
  rw [← htokens] at hstarts ⊢
  exact highlights_eq hstarts

/-- A character with an owner is highlighted. -/
lemma exists_highlight_of_slot {offset id : Nat}
    (hslot : forest.merge.slots[offset]? = some (.token id)) :
    ∃ highlight ∈ r.highlights, highlight.span.contains offset = true := by
  obtain ⟨o, ho, hkind, hcontains⟩ := TokenForest.exists_token_of_slot h hslot
  obtain ⟨t, ht, hsame, hstart, hstop⟩ := (TokenForest.extends_merge h).kept o ho
  refine ⟨r.highlightOf t, ?_, ?_⟩
  · rw [highlights_of_merge h hmerged]
    refine List.mem_map_of_mem (List.mem_filter.mpr ⟨ht, ?_⟩)
    rwa [Token.isPainted, hsame]
  · simp only [Span.contains, Bool.and_eq_true, decide_eq_true_eq] at hcontains ⊢
    show t.span.start ≤ offset ∧ offset < t.span.stop
    omega

/-- A highlight holds a character, and starts where a token was cut from the text. -/
lemma exists_slot_of_highlight {highlight : Highlight} (hmem : highlight ∈ r.highlights) :
    highlight.span.start < highlight.span.stop ∧
      ∃ id, forest.merge.slots[highlight.span.start]? = some (.token id) := by
  rw [highlights_of_merge h hmerged] at hmem
  obtain ⟨t, ht, rfl⟩ := List.mem_map.mp hmem
  obtain ⟨ht, hkind⟩ := List.mem_filter.mp ht
  obtain ⟨o, ho, hsame, hstart⟩ := (TokenForest.extends_merge h).starts t ht
  rw [Token.isPainted, hsame] at hkind
  obtain ⟨id, hslot⟩ := TokenForest.exists_slot_of_token h ho hkind
  rw [← hstart] at hslot
  exact ⟨TokenForest.nonempty_merge h t ht, id, hslot⟩

/-- Highlights are in order exactly if no keyword has absorbed a word. -/
lemma pairwise_endsBefore_iff :
    r.highlights.Pairwise Highlight.EndsBefore ↔ forest.merge.absorbedWords = [] := by
  have hextends := TokenForest.extends_merge h
  have hends : r.highlights.Pairwise Highlight.EndsBefore ↔
      (forest.merge.tokens.filter Token.isPainted).Pairwise Token.EndsBefore := by
    rw [highlights_of_merge h hmerged, List.pairwise_map]
    rfl
  rw [hends]
  constructor
  · intro hpairwise
    by_contra hne
    exact hextends.meets hne hpairwise
  · intro hnil
    refine (hextends.overlap.filter Token.isPainted).imp ?_
    rintro a b (hbefore | ⟨hne, -⟩)
    · exact hbefore
    · exact absurd hnil hne

/-- Highlights lie over one another exactly where keywords reach over absorbed words. -/
lemma lieOver_highlights : Highlight.LieOver r.highlights forest.merge := by
  have hpainted := highlights_of_merge h hmerged
  have hfiltered := ((TokenForest.pairwise_tokens_merge h).imp fun hlt => hlt.2).filter
    Token.isPainted
  have hordered : r.highlights.Pairwise fun a b => a.span.start < b.span.start := by
    rw [hpainted]
    exact List.pairwise_map.mpr hfiltered
  have hapart := pairwise_endsBefore_iff h hmerged
  refine ⟨hordered, ?_, fun _ _ => exists_highlight_of_slot h hmerged, hapart, ?_⟩
  · have hoverlap := (TokenForest.extends_merge h).overlap.filter Token.isPainted
    rw [hpainted, List.pairwise_map]
    refine (hfiltered.and hoverlap).imp ?_
    rintro a b ⟨hlt, hbefore | ⟨-, hover⟩⟩
    · exact .inl hbefore
    · refine .inr ⟨category_of_reachesOver hover, ?_⟩
      have hstop := hover.2.2
      simp only [Span.encloses, Bool.and_eq_true, decide_eq_true_eq]
      exact ⟨hlt.le, hstop⟩
  · rw [← hapart]
    constructor
    · intro honce
      refine Highlight.pairwise_of_existsUnique hordered
        (fun highlight hmem => (exists_slot_of_highlight h hmerged hmem).1) fun highlight hmem => ?_
      obtain ⟨-, id, hslot⟩ := exists_slot_of_highlight h hmerged hmem
      exact honce _ id hslot
    · exact fun hpairwise offset id hslot =>
        Highlight.existsUnique_of_pairwise hpairwise (exists_highlight_of_slot h hmerged hslot)

end

variable {text : String} {registry : Registry} {ceilings : Ceilings} {forest : TokenForest}

/-- Every text that can be cut into tokens has its highlights in the order of their starts, and all
of it that is text of tokens is highlighted, whether its clauses can be read or not. Highlights
overlap where keywords of several words are, and nowhere else: the keyword is highlighted as a
whole, and what it reaches over once more. -/
theorem exists_lieOver_highlights (registry : Registry)
    (h : TokenForest.ofText text ceilings = .ok forest) :
    ∃ r, start text registry ceilings = .ok r ∧ r.evaluate.2.forest = forest.merge ∧
      Highlight.LieOver r.evaluate.2.highlights forest.merge := by
  have hstart : start text registry ceilings = .ok
      ⟨⟨forest.source, registry, ceilings⟩, forest.merge,
        { draft := { problems := forest.problems } }⟩ := by
    unfold start
    rw [h]
    rfl
  refine ⟨_, hstart, ?_⟩
  have hmerged := congrArg Reading.forest (evaluate_eq
    ⟨⟨forest.source, registry, ceilings⟩,
      forest.merge, { draft := { problems := forest.problems } }⟩)
  exact ⟨hmerged, lieOver_highlights h hmerged⟩

/-- `GROUP BY` is highlighted as a whole, and its `BY` once more. -/
theorem exists_lieOver_highlights_groupBy : ∃ forest r,
    TokenForest.ofText "SELECT a GROUP BY b" {} = .ok forest ∧
      start "SELECT a GROUP BY b" .empty {} = .ok r ∧ r.evaluate.1 = true ∧
      r.evaluate.2.highlights = [⟨⟨0, 6⟩, .clause⟩, ⟨⟨7, 8⟩, .property⟩, ⟨⟨9, 17⟩, .clause⟩,
        ⟨⟨15, 17⟩, .plain⟩, ⟨⟨18, 19⟩, .property⟩] ∧
      Highlight.LieOver r.evaluate.2.highlights forest.merge := by
  have hsample : (start "SELECT a GROUP BY b" .empty {}).toOption.any (fun r =>
      r.evaluate.1 && (r.tokens.filter Token.isPainted).map r.evaluate.2.highlightOf ==
        [⟨⟨0, 6⟩, .clause⟩, ⟨⟨7, 8⟩, .property⟩, ⟨⟨9, 17⟩, .clause⟩, ⟨⟨15, 17⟩, .plain⟩,
          ⟨⟨18, 19⟩, .property⟩]) = true := by
    decide +kernel
  cases hforest : TokenForest.ofText "SELECT a GROUP BY b" {} with
  | error problem =>
    rw [start, hforest] at hsample
    cases hsample
  | ok forest =>
    obtain ⟨r, hstart, hmerged, hlie⟩ := exists_lieOver_highlights .empty hforest
    rw [hstart] at hsample
    simp only [Except.toOption, Option.any_some, Bool.and_eq_true, beq_iff_eq] at hsample
    have htokens : r.evaluate.2.tokens = r.tokens := by rw [evaluate_eq r]; rfl
    have hstarts : r.evaluate.2.tokens.Pairwise fun a b => a.span.start < b.span.start := by
      rw [tokens, hmerged]
      exact (TokenForest.pairwise_tokens_merge hforest).imp fun hlt => hlt.2
    refine ⟨forest, r, rfl, hstart, hsample.1, ?_, hlie⟩
    rw [highlights_eq hstarts, htokens]
    exact hsample.2

end Reading

end RecordQuery
