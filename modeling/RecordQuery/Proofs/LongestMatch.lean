import RecordQuery.Proofs.Nesting
import RecordQuery.Proofs.Ownership

/-!
# Merging takes the longest keywords from the left

Keywords overlap: `GROUP BY` begins `GROUP BY PERMUTED`, and a text may repeat their words at will.
`LongestMatch` says what is to come of a sequence without saying how it is found: read from the
left, every keyword that the sequence spells is taken, the longest one where there are several. This
is what merging comes to, for the top sequence and for every list.

No keyword is left then, as a keyword of several words is spelled as no word of any of them. So
merging a second time changes nothing, neither the trees nor the owners of characters.
-/

namespace RecordQuery

namespace TokenTree

/-! ## Keywords of several words -/

/-- A keyword of several words is none of the words that such keywords are spelled with. -/
lemma isWord_becomeKeyword {names : List String} {kind : Kind} (h : (names, kind) ∈ mergedKeywords)
    (tree : TokenTree) (words : List TokenTree) {entry : List String × Kind}
    (hentry : entry ∈ mergedKeywords) {word : String} (hword : word ∈ entry.1) :
    (tree.becomeKeyword kind words).token.isWord word = false := by
  have hall : ∀ keyword ∈ mergedKeywords, ∀ entry ∈ mergedKeywords, ∀ word ∈ entry.1,
      (upperCase keyword.2.keyword == word) = false := by
    decide +kernel
  have hne := hall _ h _ hentry _ hword
  dsimp only at hne
  rw [Token.isWord, becomeKeyword, hne, Bool.and_false]

/-- No keyword of several words begins with another. -/
lemma spells_becomeKeyword {names : List String} {kind : Kind} (h : (names, kind) ∈ mergedKeywords)
    (tree : TokenTree) (words rest : List TokenTree) {entry : List String × Kind}
    (hentry : entry ∈ mergedKeywords) :
    spells entry.1 (tree.becomeKeyword kind words :: rest) = false := by
  have hempty : ∀ entry ∈ mergedKeywords, entry.1 ≠ [] := by decide
  cases hnames : entry.1 with
  | nil => exact absurd hnames (hempty entry hentry)
  | cons name more =>
    have hname : name ∈ entry.1 := by simp [hnames]
    rw [spells, isWord_becomeKeyword h tree words hentry hname, Bool.false_and]

/-! ## Longest matches -/

/-- `LongestMatch trees merged`: read from the left, every keyword of several words that `trees`
spell has become one tree in `merged`, the longest one where there are several. -/
inductive LongestMatch : List TokenTree → List TokenTree → Prop
  | nil : LongestMatch [] []
  | keyword {tree : TokenTree} {rest merged : List TokenTree} {names : List String} {kind : Kind}
      (entry : (names, kind) ∈ mergedKeywords) (spelled : spells names (tree :: rest) = true)
      (longest : ∀ other ∈ mergedKeywords, spells other.1 (tree :: rest) = true →
        other.1.length ≤ names.length)
      (behind : LongestMatch (rest.drop (names.length - 1)) merged) :
      LongestMatch (tree :: rest)
        (tree.merge.becomeKeyword kind (rest.take (names.length - 1)) :: merged)
  | other {tree : TokenTree} {rest merged : List TokenTree}
      (unspelled : ∀ entry ∈ mergedKeywords, spells entry.1 (tree :: rest) = false)
      (behind : LongestMatch rest merged) : LongestMatch (tree :: rest) (tree.merge :: merged)

/-- Merging takes the longest keywords from the left. -/
lemma longestMatch_mergeAll (trees : List TokenTree) : LongestMatch trees (mergeAll trees) := by
  induction hlength : trees.length using Nat.strong_induction_on generalizing trees with
  | _ length ih =>
    subst hlength
    cases trees with
    | nil =>
      rw [mergeAll_nil]
      exact .nil
    | cons tree rest =>
      rw [mergeAll_cons]
      cases hspelled : spelled? (tree :: rest) with
      | none => exact .other (spelled?_eq_none_iff.mp hspelled) (ih rest.length (by simp) rest rfl)
      | some found =>
        obtain ⟨kind, more⟩ := found
        have hdrop := drop_mergeAll_of_spelled? hspelled
        obtain ⟨names, hentry, hspells, hlongest, rfl⟩ := entry_of_spelled? hspelled
        dsimp only
        rw [hdrop]
        refine .keyword hentry hspells hlongest (ih _ ?_ _ rfl)
        rw [List.length_drop, List.length_cons]
        omega

/-! ## What merged trees are made of -/

/-- `MadeOf tree rest merged`: merging makes `merged` of a tree that the trees `rest` stand behind,
by itself or with the words of a keyword. -/
inductive MadeOf (tree : TokenTree) (rest : List TokenTree) : TokenTree → Prop
  | merge : MadeOf tree rest tree.merge
  | keyword {names : List String} {kind : Kind} (entry : (names, kind) ∈ mergedKeywords)
      (spelled : spells names (tree :: rest) = true) :
      MadeOf tree rest (tree.merge.becomeKeyword kind (rest.take (names.length - 1)))

namespace MadeOf

variable {tree merged : TokenTree} {rest : List TokenTree}

/-- A tree that was merged has its own list merged. -/
lemma children (h : MadeOf tree rest merged) : merged.children = mergeAll tree.children := by
  obtain ⟨token, children, absorbed⟩ := tree
  cases h <;> rfl

/-- A tree that was merged keeps its number. -/
lemma id (h : MadeOf tree rest merged) : merged.token.id = tree.token.id := by
  obtain ⟨token, children, absorbed⟩ := tree
  cases h <;> rfl

end MadeOf

/-- Whatever comes of merging is made of a tree of the sequence and those behind it. -/
lemma LongestMatch.exists_madeOf {trees merged : List TokenTree} (h : LongestMatch trees merged) :
    ∀ x ∈ merged, ∃ tree rest, tree :: rest <:+ trees ∧ MadeOf tree rest x := by
  induction h with
  | nil => simp
  | @keyword tree rest _ _ _ entry spelled _ _ ih =>
    refine List.forall_mem_cons.mpr ⟨⟨tree, rest, List.suffix_refl _, .keyword entry spelled⟩, ?_⟩
    intro x hx
    obtain ⟨t, more, hsuffix, hmade⟩ := ih x hx
    exact ⟨t, more, (hsuffix.trans (List.drop_suffix _ _)).trans (List.suffix_cons _ _), hmade⟩
  | @other tree rest _ _ _ ih =>
    refine List.forall_mem_cons.mpr ⟨⟨tree, rest, List.suffix_refl _, .merge⟩, fun x hx => ?_⟩
    obtain ⟨t, more, hsuffix, hmade⟩ := ih x hx
    exact ⟨t, more, hsuffix.trans (List.suffix_cons _ _), hmade⟩

/-- A subtree of a sequence is a tree of it or in the list of one. -/
lemma mem_subtreesOf {x : TokenTree} {trees : List TokenTree} :
    x ∈ subtreesOf trees ↔ ∃ tree ∈ trees, x = tree ∨ x ∈ subtreesOf tree.children := by
  induction trees with
  | nil => simp [subtreesOf]
  | cons tree rest ih => simp [subtreesOf, subtrees_eq, ih, or_assoc]

/-- The trees of a sequence are subtrees of it. -/
lemma subset_subtreesOf (trees : List TokenTree) : trees ⊆ subtreesOf trees :=
  fun tree htree => mem_subtreesOf.mpr ⟨tree, htree, .inl rfl⟩

/-- What is in the list of a tree is in the sequence. -/
lemma subtreesOf_children_subset {tree : TokenTree} {trees : List TokenTree} (h : tree ∈ trees) :
    subtreesOf tree.children ⊆ subtreesOf trees :=
  fun _ hx => mem_subtreesOf.mpr ⟨tree, h, .inr hx⟩

/-- Whether every tree in some merged trees is made of trees of theirs. -/
def Made (trees : List TokenTree) : Prop :=
  ∀ x ∈ subtreesOf (mergeAll trees),
    ∃ tree rest, tree :: rest ⊆ subtreesOf trees ∧ MadeOf tree rest x

/-- It is enough that the trees in all lists are made of trees of theirs. -/
lemma made_of_children {trees : List TokenTree} (h : ∀ tree ∈ trees, Made tree.children) :
    Made trees := by
  intro x hx
  obtain ⟨merged, hmerged, hx⟩ := mem_subtreesOf.mp hx
  obtain ⟨tree, rest, hsuffix, hmade⟩ := (longestMatch_mergeAll trees).exists_madeOf merged hmerged
  have htree : tree ∈ trees := hsuffix.subset List.mem_cons_self
  obtain rfl | hx := hx
  · exact ⟨tree, rest, List.Subset.trans hsuffix.subset (subset_subtreesOf trees), hmade⟩
  · rw [hmade.children] at hx
    obtain ⟨t, more, hmore, hmade⟩ := h tree htree x hx
    exact ⟨t, more, List.Subset.trans hmore (subtreesOf_children_subset htree), hmade⟩

mutual

/-- All that is in the list of a tree comes of the longest matches there. -/
lemma made_children : (tree : TokenTree) → Made tree.children
  | ⟨_, children, _⟩ => made_of_children (made_children_of_mem children)

/-- All that is in the lists of a sequence comes of the longest matches there. -/
lemma made_children_of_mem : (trees : List TokenTree) → ∀ tree ∈ trees, Made tree.children
  | [] => by simp
  | tree :: rest => List.forall_mem_cons.mpr ⟨made_children tree, made_children_of_mem rest⟩

end

/-- Every tree in merged trees is made of one in the trees. -/
lemma made (trees : List TokenTree) : Made trees := made_of_children (made_children_of_mem trees)

/-! ## Merging again -/

/-- What goes on a keyword in merged trees goes on one in the trees themselves. -/
lemma spells_of_spells_mergeAll {names : List String} {entry : List String × Kind}
    (hentry : entry ∈ mergedKeywords) (hnames : ∀ name ∈ names, name ∈ entry.1)
    {trees : List TokenTree} (h : spells names (mergeAll trees) = true) :
    spells names trees = true := by
  induction names generalizing trees with
  | nil => rw [spells]
  | cons name names ih =>
    obtain ⟨hname, hmore⟩ := List.forall_mem_cons.mp hnames
    cases trees with
    | nil =>
      rw [mergeAll_nil] at h
      cases h
    | cons tree rest =>
      rw [mergeAll_cons] at h
      split at h
      · rename_i kind more hspelled
        obtain ⟨names', hkeyword, -⟩ := entry_of_spelled? hspelled
        rw [spells, isWord_becomeKeyword hkeyword _ _ hentry hname] at h
        cases h
      · rw [spells, Bool.and_eq_true, token_merge] at h
        rw [spells, h.1, ih hmore h.2, Bool.and_true]

/-- No keyword of several words is left in merged trees. -/
lemma spells_eq_false_of_isSuffix (trees : List TokenTree) {suffix : List TokenTree}
    (h : suffix <:+ mergeAll trees) {entry : List String × Kind} (hentry : entry ∈ mergedKeywords) :
    spells entry.1 suffix = false := by
  induction trees with
  | nil =>
    have hempty : ∀ entry ∈ mergedKeywords, spells entry.1 [] = false := by decide
    rw [mergeAll_nil] at h
    rw [List.suffix_nil.mp h, hempty entry hentry]
  | cons tree rest ih =>
    rw [mergeAll_cons] at h
    split at h
    · rename_i kind more hspelled
      obtain ⟨names, hkeyword, -⟩ := entry_of_spelled? hspelled
      obtain rfl | h := List.suffix_cons_iff.mp h
      · exact spells_becomeKeyword hkeyword _ _ _ hentry
      · exact ih (h.trans (List.drop_suffix _ _))
    · rename_i hnone
      obtain rfl | h := List.suffix_cons_iff.mp h
      · -- what the merged sequence spells the sequence spelled before
        have hbefore := spelled?_eq_none_iff.mp hnone entry hentry
        by_contra hspells
        have hmerged : spells entry.1 (mergeAll (tree :: rest)) = true := by
          rw [mergeAll_cons, hnone]
          simpa using hspells
        rw [spells_of_spells_mergeAll hentry (fun _ hname => hname) hmerged] at hbefore
        cases hbefore
      · exact ih h

/-- A sequence in which no keyword is left stays as it is. -/
lemma mergeAll_eq_self {trees : List TokenTree}
    (hspells : ∀ suffix, suffix <:+ trees → ∀ entry ∈ mergedKeywords, spells entry.1 suffix = false)
    (hlists : ∀ tree ∈ trees, tree.merge = tree) : mergeAll trees = trees := by
  induction trees with
  | nil => rw [mergeAll_nil]
  | cons tree rest ih =>
    obtain ⟨htree, hrest⟩ := List.forall_mem_cons.mp hlists
    have hnone := spelled?_eq_none_iff.mpr (hspells _ (List.suffix_refl _))
    rw [mergeAll_cons, hnone, htree,
      ih (fun suffix h => hspells suffix (h.trans (List.suffix_cons _ _))) hrest]

/-- A tree is not changed by merging if its list is not. -/
lemma merge_eq_iff {tree : TokenTree} :
    tree.merge = tree ↔ mergeAll tree.children = tree.children := by
  obtain ⟨token, children, absorbed⟩ := tree
  simp [merge]

mutual

/-- Merging a second time changes nothing. -/
lemma mergeAll_merge : (tree : TokenTree) →
    mergeAll (mergeAll tree.children) = mergeAll tree.children
  | ⟨_, children, _⟩ => by
    refine mergeAll_eq_self (fun suffix h entry => spells_eq_false_of_isSuffix children h)
      fun x hx => ?_
    obtain ⟨tree, rest, hsuffix, hmade⟩ := (longestMatch_mergeAll children).exists_madeOf x hx
    rw [merge_eq_iff, hmade.children]
    exact mergeAll_merge_of_mem children tree (hsuffix.subset List.mem_cons_self)

/-- The lists of a sequence are not changed by merging again. -/
lemma mergeAll_merge_of_mem : (trees : List TokenTree) → ∀ tree ∈ trees,
    mergeAll (mergeAll tree.children) = mergeAll tree.children
  | [] => by simp
  | tree :: rest => List.forall_mem_cons.mpr ⟨mergeAll_merge tree, mergeAll_merge_of_mem rest⟩

end

/-- Merging again changes nothing. -/
lemma mergeAll_mergeAll (trees : List TokenTree) : mergeAll (mergeAll trees) = mergeAll trees :=
  mergeAll_merge ⟨default, trees, []⟩

end TokenTree

namespace TokenForest

variable {text : String} {ceilings : Ceilings} {forest : TokenForest}

/-- Merging the keywords of a forest a second time changes nothing. -/
lemma merge_merge (h : ofText text ceilings = .ok forest) : forest.merge.merge = forest.merge := by
  have htrees := TokenTree.mergeAll_mergeAll forest.trees
  have howner : ∀ id, TokenTree.newOwner (TokenTree.mergeAll forest.trees)
      (TokenTree.newOwner (TokenTree.mergeAll forest.trees) id) =
        TokenTree.newOwner (TokenTree.mergeAll forest.trees) id :=
    TokenTree.newOwner_newOwner (nodup_ids_merge h)
  simp only [merge, htrees, List.map_map, mk.injEq, true_and, and_true]
  refine List.map_congr_left fun slot _ => ?_
  cases slot with
  | space => rfl
  | token id => exact congrArg Slot.token (howner id)
  | opening id => exact congrArg Slot.opening (howner id)
  | closing id => exact congrArg Slot.closing (howner id)

end TokenForest

end RecordQuery
