import Mathlib.Algebra.Order.Group.Multiset
import Mathlib.Data.List.Perm.Basic
import RecordQuery.Proofs.LongestMatch
import RecordQuery.Proofs.NothingIgnored

/-!
# What merging loses

A keyword of several words absorbs the words behind its first, which are not read any more. Were
these words plain, nothing else would be lost. But a plain word that touches a parenthesis owns the
list in it, as `BY` does in `GROUP BY(x)`, and with such a word its list is lost: `x` is never
looked at. All other tokens are read, each of them once and in the order of the source.
-/

namespace RecordQuery

open scoped List

namespace TokenTree

/-! ## What is read and what is not -/

/-- Two lists in two parts can be put together part by part. -/
lemma append_append_perm {α : Type} (a b c d : List α) :
    (a ++ b) ++ (c ++ d) ~ (a ++ c) ++ (b ++ d) := by
  rw [← Multiset.coe_eq_coe]
  simp only [← Multiset.coe_add]
  exact add_add_add_comm _ _ _ _

mutual

/-- A token of a tree is read, or it stands in what a keyword has absorbed. -/
lemma tokens_perm : (tree : TokenTree) →
    tree.tokens ~ tree.reachable ++ tree.subtrees.flatMap fun t => tokensOf t.absorbed
  | ⟨token, children, absorbed⟩ => by
    rw [tokens, reachable, subtrees, List.flatMap_cons, List.cons_append]
    refine List.Perm.cons token ((tokensOf_perm children).append_right _ |>.trans ?_)
    rw [List.append_assoc]
    exact List.perm_append_comm.append_left _

/-- The tokens of a sequence are those that can be reached and those that were absorbed. -/
lemma tokensOf_perm : (trees : List TokenTree) →
    tokensOf trees ~ reachableOf trees ++ (subtreesOf trees).flatMap fun t => tokensOf t.absorbed
  | [] => by simp [tokensOf, reachableOf, subtreesOf]
  | tree :: rest => by
    rw [tokensOf, reachableOf, subtreesOf, List.flatMap_append]
    exact ((tokens_perm tree).append (tokensOf_perm rest)).trans (append_append_perm _ _ _ _)

end

/-- The tokens of trees that have absorbed nothing are their first ones and those in their lists. -/
lemma tokensOf_perm_of_absorbed {trees : List TokenTree} (h : ∀ tree ∈ trees, tree.absorbed = []) :
    tokensOf trees ~
      trees.map TokenTree.token ++ trees.flatMap fun tree => tokensOf tree.children := by
  induction trees with
  | nil => simp [tokensOf]
  | cons tree rest ih =>
    obtain ⟨htree, hrest⟩ := List.forall_mem_cons.mp h
    obtain ⟨token, children, absorbed⟩ := tree
    obtain rfl : absorbed = [] := htree
    rw [tokensOf, tokens, List.map_cons, List.flatMap_cons, tokensOf, List.append_nil]
    exact (ih hrest).append_left (token :: tokensOf children) |>.trans
      (append_append_perm [token] (tokensOf children) _ _)

/-- A sequence that spells some words begins with them. -/
lemma forall₂_of_spells {words : List String} {trees : List TokenTree}
    (h : spells words trees = true) :
    List.Forall₂ (fun word tree => tree.token.isWord word = true) words
      (trees.take words.length) := by
  induction words generalizing trees with
  | nil => simp
  | cons word words ih =>
    cases trees with
    | nil => cases h
    | cons tree rest =>
      rw [spells, Bool.and_eq_true] at h
      exact .cons h.1 (ih h.2)

/-- What a merged tree has absorbed: nothing, unless it is a keyword of several words, and the words
behind the first then. -/
lemma MadeOf.absorbed {tree merged : TokenTree} {rest : List TokenTree}
    (h : MadeOf tree rest merged) (hnone : tree.absorbed = []) (hne : merged.absorbed ≠ []) :
    merged.absorbed ⊆ rest ∧ ∃ first more kind, (first :: more, kind) ∈ mergedKeywords ∧
      merged.token.text = kind.keyword ∧ merged.token.rule = some kind ∧
      List.Forall₂ (fun word tree => tree.token.isWord word = true) more merged.absorbed := by
  obtain ⟨token, children, absorbed⟩ := tree
  obtain rfl : absorbed = [] := hnone
  cases h with
  | merge => exact absurd rfl hne
  | @keyword names kind entry spelled =>
    cases names with
    | nil => simp [mergedKeywords] at entry
    | cons first more =>
      rw [spells, Bool.and_eq_true] at spelled
      exact ⟨List.take_subset _ _, first, more, kind, entry, rfl, rfl, forall₂_of_spells spelled.2⟩

end TokenTree

namespace TokenForest

open TokenTree

/-- The words that keywords have absorbed. -/
def absorbedWords (forest : TokenForest) : List Token :=
  forest.subtrees.flatMap fun tree => tree.absorbed.map TokenTree.token

/-- The tokens in the lists of words that keywords have absorbed. -/
def swallowed (forest : TokenForest) : List Token :=
  forest.subtrees.flatMap fun tree => tree.absorbed.flatMap fun word => tokensOf word.children

/-- What becomes of the tokens of a forest whose keywords have absorbed words. -/
structure IsKept (forest : TokenForest) : Prop where
  /-- The number of a token is its place. -/
  ids : forest.tokens.map Token.id = List.range forest.tokens.length
  /-- Every token is read, is a word that was absorbed, or stands in the list of one; and it is so
  once. -/
  parts : forest.tokens ~ reachableOf forest.trees ++ (forest.absorbedWords ++ forest.swallowed)
  /-- Tokens are read in the order of the source. -/
  order : (reachableOf forest.trees).Pairwise fun a b => a.id < b.id ∧ a.span.start < b.span.start
  /-- What absorbs words is a keyword of several words, and it absorbs those behind its first. -/
  keyword : ∀ tree ∈ forest.subtrees, tree.absorbed ≠ [] →
    ∃ first more kind, (first :: more, kind) ∈ mergedKeywords ∧
      tree.token.text = kind.keyword ∧ tree.token.rule = some kind ∧
      List.Forall₂ (fun word tree => tree.token.isWord word = true) more tree.absorbed
  /-- No token but these words is lost just where they own no tokens. -/
  lost : (∀ token ∈ forest.tokens,
      token ∉ reachableOf forest.trees → token ∈ forest.absorbedWords) ↔
    ∀ tree ∈ forest.subtrees, ∀ word ∈ tree.absorbed, word.children = []

variable {text : String} {ceilings : Ceilings} {forest : TokenForest}

/-- Before keywords are merged, nothing is absorbed. -/
lemma absorbed_of_ofText (h : ofText text ceilings = .ok forest) :
    ∀ tree ∈ forest.subtrees, tree.absorbed = [] := by
  obtain ⟨next, htiles⟩ := exists_tiles h
  exact fun tree htree => (htiles.isLaid tree htree).absorbed

/-- What has absorbed words is a keyword, and the words are as they were. -/
lemma absorbed_merge (h : ofText text ceilings = .ok forest) :
    ∀ tree ∈ forest.merge.subtrees, tree.absorbed ≠ [] → tree.absorbed ⊆ forest.subtrees ∧
      ∃ first more kind, (first :: more, kind) ∈ mergedKeywords ∧
        tree.token.text = kind.keyword ∧ tree.token.rule = some kind ∧
        List.Forall₂ (fun word tree => tree.token.isWord word = true) more tree.absorbed := by
  intro tree htree hne
  obtain ⟨first, rest, hsubset, hmade⟩ := made forest.trees tree htree
  obtain ⟨hfirst, hrest⟩ := List.cons_subset.mp hsubset
  obtain ⟨habsorbed, hkeyword⟩ := hmade.absorbed (absorbed_of_ofText h first hfirst) hne
  exact ⟨List.Subset.trans habsorbed hrest, hkeyword⟩

/-- The tokens of a merged forest follow each other in the source. -/
lemma pairwise_tokens_merge (h : ofText text ceilings = .ok forest) :
    forest.merge.tokens.Pairwise fun a b => a.id < b.id ∧ a.span.start < b.span.start := by
  obtain ⟨-, htiled⟩ := isTiled_of_ofText h
  have hids : forest.tokens.Pairwise fun a b => a.id < b.id := by
    have hrange := List.pairwise_lt_range (n := forest.tokens.length)
    rw [← htiled.ids] at hrange
    exact List.pairwise_map.mp hrange
  have hplaces : (forest.tokens.map Token.place).Pairwise fun a b => a.1 < b.1 ∧ a.2 < b.2 :=
    List.pairwise_map.mpr (hids.imp₂ (fun _ _ hid hspan => ⟨hid, hspan.1⟩) htiled.disjoint)
  rw [← places_merge h] at hplaces
  exact List.pairwise_map.mp hplaces

/-- After merging the tokens are numbered in order. -/
lemma ids_tokens_merge (h : ofText text ceilings = .ok forest) :
    forest.merge.tokens.map Token.id = List.range forest.merge.tokens.length := by
  have hlength := congrArg List.length (ids_merge h)
  rw [List.length_map, List.length_map] at hlength
  rw [ids_merge h, hlength]
  exact (isTiled_of_ofText h).2.ids

/-- After merging each token can be reached, or is an absorbed word, or was in the list of one. -/
lemma parts_merge (h : ofText text ceilings = .ok forest) :
    forest.merge.tokens ~ reachableOf forest.merge.trees ++
      (forest.merge.absorbedWords ++ forest.merge.swallowed) := by
  have hwords : ∀ tree ∈ forest.merge.subtrees, tokensOf tree.absorbed ~
      tree.absorbed.map TokenTree.token ++
        tree.absorbed.flatMap fun word => tokensOf word.children := by
    intro tree htree
    refine tokensOf_perm_of_absorbed fun word hword => ?_
    have hsubset := (absorbed_merge h tree htree (List.ne_nil_of_mem hword)).1
    exact absorbed_of_ofText h word (hsubset hword)
  calc forest.merge.tokens
      ~ reachableOf forest.merge.trees ++
          forest.merge.subtrees.flatMap fun tree => tokensOf tree.absorbed := tokensOf_perm _
    _ ~ reachableOf forest.merge.trees ++ forest.merge.subtrees.flatMap fun tree =>
          tree.absorbed.map TokenTree.token ++
            tree.absorbed.flatMap fun word => tokensOf word.children :=
      (List.Perm.flatMap_left _ hwords).append_left _
    _ ~ reachableOf forest.merge.trees ++ (forest.merge.absorbedWords ++ forest.merge.swallowed) :=
      (List.flatMap_append_perm _ _ _).symm.append_left _

/-- Tokens that are lost but are no absorbed words stand in the list of one. -/
lemma lost_iff_of_parts {forest : TokenForest} (hnodup : forest.tokens.Nodup)
    (hparts : forest.tokens ~
      reachableOf forest.trees ++ (forest.absorbedWords ++ forest.swallowed)) :
    (∀ token ∈ forest.tokens, token ∉ reachableOf forest.trees → token ∈ forest.absorbedWords) ↔
      ∀ tree ∈ forest.subtrees, ∀ word ∈ tree.absorbed, word.children = [] := by
  constructor
  · intro hlost tree htree word hword
    by_contra hne
    obtain ⟨child, hchild⟩ := List.exists_mem_of_ne_nil _ hne
    have hswallowed : child.token ∈ forest.swallowed :=
      List.mem_flatMap.mpr ⟨tree, htree, List.mem_flatMap.mpr ⟨word, hword, mem_tokensOf hchild⟩⟩
    have hmem : child.token ∈ forest.tokens := hparts.mem_iff.mpr (by simp [hswallowed])
    obtain ⟨-, hbehind, hread⟩ := List.nodup_append.mp (hparts.nodup_iff.mp hnodup)
    obtain ⟨-, -, happart⟩ := List.nodup_append.mp hbehind
    have hword := hlost _ hmem fun hreached => hread _ hreached _ (by simp [hswallowed]) rfl
    exact happart _ hword _ hswallowed rfl
  · intro hempty token htoken hnot
    have hswallowed : forest.swallowed = [] := by
      refine List.flatMap_eq_nil_iff.mpr fun tree htree =>
        List.flatMap_eq_nil_iff.mpr fun word hword => ?_
      rw [hempty tree htree word hword, tokensOf]
    have hmem := hparts.mem_iff.mp htoken
    rw [hswallowed, List.append_nil, List.mem_append] at hmem
    exact hmem.resolve_left hnot

/-- Merging the keywords of a text keeps its tokens, and loses from sight no others than the words
that are absorbed and what stands in their lists. -/
theorem isKept_merge (h : ofText text ceilings = .ok forest) :
    forest.merge.tokens.map Token.place = forest.tokens.map Token.place ∧ forest.merge.IsKept where
  left := places_merge h
  right := {
    ids := ids_tokens_merge h
    parts := parts_merge h
    order := (pairwise_tokens_merge h).sublist (reachableOf_sublist _)
    keyword := fun tree htree hne => (absorbed_merge h tree htree hne).2
    lost := lost_iff_of_parts (nodup_ids_merge h).of_map (parts_merge h) }

/-- `BY` is absorbed here with the `x` in its list, which is not read. -/
theorem isKept_merge_sample : ∃ forest, ofText "SELECT a GROUP BY(x) a" {} = .ok forest ∧
    (forest.merge.tokens.map Token.place = forest.tokens.map Token.place ∧ forest.merge.IsKept) ∧
      forest.merge.absorbedWords.map Token.text = ["BY"] ∧
      forest.merge.swallowed.map Token.text = ["x"] := by
  have hsample : (ofText "SELECT a GROUP BY(x) a" {}).toOption.any (fun forest =>
      forest.merge.absorbedWords.map Token.text = ["BY"] ∧
        forest.merge.swallowed.map Token.text = ["x"]) = true := by
    decide +kernel
  obtain ⟨forest, hread, hlost⟩ := exists_ofText_of_any hsample
  exact ⟨forest, hread, isKept_merge hread, of_decide_eq_true hlost⟩

end TokenForest

end RecordQuery
