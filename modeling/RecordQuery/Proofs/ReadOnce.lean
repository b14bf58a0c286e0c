import Mathlib.Data.List.Nodup
import RecordQuery.Proofs.KeywordWalk
import RecordQuery.Proofs.Reaching
import RecordQuery.Proofs.Tiling

/-!
# No token is read twice

A text asks for a token no more often than it has it. As no two tokens of a text have one number, no
number is noted twice while the text is read: what a token was read as is settled by the first note
of it, whether the reading succeeds or fails.
-/

namespace RecordQuery

open Reader

/-! ## Numbers of tokens -/

namespace TokenTree

/-- A keyword has the numbers of its first word and of the words that it absorbs. -/
lemma ids_becomeKeyword (tree : TokenTree) (kind : Kind) (words : List TokenTree) :
    ((tree.becomeKeyword kind words).tokens.map Token.id).Sublist
      (tree.tokens.map Token.id ++ (tokensOf words).map Token.id) := by
  obtain ⟨token, children, absorbed⟩ := tree
  rw [becomeKeyword, tokens, tokens, List.map_cons, List.map_cons, List.map_append, List.map_append,
    List.cons_append, List.append_assoc]
  exact ((List.Sublist.refl _).append (List.sublist_append_right _ _)).cons_cons token.id

mutual

/-- Merging the keywords of a tree gives its tokens no other numbers. -/
lemma ids_merge : (tree : TokenTree) →
    (tree.merge.tokens.map Token.id).Sublist (tree.tokens.map Token.id)
  | ⟨token, children, absorbed⟩ => by
    rw [merge_mk, tokens, tokens, List.map_cons, List.map_cons, List.map_append, List.map_append]
    exact ((ids_mergeAll children 0).append (List.Sublist.refl _)).cons_cons token.id

/-- Merging the keywords of a sequence gives its tokens no other numbers, and those at its end keep
theirs. -/
lemma ids_mergeAll : (trees : List TokenTree) → (dropped : Nat) →
    ((tokensOf ((mergeAll trees).drop dropped)).map Token.id).Sublist
      ((tokensOf (trees.drop dropped)).map Token.id)
  | [], dropped => by
    rw [mergeAll_nil]
  | tree :: rest, 0 => by
    have htree := ids_merge tree
    rw [mergeAll_cons, List.drop_zero, List.drop_zero, tokensOf, List.map_append]
    split
    · rename_i kind more _
      have hwords := ids_mergeAll rest more
      have hfirst := (ids_becomeKeyword tree.merge kind (rest.take more)).trans
        (htree.append (List.Sublist.refl _))
      have hrest : (tokensOf rest).map Token.id = (tokensOf (rest.take more)).map Token.id ++
          (tokensOf (rest.drop more)).map Token.id := by
        rw [← List.map_append, ← tokensOf_append, List.take_append_drop]
      rw [tokensOf, List.map_append, hrest, ← List.append_assoc]
      exact hfirst.append hwords
    · rw [tokensOf, List.map_append]
      exact htree.append (ids_mergeAll rest 0)
  | tree :: rest, dropped + 1 => by
    rw [mergeAll_cons, List.drop_succ_cons]
    split
    · rename_i kind more _
      rw [List.drop_succ_cons, List.drop_drop]
      refine (ids_mergeAll rest (more + dropped)).trans ?_
      have hdrop : (tokensOf (rest.drop dropped)).map Token.id =
          (tokensOf ((rest.drop dropped).take more)).map Token.id ++
            (tokensOf (rest.drop (more + dropped))).map Token.id := by
        rw [← List.map_append, ← tokensOf_append, Nat.add_comm, ← List.drop_drop,
          List.take_append_drop]
      rw [hdrop]
      exact List.sublist_append_right _ _
    · exact ids_mergeAll rest dropped

end

end TokenTree

/-- No two tokens have one number, before and after keywords are merged. -/
lemma TokenForest.nodup_ids_merge {text : String} {ceilings : Ceilings} {forest : TokenForest}
    (h : ofText text ceilings = .ok forest) :
    (forest.merge.tokens.map Token.id).Nodup := by
  obtain ⟨next, htiles⟩ := exists_tiles h
  have hsublist := TokenTree.ids_mergeAll forest.trees 0
  rw [List.drop_zero, List.drop_zero, htiles.ids] at hsublist
  exact (List.Ico.nodup 0 next).sublist hsublist

/-- A reading starts with the merged trees of its text. -/
lemma Reading.exists_forest {text : String} {registry : Registry} {ceilings : Ceilings}
    {r : Reading} (h : start text registry ceilings = .ok r) :
    ∃ forest, TokenForest.ofText text ceilings = .ok forest ∧
      r = ⟨⟨forest.source, registry, ceilings⟩,
        forest.merge, { draft := { problems := forest.problems } }⟩ := by
  unfold start at h
  cases hforest : TokenForest.ofText text ceilings with
  | error e =>
    rw [hforest] at h
    cases h
  | ok forest =>
    rw [hforest] at h
    cases h
    exact ⟨forest, rfl, rfl⟩

/-! ## Readings -/

namespace Mode

/-- What reading a text leaves noted. -/
def notes (mode : Mode) (r : Reading) : Notes := (r.resume (mode.body r.setting r.elements)).2.notes

/-- No token of a text is noted twice as read. -/
theorem nodup_notes (mode : Mode) {text : String} {registry : Registry} {ceilings : Ceilings}
    {r : Reading} (h : Reading.start text registry ceilings = .ok r) :
    ((mode.notes r).roles.map Prod.fst).Nodup := by
  obtain ⟨forest, hforest, rfl⟩ := Reading.exists_forest h
  have hnodup := TokenForest.nodup_ids_merge hforest
  rw [List.nodup_iff_count_le_one]
  intro id
  let r : Reading := ⟨⟨forest.source, registry, ceilings⟩, forest.merge,
    { draft := { problems := forest.problems } }⟩
  calc (mode.notes r).timesRead id
      ≤ TokenTree.askedOf (TokenTree.countId id) r.forest.trees + r.notes.timesRead id :=
        mode.timesRead_body_le rfl id
    _ = TokenTree.askedOf (TokenTree.countId id) r.forest.trees := Nat.add_zero _
    _ ≤ (r.forest.tokens.map Token.id).count id := TokenTree.askedOf_countId_le _
    _ ≤ 1 := List.nodup_iff_count_le_one.mp hnodup id

end Mode

end RecordQuery
