import RecordQuery.Token.Tree

/-!
# Keywords of several words

`GROUP BY`, `GROUP BY PERMUTED` and `ORDER BY` are typed as several words. Merging makes one token
of them: the first word takes the text and the rule of the keyword and reaches to the end of the
last; the others are absorbed by it and not read any more.

A sequence is walked from its end to its beginning and changed in place. At each place the keywords
are tried whose last word would stand there, longer ones first; where one ends, its words become one
token, and the walk goes on before that. The lists in parentheses are walked afterwards.
-/

namespace RecordQuery

/-- The keywords of several words, longer ones first. -/
def mergedKeywords : List (List String × Kind) :=
  [(["GROUP", "BY", "PERMUTED"], .groupByPermuted), (["GROUP", "BY"], .groupBy),
    (["ORDER", "BY"], .orderBy)]

namespace TokenTree

/-- The trees of a sequence from place `first` to place `last`. -/
def between (first last : Nat) (trees : List TokenTree) : List TokenTree :=
  (trees.take (last + 1)).drop first

/-- The keyword of several words that ends at a place of a sequence, and how many words stand before
its last. -/
def ending? (trees : List TokenTree) (place : Nat) : Option (Kind × Nat) :=
  (mergedKeywords.find? fun (words, _) =>
    words.length ≤ place + 1 &&
      (words.zip (between (place + 1 - words.length) place trees)).all fun (word, tree) =>
        tree.token.isWord word).map fun (words, kind) => (kind, words.length - 1)

/-- A word that has become a keyword and absorbed the words after it. -/
def becomeKeyword (tree : TokenTree) (kind : Kind) (words : List TokenTree) : TokenTree :=
  let stop := match words.getLast? with
    | some last => last.token.span.stop
    | none => tree.token.span.stop
  { tree with
    token := { tree.token with
      text := kind.keyword, rule := some kind, span := ⟨tree.token.span.start, stop⟩ }
    absorbed := words }

/-- A sequence in which the words from place `first` to place `last` have become a keyword. -/
def replace (trees : List TokenTree) (kind : Kind) (first last : Nat) : List TokenTree :=
  let words := between (first + 1) last trees
  ((trees.take (first + 1)).modify first fun tree => tree.becomeKeyword kind words) ++
    trees.drop (last + 1)

/-- A sequence with the keywords merged that end before a place. -/
def mergeBefore (trees : List TokenTree) : (place : Nat) → List TokenTree
  | 0 => trees
  | place + 1 =>
    match ending? trees place with
    | some (kind, more) => mergeBefore (replace trees kind (place - more) place) (place - more)
    | none => mergeBefore trees place
termination_by place => place

/-- A sequence with its keywords merged, its lists left as they are. -/
def mergeSequence (trees : List TokenTree) : List TokenTree := mergeBefore trees trees.length

/-- Replacing words changes no list. -/
theorem exists_children_of_mem_replace {trees : List TokenTree} {kind : Kind} {first last : Nat}
    {tree : TokenTree} (h : tree ∈ replace trees kind first last) :
    ∃ t ∈ trees, t.children = tree.children := by
  obtain h | h := List.mem_append.mp h
  · obtain ⟨place, hplace⟩ := List.mem_iff_getElem?.mp h
    rw [List.getElem?_modify, Option.map_eq_map, Option.map_eq_some_iff] at hplace
    obtain ⟨t, ht, rfl⟩ := hplace
    refine ⟨t, List.mem_of_mem_take (List.mem_of_getElem? ht), ?_⟩
    split <;> rfl
  · exact ⟨tree, List.mem_of_mem_drop h, rfl⟩

/-- Neither does merging. -/
theorem exists_children_of_mem_mergeBefore {trees : List TokenTree} {place : Nat}
    {tree : TokenTree} (h : tree ∈ mergeBefore trees place) :
    ∃ t ∈ trees, t.children = tree.children := by
  fun_induction mergeBefore trees place with
  | case1 trees => exact ⟨tree, h, rfl⟩
  | case2 trees place kind more _ ih =>
    obtain ⟨t, ht, hchildren⟩ := ih h
    obtain ⟨origin, horigin, hsame⟩ := exists_children_of_mem_replace ht
    exact ⟨origin, horigin, hsame.trans hchildren⟩
  | case3 trees place _ ih => exact ih h

/-- A list holds fewer tokens than the sequence that its owner stands in. -/
theorem length_tokensOf_children_lt {trees : List TokenTree} {tree : TokenTree} (h : tree ∈ trees) :
    (tokensOf tree.children).length < (tokensOf trees).length := by
  induction trees with
  | nil => cases h
  | cons first rest ih =>
    rw [tokensOf, List.length_append]
    obtain rfl | h := List.mem_cons.mp h
    · cases tree
      simp only [tokens, List.length_cons, List.length_append]
      omega
    · have := ih h
      omega

/-- A sequence with its keywords merged, and those in its lists. -/
def mergeAll (trees : List TokenTree) : List TokenTree :=
  (mergeSequence trees).attach.map fun ⟨tree, _⟩ => { tree with children := mergeAll tree.children }
termination_by (tokensOf trees).length
decreasing_by
  rename_i h
  obtain ⟨t, ht, hchildren⟩ := exists_children_of_mem_mergeBefore h
  exact hchildren ▸ length_tokensOf_children_lt ht

/-- A tree with the keywords in its list merged. -/
def merge (tree : TokenTree) : TokenTree := { tree with children := mergeAll tree.children }

/-- Merging a sequence and its lists. -/
theorem mergeAll_eq (trees : List TokenTree) :
    mergeAll trees = (mergeSequence trees).map merge := by
  rw [mergeAll]
  exact List.attach_map_val (f := merge)

mutual

/-- The tokens that keywords in a tree have absorbed, each with the token that absorbed it. -/
def absorptions : TokenTree → List (Nat × Nat)
  | ⟨token, children, absorbed⟩ =>
    absorbed.map (fun word => (word.token.id, token.id)) ++ absorptionsOf children

/-- The tokens that keywords in some trees have absorbed, each with the token that absorbed it. -/
def absorptionsOf : List TokenTree → List (Nat × Nat)
  | [] => []
  | tree :: rest => absorptions tree ++ absorptionsOf rest

end

end TokenTree

/-- A forest with its keywords merged. The characters of absorbed words go to the keyword. -/
def TokenForest.merge (forest : TokenForest) : TokenForest :=
  let trees := TokenTree.mergeAll forest.trees
  let absorbed := TokenTree.absorptionsOf trees
  { forest with
    trees
    slots := forest.slots.map (Slot.mapOwner fun id => (List.lookup id absorbed).getD id) }

end RecordQuery
