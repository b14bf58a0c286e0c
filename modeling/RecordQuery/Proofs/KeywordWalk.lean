import Mathlib.Data.List.Find
import Mathlib.Data.List.Infix
import RecordQuery.Token.Merge

/-!
# Walking from the end and reading from the beginning

Keywords of several words are merged by a walk from the end of a sequence to its beginning, which
changes the sequence under its feet and asks at each place which keyword ends there. Here the walk
is shown to come to what a reader makes of the sequence who begins at its beginning, takes the
longest keyword spelled there, and goes on behind it: this is `joined`.

Two facts about the keywords carry the proof. No keyword goes on with a word that one begins with,
so what is joined before the first word of a keyword does not depend on that keyword. And of the
keywords that a keyword begins with, it comes first in the table.

`mergeAll` is then given by two equations on the first tree of a sequence, from which all that
follows is derived.
-/

namespace RecordQuery

/-- A token that is one word is no other. -/
lemma Token.isWord_eq_false {token : Token} {word other : String} (h : token.isWord word = true)
    (hne : word ≠ other) : token.isWord other = false := by
  rw [Token.isWord, Bool.and_eq_true, beq_iff_eq, beq_iff_eq] at h
  rw [Token.isWord, h.2, beq_eq_false_iff_ne.mpr hne, Bool.and_false]

namespace TokenTree

/-! ## The words that a sequence starts with -/

/-- Whether a sequence starts with the given bare words. -/
def spells : List String → List TokenTree → Bool
  | [], _ => true
  | _ :: _, [] => false
  | word :: words, tree :: rest => tree.token.isWord word && spells words rest

/-- The keyword of several words that a sequence starts with, and how many words
follow its first. -/
def spelled? (trees : List TokenTree) : Option (Kind × Nat) :=
  (mergedKeywords.find? fun entry => spells entry.1 trees).map fun entry =>
    (entry.2, entry.1.length - 1)

/-- Whether some trees begin with no word that a keyword of several words goes on with. -/
def StartsAnew (trees : List TokenTree) : Prop :=
  ∀ tree ∈ trees.head?, tree.token.isWord "BY" = false ∧ tree.token.isWord "PERMUTED" = false

/-- Whether all of some words are ones that a keyword of several words goes on with. -/
def AreLater (words : List String) : Prop := ∀ word ∈ words, word = "BY" ∨ word = "PERMUTED"

/-- A sequence is at least as long as the words it spells. -/
lemma length_le_of_spells {words : List String} {trees : List TokenTree}
    (h : spells words trees = true) : words.length ≤ trees.length := by
  fun_induction spells words trees with
  | case1 => exact Nat.zero_le _
  | case2 => cases h
  | case3 word words tree rest ih =>
    rw [Bool.and_eq_true] at h
    exact Nat.succ_le_succ (ih h.2)

/-- Fewer trees than words do not spell them. -/
lemma spells_eq_false_of_lt {words : List String} {trees : List TokenTree}
    (h : trees.length < words.length) : spells words trees = false := by
  rw [Bool.eq_false_iff]
  exact fun hspells => absurd (length_le_of_spells hspells) (Nat.not_le.mpr h)

/-- What stands behind enough trees does not bear on the words they spell. -/
lemma spells_append_of_length_le {words : List String} {as : List TokenTree}
    (h : words.length ≤ as.length) (bs : List TokenTree) :
    spells words (as ++ bs) = spells words as := by
  induction words generalizing as with
  | nil => rw [spells, spells]
  | cons word words ih =>
    cases as with
    | nil => cases h
    | cons a as => rw [List.cons_append, spells, spells, ih (Nat.le_of_succ_le_succ h)]

/-- Trees that begin anew are not taken for the rest of a keyword. -/
lemma spells_append {words : List String} (hwords : AreLater words) (as : List TokenTree)
    {bs : List TokenTree} (hbs : StartsAnew bs) : spells words (as ++ bs) = spells words as := by
  induction words generalizing as with
  | nil => rw [spells, spells]
  | cons word words ih =>
    obtain ⟨hword, hrest⟩ := List.forall_mem_cons.mp hwords
    cases as with
    | nil =>
      cases bs with
      | nil => rfl
      | cons b bs =>
        have hb : b.token.isWord word = false := by
          obtain ⟨hby, hpermuted⟩ := hbs b rfl
          obtain rfl | rfl := hword
          · exact hby
          · exact hpermuted
        simp [spells, hb]
    | cons a as => rw [List.cons_append, spells, spells, ih hrest]

/-- Trees that spell some words and no more spell the words that these begin with. -/
lemma spells_eq_isPrefixOf {words : List String} {trees : List TokenTree}
    (h : spells words trees = true) (hlength : trees.length = words.length) (others : List String) :
    spells others trees = others.isPrefixOf words := by
  induction others generalizing words trees with
  | nil => rw [spells, List.isPrefixOf_nil_left]
  | cons other others ih =>
    cases words with
    | nil =>
      rw [List.length_eq_zero_iff.mp hlength]
      rfl
    | cons word words =>
      cases trees with
      | nil => cases h
      | cons tree trees =>
        rw [spells, Bool.and_eq_true] at h
        rw [spells, List.isPrefixOf_cons_cons, ih h.2 (Nat.succ.inj hlength)]
        by_cases hsame : word = other
        · rw [← hsame, h.1, beq_self_eq_true]
        · rw [Token.isWord_eq_false h.1 hsame, beq_eq_false_iff_ne.mpr (Ne.symm hsame)]

/-- As many trees as there are words spell them exactly if each tree is the word at its place. -/
lemma all_zip_isWord {words : List String} {trees : List TokenTree}
    (h : trees.length = words.length) :
    (words.zip trees).all (fun pair => pair.2.token.isWord pair.1) = spells words trees := by
  induction words generalizing trees with
  | nil => rw [spells, List.zip_nil_left, List.all_nil]
  | cons word words ih =>
    cases trees with
    | nil => cases h
    | cons tree trees => rw [List.zip_cons_cons, List.all_cons, spells, ih (Nat.succ.inj h)]

/-! ## The keyword that a sequence starts with -/

/-- The entry of a keyword of several words is the longest one that a sequence starts with. -/
lemma entry_of_spelled? {trees : List TokenTree} {kind : Kind} {more : Nat}
    (h : spelled? trees = some (kind, more)) :
    ∃ names, (names, kind) ∈ mergedKeywords ∧ spells names trees = true ∧
      (∀ entry ∈ mergedKeywords, spells entry.1 trees = true → entry.1.length ≤ names.length) ∧
      more = names.length - 1 := by
  rw [spelled?, Option.map_eq_some_iff] at h
  obtain ⟨⟨names, found⟩, hfind, hentry⟩ := h
  cases hentry
  obtain ⟨hspells, before, behind, hall, hbefore⟩ := List.find?_eq_some_iff_append.mp hfind
  have hshrinks : mergedKeywords.Pairwise fun a b => b.1.length ≤ a.1.length := by
    decide
  refine ⟨names, List.mem_of_find?_eq_some hfind, hspells, fun entry hentry hspelled => ?_, rfl⟩
  -- entries before the one that is found are not spelled, and those behind it are no longer
  rw [hall] at hentry hshrinks
  obtain hentry | hentry := List.mem_append.mp hentry
  · have hnot := hbefore entry hentry
    simp [hspelled] at hnot
  · obtain rfl | hentry := List.mem_cons.mp hentry
    · exact le_rfl
    · exact (List.pairwise_cons.mp (List.pairwise_append.mp hshrinks).2.1).1 entry hentry

/-- No keyword is found exactly if the sequence spells none. -/
lemma spelled?_eq_none_iff {trees : List TokenTree} :
    spelled? trees = none ↔ ∀ entry ∈ mergedKeywords, spells entry.1 trees = false := by
  simp [spelled?]

/-- No keyword of several words begins with anything but `GROUP` and `ORDER`. -/
lemma spelled?_eq_none {tree : TokenTree} (rest : List TokenTree)
    (hgroup : tree.token.isWord "GROUP" = false) (horder : tree.token.isWord "ORDER" = false) :
    spelled? (tree :: rest) = none := by
  simp [spelled?, mergedKeywords, List.find?, spells, hgroup, horder]

/-- Trees that begin anew do not change the keyword that stands before them. -/
lemma spelled?_append (a : TokenTree) (as : List TokenTree) {bs : List TokenTree}
    (hbs : StartsAnew bs) : spelled? (a :: (as ++ bs)) = spelled? (a :: as) := by
  have hone : spells ["BY"] (as ++ bs) = spells ["BY"] as :=
    spells_append (by simp [AreLater]) as hbs
  have htwo : spells ["BY", "PERMUTED"] (as ++ bs) = spells ["BY", "PERMUTED"] as :=
    spells_append (by simp [AreLater]) as hbs
  have first : ∀ (word : String) (words : List String) (rest : List TokenTree),
      spells (word :: words) (a :: rest) = (a.token.isWord word && spells words rest) :=
    fun _ _ _ => rfl
  simp only [spelled?, mergedKeywords, List.find?_cons, List.find?_nil, first, hone, htwo]

/-- The words that follow the first word of a keyword. -/
lemma words_of_spelled? {a : TokenTree} {as : List TokenTree} {kind : Kind} {more : Nat}
    (h : spelled? (a :: as) = some (kind, more)) :
    ∃ words, AreLater words ∧ spells words as = true ∧ words.length = more := by
  rw [spelled?, Option.map_eq_some_iff] at h
  obtain ⟨⟨words, found⟩, hfind, hentry⟩ := h
  have hspells := List.find?_some hfind
  have hmem := List.mem_of_find?_eq_some hfind
  cases hentry
  cases words with
  | nil => simp [mergedKeywords] at hmem
  | cons word words =>
    have hlater : AreLater words := by
      simp only [mergedKeywords, List.mem_cons, Prod.mk.injEq, List.cons.injEq] at hmem
      obtain ⟨⟨-, rfl⟩, -⟩ | ⟨⟨-, rfl⟩, -⟩ | ⟨⟨-, rfl⟩, -⟩ | hmem := hmem
      · simp [AreLater]
      · simp [AreLater]
      · simp [AreLater]
      · cases hmem
    dsimp only at hspells
    rw [spells, Bool.and_eq_true] at hspells
    exact ⟨words, hlater, hspells.2, rfl⟩

/-- The keyword of trees that spell its words and no more. -/
lemma spelled?_of_spells {words : List String} {kind : Kind}
    (hentry : (words, kind) ∈ mergedKeywords)
    {trees : List TokenTree} (h : spells words trees = true)
    (hlength : trees.length = words.length) : spelled? trees = some (kind, words.length - 1) := by
  have hfirst : ∀ entry ∈ mergedKeywords,
      (mergedKeywords.find? fun other => other.1.isPrefixOf entry.1) = some entry := by
    decide
  have hprefix : (fun entry : List String × Kind => spells entry.1 trees) =
      fun entry => entry.1.isPrefixOf words :=
    funext fun entry => spells_eq_isPrefixOf h hlength entry.1
  rw [spelled?, hprefix, hfirst _ hentry, Option.map_some]

/-! ## Reading from the beginning -/

/-- A sequence with its keywords merged as they are found from its beginning on: the longest one
that is spelled there, then those behind it. -/
def joined : List TokenTree → List TokenTree
  | [] => []
  | tree :: rest =>
    match spelled? (tree :: rest) with
    | some (kind, more) => tree.becomeKeyword kind (rest.take more) :: (joined rest).drop more
    | none => tree :: joined rest

/-- No keyword begins among the words that another goes on with. -/
lemma length_le_length_joined {words : List String} (hwords : AreLater words)
    {trees : List TokenTree} (h : spells words trees = true) :
    words.length ≤ (joined trees).length := by
  induction words generalizing trees with
  | nil => exact Nat.zero_le _
  | cons word words ih =>
    obtain ⟨hword, hrest⟩ := List.forall_mem_cons.mp hwords
    cases trees with
    | nil => cases h
    | cons tree trees =>
      rw [spells, Bool.and_eq_true] at h
      have hnone : spelled? (tree :: trees) = none := by
        obtain rfl | rfl := hword <;>
          exact spelled?_eq_none trees (Token.isWord_eq_false h.1 (by decide))
            (Token.isWord_eq_false h.1 (by decide))
      rw [joined, hnone]
      exact Nat.succ_le_succ (ih hrest h.2)

/-- The words behind the first word of a keyword are there, and joining leaves them there. -/
lemma le_length_of_spelled? {a : TokenTree} {as : List TokenTree} {kind : Kind} {more : Nat}
    (h : spelled? (a :: as) = some (kind, more)) :
    more ≤ as.length ∧ more ≤ (joined as).length := by
  obtain ⟨words, hlater, hspells, rfl⟩ := words_of_spelled? h
  exact ⟨length_le_of_spells hspells, length_le_length_joined hlater hspells⟩

/-- Joining makes no sequence longer. -/
lemma length_joined_le (trees : List TokenTree) : (joined trees).length ≤ trees.length := by
  induction trees with
  | nil => rw [joined]
  | cons tree rest ih =>
    rw [joined]
    split
    · rw [List.length_cons, List.length_cons, List.length_drop]
      omega
    · exact Nat.succ_le_succ ih

/-- What is joined before some trees is joined as it is without them, if they change none of the
keywords there. -/
lemma joined_append_of_spelled? {as bs : List TokenTree}
    (h : ∀ a rest, a :: rest <:+ as → spelled? (a :: (rest ++ bs)) = spelled? (a :: rest)) :
    joined (as ++ bs) = joined as ++ joined bs := by
  induction as with
  | nil => rfl
  | cons a as ih =>
    have hrest := ih fun x rest hsuffix => h x rest (hsuffix.trans (List.suffix_cons a as))
    rw [List.cons_append, joined, joined, h a as (List.suffix_refl _), hrest]
    split
    · rename_i hspelled
      obtain ⟨hlength, hjoined⟩ := le_length_of_spelled? hspelled
      rw [List.take_append_of_le_length hlength, List.drop_append_of_le_length hjoined,
        List.cons_append]
    · rw [List.cons_append]

/-- Trees in a row have the keywords that they have alone, where the later ones begin anew. -/
lemma joined_append (as : List TokenTree) {bs : List TokenTree} (hbs : StartsAnew bs) :
    joined (as ++ bs) = joined as ++ joined bs :=
  joined_append_of_spelled? fun a rest _ => spelled?_append a rest hbs

/-- A tree at which no keyword ends is left as it is. -/
lemma joined_concat {trees : List TokenTree} {last : TokenTree}
    (h : ∀ entry ∈ mergedKeywords, ∀ suffix, suffix <:+ trees ++ [last] →
      suffix.length = entry.1.length → spells entry.1 suffix = false) :
    joined (trees ++ [last]) = joined trees ++ [last] := by
  have hlong : ∀ entry ∈ mergedKeywords, 2 ≤ entry.1.length := by decide
  have hsingle : joined [last] = [last] := by
    have hnone : spelled? [last] = none := spelled?_eq_none_iff.mpr fun entry hentry =>
      spells_eq_false_of_lt (hlong entry hentry)
    rw [joined, hnone]
    rfl
  refine (joined_append_of_spelled? fun a rest hsuffix => ?_).trans
    (congrArg (joined trees ++ ·) hsingle)
  -- a keyword that reaches the last tree would end there
  have hsame : ∀ entry ∈ mergedKeywords,
      spells entry.1 (a :: rest ++ [last]) = spells entry.1 (a :: rest) := by
    intro entry hentry
    obtain hshort | hlonger := Nat.lt_or_ge (a :: rest).length entry.1.length
    · rw [spells_eq_false_of_lt hshort, Bool.eq_false_iff]
      intro hspells
      have hlength := length_le_of_spells hspells
      rw [List.length_append, List.length_singleton] at hlength
      obtain ⟨before, rfl⟩ := hsuffix
      have hends : (a :: rest ++ [last]).length = entry.1.length := by
        rw [List.length_append, List.length_singleton]
        omega
      rw [h entry hentry _ ⟨before, by simp⟩ hends] at hspells
      cases hspells
    · exact spells_append_of_length_le hlonger [last]
  rw [spelled?, spelled?]
  congr 1
  exact List.find?_congr hsame

/-! ## The walk -/

/-- The keyword that ends where some trees end is the first one in the table that their last ones
spell. -/
lemma ending?_append {trees : List TokenTree} {place : Nat} (h : trees.length = place + 1)
    (after : List TokenTree) :
    ending? (trees ++ after) place =
      (mergedKeywords.find? fun entry =>
        spells entry.1 (trees.drop (trees.length - entry.1.length))).map fun entry =>
          (entry.2, entry.1.length - 1) := by
  rw [ending?]
  congr 1
  refine List.find?_congr fun entry _ => ?_
  have hbetween : between (place + 1 - entry.1.length) place (trees ++ after) =
      trees.drop (trees.length - entry.1.length) := by
    rw [between, ← h, List.take_left]
  dsimp only
  rw [hbetween, ← h]
  obtain hlong | hshort := Nat.lt_or_ge trees.length entry.1.length
  · rw [decide_eq_false (Nat.not_le.mpr hlong), Bool.false_and, spells_eq_false_of_lt]
    rw [List.length_drop]
    omega
  · rw [decide_eq_true hshort, Bool.true_and]
    exact all_zip_isWord (by rw [List.length_drop]; omega)

/-- Words replaced in the middle of a sequence. -/
lemma replace_append (front : List TokenTree) (head : TokenTree) (words after : List TokenTree)
    (kind : Kind) :
    replace (front ++ head :: words ++ after) kind front.length (front.length + words.length) =
      front ++ head.becomeKeyword kind words :: after := by
  have htake : (front ++ head :: words ++ after).take (front.length + words.length + 1) =
      front ++ head :: words := List.take_left' (by simp; omega)
  have hdrop : (front ++ head :: words ++ after).drop (front.length + words.length + 1) = after :=
    List.drop_left' (by simp; omega)
  have hwords : between (front.length + 1) (front.length + words.length)
      (front ++ head :: words ++ after) = words := by
    rw [between, htake, List.append_cons]
    exact List.drop_left' (by simp)
  have hfirst : (front ++ head :: words ++ after).take (front.length + 1) = front ++ [head] := by
    rw [List.append_assoc, List.cons_append, List.append_cons]
    exact List.take_left' (by simp)
  rw [replace, hwords, hfirst, hdrop]
  simp [List.modify_eq_take_cons_drop]

/-- The words of a keyword stand at the end of trees that spell them there. -/
lemma exists_words_of_spells {words : List String} {kind : Kind}
    (hentry : (words, kind) ∈ mergedKeywords) {trees : List TokenTree}
    (h : spells words (trees.drop (trees.length - words.length)) = true) :
    ∃ (front : List TokenTree) (head : TokenTree) (others : List TokenTree),
      trees = front ++ head :: others ∧ words.length = others.length + 1 ∧
        StartsAnew (head :: others) ∧
        joined (head :: others) = [head.becomeKeyword kind others] := by
  have hfirst :
      ∀ entry ∈ mergedKeywords, ∃ word ∈ entry.1.head?, word = "GROUP" ∨ word = "ORDER" := by
    decide
  have hlength := length_le_of_spells h
  rw [List.length_drop] at hlength
  have hsplit := List.take_append_drop (trees.length - words.length) trees
  have hback : (trees.drop (trees.length - words.length)).length = words.length := by
    rw [List.length_drop]
    omega
  generalize trees.drop (trees.length - words.length) = back at h hsplit hback
  obtain ⟨word, hword, hgroup⟩ := hfirst _ hentry
  cases words with
  | nil => cases hword
  | cons _ words =>
    obtain rfl := Option.some.inj hword
    cases back with
    | nil => cases hback
    | cons head others =>
      have hspelled := spelled?_of_spells hentry h hback
      have hothers : others.length = words.length := Nat.succ.inj hback
      rw [spells, Bool.and_eq_true] at h
      refine ⟨_, head, others, hsplit.symm, hback.symm, ?_, ?_⟩
      · rintro _ ⟨⟩
        obtain rfl | rfl := hgroup <;>
          exact ⟨Token.isWord_eq_false h.1 (by decide), Token.isWord_eq_false h.1 (by decide)⟩
      · rw [joined, hspelled]
        dsimp only
        rw [List.length_cons, Nat.add_sub_cancel, ← hothers, List.take_length,
          List.drop_eq_nil_of_le (length_joined_le others)]

/-- The walk from the end of some trees to their beginning joins them, and leaves alone what stands
behind them. -/
theorem mergeBefore_append (trees after : List TokenTree) :
    mergeBefore (trees ++ after) trees.length = joined trees ++ after := by
  induction hlength : trees.length using Nat.strong_induction_on generalizing trees after with
  | _ length ih =>
    subst hlength
    obtain rfl | ⟨init, last, rfl⟩ := List.eq_nil_or_concat trees
    · rw [List.length_nil, mergeBefore, joined]
    · rw [List.concat_eq_append] at ih ⊢
      have hplace : (init ++ [last]).length = init.length + 1 := by simp
      have hending := ending?_append hplace after
      rw [hplace, mergeBefore]
      cases hfind : mergedKeywords.find? fun entry =>
          spells entry.1 ((init ++ [last]).drop ((init ++ [last]).length - entry.1.length)) with
      | none =>
        rw [hfind, Option.map_none] at hending
        rw [hending]
        dsimp only
        rw [List.append_assoc, List.singleton_append, ih init.length (by simp) init _ rfl,
          joined_concat, List.append_assoc, List.singleton_append]
        intro entry hentry suffix hsuffix hsame
        have hnot := List.find?_eq_none.mp hfind entry hentry
        rw [List.suffix_iff_eq_drop.mp hsuffix, hsame]
        exact Bool.eq_false_iff.mpr hnot
      | some entry =>
        obtain ⟨words, kind⟩ := entry
        rw [hfind, Option.map_some] at hending
        have hspells : spells words
            ((init ++ [last]).drop ((init ++ [last]).length - words.length)) = true := by
          simpa using List.find?_some hfind
        obtain ⟨front, head, others, htrees, hwords, hanew, hjoined⟩ :=
          exists_words_of_spells (List.mem_of_find?_eq_some hfind) hspells
        have hlast : init.length = front.length + others.length := by
          have := congrArg List.length htrees
          simp at this
          omega
        have hmore : front.length + others.length - (words.length - 1) = front.length := by omega
        rw [hending]
        dsimp only
        rw [hlast, hmore, htrees, replace_append,
          ih front.length (by rw [hplace]; omega) front _ rfl,
          joined_append front hanew, hjoined, List.append_assoc, List.singleton_append]

/-- What the walk makes of a sequence is what is read from its beginning. -/
lemma mergeSequence_eq (trees : List TokenTree) : mergeSequence trees = joined trees := by
  have hwalk := mergeBefore_append trees []
  rwa [List.append_nil, List.append_nil] at hwalk

/-! ## Merging all lists -/

/-- Merging a tree merges its list. -/
lemma merge_mk (token : Token) (children absorbed : List TokenTree) :
    merge ⟨token, children, absorbed⟩ = ⟨token, mergeAll children, absorbed⟩ := rfl

@[simp] lemma mergeAll_nil : mergeAll [] = [] := by
  rw [mergeAll_eq, mergeSequence_eq, joined, List.map_nil]

/-- Merging a sequence, from its first tree on: the longest keyword that the sequence spells takes
the words behind its first one, as they are. -/
theorem mergeAll_cons (tree : TokenTree) (rest : List TokenTree) :
    mergeAll (tree :: rest) =
      match spelled? (tree :: rest) with
      | some (kind, more) =>
        tree.merge.becomeKeyword kind (rest.take more) :: (mergeAll rest).drop more
      | none => tree.merge :: mergeAll rest := by
  simp only [mergeAll_eq, mergeSequence_eq, joined]
  cases spelled? (tree :: rest) with
  | none => rfl
  | some found =>
    rw [List.map_cons, List.map_drop]
    rfl

/-- Trees in a row have the keywords that they have alone, where the later ones begin anew. -/
theorem mergeAll_append (as : List TokenTree) {bs : List TokenTree} (hbs : StartsAnew bs) :
    mergeAll (as ++ bs) = mergeAll as ++ mergeAll bs := by
  simp only [mergeAll_eq, mergeSequence_eq, joined_append as hbs, List.map_append]

end TokenTree

end RecordQuery
