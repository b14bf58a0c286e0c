import RecordQuery.Proofs.Cutting
import RecordQuery.Proofs.KeywordWalk

/-!
# Merging sketched keywords

`GROUP BY`, `GROUP BY PERMUTED` and `ORDER BY` are cut into words and merged afterwards. A sketch
with such keywords has the text of the words they are typed as, which is cut as any other; merging
turns the trees of these words into the keywords that were sketched, and leaves the others as they
are, as long as no other word could be taken for the first or the last one of a keyword.
-/

namespace RecordQuery

namespace Sketch

/-- The words that a keyword of several words is typed as. -/
def wordsOf : Kind → List Sketch
  | .groupBy => [word "GROUP", word "BY"]
  | .groupByPermuted => [word "GROUP", word "BY", word "PERMUTED"]
  | .orderBy => [word "ORDER", word "BY"]
  | kind => [keyword kind]

/-- The sketches that a sketch is before keywords are merged. -/
def expand : Sketch → List Sketch
  | keyword kind => wordsOf kind
  | sketch => [sketch]

/-- A keyword of one word is that word. -/
lemma wordsOf_of_isSingle {kind : Kind} (h : kind.isSingle = true) :
    wordsOf kind = [keyword kind] := by
  cases kind <;> first | rfl | exact absurd h (by decide +kernel)

/-- The kinds whose keywords are several words. -/
lemma kind_of_not_isSingle {kind : Kind} (h : kind.isSingle ≠ true) :
    kind = .groupBy ∨ kind = .groupByPermuted ∨ kind = .orderBy := by
  cases kind <;> revert h <;> decide +kernel

/-- A keyword in single words is written as it is in one. -/
lemma charsBehind_expand (sketch : Sketch) :
    charsBehind sketch.expand = sketch.gap ++ sketch.chars := by
  cases sketch with
  | keyword kind =>
    by_cases hsingle : kind.isSingle = true
    · rw [expand, wordsOf_of_isSingle hsingle, charsBehind, charsBehind, List.append_nil]
    · obtain rfl | rfl | rfl := kind_of_not_isSingle hsingle <;> rfl
  | _ => simp [expand, charsBehind]

/-- Keywords in single words are written behind a sketch as they are in one. -/
lemma charsBehind_flatMap_expand (sketches : List Sketch) :
    charsBehind (sketches.flatMap expand) = charsBehind sketches := by
  induction sketches with
  | nil => rfl
  | cons sketch rest ih =>
    rw [List.flatMap_cons, charsBehind_append, ih, charsBehind_expand, charsBehind]

/-- Keywords in single words are written as they are in one. -/
lemma charsAll_flatMap_expand (sketches : List Sketch) :
    charsAll (sketches.flatMap expand) = charsAll sketches := by
  cases sketches with
  | nil => rfl
  | cons sketch rest =>
    have hexpand : charsAll sketch.expand = sketch.chars ∧ sketch.expand ≠ [] := by
      cases sketch with
      | keyword kind =>
        by_cases hsingle : kind.isSingle = true
        · rw [expand, wordsOf_of_isSingle hsingle]
          simp [charsAll, charsBehind]
        · obtain rfl | rfl | rfl := kind_of_not_isSingle hsingle <;>
            exact ⟨rfl, List.cons_ne_nil _ _⟩
      | _ => simp [expand, charsAll, charsBehind]
    rw [List.flatMap_cons, charsAll_append hexpand.2, hexpand.1, charsBehind_flatMap_expand,
      charsAll]

mutual

/-- Whether no word of a sketch is the first or the last one of a keyword of several words. -/
def Steady : Sketch → Prop
  | word text =>
    upperCase text ≠ "GROUP" ∧ upperCase text ≠ "ORDER" ∧ upperCase text ≠ "PERMUTED"
  | call _ parameters => SteadyAll parameters
  | group contents => SteadyAll contents
  | _ => True

/-- Whether no word of some sketches is the first or the last one of a keyword of several words. -/
def SteadyAll : List Sketch → Prop
  | [] => True
  | sketch :: rest => Steady sketch ∧ SteadyAll rest

end

/-- Sketches are steady if each of them is. -/
lemma steadyAll_iff {sketches : List Sketch} :
    SteadyAll sketches ↔ ∀ sketch ∈ sketches, Steady sketch := by
  induction sketches with
  | nil => simp [SteadyAll]
  | cons sketch rest ih => simp [SteadyAll, ih]

/-- A tree that matches a steady sketch is no word that keywords of several words begin with. -/
lemma Matches.isWord_eq_false {sketch : Sketch} {tree : TokenTree} (h : sketch.Matches tree)
    (hsteady : sketch.Steady) (hsingle : sketch.expand = [sketch]) {word : String}
    (hword : word = "GROUP" ∨ word = "ORDER" ∨ word = "PERMUTED") :
    tree.token.isWord word = false := by
  have keyword_ne : ∀ kind : Kind, kind.keyword ≠ word := by
    intro kind
    obtain rfl | rfl | rfl := hword <;> cases kind <;> decide +kernel
  cases h with
  | keyword rule text => simp [Token.isWord, text, keyword_ne]
  | word rule text =>
    obtain ⟨hgroup, horder, hpermuted⟩ := hsteady
    obtain rfl | rfl | rfl := hword <;> simp [Token.isWord, text, hgroup, horder, hpermuted]
  | bracketed rule text kind => simp [Token.isWord, kind]
  | quoted rule text kind => obtain kind | kind := kind <;> simp [Token.isWord, kind]
  | comma rule text kind => simp [Token.isWord, kind]
  | call rule text => simp [Token.isWord, text, keyword_ne]
  | group rule kind => simp [Token.isWord, kind]

end Sketch

namespace TokenTree

open Sketch

/-- A sound sketch is no keyword of several words. -/
lemma expand_of_sound {raw : Lexeme → Prop} {mentioned : Prop} {sketch : Sketch}
    (h : Sound raw mentioned sketch) : sketch.expand = [sketch] := by
  cases sketch with
  | keyword kind => exact wordsOf_of_isSingle h.2
  | _ => rfl

mutual

/-- Merging leaves a tree that matches a steady sketch as it is. -/
lemma matches_merge {raw : Lexeme → Prop} : (sketch : Sketch) → {mentioned : Prop} →
    Sound raw mentioned sketch → sketch.Steady → (tree : TokenTree) → sketch.Matches tree →
    sketch.Matches (merge tree)
  | .keyword _, _, _, _, ⟨_, _, _⟩, .keyword rule text class_ childless =>
    .keyword rule text class_ childless
  | .word _, _, _, _, ⟨_, _, _⟩, .word rule text class_ childless =>
      .word rule text class_ childless
  | .bracketed _, _, _, _, ⟨_, _, _⟩, .bracketed rule text class_ childless =>
    .bracketed rule text class_ childless
  | .quoted _ _, _, _, _, ⟨_, _, _⟩, .quoted rule text class_ childless =>
    .quoted rule text class_ childless
  | .comma, _, _, _, ⟨_, _, _⟩, .comma rule text class_ childless =>
      .comma rule text class_ childless
  | .call _ parameters, _, hsound, hsteady, ⟨_, children, _⟩, .call rule text class_ owns h =>
    .call rule text class_ owns (matchesAll_merge parameters hsound.2 hsteady children h)
  | .group contents, _, hsound, hsteady, ⟨_, children, _⟩, .group rule class_ owns h =>
    .group rule class_ owns (matchesAll_merge contents hsound hsteady children h)

/-- Merging leaves trees that match steady sketches as they are. -/
lemma matchesAll_merge {raw : Lexeme → Prop} : (sketches : List Sketch) → {mentioned : Prop} →
    SoundAll raw mentioned sketches → SteadyAll sketches → (trees : List TokenTree) →
    MatchesAll sketches trees → MatchesAll sketches (mergeAll trees)
  | [], _, _, _, [], .nil => by
    rw [mergeAll_nil]
    exact .nil
  | sketch :: rest, _, hsound, hsteady, tree :: trees, .cons h hrest => by
    have hexpand := expand_of_sound hsound.1
    rw [mergeAll_cons, spelled?_eq_none trees (h.isWord_eq_false hsteady.1 hexpand (.inl rfl))
      (h.isWord_eq_false hsteady.1 hexpand (.inr (.inl rfl)))]
    exact .cons (matches_merge sketch hsound.1 hsteady.1 tree h)
      (matchesAll_merge rest hsound.2 hsteady.2 trees hrest)

end

/-- A word of a keyword, as it is told from others. -/
lemma isWord_of_matches {text : String} (hupper : upperCase text = text) {tree : TokenTree}
    (h : (Sketch.word text).Matches tree) (word : String) :
    tree.token.isWord word = (text == word) := by
  cases h with
  | word rule text_eq class_ => rw [Token.isWord, class_, text_eq, hupper]; rfl

/-- Sketched clauses do not begin with the last word of a keyword. -/
lemma spells_permuted_eq_false {sketches : List Sketch} (hsteady : SteadyAll sketches)
    {trees : List TokenTree} (h : MatchesAll (sketches.flatMap expand) trees) :
    spells ["PERMUTED"] trees = false := by
  cases sketches with
  | nil =>
    cases h
    rfl
  | cons sketch rest =>
    rw [List.flatMap_cons] at h
    by_cases hexpand : sketch.expand = [sketch]
    · rw [hexpand] at h
      cases h with
      | cons hfirst _ =>
        rw [spells, hfirst.isWord_eq_false hsteady.1 hexpand (.inr (.inr rfl)), Bool.false_and]
    · have words : ∀ (text : String) (more : List Sketch), upperCase text = text →
          text ≠ "PERMUTED" → sketch.expand = word text :: more →
            spells ["PERMUTED"] trees = false := by
        intro text more hupper hne hwords
        rw [hwords] at h
        cases h with
        | cons hfirst _ =>
          rw [spells, isWord_of_matches hupper hfirst, beq_eq_false_iff_ne.mpr hne, Bool.false_and]
      cases sketch with
      | keyword kind =>
        obtain rfl | rfl | rfl := kind_of_not_isSingle fun h => hexpand (wordsOf_of_isSingle h)
        · exact words "GROUP" _ (by decide +kernel) (by decide) rfl
        · exact words "GROUP" _ (by decide +kernel) (by decide) rfl
        · exact words "ORDER" _ (by decide +kernel) (by decide) rfl
      | _ => exact absurd rfl hexpand

/-- A word that has become a keyword matches it. -/
lemma matches_becomeKeyword {kind : Kind} (hkind : kind.tokenKind = .word) {text : String}
    {tree : TokenTree} (h : (Sketch.word text).Matches tree) (words : List TokenTree) :
    (Sketch.keyword kind).Matches ((merge tree).becomeKeyword kind words) := by
  cases h with
  | word rule text_eq class_ childless => exact .keyword rfl rfl (class_.trans hkind.symm) childless

/-- A word that no keyword of several words begins with is left as it is. -/
lemma mergeAll_word {text : String} (hupper : upperCase text = text) (hgroup : text ≠ "GROUP")
    (horder : text ≠ "ORDER") {tree : TokenTree} (h : (Sketch.word text).Matches tree)
    (rest : List TokenTree) : mergeAll (tree :: rest) = merge tree :: mergeAll rest := by
  have hnone : spelled? (tree :: rest) = none := by
    apply spelled?_eq_none
    · rw [isWord_of_matches hupper h, beq_eq_false_iff_ne.mpr hgroup]
    · rw [isWord_of_matches hupper h, beq_eq_false_iff_ne.mpr horder]
  rw [mergeAll_cons, hnone]

/-- Merging makes keywords of the words that sketched keywords are typed as. -/
theorem matchesAll_mergeAll {raw : Lexeme → Prop} {sketches : List Sketch}
    (hsound : SoundAll raw False (sketches.flatMap expand)) (hsteady : SteadyAll sketches) :
    {trees : List TokenTree} → MatchesAll (sketches.flatMap expand) trees →
      MatchesAll sketches (mergeAll trees) := by
  induction sketches with
  | nil =>
    rintro _ ⟨⟩
    rw [mergeAll_nil]
    exact .nil
  | cons sketch rest ih =>
    intro trees h
    rw [List.flatMap_cons] at h hsound
    have hrest : ∀ {trees : List TokenTree}, MatchesAll (rest.flatMap expand) trees →
        MatchesAll rest (mergeAll trees) := ih (soundAll_iff.mpr fun s hs =>
      soundAll_iff.mp hsound s (List.mem_append_right _ hs)) hsteady.2
    by_cases hexpand : sketch.expand = [sketch]
    · rw [hexpand] at h hsound
      cases h with
      | @cons _ tree _ trees hfirst hmore =>
        rw [mergeAll_cons, spelled?_eq_none trees
          (hfirst.isWord_eq_false hsteady.1 hexpand (.inl rfl))
          (hfirst.isWord_eq_false hsteady.1 hexpand (.inr (.inl rfl)))]
        exact .cons (matches_merge sketch hsound.1 hsteady.1 tree hfirst) (hrest hmore)
    · have upperGroup : upperCase "GROUP" = "GROUP" := by decide +kernel
      have upperOrder : upperCase "ORDER" = "ORDER" := by decide +kernel
      have upperBy : upperCase "BY" = "BY" := by decide +kernel
      have upperPermuted : upperCase "PERMUTED" = "PERMUTED" := by decide +kernel
      cases sketch with
      | keyword kind =>
        -- there are three keywords of several words; after `GROUP BY` no `PERMUTED` may follow
        obtain rfl | rfl | rfl := kind_of_not_isSingle fun h => hexpand (wordsOf_of_isSingle h)
        · obtain ⟨group, _, hgroup, hafter, rfl⟩ := List.forall₂_cons_left_iff.mp h
          obtain ⟨by_, more, hby, hmore, rfl⟩ := List.forall₂_cons_left_iff.mp hafter
          have hspelled : spelled? (group :: by_ :: more) = some (.groupBy, 1) := by
            have hpermuted : spells ["PERMUTED"] more = false :=
              spells_permuted_eq_false hsteady.2 hmore
            simp [spelled?, mergedKeywords, List.find?, spells, isWord_of_matches upperGroup hgroup,
              isWord_of_matches upperBy hby, hpermuted]
          rw [mergeAll_cons, hspelled, mergeAll_word upperBy (by decide) (by decide) hby]
          exact .cons (matches_becomeKeyword rfl hgroup _) (hrest hmore)
        · obtain ⟨group, _, hgroup, hafter, rfl⟩ := List.forall₂_cons_left_iff.mp h
          obtain ⟨by_, _, hby, hlast, rfl⟩ := List.forall₂_cons_left_iff.mp hafter
          obtain ⟨permuted, more, hpermuted, hmore, rfl⟩ := List.forall₂_cons_left_iff.mp hlast
          have hspelled : spelled? (group :: by_ :: permuted :: more) =
              some (.groupByPermuted, 2) := by
            simp [spelled?, mergedKeywords, spells, isWord_of_matches upperGroup hgroup,
              isWord_of_matches upperBy hby, isWord_of_matches upperPermuted hpermuted]
          rw [mergeAll_cons, hspelled, mergeAll_word upperBy (by decide) (by decide) hby,
            mergeAll_word upperPermuted (by decide) (by decide) hpermuted]
          exact .cons (matches_becomeKeyword rfl hgroup _) (hrest hmore)
        · obtain ⟨order, _, horder, hafter, rfl⟩ := List.forall₂_cons_left_iff.mp h
          obtain ⟨by_, more, hby, hmore, rfl⟩ := List.forall₂_cons_left_iff.mp hafter
          have hspelled : spelled? (order :: by_ :: more) = some (.orderBy, 1) := by
            simp [spelled?, mergedKeywords, List.find?, spells, isWord_of_matches upperOrder horder,
              isWord_of_matches upperBy hby]
          rw [mergeAll_cons, hspelled, mergeAll_word upperBy (by decide) (by decide) hby]
          exact .cons (matches_becomeKeyword rfl horder _) (hrest hmore)
      | _ => exact absurd rfl hexpand

end TokenTree

end RecordQuery
