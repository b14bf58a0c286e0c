import RecordQuery.Proofs.Items
import RecordQuery.Proofs.Writing

/-!
# Readings of rendered texts

A text that is written by sketches is cut into trees that match the sketches, once keywords of
several words are merged. So a reading of the text starts with elements that are read as the
sketches, and with notes in which nothing stands.
-/

namespace RecordQuery

open Sketch

namespace Sketch

variable {raw : Lexeme → Prop} {m n : Nat} {text text' : String} {sketches sketches' : List Sketch}

/-- Whether sketches are a text, and are read from it as they were sketched once the words of
keywords are merged. -/
structure Spells (raw : Lexeme → Prop) (n : Nat) (text : String) (sketches : List Sketch) :
    Prop where
  chars_eq : charsAll sketches = text.toList
  starts : Starts sketches
  soundAll : SoundAll raw False (sketches.flatMap expand)
  steadyAll : SteadyAll sketches
  depthAll_le : depthAll (sketches.flatMap expand) ≤ n

/-- Sketches that write a text have no keywords of several words to expand. -/
lemma Writes.flatMap_expand (h : Writes raw n text sketches) :
    sketches.flatMap expand = sketches := by
  have hsame : ∀ sketch ∈ sketches, sketch.expand = [sketch] := fun sketch hsketch =>
    TokenTree.expand_of_sound (h.tidy sketch hsketch).sound
  rw [List.flatMap_congr hsame, List.flatMap_singleton']

/-- Sketches that write a text without keywords of several words spell it. -/
lemma Writes.spells (h : Writes raw n text sketches) : Spells raw n text sketches := by
  refine ⟨h.chars_eq, h.starts, ?_, h.steadyAll, ?_⟩
  · rw [h.flatMap_expand]
    exact h.soundAll
  · rw [h.flatMap_expand]
    exact h.depthAll_le

namespace Spells

/-- A text may be said to be deeper than it is. -/
lemma mono (h : Spells raw m text sketches) (hmn : m ≤ n) : Spells raw n text sketches :=
  { h with depthAll_le := h.depthAll_le.trans hmn }

/-- A blank stands between two texts. -/
lemma append (h : Spells raw n text sketches) (h' : Spells raw n text' sketches') :
    Spells raw n (text ++ " " ++ text') (sketches ++ sketches') := by
  refine ⟨?_, h.starts.append _, ?_, ?_, ?_⟩
  · rw [charsAll_append h.starts.ne_nil, charsBehind_of_starts h'.starts, h.chars_eq, h'.chars_eq]
    simp
  · rw [List.flatMap_append, soundAll_iff]
    intro sketch hsketch
    obtain hsketch | hsketch := List.mem_append.mp hsketch
    · exact soundAll_iff.mp h.soundAll sketch hsketch
    · exact soundAll_iff.mp h'.soundAll sketch hsketch
  · rw [steadyAll_iff]
    intro sketch hsketch
    obtain hsketch | hsketch := List.mem_append.mp hsketch
    · exact steadyAll_iff.mp h.steadyAll sketch hsketch
    · exact steadyAll_iff.mp h'.steadyAll sketch hsketch
  · rw [List.flatMap_append, depthAll_le_iff]
    intro sketch hsketch
    obtain hsketch | hsketch := List.mem_append.mp hsketch
    · exact depthAll_le_iff.mp h.depthAll_le sketch hsketch
    · exact depthAll_le_iff.mp h'.depthAll_le sketch hsketch

/-- A keyword without parentheses is spelled by its words. -/
lemma keyword {kind : Kind} (h : kind.isFunction = false) :
    Spells raw 0 kind.keyword [.keyword kind] := by
  have hwords : ∀ text ∈ ["GROUP", "BY", "PERMUTED", "ORDER"],
      (Sketch.word text).Sound raw False := by
    simp only [List.mem_cons, List.not_mem_nil, or_false, forall_eq_or_imp, forall_eq, Sound]
    decide +kernel
  refine ⟨by simp [charsAll, charsBehind, chars], ⟨_, _, rfl, rfl⟩, ?_, ⟨trivial, trivial⟩, ?_⟩
  · rw [List.flatMap_singleton, soundAll_iff]
    by_cases hsingle : kind.isSingle = true
    · rw [expand, wordsOf_of_isSingle hsingle]
      simpa [Sound] using ⟨h, hsingle⟩
    · obtain rfl | rfl | rfl := kind_of_not_isSingle hsingle <;>
        simp only [expand, wordsOf, List.mem_cons, List.not_mem_nil, or_false, forall_eq_or_imp,
          forall_eq] <;> simp [hwords]
  · rw [List.flatMap_singleton]
    by_cases hsingle : kind.isSingle = true
    · rw [expand, wordsOf_of_isSingle hsingle]
      exact Nat.le_refl 0
    · obtain rfl | rfl | rfl := kind_of_not_isSingle hsingle <;> exact Nat.le_refl 0

/-- Texts with a blank between each two. -/
lemma flatten {texts : List String} {entries : List (List Sketch)}
    (h : List.Forall₂ (Spells raw n) texts entries) (hne : texts ≠ []) :
    Spells raw n (" ".intercalate texts) entries.flatten := by
  induction h with
  | nil => exact absurd rfl hne
  | @cons text entry texts entries hfirst hrest ih =>
    cases hrest with
    | nil => simpa using hfirst
    | cons hsecond hrest =>
      have hmore := hfirst.append (ih (List.cons_ne_nil _ _))
      rw [List.flatten_cons]
      refine { hmore with chars_eq := ?_ }
      rw [hmore.chars_eq]
      simp [String.toList_intercalate]

end Spells

end Sketch

/-- Whether a reading is about to read what was sketched, with nothing noted yet. -/
structure Reading.Begins (r : Reading) (s : Setting) (sketches : List Sketch) : Prop where
  setting : r.setting = s
  reads : ReadsAll s sketches r.elements
  notes : r.notes = {}

/-- The setting in which a text without typographic quotes is read. -/
def Setting.of (text : String) (registry : Registry) (ceilings : Ceilings) : Setting :=
  ⟨text.toList, registry, ceilings⟩

variable {text : String} {registry : Registry} {ceilings : Ceilings} {raw : Lexeme → Prop}

/-- The reading of a text that sketches write begins with the sketches. -/
theorem Reading.exists_begins {sketches : List Sketch} (hchars : charsAll sketches = text.toList)
    (hsound : SoundAll raw False (sketches.flatMap expand)) (hsteady : SteadyAll sketches)
    (hraw : ∀ lexeme : Lexeme, Token.MentionsBeside text.toList lexeme.source → raw lexeme)
    (hdepth : depthAll (sketches.flatMap expand) ≤ ceilings.depth) :
    ∃ r, Reading.start text registry ceilings = .ok r ∧
      r.Begins (.of text registry ceilings) sketches := by
  have hexpanded : charsAll (sketches.flatMap expand) = text.toList := by
    rw [charsAll_flatMap_expand, hchars]
  obtain ⟨forest, hforest, hsource, hproblems, hmatches⟩ :=
    TokenForest.ofText_charsAll hsound (by rwa [hexpanded]) hdepth
  rw [hexpanded, String.ofList_toList] at hforest
  rw [hexpanded] at hsource
  refine ⟨_, by rw [start, hforest]; rfl, ?_, ?_, ?_⟩
  · rw [Setting.of, hsource]
  · have hreads := readsAll_of_expand (.of text registry ceilings) hsound
      (TokenTree.matchesAll_mergeAll hsound hsteady hmatches)
    rwa [Setting.of, ← hsource] at hreads ⊢
  · rw [hproblems]

/-- The reading of a text without keywords of several words begins with the sketches
that write it. -/
theorem Reading.exists_begins_of_writes {sketches : List Sketch} {n : Nat}
    (h : Writes raw n text sketches)
    (hraw : ∀ lexeme : Lexeme, Token.MentionsBeside text.toList lexeme.source → raw lexeme)
    (hdepth : n ≤ ceilings.depth) :
    ∃ r, Reading.start text registry ceilings = .ok r ∧
      r.Begins (.of text registry ceilings) sketches :=
  exists_begins h.chars_eq h.spells.soundAll h.steadyAll hraw (h.spells.depthAll_le.trans hdepth)

end RecordQuery
