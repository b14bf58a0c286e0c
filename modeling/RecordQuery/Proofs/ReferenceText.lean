import RecordQuery.Proofs.Cutting
import RecordQuery.Proofs.Decoding
import RecordQuery.Proofs.Named

/-!
# Property references survive rendering

A reference to a property is rendered as one token, a word or a text in brackets, whatever its id
and its namespace are, if they hold neither a closing bracket nor a typographic quote. The text of
the token is cut again at its first colon, provided that something stands on both sides of it. So it
leads back to the reference if the namespace has no colon, and neither the namespace nor the id
behind it is empty. These are exactly the references that are read back, and they have texts of
their own.
-/

namespace RecordQuery

open Text

/-- A text that is one lexeme is cut into one token. -/
lemma TokenForest.ofText_of_scan_singleton {text : String} {lexeme : Lexeme} {token : Token}
    (ceilings : Ceilings) (hstraight : IsStraight text.toList)
    (hscan : Lexeme.scan text.toList = [lexeme])
    (htoken : Token.ofLexeme? 0 text.toList ⟨0, lexeme.source.length⟩ lexeme = some token)
    (hfault : token.fault = none) :
    ∃ forest, ofText text ceilings = .ok forest ∧ forest.problems = [] ∧
      forest.trees = [⟨token, [], []⟩] := by
  have hstep : TreeBuilder.step ceilings text.toList {} lexeme =
      .ok ((({} : TreeBuilder).addToken text.toList token).consume lexeme.source.length
        (.token token.id)) :=
    TreeBuilder.step_of_ofLexeme? (by simpa using htoken)
  have hgrown : TreeBuilder.Grown {} ((({} : TreeBuilder).addToken text.toList token).consume
      lexeme.source.length (.token token.id)) lexeme.source.length [⟨token, [], []⟩] :=
    TreeBuilder.grown_addToken token hfault _ _
  refine ⟨_, by rw [ofText, hstraight.map_eq, hscan, List.foldlM_cons, hstep]; rfl, ?_, ?_⟩
  · simp [TreeBuilder.finish, hgrown.problems, hgrown.frames]
  · simp [TreeBuilder.finish, hgrown.frames, hgrown.current, TreeBuilder.closeAll]

namespace PropertyRef

/-! ## Tokens -/

/-- Whether a reference is to a property, could be decoded, and can stand in brackets. -/
structure IsLegible (p : PropertyRef) : Prop where
  decoded : ∃ json, ofJson json = .ok p
  notAlias : p.isAlias = false
  legible : ∀ c ∈ p.scope.toList ++ p.label.toList, c ≠ ']' ∧ straightenChar c = c

/-- Whether the first colon in the text of a reference, if it has a namespace, separates the
namespace from the id. -/
def IsSeparable (p : PropertyRef) : Prop :=
  ∀ scope, p.scope? = some scope → scope ≠ "" ∧ ':' ∉ scope.toList ∧ p.label ≠ ""

variable {p q : PropertyRef}

/-- What a legible property is written as holds no closing bracket and no typographic quote. -/
lemma IsLegible.mem_writtenText (h : p.IsLegible) {c : Char}
    (hc : c ∈ (p.writtenText .empty).toList) : c ≠ ']' ∧ straightenChar c = c := by
  obtain hc | hc | ⟨scope, hscope, hc⟩ := PropertyRef.mem_writtenText h.notAlias hc
  · exact h.legible c (List.mem_append_right _ hc)
  · have hdefault : ∀ c ∈ "default:".toList, c ≠ ']' ∧ straightenChar c = c := by decide
    exact hdefault c hc
  · refine h.legible c (List.mem_append_left _ ?_)
    rwa [PropertyRef.scope, hscope]

/-- A reference is rendered as one token, which holds the text of the reference. -/
lemma IsLegible.exists_token (h : p.IsLegible) (ceilings : Ceilings) :
    ∃ forest token, TokenForest.ofText (p.render .empty) ceilings = .ok forest ∧
      forest.problems = [] ∧ forest.trees = [⟨token, [], []⟩] ∧
        (token.kind = .word ∨ token.kind = .bracketed) ∧ token.rule = none ∧
          token.text = p.writtenText .empty := by
  have hclosing : ']' ∉ (p.writtenText .empty).toList := fun hc => (h.mem_writtenText hc).1 rfl
  have hstraight : IsStraight (p.writtenText .empty).toList := fun c hc => (h.mem_writtenText hc).2
  by_cases hplain : p.isPlain .empty = true
  · have hword := isFreeWord_of_isPlain hplain
    have hscan : Lexeme.scan (p.writtenText .empty).toList =
        [.run .word (p.writtenText .empty).toList] := by
      have := Lexeme.scan_word hword.nonempty hword.plain .nil
      rwa [List.append_nil, Lexeme.scan_nil] at this
    have htoken : ∀ source span,
        Token.ofLexeme? 0 source span (.run .word (p.writtenText .empty).toList) =
          some ⟨0, p.writtenText .empty, .word, span, none, none, none⟩ := fun _ _ => by
      simp [Token.ofLexeme?, Token.ofWord, hword.notKeyword]
    obtain ⟨forest, hforest, hproblems, htrees⟩ :=
      TokenForest.ofText_of_scan_singleton ceilings hstraight hscan (htoken _ _) rfl
    refine ⟨forest, _, ?_, hproblems, htrees, .inl rfl, rfl, rfl⟩
    rwa [render, if_pos hplain]
  · have hrender : (p.render .empty).toList = '[' :: (p.writtenText .empty).toList ++ [']'] := by
      simp [render, hplain]
    have hbrackets : IsStraight ['['] ∧ IsStraight [']'] := by decide
    have hscan : Lexeme.scan (p.render .empty).toList =
        [.bracketed (p.writtenText .empty).toList true] := by
      rw [hrender, Lexeme.scan_bracketed hclosing, Lexeme.scan_nil]
    have htoken : ∀ source span,
        Token.ofLexeme? 0 source span (.bracketed (p.writtenText .empty).toList true) =
          some ⟨0, p.writtenText .empty, .bracketed, span, none, none, none⟩ := fun _ _ => by
      simp [Token.ofLexeme?]
    have hstraight' : IsStraight (p.render .empty).toList := by
      rw [hrender]
      exact isStraight_append.mpr ⟨isStraight_append.mpr ⟨hbrackets.1, hstraight⟩, hbrackets.2⟩
    obtain ⟨forest, hforest, hproblems, htrees⟩ :=
      TokenForest.ofText_of_scan_singleton ceilings hstraight' hscan (htoken _ _) rfl
    exact ⟨forest, _, hforest, hproblems, htrees, .inr rfl, rfl, rfl⟩

/-! ## Reading back -/

/-- The text of a reference leads back to it, exactly if the reference is separable. -/
lemma IsLegible.ofText_writtenText_iff (h : p.IsLegible) :
    ofText (p.writtenText .empty) .empty = p ↔ p.IsSeparable := by
  constructor
  · intro hread
    have hnamed := isNamed_ofText (fun _ hc => (h.mem_writtenText hc).2)
      fun hc => (h.mem_writtenText hc).1 rfl
    rw [hread] at hnamed
    intro scope hscope
    obtain ⟨hne, -, hcolon, -, -, hlabel⟩ := hnamed.scope scope hscope
    exact ⟨hne, hcolon, hlabel⟩
  · intro hseparable
    obtain ⟨json, hjson⟩ := h.decoded
    have hdefault : p.scope? ≠ some defaultScope := PropertyRef.ensures_ofJson json p hjson
    have hlabel := fun c hc => h.legible c (List.mem_append_right _ hc)
    refine IsNamed.ofText_writtenText Registry.isMutual_empty
      ⟨h.notAlias, .inr rfl, fun c hc => (hlabel c hc).2, fun hc => (hlabel _ hc).1 rfl, ?_⟩
    rintro scope hscope
    obtain ⟨hne, hcolon, hid⟩ := hseparable scope hscope
    have hlegible : ∀ c ∈ scope.toList, c ≠ ']' ∧ straightenChar c = c := fun c hc =>
      h.legible c (List.mem_append_left _ (by rwa [PropertyRef.scope, hscope]))
    refine ⟨hne, ?_, hcolon, fun hc => (hlegible _ hc).1 rfl, fun c hc => (hlegible c hc).2, hid⟩
    rintro rfl
    exact hdefault hscope

/-- A property reference that was decoded is rendered as one word or one text in brackets, and no
keyword. The text of this token leads back to the reference, exactly if the reference is separable,
and separable references have different texts. -/
theorem isOneToken_render (h : p.IsLegible) (ceilings : Ceilings) :
    (∃ forest token, TokenForest.ofText (p.render .empty) ceilings = .ok forest ∧
      forest.problems = [] ∧ forest.trees = [⟨token, [], []⟩] ∧
        (token.kind = .word ∨ token.kind = .bracketed) ∧ token.rule = none ∧
          (ofText token.text .empty = p ↔ p.IsSeparable)) ∧
      ∀ q : PropertyRef, q.IsLegible → p.IsSeparable → q.IsSeparable →
        p.render .empty = q.render .empty → p = q := by
  obtain ⟨forest, token, hforest, hproblems, htrees, hkind, hrule, htext⟩ := h.exists_token ceilings
  refine ⟨⟨forest, token, hforest, hproblems, htrees, hkind, hrule, ?_⟩, fun q hq hp hq' heq => ?_⟩
  · rw [htext]
    exact h.ofText_writtenText_iff
  · obtain ⟨forest', token', hforest', -, htrees', -, -, htext'⟩ := hq.exists_token ceilings
    have hsame : token.text = token'.text := by
      rw [heq, hforest'] at hforest
      cases hforest
      rw [htrees'] at htrees
      cases htrees
      rfl
    rw [htext, htext'] at hsame
    rw [← h.ofText_writtenText_iff.mpr hp, hsame, hq.ofText_writtenText_iff.mpr hq']

/-- A property with a reserved word for its id, in a namespace. -/
theorem isOneToken_render_sample :
    ∃ forest token, TokenForest.ofText ((inScope "ns" "order").render .empty) {} = .ok forest ∧
      forest.trees = [⟨token, [], []⟩] ∧ ofText token.text .empty = inScope "ns" "order" := by
  have hlegible : (inScope "ns" "order").IsLegible :=
    ⟨⟨(inScope "ns" "order").toJson, by decide +kernel⟩, by decide +kernel, by decide +kernel⟩
  have hseparable : (inScope "ns" "order").IsSeparable := by
    rintro _ ⟨⟩
    decide +kernel
  obtain ⟨⟨forest, token, hforest, -, htrees, -, -, hback⟩, -⟩ := isOneToken_render hlegible {}
  exact ⟨forest, token, hforest, htrees, hback.mpr hseparable⟩

/-- A namespace with a colon is cut elsewhere, and the text is that of another reference. -/
example : (inScope "a:b" "c").render .empty = (inScope "a" "b:c").render .empty := by
  decide +kernel

end PropertyRef

end RecordQuery
