import RecordQuery.Proofs.Compiling
import RecordQuery.Proofs.Named

/-!
# Queries that are read without a registry

The words of a text hold no typographic quotes, since these are made straight before anything is
read, and no brackets but where they are quoted. So all that the words of a text come to under the
empty registry can be written again, except for a name that `AS` introduces in quotes.
-/

namespace RecordQuery

open Text

/-- The words that texts hold, under the empty registry. -/
def Vocabulary.plain : Vocabulary where
  ref p := p.IsWritable .empty
  scalar v := ∀ s, v.value = .string s → v.text = s ∧ IsStraight s.toList
  name n := IsStraight n.toList

/-- Whether a token holds no typographic quote, and no bracket if it can be a reference. -/
structure Token.IsPlain (token : Token) : Prop where
  isStraight : IsStraight token.text.toList
  closing : token.kind = .word ∨ token.kind = .bracketed → ']' ∉ token.text.toList

namespace ScalarValue

/-- A text that is a string is the string itself. -/
lemma eq_of_infer_string {text s : String} {isLiteral : Bool}
    (h : (infer text isLiteral).value = .string s) :
    s = text ∧ (infer text isLiteral).text = text := by
  revert h
  unfold infer
  split
  · rintro ⟨⟩
    exact ⟨rfl, rfl⟩
  split
  · rintro ⟨⟩
  split
  · rintro ⟨⟩
  split
  · rintro ⟨⟩
  split
  · rintro ⟨⟩
  · rintro ⟨⟩
    exact ⟨rfl, rfl⟩

/-- Under the empty registry a string is no name of a value. -/
@[simp] lemma resolveNames_empty (v : ScalarValue) : v.resolveNames .empty = v := by
  unfold resolveNames
  split <;> rfl

end ScalarValue

namespace Token

/-- What a token without typographic quotes comes to can be written. -/
lemma IsPlain.covers {token : Token} (h : token.IsPlain) :
    Vocabulary.plain.Covers .empty token where
  ref hkind := by
    have hnamed := PropertyRef.isNamed_ofText h.isStraight (h.closing hkind)
    exact ⟨hnamed.isWritable Registry.isMutual_empty, nofun, h.closing hkind, h.isStraight⟩
  scalar _ := by
    intro s hs
    rw [ScalarValue.resolveNames_empty] at hs ⊢
    obtain ⟨rfl, htext⟩ := ScalarValue.eq_of_infer_string hs
    exact ⟨htext, h.isStraight⟩
  name _ := h.isStraight

/-- A word that is a keyword is the one its kind is written with. -/
lemma eq_of_ofKeyword? {word : String} {kind : Kind} (h : Kind.ofKeyword? word = some kind) :
    word = kind.keyword := by
  have hfound := List.find?_some h
  simp only [Bool.and_eq_true, beq_iff_eq] at hfound
  exact hfound.2.symm

/-- No keyword holds a closing bracket. -/
lemma closing_keyword (kind : Kind) : ']' ∉ kind.keyword.toList := by
  cases kind <;> decide +kernel

/-- A token that becomes a keyword is plain. -/
lemma isPlain_keyword (token : Token) (kind : Kind) (rule : Option Kind) (span : Span) :
    IsPlain { token with text := kind.keyword, rule, span } :=
  ⟨kind.isStraight_keyword, fun _ => closing_keyword kind⟩

/-- A word of a straight text is plain. -/
lemma isPlain_ofWord {id : Nat} {kind : TokenKind} {text : String} {span : Span}
    (hstraight : IsStraight text.toList) (hclosing : kind = .word → ']' ∉ text.toList)
    (hkind : kind ≠ .bracketed) : (ofWord id kind text span).IsPlain := by
  unfold ofWord
  split
  · rename_i rule hrule
    rw [eq_of_ofKeyword? hrule]
    exact isPlain_keyword { id, kind, span, text } rule (some rule) span
  · exact ⟨hstraight, fun h => h.elim hclosing fun h => absurd h hkind⟩

/-- What a lexeme comes to is plain, if no quote in the lexeme is typographic. -/
lemma isPlain_of_ofLexeme? {id : Nat} {source : List Char} {span : Span} {lexeme : Lexeme}
    {token : Token} (hregular : lexeme.IsRegular) (hstraight : IsStraight lexeme.source)
    (h : ofLexeme? id source span lexeme = some token) : token.IsPlain := by
  cases lexeme with
  | blank | opening | closing => cases h
  | delimiter c =>
    cases h
    exact ⟨by rwa [String.toList_ofList], by simp⟩
  | quoted quote body closed =>
    have hbody : IsStraight body := fun c hc => hstraight c (by simp [Lexeme.source, hc])
    cases h
    unfold ofQuoted
    split
    · exact ⟨by rwa [String.toList_ofList], by simp⟩
    · refine ⟨fun c hc => hbody c ?_, by simp⟩
      rw [String.toList_ofList] at hc
      exact mem_of_mem_unescape hc
  | block body closed =>
    cases h
    refine ⟨fun c hc => hstraight c ?_, by simp⟩
    rw [String.toList_ofList] at hc
    simp [Lexeme.source, hc]
  | bracketed body closed =>
    cases h
    refine ⟨fun c hc => hstraight c ?_, fun _ => ?_⟩
    · rw [String.toList_ofList] at hc
      simp [Lexeme.source, hc]
    · rw [String.toList_ofList]
      exact hregular
  | run kind chars =>
    have hchars : IsStraight (String.ofList chars).toList := by rwa [String.toList_ofList]
    cases kind with
    | symbol =>
      cases h
      exact isPlain_ofWord hchars (by simp) (by simp)
    | word =>
      cases h
      refine isPlain_ofWord hchars (fun _ hmem => ?_) (by simp)
      rw [String.toList_ofList] at hmem
      obtain ⟨rest, hlead⟩ := hregular.2 _ hmem
      -- no word holds a closing bracket
      have hword := (Lexeme.leads_of_lead hlead).2.2.2 rfl
      revert hword
      decide +kernel
    | other =>
      cases h
      exact ⟨hchars, by simp⟩

end Token

/-- Straightening again changes nothing. -/
lemma Text.straightenChar_straightenChar (c : Char) :
    straightenChar (straightenChar c) = straightenChar c := by
  have hcases : straightenChar c = '\'' ∨ straightenChar c = '"' ∨ straightenChar c = c := by
    unfold straightenChar
    split_ifs <;> simp
  obtain h | h | h := hcases <;> rw [h]
  · decide
  · decide
  · exact h

/-- A text has the plain vocabulary, once its quotes are made straight. -/
lemma TokenForest.allOf_isPlain {text : String} {ceilings : Ceilings} {forest : TokenForest}
    (h : ofText text ceilings = .ok forest) :
    TokenTree.AllOf Token.IsPlain forest.merge.trees := by
  have hstraight : IsStraight (text.toList.map straightenChar) := by
    intro c hc
    obtain ⟨d, -, rfl⟩ := List.mem_map.mp hc
    exact straightenChar_straightenChar d
  refine TokenTree.AllOf.mergeAll (fun t kind span _ => Token.isPlain_keyword t kind _ span) _
    (allOf_trees h (fun lexeme hlexeme id span t ht => ?_) (fun id offset => ?_) fun t stop ht =>
      ?_)
  · refine Token.isPlain_of_ofLexeme? (Lexeme.isRegular_of_mem_scan hlexeme) (fun c hc => ?_) ht
    refine hstraight c ?_
    rw [← Lexeme.flatMap_source_scan (text.toList.map straightenChar)]
    exact List.mem_flatMap.mpr ⟨lexeme, hlexeme, hc⟩
  · have hopening : IsStraight "(".toList := by decide
    exact ⟨hopening, by simp [Token.group]⟩
  · exact ⟨ht.isStraight, ht.closing⟩

/-- An id that is written without brackets has a text that leads back to it. -/
lemma PropertyRef.isWritable_of_isPlain {id : String} (h : (ofId id).isPlain .empty = true) :
    (ofId id).IsWritable .empty := by
  have hbare : isBare id = true := by
    rw [isPlain, Bool.and_eq_true, Bool.and_eq_true] at h
    exact h.1.2
  have hchars := (continuesBare_of_isBare hbare).2
  have hplain : ∀ c ∈ id.toList, Lexeme.isPlainChar c = true := fun c hc => by
    rw [Lexeme.isPlainChar, hchars c hc, Bool.true_or]
  refine IsNamed.isWritable Registry.isMutual_empty ⟨rfl, .inr rfl, fun c hc =>
    straightenChar_of_lt (Lexeme.isPlainChar_lt (hplain c hc)), fun hc => ?_, by rintro _ ⟨⟩⟩
  exact absurd (hplain _ hc) (by decide)

/-- The plain vocabulary covers every text. -/
lemma TokenForest.allOf_covers_plain {text : String} {ceilings : Ceilings} {forest : TokenForest}
    (h : ofText text ceilings = .ok forest) :
    TokenTree.AllOf (Vocabulary.plain.Covers .empty) forest.merge.trees :=
  (TokenTree.allOf_iff_reachable _).mpr fun t ht =>
    ((TokenTree.allOf_iff_reachable _).mp (allOf_isPlain h) t ht).covers

/-- The clauses that a text denotes under the empty registry have plain shapes. -/
theorem Query.isOfText_plain {text : String} {ceilings : Ceilings} {q : Query}
    (h : ofText text .empty ceilings = .ok q) : q.IsOfText .plain :=
  isOfText_ofText_of_allOf (fun _ hforest => TokenForest.allOf_covers_plain hforest) h

end RecordQuery
