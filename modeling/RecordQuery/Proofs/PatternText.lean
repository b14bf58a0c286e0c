import Mathlib.Data.List.DropRight
import RecordQuery.Proofs.SingleCondition

/-!
# Patterns survive rendering if they can be delimited

A pattern is quoted without escapes, so it has to end where its quotation does. Between quotes it
does so if a backslash at its end is not left over to protect the closing quote, and in a block if
no terminator is formed too early. A pattern like this is *delimitable*, and it is read back from
the text of `REGEXP_MATCH` as it was.

Any other pattern is lost. The text then has no token that could be the pattern: those before the
quotation hold neither quotes nor backslashes, and behind the place where the quotation ends too
early there is not enough text left, with one closing parenthesis too many.
-/

namespace RecordQuery

open Reader Text

/-! ## Delimitable patterns -/

namespace Text

/-- How many backslashes a text ends with. -/
def backslashes (text : List Char) : Nat := (text.rtakeWhile (· = '\\')).length

/-- Whether a text ends where its quotation without escapes does. A block stands around a text that
holds quotes of both sorts. -/
def IsDelimitable (text : List Char) : Prop :=
  if '\'' ∈ text ∧ '"' ∈ text then ¬ ['>', '>', '>'] <:+: text ∧ text.getLast? ≠ some '>'
  else Even (backslashes text)

instance : DecidablePred IsDelimitable := fun text => inferInstanceAs (Decidable
  (if '\'' ∈ text ∧ '"' ∈ text then ¬ ['>', '>', '>'] <:+: text ∧ text.getLast? ≠ some '>'
  else Even (backslashes text)))

/-- A character in front adds to the backslashes at the end only if there is nothing else. -/
lemma backslashes_cons (c : Char) (text : List Char) :
    backslashes (c :: text) =
      if backslashes text = text.length then text.length + (if c = '\\' then 1 else 0)
      else backslashes text := by
  simp only [backslashes, List.rtakeWhile, List.reverse_cons, List.takeWhile_append,
    List.length_reverse]
  split
  · by_cases hc : c = '\\' <;> simp [hc]
  · rfl

/-- A text has no more backslashes at its end than characters. -/
lemma backslashes_le (text : List Char) : backslashes text ≤ text.length := by
  exact (List.rtakeWhile_suffix _ text).length_le

/-- A backslash and the character it takes with it do not count. -/
lemma even_backslashes_pair (c : Char) (text : List Char) :
    Even (backslashes ('\\' :: c :: text)) ↔ Even (backslashes text) := by
  have hle := backslashes_le text
  rw [backslashes_cons, backslashes_cons c, List.length_cons, if_pos rfl]
  simp only [Nat.even_iff]
  split_ifs <;> omega

/-- Another character in front does not change whether backslashes at the end come in pairs. -/
lemma even_backslashes_cons {c : Char} (hc : c ≠ '\\') (text : List Char) :
    Even (backslashes (c :: text)) ↔ Even (backslashes text) := by
  rw [backslashes_cons, if_neg hc]
  split_ifs with h
  · rw [h, Nat.add_zero]
  · rfl

end Text

namespace Lexeme

/-- A text without a quote is closed by it, unless the last backslash of the text is left over. -/
lemma quotedPiece_of_even {quote : Char} (hquote : quote ≠ '\\') {text : List Char}
    (h : quote ∉ text) (heven : Even (backslashes text)) (rest : List Char) :
    quotedPiece quote (text ++ quote :: rest) = ⟨text, true, rest⟩ := by
  fun_induction quotedPiece quote text with
  | case1 =>
    rw [List.nil_append, quotedPiece, if_pos rfl]
    exact fun _ _ h _ => hquote h
  | case2 c text ih =>
    simp only [List.mem_cons, not_or] at h
    rw [List.cons_append, List.cons_append, quotedPiece,
      ih h.2.2 ((even_backslashes_pair c text).mp heven)]
    rfl
  | case3 text => simp at h
  | case4 c text hescape hc ih =>
    have hbackslash : c ≠ '\\' := by
      rintro rfl
      cases text with
      | nil => exact absurd heven (by decide)
      | cons d text => exact hescape d text rfl rfl
    rw [List.cons_append, quotedPiece, if_neg hc, ih (List.not_mem_of_not_mem_cons h)
      ((even_backslashes_cons hbackslash text).mp heven)]
    · rfl
    · exact fun _ _ h _ => hbackslash h

/-- A backslash that is left over takes the closing quote with it. -/
lemma quotedPiece_of_not_even {quote : Char} {text : List Char} (h : quote ∉ text)
    (hodd : ¬ Even (backslashes text)) (rest : List Char) :
    quotedPiece quote (text ++ quote :: rest) =
      { quotedPiece quote rest with body := text ++ quote :: (quotedPiece quote rest).body } := by
  fun_induction quotedPiece quote text with
  | case1 => exact absurd (by decide) hodd
  | case2 c text ih =>
    simp only [List.mem_cons, not_or] at h
    rw [List.cons_append, List.cons_append, quotedPiece,
      ih h.2.2 (mt (even_backslashes_pair c text).mpr hodd)]
    rfl
  | case3 text => simp at h
  | case4 c text hescape hc ih =>
    by_cases hbackslash : c = '\\'
    · subst hbackslash
      cases text with
      | nil => rfl
      | cons d text => exact (hescape d text rfl rfl).elim
    · rw [List.cons_append, quotedPiece, if_neg hc, ih (List.not_mem_of_not_mem_cons h)
        (mt (even_backslashes_cons hbackslash text).mpr hodd)]
      · rfl
      · exact fun _ _ h _ => hbackslash h

/-- A block ends at the first terminator. -/
lemma blockPiece_of_terminator (before after : List Char) :
    (blockPiece (before ++ '>' :: '>' :: '>' :: after)).closed = true ∧
      (blockPiece (before ++ '>' :: '>' :: '>' :: after)).body.length ≤ before.length := by
  induction before with
  | nil => exact ⟨rfl, Nat.le_refl 0⟩
  | cons c before ih =>
    rw [List.cons_append, blockPiece]
    split
    · exact ⟨rfl, Nat.zero_le _⟩
    · exact ⟨ih.1, Nat.succ_le_succ ih.2⟩

/-- A text that forms a terminator too early is not all that its block holds. -/
lemma blockPiece_of_not_delimited {text : List Char}
    (h : ¬ (¬ ['>', '>', '>'] <:+: text ∧ text.getLast? ≠ some '>')) (rest : List Char) :
    (blockPiece (text ++ '>' :: '>' :: '>' :: rest)).closed = true ∧
      (blockPiece (text ++ '>' :: '>' :: '>' :: rest)).body.length < text.length := by
  rw [not_and_or, not_not, not_not] at h
  obtain ⟨before, after, rfl⟩ | h := h
  · obtain ⟨hclosed, hlength⟩ :=
      blockPiece_of_terminator before (after ++ '>' :: '>' :: '>' :: rest)
    simp only [List.append_assoc, List.cons_append, List.nil_append, List.length_append,
      List.length_cons]
    exact ⟨hclosed, by omega⟩
  · obtain ⟨before, rfl⟩ := List.getLast?_eq_some_iff.mp h
    obtain ⟨hclosed, hlength⟩ := blockPiece_of_terminator before ('>' :: rest)
    simp only [List.append_assoc, List.cons_append, List.nil_append, List.length_append,
      List.length_cons]
    exact ⟨hclosed, by simpa using Nat.lt_succ_of_le hlength⟩

end Lexeme

namespace Text

open Lexeme

/-- A delimitable pattern ends where its quotation ends. -/
lemma IsDelimitable.isClosedPattern {text : List Char} (h : IsDelimitable text) :
    isClosedPattern text = true := by
  unfold IsDelimitable at h
  unfold Text.isClosedPattern
  by_cases hsingle : '\'' ∈ text
  · by_cases hdouble : '"' ∈ text
    · rw [if_pos ⟨hsingle, hdouble⟩] at h
      have hoccurs : occursIn ">>>".toList text = false := by
        rw [← Bool.not_eq_true, occursIn_iff]
        exact h.1
      simp [hsingle, hdouble, blockPiece_of_not_occursIn hoccurs h.2 []]
    · rw [if_neg fun hboth => hdouble hboth.2] at h
      simp [hsingle, hdouble, quotedPiece_of_even (by decide) hdouble h []]
  · rw [if_neg fun hboth => hsingle hboth.1] at h
    simp [hsingle, quotedPiece_of_even (by decide) hsingle h []]

/-- A pattern that is not delimitable holds a backslash or a quote. -/
lemma mem_of_not_isDelimitable {text : List Char} (h : ¬ IsDelimitable text) :
    '\\' ∈ text ∨ '\'' ∈ text := by
  unfold IsDelimitable at h
  split at h
  · rename_i hquotes
    exact .inr hquotes.1
  · refine .inl ?_
    by_contra hnone
    refine h ?_
    have hnil : text.rtakeWhile (· = '\\') = [] := by
      rw [List.rtakeWhile_eq_nil_iff]
      intro hne hlast
      exact hnone (of_decide_eq_true hlast ▸ List.getLast_mem hne)
    rw [backslashes, hnil]
    exact Even.zero

/-- Only backslashes are taken out with the escapes. -/
lemma count_unescape {c : Char} (hc : c ≠ '\\') (closing : Char) (text : List Char) :
    (unescape closing text).count c = text.count c := by
  fun_induction unescape closing text with
  | case1 d rest _ ih => simp [List.count_cons, ih, Ne.symm hc]
  | case2 d rest _ ih => simp [List.count_cons, ih]
  | case3 d rest _ ih => simp [List.count_cons, ih]
  | case4 => rfl

/-- Taking escapes back makes no text longer. -/
lemma length_unescape_le (closing : Char) (text : List Char) :
    (unescape closing text).length ≤ text.length := by
  fun_induction unescape closing text with
  | case1 d rest _ ih => simp only [List.length_cons]; omega
  | case2 d rest _ ih => simp only [List.length_cons]; omega
  | case3 d rest _ ih => simp only [List.length_cons]; omega
  | case4 => exact Nat.le_refl 0

end Text

/-! ## What a text of lexemes can come to -/

namespace Lexeme

/-- Whether the token of a lexeme can be read as a string, wherever it stands. -/
def StandsFor (lexeme : Lexeme) (s : String) : Prop :=
  ∃ id source span token, Token.ofLexeme? id source span lexeme = some token ∧
    (token.kind = .word ∨ token.kind = .literal ∨ token.kind = .blob) ∧ token.text = s

/-- No keyword holds a backslash or a quote. -/
lemma notMem_keyword (kind : Kind) : '\\' ∉ kind.keyword.toList ∧ '\'' ∉ kind.keyword.toList := by
  cases kind <;> decide +kernel

/-- A string with a backslash or a quote can only be read from a quotation, which holds at least as
many characters, and as many parentheses. -/
lemma StandsFor.quotation {lexeme : Lexeme} {s : String} (h : lexeme.StandsFor s)
    (hregular : lexeme.IsRegular) (hs : '\\' ∈ s.toList ∨ '\'' ∈ s.toList) :
    (∃ quote body closed, lexeme = .quoted quote body closed ∧
        s.toList.length ≤ body.length ∧ s.toList.count ')' = body.count ')') ∨
      ∃ closed, lexeme = .block s.toList closed := by
  obtain ⟨id, source, span, token, htoken, hkind, rfl⟩ := h
  cases lexeme with
  | blank | opening | closing => cases htoken
  | delimiter c => cases htoken; simp at hkind
  | bracketed body closed => cases htoken; simp at hkind
  | block body closed =>
    cases htoken
    exact .inr ⟨closed, by rw [String.toList_ofList]⟩
  | quoted quote body closed =>
    refine .inl ⟨quote, body, closed, rfl, ?_⟩
    cases htoken
    unfold Token.ofQuoted
    split
    · simp
    · rw [String.toList_ofList]
      exact ⟨length_unescape_le quote body, count_unescape (by decide) quote body⟩
  | run kind chars =>
    cases kind with
    | other => cases htoken; simp at hkind
    | symbol =>
      cases htoken
      unfold Token.ofWord at hkind
      split at hkind <;> simp at hkind
    | word =>
      -- no word holds a backslash or a quotation mark
      exfalso
      cases htoken
      unfold Token.ofWord at hs
      split at hs
      · rename_i rule hrule
        rw [Token.eq_of_ofKeyword? hrule] at hs
        exact hs.elim (notMem_keyword rule).1 (notMem_keyword rule).2
      · rw [String.toList_ofList] at hs
        have hword : ∀ c ∈ chars, isWordChar c = true := by
          intro c hc
          obtain ⟨rest, hlead⟩ := hregular.2 c hc
          exact (leads_of_lead hlead).2.2.2 rfl
        obtain hs | hs := hs
        · exact absurd (hword _ hs) (by decide +kernel)
        · exact absurd (hword _ hs) (by decide +kernel)

/-- Every lexeme is a part of the text. -/
lemma source_infix_of_mem_scan {text : List Char} {lexeme : Lexeme} (h : lexeme ∈ scan text) :
    lexeme.source <:+: text := by
  obtain ⟨before, after, hsplit⟩ := List.mem_iff_append.mp h
  rw [← flatMap_source_scan text, hsplit, List.flatMap_append, List.flatMap_cons]
  exact ⟨_, _, (List.append_assoc ..)⟩

/-- A closing quote that is taken for a part of the pattern leaves nothing behind. -/
lemma scan_leftover {quote : Char} (hquote : quote = '\'' ∨ quote = '"') {text : List Char}
    (h : quote ∉ text) (hodd : ¬ Even (backslashes text)) :
    scan (quote :: (text ++ [quote, ')'])) = [.quoted quote (text ++ [quote, ')']) false] := by
  have hlead : lead quote (text ++ [quote, ')']) = .quote := by
    obtain rfl | rfl := hquote <;> rfl
  have hpiece : quotedPiece quote [')'] = ⟨[')'], false, []⟩ := by
    obtain rfl | rfl := hquote <;> rfl
  rw [scan_cons, hlead]
  dsimp only
  rw [quotedPiece_of_not_even h hodd, hpiece, scan_nil]

/-- Three opening signs begin a block. -/
lemma scan_block (text : List Char) :
    scan ('<' :: '<' :: '<' :: text) =
      .block (blockPiece text).body (blockPiece text).closed :: scan (blockPiece text).rest := by
  have hlead : lead '<' ('<' :: '<' :: text) = .block := rfl
  rw [scan_cons, hlead]
  rfl

/-- Behind a block that ends too early there is no room for the pattern. -/
lemma not_standsFor_of_block {s : String} (hs : '\\' ∈ s.toList ∨ '\'' ∈ s.toList)
    (h : ¬ (¬ ['>', '>', '>'] <:+: s.toList ∧ s.toList.getLast? ≠ some '>')) {lexeme : Lexeme}
    (hlexeme : lexeme ∈ scan (Text.block s.toList ++ [')'])) : ¬ lexeme.StandsFor s := by
  have htext : Text.block s.toList ++ [')'] =
      '<' :: '<' :: '<' :: (s.toList ++ '>' :: '>' :: '>' :: [')']) := by simp [Text.block]
  obtain ⟨hclosed, hshort⟩ := blockPiece_of_not_delimited h [')']
  have hsource := source_blockPiece (s.toList ++ '>' :: '>' :: '>' :: [')'])
  rw [htext, scan_block] at hlexeme
  generalize blockPiece (s.toList ++ '>' :: '>' :: '>' :: [')']) = piece
    at hclosed hshort hsource hlexeme
  rw [Piece.source, hclosed, terminator, if_pos rfl] at hsource
  -- One closing parenthesis more than the pattern holds is left, but no more characters than that.
  have hcount : piece.body.count ')' + piece.rest.count ')' = s.toList.count ')' + 1 := by
    have := congrArg (List.count ')') hsource
    rwa [List.count_append, List.count_append, List.count_append] at this
  have hlength : piece.body.length + piece.rest.length = s.toList.length + 1 := by
    have := congrArg List.length hsource
    simp only [List.length_append, List.length_cons, List.length_nil] at this
    omega
  intro hstands
  obtain rfl | hrest := List.mem_cons.mp hlexeme
  · obtain ⟨quote, body, closed, heq, -⟩ | ⟨closed, heq⟩ := hstands.quotation trivial hs
    · cases heq
    · simp only [Lexeme.block.injEq] at heq
      rw [heq.1] at hshort
      exact Nat.lt_irrefl _ hshort
  have hinfix := source_infix_of_mem_scan hrest
  have hregular := isRegular_of_mem_scan hrest
  obtain ⟨quote, body, closed, rfl, hbody, hparentheses⟩ | ⟨closed, rfl⟩ :=
    hstands.quotation hregular hs
  · have hquote : quote ≠ ')' := by obtain rfl | rfl := hregular <;> decide
    have hsize : (quoted quote body closed).source.length =
        body.length + 1 + (terminator closed [quote]).length := by simp [source]; omega
    have hwhole := hinfix.eq_of_length_le (by omega)
    have hclose : (terminator closed [quote]).count ')' = 0 := by
      unfold terminator
      split <;> simp [hquote]
    have hsame : (quoted quote body closed).source.count ')' = body.count ')' := by
      simp [source, hquote, hclose]
    have hnil : piece.body = [] := by
      have := hinfix.length_le
      exact List.eq_nil_of_length_eq_zero (by omega)
    rw [hwhole] at hsame
    rw [hnil, List.count_nil] at hcount
    omega
  · have := hinfix.length_le
    simp only [source, List.length_append, List.length_cons] at this
    omega

/-- No token of a quotation that is not closed where the pattern ends can be the pattern. -/
lemma not_standsFor_of_quoteVerbatim {s : String} (h : ¬ IsDelimitable s.toList) {lexeme : Lexeme}
    (hlexeme : lexeme ∈ scan (quoteVerbatimChars s.toList ++ [')'])) : ¬ lexeme.StandsFor s := by
  have hs := mem_of_not_isDelimitable h
  have hleftover : ∀ quote, quote = '\'' ∨ quote = '"' → quote ∉ s.toList →
      quoteVerbatimChars s.toList = between quote s.toList → ¬ Even (backslashes s.toList) →
      ¬ lexeme.StandsFor s := by
    intro quote hquote hnone hform hodd hstands
    rw [hform, between, List.append_assoc, List.cons_append, List.singleton_append,
      scan_leftover hquote hnone hodd, List.mem_singleton] at hlexeme
    subst hlexeme
    have hregular : (quoted quote (s.toList ++ [quote, ')']) false).IsRegular := hquote.symm
    obtain ⟨_, _, _, heq, -, hparentheses⟩ | ⟨_, heq⟩ := hstands.quotation hregular hs
    · cases heq
      rw [List.count_append, List.count_cons, List.count_singleton_self] at hparentheses
      omega
    · cases heq
  unfold IsDelimitable at h
  by_cases hsingle : '\'' ∈ s.toList
  · by_cases hdouble : '"' ∈ s.toList
    · rw [if_pos ⟨hsingle, hdouble⟩] at h
      have hform : quoteVerbatimChars s.toList = Text.block s.toList := by
        simp [quoteVerbatimChars, hsingle, hdouble]
      rw [hform] at hlexeme
      exact not_standsFor_of_block hs h hlexeme
    · rw [if_neg fun hboth => hdouble hboth.2] at h
      exact hleftover '"' (.inr rfl) hdouble (by simp [quoteVerbatimChars, hsingle, hdouble]) h
  · rw [if_neg fun hboth => hsingle hboth.1] at h
    exact hleftover '\'' (.inl rfl) hsingle (by simp [quoteVerbatimChars, hsingle]) h

end Lexeme

/-- The vocabulary without a string. -/
def Vocabulary.without (s : String) : Vocabulary where
  ref _ := True
  scalar v := v.value ≠ .string s
  name _ := True

/-- A text has no string that none of its lexemes can be read as. -/
lemma TokenForest.allOf_covers_without {text s : String} {ceilings : Ceilings}
    {forest : TokenForest} (hs : '\\' ∈ s.toList ∨ '\'' ∈ s.toList)
    (hlexemes : ∀ lexeme ∈ Lexeme.scan (text.toList.map straightenChar), ¬ lexeme.StandsFor s)
    (h : ofText text ceilings = .ok forest) :
    TokenTree.AllOf ((Vocabulary.without s).Covers .empty) forest.merge.trees := by
  let P : Token → Prop := fun token =>
    token.kind = .word ∨ token.kind = .literal ∨ token.kind = .blob → token.text ≠ s
  have htokens : TokenTree.AllOf P forest.merge.trees := by
    refine TokenTree.AllOf.mergeAll (fun t kind span _ _ => ?_) _
      (allOf_trees h (fun lexeme hlexeme id span t ht hkind htext => ?_) (fun id offset hkind => ?_)
        fun t stop ht => ht)
    · rintro rfl
      exact hs.elim (Lexeme.notMem_keyword kind).1 (Lexeme.notMem_keyword kind).2
    · exact hlexemes lexeme hlexeme ⟨id, _, span, t, ht, hkind, htext⟩
    · simp [Token.group] at hkind
  rw [TokenTree.allOf_iff_reachable] at htokens ⊢
  intro token htoken
  refine ⟨fun _ => ⟨trivial, trivial⟩, fun hkind => ?_, fun _ => trivial⟩
  intro hvalue
  rw [ScalarValue.resolveNames_empty] at hvalue
  exact htokens token htoken hkind (ScalarValue.eq_of_infer_string hvalue).1.symm

/-! ## Conditions on patterns -/

/-- The condition that a property matches a pattern. -/
def Operator.isMatch (id s : String) : Operator :=
  ⟨.regexpMatch, some (.ofId id), [.value (.ofString s)], none⟩

namespace Query

open Operator Sketch

/-- The text of a condition on a pattern. -/
lemma toList_render_isMatch {id : String} (hid : (PropertyRef.ofId id).isPlain .empty = true)
    (s : String) :
    ((isMatch id s).render .empty).toList =
      Kind.regexpMatch.keyword.toList ++ '(' ::
      (((PropertyRef.ofId id).writtenText .empty).toList ++
        ',' :: ' ' :: (quoteVerbatimChars s.toList ++ [')'])) := by
  have hrender : (isMatch id s).render .empty =
      Kind.regexpMatch.keyword ++ "(" ++
        commaList [(PropertyRef.ofId id).render .empty, quoteVerbatim s] ++ ")" :=
    render_function rfl (by decide) (.ofId id) [.ofString s] none
  have hpair : ∀ a b : String, (commaList [a, b]).toList = a.toList ++ ',' :: ' ' :: b.toList := by
    intro a b
    simp [commaList]
  rw [hrender, PropertyRef.render, if_pos hid, String.toList_append, String.toList_append,
    String.toList_append, hpair]
  simp [quoteVerbatim]

/-- The lexemes before the pattern. -/
lemma scan_isMatch {id : String} (hid : (PropertyRef.ofId id).isPlain .empty = true) (s : String) :
    Lexeme.scan ((isMatch id s).render .empty).toList =
      .run .word Kind.regexpMatch.keyword.toList :: .opening ::
        .run .word ((PropertyRef.ofId id).writtenText .empty).toList :: .delimiter ',' ::
        .blank ' ' ::
          Lexeme.scan (quoteVerbatimChars s.toList ++ [')']) := by
  have hword := PropertyRef.isFreeWord_of_isPlain hid
  rw [toList_render_isMatch hid, Kind.scan_keyword (by decide +kernel) (.opening _),
    Lexeme.scan_opening, Lexeme.scan_word hword.nonempty hword.plain (.comma _), Lexeme.scan_comma,
    Lexeme.scan_blank]
  rfl

/-- A pattern that is not delimitable is in no condition that the text is read as. -/
lemma not_denotes_isMatch {id s : String} (hid : (PropertyRef.ofId id).isPlain .empty = true)
    (hs : IsStraight s.toList) (h : ¬ IsDelimitable s.toList) (ceilings : Ceilings) :
    ¬ Denotes ((isMatch id s).render .empty) .empty ceilings (isMatch id s) := by
  intro hdenotes
  have hmem := mem_of_not_isDelimitable h
  have hstraight : IsStraight ((isMatch id s).render .empty).toList := by
    have hp := (PropertyRef.isWritable_of_isPlain hid).isStraight
    intro c hc
    rw [toList_render_isMatch hid] at hc
    simp only [List.mem_append, List.mem_cons, List.not_mem_nil, or_false] at hc
    obtain hc | rfl | hc | rfl | rfl | hc | rfl := hc
    · exact Kind.regexpMatch.isStraight_keyword c hc
    · rfl
    · exact hp c hc
    · rfl
    · rfl
    · exact hs.quoteVerbatimChars c hc
    · rfl
  have hlexemes : ∀ lexeme ∈ Lexeme.scan
      (((isMatch id s).render .empty).toList.map straightenChar), ¬ lexeme.StandsFor s := by
    rw [hstraight.map_eq]
    intro lexeme hlexeme hstands
    have hregular := Lexeme.isRegular_of_mem_scan hlexeme
    rw [scan_isMatch hid] at hlexeme
    obtain ⟨_, _, _, rfl, -⟩ | ⟨_, rfl⟩ := hstands.quotation hregular hmem
    all_goals
      simp only [List.mem_cons, reduceCtorEq, false_or] at hlexeme
      exact Lexeme.not_standsFor_of_quoteVerbatim h hlexeme hstands
  obtain ⟨w, hvalue, hw⟩ := hdenotes.exists_scalar
    (fun _ hforest => TokenForest.allOf_covers_without hmem hlexemes hforest) rfl
    (List.mem_singleton_self (ScalarValue.ofString s))
  exact hw hvalue

/-- A condition on a pattern is read back from its text, exactly if the pattern is delimitable and
no quote in it is typographic. -/
theorem denotes_isMatch_iff {id : String} (hid : (PropertyRef.ofId id).isPlain .empty = true)
    (s : String) :
    Denotes ((isMatch id s).render .empty) .empty {} (isMatch id s) ↔
      IsStraight s.toList ∧ IsDelimitable s.toList := by
  refine ⟨fun h => ?_, fun ⟨hstraight, hdelimitable⟩ => ?_⟩
  · have hstraight := h.isStraight rfl (List.mem_singleton_self _)
    exact ⟨hstraight, by_contra fun hnot => not_denotes_isMatch hid hstraight hnot {} h⟩
  · have hp := PropertyRef.isWritable_of_isPlain hid
    have hpattern : ∀ v ∈ [ScalarValue.ofString s], v.IsPattern .empty := by
      rintro v hv
      obtain rfl := List.mem_singleton.mp hv
      exact ⟨rfl, hstraight, hdelimitable.isClosedPattern⟩
    obtain ⟨sketches, hsketched⟩ : ∃ sketches, (isMatch id s).IsSketchedAs
        (.of ((isMatch id s).render .empty) .empty {}) (fun _ => True) sketches :=
      @isSketchedAs_function (.of _ .empty {}) (fun _ => True) _ _ [.ofString s] none rfl
        (by decide) hp rfl (absurd rfl) fun _ => hpattern
    have hwrites : Writes (fun _ => True) 1 ((isMatch id s).render .empty) sketches :=
      hsketched.writes
    obtain ⟨r, hstart, hbegins⟩ := @Reading.exists_begins_of_writes _ .empty {} _ _ _ hwrites
      (fun _ _ => trivial) (by decide)
    have hpaced : (isMatch id s).Everywhere (Paced ({} : Ceilings).steps) :=
      ⟨⟨by change 1 ≤ _; decide, by change 2 ≤ _; decide⟩, trivial⟩
    exact denotes_of_begins hsketched hstart hbegins rfl hpaced rfl

/-- A pattern with quotes of both sorts, and one that ends with a backslash. -/
theorem denotes_isMatch_iff_sample :
    Denotes ((isMatch "p" "it's \"x\"").render .empty) .empty {} (isMatch "p" "it's \"x\"") ∧
      ¬ Denotes ((isMatch "p" "it's \"x\">").render .empty) .empty {} (isMatch "p" "it's \"x\">") ∧
        ¬ Denotes ((isMatch "p" "a\\").render .empty) .empty {} (isMatch "p" "a\\") := by
  have hp : (PropertyRef.ofId "p").isPlain .empty = true := by decide +kernel
  refine ⟨(denotes_isMatch_iff hp _).mpr ⟨by decide, by decide⟩, fun h => ?_, fun h => ?_⟩
  · exact absurd ((denotes_isMatch_iff hp _).mp h).2 (by decide)
  · exact absurd ((denotes_isMatch_iff hp _).mp h).2 (by decide)

end Query

end RecordQuery
