import RecordQuery.Proofs.Scanning

/-!
# Quoted texts

A text that is quoted and read again is the text it was. Where escapes are taken out this holds of
all texts. Where quotations are taken as they stand it holds of those that need no escapes, and of
patterns unless they end in the middle of an escape or of a terminator.
-/

namespace RecordQuery

namespace Text

/-! ## Escapes -/

/-- A backslash is put before every backslash and every closing quote. -/
lemma escape_cons (closing c : Char) (text : List Char) :
    escape closing (c :: text) =
      (if c = '\\' ∨ c = closing then ['\\', c] else [c]) ++ escape closing text := by
  rw [escape, escape, List.flatMap_cons]

/-- Escapes are taken back. -/
lemma unescape_escape (closing : Char) (text : List Char) :
    unescape closing (escape closing text) = text := by
  induction text with
  | nil => rfl
  | cons c text ih =>
    rw [escape_cons]
    split
    · rename_i hc
      rw [List.cons_append, List.cons_append, List.nil_append, unescape, if_pos hc.symm, ih]
    · rename_i hc
      rw [not_or] at hc
      rw [List.singleton_append, unescape, ih]
      rintro d rest rfl -
      exact hc.1 rfl

/-- Taking escapes out adds no characters. -/
lemma mem_of_mem_unescape {closing c : Char} {text : List Char} (h : c ∈ unescape closing text) :
    c ∈ text := by
  fun_induction unescape closing text with
  | case1 d rest _ ih =>
    obtain rfl | h := List.mem_cons.mp h
    · simp
    · exact List.mem_cons_of_mem _ (List.mem_cons_of_mem _ (ih h))
  | case2 d rest _ ih =>
    obtain rfl | h := List.mem_cons.mp h
    · simp
    obtain rfl | h := List.mem_cons.mp h
    · simp
    · exact List.mem_cons_of_mem _ (List.mem_cons_of_mem _ (ih h))
  | case3 d rest _ ih =>
    obtain rfl | h := List.mem_cons.mp h
    · simp
    · exact List.mem_cons_of_mem _ (ih h)
  | case4 => cases h

end Text

namespace Lexeme

open Text

/-- An escaped text is closed by the quote behind it, and not before. -/
lemma quotedPiece_escape {quote : Char} (hquote : quote ≠ '\\') (text rest : List Char) :
    quotedPiece quote (escape quote text ++ quote :: rest) = ⟨escape quote text, true, rest⟩ := by
  induction text with
  | nil =>
    have hend : ∀ d tail, quote = '\\' → rest = d :: tail → False := fun _ _ h _ => hquote h
    show quotedPiece quote (quote :: rest) = ⟨[], true, rest⟩
    rw [quotedPiece, if_pos rfl]
    exact hend
  | cons c text ih =>
    rw [escape_cons]
    split
    · show quotedPiece quote ('\\' :: c :: (escape quote text ++ quote :: rest)) = _
      rw [quotedPiece, ih]
      rfl
    · rename_i hc
      rw [not_or] at hc
      rw [List.singleton_append, List.cons_append, quotedPiece, if_neg hc.2, ih]
      · rfl
      · rintro d tail rfl -
        exact hc.1 rfl

/-- A piece that is closed is not changed by what follows. -/
lemma quotedPiece_append {quote : Char} (hquote : quote ≠ '\\') (text rest : List Char)
    (h : (quotedPiece quote text).closed = true) :
    quotedPiece quote (text ++ rest) =
      { quotedPiece quote text with rest := (quotedPiece quote text).rest ++ rest } := by
  fun_induction quotedPiece quote text with
  | case1 => cases h
  | case2 c text ih =>
    rw [List.cons_append, List.cons_append, quotedPiece, ih h]
    rfl
  | case3 text =>
    rw [List.cons_append, quotedPiece, if_pos rfl]
    exact fun _ _ h _ => hquote h
  | case4 c text hescape hc ih =>
    have hbackslash : c ≠ '\\' := by
      rintro rfl
      cases text with
      | nil => cases h
      | cons d text => exact hescape d text rfl rfl
    rw [List.cons_append, quotedPiece, if_neg hc, ih h]
    · rfl
    · exact fun _ _ h _ => hbackslash h

/-- A block that is closed has its three closing signs at least. -/
lemma length_of_blockPiece_closed (text : List Char) (h : (blockPiece text).closed = true) :
    3 ≤ text.length := by
  fun_induction blockPiece text with
  | case1 => cases h
  | case2 c text hstart =>
    have := (List.isPrefixOf_iff_prefix.mp hstart).length_le
    simpa using this
  | case3 c text hstart ih =>
    have := ih h
    rw [List.length_cons]
    omega

/-- A block that is closed is not changed by what follows. -/
lemma blockPiece_append (text rest : List Char) (h : (blockPiece text).closed = true) :
    blockPiece (text ++ rest) =
      { blockPiece text with rest := (blockPiece text).rest ++ rest } := by
  fun_induction blockPiece text with
  | case1 => cases h
  | case2 c text hstart =>
    have hlong : ['>', '>', '>'] <+: c :: (text ++ rest) :=
      (List.isPrefixOf_iff_prefix.mp hstart).trans (List.prefix_append (c :: text) rest)
    have hlength := (List.isPrefixOf_iff_prefix.mp hstart).length_le
    rw [List.cons_append, blockPiece, if_pos (List.isPrefixOf_iff_prefix.mpr hlong)]
    rw [List.drop_append_of_le_length (by simp at hlength; omega)]
  | case3 c text hstart ih =>
    have hlength := length_of_blockPiece_closed text h
    have hshort : ¬ ['>', '>', '>'].isPrefixOf (c :: (text ++ rest)) = true := by
      rw [List.isPrefixOf_iff_prefix] at hstart ⊢
      refine fun hlong => hstart ?_
      rw [← List.cons_append] at hlong
      exact List.prefix_of_prefix_length_le hlong (List.prefix_append (c :: text) rest)
        (by simp; omega)
    rw [List.cons_append, blockPiece, if_neg hshort, ih h]
    rfl

/-- Text without three closing angle brackets, and none at its end, is a block. -/
lemma blockPiece_of_not_occursIn {text : List Char} (h : occursIn ">>>".toList text = false)
    (hlast : text.getLast? ≠ some '>') (rest : List Char) :
    blockPiece (text ++ '>' :: '>' :: '>' :: rest) = ⟨text, true, rest⟩ := by
  induction text with
  | nil => rfl
  | cons c text ih =>
    rw [occursIn, Bool.or_eq_false_iff] at h
    have hnext : text.getLast? ≠ some '>' := by
      cases text with
      | nil => simp
      | cons d text => simpa using hlast
    have hstart :
        ['>', '>', '>'].isPrefixOf (c :: (text ++ '>' :: '>' :: '>' :: rest)) = false := by
      rcases text with _ | ⟨d, _ | ⟨e, text⟩⟩
      · simp at hlast
        simp [List.isPrefixOf, Ne.symm hlast]
      · simp at hlast
        simp [List.isPrefixOf, Ne.symm hlast]
      · simpa [List.isPrefixOf] using h.1
    rw [List.cons_append, blockPiece, if_neg (by simp [hstart]), ih h.2 hnext]
    rfl

end Lexeme

namespace Text

open Lexeme

/-! ## Quotations -/

/-- The quotation that a text is written as. -/
def quotation (text : List Char) : Lexeme :=
  if !text.contains '\'' then .quoted '\'' (escape '\'' text) true
  else if !text.contains '"' then .quoted '"' (escape '"' text) true
  else if !occursIn ">>>".toList text && text.getLast? != some '>' then .block text true
  else .quoted '\'' (escape '\'' text) true

@[simp] lemma source_quotation (text : List Char) : (quotation text).source = quoteChars text := by
  unfold quotation quoteChars
  split
  · rfl
  · split
    · rfl
    · split <;> rfl

/-- The quotation of a text is closed where it ends. -/
lemma closes_quotation (text : List Char) : (quotation text).Closes := by
  unfold quotation
  split
  · exact ⟨rfl, .inl rfl, quotedPiece_escape (by decide) text⟩
  · split
    · exact ⟨rfl, .inr rfl, quotedPiece_escape (by decide) text⟩
    · split
      · rename_i h
        simp only [Bool.and_eq_true, Bool.not_eq_true', bne_iff_ne] at h
        exact ⟨rfl, blockPiece_of_not_occursIn h.1 h.2⟩
      · exact ⟨rfl, .inl rfl, quotedPiece_escape (by decide) text⟩

@[simp] lemma literal_quotation (text : List Char) : (quotation text).literal = text := by
  unfold quotation
  split
  · exact unescape_escape _ text
  · split
    · exact unescape_escape _ text
    · split
      · rfl
      · exact unescape_escape _ text

/-- Whether a text is quoted without escapes. -/
def isQuotedPlainly (text : List Char) : Bool := quoteChars text == quoteVerbatimChars text

/-- A text that is quoted without escapes stands for itself. -/
lemma verbatim_quotation {text : List Char} (h : isQuotedPlainly text = true) :
    (quotation text).verbatim = text := by
  have between_inj : ∀ {quote : Char} {a b : List Char}, between quote a = between quote b →
      a = b := by
    intro quote a b h
    simpa [between] using h
  simp only [isQuotedPlainly, beq_iff_eq, quoteChars, quoteVerbatimChars] at h
  unfold quotation
  split
  · rename_i hsingle
    rw [if_pos hsingle, if_pos hsingle] at h
    exact between_inj h
  · rename_i hsingle
    rw [if_neg hsingle, if_neg hsingle] at h
    split
    · rename_i hdouble
      rw [if_pos hdouble, if_pos hdouble] at h
      exact between_inj h
    · rename_i hdouble
      rw [if_neg hdouble, if_neg hdouble] at h
      split
      · rfl
      · rename_i hblock
        rw [if_neg hblock] at h
        cases h

/-! ## Patterns -/

/-- The quotation that a pattern is written as. -/
def patternQuotation (text : List Char) : Lexeme :=
  if !text.contains '\'' then .quoted '\'' text true
  else if !text.contains '"' then .quoted '"' text true
  else .block text true

@[simp] lemma source_patternQuotation (text : List Char) :
    (patternQuotation text).source = quoteVerbatimChars text := by
  unfold patternQuotation quoteVerbatimChars
  split
  · rfl
  · split <;> rfl

@[simp] lemma verbatim_patternQuotation (text : List Char) :
    (patternQuotation text).verbatim = text := by
  unfold patternQuotation
  split
  · rfl
  · split <;> rfl

/-- Whether a pattern ends where its quotation ends. -/
def isClosedPattern (text : List Char) : Bool :=
  if !text.contains '\'' then quotedPiece '\'' (text ++ ['\'']) == ⟨text, true, []⟩
  else if !text.contains '"' then quotedPiece '"' (text ++ ['"']) == ⟨text, true, []⟩
  else blockPiece (text ++ ['>', '>', '>']) == ⟨text, true, []⟩

/-- The quotation of a pattern is closed where it ends, if it is one that can be closed. -/
lemma closes_patternQuotation {text : List Char} (h : isClosedPattern text = true) :
    (patternQuotation text).Closes := by
  have quoted : ∀ {quote : Char}, quote ≠ '\\' →
      quotedPiece quote (text ++ [quote]) = ⟨text, true, []⟩ →
      ∀ rest, quotedPiece quote (text ++ quote :: rest) = ⟨text, true, rest⟩ := by
    intro quote hquote h rest
    have := quotedPiece_append hquote (text ++ [quote]) rest (by rw [h])
    rw [List.append_assoc, List.singleton_append, h] at this
    exact this
  unfold isClosedPattern at h
  unfold patternQuotation
  split
  · rename_i hsingle
    rw [if_pos hsingle, beq_iff_eq] at h
    exact ⟨rfl, .inl rfl, quoted (by decide) h⟩
  · rename_i hsingle
    rw [if_neg hsingle] at h
    split
    · rename_i hdouble
      rw [if_pos hdouble, beq_iff_eq] at h
      exact ⟨rfl, .inr rfl, quoted (by decide) h⟩
    · rename_i hdouble
      rw [if_neg hdouble, beq_iff_eq] at h
      refine ⟨rfl, fun rest => ?_⟩
      have := blockPiece_append (text ++ ['>', '>', '>']) rest (by rw [h])
      rw [List.append_assoc, h] at this
      exact this

/-! ## Straight quotes -/

/-- Whether a text holds no typographic quotes. -/
def IsStraight (text : List Char) : Prop := ∀ c ∈ text, straightenChar c = c

instance (text : List Char) : Decidable (IsStraight text) :=
  inferInstanceAs (Decidable (∀ c ∈ text, straightenChar c = c))

/-- Straightening leaves a straight text as it is. -/
lemma IsStraight.map_eq {text : List Char} (h : IsStraight text) :
    text.map straightenChar = text := by
  rw [List.map_congr_left h, List.map_id']

/-- A text is straight if its parts are. -/
lemma isStraight_append {a b : List Char} :
    IsStraight (a ++ b) ↔ IsStraight a ∧ IsStraight b := by
  simp only [IsStraight, List.mem_append, or_imp, forall_and]

/-- Straightening leaves ASCII characters as they are. -/
lemma straightenChar_of_lt {c : Char} (h : c.toNat < 0x80) : straightenChar c = c := by
  unfold straightenChar
  rw [if_neg (by omega), if_neg (by omega)]

/-- Escapes leave a text straight. -/
lemma IsStraight.escape {text : List Char} (h : IsStraight text) (closing : Char) :
    IsStraight (escape closing text) := by
  intro c hc
  obtain ⟨d, hd, hcd⟩ := List.mem_flatMap.mp hc
  split at hcd
  · obtain rfl | rfl : c = '\\' ∨ c = d := by simpa using hcd
    · rfl
    · exact h _ hd
  · obtain rfl : c = d := by simpa using hcd
    exact h _ hd

/-- ASCII quotes around it leave a text straight. -/
lemma IsStraight.between {text : List Char} (h : IsStraight text) {closing : Char}
    (hclosing : closing.toNat < 0x80) : IsStraight (between closing text) := by
  intro c hc
  obtain rfl | hc | rfl : c = closing ∨ c ∈ text ∨ c = closing := by
    simpa [Text.between] using hc
  · exact straightenChar_of_lt hclosing
  · exact h c hc
  · exact straightenChar_of_lt hclosing

/-- A block of a straight text is straight. -/
lemma IsStraight.block {text : List Char} (h : IsStraight text) : IsStraight (block text) := by
  intro c hc
  obtain rfl | hc | rfl : c = '<' ∨ c ∈ text ∨ c = '>' := by
    simpa [Text.block] using hc
  · rfl
  · exact h c hc
  · rfl

/-- The quotation of a straight text is straight. -/
lemma IsStraight.quoteChars {text : List Char} (h : IsStraight text) :
    IsStraight (quoteChars text) := by
  unfold Text.quoteChars
  split
  · exact (h.escape _).between (by decide)
  · split
    · exact (h.escape _).between (by decide)
    · split
      · exact h.block
      · exact (h.escape _).between (by decide)

/-- The quotation of a straight pattern is straight. -/
lemma IsStraight.quoteVerbatimChars {text : List Char} (h : IsStraight text) :
    IsStraight (quoteVerbatimChars text) := by
  unfold Text.quoteVerbatimChars
  split
  · exact h.between (by decide)
  · split
    · exact h.between (by decide)
    · exact h.block

/-! ## Occurrences -/

/-- A pattern is found in a text exactly if it is a part of it. -/
lemma occursIn_iff {pattern text : List Char} :
    occursIn pattern text = true ↔ pattern <:+: text := by
  induction text with
  | nil => simp [occursIn]
  | cons c text ih =>
    rw [occursIn, Bool.or_eq_true, List.isPrefixOf_iff_prefix, ih, List.infix_cons_iff]

/-- What occurs in two texts in a row occurs in one of them, if it does not hold the character where
they meet. -/
lemma infix_or_infix {pattern a b : List Char} (h : pattern <:+: a ++ b)
    (hmeet : ∀ c ∈ a.getLast?, c ∉ pattern) : pattern <:+: a ∨ pattern <:+: b := by
  induction a with
  | nil => exact .inr h
  | cons c a ih =>
    rw [List.cons_append, List.infix_cons_iff] at h
    obtain h | h := h
    · obtain hlt | hle := Nat.lt_or_ge (c :: a).length pattern.length
      · have hstart : c :: a <+: pattern :=
          List.prefix_of_prefix_length_le (List.prefix_append (c :: a) b) h (Nat.le_of_lt hlt)
        have hlast := List.getLast?_eq_some_getLast (List.cons_ne_nil c a)
        exact absurd (hstart.subset (List.getLast_mem _)) (hmeet _ hlast)
      · exact .inl (List.prefix_of_prefix_length_le h (List.prefix_append (c :: a) b) hle).isInfix
    · have hrest : ∀ d ∈ a.getLast?, d ∉ pattern := by
        intro d hd
        refine hmeet d ?_
        cases a with
        | nil => cases hd
        | cons e a => simpa using hd
      obtain h | h := ih h hrest
      · exact .inl (List.infix_cons h)
      · exact .inr h

end Text

end RecordQuery
