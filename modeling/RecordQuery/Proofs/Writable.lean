import RecordQuery.Proofs.Merging
import RecordQuery.Proofs.Numerals
import RecordQuery.Proofs.Shape

/-!
# References and scalars that are read back

A reference and a scalar are written as one token each. `PropertyRef.sketch` and
`ScalarValue.sketch` are these tokens, and what is *writable* is what they are read back as: ids
have to be found again under the names they are shown by, brackets must not end too early, and no
quote may be typographic. Strings are written with escapes; these are not taken out where the whole
text mentions regular expressions, so only strings that need none are writable there.
-/

namespace RecordQuery

open Text Sketch

/-! ## Words that are no keywords -/

namespace Kind

/-- No keyword holds a digit, a minus or a colon. -/
lemma keyword_chars (kind : Kind) :
    ∀ c ∈ kind.keyword.toList, Decimal.isDigit c = false ∧ c ≠ '-' ∧ c ≠ ':' := by
  cases kind <;> decide +kernel

/-- A word that no kind is written with is no keyword. -/
lemma ofKeyword?_eq_none {word : String} (h : ∀ kind : Kind, kind.keyword ≠ word) :
    ofKeyword? word = none := by
  rw [ofKeyword?, List.find?_eq_none]
  intro kind _ hkind
  simp only [Bool.and_eq_true, beq_iff_eq] at hkind
  exact h kind hkind.2

end Kind

/-- Whether a text is a word that is neither a keyword nor a part of one. -/
structure Text.IsFreeWord (text : String) : Prop where
  nonempty : text.toList ≠ []
  plain : ∀ c ∈ text.toList, Lexeme.isPlainChar c = true
  notKeyword : Kind.ofKeyword? (upperCase text) = none
  steady : (Sketch.word text).Steady

namespace Text.IsFreeWord

/-- A free word is a sound sketch. -/
lemma sound {text : String} (h : IsFreeWord text) (raw : Lexeme → Prop) (mentioned : Prop) :
    (Sketch.word text).Sound raw mentioned := ⟨h.nonempty, h.plain, h.notKeyword⟩

/-- A word with a digit, a hyphen or a colon is no keyword, nor a part of one. -/
lemma of_mem {text : String} (plain : ∀ c ∈ text.toList, Lexeme.isPlainChar c = true) {c : Char}
    (hmem : c ∈ text.toList) (hc : Decimal.isDigit c = true ∨ c = '-' ∨ c = ':') :
    IsFreeWord text := by
  have hupper : c ∈ (upperCase text).toList := by
    have hself : c.toUpper = c := by
      obtain hc | rfl | rfl := hc
      · exact Decimal.toUpper_of_isDigit hc
      · rfl
      · rfl
    rw [upperCase, String.toList_ofList, ← hself]
    exact List.mem_map_of_mem hmem
  have hne : ∀ word : String, (∀ d ∈ word.toList, Decimal.isDigit d = false ∧ d ≠ '-' ∧ d ≠ ':') →
      upperCase text ≠ word := by
    rintro word hword rfl
    obtain ⟨hdigit, hhyphen, hcolon⟩ := hword c hupper
    obtain h | h | h := hc
    · rw [h] at hdigit
      cases hdigit
    · exact hhyphen h
    · exact hcolon h
  refine ⟨List.ne_nil_of_mem hmem, plain, Kind.ofKeyword?_eq_none fun kind => ?_, ?_, ?_, ?_⟩
  · exact (hne _ kind.keyword_chars).symm
  · exact hne _ (by decide +kernel)
  · exact hne _ (by decide +kernel)
  · exact hne _ (by decide +kernel)

end Text.IsFreeWord

/-! ## References -/

namespace PropertyRef

/-- Whether a reference is read from its text as it was, provided that it is known whether it is to
an alias. -/
structure IsWritable (registry : Registry) (p : PropertyRef) : Prop where
  readBack : p.isAlias = false → ofText (p.writtenText registry) registry = p
  closing : ']' ∉ (p.writtenText registry).toList
  isStraight : IsStraight (p.writtenText registry).toList

/-- The token that a reference is written as. -/
def sketch (registry : Registry) (p : PropertyRef) : Sketch :=
  if p.isPlain registry then .word (p.writtenText registry) else .bracketed (p.writtenText registry)

variable {registry : Registry} {p : PropertyRef}

/-- The sketch of a reference is written as the reference is. -/
lemma chars_sketch (registry : Registry) (p : PropertyRef) :
    (p.sketch registry).chars = (p.render registry).toList := by
  unfold sketch render
  split <;> simp [chars]

/-- A bare name has nothing in it but what may stand without brackets. -/
lemma continuesBare_of_isBare {name : String} (h : isBare name = true) :
    name.toList ≠ [] ∧ ∀ c ∈ name.toList, continuesBare c = true := by
  unfold isBare at h
  split at h
  · cases h
  · rename_i c rest heq
    obtain ⟨hc, hrest⟩ := Bool.and_eq_true_iff.mp h
    rw [heq]
    refine ⟨List.cons_ne_nil _ _, List.forall_mem_cons.mpr ⟨?_, ?_⟩⟩
    · rw [continuesBare, hc, Bool.true_or, Bool.true_or, Bool.true_or]
    · simpa using hrest

/-- A bare name that is not reserved is a free word. -/
lemma isFreeWord_of_isBare {name : String} (hbare : isBare name = true)
    (hreserved : isReserved name = false) : IsFreeWord name := by
  obtain ⟨hne, hcontinues⟩ := continuesBare_of_isBare hbare
  rw [isReserved, Bool.or_eq_false_iff, Option.isSome_eq_false_iff,
    Option.isNone_iff_eq_none] at hreserved
  obtain ⟨hkeyword, hwords⟩ := hreserved
  have hne' : ∀ word ∈ reservedWords, upperCase name ≠ word := by
    rintro word hword rfl
    rw [List.contains_iff_mem.mpr hword] at hwords
    cases hwords
  refine ⟨hne, fun c hc => ?_, hkeyword, hne' _ (by decide), hne' _ (by decide), hne' _ (by decide)⟩
  rw [Lexeme.isPlainChar, hcontinues c hc, Bool.true_or]

/-- A reference that is written without brackets is a free word. -/
lemma isFreeWord_of_isPlain (h : p.isPlain registry = true) :
    IsFreeWord (p.writtenText registry) := by
  rw [isPlain, Bool.and_eq_true, Bool.and_eq_true, Bool.not_eq_true'] at h
  obtain ⟨⟨hscope, hbare⟩, hreserved⟩ := h
  cases p with
  | byAlias name => exact isFreeWord_of_isBare hbare hreserved
  | field scope id =>
    cases scope with
    | none =>
      have hcolon : (registry.propertyName id).toList.contains ':' = false := by
        rw [← Bool.not_eq_true, List.contains_iff_mem]
        intro hmem
        have := (continuesBare_of_isBare hbare).2 _ hmem
        revert this
        decide
      have hwritten : (field none id).writtenText registry = registry.propertyName id := by
        simp only [writtenText, shownName, hcolon]
        rfl
      rw [hwritten]
      exact isFreeWord_of_isBare hbare hreserved
    | some scope =>
      have hwritten : ((field (some scope) id).writtenText registry).toList =
          scope.toList ++ ':' :: (registry.propertyName id).toList := by
        simp [writtenText, shownName]
      have hplain : ∀ name : String, isBare name = true →
          ∀ c ∈ name.toList, Lexeme.isPlainChar c = true := fun name hname c hc => by
        rw [Lexeme.isPlainChar, (continuesBare_of_isBare hname).2 c hc, Bool.true_or]
      refine IsFreeWord.of_mem (fun c hc => ?_) (c := ':') ?_ (.inr (.inr rfl))
      · rw [hwritten, List.mem_append, List.mem_cons] at hc
        obtain hc | rfl | hc := hc
        · exact hplain _ hscope c hc
        · decide
        · exact hplain _ hbare c hc
      · rw [hwritten]
        exact List.mem_append_right _ (List.mem_cons_self ..)

/-- The sketch of a writable reference is sound. -/
lemma sound_sketch (h : p.IsWritable registry) (raw : Lexeme → Prop) (mentioned : Prop) :
    (p.sketch registry).Sound raw mentioned := by
  unfold sketch
  split
  · rename_i hplain
    exact (isFreeWord_of_isPlain hplain).sound raw mentioned
  · exact ⟨h.closing, h.isStraight⟩

/-- No word of the sketch of a reference begins or ends a keyword of several words. -/
lemma steady_sketch (registry : Registry) (p : PropertyRef) : (p.sketch registry).Steady := by
  unfold sketch
  split
  · rename_i hplain
    exact (isFreeWord_of_isPlain hplain).steady
  · exact trivial

end PropertyRef

/-! ## Scalars -/

namespace ScalarValue

/-- Whether a scalar is read from its text as it was. -/
structure IsWritable (registry : Registry) (raw : Lexeme → Prop) (v : ScalarValue) : Prop where
  readBack : ∀ s, v.value = .string s →
    ((ofString (registry.valueName s)).resolveNames registry).value = v.value
  isStraight : ∀ s, v.value = .string s → IsStraight (registry.valueName s).toList
  plain : ∀ s, v.value = .string s → raw (quotation (registry.valueName s).toList) →
    isQuotedPlainly (registry.valueName s).toList = true

/-- Whether a scalar is read as it was from its text as a pattern, which is
quoted without escapes. -/
structure IsPattern (registry : Registry) (v : ScalarValue) : Prop where
  readBack : ((ofString v.text).resolveNames registry).value = v.value
  isStraight : IsStraight v.text.toList
  closed : isClosedPattern v.text.toList = true

/-- The token that a scalar is written as. -/
def sketch (registry : Registry) (v : ScalarValue) : Sketch :=
  match v.value with
  | .string s => .quoted (quotation (registry.valueName s).toList) (registry.valueName s)
  | .number d => .word d.text
  | .boolean b => .word (boolText b)
  | .null => .word "null"

/-- The token that a pattern is written as. -/
def patternSketch (v : ScalarValue) : Sketch := .quoted (patternQuotation v.text.toList) v.text

variable {registry : Registry} {v : ScalarValue}

/-- The sketch of a scalar is written as the scalar is. -/
lemma chars_sketch (registry : Registry) (v : ScalarValue) :
    (v.sketch registry).chars = (v.render registry).toList := by
  rcases v with ⟨s | d | b | _, text⟩ <;> simp [sketch, render, chars, quote]

/-- The sketch of a pattern is written without escapes. -/
lemma chars_patternSketch (v : ScalarValue) :
    v.patternSketch.chars = (quoteVerbatim v.text).toList := by
  simp [patternSketch, chars, quoteVerbatim]

/-- The text of a decimal is a free word. -/
lemma isFreeWord_number (d : Decimal) : IsFreeWord d.text := by
  -- a decimal is written with digits, a sign and a point, and has a digit
  have hchars : ∀ c ∈ d.toChars, Decimal.isDigit c = true ∨ c = '-' ∨ c = '.' := by
    have hdigits : ∀ {digits : List Char}, digits.all Decimal.isDigit = true → ∀ c ∈ digits,
        Decimal.isDigit c = true ∨ c = '-' ∨ c = '.' := fun h c hc =>
      .inl (List.all_eq_true.mp h c hc)
    have hsign : ∀ c ∈ (if d.negative = true then ['-'] else []),
        Decimal.isDigit c = true ∨ c = '-' ∨ c = '.' := by
      intro c hc
      split at hc
      · exact .inr (.inl (List.mem_singleton.mp hc))
      · cases hc
    unfold Decimal.toChars
    intro c hc
    dsimp only at hc
    split at hc
    · obtain hc | hc := List.mem_append.mp hc
      · exact hsign c hc
      · exact hdigits (Decimal.isDigit_toDigits _) c hc
    · obtain hc | hc := List.mem_append.mp hc
      · obtain hc | hc := List.mem_append.mp hc
        · exact hsign c hc
        · exact hdigits (Decimal.isDigit_toDigits _) c hc
      · obtain rfl | hc := List.mem_cons.mp hc
        · exact .inr (.inr rfl)
        · exact hdigits (Decimal.isDigit_padDigits _ _) c hc
  have hdigit : ∃ c ∈ d.toChars, Decimal.isDigit c = true := by
    have hne : Nat.toDigits 10 (d.mantissa / tenTo d.scale) ≠ [] := Nat.toDigits_ne_nil
    refine ⟨_, ?_, List.all_eq_true.mp (Decimal.isDigit_toDigits (d.mantissa / tenTo d.scale)) _
      (List.head_mem hne)⟩
    unfold Decimal.toChars
    dsimp only
    split
    · exact List.mem_append_right _ (List.head_mem hne)
    · exact List.mem_append_left _ (List.mem_append_right _ (List.head_mem hne))
  have hlist : d.text.toList = d.toChars := String.toList_ofList
  obtain ⟨c, hmem, hc⟩ := hdigit
  refine .of_mem (fun c hc => ?_) (by rwa [hlist]) (.inl hc)
  rw [hlist] at hc
  obtain hc | rfl | rfl := hchars c hc
  · have hrange : ('0' ≤ c && c ≤ '9') = true := hc
    simp [Lexeme.isPlainChar, PropertyRef.continuesBare, hrange]
  · decide
  · decide

/-- The text of a truth value is a free word. -/
lemma isFreeWord_boolText (b : Bool) : IsFreeWord (boolText b) := by
  cases b <;>
    exact ⟨by decide +kernel, by decide +kernel, by decide +kernel, by decide +kernel,
      by decide +kernel, by decide +kernel⟩

/-- The text of null is a free word. -/
lemma isFreeWord_null : IsFreeWord "null" :=
  ⟨by decide +kernel, by decide +kernel, by decide +kernel, by decide +kernel, by decide +kernel,
    by decide +kernel⟩

/-- The sketch of a writable scalar is sound. -/
lemma sound_sketch {raw : Lexeme → Prop} (h : v.IsWritable registry raw) (mentioned : Prop) :
    (v.sketch registry).Sound raw mentioned := by
  unfold sketch
  split
  · rename_i s hs
    refine ⟨closes_quotation _, ?_, fun hraw => verbatim_quotation (h.plain s hs hraw),
      fun _ => literal_quotation _⟩
    rw [source_quotation]
    exact (h.isStraight s hs).quoteChars
  · exact (isFreeWord_number _).sound raw mentioned
  · exact (isFreeWord_boolText _).sound raw mentioned
  · exact isFreeWord_null.sound raw mentioned

/-- No word of the sketch of a scalar begins or ends a keyword of several words. -/
lemma steady_sketch (registry : Registry) (v : ScalarValue) : (v.sketch registry).Steady := by
  unfold sketch
  split
  · exact trivial
  · exact (isFreeWord_number _).steady
  · exact (isFreeWord_boolText _).steady
  · exact isFreeWord_null.steady

/-- A pattern is sound where regular expressions were mentioned before it. -/
lemma sound_patternSketch {raw : Lexeme → Prop} {mentioned : Prop} (h : v.IsPattern registry)
    (hmentioned : mentioned) : v.patternSketch.Sound raw mentioned := by
  refine ⟨closes_patternQuotation h.closed, ?_, fun _ => verbatim_patternQuotation _,
    fun hnot => absurd hmentioned hnot⟩
  rw [source_patternQuotation]
  exact h.isStraight.quoteVerbatimChars

end ScalarValue

end RecordQuery
