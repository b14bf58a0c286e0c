import RecordQuery.Proofs.SingleCondition

/-!
# Strings survive quoting

A string that is quoted and compared with a property is read back from the text as it was, whichever
form the quotation takes, unless it holds a typographic quote. These are made straight wherever they
stand in a text, so no text at all denotes a condition on a string with one.

What is special about a quotation that ends a text is that the words in it do not count. It may
mention regular expressions, and escapes are still taken out of it, since the mention is looked for
outside of the quotation, where there is no room for it.
-/

namespace RecordQuery

open Reader Text Sketch

/-! ## Mentions beside a quotation -/

namespace Token

/-- What is too short mentions nothing. -/
lemma Mentions.le_length {text : List Char} (h : Mentions text) :
    regexpWord.length ≤ text.length := by
  have hlength := h.length_le
  rwa [List.length_map] at hlength

/-- Beside a piece with only a few characters before it nothing is mentioned. -/
lemma not_mentionsBeside {lead : List Char} (hlead : lead.length < regexpWord.length)
    (piece : List Char) : ¬ MentionsBeside (lead ++ piece) piece := by
  rintro ⟨pre, post, htext, hmentions⟩
  have hlength := congrArg List.length htext
  simp only [List.length_append] at hlength
  obtain hbefore | hbehind := hmentions
  · have := hbefore.le_length
    omega
  · have := hbehind.le_length
    omega

end Token

/-! ## Comparisons with strings -/

/-- The condition that a property is equal to a string. -/
def Operator.isString (id s : String) : Operator :=
  .stated .equals (.property (.ofId id)) [.value (.ofString s)] none

namespace Query

open Operator

/-- The comparison with a string is written with its quotation. -/
lemma render_isString (s : String) : (isString "p" s).render .empty = "p = " ++ quote s := by
  rw [isString, render_stated_comparison rfl]
  rfl

/-- A string that is quoted is read back from the text, exactly if no quote in it is typographic. -/
theorem denotes_quote_iff (s : String) :
    Denotes ("p = " ++ quote s) .empty {} (isString "p" s) ↔ IsStraight s.toList := by
  refine ⟨fun h => h.isStraight rfl (List.mem_singleton_self _), fun hstraight => ?_⟩
  have hp : (PropertyRef.ofId "p").IsWritable .empty :=
    ⟨fun _ => by decide +kernel, by decide +kernel, by decide +kernel⟩
  have hbeside : ¬ Token.MentionsBeside ("p = " ++ quote s).toList (quotation s.toList).source := by
    have hquote : (quote s).toList = quoteChars s.toList := String.toList_ofList
    rw [source_quotation, ← hquote, String.toList_append]
    exact @Token.not_mentionsBeside "p = ".toList (by decide) _
  have hs : (ScalarValue.ofString s).IsWritable .empty fun lexeme =>
      Token.MentionsBeside ("p = " ++ quote s).toList lexeme.source :=
    ⟨by rintro _ ⟨⟩; rfl, by rintro _ ⟨⟩; exact hstraight, by
      rintro _ ⟨⟩ hmentions
      exact absurd hmentions hbeside⟩
  have hsketched : (isString "p" s).IsSketchedAs (.of ("p = " ++ quote s) .empty {})
      (fun lexeme => Token.MentionsBeside ("p = " ++ quote s).toList lexeme.source)
      ([(PropertyRef.ofId "p").sketch .empty, .keyword .equals] ++
        [.quoted (quotation s.toList) s]) :=
    isSketchedAs_comparison rfl (isSubject_reference hp .equals) hs rfl
  have hwrites := hsketched.writes
  rw [Setting.of, render_isString] at hwrites
  obtain ⟨r, hstart, hbegins⟩ := @Reading.exists_begins_of_writes _ .empty {} _ _ _ hwrites
    (fun _ => id) (Nat.zero_le _)
  have hpaced : (isString "p" s).Everywhere (Paced ({} : Ceilings).steps) :=
    ⟨⟨by change 1 ≤ _; decide, Nat.zero_le _⟩, trivial⟩
  exact denotes_of_begins hsketched hstart hbegins rfl hpaced rfl

end Query

end RecordQuery
