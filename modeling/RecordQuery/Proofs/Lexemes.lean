import RecordQuery.Proofs.Scanning

/-!
# What lexemes are made of

The lexemes of a text, one after the other, are the text. Each of them is *regular*: it holds what
its sort asks for and nothing else, so that it can be told apart from its neighbours.
-/

namespace RecordQuery

namespace Lexeme

/-! ## Pieces -/

/-- The text that a piece was cut from, given its terminator. -/
def Piece.source (piece : Piece) (stop : List Char) : List Char :=
  piece.body ++ terminator piece.closed stop ++ piece.rest

/-- A quotation, its quote and what is behind it make up the text. -/
lemma source_quotedPiece (quote : Char) (text : List Char) :
    (quotedPiece quote text).source [quote] = text := by
  fun_induction quotedPiece quote text with
  | case1 => rfl
  | case2 c rest ih => simpa [Piece.source, Piece.cons] using ih
  | case3 rest => rfl
  | case4 c rest _ _ ih => simpa [Piece.source, Piece.cons] using ih

/-- A block, its terminator and what is behind it make up the text. -/
lemma source_blockPiece (text : List Char) :
    (blockPiece text).source ['>', '>', '>'] = text := by
  fun_induction blockPiece text with
  | case1 => rfl
  | case2 c rest h =>
    obtain ⟨more, hmore⟩ := List.isPrefixOf_iff_prefix.mp h
    rw [List.cons_append, List.cons.injEq] at hmore
    obtain ⟨rfl, rfl⟩ := hmore
    rfl
  | case3 c rest _ ih => simpa [Piece.source, Piece.cons] using ih

/-- A name, its bracket and what is behind it make up the text. -/
lemma source_bracketedPiece (text : List Char) :
    (bracketedPiece text).source [']'] = text := by
  fun_induction bracketedPiece text with
  | case1 => rfl
  | case2 rest => rfl
  | case3 c rest _ ih => simpa [Piece.source, Piece.cons] using ih

/-- A run and what is behind it make up the text. -/
lemma source_runPiece (kind : RunKind) (text : List Char) :
    (runPiece kind text).body ++ (runPiece kind text).rest = text := by
  fun_induction runPiece kind text with
  | case1 => rfl
  | case2 c rest _ ih => simpa [Piece.cons] using ih
  | case3 c rest _ => rfl

/-- A name in brackets holds no closing one. -/
lemma notMem_bracketedPiece (text : List Char) : ']' ∉ (bracketedPiece text).body := by
  fun_induction bracketedPiece text with
  | case1 => exact List.not_mem_nil
  | case2 rest => exact List.not_mem_nil
  | case3 c rest hc ih => exact List.not_mem_cons_of_ne_of_not_mem (Ne.symm hc) ih

/-- The characters of a run are what such a run begins with. -/
lemma lead_of_mem_runPiece {kind : RunKind} {text : List Char} {c : Char}
    (h : c ∈ (runPiece kind text).body) : ∃ rest, lead c rest = .run kind := by
  fun_induction runPiece kind text with
  | case1 => cases h
  | case2 d rest hd ih =>
    obtain rfl | h := List.mem_cons.mp h
    · exact ⟨rest, hd⟩
    · exact ih h
  | case3 => cases h

/-! ## Leads -/

/-- Whether a text can have a lead, given its first character and the others. -/
def Leads (c : Char) (rest : List Char) : Lead → Prop
  | .blank => Text.isBlank c = true
  | .opening => c = '('
  | .closing => c = ')'
  | .delimiter => c = ',' ∨ c = ';'
  | .quote => c = '"' ∨ c = '\''
  | .bracket => c = '['
  | .block => c = '<' ∧ ∃ more, rest = '<' :: '<' :: more
  | .run kind => Text.isBlank c = false ∧ c ∉ "(),;\"'[".toList ∧
      (kind = .symbol → isSign c = true) ∧ (kind = .word → isWordChar c = true)

/-- The lead that is found is one that the text can have. -/
lemma leads_lead (c : Char) (rest : List Char) : Leads c rest (lead c rest) := by
  unfold lead
  split_ifs with hblank hopening hclosing hdelimiter hquote hbracket hblock hsign hword
  · exact hblank
  · exact hopening
  · exact hclosing
  · exact hdelimiter
  · exact hquote
  · exact hbracket
  · obtain ⟨more, hmore⟩ := List.isPrefixOf_iff_prefix.mp hblock.2
    exact ⟨hblock.1, more, hmore.symm⟩
  all_goals
    simp only [not_or] at hdelimiter hquote
    refine ⟨by simpa using hblank, by simp_all, ?_, ?_⟩ <;> simp_all

/-- A lead that was found is one that the text can have. -/
lemma leads_of_lead {c : Char} {rest : List Char} {l : Lead} (h : lead c rest = l) :
    Leads c rest l := h ▸ leads_lead c rest

/-! ## Lexemes -/

/-- Whether a lexeme holds what its sort asks for. -/
def IsRegular : Lexeme → Prop
  | blank c => Text.isBlank c = true
  | opening | closing | block _ _ => True
  | delimiter c => c = ',' ∨ c = ';'
  | quoted quote _ _ => quote = '"' ∨ quote = '\''
  | bracketed body _ => ']' ∉ body
  | run kind chars => chars ≠ [] ∧ ∀ c ∈ chars, ∃ rest, lead c rest = .run kind

/-- The lexemes of a text, one after the other, are the text. -/
theorem flatMap_source_scan (text : List Char) : (scan text).flatMap source = text := by
  fun_induction scan text with
  | case1 => rfl
  | case2 c rest h ih => rw [List.flatMap_cons, ih]; rfl
  | case3 c rest h ih => rw [List.flatMap_cons, ih, leads_of_lead h]; rfl
  | case4 c rest h ih => rw [List.flatMap_cons, ih, leads_of_lead h]; rfl
  | case5 c rest h ih => rw [List.flatMap_cons, ih]; rfl
  | case6 c rest h piece ih =>
    rw [List.flatMap_cons, ih]
    exact congrArg (c :: ·) (source_quotedPiece c rest)
  | case7 c rest h piece ih =>
    rw [List.flatMap_cons, ih, leads_of_lead h]
    exact congrArg ('[' :: ·) (source_bracketedPiece rest)
  | case8 c rest h piece ih =>
    obtain ⟨rfl, more, rfl⟩ := leads_of_lead h
    rw [List.flatMap_cons, ih]
    exact congrArg ('<' :: '<' :: '<' :: ·) (source_blockPiece more)
  | case9 c rest kind h piece ih =>
    rw [List.flatMap_cons, ih]
    exact congrArg (c :: ·) (source_runPiece kind rest)

/-- Every lexeme of a text is regular. -/
theorem isRegular_of_mem_scan {text : List Char} {lexeme : Lexeme} (h : lexeme ∈ scan text) :
    lexeme.IsRegular := by
  fun_induction scan text with
  | case1 => cases h
  | case2 c rest hlead ih =>
    obtain rfl | h := List.mem_cons.mp h
    · exact leads_of_lead hlead
    · exact ih h
  | case3 c rest hlead ih | case4 c rest hlead ih | case8 c rest hlead piece ih =>
    obtain rfl | h := List.mem_cons.mp h
    · trivial
    · exact ih h
  | case5 c rest hlead ih =>
    obtain rfl | h := List.mem_cons.mp h
    · exact leads_of_lead hlead
    · exact ih h
  | case6 c rest hlead piece ih =>
    obtain rfl | h := List.mem_cons.mp h
    · exact leads_of_lead hlead
    · exact ih h
  | case7 c rest hlead piece ih =>
    obtain rfl | h := List.mem_cons.mp h
    · exact notMem_bracketedPiece rest
    · exact ih h
  | case9 c rest kind hlead piece ih =>
    obtain rfl | h := List.mem_cons.mp h
    · refine ⟨List.cons_ne_nil _ _, List.forall_mem_cons.mpr ⟨⟨rest, hlead⟩, fun d hd => ?_⟩⟩
      exact lead_of_mem_runPiece hd
    · exact ih h

/-- No lexeme of a text is empty. -/
lemma source_ne_nil {lexeme : Lexeme} (h : lexeme.IsRegular) : lexeme.source ≠ [] := by
  cases lexeme with
  | run kind chars => exact h.1
  | _ => simp [source]

end Lexeme

end RecordQuery
