import RecordQuery.Proofs.Tiling

/-!
# Bad nesting is all that stops the cutting of a text

Whether a text can be cut into tokens is decided by a flat scan of its characters, which keeps the
number of open parentheses and passes over quoted text, names in brackets and blocks. The cutting
fails where a closing parenthesis finds none open, or an opening one the greatest depth reached,
whichever comes first. In any other text it succeeds. What is wrong then stands at the end of the
source: a quotation, a bracket or a block that runs into it, and parentheses that are open there.

The scan looks at one character at a time, where the machine that builds the trees is given whole
lexemes. So it takes as many steps for a run as the run has characters, and none of them counts.
-/

namespace RecordQuery

/-! ## The flat scan -/

/-- What a flat scan comes to. -/
inductive FlatScan
  /-- A closing parenthesis where none is open. -/
  | unexpected (offset : Nat)
  /-- An opening parenthesis at the greatest depth. -/
  | tooDeep (offset : Nat)
  /-- The end of the source, with so many parentheses open. `cut` is where a text with a terminator
  of its own runs into the end, and what is wrong with it. -/
  | complete (opened : Nat) (cut : Option (TokenFault × Nat))

namespace FlatScan

/-- How many characters it takes up to a quote and with it. A backslash takes the next character
with it. -/
def quoteEnd? (quote : Char) : List Char → Option Nat
  | [] => none
  | '\\' :: _ :: rest => (quoteEnd? quote rest).map (· + 2)
  | c :: rest => if c = quote then some 1 else (quoteEnd? quote rest).map (· + 1)

/-- How many characters it takes up to a closing bracket and with it. -/
def bracketEnd? : List Char → Option Nat
  | [] => none
  | c :: rest => if c = ']' then some 1 else (bracketEnd? rest).map (· + 1)

/-- How many characters it takes up to three closing angle brackets and with them. -/
def blockEnd? : List Char → Option Nat
  | [] => none
  | c :: rest =>
    if ['>', '>', '>'].isPrefixOf (c :: rest) then some 3 else (blockEnd? rest).map (· + 1)

/-- The text with a terminator of its own that a character begins: how far it reaches behind the
character, if it is terminated, and what is wrong with it if it is not. -/
def enclosed? (c : Char) (rest : List Char) : Option (TokenFault × Option Nat) :=
  if c = '"' ∨ c = '\'' then some (.unterminatedString, quoteEnd? c rest)
  else if c = '[' then some (.unterminatedProperty, bracketEnd? rest)
  else if c = '<' ∧ ['<', '<'].isPrefixOf rest then
    some (.unterminatedBlock, (blockEnd? (rest.drop 2)).map (· + 2))
  else none

/-- Scans characters from an offset on, with so many parentheses open before them. -/
def scan (limit depth offset : Nat) : List Char → FlatScan
  | [] => complete depth none
  | c :: rest =>
    if c = '(' then
      if depth = limit then tooDeep offset else scan limit (depth + 1) (offset + 1) rest
    else if c = ')' then
      if depth = 0 then unexpected offset else scan limit (depth - 1) (offset + 1) rest
    else
      match enclosed? c rest with
      | none => scan limit depth (offset + 1) rest
      | some (fault, none) => complete depth (some (fault, offset))
      | some (_, some length) => scan limit depth (offset + 1 + length) (rest.drop length)
termination_by text => text.length
decreasing_by
  all_goals
    simp only [List.length_cons, List.length_drop]
    omega

/-! ## Pieces -/

/-- How far a piece reaches, with a terminator of some length. -/
def reach? (piece : Lexeme.Piece) (length : Nat) : Option Nat :=
  if piece.closed then some (piece.body.length + length) else none

/-- One more character of a piece is one more to be passed. -/
lemma reach?_cons (c : Char) (piece : Lexeme.Piece) (length : Nat) :
    reach? (piece.cons c) length = (reach? piece length).map (· + 1) := by
  unfold reach?
  cases hclosed : piece.closed
  · simp [Lexeme.Piece.cons, hclosed]
  · simp only [Lexeme.Piece.cons, hclosed, if_true, List.length_cons, Option.map_some,
      Option.some.injEq]
    omega

/-- The end of a quotation is where the lexer has it. -/
lemma quoteEnd?_eq (quote : Char) (text : List Char) :
    quoteEnd? quote text = reach? (Lexeme.quotedPiece quote text) 1 := by
  fun_induction Lexeme.quotedPiece quote text with
  | case1 => rfl
  | case2 c rest ih => rw [quoteEnd?, reach?_cons, reach?_cons, ih, Option.map_map]; rfl
  | case3 rest hescape => rw [quoteEnd?.eq_3 _ _ _ hescape, if_pos rfl]; rfl
  | case4 c rest hescape hquote ih =>
    rw [quoteEnd?.eq_3 _ _ _ hescape, if_neg hquote, reach?_cons, ih]

/-- The end of a name in brackets is where the lexer has it. -/
lemma bracketEnd?_eq (text : List Char) :
    bracketEnd? text = reach? (Lexeme.bracketedPiece text) 1 := by
  fun_induction Lexeme.bracketedPiece text with
  | case1 => rfl
  | case2 rest => rw [bracketEnd?, if_pos rfl]; rfl
  | case3 c rest hc ih => rw [bracketEnd?, if_neg hc, reach?_cons, ih]

/-- The end of a block is where the lexer has it. -/
lemma blockEnd?_eq (text : List Char) : blockEnd? text = reach? (Lexeme.blockPiece text) 3 := by
  fun_induction Lexeme.blockPiece text with
  | case1 => rfl
  | case2 c rest h => rw [blockEnd?, if_pos h]; rfl
  | case3 c rest h ih => rw [blockEnd?, if_neg h, reach?_cons, ih]

/-- A piece without a terminator reaches to the end. -/
lemma rest_quotedPiece (quote : Char) (text : List Char)
    (h : (Lexeme.quotedPiece quote text).closed = false) :
    (Lexeme.quotedPiece quote text).rest = [] := by
  fun_induction Lexeme.quotedPiece quote text with
  | case1 => rfl
  | case2 c rest ih => exact ih h
  | case3 => cases h
  | case4 c rest _ _ ih => exact ih h

/-- A bracket that is not closed leaves nothing of the text. -/
lemma rest_bracketedPiece (text : List Char) (h : (Lexeme.bracketedPiece text).closed = false) :
    (Lexeme.bracketedPiece text).rest = [] := by
  fun_induction Lexeme.bracketedPiece text with
  | case1 => rfl
  | case2 => cases h
  | case3 c rest _ ih => exact ih h

/-- A block that is not closed leaves nothing of the text. -/
lemma rest_blockPiece (text : List Char) (h : (Lexeme.blockPiece text).closed = false) :
    (Lexeme.blockPiece text).rest = [] := by
  fun_induction Lexeme.blockPiece text with
  | case1 => rfl
  | case2 => cases h
  | case3 c rest _ ih => exact ih h

/-! ## Leads -/

variable {limit depth offset : Nat} {c : Char} {rest : List Char}

/-- A character that begins no text with a terminator of its own and is no parenthesis is passed
over. -/
lemma scan_of_plain (hopening : c ≠ '(') (hclosing : c ≠ ')')
    (henclosed : enclosed? c rest = none) :
    scan limit depth offset (c :: rest) = scan limit depth (offset + 1) rest := by
  rw [scan, if_neg hopening, if_neg hclosing, henclosed]

/-- A blank is passed. -/
lemma scan_blank (h : Lexeme.lead c rest = .blank) :
    scan limit depth offset (c :: rest) = scan limit depth (offset + 1) rest := by
  have hblank : Text.isBlank c = true := Lexeme.leads_of_lead h
  have hne : ∀ d, Text.isBlank d = false → c ≠ d := by
    rintro d hd rfl
    rw [hd] at hblank
    cases hblank
  refine scan_of_plain (hne _ (by decide)) (hne _ (by decide)) ?_
  simp [enclosed?, hne '"' (by decide), hne '\'' (by decide), hne '[' (by decide),
    hne '<' (by decide)]

/-- A delimiter is passed. -/
lemma scan_delimiter (h : Lexeme.lead c rest = .delimiter) :
    scan limit depth offset (c :: rest) = scan limit depth (offset + 1) rest := by
  have hc : c = ',' ∨ c = ';' := Lexeme.leads_of_lead h
  obtain rfl | rfl := hc <;> exact scan_of_plain (by decide) (by decide) (by simp [enclosed?])

/-- A character that begins a run is passed. -/
lemma scan_run {kind : RunKind} (h : Lexeme.lead c rest = .run kind) :
    scan limit depth offset (c :: rest) = scan limit depth (offset + 1) rest := by
  obtain ⟨-, hnot, -⟩ : Lexeme.Leads c rest (.run kind) := Lexeme.leads_of_lead h
  have hne : ∀ d ∈ "(),;\"'[".toList, c ≠ d := by
    rintro d hd rfl
    exact hnot hd
  have hblock : ¬ (c = '<' ∧ ['<', '<'].isPrefixOf rest) := by
    rintro ⟨rfl, hprefix⟩
    simp [Lexeme.lead, hprefix, show Text.isBlank '<' = false by decide] at h
  refine scan_of_plain (hne _ (by decide)) (hne _ (by decide)) ?_
  rw [enclosed?, if_neg (not_or.mpr ⟨hne _ (by decide), hne _ (by decide)⟩),
    if_neg (hne _ (by decide)), if_neg hblock]

/-- The characters of a run are passed over. -/
lemma scan_runPiece (kind : RunKind) (text : List Char) :
    scan limit depth offset text =
      scan limit depth (offset + (Lexeme.runPiece kind text).body.length)
        (Lexeme.runPiece kind text).rest := by
  fun_induction Lexeme.runPiece kind text generalizing offset with
  | case1 => rfl
  | case2 c rest hc ih =>
    rw [scan_run hc, ih, Lexeme.Piece.cons, List.length_cons, Nat.add_assoc, Nat.add_comm 1]
  | case3 => rfl

/-! ## Texts with terminators of their own -/

/-- Whether a text begins with a lexeme that has a terminator of its own, before what is left. -/
structure Encloses (c : Char) (rest : List Char) (lexeme : Lexeme) (closed : Bool)
    (fault : TokenFault) (left : List Char) : Prop where
  plain : c ≠ '(' ∧ c ≠ ')'
  source : ∃ inner, lexeme.source = c :: inner ∧ rest = inner ++ left ∧
    enclosed? c rest = some (fault, if closed then some inner.length else none)
  left_eq : closed = false → left = []
  token : ∀ id source span, ∃ token, Token.ofLexeme? id source span lexeme = some token ∧
    token.span = span ∧ token.fault = if closed then none else some fault

/-- A piece that is closed reaches to the end of its terminator, one that is not has no end. -/
lemma reach?_eq (piece : Lexeme.Piece) (stop : List Char) :
    reach? piece stop.length =
      if piece.closed then some (piece.body ++ Lexeme.terminator piece.closed stop).length
      else none := by
  unfold reach? Lexeme.terminator
  cases hclosed : piece.closed <;> simp

/-- A quote begins a text that reaches to the next one, unless there is none. -/
lemma encloses_quoted (h : Lexeme.lead c rest = .quote) :
    Encloses c rest (.quoted c (Lexeme.quotedPiece c rest).body (Lexeme.quotedPiece c rest).closed)
      (Lexeme.quotedPiece c rest).closed .unterminatedString (Lexeme.quotedPiece c rest).rest := by
  have hc : c = '"' ∨ c = '\'' := Lexeme.leads_of_lead h
  refine ⟨by obtain rfl | rfl := hc <;> decide, ⟨_, rfl, ?_, ?_⟩, rest_quotedPiece c rest, ?_⟩
  · exact (Lexeme.source_quotedPiece c rest).symm
  · rw [enclosed?, if_pos hc, quoteEnd?_eq]
    exact congrArg (fun length => some (_, length)) (reach?_eq _ [c])
  · intro id source span
    refine ⟨_, rfl, ?_⟩
    unfold Token.ofQuoted
    split <;> exact ⟨rfl, rfl⟩

/-- A bracket begins a name that reaches to the closing one, unless there is none. -/
lemma encloses_bracketed (h : Lexeme.lead c rest = .bracket) :
    Encloses c rest
      (.bracketed (Lexeme.bracketedPiece rest).body (Lexeme.bracketedPiece rest).closed)
      (Lexeme.bracketedPiece rest).closed .unterminatedProperty
      (Lexeme.bracketedPiece rest).rest := by
  obtain rfl : c = '[' := Lexeme.leads_of_lead h
  refine ⟨by decide, ⟨_, rfl, ?_, ?_⟩, rest_bracketedPiece rest, fun _ _ _ => ⟨_, rfl, rfl, rfl⟩⟩
  · exact (Lexeme.source_bracketedPiece rest).symm
  · rw [enclosed?, if_neg (by decide), if_pos rfl, bracketEnd?_eq]
    exact congrArg (fun length => some (_, length)) (reach?_eq _ [']'])

/-- Three opening signs begin a block that reaches to the closing ones, unless there are none. -/
lemma encloses_block (h : Lexeme.lead c rest = .block) :
    Encloses c rest
      (.block (Lexeme.blockPiece (rest.drop 2)).body (Lexeme.blockPiece (rest.drop 2)).closed)
      (Lexeme.blockPiece (rest.drop 2)).closed .unterminatedBlock
      (Lexeme.blockPiece (rest.drop 2)).rest := by
  obtain ⟨rfl, more, rfl⟩ : c = '<' ∧ ∃ more, rest = '<' :: '<' :: more := Lexeme.leads_of_lead h
  rw [List.drop_succ_cons, List.drop_succ_cons, List.drop_zero]
  refine ⟨by decide, ⟨_, rfl, ?_, ?_⟩, rest_blockPiece more, fun _ _ _ => ⟨_, rfl, rfl, rfl⟩⟩
  · exact congrArg ('<' :: '<' :: ·) (Lexeme.source_blockPiece more).symm
  · rw [enclosed?, if_neg (by decide), if_neg (by decide), if_pos ⟨rfl, rfl⟩, List.drop_succ_cons,
      List.drop_succ_cons, List.drop_zero, blockEnd?_eq]
    refine congrArg (fun length => some (_, length)) ?_
    refine (congrArg (Option.map (· + 2))
      (reach?_eq (Lexeme.blockPiece more) ['>', '>', '>'])).trans ?_
    cases (Lexeme.blockPiece more).closed <;> rfl

/-- A text with a terminator of its own is passed over, or runs into the end. -/
lemma Encloses.scan_eq {lexeme : Lexeme} {closed : Bool} {fault : TokenFault} {left : List Char}
    (h : Encloses c rest lexeme closed fault left) :
    scan limit depth offset (c :: rest) =
      if closed then scan limit depth (offset + lexeme.source.length) left
      else complete depth (some (fault, offset)) := by
  obtain ⟨inner, hsource, rfl, henclosed⟩ := h.source
  rw [scan, if_neg h.plain.1, if_neg h.plain.2, henclosed]
  cases closed with
  | false => rfl
  | true =>
    simp only [if_true, hsource, List.drop_left, List.length_cons]
    rw [Nat.add_assoc, Nat.add_comm 1]

/-! ## The machine -/

section

open TreeBuilder

variable {ceilings : Ceilings} {source : List Char}

/-- Whether the machine that builds trees ends as the flat scan says. -/
def Agrees (ceilings : Ceilings) (source : List Char) (outcome : Except Problem TreeBuilder) :
    FlatScan → Prop
  | unexpected offset =>
    outcome = .error (problemAt source .unexpectedParenthesis ⟨offset, offset + 1⟩)
  | tooDeep offset =>
    outcome = .error (problemAt source (.nestedTooDeep ceilings.depth) ⟨offset, offset + 1⟩)
  | complete opened cut => ∃ b, outcome = .ok b ∧ b.frames.length = opened ∧
      b.offset = source.length ∧
      b.problems = cut.toList.map fun fault => problemAt source fault.1 ⟨fault.2, source.length⟩

/-- Whether the machine reads some lexemes to the end to which the scan reads a text, from wherever
both can come to be. -/
def AgreesOn (ceilings : Ceilings) (source : List Char) (lexemes : List Lexeme)
    (text : List Char) : Prop :=
  ∀ b : TreeBuilder, b.frames.length ≤ ceilings.depth → b.problems = [] →
    b.offset + text.length = source.length →
      Agrees ceilings source (lexemes.foldlM (step ceilings source) b)
        (scan ceilings.depth b.frames.length b.offset text)

variable {lexemes : List Lexeme} {text : List Char}

/-- A lexeme that opens and closes nothing, and has nothing wrong, is passed over by both. -/
lemma AgreesOn.pass {lexeme : Lexeme} (h : AgreesOn ceilings source lexemes rest)
    (hlength : text.length = lexeme.source.length + rest.length)
    (hscan : ∀ depth offset, scan ceilings.depth depth offset text =
      scan ceilings.depth depth (offset + lexeme.source.length) rest)
    (hstep : ∀ b, ∃ c, step ceilings source b lexeme = .ok c ∧ c.frames = b.frames ∧
      c.offset = b.offset + lexeme.source.length ∧ c.problems = b.problems) :
    AgreesOn ceilings source (lexeme :: lexemes) text := by
  intro b hdepth hproblems hoffset
  obtain ⟨c, hstep, hframes, hnext, hnoted⟩ := hstep b
  rw [List.foldlM_cons, hstep, hscan, ← hframes, ← hnext]
  exact h c (hframes ▸ hdepth) (hnoted.trans hproblems) (by omega)

/-- The scan and the machine pass a blank. -/
lemma AgreesOn.blank (h : AgreesOn ceilings source lexemes rest)
    (hlead : Lexeme.lead c rest = .blank) :
    AgreesOn ceilings source (.blank c :: lexemes) (c :: rest) :=
  h.pass (Nat.add_comm _ _) (fun _ _ => scan_blank hlead) fun b =>
    ⟨b.consume 1 .space, rfl, rfl, rfl, rfl⟩

/-- What a token that has nothing wrong does to the machine. -/
lemma exists_step_of_token {lexeme : Lexeme}
    (hmade : ∀ id span, ∃ token, Token.ofLexeme? id source span lexeme = some token ∧
      token.fault = none) (b : TreeBuilder) :
    ∃ c, step ceilings source b lexeme = .ok c ∧ c.frames = b.frames ∧
      c.offset = b.offset + lexeme.source.length ∧ c.problems = b.problems := by
  obtain ⟨token, hmade, hfault⟩ := hmade b.nextId ⟨b.offset, b.offset + lexeme.source.length⟩
  refine ⟨_, step_of_ofLexeme? hmade, rfl, rfl, ?_⟩
  simp only [consume, addToken, hfault]

/-- The scan passes a delimiter, of which the machine makes a token. -/
lemma AgreesOn.delimiter (h : AgreesOn ceilings source lexemes rest)
    (hlead : Lexeme.lead c rest = .delimiter) :
    AgreesOn ceilings source (.delimiter c :: lexemes) (c :: rest) :=
  h.pass (Nat.add_comm _ _) (fun _ _ => scan_delimiter hlead)
    (exists_step_of_token fun _ _ => ⟨_, rfl, rfl⟩)

/-- The scan passes a run character by character, and the machine makes one token of it. -/
lemma AgreesOn.run {kind : RunKind}
    (h : AgreesOn ceilings source lexemes (Lexeme.runPiece kind rest).rest)
    (hlead : Lexeme.lead c rest = .run kind) :
    AgreesOn ceilings source (.run kind (c :: (Lexeme.runPiece kind rest).body) :: lexemes)
      (c :: rest) := by
  have hsource := congrArg List.length (Lexeme.source_runPiece kind rest)
  rw [List.length_append] at hsource
  refine h.pass ?_ (fun depth offset => ?_) (exists_step_of_token fun id span => ?_)
  · simp only [Lexeme.source, List.length_cons]
    omega
  · rw [scan_run hlead, scan_runPiece kind rest, Lexeme.source, List.length_cons, Nat.add_assoc,
      Nat.add_comm 1]
  · have hword : ∀ class_ text, (Token.ofWord id class_ text span).fault = none := by
      intro class_ text
      unfold Token.ofWord
      split <;> rfl
    cases kind with
    | symbol | word => exact ⟨_, rfl, hword _ _⟩
    | other => exact ⟨_, rfl, rfl⟩

/-- A text with a terminator of its own is passed over by both if it is terminated. If it is not,
both have come to the end. -/
lemma AgreesOn.enclosed {lexeme : Lexeme} {closed : Bool} {fault : TokenFault} {left : List Char}
    (henclosed : Encloses c rest lexeme closed fault left)
    (h : AgreesOn ceilings source (Lexeme.scan left) left) :
    AgreesOn ceilings source (lexeme :: Lexeme.scan left) (c :: rest) := by
  obtain ⟨inner, hsource, hrest, -⟩ := henclosed.source
  have hlength : (c :: rest).length = lexeme.source.length + left.length := by
    rw [hsource, hrest, ← List.length_append, List.cons_append]
  cases closed with
  | true =>
    exact h.pass hlength (fun _ _ => henclosed.scan_eq) (exists_step_of_token fun id span =>
      (henclosed.token id source span).imp fun _ h => ⟨h.1, h.2.2⟩)
  | false =>
    intro b hdepth hproblems hoffset
    obtain rfl : left = [] := henclosed.left_eq rfl
    obtain ⟨token, hmade, hspan, hfault⟩ :=
      henclosed.token b.nextId source ⟨b.offset, b.offset + lexeme.source.length⟩
    have hstop : b.offset + lexeme.source.length = source.length := by
      rw [← hoffset, hlength, List.length_nil, Nat.add_zero]
    rw [Lexeme.scan_nil, List.foldlM_cons, step_of_ofLexeme? hmade, henclosed.scan_eq]
    refine ⟨_, rfl, rfl, hstop, ?_⟩
    simp [consume, addToken, hfault, hspan, hstop, hproblems]

/-- The scan and the machine go one deeper at an opening parenthesis, or stop there. -/
lemma AgreesOn.opening (h : AgreesOn ceilings source lexemes rest) :
    AgreesOn ceilings source (.opening :: lexemes) ('(' :: rest) := by
  intro b hdepth hproblems hoffset
  rw [List.length_cons] at hoffset
  rw [scan, if_pos rfl, List.foldlM_cons]
  by_cases hlimit : b.frames.length = ceilings.depth
  · rw [if_pos hlimit, step_opening_of_le hlimit.ge]
    rfl
  · have hopened : b.openList.frames.length = b.frames.length + 1 ∧
        b.openList.offset = b.offset + 1 ∧ b.openList.problems = b.problems := by
      unfold openList
      split
      · split <;> exact ⟨rfl, rfl, rfl⟩
      · exact ⟨rfl, rfl, rfl⟩
    obtain ⟨hframes, hnext, hnoted⟩ := hopened
    rw [if_neg hlimit, step_opening_of_lt (by omega), ← hframes, ← hnext]
    exact h b.openList (by omega) (hnoted.trans hproblems) (by omega)

/-- The scan and the machine come up at a closing parenthesis, or stop there. -/
lemma AgreesOn.closing (h : AgreesOn ceilings source lexemes rest) :
    AgreesOn ceilings source (.closing :: lexemes) (')' :: rest) := by
  intro b hdepth hproblems hoffset
  rw [List.length_cons] at hoffset
  rw [scan, if_neg (by decide), if_pos rfl, List.foldlM_cons]
  rcases hframes : b.frames with _ | ⟨frame, frames⟩
  · rw [List.length_nil, if_pos rfl, step_closing_of_nil hframes]
    rfl
  · rw [hframes, List.length_cons] at hdepth
    rw [List.length_cons, if_neg (Nat.succ_ne_zero _), Nat.add_sub_cancel,
      step_closing_of_cons hframes]
    exact h _ (Nat.le_of_succ_le hdepth) hproblems (by simp only [consume]; omega)

/-- The machine reads the lexemes of a text to the end to which the scan reads its characters. -/
theorem agreesOn_scan (text : List Char) : AgreesOn ceilings source (Lexeme.scan text) text := by
  fun_induction Lexeme.scan text with
  | case1 =>
    intro b _ hproblems hoffset
    rw [scan]
    exact ⟨b, rfl, rfl, hoffset, hproblems⟩
  | case2 c rest hlead ih => exact ih.blank hlead
  | case3 c rest hlead ih =>
    obtain rfl : c = '(' := Lexeme.leads_of_lead hlead
    exact ih.opening
  | case4 c rest hlead ih =>
    obtain rfl : c = ')' := Lexeme.leads_of_lead hlead
    exact ih.closing
  | case5 c rest hlead ih => exact ih.delimiter hlead
  | case6 c rest hlead piece ih => exact .enclosed (encloses_quoted hlead) ih
  | case7 c rest hlead piece ih => exact .enclosed (encloses_bracketed hlead) ih
  | case8 c rest hlead piece ih => exact .enclosed (encloses_block hlead) ih
  | case9 c rest kind hlead piece ih => exact ih.run hlead

end

end FlatScan

/-! ## Tokens that have something wrong -/

/-- What is wrong with a token, and where. -/
def Token.mark? (token : Token) : Option (TokenFault × Span) :=
  token.fault.map fun fault => (fault, token.span)

namespace TreeBuilder

open TokenTree

variable {ceilings : Ceilings} {source : List Char}

/-- What is wrong with the tokens that open parentheses and the innermost sequence hold, in the
order of the tokens. -/
def marks (frames : List Frame) (current : List TokenTree) : List (TokenFault × Span) :=
  (frames.reverse.flatMap (fun frame => tokensOf frame.before.reverse ++ [frame.owner]) ++
    tokensOf current.reverse).filterMap Token.mark?

/-- A tree that is added has its marks behind the others. -/
lemma marks_cons (frames : List Frame) (tree : TokenTree) (current : List TokenTree) :
    marks frames (tree :: current) = marks frames current ++ tree.tokens.filterMap Token.mark? := by
  simp [marks, tokensOf_append, tokensOf]

/-- The marks of an open parenthesis come before those of what is in it. -/
lemma marks_cons_frame (frame : Frame) (frames : List Frame) (current : List TokenTree) :
    marks (frame :: frames) current = marks frames frame.before ++
      (frame.owner :: tokensOf current.reverse).filterMap Token.mark? := by
  simp [marks, List.append_assoc, ← List.filterMap_append]

/-- Closing a list marks no token. -/
lemma marks_closeFrame (frame : Frame) (frames : List Frame) (current : List TokenTree)
    (stop : Nat) :
    marks frames (closeFrame frame current stop) = marks (frame :: frames) current := by
  rw [closeFrame, marks_cons, marks_cons_frame, tokens, tokensOf, List.append_nil]
  rfl

/-- Closing what is open loses no mark. -/
lemma marks_closeAll (stop : Nat) (frames : List Frame) (current : List TokenTree) :
    (tokensOf (closeAll stop frames current)).filterMap Token.mark? = marks frames current := by
  induction frames generalizing current with
  | nil => rfl
  | cons frame frames ih => rw [closeAll, ih, marks_closeFrame]

/-- Whether the machine has noted what is wrong with the tokens it holds, and nothing else. The
trees it holds are finished ones or single tokens. -/
structure NotesMarks (source : List Char) (b : TreeBuilder) : Prop where
  noted : b.problems.reverse =
    (marks b.frames b.current).map fun mark => problemAt source mark.1 mark.2
  current : ∀ tree ∈ b.current, tree.token.childrenEnd = none → tree = { token := tree.token }
  before : ∀ frame ∈ b.frames, ∀ tree ∈ frame.before, tree.token.childrenEnd = none →
    tree = { token := tree.token }

/-- A machine that notes what it marks goes on to do so. -/
lemma NotesMarks.reads {b c : TreeBuilder} {lexeme : Lexeme} (h : b.NotesMarks source)
    (hreads : Reads ceilings source b lexeme c) :
    c.NotesMarks source := by
  obtain ⟨hnoted, hcurrent, hbefore⟩ := h
  cases hreads with
  | blank => exact ⟨hnoted, hcurrent, hbefore⟩
  | @token lexeme token made =>
    refine ⟨?_, List.forall_mem_cons.mpr ⟨fun _ => rfl, hcurrent⟩, hbefore⟩
    have hmarks : marks b.frames ({ token } :: b.current) =
        marks b.frames b.current ++ token.mark?.toList := by
      rw [marks_cons, tokens]
      cases hmark : token.mark? <;> simp [tokensOf, hmark]
    change (b.addToken source token).problems.reverse =
      List.map _ (marks b.frames ({ token } :: b.current))
    rw [hmarks, List.map_append, ← hnoted, addToken]
    cases hfault : token.fault <;> simp [Token.mark?, hfault]
  | @claim tree before depth current claims =>
    rw [current] at hnoted hcurrent
    obtain ⟨htree, hrest⟩ := List.forall_mem_cons.mp hcurrent
    refine ⟨?_, by simp, List.forall_mem_cons.mpr ⟨hrest, hbefore⟩⟩
    rw [htree (Token.childless_of_claims claims), marks_cons] at hnoted
    refine hnoted.trans ?_
    dsimp only
    rw [marks_cons_frame]
    rfl
  | group =>
    refine ⟨?_, by simp [openList.openGroup], List.forall_mem_cons.mpr ⟨hcurrent, hbefore⟩⟩
    refine hnoted.trans ?_
    dsimp only [openList.openGroup]
    rw [marks_cons_frame]
    exact congrArg (List.map _) (List.append_nil _).symm
  | @close frame frames frames_eq =>
    rw [frames_eq] at hnoted hbefore
    obtain ⟨hfirst, hrest⟩ := List.forall_mem_cons.mp hbefore
    refine ⟨?_, List.forall_mem_cons.mpr ⟨by simp, hfirst⟩, hrest⟩
    refine hnoted.trans ?_
    dsimp only
    rw [marks_closeFrame]

end TreeBuilder

namespace TokenForest

open TreeBuilder

variable {text : String} {ceilings : Ceilings}

/-- A problem tells what is wrong, and where. -/
lemma problemAt_injective (source : List Char) : Function.Injective
    fun mark : TokenFault × Span => problemAt source mark.1 mark.2 := by
  rintro ⟨fault, span⟩ ⟨fault', span'⟩ h
  simp only [problemAt, Problem.mk.injEq, Fault.token.injEq, Option.some.injEq,
    Location.mk.injEq] at h
  obtain ⟨rfl, ⟨-, rfl⟩, -⟩ := h
  rfl

/-- The cutting of a text fails at the first parenthesis that a flat scan of its characters cannot
place: a closing one where none is open, or an opening one at the greatest depth. It succeeds for
all other texts. Then it reports the one text with a terminator of its own that runs into the end of
the source, and no token is marked but the one of that text; and it reports every parenthesis that
is open at the end. -/
theorem ofText_of_flatScan (text : String) (ceilings : Ceilings) :
    let source := text.toList.map Text.straightenChar
    match FlatScan.scan ceilings.depth 0 0 source with
    | .unexpected offset => ∃ problem, ofText text ceilings = .error problem ∧
        problem = problemAt source .unexpectedParenthesis ⟨offset, offset + 1⟩ ∧
        problem.kind = .structural
    | .tooDeep offset => ∃ problem, ofText text ceilings = .error problem ∧
        problem = problemAt source (.nestedTooDeep ceilings.depth) ⟨offset, offset + 1⟩ ∧
        problem.kind = .internal
    | .complete opened cut => ∃ forest, ofText text ceilings = .ok forest ∧
        forest.problems =
          (cut.toList.map fun fault => problemAt source fault.1 ⟨fault.2, source.length⟩) ++
            List.replicate opened
              (problemAt source .missingParenthesis ⟨source.length, source.length⟩) ∧
        forest.tokens.filterMap Token.mark? =
          cut.toList.map fun fault => (fault.1, ⟨fault.2, source.length⟩) := by
  intro source
  have hagrees : FlatScan.Agrees ceilings source
      ((Lexeme.scan source).foldlM (step ceilings source) {})
      (FlatScan.scan ceilings.depth 0 0 source) :=
    FlatScan.agreesOn_scan source {} (Nat.zero_le _) rfl (Nat.zero_add _)
  have hfails : ∀ problem, (Lexeme.scan source).foldlM (step ceilings source) {} = .error problem →
      ofText text ceilings = .error problem := by
    intro problem hproblem
    rw [ofText, hproblem]
    rfl
  cases hscan : FlatScan.scan ceilings.depth 0 0 source with
  | unexpected offset =>
    rw [hscan] at hagrees
    exact ⟨_, hfails _ hagrees, rfl, rfl⟩
  | tooDeep offset =>
    rw [hscan] at hagrees
    exact ⟨_, hfails _ hagrees, rfl, rfl⟩
  | complete opened cut =>
    rw [hscan] at hagrees
    obtain ⟨b, hb, hopened, hoffset, hproblems⟩ := hagrees
    have hmarks : b.NotesMarks source := by
      refine invariant (I := fun _ b => b.NotesMarks source) ?_ _ [] {} b rfl
        ⟨rfl, by simp, by simp⟩ hb
      exact fun _ _ _ _ _ _ h hreads => h.reads hreads
    -- There is at most one such text, so the order in which problems are noted does not matter.
    have hreverse : b.problems.reverse = b.problems := by
      rw [hproblems]
      cases cut <;> rfl
    refine ⟨_, ofText_of_builder hb, ?_, ?_⟩
    · rw [finish, hreverse, hproblems, hopened, hoffset]
    · rw [finish, tokens, marks_closeAll]
      apply List.map_injective_iff.mpr (problemAt_injective source)
      rw [← hmarks.noted, hreverse, hproblems, List.map_map]
      rfl

end TokenForest

end RecordQuery
