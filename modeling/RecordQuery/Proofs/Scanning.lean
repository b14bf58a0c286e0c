import Mathlib.Data.List.Infix
import RecordQuery.Property
import RecordQuery.Token.Tree

/-!
# Scanning

What a text begins with decides its first lexeme. The lemmas of this file say so for each sort of
lexeme, and for each sort they say what has to follow for the lexeme to end there: words and signs
end where a blank, a comma or a parenthesis follows, all else ends at a terminator of its own.
-/

namespace RecordQuery

/-- What is said of the characters of a text is decided over the text, not over all characters. -/
instance decidableOver {P : Char → Prop} [DecidablePred P] (text : List Char) :
    Decidable (∀ c ∈ text, P c) :=
  List.decidableBAll P text

namespace Lexeme

@[simp] lemma scan_nil : scan [] = [] := (scan.eq_def []).trans rfl

/-- The first lexeme of a text, and the rest of the text. -/
lemma scan_cons (c : Char) (rest : List Char) :
    scan (c :: rest) =
      match lead c rest with
      | .blank => blank c :: scan rest
      | .opening => opening :: scan rest
      | .closing => closing :: scan rest
      | .delimiter => delimiter c :: scan rest
      | .quote =>
        quoted c (quotedPiece c rest).body (quotedPiece c rest).closed ::
          scan (quotedPiece c rest).rest
      | .bracket =>
        bracketed (bracketedPiece rest).body (bracketedPiece rest).closed ::
          scan (bracketedPiece rest).rest
      | .block =>
        block (blockPiece (rest.drop 2)).body (blockPiece (rest.drop 2)).closed ::
          scan (blockPiece (rest.drop 2)).rest
      | .run kind =>
        run kind (c :: (runPiece kind rest).body) :: scan (runPiece kind rest).rest :=
  (scan.eq_def (c :: rest)).trans rfl

/-! ## Single characters -/

@[simp] lemma scan_blank (rest : List Char) : scan (' ' :: rest) = blank ' ' :: scan rest := by
  rw [scan_cons]
  rfl

@[simp] lemma scan_opening (rest : List Char) : scan ('(' :: rest) = opening :: scan rest := by
  rw [scan_cons]
  rfl

@[simp] lemma scan_closing (rest : List Char) : scan (')' :: rest) = closing :: scan rest := by
  rw [scan_cons]
  rfl

@[simp] lemma scan_comma (rest : List Char) : scan (',' :: rest) = delimiter ',' :: scan rest := by
  rw [scan_cons]
  rfl

/-! ## Words and signs -/

/-- Whether a text is over, or goes on with a character that ends words and signs. -/
def Breaks (rest : List Char) : Prop :=
  ∀ c ∈ rest.head?, c = ' ' ∨ c = ',' ∨ c = '(' ∨ c = ')'

/-- The end of the text breaks a word. -/
lemma Breaks.nil : Breaks [] := by simp [Breaks]

/-- A blank breaks a word. -/
lemma Breaks.blank (rest : List Char) : Breaks (' ' :: rest) := by simp [Breaks]

/-- A comma breaks a word. -/
lemma Breaks.comma (rest : List Char) : Breaks (',' :: rest) := by simp [Breaks]

/-- An opening parenthesis breaks a word. -/
lemma Breaks.opening (rest : List Char) : Breaks ('(' :: rest) := by simp [Breaks]

/-- A closing parenthesis breaks a word. -/
lemma Breaks.closing (rest : List Char) : Breaks (')' :: rest) := by simp [Breaks]

/-- A run ends where something else begins. -/
lemma runPiece_of_breaks {kind : RunKind} {rest : List Char} (h : Breaks rest) :
    (runPiece kind rest).body = [] ∧ (runPiece kind rest).rest = rest := by
  cases rest with
  | nil => exact ⟨rfl, rfl⟩
  | cons c rest =>
    have hlead : lead c rest ≠ .run kind := by
      obtain rfl | rfl | rfl | rfl := h c rfl <;> cases kind <;> exact fun h => nomatch h
    rw [runPiece, if_neg hlead]
    exact ⟨rfl, rfl⟩

/-- The characters of words that are written without brackets. -/
def isPlainChar (c : Char) : Bool := PropertyRef.continuesBare c || c == ':'

/-- Plain characters are ASCII. -/
lemma isPlainChar_lt {c : Char} (h : isPlainChar c = true) : c.toNat < 0x80 := by
  have below : ∀ {a : Char}, c ≤ a → a.toNat < 0x80 → c.toNat < 0x80 := fun hca ha =>
    Nat.lt_of_le_of_lt (show c.toNat ≤ _ from hca) ha
  simp only [isPlainChar, PropertyRef.continuesBare, PropertyRef.startsBare, Bool.or_eq_true,
    Bool.and_eq_true, decide_eq_true_eq, beq_iff_eq] at h
  obtain (((((⟨-, h⟩ | ⟨-, h⟩) | rfl) | ⟨-, h⟩) | rfl) | rfl) | rfl := h
  · exact below h (by decide)
  · exact below h (by decide)
  · decide
  · exact below h (by decide)
  · decide
  · decide
  · decide

/-- A plain character begins a word. -/
lemma lead_of_isPlainChar {c : Char} (h : isPlainChar c = true) (rest : List Char) :
    lead c rest = .run .word := by
  have hall : ∀ n : Fin 0x80, isPlainChar (Char.ofNat n) = true →
      (Text.isBlank (Char.ofNat n) || "(),;\"'[<".toList.contains (Char.ofNat n) ||
        isSign (Char.ofNat n)) = false ∧ isWordChar (Char.ofNat n) = true := by
    decide +kernel
  have hc := hall ⟨c.toNat, isPlainChar_lt h⟩
  simp only [Char.ofNat_toNat] at hc
  obtain ⟨hother, hword⟩ := hc h
  simp at hother
  simp [lead, hother, hword]

/-- A word that ends is one lexeme. -/
lemma scan_word {word rest : List Char} (hne : word ≠ [])
    (hword : ∀ c ∈ word, isPlainChar c = true) (hrest : Breaks rest) :
    scan (word ++ rest) = run .word word :: scan rest := by
  have hpiece : ∀ word : List Char, (∀ c ∈ word, isPlainChar c = true) →
      (runPiece .word (word ++ rest)).body = word ∧
      (runPiece .word (word ++ rest)).rest = rest := by
    intro word hword
    induction word with
    | nil => exact runPiece_of_breaks hrest
    | cons c word ih =>
      obtain ⟨hc, hword⟩ := List.forall_mem_cons.mp hword
      obtain ⟨hbody, hleft⟩ := ih hword
      rw [List.cons_append, runPiece, if_pos (lead_of_isPlainChar hc _), Piece.cons]
      exact ⟨by rw [hbody], hleft⟩
  cases word with
  | nil => exact absurd rfl hne
  | cons c word =>
    obtain ⟨hc, hword⟩ := List.forall_mem_cons.mp hword
    obtain ⟨hbody, hleft⟩ := hpiece word hword
    rw [List.cons_append, scan_cons, lead_of_isPlainChar hc]
    dsimp only
    rw [hbody, hleft]

/-- A comparison sign that ends is one lexeme. -/
lemma scan_sign {sign rest : List Char}
    (hsign : sign ∈ ["=", "!=", ">", "<", ">=", "<="].map String.toList) (hrest : Breaks rest) :
    scan (sign ++ rest) = run .symbol sign :: scan rest := by
  have hend : (runPiece .symbol rest).body = [] ∧ (runPiece .symbol rest).rest = rest :=
    runPiece_of_breaks hrest
  obtain ⟨hbody, hleft⟩ := hend
  have hblock : ['<', '<'].isPrefixOf rest = false ∧ ['<'].isPrefixOf rest = false := by
    cases rest with
    | nil => exact ⟨rfl, rfl⟩
    | cons c rest => obtain rfl | rfl | rfl | rfl := hrest c rfl <;> exact ⟨rfl, rfl⟩
  have hequals : ∀ rest, lead '=' rest = .run .symbol := fun _ => rfl
  have hgreater : ∀ rest, lead '>' rest = .run .symbol := fun _ => rfl
  have hnot : ∀ rest, lead '!' rest = .run .symbol := fun _ => rfl
  have hless : lead '<' rest = .run .symbol := by simp [lead, hblock.1, isSign, Text.isBlank]
  have hlessEqual : lead '<' ('=' :: rest) = .run .symbol := rfl
  simp only [List.map_cons, List.map_nil, List.mem_cons, List.not_mem_nil, or_false] at hsign
  obtain rfl | rfl | rfl | rfl | rfl | rfl := hsign <;>
    simp [scan_cons, hequals, hgreater, hnot, hless, hlessEqual, runPiece, Piece.cons, hbody, hleft]

/-! ## Brackets and quotes -/

/-- A name without a closing bracket ends at the bracket behind it. -/
lemma bracketedPiece_append {body : List Char} (h : ']' ∉ body) (rest : List Char) :
    bracketedPiece (body ++ ']' :: rest) = ⟨body, true, rest⟩ := by
  induction body with
  | nil => rfl
  | cons c body ih =>
    rw [List.mem_cons, not_or] at h
    rw [List.cons_append, bracketedPiece, if_neg (Ne.symm h.1), ih h.2]
    rfl

/-- A text in brackets is one lexeme. -/
lemma scan_bracketed {body : List Char} (h : ']' ∉ body) (rest : List Char) :
    scan ('[' :: body ++ ']' :: rest) = bracketed body true :: scan rest := by
  have hlead : lead '[' (body ++ ']' :: rest) = .bracket := rfl
  rw [List.cons_append, scan_cons, hlead]
  dsimp only
  rw [bracketedPiece_append h]

/-- The text in a quotation, taken as it stands. -/
def verbatim : Lexeme → List Char
  | quoted _ body _ | block body _ => body
  | _ => []

/-- The text in a quotation, its escapes taken out. -/
def literal : Lexeme → List Char
  | quoted quote body _ => Text.unescape quote body
  | block body _ => body
  | _ => []

/-- Whether a lexeme is a quotation that ends at its terminator, whatever follows. -/
def Closes : Lexeme → Prop
  | quoted quote body closed => closed = true ∧ (quote = '\'' ∨ quote = '"') ∧
      ∀ rest, quotedPiece quote (body ++ quote :: rest) = ⟨body, true, rest⟩
  | block body closed => closed = true ∧
      ∀ rest, blockPiece (body ++ '>' :: '>' :: '>' :: rest) = ⟨body, true, rest⟩
  | _ => False

/-- A quotation is one lexeme. -/
lemma scan_quotation {lexeme : Lexeme} (h : lexeme.Closes) (rest : List Char) :
    scan (lexeme.source ++ rest) = lexeme :: scan rest := by
  cases lexeme with
  | quoted quote body closed =>
    obtain ⟨rfl, hquote, hpiece⟩ := h
    have hlead : ∀ rest, lead quote rest = .quote := by
      obtain rfl | rfl := hquote <;> exact fun _ => rfl
    have hsource : (quoted quote body true).source ++ rest = quote :: (body ++ quote :: rest) := by
      simp [source, terminator]
    rw [hsource, scan_cons, hlead]
    dsimp only
    rw [hpiece]
  | block body closed =>
    obtain ⟨rfl, hpiece⟩ := h
    have hsource : (block body true).source ++ rest =
        '<' :: '<' :: '<' :: (body ++ '>' :: '>' :: '>' :: rest) := by
      simp [source, terminator]
    have hlead : lead '<' ('<' :: '<' :: (body ++ '>' :: '>' :: '>' :: rest)) = .block := rfl
    rw [hsource, scan_cons, hlead]
    dsimp only [List.drop]
    rw [hpiece]
  | _ => exact h.elim

end Lexeme

end RecordQuery
