import Mathlib.Data.List.Forall2
import RecordQuery.Proofs.Lexemes

/-!
# The layout of a text

A text can be laid out in other ways: what is blank between its tokens can be more or less of
another sort, and letters can be capitals. `Text.Relaid` says so of two texts. What a text begins
with does not depend on its layout, nor where its first lexeme ends, so two layouts of a text are
cut at the same places, into lexemes that hold the same but for the case of letters.
-/

namespace RecordQuery

open Lexeme

namespace Text

/-- Two characters that are the same, or, where that is free, one letter as a small one and as a
capital. -/
def SameLetter (loose : Prop) (c d : Char) : Prop := c = d ∨ (loose ∧ c.toUpper = d.toUpper)

/-- Two layouts of a text: letters may be capitals, and runs of blanks may be other ones. -/
inductive Relaid : List Char → List Char → Prop
  | nil : Relaid [] []
  | char {c d : Char} {a b : List Char} (same : SameLetter True c d) (rest : Relaid a b) :
      Relaid (c :: a) (d :: b)
  | blanks {run run' a b : List Char} (nonempty : run ≠ []) (nonempty' : run' ≠ [])
      (blank : ∀ c ∈ run, isBlank c = true) (blank' : ∀ c ∈ run', isBlank c = true)
      (rest : Relaid a b) : Relaid (run ++ a) (run' ++ b)

namespace SameLetter

variable {loose : Prop} {c d x : Char}

/-- The same letter is the same in capitals. -/
lemma toUpper_eq (h : SameLetter loose c d) : c.toUpper = d.toUpper := by
  obtain rfl | ⟨-, h⟩ := h
  · rfl
  · exact h

/-- The same letter is so where case does not matter. -/
lemma free (h : SameLetter loose c d) : SameLetter True c d := .inr ⟨trivial, h.toUpper_eq⟩

/-- Where case matters, the same letter is the same character. -/
lemma eq_of_not (h : SameLetter loose c d) (hloose : ¬ loose) : c = d :=
  h.resolve_right fun hupper => hloose hupper.1

/-- A capital is a letter. -/
lemma isPlainChar_toUpper (hne : c.toUpper ≠ c) :
    isPlainChar c = true ∧ isPlainChar c.toUpper = true := by
  have hall : ∀ n : Fin 0x80, (Char.ofNat n).toUpper ≠ Char.ofNat n →
      isPlainChar (Char.ofNat n) = true ∧ isPlainChar (Char.ofNat n).toUpper = true := by
    decide +kernel
  have hlt : c.toNat < 0x80 := by
    by_contra hlt
    have hlower : ¬ ('a'.val ≤ c.val ∧ c.val ≤ 'z'.val) := fun h =>
      hlt (Nat.lt_of_le_of_lt (show c.toNat ≤ 'z'.toNat from h.2) (by decide))
    exact hne (dif_neg hlower)
  have hc := hall ⟨c.toNat, hlt⟩
  simp only [Char.ofNat_toNat] at hc
  exact hc hne

/-- Characters that differ are letters. -/
lemma eq_or_isPlainChar (h : SameLetter loose c d) :
    c = d ∨ (isPlainChar c = true ∧ isPlainChar d = true) := by
  have hupper := h.toUpper_eq
  by_cases hc : c.toUpper = c
  · by_cases hd : d.toUpper = d
    · exact .inl (hc.symm.trans (hupper.trans hd))
    · have hplain := isPlainChar_toUpper hd
      exact .inr ⟨by rw [← hc, hupper]; exact hplain.2, hplain.1⟩
  · have hplain := isPlainChar_toUpper hc
    by_cases hd : d.toUpper = d
    · exact .inr ⟨hplain.1, by rw [← hd, ← hupper]; exact hplain.2⟩
    · exact .inr ⟨hplain.1, (isPlainChar_toUpper hd).1⟩

/-- A sign is the same in all layouts. -/
lemma eq_sign (h : SameLetter loose c d) (hc : isPlainChar c = false) : d = c := by
  obtain rfl | hplain := h.eq_or_isPlainChar
  · rfl
  · rw [hplain.1] at hc
    cases hc

/-- Case changes no sign. -/
lemma eq_sign_iff (h : SameLetter loose c d) (hx : isPlainChar x = false) : c = x ↔ d = x := by
  constructor
  · rintro rfl
    exact h.eq_sign hx
  · rintro rfl
    obtain rfl | hplain := h.eq_or_isPlainChar
    · rfl
    · rw [hplain.2] at hx
      cases hx

end SameLetter

/-- A blank is no plain character. -/
lemma isPlainChar_of_isBlank {c : Char} (h : isBlank c = true) : isPlainChar c = false := by
  by_contra hplain
  have hlead := leads_of_lead (lead_of_isPlainChar (Bool.not_eq_false _ ▸ hplain) [])
  exact absurd (h.symm.trans hlead.1) nofun

/-- A blank has no case. -/
lemma toUpper_of_isBlank {c : Char} (h : isBlank c = true) : c.toUpper = c := by
  by_contra hne
  have hplain := (SameLetter.isPlainChar_toUpper hne).1
  rw [isPlainChar_of_isBlank h] at hplain
  cases hplain

namespace Relaid

variable {a b r r' : List Char}

/-- Two texts are laid out otherwise if their beginnings have the same letters and what follows is
laid out otherwise. -/
lemma of_forall₂ {loose : Prop} (h : List.Forall₂ (SameLetter loose) a b) (hr : Relaid r r') :
    Relaid (a ++ r) (b ++ r') := by
  induction h with
  | nil => exact hr
  | cons hcd _ ih => exact .char hcd.free ih

/-- A common beginning may stand before two layouts. -/
lemma append_left (common : List Char) (h : Relaid a b) : Relaid (common ++ a) (common ++ b) := by
  induction common with
  | nil => exact h
  | cons c common ih => exact .char (.inl rfl) ih

/-- Layouts may be put one behind the other. -/
lemma append (h : Relaid a b) (hr : Relaid r r') : Relaid (a ++ r) (b ++ r') := by
  induction h with
  | nil => exact hr
  | char same _ ih => exact .char same ih
  | blanks nonempty nonempty' blank blank' _ ih =>
    rw [List.append_assoc, List.append_assoc]
    exact .blanks nonempty nonempty' blank blank' ih

/-- The empty text has one layout. -/
lemma eq_nil (h : Relaid [] b) : b = [] := by
  generalize ha : ([] : List Char) = a at h
  cases h with
  | nil => rfl
  | char => cases ha
  | blanks nonempty => exact absurd (List.append_eq_nil_iff.mp ha.symm).1 nonempty

/-- Both texts begin with one letter, or both with a blank. -/
lemma exists_cons {c : Char} (h : Relaid (c :: a) b) :
    ∃ d b', b = d :: b' ∧
      ((SameLetter True c d ∧ Relaid a b') ∨ (isBlank c = true ∧ isBlank d = true)) := by
  generalize hca : c :: a = ca at h
  cases h with
  | nil => cases hca
  | @char e d a' b' same rest =>
    obtain ⟨rfl, rfl⟩ := List.cons.inj hca
    exact ⟨d, b', rfl, .inl ⟨same, rest⟩⟩
  | @blanks run run' a' b' nonempty nonempty' blank blank' rest =>
    obtain ⟨d, more, rfl⟩ := List.exists_cons_of_ne_nil nonempty'
    obtain ⟨e, more', rfl⟩ := List.exists_cons_of_ne_nil nonempty
    obtain ⟨rfl, -⟩ := List.cons.inj hca
    exact ⟨d, more ++ b', rfl, .inr ⟨blank c (by simp), blank' d (by simp)⟩⟩

/-- Both texts begin with a word that has no blanks, or none does. The word is looked for in what
`f` makes of the characters, which tells none of its characters from those it may be replaced by. -/
lemma isPrefixOf_eq {f : Char → Char} (word : List Char)
    (hsame : ∀ x ∈ word, ∀ c d, SameLetter True c d → (x = f c ↔ x = f d))
    (hblank : ∀ x ∈ word, ∀ c, isBlank c = true → x ≠ f c) (h : Relaid a b) :
    word.isPrefixOf (a.map f) = word.isPrefixOf (b.map f) := by
  induction word generalizing a b with
  | nil => rfl
  | cons x word ih =>
    obtain ⟨hx, hword⟩ := List.forall_mem_cons.mp hsame
    obtain ⟨hx', hword'⟩ := List.forall_mem_cons.mp hblank
    cases a with
    | nil => rw [h.eq_nil]
    | cons c a =>
      obtain ⟨d, b, rfl, ⟨same, rest⟩ | ⟨hc, hd⟩⟩ := h.exists_cons
      · rw [List.map_cons, List.map_cons, List.isPrefixOf, List.isPrefixOf, ih hword hword' rest]
        congr 1
        rw [Bool.eq_iff_iff, beq_iff_eq, beq_iff_eq]
        exact hx c d same
      · rw [List.map_cons, List.map_cons, List.isPrefixOf, List.isPrefixOf,
          beq_eq_false_iff_ne.mpr (hx' c hc), beq_eq_false_iff_ne.mpr (hx' d hd)]
        rfl

/-- Both texts begin with some signs, or none does. -/
lemma isPrefixOf_signs {signs : List Char}
    (hsigns : ∀ x ∈ signs, isPlainChar x = false ∧ isBlank x = false) (h : Relaid a b) :
    signs.isPrefixOf a = signs.isPrefixOf b := by
  have hmap := h.isPrefixOf_eq (f := fun c => c) signs
    (fun x hx c d same => by
      rw [eq_comm, same.eq_sign_iff (hsigns x hx).1, eq_comm])
    (fun x hx c hc => by
      rintro rfl
      rw [(hsigns x hx).2] at hc
      cases hc)
  rwa [List.map_id', List.map_id'] at hmap

/-- A word without blanks is mentioned, in any case, in both texts or in none. -/
lemma occursIn_eq {word : List Char} (hne : word ≠ [])
    (hword : ∀ x ∈ word, isBlank x = false) (h : Relaid a b) :
    occursIn word (a.map Char.toUpper) = occursIn word (b.map Char.toUpper) := by
  have hblank : ∀ x ∈ word, ∀ c, isBlank c = true → x ≠ c.toUpper := by
    rintro _ hx c hc rfl
    rw [toUpper_of_isBlank hc] at hx
    exact absurd (hc.symm.trans (hword c hx)) nofun
  have hlead {c d : List Char} (h : Relaid c d) :
      word.isPrefixOf (c.map Char.toUpper) = word.isPrefixOf (d.map Char.toUpper) :=
    h.isPrefixOf_eq word (fun x _ c d same => by rw [same.toUpper_eq]) hblank
  -- no word begins in a run of blanks
  have hskip (run c : List Char) (hrun : ∀ c ∈ run, isBlank c = true) :
      occursIn word ((run ++ c).map Char.toUpper) = occursIn word (c.map Char.toUpper) := by
    obtain ⟨x, more, rfl⟩ := List.exists_cons_of_ne_nil hne
    induction run with
    | nil => rfl
    | cons d run ih =>
      obtain ⟨hd, hrun⟩ := List.forall_mem_cons.mp hrun
      rw [List.cons_append, List.map_cons, occursIn, ih hrun, List.isPrefixOf,
        beq_eq_false_iff_ne.mpr (hblank x List.mem_cons_self d hd), Bool.false_and,
        Bool.false_or]
  induction h with
  | nil => rfl
  | char same rest ih =>
    rw [List.map_cons, List.map_cons, occursIn, occursIn, ih, ← List.map_cons, ← List.map_cons,
      hlead (.char same rest)]
  | blanks nonempty nonempty' blank blank' rest ih => rw [hskip _ _ blank, hskip _ _ blank', ih]

/-- What a text begins with does not depend on its layout. -/
lemma lead_eq {c d : Char} (h : Relaid (c :: a) (d :: b)) : lead c a = lead d b := by
  obtain ⟨_, _, hcons, ⟨same, rest⟩ | ⟨hc, hd⟩⟩ := h.exists_cons
  · obtain ⟨rfl, rfl⟩ := List.cons.inj hcons
    obtain rfl | ⟨hc, hd⟩ := same.eq_or_isPlainChar
    · have hblock : ['<', '<'].isPrefixOf a = ['<', '<'].isPrefixOf b :=
        rest.isPrefixOf_signs (by decide)
      rw [lead, lead, hblock]
    · rw [lead_of_isPlainChar hc, lead_of_isPlainChar hd]
  · obtain ⟨rfl, rfl⟩ := List.cons.inj hcons
    rw [lead, lead, if_pos hc, if_pos hd]

end Relaid

end Text

/-! ## Lexemes -/

namespace Lexeme

open Text

variable {loose : Prop} {text body' r' : List Char}

/-- Two lexemes that hold the same, but for the case of letters. -/
inductive Recased (loose : Prop) : Lexeme → Lexeme → Prop
  | blank (c : Char) : Recased loose (.blank c) (.blank c)
  | opening : Recased loose .opening .opening
  | closing : Recased loose .closing .closing
  | delimiter (c : Char) : Recased loose (.delimiter c) (.delimiter c)
  | quoted (quote : Char) {body body' : List Char} (closed : Bool)
      (same : List.Forall₂ (SameLetter loose) body body') :
      Recased loose (.quoted quote body closed) (.quoted quote body' closed)
  | block {body body' : List Char} (closed : Bool)
      (same : List.Forall₂ (SameLetter loose) body body') :
      Recased loose (.block body closed) (.block body' closed)
  | bracketed {body body' : List Char} (closed : Bool)
      (same : List.Forall₂ (SameLetter loose) body body') :
      Recased loose (.bracketed body closed) (.bracketed body' closed)
  | run (kind : RunKind) {chars chars' : List Char}
      (same : List.Forall₂ (SameLetter loose) chars chars') :
      Recased loose (.run kind chars) (.run kind chars')

/-- A quotation ends where it ended, whatever the case of its letters and the layout behind it. -/
lemma quotedPiece_recased {quote : Char} (hquote : quote = '"' ∨ quote = '\'')
    (hbody : List.Forall₂ (SameLetter loose) (quotedPiece quote text).body body')
    (hr : Relaid (quotedPiece quote text).rest r') :
    quotedPiece quote (body' ++ (terminator (quotedPiece quote text).closed [quote] ++ r')) =
      ⟨body', (quotedPiece quote text).closed, r'⟩ := by
  have hsign : isPlainChar quote = false := by obtain rfl | rfl := hquote <;> decide
  have hbackslash : quote ≠ '\\' := by obtain rfl | rfl := hquote <;> decide
  fun_induction quotedPiece quote text generalizing body' with
  | case1 =>
    cases hbody
    rw [hr.eq_nil]
    rfl
  | case2 c rest ih =>
    obtain ⟨_, tail, hslash, htail, rfl⟩ := List.forall₂_cons_left_iff.mp hbody
    obtain ⟨d, body', -, hmore, rfl⟩ := List.forall₂_cons_left_iff.mp htail
    obtain rfl := hslash.eq_sign (by decide)
    rw [List.cons_append, List.cons_append, quotedPiece]
    dsimp only [Piece.cons]
    rw [ih hmore hr]
  | case3 rest =>
    cases hbody
    have hend : ∀ d tail, quote = '\\' → r' = d :: tail → False := fun _ _ h _ => hbackslash h
    show quotedPiece quote (quote :: r') = ⟨[], true, r'⟩
    rw [quotedPiece, if_pos rfl]
    exact hend
  | case4 c rest hc hne ih =>
    obtain ⟨d, body', hcd, hmore, rfl⟩ := List.forall₂_cons_left_iff.mp hbody
    have hd : d ≠ quote := fun h => hne ((hcd.eq_sign_iff hsign).mpr h)
    -- a backslash that takes no character with it is the last character
    have hend : ∀ e tail, d = '\\' →
        body' ++ (terminator (quotedPiece quote rest).closed [quote] ++ r') = e :: tail →
        False := by
      rintro e tail rfl htail
      obtain rfl := (hcd.eq_sign_iff (by decide)).mpr rfl
      cases rest with
      | nil =>
        cases hmore
        rw [Relaid.eq_nil hr] at htail
        exact absurd htail nofun
      | cons e rest => exact hc e rest rfl rfl
    dsimp only [Piece.cons] at hr ⊢
    rw [List.cons_append, quotedPiece, if_neg hd, ih hmore hr]
    · rfl
    · exact hend

/-- A name in brackets ends where it ended, whatever the case of its letters and the layout behind
it. -/
lemma bracketedPiece_recased
    (hbody : List.Forall₂ (SameLetter loose) (bracketedPiece text).body body')
    (hr : Relaid (bracketedPiece text).rest r') :
    bracketedPiece (body' ++ (terminator (bracketedPiece text).closed [']'] ++ r')) =
      ⟨body', (bracketedPiece text).closed, r'⟩ := by
  fun_induction bracketedPiece text generalizing body' with
  | case1 =>
    cases hbody
    rw [hr.eq_nil]
    rfl
  | case2 rest =>
    cases hbody
    rfl
  | case3 c rest hc ih =>
    obtain ⟨d, body', hcd, hmore, rfl⟩ := List.forall₂_cons_left_iff.mp hbody
    have hd : d ≠ ']' := fun h => hc ((hcd.eq_sign_iff (by decide)).mpr h)
    dsimp only [Piece.cons] at hr ⊢
    rw [List.cons_append, bracketedPiece, if_neg hd, ih hmore hr]
    rfl

/-- A block ends where it ended, whatever the case of its letters and the layout behind it. -/
lemma blockPiece_recased (hbody : List.Forall₂ (SameLetter loose) (blockPiece text).body body')
    (hr : Relaid (blockPiece text).rest r') :
    blockPiece (body' ++ (terminator (blockPiece text).closed ['>', '>', '>'] ++ r')) =
      ⟨body', (blockPiece text).closed, r'⟩ := by
  fun_induction blockPiece text generalizing body' with
  | case1 =>
    cases hbody
    rw [hr.eq_nil]
    rfl
  | case2 c rest h =>
    cases hbody
    rfl
  | case3 c rest h ih =>
    have hwhole := Relaid.of_forall₂ hbody
      (hr.append_left (terminator (blockPiece rest).closed ['>', '>', '>']))
    have hsource : c :: (blockPiece rest).body ++
        (terminator (blockPiece rest).closed ['>', '>', '>'] ++ (blockPiece rest).rest) =
          c :: rest := by
      rw [← List.append_assoc]
      exact congrArg (c :: ·) (source_blockPiece rest)
    obtain ⟨d, body', hcd, hmore, rfl⟩ := List.forall₂_cons_left_iff.mp hbody
    dsimp only [Piece.cons] at hwhole
    rw [hsource, List.cons_append] at hwhole
    have hd : ¬ ['>', '>', '>'].isPrefixOf
        (d :: (body' ++ (terminator (blockPiece rest).closed ['>', '>', '>'] ++ r'))) = true := by
      have hsigns : ∀ x ∈ ['>', '>', '>'], isPlainChar x = false ∧ isBlank x = false := by decide
      rwa [← hwhole.isPrefixOf_signs hsigns]
    dsimp only [Piece.cons] at hr ⊢
    rw [List.cons_append, blockPiece, if_neg hd, ih hmore hr]
    rfl

/-- A run ends where it ended, whatever the case of its letters and the layout behind it. -/
lemma runPiece_recased {kind : RunKind}
    (hbody : List.Forall₂ (SameLetter loose) (runPiece kind text).body body')
    (hr : Relaid (runPiece kind text).rest r') :
    (runPiece kind (body' ++ r')).body = body' ∧ (runPiece kind (body' ++ r')).rest = r' := by
  fun_induction runPiece kind text generalizing body' with
  | case1 =>
    cases hbody
    rw [hr.eq_nil]
    exact ⟨rfl, rfl⟩
  | case2 c rest hc ih =>
    have hwhole := Relaid.of_forall₂ hbody hr
    obtain ⟨d, body', hcd, hmore, rfl⟩ := List.forall₂_cons_left_iff.mp hbody
    dsimp only [Piece.cons] at hr hwhole ⊢
    rw [List.cons_append, source_runPiece, List.cons_append] at hwhole
    obtain ⟨hbody', hrest'⟩ := ih hmore hr
    rw [List.cons_append, runPiece, if_pos (hwhole.lead_eq.symm.trans hc)]
    exact ⟨congrArg (d :: ·) hbody', hrest'⟩
  | case3 c rest hc =>
    cases hbody
    obtain ⟨d, rest', rfl, -⟩ := hr.exists_cons
    rw [List.nil_append, runPiece, if_neg (hr.lead_eq ▸ hc)]
    exact ⟨rfl, rfl⟩

/-- A blank is a lexeme of its own. -/
lemma scan_of_isBlank {c : Char} (h : isBlank c = true) (rest : List Char) :
    scan (c :: rest) = .blank c :: scan rest := by
  have hlead : lead c rest = .blank := if_pos h
  rw [scan_cons, hlead]

/-- Signs at the end of a text are there in every layout. -/
lemma exists_append_signs {signs piece body : List Char}
    (hsigns : ∀ x ∈ signs, isPlainChar x = false)
    (h : List.Forall₂ (SameLetter loose) (body ++ signs) piece) :
    ∃ body', piece = body' ++ signs ∧ List.Forall₂ (SameLetter loose) body body' := by
  induction body generalizing piece with
  | nil =>
    refine ⟨[], ?_, .nil⟩
    rw [List.nil_append] at h ⊢
    induction h with
    | nil => rfl
    | cons hcd _ ih =>
      obtain ⟨hc, hsigns⟩ := List.forall_mem_cons.mp hsigns
      rw [hcd.eq_sign hc, ih hsigns]
  | cons c body ih =>
    obtain ⟨d, tail, hcd, htail, rfl⟩ := List.forall₂_cons_left_iff.mp h
    obtain ⟨body', rfl, hbody⟩ := ih htail
    exact ⟨d :: body', rfl, .cons hcd hbody⟩

/-- Whether a lexeme in front of some text is cut off there in every layout of both, and holds the
same but for the case of letters. -/
def IsSteady (lexeme : Lexeme) (left : List Char) : Prop :=
  ∀ (loose : Prop) (piece left' : List Char),
    List.Forall₂ (SameLetter loose) lexeme.source piece → Relaid left left' →
      ∃ lexeme', scan (piece ++ left') = lexeme' :: scan left' ∧ lexeme'.source = piece ∧
        Recased loose lexeme lexeme'

/-- A lexeme of one sign. -/
lemma isSteady_sign {lexeme : Lexeme} {c : Char} {left : List Char} (hsource : lexeme.source = [c])
    (hc : isPlainChar c = false) (hscan : ∀ left, scan (c :: left) = lexeme :: scan left)
    (hrefl : ∀ loose, Recased loose lexeme lexeme) : lexeme.IsSteady left := by
  intro loose piece left' hpiece _
  rw [hsource] at hpiece
  obtain ⟨d, tail, hcd, htail, rfl⟩ := List.forall₂_cons_left_iff.mp hpiece
  cases htail
  obtain rfl := hcd.eq_sign hc
  exact ⟨lexeme, hscan left', hsource, hrefl loose⟩

/-- Quotations are cut alike in every layout. -/
lemma isSteady_quoted {quote : Char} (hquote : quote = '"' ∨ quote = '\'') (text : List Char) :
    (quoted quote (quotedPiece quote text).body (quotedPiece quote text).closed).IsSteady
      (quotedPiece quote text).rest := by
  intro loose piece left' hpiece hleft
  have hsign : isPlainChar quote = false := by obtain rfl | rfl := hquote <;> decide
  have hend : ∀ x ∈ terminator (quotedPiece quote text).closed [quote], isPlainChar x = false := by
    cases (quotedPiece quote text).closed
    · exact nofun
    · exact List.forall_mem_singleton.mpr hsign
  obtain ⟨_, rfl, hwhole⟩ := exists_append_signs hend hpiece
  obtain ⟨d, body, hcd, hbody, rfl⟩ := List.forall₂_cons_left_iff.mp hwhole
  obtain rfl := hcd.eq_sign hsign
  have hlead (rest : List Char) : lead d rest = .quote := by
    obtain rfl | rfl := hquote <;> rfl
  refine ⟨quoted d body (quotedPiece d text).closed, ?_, rfl, .quoted d _ hbody⟩
  rw [List.append_assoc, List.cons_append, scan_cons, hlead]
  dsimp only
  rw [quotedPiece_recased hquote hbody hleft]

/-- Names in brackets are cut alike in every layout. -/
lemma isSteady_bracketed (text : List Char) :
    (bracketed (bracketedPiece text).body (bracketedPiece text).closed).IsSteady
      (bracketedPiece text).rest := by
  intro loose piece left' hpiece hleft
  have hend : ∀ x ∈ terminator (bracketedPiece text).closed [']'], isPlainChar x = false := by
    cases (bracketedPiece text).closed <;> decide
  obtain ⟨_, rfl, hwhole⟩ := exists_append_signs hend hpiece
  obtain ⟨d, body, hcd, hbody, rfl⟩ := List.forall₂_cons_left_iff.mp hwhole
  obtain rfl := hcd.eq_sign (by decide)
  have hlead (rest : List Char) : lead '[' rest = .bracket := rfl
  refine ⟨bracketed body (bracketedPiece text).closed, ?_, rfl, .bracketed _ hbody⟩
  rw [List.append_assoc, List.cons_append, scan_cons, hlead]
  dsimp only
  rw [bracketedPiece_recased hbody hleft]

/-- Blocks are cut alike in every layout. -/
lemma isSteady_block (text : List Char) :
    (block (blockPiece text).body (blockPiece text).closed).IsSteady (blockPiece text).rest := by
  intro loose piece left' hpiece hleft
  have hend : ∀ x ∈ terminator (blockPiece text).closed ['>', '>', '>'], isPlainChar x = false := by
    cases (blockPiece text).closed <;> decide
  obtain ⟨_, rfl, hwhole⟩ := exists_append_signs hend hpiece
  obtain ⟨c, _, hc, hbehind, rfl⟩ := List.forall₂_cons_left_iff.mp hwhole
  obtain ⟨d, _, hd, hinner, rfl⟩ := List.forall₂_cons_left_iff.mp hbehind
  obtain ⟨e, body, he, hbody, rfl⟩ := List.forall₂_cons_left_iff.mp hinner
  obtain rfl := hc.eq_sign (by decide)
  obtain rfl := hd.eq_sign (by decide)
  obtain rfl := he.eq_sign (by decide)
  have hlead (rest : List Char) : lead '<' ('<' :: '<' :: rest) = .block := rfl
  refine ⟨block body (blockPiece text).closed, ?_, rfl, .block _ hbody⟩
  rw [List.append_assoc, List.cons_append, List.cons_append, List.cons_append, scan_cons, hlead]
  dsimp only [List.drop]
  rw [blockPiece_recased hbody hleft]

/-- Runs are cut alike in every layout. -/
lemma isSteady_run {kind : RunKind} {c : Char} {text : List Char}
    (hc : lead c text = .run kind) :
    (run kind (c :: (runPiece kind text).body)).IsSteady (runPiece kind text).rest := by
  intro loose piece left' hpiece hleft
  have hwhole := Relaid.of_forall₂ hpiece hleft
  obtain ⟨d, body, hcd, hbody, rfl⟩ := List.forall₂_cons_left_iff.mp hpiece
  rw [source, List.cons_append, source_runPiece, List.cons_append] at hwhole
  obtain ⟨hbody', hrest'⟩ := runPiece_recased hbody hleft
  refine ⟨run kind (d :: body), ?_, rfl, .run kind (.cons hcd hbody)⟩
  rw [List.cons_append, scan_cons, ← hwhole.lead_eq, hc]
  dsimp only
  rw [hbody', hrest']

/-- The first lexeme of a text is cut off at one place in every layout of the text. -/
theorem exists_steady (c : Char) (rest : List Char) :
    ∃ lexeme left, scan (c :: rest) = lexeme :: scan left ∧ lexeme.source ++ left = c :: rest ∧
      lexeme.IsSteady left := by
  have hleads := leads_lead c rest
  have hscan := scan_cons c rest
  -- by what the first character begins
  cases hlead : lead c rest with
  | blank =>
    rw [hlead] at hleads hscan
    exact ⟨.blank c, rest, hscan, rfl, isSteady_sign rfl (isPlainChar_of_isBlank hleads)
      (scan_of_isBlank hleads) fun _ => .blank c⟩
  | opening =>
    rw [hlead] at hleads hscan
    obtain rfl : c = '(' := hleads
    exact ⟨.opening, rest, hscan, rfl, isSteady_sign rfl (by decide) scan_opening fun _ => .opening⟩
  | closing =>
    rw [hlead] at hleads hscan
    obtain rfl : c = ')' := hleads
    exact ⟨.closing, rest, hscan, rfl, isSteady_sign rfl (by decide) scan_closing fun _ => .closing⟩
  | delimiter =>
    rw [hlead] at hleads hscan
    have hsign : isPlainChar c = false ∧ ∀ left, scan (c :: left) = .delimiter c :: scan left := by
      obtain rfl | rfl : c = ',' ∨ c = ';' := hleads
      · exact ⟨by decide, scan_comma⟩
      · refine ⟨by decide, fun left => ?_⟩
        rw [scan_cons]
        rfl
    exact ⟨.delimiter c, rest, hscan, rfl, isSteady_sign rfl hsign.1 hsign.2 fun _ => .delimiter c⟩
  | quote =>
    rw [hlead] at hleads hscan
    exact ⟨_, _, hscan, congrArg (c :: ·) (source_quotedPiece c rest), isSteady_quoted hleads rest⟩
  | bracket =>
    rw [hlead] at hleads hscan
    obtain rfl : c = '[' := hleads
    exact ⟨_, _, hscan, congrArg ('[' :: ·) (source_bracketedPiece rest), isSteady_bracketed rest⟩
  | block =>
    rw [hlead] at hleads hscan
    obtain ⟨rfl, more, rfl⟩ := hleads
    exact ⟨_, _, hscan, congrArg ('<' :: '<' :: '<' :: ·) (source_blockPiece more),
      isSteady_block more⟩
  | run kind =>
    rw [hlead] at hscan
    exact ⟨_, _, hscan, congrArg (c :: ·) (source_runPiece kind rest), isSteady_run hlead⟩

end Lexeme

end RecordQuery
