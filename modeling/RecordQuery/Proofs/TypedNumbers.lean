import Mathlib.Algebra.Order.Field.Rat
import Mathlib.Tactic.FieldSimp
import Mathlib.Tactic.Linarith
import Mathlib.Tactic.Positivity
import RecordQuery.Proofs.Numerals
import RecordQuery.Scalar.Basic

/-!
# Numbers as they are typed

A number can be typed with any number of digits, but a decimal holds 96 bits and 28 places. There
are three things that can happen to a typed number. If some decimal has its value, it is read as one
that has. If it lies so far out that rounding would need more than 96 bits, it is not read as a
number at all and stays the string it was typed as. All others lose digits: they are read as the
number nearest to them among those with as many places as fit.

The value of what was typed is compared with that of the decimal in `Decimal.Rounds`. Taking a digit
into the mantissa does not change the number that is read, so one induction on the fraction digits
leads to the first digit that does not fit. What is cut off there is less than one unit of the last
place, and a decimal that has the value nevertheless has no more places than were taken, so nothing
but zeros is cut off then (`Decimal.eq_zero_of_absolute_eq`).
-/

namespace RecordQuery

/-- Powers of ten are what they are as rational numbers. -/
lemma cast_tenTo (n : Nat) : (tenTo n : ℚ) = 10 ^ n := Nat.cast_pow 10 n

/-- The next power of ten is ten times as large. -/
lemma cast_tenTo_succ (n : Nat) : (tenTo (n + 1) : ℚ) = 10 * tenTo n := by
  rw [cast_tenTo, cast_tenTo, pow_succ, mul_comm]

/-- Powers of ten are positive. -/
lemma cast_tenTo_pos (n : Nat) : (0 : ℚ) < tenTo n := by
  rw [cast_tenTo]
  positivity

namespace Decimal

/-! ## Values -/

/-- The value of a decimal without its sign. -/
def absolute (d : Decimal) : ℚ := d.mantissa / tenTo d.scale

/-- The value of a decimal. -/
def value (d : Decimal) : ℚ := d.signed / tenTo d.scale

/-- The value of a decimal is its size with its sign. -/
lemma value_eq (d : Decimal) : d.value = if d.negative then -d.absolute else d.absolute := by
  unfold value signed absolute
  split
  · push_cast
    exact neg_div _ _
  · push_cast
    rfl

/-- Decimals are equal as numbers if they have one value. -/
lemma same_iff_value_eq (a b : Decimal) : a.same b = true ↔ a.value = b.value := by
  have ha := cast_tenTo_pos a.scale
  have hb := cast_tenTo_pos b.scale
  rw [same, beq_iff_eq, value, value, div_eq_div_iff ha.ne' hb.ne']
  exact_mod_cast Iff.rfl

/-- The size of a decimal is not negative. -/
lemma absolute_nonneg (d : Decimal) : 0 ≤ d.absolute := by
  unfold absolute
  positivity

/-- The size of a decimal is that of its value. -/
lemma abs_value (d : Decimal) : |d.value| = d.absolute := by
  rw [value_eq]
  split
  · rw [abs_neg, abs_of_nonneg d.absolute_nonneg]
  · rw [abs_of_nonneg d.absolute_nonneg]

/-! ## The first digit that does not fit -/

/-- Whether reading a number of the given sign and size may come to a decimal: one that is near it
at its own scale, and has its value if any decimal has. -/
structure Rounds (negative : Bool) (size : ℚ) (d : Decimal) : Prop where
  sign : d.negative = (negative && d.mantissa != 0)
  near : |d.absolute - size| * tenTo d.scale ≤ 1 / 2
  exact : ∀ e : Decimal, e.absolute = size → d.absolute = size

/-- Whether reading a number of the given sign and size may have a result: none if it is so large
that the nearest whole number needs more than 96 bits. -/
def MayRead (negative : Bool) (size : ℚ) : Option Decimal → Prop
  | none => twoTo 96 - 1 / 2 ≤ size
  | some d => size < twoTo 96 - 1 / 2 ∧ d.Rounds negative size

/-- Where another digit would not fit into a mantissa, a decimal has the value of what was read so
far and a remainder of less than one unit only if the remainder is zero. -/
lemma eq_zero_of_absolute_eq {mantissa scale digit : Nat} {remainder : ℚ} {e : Decimal}
    (hscale : scale ≤ 28) (hfull : ¬ (scale < 28 ∧ 10 * mantissa + digit < twoTo 96))
    (hdigit : (digit : ℚ) / 10 ≤ remainder) (hremainder : remainder < 1)
    (he : e.absolute = (mantissa + remainder) / tenTo scale) : remainder = 0 := by
  have hnonneg : 0 ≤ remainder := le_trans (by positivity) hdigit
  have hvalue : (e.mantissa : ℚ) * 10 ^ scale = (mantissa + remainder) * 10 ^ e.scale := by
    rw [absolute, div_eq_div_iff (cast_tenTo_pos _).ne' (cast_tenTo_pos _).ne', cast_tenTo,
      cast_tenTo] at he
    exact he
  obtain hle | hlt := Nat.lt_or_ge scale e.scale |>.symm
  · -- what was read is a whole number of units
    obtain ⟨more, rfl⟩ := Nat.exists_eq_add_of_le hle
    have hunits : (e.mantissa : ℚ) * 10 ^ more = mantissa + remainder := by
      have hpower : (10 : ℚ) ^ e.scale ≠ 0 := by positivity
      refine mul_right_cancel₀ hpower ?_
      rw [← hvalue, pow_add]
      ring
    have hbetween : mantissa ≤ e.mantissa * 10 ^ more ∧ e.mantissa * 10 ^ more < mantissa + 1 := by
      constructor
      · have : (mantissa : ℚ) ≤ e.mantissa * 10 ^ more := by linarith
        exact_mod_cast this
      · have : (e.mantissa : ℚ) * 10 ^ more < mantissa + 1 := by linarith
        exact_mod_cast this
    have hsame : e.mantissa * 10 ^ more = mantissa := by omega
    have hsame' : (e.mantissa : ℚ) * 10 ^ more = mantissa := by exact_mod_cast hsame
    linarith
  · -- the decimal takes the digit that does not fit
    have hlarge : twoTo 96 ≤ 10 * mantissa + digit := by
      by_contra hsmall
      exact hfull ⟨by have := e.scale_le; omega, by omega⟩
    obtain ⟨more, hmore⟩ := Nat.exists_eq_add_of_lt hlt
    have hunits : (e.mantissa : ℚ) = (mantissa + remainder) * 10 * 10 ^ more := by
      have hpower : (10 : ℚ) ^ scale ≠ 0 := by positivity
      refine mul_right_cancel₀ hpower ?_
      rw [hvalue, hmore, pow_succ, pow_add]
      ring
    have hgrows : (1 : ℚ) ≤ 10 ^ more := one_le_pow₀ (by norm_num)
    have hbound : (10 * mantissa + digit : ℚ) ≤ e.mantissa := by
      rw [hunits]
      have : (10 * mantissa + digit : ℚ) ≤ (mantissa + remainder) * 10 := by linarith
      nlinarith [mul_nonneg (add_nonneg (Nat.cast_nonneg (α := ℚ) mantissa) hnonneg)
        (sub_nonneg.mpr hgrows)]
    have hbound' : 10 * mantissa + digit ≤ e.mantissa := by exact_mod_cast hbound
    have := e.mantissa_lt
    omega

/-- A decimal made of parts in bounds. -/
lemma exists_make? (negative : Bool) {mantissa scale : Nat} (hmantissa : mantissa < twoTo 96)
    (hscale : scale ≤ 28) :
    ∃ d, make? negative mantissa scale = some d ∧ d.negative = (negative && d.mantissa != 0) ∧
      d.mantissa = mantissa ∧ d.scale = scale :=
  ⟨_, dif_pos ⟨hmantissa, hscale⟩, rfl, rfl, rfl⟩

/-- Cutting digits off leaves a decimal that is near, if the first of them is below five. -/
lemma mayRead_cut (negative : Bool) {mantissa scale digit : Nat} {remainder : ℚ}
    (hmantissa : mantissa < twoTo 96) (hscale : scale ≤ 28)
    (hfull : ¬ (scale < 28 ∧ 10 * mantissa + digit < twoTo 96))
    (hdigit : (digit : ℚ) / 10 ≤ remainder) (hhalf : remainder < 1 / 2) :
    MayRead negative ((mantissa + remainder) / tenTo scale) (make? negative mantissa scale) := by
  have hnonneg : 0 ≤ remainder := le_trans (by positivity) hdigit
  have hpower := cast_tenTo_pos scale
  obtain ⟨d, hd, hsign, rfl, rfl⟩ := exists_make? negative hmantissa hscale
  rw [hd]
  refine ⟨?_, hsign, ?_, fun e he => ?_⟩
  · have hone : (1 : ℚ) ≤ tenTo d.scale := by exact_mod_cast tenTo_pos d.scale
    have hle : (d.mantissa + remainder) / tenTo d.scale ≤ d.mantissa + remainder :=
      div_le_self (by positivity) hone
    have hlt : (d.mantissa : ℚ) + 1 ≤ twoTo 96 := by exact_mod_cast hmantissa
    linarith
  · rw [absolute, ← sub_div, abs_div, abs_of_pos hpower, div_mul_cancel₀ _ hpower.ne',
      sub_add_cancel_left, abs_neg, abs_of_nonneg hnonneg]
    linarith
  · rw [absolute, eq_zero_of_absolute_eq hscale hfull hdigit (by linarith) he, add_zero]

/-- Rounding the largest mantissa up leaves a decimal with one place less that is near: ten of its
mantissa are the largest one and four more. -/
lemma mayRead_carry (negative : Bool) {mantissa less : Nat} {remainder : ℚ}
    (hlast : mantissa + 1 = twoTo 96) (hless : less ≤ 28) (hhalf : 1 / 2 ≤ remainder)
    (hone : remainder < 1)
    (hlost : ∀ e : Decimal, e.absolute ≠ (mantissa + remainder) / tenTo (less + 1)) :
    MayRead negative ((mantissa + remainder) / tenTo (less + 1))
      (make? negative ((mantissa + 1 + 4) / 10) less) := by
  have hpower := cast_tenTo_pos less
  have hten : (10 : ℚ) * ((mantissa + 1 + 4) / 10 : Nat) = mantissa + 1 + 4 := by
    have hquotient : 10 * ((mantissa + 1 + 4) / 10) = mantissa + 1 + 4 := by
      rw [hlast]
      decide
    exact_mod_cast hquotient
  have hlast' : (mantissa : ℚ) + 1 = twoTo 96 := by exact_mod_cast hlast
  obtain ⟨d, hd, hsign, hm, hs⟩ := exists_make? negative
    (by omega : (mantissa + 1 + 4) / 10 < twoTo 96) hless
  rw [hd]
  refine ⟨?_, hsign, ?_, fun e he => absurd he (hlost e)⟩
  · have hscale : (10 : ℚ) ≤ tenTo (less + 1) := by
      have : (1 : ℚ) ≤ tenTo less := by exact_mod_cast tenTo_pos less
      rw [cast_tenTo_succ]
      linarith
    have htenth : (mantissa + remainder) / tenTo (less + 1) ≤ (mantissa + remainder : ℚ) / 10 :=
      div_le_div_of_nonneg_left (by positivity) (by norm_num) hscale
    have hbig : (1 : ℚ) ≤ twoTo 96 := by exact_mod_cast (by decide : 1 ≤ twoTo 96)
    linarith
  · have hdifference : d.absolute - (mantissa + remainder) / tenTo (less + 1) =
        (5 - remainder) / 10 / tenTo less := by
      rw [absolute, hm, hs, cast_tenTo_succ]
      field_simp
      linarith
    rw [hdifference, hs, abs_div, abs_of_pos hpower, div_mul_cancel₀ _ hpower.ne',
      abs_of_nonneg (by linarith)]
    linarith

/-- Rounding up makes a decimal that is near, unless it would need more than 96 bits. -/
lemma mayRead_roundUp? (negative : Bool) {mantissa scale digit : Nat} {remainder : ℚ}
    (hmantissa : mantissa < twoTo 96) (hscale : scale ≤ 28)
    (hfull : ¬ (scale < 28 ∧ 10 * mantissa + digit < twoTo 96))
    (hdigit : (digit : ℚ) / 10 ≤ remainder) (hhalf : 1 / 2 ≤ remainder) (hone : remainder < 1) :
    MayRead negative ((mantissa + remainder) / tenTo scale) (roundUp? negative mantissa scale) := by
  have hpower := cast_tenTo_pos scale
  -- digits are lost, so no decimal has the value
  have hlost (e : Decimal) : e.absolute ≠ (mantissa + remainder) / tenTo scale := by
    intro he
    have := eq_zero_of_absolute_eq hscale hfull hdigit hone he
    linarith
  unfold roundUp?
  split
  · rename_i hfits
    obtain ⟨d, hd, hsign, hm, rfl⟩ := exists_make? negative hfits hscale
    have hsmall : (mantissa + remainder) / tenTo d.scale ≤ (mantissa + remainder : ℚ) :=
      div_le_self (by positivity) (by exact_mod_cast tenTo_pos d.scale)
    have hfits' : (mantissa : ℚ) + 1 + 1 ≤ twoTo 96 := by exact_mod_cast hfits
    rw [hd]
    refine ⟨by linarith, hsign, ?_, fun e he => absurd he (hlost e)⟩
    rw [absolute, hm, ← sub_div, abs_div, abs_of_pos hpower, div_mul_cancel₀ _ hpower.ne', abs_le]
    push_cast
    constructor <;> linarith
  · rename_i hlarge
    have hlast : mantissa + 1 = twoTo 96 := by omega
    split
    · rename_i hzero
      have hlast' : (mantissa : ℚ) + 1 = twoTo 96 := by exact_mod_cast hlast
      rw [hzero, cast_tenTo, pow_zero, div_one]
      show (twoTo 96 : ℚ) - 1 / 2 ≤ mantissa + remainder
      linarith
    · rename_i hscale'
      obtain ⟨less, rfl⟩ := Nat.exists_eq_succ_of_ne_zero hscale'
      exact mayRead_carry negative hlast (by omega) hhalf hone hlost

/-! ## Reading digits -/

/-- The first digit counts for as many places as there are digits behind it. -/
lemma digitsValue_cons (c : Char) (rest : List Char) :
    digitsValue (c :: rest) = digitValue c * tenTo rest.length + digitsValue rest := by
  rw [digitsValue, List.foldl_cons, foldl_digits, Nat.mul_zero, Nat.zero_add]

/-- The value of digits behind a point. -/
def places (digits : List Char) : ℚ := digitsValue digits / tenTo digits.length

/-- Digits behind the point are worth nothing negative. -/
lemma places_nonneg (digits : List Char) : 0 ≤ places digits := by
  unfold places
  positivity

/-- The first digit behind the point is worth a tenth, and so are the others behind it. -/
lemma places_cons (c : Char) (rest : List Char) :
    places (c :: rest) = (digitValue c + places rest) / 10 := by
  have hpower := (cast_tenTo_pos rest.length).ne'
  rw [places, places, digitsValue_cons, List.length_cons, cast_tenTo_succ]
  push_cast
  field_simp

/-- A digit is worth nine at most. -/
lemma digitValue_le {c : Char} (h : isDigit c = true) : digitValue c ≤ 9 := by
  have hrange : '0' ≤ c ∧ c ≤ '9' := by simpa [isDigit] using h
  have hle : c.toNat ≤ '9'.toNat := hrange.2
  have hnine : '9'.toNat = '0'.toNat + 9 := by decide
  unfold digitValue
  omega

/-- Digits behind a point come to less than one. -/
lemma places_lt_one {digits : List Char} (h : digits.all isDigit = true) : places digits < 1 := by
  induction digits with
  | nil => simp [places, digitsValue]
  | cons c rest ih =>
    rw [List.all_cons, Bool.and_eq_true] at h
    have hrest := ih h.2
    have hc : (digitValue c : ℚ) ≤ 9 := by exact_mod_cast digitValue_le h.1
    rw [places_cons]
    linarith

/-- Reading the fraction digits of a number, behind a mantissa in which some were taken already. -/
lemma mayRead_readFraction? (negative : Bool) {digits : List Char} {mantissa scale : Nat}
    (hdigits : digits.all isDigit = true) (hmantissa : mantissa < twoTo 96) (hscale : scale ≤ 28) :
    MayRead negative ((mantissa + places digits) / tenTo scale)
      (readFraction? negative mantissa scale digits) := by
  induction digits generalizing mantissa scale with
  | nil =>
    -- where all digits were taken, none is cut off
    have hplaces : places [] = 0 := by simp [places, digitsValue]
    obtain ⟨d, hd, hsign, rfl, rfl⟩ := exists_make? negative hmantissa hscale
    have habsolute : d.absolute = d.mantissa / tenTo d.scale := rfl
    have hle : d.absolute ≤ d.mantissa :=
      div_le_self (by positivity) (by exact_mod_cast tenTo_pos d.scale)
    have hlt : (d.mantissa : ℚ) + 1 ≤ twoTo 96 := by exact_mod_cast hmantissa
    rw [readFraction?, hd, hplaces, add_zero, ← habsolute]
    refine ⟨by linarith, hsign, ?_, fun e he => rfl⟩
    rw [sub_self, abs_zero, zero_mul]
    norm_num
  | cons c rest ih =>
    rw [List.all_cons, Bool.and_eq_true] at hdigits
    have hrest := places_nonneg rest
    have hless := places_lt_one hdigits.2
    have hnine : (digitValue c : ℚ) ≤ 9 := by exact_mod_cast digitValue_le hdigits.1
    have hcons := places_cons c rest
    rw [readFraction?, if_neg (by rw [hdigits.1]; decide)]
    split
    · rename_i hfits
      -- taking a digit does not change the number
      have hsame : (mantissa + places (c :: rest)) / tenTo scale =
          ((10 * mantissa + digitValue c : Nat) + places rest) / tenTo (scale + 1) := by
        have hpower := (cast_tenTo_pos scale).ne'
        rw [hcons, cast_tenTo_succ]
        push_cast
        field_simp
        ring
      rw [hsame]
      exact ih hdigits.2 hfits.2 (by omega)
    · rename_i hfull
      split
      · rename_i hfive
        have hfive' : (5 : ℚ) ≤ digitValue c := by exact_mod_cast hfive
        exact mayRead_roundUp? negative hmantissa hscale hfull (by linarith) (by linarith)
          (by linarith)
      · rename_i hfour
        have hfour' : (digitValue c : ℚ) ≤ 4 := by exact_mod_cast (by omega : digitValue c ≤ 4)
        exact mayRead_cut negative hmantissa hscale hfull (by linarith) (by linarith)

/-- Reading the digits of a number. -/
lemma mayRead_ofDigits? (negative : Bool) {whole fraction : List Char}
    (hdigits : whole.all isDigit = true) (hfraction : fraction.all isDigit = true) :
    MayRead negative (digitsValue whole + places fraction) (ofDigits? negative whole fraction) := by
  rw [ofDigits?]
  split
  · rename_i hwhole
    have hread := mayRead_readFraction? negative hfraction hwhole.2 (Nat.zero_le 28)
    rwa [cast_tenTo, pow_zero, div_one] at hread
  · rename_i hwhole
    have hlarge : (twoTo 96 : ℚ) ≤ digitsValue whole := by
      exact_mod_cast Nat.le_of_not_lt fun hfits => hwhole ⟨hdigits, hfits⟩
    have := places_nonneg fraction
    show (twoTo 96 : ℚ) - 1 / 2 ≤ digitsValue whole + places fraction
    linarith

end Decimal

/-! ## Typed numbers -/

/-- A number as it is typed: digits, with a minus before them and a point and more digits behind
them where they are needed. -/
structure TypedNumber where
  negative : Bool
  whole : List Char
  /-- The digits behind the point; there is no point if there are none. -/
  fraction : List Char
  whole_ne : whole ≠ []
  whole_digits : whole.all Decimal.isDigit = true
  fraction_digits : fraction.all Decimal.isDigit = true

namespace TypedNumber

open Decimal

/-- The characters that are typed. -/
def chars (n : TypedNumber) : List Char :=
  signChars n.negative ++ if n.fraction = [] then n.whole else n.whole ++ '.' :: n.fraction

/-- The text that is typed. -/
def text (n : TypedNumber) : String := String.ofList n.chars

/-- The value of what is typed, without its sign. -/
def absolute (n : TypedNumber) : ℚ := digitsValue n.whole + places n.fraction

/-- The value of what is typed. -/
def value (n : TypedNumber) : ℚ := if n.negative then -n.absolute else n.absolute

/-- The size of a typed number is not negative. -/
lemma absolute_nonneg (n : TypedNumber) : 0 ≤ n.absolute :=
  add_nonneg (Nat.cast_nonneg _) (places_nonneg _)

/-- The size of a typed number is that of its value. -/
lemma abs_value (n : TypedNumber) : |n.value| = n.absolute := by
  unfold value
  split
  · rw [abs_neg, abs_of_nonneg n.absolute_nonneg]
  · rw [abs_of_nonneg n.absolute_nonneg]

/-- The parts of a typed number are found in its text. -/
lemma plainParts?_chars (n : TypedNumber) :
    plainParts? n.chars = some (n.negative, n.whole, n.fraction) := by
  unfold chars
  split
  · rename_i hnil
    rw [plainParts?_whole _ n.whole_ne n.whole_digits, hnil]
  · rename_i hne
    rw [plainParts?_fraction _ n.whole_ne n.whole_digits hne n.fraction_digits]

/-- A typed number is read as a decimal near it, or not at all if it is too large. -/
lemma mayRead (n : TypedNumber) : MayRead n.negative n.absolute (ofPlain? n.chars) := by
  rw [ofPlain?, n.plainParts?_chars]
  exact mayRead_ofDigits? n.negative n.whole_digits n.fraction_digits

/-- What was read is as far from what was typed with the signs as without them. -/
lemma abs_value_sub {n : TypedNumber} {d : Decimal} (h : d.Rounds n.negative n.absolute) :
    |d.value - n.value| = |d.absolute - n.absolute| := by
  have hvalue : d.value = if n.negative then -d.absolute else d.absolute := by
    rw [value_eq, h.sign]
    by_cases hzero : d.mantissa = 0
    · simp [hzero, Decimal.absolute]
    · simp [hzero]
  rw [hvalue, value]
  split
  · rw [neg_sub_neg, abs_sub_comm]
  · rfl

/-- A decimal that was read has the value of what was typed if any decimal has. -/
lemma value_eq_iff {n : TypedNumber} {d : Decimal} (h : d.Rounds n.negative n.absolute) :
    d.value = n.value ↔ ∃ e : Decimal, e.value = n.value := by
  constructor
  · exact fun hvalue => ⟨d, hvalue⟩
  · rintro ⟨e, he⟩
    have hsize : e.absolute = n.absolute := by rw [← e.abs_value, he, n.abs_value]
    have hsame := abs_value_sub h
    rw [h.exact e hsize, sub_self, abs_zero, abs_eq_zero, sub_eq_zero] at hsame
    exact hsame

/-- What begins with a digit or a minus is none of the words that have a meaning. -/
lemma text_ne (n : TypedNumber) : n.text ≠ "null" ∧ n.text ≠ "true" ∧ n.text ≠ "false" := by
  have hne (word : String) (hword : plainParts? word.toList = none) : n.text ≠ word := by
    rintro rfl
    have hparts := n.plainParts?_chars
    rw [text, String.toList_ofList, hparts] at hword
    cases hword
  exact ⟨hne _ (by decide), hne _ (by decide), hne _ (by decide)⟩

end TypedNumber

namespace ScalarValue

open TypedNumber

/-- The text of a decimal is inferred to be this decimal. -/
lemma infer_decimal (d : Decimal) : infer d.text false = ofDecimal d := by
  rw [infer, if_neg (by decide), Decimal.text, String.toList_ofList, Decimal.ofPlain?_toChars]
  rfl

/-- What becomes of a number that is typed without quotes, with any number of digits. It stays the
string it was typed as if, rounded to a whole number, it needs more than 96 bits. Otherwise it is
read as a decimal. Digits are dropped exactly if no decimal has the value of what was typed; the
decimal is then the nearest one with as many places as it has. A decimal that was read is rendered
with all its digits, and read from them again. -/
theorem infer_typedNumber (n : TypedNumber) (registry : Registry) :
    (infer n.text false = ofString n.text ∧ twoTo 96 - 1 / 2 ≤ |n.value|) ∨
      ∃ d : Decimal, infer n.text false = ⟨.number d, n.text⟩ ∧ |n.value| < twoTo 96 - 1 / 2 ∧
        (d.value = n.value ↔ ∃ e : Decimal, e.value = n.value) ∧
        |d.value - n.value| * tenTo d.scale ≤ 1 / 2 ∧
        infer ((infer n.text false).render registry) false = ofDecimal d := by
  have hread := n.mayRead
  have hinfer : infer n.text false =
      (Decimal.ofPlain? n.chars).elim (ofString n.text) fun d => ⟨.number d, n.text⟩ := by
    obtain ⟨hnull, htrue, hfalse⟩ := n.text_ne
    have hchars : n.text.toList = n.chars := String.toList_ofList
    rw [infer, if_neg (by decide), hchars, if_neg hnull, if_neg htrue, if_neg hfalse]
    cases Decimal.ofPlain? n.chars <;> rfl
  rw [n.abs_value]
  rcases hd : Decimal.ofPlain? n.chars with _ | d
  · rw [hd] at hinfer hread
    exact .inl ⟨hinfer, hread⟩
  · rw [hd] at hinfer hread
    obtain ⟨hsmall, hrounds⟩ := hread
    refine .inr ⟨d, hinfer, hsmall, value_eq_iff hrounds, ?_, ?_⟩
    · rw [abs_value_sub hrounds]
      exact hrounds.near
    · rw [hinfer]
      exact infer_decimal d

-- The last of 29 places is dropped, and rounds the one before it.
example : (infer "0.12345678901234567890123456789" false).render .empty =
    "0.1234567890123456789012345679" := by decide +kernel

end ScalarValue

end RecordQuery
