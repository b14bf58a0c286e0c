import Mathlib.Data.List.TakeWhile
import Mathlib.Tactic.Ring
import RecordQuery.Json.Printer

/-!
# Numerals

A decimal is written with all its digits, so that reading the digits one by one gives it back: no
digit is dropped, and none rounds. A whole number is written without a point and is read as a
decimal of scale zero, whatever decimal it came from.
-/

namespace RecordQuery.Decimal

/-! ## Digits -/

/-- Numbers are written with digits. -/
lemma isDigit_toDigits (n : Nat) : (Nat.toDigits 10 n).all isDigit = true := by
  rw [List.all_eq_true]
  intro c hc
  have hdigit := Nat.isDigit_of_mem_toDigits (by decide) (by decide) hc
  simpa [isDigit, Char.isDigit, Char.le_def] using hdigit

/-- Digits have no case. -/
lemma toUpper_of_isDigit {c : Char} (h : isDigit c = true) : c.toUpper = c := by
  have hrange : '0' ≤ c ∧ c ≤ '9' := by simpa [isDigit] using h
  have hlower : ¬ ('a'.val ≤ c.val ∧ c.val ≤ 'z'.val) := fun h =>
    absurd (UInt32.le_trans h.1 hrange.2) (by decide)
  exact dif_neg hlower

/-- The digits of ASCII are among those of all scripts. -/
lemma isDigit_of_isDigit {c : Char} (h : isDigit c = true) : Text.isDigit c = true := by
  have hrange : '0' ≤ c ∧ c ≤ '9' := by simpa [isDigit] using h
  have hlow : '0'.toNat ≤ c.toNat := hrange.1
  have hhigh : c.toNat ≤ '9'.toNat := hrange.2
  refine List.any_eq_true.mpr ⟨'0'.toNat, by decide, ?_⟩
  rw [Bool.and_eq_true, decide_eq_true_iff, decide_eq_true_iff]
  exact ⟨hlow, Nat.lt_of_le_of_lt hhigh (by decide)⟩

/-- ASCII digits are digits. -/
lemma all_isDigit_of_all_isDigit {digits : List Char} (h : digits.all isDigit = true) :
    digits.all Text.isDigit = true :=
  List.all_eq_true.mpr fun c hc => isDigit_of_isDigit (List.all_eq_true.mp h c hc)

/-- The number that digits denote, read behind a number that is known already. -/
lemma foldl_digits (digits : List Char) (start : Nat) :
    digits.foldl (fun n c => 10 * n + digitValue c) start =
      start * tenTo digits.length + digitsValue digits := by
  induction digits generalizing start with
  | nil => simp [digitsValue, tenTo]
  | cons c rest ih =>
    have htenTo : tenTo (rest.length + 1) = 10 * tenTo rest.length := by
      simp [tenTo, Nat.pow_succ, Nat.mul_comm]
    rw [List.foldl_cons, ih, digitsValue, digitsValue, List.foldl_cons, ih (10 * 0 + _),
      digitsValue, List.length_cons, htenTo]
    ring

/-- The digits of a number have its value. -/
lemma digitsValue_toDigits (n : Nat) : digitsValue (Nat.toDigits 10 n) = n := by
  have h : Nat.ofDigitChars 10 (Nat.toDigits 10 n) 0 = n := Nat.ofDigitChars_ten_toDigits
  rw [Nat.ofDigitChars_eq_foldl] at h
  exact h

/-- Digits in two parts: the first part counts for as many places as the second has. -/
lemma digitsValue_append (a b : List Char) :
    digitsValue (a ++ b) = digitsValue a * tenTo b.length + digitsValue b := by
  rw [digitsValue, List.foldl_append, foldl_digits]
  rfl

/-- Zeros are worth nothing. -/
lemma digitsValue_replicate (n : Nat) : digitsValue (List.replicate n '0') = 0 := by
  induction n with
  | zero => rfl
  | succ n ih =>
    rw [List.replicate_succ']
    rw [digitsValue_append, ih]
    rfl

/-- Digits stay digits when they are filled up with zeros. -/
lemma isDigit_padDigits (width n : Nat) : (padDigits width n).all isDigit = true := by
  rw [padDigits, List.all_append, isDigit_toDigits, Bool.and_true, List.all_eq_true]
  intro c hc
  rw [List.eq_of_mem_replicate hc]
  rfl

/-- Zeros in front do not change the value. -/
lemma digitsValue_padDigits (width n : Nat) : digitsValue (padDigits width n) = n := by
  rw [padDigits, digitsValue_append, digitsValue_replicate, digitsValue_toDigits, Nat.zero_mul,
    Nat.zero_add]

/-- A number below a power of ten is filled up to as many digits. -/
lemma length_padDigits {width n : Nat} (hwidth : 0 < width) (h : n < tenTo width) :
    (padDigits width n).length = width := by
  have hlength : (Nat.toDigits 10 n).length ≤ width :=
    (Nat.length_toDigits_le_iff (by decide) hwidth).mpr h
  rw [padDigits, List.length_append, List.length_replicate]
  omega

/-! ## Reading what was written -/

/-- The sign of a number, where it has one. -/
def signChars (negative : Bool) : List Char := if negative then ['-'] else []

/-- A digit is neither a sign nor a point nor the letter of an exponent. -/
lemma isDigit_ne {c : Char} (h : isDigit c = true) : c ≠ '-' ∧ c ≠ '.' ∧ c ≠ 'e' := by
  refine ⟨?_, ?_, ?_⟩ <;> rintro rfl <;> revert h <;> decide

/-- The sign and the digits of a text that begins with a digit. -/
lemma plainParts?_signChars (negative : Bool) {c : Char} {rest : List Char}
    (hc : isDigit c = true) :
    plainParts? (signChars negative ++ c :: rest) =
      match splitPoint (c :: rest) with
      | (whole, none) =>
        if !whole.isEmpty && whole.all Text.isDigit then some (negative, whole, []) else none
      | (whole, some fraction) =>
        if (!whole.isEmpty && whole.all Text.isDigit) &&
            (!fraction.isEmpty && fraction.all Text.isDigit) then
          some (negative, whole, fraction)
        else none := by
  cases negative with
  | true => rfl
  | false =>
    have hminus := (isDigit_ne hc).1
    have hsigned : signChars false ++ c :: rest = c :: rest := rfl
    rw [hsigned]
    unfold plainParts?
    split
    rename_i hsplit
    split at hsplit
    · rename_i hcons
      exact absurd (List.cons.inj hcons).1 hminus
    · cases hsplit
      rfl

/-- A text that begins with neither a digit nor a sign is no decimal. -/
lemma ofPlain?_of_lead {c : Char} {rest : List Char} (hdigit : isDigit c = false)
    (hsign : c ≠ '-') : ofPlain? (c :: rest) = none := by
  have hwhole : (splitPoint (c :: rest)).1.all isDigit = false ∨
      (splitPoint (c :: rest)).1 = [] := by
    by_cases hpoint : c = '.'
    · exact .inr (by simp [splitPoint, hpoint])
    · refine .inl ?_
      have hpoint : decide (c ≠ '.') = true := decide_eq_true hpoint
      unfold splitPoint
      rw [List.takeWhile_cons, if_pos hpoint]
      split <;> exact (List.all_cons ..).trans (by rw [hdigit, Bool.false_and])
  -- the text may have the form of a number, with digits of another script before the point
  have hparts :
    ∀ negative whole fraction, plainParts? (c :: rest) = some (negative, whole, fraction) →
      whole.all isDigit = false := by
    intro negative whole fraction h
    unfold plainParts? at h
    simp only [List.cons.injEq, hsign, false_and, imp_false, not_false_eq_true, implies_true] at h
    generalize splitPoint (c :: rest) = parts at hwhole h
    obtain ⟨whole', fraction'⟩ := parts
    obtain hother | rfl : whole'.all isDigit = false ∨ whole' = [] := hwhole
    · cases fraction' <;>
      · simp only [Option.ite_none_right_eq_some, Option.some.injEq, Prod.mk.injEq] at h
        exact h.2.2.1 ▸ hother
    · cases fraction' <;> simp at h
  rw [ofPlain?]
  rcases h : plainParts? (c :: rest) with _ | ⟨negative, whole, fraction⟩
  · rfl
  · exact if_neg fun hread => absurd hread.1 (by rw [hparts _ _ _ h]; decide)

/-- Digits alone have no point. -/
lemma splitPoint_digits {digits : List Char} (h : digits.all isDigit = true) :
    splitPoint digits = (digits, none) := by
  have hpoint : ∀ c ∈ digits, c ≠ '.' := fun c hc => (isDigit_ne (List.all_eq_true.mp h c hc)).2.1
  have hdrop : digits.dropWhile (· ≠ '.') = [] := by
    rw [List.dropWhile_eq_nil_iff]
    intro c hc
    simpa using hpoint c hc
  rw [splitPoint, hdrop]

/-- Digits before a point end there. -/
lemma splitPoint_fraction {whole : List Char} (h : whole.all isDigit = true)
    (fraction : List Char) :
    splitPoint (whole ++ '.' :: fraction) = (whole, some fraction) := by
  have hpoint : ∀ c ∈ whole, (decide (c ≠ '.')) = true := fun c hc => by
    simpa using (isDigit_ne (List.all_eq_true.mp h c hc)).2.1
  rw [splitPoint, List.dropWhile_append_of_pos hpoint, List.takeWhile_append_of_pos hpoint]
  simp

/-- Fraction digits that all fit are all taken. -/
lemma readFraction?_eq (negative : Bool) {digits : List Char} (mantissa scale : Nat)
    (hdigits : digits.all isDigit = true) (hscale : scale + digits.length ≤ 28)
    (hvalue : mantissa * tenTo digits.length + digitsValue digits < twoTo 96) :
    readFraction? negative mantissa scale digits =
      make? negative (mantissa * tenTo digits.length + digitsValue digits)
        (scale + digits.length) := by
  induction digits generalizing mantissa scale with
  | nil => simp [readFraction?, tenTo, digitsValue]
  | cons c rest ih =>
    have hcons : mantissa * tenTo (c :: rest).length + digitsValue (c :: rest) =
        (10 * mantissa + digitValue c) * tenTo rest.length + digitsValue rest := by
      have htenTo : tenTo (rest.length + 1) = 10 * tenTo rest.length := by
        simp [tenTo, Nat.pow_succ, Nat.mul_comm]
      rw [digitsValue, List.foldl_cons, foldl_digits, List.length_cons, htenTo]
      ring
    have hpower : 0 < tenTo rest.length := by simp [tenTo]
    have hnext : 10 * mantissa + digitValue c < twoTo 96 := by
      rw [hcons] at hvalue
      have := Nat.le_mul_of_pos_right (10 * mantissa + digitValue c) hpower
      omega
    rw [List.length_cons] at hscale
    rw [List.all_cons, Bool.and_eq_true] at hdigits
    rw [readFraction?, if_neg (by rw [hdigits.1]; decide), if_pos ⟨by omega, hnext⟩,
      ih _ _ hdigits.2 (by omega) (hcons ▸ hvalue), hcons, List.length_cons, Nat.add_right_comm,
      Nat.add_assoc]

/-- A decimal can be made from its parts. -/
lemma make?_self (d : Decimal) : make? d.negative d.mantissa d.scale = some d := by
  obtain ⟨negative, mantissa, scale, hmantissa, hscale, hzero⟩ := d
  have hnegative : (negative && mantissa != 0) = negative := by
    cases negative with
    | false => rfl
    | true => simpa using hzero rfl
  simp [make?, hmantissa, hscale, hnegative]

/-- The parts of a text that is all digits, but for a sign. -/
lemma plainParts?_whole (negative : Bool) {whole : List Char} (hne : whole ≠ [])
    (h : whole.all isDigit = true) :
    plainParts? (signChars negative ++ whole) = some (negative, whole, []) := by
  obtain ⟨c, rest, rfl⟩ := List.exists_cons_of_ne_nil hne
  have hc : isDigit c = true := List.all_eq_true.mp h c (by simp)
  rw [plainParts?_signChars negative hc, splitPoint_digits h]
  simp only [List.isEmpty_cons, Bool.not_false, all_isDigit_of_all_isDigit h, Bool.and_self,
    if_true]

/-- The parts of a text with digits on both sides of a point. -/
lemma plainParts?_fraction (negative : Bool) {whole fraction : List Char} (hne : whole ≠ [])
    (h : whole.all isDigit = true) (hne' : fraction ≠ []) (h' : fraction.all isDigit = true) :
    plainParts? (signChars negative ++ (whole ++ '.' :: fraction)) =
      some (negative, whole, fraction) := by
  obtain ⟨c, rest, rfl⟩ := List.exists_cons_of_ne_nil hne
  obtain ⟨c', rest', rfl⟩ := List.exists_cons_of_ne_nil hne'
  have hc : isDigit c = true := List.all_eq_true.mp h c (by simp)
  have hsplit := splitPoint_fraction h (c' :: rest')
  rw [List.cons_append] at hsplit ⊢
  rw [plainParts?_signChars negative hc, hsplit]
  simp only [List.isEmpty_cons, Bool.not_false, all_isDigit_of_all_isDigit h,
    all_isDigit_of_all_isDigit h', Bool.and_self, if_true]

/-- Digits that all fit, on both sides of a point. -/
lemma ofDigits?_eq (negative : Bool) {whole fraction : List Char}
    (hdigits : (whole ++ fraction).all isDigit = true) (hlength : fraction.length ≤ 28)
    (hvalue : digitsValue (whole ++ fraction) < twoTo 96) :
    ofDigits? negative whole fraction =
      make? negative (digitsValue (whole ++ fraction)) fraction.length := by
  rw [digitsValue_append] at hvalue ⊢
  have hpower : 0 < tenTo fraction.length := by simp [tenTo]
  have hwhole : digitsValue whole < twoTo 96 := by
    have := Nat.le_mul_of_pos_right (digitsValue whole) hpower
    omega
  rw [List.all_append, Bool.and_eq_true] at hdigits
  rw [ofDigits?, if_pos ⟨hdigits.1, hwhole⟩, readFraction?_eq _ _ _ hdigits.2 (by omega) hvalue,
    Nat.zero_add]

/-- Reading a decimal as it is written gives it back. -/
theorem ofPlain?_toChars (d : Decimal) : ofPlain? d.toChars = some d := by
  have hself := make?_self d
  have hpower : 0 < tenTo d.scale := by simp [tenTo]
  unfold toChars ofPlain?
  by_cases hscale : d.scale = 0
  · have hvalue :
        digitsValue (Nat.toDigits 10 (d.mantissa / tenTo d.scale) ++ []) = d.mantissa := by
      rw [List.append_nil, digitsValue_toDigits, hscale]
      exact Nat.div_one _
    rw [if_pos hscale]
    have hparts := plainParts?_whole d.negative Nat.toDigits_ne_nil
      (isDigit_toDigits (d.mantissa / tenTo d.scale))
    rw [signChars] at hparts
    rw [hparts]
    refine Eq.trans (ofDigits?_eq _ (by rw [List.append_nil]; exact isDigit_toDigits _) (by simp)
      (by rw [hvalue]; exact d.mantissa_lt)) ?_
    rw [hvalue, List.length_nil, ← hscale]
    exact hself
  · have hfraction : d.mantissa % tenTo d.scale < tenTo d.scale := Nat.mod_lt _ hpower
    have hlength := length_padDigits (Nat.pos_of_ne_zero hscale) hfraction
    have hvalue : digitsValue (Nat.toDigits 10 (d.mantissa / tenTo d.scale) ++
        padDigits d.scale (d.mantissa % tenTo d.scale)) = d.mantissa := by
      rw [digitsValue_append, digitsValue_toDigits, digitsValue_padDigits, hlength]
      exact Nat.div_add_mod' _ _
    have hne : padDigits d.scale (d.mantissa % tenTo d.scale) ≠ [] := by
      rw [← List.length_pos_iff, hlength]
      exact Nat.pos_of_ne_zero hscale
    rw [if_neg hscale, List.append_assoc]
    have hparts := plainParts?_fraction d.negative Nat.toDigits_ne_nil
      (isDigit_toDigits (d.mantissa / tenTo d.scale)) hne (isDigit_padDigits _ _)
    rw [signChars] at hparts
    rw [hparts]
    refine Eq.trans (ofDigits?_eq _
      (by rw [List.all_append, isDigit_toDigits, isDigit_padDigits]; rfl)
      (by rw [hlength]; exact d.scale_le) (by rw [hvalue]; exact d.mantissa_lt)) ?_
    rw [hvalue, hlength]
    exact hself

/-- An integer is written with its sign and the digits of its size. -/
lemma integerText_toList (n : Int) :
    (Json.integerText n).toList = signChars (decide (n < 0)) ++ Nat.toDigits 10 n.natAbs := by
  simp [Json.integerText, signChars]

/-- A whole number is written without an exponent. -/
lemma not_mem_integerText (n : Int) : 'e' ∉ (Json.integerText n).toList := by
  rw [integerText_toList, List.mem_append]
  rintro (hsign | hdigit)
  · unfold signChars at hsign
    split at hsign <;> simp at hsign
  · exact (isDigit_ne (List.all_eq_true.mp (isDigit_toDigits _) _ hdigit)).2.2 rfl

/-- Reading a whole number as it is written. -/
theorem ofText?_integerText (n : Int) (h : n.natAbs < twoTo 96) :
    ofText? (Json.integerText n).toList = make? (n < 0) n.natAbs 0 := by
  have hvalue : digitsValue (Nat.toDigits 10 n.natAbs ++ []) = n.natAbs := by
    rw [List.append_nil, digitsValue_toDigits]
  have hexponent : (Json.integerText n).toList.dropWhile (· ≠ 'e') = [] := by
    rw [List.dropWhile_eq_nil_iff]
    exact fun c hc => decide_eq_true fun he => not_mem_integerText n (he ▸ hc)
  rw [ofText?, hexponent]
  dsimp only
  rw [integerText_toList, ofPlain?, plainParts?_whole _ Nat.toDigits_ne_nil (isDigit_toDigits _)]
  refine Eq.trans (ofDigits?_eq _ (by rw [List.append_nil]; exact isDigit_toDigits _) (by simp)
    (by rw [hvalue]; exact h)) ?_
  rw [hvalue, List.length_nil]

/-! ## Whole numbers -/

/-- Powers of ten are positive. -/
lemma tenTo_pos (n : Nat) : 0 < tenTo n := by simp [tenTo]

/-- A decimal without a fraction is the whole number that its mantissa holds so many times ten. -/
lemma signed_eq_iff (d : Decimal) (n : Int) :
    d.signed = n * tenTo d.scale ↔
      d.isWhole = true ∧
        (if d.negative then -1 else 1) * ((d.mantissa / tenTo d.scale : Nat) : Int) = n := by
  have hpower := tenTo_pos d.scale
  have hpower' : (tenTo d.scale : Int) ≠ 0 := by omega
  have hwhole : d.isWhole = true ↔ tenTo d.scale ∣ d.mantissa := by
    rw [isWhole, beq_iff_eq, Nat.dvd_iff_mod_eq_zero]
  rw [hwhole, signed]
  constructor
  · intro h
    have hdvd : tenTo d.scale ∣ d.mantissa := by
      have hint : (tenTo d.scale : Int) ∣ (d.mantissa : Int) := by
        cases hnegative : d.negative with
        | true =>
          rw [hnegative, if_pos rfl] at h
          exact Int.dvd_neg.mp ⟨n, by rw [h, mul_comm]⟩
        | false =>
          rw [hnegative, if_neg (by simp)] at h
          exact ⟨n, by rw [h, mul_comm]⟩
      exact_mod_cast hint
    refine ⟨hdvd, ?_⟩
    obtain ⟨k, hk⟩ := hdvd
    rw [hk, Nat.mul_div_cancel_left _ hpower]
    refine mul_right_cancel₀ hpower' ?_
    rw [← h, hk]
    split <;> push_cast <;> ring
  · rintro ⟨⟨k, hk⟩, rfl⟩
    rw [hk, Nat.mul_div_cancel_left _ hpower]
    split <;> push_cast <;> ring

/-- The decimals that are a given whole number of 64 bits. -/
lemma toInt64?_eq_some_iff (d : Decimal) (n : Int) :
    d.toInt64? = some n ↔
      d.signed = n * tenTo d.scale ∧ -(twoTo 63 : Int) ≤ n ∧ n < (twoTo 63 : Int) := by
  rw [signed_eq_iff, toInt64?]
  rw [Option.ite_none_right_eq_some]
  simp only [Bool.and_eq_true, decide_eq_true_eq, Option.some.injEq]
  constructor
  · rintro ⟨⟨⟨hwhole, hlow⟩, hhigh⟩, rfl⟩
    exact ⟨⟨hwhole, rfl⟩, hlow, hhigh⟩
  · rintro ⟨⟨hwhole, rfl⟩, hlow, hhigh⟩
    exact ⟨⟨⟨hwhole, hlow⟩, hhigh⟩, rfl⟩

/-- Decimals of one value are the same whole number, if one of them is one. -/
lemma toInt64?_of_same {a b : Decimal} {n : Int} (h : a.same b = true) (ha : a.toInt64? = some n) :
    b.toInt64? = some n := by
  rw [toInt64?_eq_some_iff] at ha ⊢
  refine ⟨?_, ha.2⟩
  have hpower : (tenTo a.scale : Int) ≠ 0 := by
    have := tenTo_pos a.scale
    omega
  have hsame : a.signed * tenTo b.scale = b.signed * tenTo a.scale := by
    simpa [same] using h
  rw [ha.1] at hsame
  refine mul_right_cancel₀ hpower ?_
  rw [← hsame]
  ring

/-- A whole number is its size with its sign. -/
lemma signed_natAbs (n : Int) :
    (if (decide (n < 0) && n.natAbs != 0) = true then -(n.natAbs : Int) else n.natAbs) = n := by
  by_cases hn : n < 0
  · have hne : n.natAbs ≠ 0 := by omega
    rw [if_pos (by simpa [hn] using hne)]
    omega
  · rw [if_neg (by simp [hn])]
    omega

/-- A whole number of 64 bits is read back as a decimal of that value. -/
theorem ofText?_integerText_of_toInt64? {d : Decimal} {n : Int} (h : d.toInt64? = some n) :
    ∃ e, ofText? (Json.integerText n).toList = some e ∧ d.same e = true ∧
      e.negative = d.negative ∧ e.isWhole = true := by
  obtain ⟨hsigned, hlow, hhigh⟩ := (toInt64?_eq_some_iff d n).mp h
  have htwo : twoTo 63 < twoTo 96 := by decide
  have hbound : n.natAbs < twoTo 96 := by omega
  have hpower : (0 : Int) < tenTo d.scale := by exact_mod_cast tenTo_pos d.scale
  -- the sign of zero is that of no decimal
  have hnegative : (decide (n < 0) && n.natAbs != 0) = d.negative := by
    cases hd : d.negative with
    | true =>
      have hmantissa := d.zero_sign hd
      rw [signed, hd, if_pos rfl] at hsigned
      have hn : n < 0 := by
        by_contra hn
        have := Int.mul_nonneg (Int.not_lt.mp hn) (Int.le_of_lt hpower)
        omega
      simp [hn]
      omega
    | false =>
      rw [signed, hd, if_neg (by simp)] at hsigned
      have hn : ¬ n < 0 := by
        intro hn
        have := Int.mul_neg_of_neg_of_pos hn hpower
        omega
      simp [hn]
  refine ⟨⟨decide (n < 0) && n.natAbs != 0, n.natAbs, 0, hbound, by decide, by simp⟩, ?_, ?_,
    hnegative, by simp [isWhole, tenTo, Nat.mod_one]⟩
  · rw [ofText?_integerText n hbound, make?, dif_pos ⟨hbound, by decide⟩]
  · rw [same, hsigned, beq_iff_eq]
    simp only [signed]
    rw [signed_natAbs]
    simp [tenTo]

end RecordQuery.Decimal
