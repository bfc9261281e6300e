import SkillMarket.Json.Printer
import SkillMarket.Proofs.Json.Scale

/-!
# Integers

An integer in the range of 64-bit words is written in decimal and read back as the same integer,
if what follows cannot be taken for more of the number. What a reader holds as an integer is
always in that range, and what it holds as a binary64 number is finite.
-/

namespace SkillMarket.Json

/-- The integers that are held exactly, and the finite binary64 numbers. -/
def Number.InRange : Number → Prop
  | .integer n => Int64.minValue.toInt ≤ n ∧ n ≤ maxSignificand
  | .real x => x.IsFinite

/-- What may stand after a number: nothing that could be a part of it. -/
def EndsNumber (rest : List Char) : Prop :=
  ∀ c ∈ rest.head?, c.isDigit = false ∧ c ≠ '.' ∧ c ≠ 'e' ∧ c ≠ 'E'

theorem endsNumber_cons {c : Char} {rest : List Char}
    (h : c.isDigit = false ∧ c ≠ '.' ∧ c ≠ 'e' ∧ c ≠ 'E') : EndsNumber (c :: rest) := by
  intro d hd
  simp only [List.head?_cons, Option.mem_def, Option.some.injEq] at hd
  exact hd ▸ h

/-! ## The digits of a natural number -/

theorem ne_of_isDigit {c d : Char} (hc : c.isDigit = true) (hd : d.isDigit = false) : c ≠ d := by
  rintro rfl
  simp [hd] at hc

/-- Only zero starts with a zero. -/
theorem head?_natText (n : Nat) (h : (natText n).head? = some '0') : n = 0 := by
  induction n using Nat.strongRecOn with
  | ind n ih =>
      rw [natText, Nat.toDigits_eq_if (by decide)] at h
      split at h
      · simpa using h
      · have hne : Nat.toDigits 10 (n / 10) ≠ [] := Nat.toDigits_ne_nil
        rw [List.head?_append, Option.or_of_isSome (by simp)] at h
        have := ih (n / 10) (by omega) h
        omega

/-- A natural number is written without leading zeros. -/
theorem natText_ne_leadingZero (n : Nat) (d : Char) (ds : List Char) :
    natText n ≠ '0' :: d :: ds := by
  intro h
  have hn : n = 0 := head?_natText n (by rw [h]; rfl)
  rw [hn, natText, Nat.toDigits_zero] at h
  simp at h

/-- Every character of a numeral is a digit. -/
theorem isDigit_of_mem_natText {n : Nat} {c : Char} (h : c ∈ natText n) : c.isDigit :=
  Nat.isDigit_of_mem_toDigits (by decide) (by decide) h

/-- Digits end where something else follows. -/
theorem span_digits {ds rest : List Char} (digits : ∀ c ∈ ds, c.isDigit = true)
    (h : ∀ c ∈ rest.head?, c.isDigit = false) :
    (ds ++ rest).takeWhile Char.isDigit = ds ∧ (ds ++ rest).dropWhile Char.isDigit = rest := by
  rw [List.takeWhile_append_of_pos digits, List.dropWhile_append_of_pos digits]
  cases rest with
  | nil => simp
  | cons c rest => simp [h c rfl]

/-- The digits of a numeral end where the numeral does. -/
theorem span_natText (n : Nat) {rest : List Char} (h : EndsNumber rest) :
    (natText n ++ rest).takeWhile Char.isDigit = natText n ∧
      (natText n ++ rest).dropWhile Char.isDigit = rest :=
  span_digits (fun _ hc => isDigit_of_mem_natText hc) fun c hc => (h c hc).1

/-! ## Gathering digits -/

theorem le_ofDigitChars (ds : List Char) (n : Nat) : n ≤ Nat.ofDigitChars 10 ds n := by
  rw [Nat.ofDigitChars_eq_ofDigitChars_zero]
  have : 1 ≤ 10 ^ ds.length := Nat.one_le_pow _ _ (by decide)
  calc n = 1 * n := (Nat.one_mul n).symm
    _ ≤ 10 ^ ds.length * n := Nat.mul_le_mul_right n this
    _ ≤ _ := Nat.le_add_right _ _

/-- Digits whose number stays within the bound are all gathered. -/
theorem gather_eq_ofDigitChars {bound n : Nat} {ds : List Char}
    (h : Nat.ofDigitChars 10 ds n ≤ bound) :
    gather bound n ds = (Nat.ofDigitChars 10 ds n, []) := by
  induction ds generalizing n with
  | nil => simp [gather]
  | cons d ds ih =>
      have step : n * 10 + digitValue d = 10 * n + (d.toNat - '0'.toNat) := by
        rw [Nat.mul_comm]
        rfl
      rw [Nat.ofDigitChars_cons, ← step] at h
      have fits := Nat.le_trans (le_ofDigitChars ds _) h
      rw [gather, if_pos fits, ih h, Nat.ofDigitChars_cons, step]

/-- What is gathered stays within the bound. -/
theorem gather_le {bound n : Nat} (h : n ≤ bound) (ds : List Char) :
    (gather bound n ds).1 ≤ bound := by
  induction ds generalizing n with
  | nil => simpa [gather] using h
  | cons d ds ih =>
      rw [gather]
      split
      · next fits => exact ih fits
      · exact h

/-! ## Reading what was written -/

/-- The whole part of a number: digits, of which the first is a zero only if it is the last. -/
structure IsWhole (ds : List Char) : Prop where
  digits : ∀ c ∈ ds, c.isDigit = true
  nonempty : ds ≠ []
  lead : ∀ d more, ds ≠ '0' :: d :: more

theorem isWhole_natText (n : Nat) : IsWhole (natText n) :=
  ⟨fun _ hc => isDigit_of_mem_natText hc, Nat.toDigits_ne_nil, natText_ne_leadingZero n⟩

/-- Reads what follows the whole part of a number: a fraction, an exponent, or nothing more. -/
def readTail (negative : Bool) (n : Nat) : List Char → Reading Number
  | '.' :: rest => readFraction negative n 0 rest
  | 'e' :: rest | 'E' :: rest => readExponent negative n 0 rest
  | rest => .ok (wholeNumber negative n, rest)

theorem readNumber_whole (negative : Bool) {ds rest : List Char} (h : IsWhole ds)
    (fits : Nat.ofDigitChars 10 ds 0 ≤ maxSignificand)
    (hrest : ∀ c ∈ rest.head?, c.isDigit = false) :
    readNumber negative (ds ++ rest) = readTail negative (Nat.ofDigitChars 10 ds 0) rest := by
  obtain ⟨taken, left⟩ := span_digits h.digits hrest
  have all := gather_eq_ofDigitChars fits
  unfold readNumber
  simp only [taken, left]
  split
  · next hnil => exact absurd (List.append_eq_nil_iff.mp hnil).1 h.nonempty
  · exact absurd rfl h.nonempty
  · exact absurd rfl (h.lead _ _)
  · simp only [all]
    rfl

theorem readTail_ends (negative : Bool) (n : Nat) {rest : List Char} (h : EndsNumber rest) :
    readTail negative n rest = .ok (wholeNumber negative n, rest) := by
  unfold readTail
  split
  · exact absurd rfl (h '.' (by simp)).2.1
  · exact absurd rfl (h 'e' (by simp)).2.2.1
  · exact absurd rfl (h 'E' (by simp)).2.2.2
  · rfl

/-- A numeral is read as a number without fraction and exponent. -/
theorem readNumber_natText (negative : Bool) {n : Nat} (hn : n ≤ maxSignificand)
    {rest : List Char} (h : EndsNumber rest) :
    readNumber negative (natText n ++ rest) = .ok (wholeNumber negative n, rest) := by
  have value : Nat.ofDigitChars 10 (natText n) 0 = n := Nat.ofDigitChars_ten_toDigits
  rw [readNumber_whole negative (isWhole_natText n) (by rw [value]; exact hn) fun c hc =>
    (h c hc).1, value, readTail_ends negative n h]

/-- The sign and the size of an integer in range give the integer. -/
theorem wholeNumber_natAbs {n : Int} (h : (Number.integer n).InRange) :
    wholeNumber (decide (n < 0)) n.natAbs = .integer n := by
  have lower : Int64.minValue.toInt ≤ n := h.1
  have least : Int64.minValue.toInt = -2 ^ 63 := by decide
  unfold wholeNumber
  by_cases hn : n < 0
  · have hsmall : ¬ (n.natAbs = 0 ∨ n.natAbs > 2 ^ 63) := by omega
    simp only [hn, decide_true, Bool.not_true, Bool.false_eq_true, if_false, least]
    rw [if_neg (by simpa using hsmall)]
    congr 1
    omega
  · simp only [hn, decide_false, Bool.not_false, if_true]
    congr 1
    omega

/-! ## What is read is in range -/

theorem realNumber_inRange {negative : Bool} {significand : Nat} {exponent : Int}
    {cs rest : List Char} {n : Number} (fits : significand ≤ maxSignificand)
    (h : realNumber negative significand exponent cs = .ok (n, rest)) : n.InRange := by
  unfold realNumber at h
  split at h
  · next x value =>
    simp only [Except.ok.injEq, Prod.mk.injEq] at h
    exact h.1 ▸ isFinite_scaled fits value
  · simp at h

/-- A number with an exponent is a finite binary64 number. -/
theorem readExponent_inRange {negative : Bool} {significand : Nat} {exponent : Int}
    {cs rest : List Char} {n : Number} (fits : significand ≤ maxSignificand)
    (h : readExponent negative significand exponent cs = .ok (n, rest)) : n.InRange := by
  unfold readExponent at h
  -- the sign of the exponent does not matter here
  split at h
  dsimp only at h
  split at h
  · simp at h
  · simp at h
  · split at h
    · exact realNumber_inRange fits h
    · split at h
      · simp at h
      · simp only [Except.ok.injEq, Prod.mk.injEq] at h
        exact h.1 ▸ .mk Binary64.inFormat_zero

/-- A number with a fraction is a finite binary64 number. -/
theorem readFraction_inRange {negative : Bool} {significand : Nat} {exponent : Int}
    {cs rest : List Char} {n : Number} (fits : significand ≤ maxSignificand)
    (h : readFraction negative significand exponent cs = .ok (n, rest)) : n.InRange := by
  have gathered := gather_le fits
  unfold readFraction at h
  dsimp only at h
  split at h
  · simp at h
  · split at h
    · exact readExponent_inRange (gathered _) h
    · exact readExponent_inRange (gathered _) h
    · exact realNumber_inRange (gathered _) h

/-- A significand without fraction and exponent is in range, as an integer or otherwise. -/
theorem wholeNumber_inRange (negative : Bool) {n : Nat} (h : n ≤ maxSignificand) :
    (wholeNumber negative n).InRange := by
  have least : Int64.minValue.toInt = -2 ^ 63 := by decide
  unfold wholeNumber
  split
  · constructor <;> omega
  · split
    · exact (isFinite_significand h).neg
    · next small =>
      simp only [least, Bool.or_eq_true, decide_eq_true_eq, not_or] at small
      constructor <;> omega

/-- Every number that is read is in range. -/
theorem readNumber_inRange {negative : Bool} {cs rest : List Char} {n : Number}
    (h : readNumber negative cs = .ok (n, rest)) : n.InRange := by
  have gathered := gather_le (Nat.zero_le maxSignificand)
  unfold readNumber at h
  dsimp only at h
  split at h
  · simp at h
  · simp at h
  · simp at h
  · split at h
    · exact readFraction_inRange (gathered _) h
    · exact readExponent_inRange (gathered _) h
    · exact readExponent_inRange (gathered _) h
    · split at h
      · simp only [Except.ok.injEq, Prod.mk.injEq] at h
        exact h.1 ▸ wholeNumber_inRange negative (gathered _)
      · exact realNumber_inRange (gathered _) h

end SkillMarket.Json
