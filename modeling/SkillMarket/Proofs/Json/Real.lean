import SkillMarket.Proofs.Binary64.Shortest
import SkillMarket.Proofs.Json.RoundTrip

/-!
# Binary64 numbers as text

The digits of a binary64 number are written in place or with an exponent. Either way the text is
read as one significand and one exponent, which stand for the decimal that the digits stand for
(`written`). So a number is read back as that significand, scaled by that exponent.
-/

namespace SkillMarket.Json

open Binary64 (Digits digitsOf decimal shortest)

variable {negative : Bool} {significand : Nat} {exponent : Int} {ds rest : List Char}

/-! ## Reading fractions and exponents -/

/-- A fraction at the end of a number. -/
theorem readFraction_ends (digits : ∀ c ∈ ds, c.isDigit = true) (nonempty : ds ≠ [])
    (fits : Nat.ofDigitChars 10 ds significand ≤ maxSignificand) (h : EndsNumber rest) :
    readFraction negative significand exponent (ds ++ rest)
      = realNumber negative (Nat.ofDigitChars 10 ds significand) (exponent - ds.length) rest := by
  obtain ⟨taken, left⟩ := span_digits digits fun c hc => (h c hc).1
  unfold readFraction
  simp only [taken, left, gather_eq_ofDigitChars fits, List.isEmpty_iff, nonempty, if_false]
  split
  · exact absurd rfl (h 'e' (by simp)).2.2.1
  · exact absurd rfl (h 'E' (by simp)).2.2.2
  · simp

/-- A fraction with an exponent after it. -/
theorem readFraction_exponent (digits : ∀ c ∈ ds, c.isDigit = true) (nonempty : ds ≠ [])
    (fits : Nat.ofDigitChars 10 ds significand ≤ maxSignificand) (rest : List Char) :
    readFraction negative significand exponent (ds ++ 'e' :: rest)
      = readExponent negative (Nat.ofDigitChars 10 ds significand) (exponent - ds.length) rest := by
  obtain ⟨taken, left⟩ := span_digits digits (by simp : ∀ c ∈ ('e' :: rest).head?, _)
  unfold readFraction
  simp only [taken, left, gather_eq_ofDigitChars fits, List.isEmpty_iff, nonempty, if_false]
  simp

/-- A signed exponent at the end of a number. -/
theorem readExponent_ends {e : Int} (he : e.natAbs ≤ maxExponent) (h : EndsNumber rest) :
    readExponent negative significand exponent
        ((if e < 0 then '-' else '+') :: (natText e.natAbs ++ rest))
      = realNumber negative significand (exponent + e) rest := by
  obtain ⟨taken, left⟩ := span_natText e.natAbs h
  have nonempty : natText e.natAbs ≠ [] := Nat.toDigits_ne_nil
  have all : gather maxExponent 0 (natText e.natAbs) = (e.natAbs, []) := by
    have value : Nat.ofDigitChars 10 (natText e.natAbs) 0 = e.natAbs :=
      Nat.ofDigitChars_ten_toDigits
    rw [gather_eq_ofDigitChars (by rw [value]; exact he), value]
  unfold readExponent
  by_cases sign : e < 0
  all_goals
    simp only [sign, if_false, if_true, taken, left]
    split
    · next hnil => exact absurd (List.append_eq_nil_iff.mp hnil).1 nonempty
    · next hnil _ => exact absurd hnil nonempty
    · simp only [all, Bool.false_eq_true, if_false]
      congr 1
      omega

/-! ## Reading digits -/

/-- Digits of which the first is no zero. -/
structure Significant (ds : List Char) : Prop where
  digits : ∀ c ∈ ds, c.isDigit = true
  first : ∃ c cs, ds = c :: cs ∧ c ≠ '0'

theorem Significant.isWhole (h : Significant ds) : IsWhole ds := by
  obtain ⟨c, cs, rfl, hc⟩ := h.first
  refine ⟨h.digits, by simp, fun d more hd => ?_⟩
  simp only [List.cons.injEq] at hd
  exact hc hd.1

theorem Significant.append {more : List Char} (h : Significant ds)
    (digits : ∀ c ∈ more, c.isDigit = true) : Significant (ds ++ more) := by
  obtain ⟨c, cs, rfl, hc⟩ := h.first
  exact ⟨fun d hd => (List.mem_append.mp hd).elim (h.digits d) (digits d), c, cs ++ more, rfl, hc⟩

theorem Significant.take (h : Significant ds) {n : Nat} (hn : 0 < n) : Significant (ds.take n) := by
  obtain ⟨c, cs, rfl, hc⟩ := h.first
  obtain ⟨n, rfl⟩ : ∃ i, n = i + 1 := ⟨n - 1, by omega⟩
  exact ⟨fun d hd => h.digits d (List.mem_of_mem_take hd), c, cs.take n, rfl, hc⟩

/-- The significand and the exponent that are read from the digits of a number: those of the
digits, but for a whole number in place, which is written with a zero for a fraction. -/
def written (d : Digits) : Nat × Int :=
  if isPlain d.exponent && 0 ≤ d.scale then (d.significand * 10 ^ (d.scale.toNat + 1), -1)
  else (d.significand, d.scale)

theorem written_of_not_plain {d : Digits} (h : isPlain d.exponent = false) :
    written d = (d.significand, d.scale) := by
  simp [written, h]

theorem written_of_scale_neg {d : Digits} (h : d.scale < 0) :
    written d = (d.significand, d.scale) := by
  simp [written, not_le.mpr h]

theorem written_of_whole {d : Digits} (plain : isPlain d.exponent = true) (h : 0 ≤ d.scale) :
    written d = (d.significand * 10 ^ (d.scale.toNat + 1), -1) := by
  simp [written, plain, h]

/-- What is read from digits stands for the decimal of the digits. -/
theorem decimal_written (d : Digits) :
    decimal (written d).1 (written d).2 = decimal d.significand d.scale := by
  unfold written
  split
  · next inPlace =>
    simp only [Bool.and_eq_true, decide_eq_true_eq] at inPlace
    rw [Binary64.decimal_mul_pow]
    congr 1
    omega
  · rfl

theorem readNumber_scientificText {d : Digits} (hd : Significant d.digits)
    (plain : isPlain d.exponent = false) (fits : (written d).1 ≤ maxSignificand)
    (small : d.exponent.natAbs ≤ maxExponent) (h : EndsNumber rest) :
    readNumber negative (scientificText d ++ rest)
      = realNumber negative (written d).1 (written d).2 rest := by
  obtain ⟨c, cs, digits, hc⟩ := hd.first
  have isDigits := hd.digits
  rw [digits] at isDigits
  have value : d.significand = Nat.ofDigitChars 10 cs (Nat.ofDigitChars 10 [c] 0) := by
    rw [Digits.significand, digits, ← List.singleton_append, Nat.ofDigitChars_append]
  have scale : d.scale = 0 - cs.length + d.exponent := by
    rw [Digits.scale, digits, List.length_cons]
    omega
  rw [written_of_not_plain plain, value] at fits
  rw [written_of_not_plain plain, value]
  have whole : IsWhole [c] := ⟨fun d hd => isDigits d (by simp_all), by simp, by simp⟩
  have first := (le_ofDigitChars cs _).trans fits
  rw [scientificText, digits]
  by_cases hcs : cs = []
  · subst hcs
    show readNumber negative ([c] ++ 'e' :: (_ :: (natText d.exponent.natAbs ++ rest))) = _
    rw [readNumber_whole negative whole first (by simp), readTail, readExponent_ends small h, scale]
    simp
  · have point : (if (List.drop 1 (c :: cs)).isEmpty then [] else '.' :: List.drop 1 (c :: cs))
        = '.' :: cs := by
      simp [hcs]
    simp only [point, List.append_assoc, List.cons_append]
    show readNumber negative
      ([c] ++ '.' :: (cs ++ 'e' :: (_ :: (natText d.exponent.natAbs ++ rest)))) = _
    rw [readNumber_whole negative whole first (by simp), readTail,
      readFraction_exponent (fun d hd => isDigits d (by simp [hd])) hcs fits,
      readExponent_ends small h, scale]

theorem isDigit_of_mem_zeros {n : Nat} {c : Char} (h : c ∈ List.replicate n '0') :
    c.isDigit = true := by
  rw [(List.mem_replicate.mp h).2]
  rfl

/-- Zeros stand between the point and the digits. -/
theorem readNumber_plainText_below {d : Digits} (hd : Significant d.digits)
    (small : d.exponent < 0) (fits : (written d).1 ≤ maxSignificand) (h : EndsNumber rest) :
    readNumber negative (plainText d ++ rest)
      = realNumber negative (written d).1 (written d).2 rest := by
  have nonempty := hd.isWhole.nonempty
  have parts : written d = (d.significand, d.scale) :=
    written_of_scale_neg (by rw [Digits.scale]; have := List.length_pos_of_ne_nil nonempty; omega)
  rw [parts] at fits ⊢
  rw [plainText, if_pos small]
  generalize hz : (-d.exponent).toNat - 1 = z
  have value : Nat.ofDigitChars 10 (List.replicate z '0' ++ d.digits) 0 = d.significand := by
    rw [Nat.ofDigitChars_append, Nat.ofDigitChars_replicate_zero, Nat.mul_zero, Digits.significand]
  have isDigits : ∀ c ∈ List.replicate z '0' ++ d.digits, c.isDigit = true := fun c hc =>
    (List.mem_append.mp hc).elim isDigit_of_mem_zeros (hd.digits c)
  show readNumber negative (['0'] ++ '.' :: ((List.replicate z '0' ++ d.digits) ++ rest)) = _
  rw [readNumber_whole negative ⟨by simp, by simp, by simp⟩ (by decide) (by simp), readTail]
  show readFraction negative 0 0 _ = _
  rw [readFraction_ends isDigits (List.append_ne_nil_of_right_ne_nil _ nonempty)
    (by rw [value]; exact fits) h, value]
  congr 1
  rw [Digits.scale, List.length_append, List.length_replicate]
  omega

/-- The point stands among the digits. -/
theorem readNumber_plainText_among {d : Digits} (hd : Significant d.digits)
    (large : 0 ≤ d.exponent) (long : d.exponent.toNat + 1 < d.digits.length)
    (fits : (written d).1 ≤ maxSignificand) (h : EndsNumber rest) :
    readNumber negative (plainText d ++ rest)
      = realNumber negative (written d).1 (written d).2 rest := by
  have parts : written d = (d.significand, d.scale) :=
    written_of_scale_neg (by rw [Digits.scale]; omega)
  rw [parts] at fits ⊢
  rw [plainText, if_neg (not_lt.mpr large)]
  dsimp only
  generalize hw : d.exponent.toNat + 1 = whole at long
  have front : Significant (d.digits.take whole) := hd.take (by omega)
  have back : ∀ c ∈ d.digits.drop whole, c.isDigit = true := fun c hc =>
    hd.digits c (List.mem_of_mem_drop hc)
  have left : d.digits.drop whole ≠ [] := by
    rw [ne_eq, List.drop_eq_nil_iff]
    omega
  have value : Nat.ofDigitChars 10 (d.digits.drop whole)
      (Nat.ofDigitChars 10 (d.digits.take whole) 0) = d.significand := by
    rw [← Nat.ofDigitChars_append, List.take_append_drop, Digits.significand]
  rw [← value] at fits ⊢
  simp only [List.isEmpty_iff, left, if_false, show whole - d.digits.length = 0 by omega,
    List.replicate_zero, List.append_nil, List.append_assoc, List.cons_append]
  rw [readNumber_whole negative front.isWhole ((le_ofDigitChars _ _).trans fits) (by simp),
    readTail, readFraction_ends back left fits h]
  congr 1
  rw [Digits.scale, List.length_drop]
  omega

/-- Zeros stand between the digits and the point, and one zero after it. -/
theorem readNumber_plainText_whole {d : Digits} (hd : Significant d.digits)
    (large : 0 ≤ d.exponent) (short : d.digits.length ≤ d.exponent.toNat + 1)
    (plain : isPlain d.exponent = true) (fits : (written d).1 ≤ maxSignificand)
    (h : EndsNumber rest) :
    readNumber negative (plainText d ++ rest)
      = realNumber negative (written d).1 (written d).2 rest := by
  have parts : written d = (d.significand * 10 ^ (d.scale.toNat + 1), -1) :=
    written_of_whole plain (by rw [Digits.scale]; omega)
  rw [parts] at fits ⊢
  have places : d.exponent.toNat + 1 - d.digits.length = d.scale.toNat := by
    rw [Digits.scale]
    omega
  have value : Nat.ofDigitChars 10 (d.digits ++ List.replicate d.scale.toNat '0') 0
      = d.significand * 10 ^ d.scale.toNat := by
    rw [Nat.ofDigitChars_append, Nat.ofDigitChars_replicate_zero, Digits.significand, Nat.mul_comm]
  have tenth : Nat.ofDigitChars 10 ['0'] (d.significand * 10 ^ d.scale.toNat)
      = d.significand * 10 ^ (d.scale.toNat + 1) := by
    rw [Nat.pow_succ]
    simp [Nat.ofDigitChars]
    ring
  rw [← tenth] at fits ⊢
  rw [plainText, if_neg (not_lt.mpr large)]
  dsimp only
  rw [List.take_of_length_le short, List.drop_of_length_le short, places]
  simp only [List.isEmpty_nil, if_true, List.append_assoc, List.cons_append]
  show readNumber negative (d.digits ++ (List.replicate d.scale.toNat '0' ++
    '.' :: (['0'] ++ rest))) = _
  rw [← List.append_assoc,
    readNumber_whole negative (hd.append fun _ => isDigit_of_mem_zeros).isWhole
      (by rw [value]; exact (le_ofDigitChars _ _).trans fits) (by simp), readTail, value,
    readFraction_ends (by simp) (by simp) fits h]
  rfl

theorem readNumber_plainText {d : Digits} (hd : Significant d.digits)
    (plain : isPlain d.exponent = true) (fits : (written d).1 ≤ maxSignificand)
    (h : EndsNumber rest) :
    readNumber negative (plainText d ++ rest)
      = realNumber negative (written d).1 (written d).2 rest := by
  rcases Int.lt_or_le d.exponent 0 with small | large
  · exact readNumber_plainText_below hd small fits h
  · rcases Nat.lt_or_ge (d.exponent.toNat + 1) d.digits.length with long | short
    · exact readNumber_plainText_among hd large long fits h
    · exact readNumber_plainText_whole hd large short plain fits h

/-- The text of digits, in place or with an exponent. -/
def digitsText (d : Digits) : List Char :=
  if isPlain d.exponent then plainText d else scientificText d

theorem digitsText_starts {d : Digits} (hd : Significant d.digits) :
    ∃ c cs, digitsText d = c :: cs ∧ c.isDigit = true := by
  obtain ⟨c, cs, digits, -⟩ := hd.first
  have hc : c.isDigit = true := hd.digits c (by simp [digits])
  unfold digitsText
  split
  · unfold plainText
    split
    · exact ⟨'0', _, rfl, rfl⟩
    · simp only [digits, List.take_succ_cons, List.cons_append]
      exact ⟨c, _, rfl, hc⟩
  · simp only [scientificText, digits, List.take_succ_cons, List.cons_append]
    exact ⟨c, _, rfl, hc⟩

/-- **Digits are read as the decimal that they are written for.** -/
theorem readNumber_digitsText {d : Digits} (hd : Significant d.digits)
    (fits : (written d).1 ≤ maxSignificand) (small : d.exponent.natAbs ≤ maxExponent)
    (h : EndsNumber rest) :
    readNumber negative (digitsText d ++ rest)
      = realNumber negative (written d).1 (written d).2 rest := by
  unfold digitsText
  by_cases plain : isPlain d.exponent = true
  · rw [if_pos plain]
    exact readNumber_plainText hd plain fits h
  · rw [if_neg plain]
    exact readNumber_scientificText hd (Bool.eq_false_iff.mpr plain) fits small h

/-! ## The digits of a count of units -/

theorem significant_digitsOf {k : Nat} (hk : 0 < k) (s : Int) :
    Significant (digitsOf k s).digits := by
  obtain ⟨z, digits⟩ := Binary64.exists_toDigits_eq k s
  have isDigits : ∀ c ∈ (digitsOf k s).digits, c.isDigit = true := fun c hc =>
    isDigit_of_mem_natText (n := k) (by rw [natText, digits]; exact List.mem_append_left _ hc)
  refine ⟨isDigits, ?_⟩
  cases h : (digitsOf k s).digits with
  | nil =>
      -- nothing but zeros would stand for zero
      have value := Nat.ofDigitChars_ten_toDigits (n := k)
      rw [digits, h, List.nil_append, Nat.ofDigitChars_replicate_zero, Nat.mul_zero] at value
      omega
  | cons c cs =>
      refine ⟨c, cs, rfl, ?_⟩
      rintro rfl
      have : k = 0 := head?_natText k (by rw [natText, digits, h]; rfl)
      omega

/-- A decimal of at most seventeen digits is written with a significand that fits a word. -/
theorem written_digitsOf_le {i k : Nat} {s : Int} (hi : i ≤ 16) (low : 10 ^ i ≤ k)
    (high : k ≤ 10 ^ (i + 1)) : (written (digitsOf k s)).1 ≤ 10 ^ 17 := by
  unfold written
  split
  · next inPlace =>
    simp only [Bool.and_eq_true, decide_eq_true_eq, isPlain] at inPlace
    obtain ⟨⟨-, plain⟩, whole⟩ := inPlace
    have first := (Binary64.exponent_digitsOf (s := s) low high).1
    -- the digits in place stand for less than `10^16`
    have value : decimal ((digitsOf k s).significand * 10 ^ (digitsOf k s).scale.toNat) 0
        = decimal k s := by
      rw [Binary64.decimal_mul_pow, Int.toNat_of_nonneg whole, zero_add, Binary64.decimal_digitsOf]
    have small : decimal k s ≤ decimal (10 ^ 16) 0 :=
      calc decimal k s ≤ decimal (10 ^ (i + 1)) s := Binary64.decimal_le_iff.mpr high
        _ = decimal 1 (s + (i + 1 : Nat)) := Binary64.decimal_pow _ _
        _ ≤ decimal 1 (0 + (16 : Nat)) := Binary64.decimal_mono 1 (by omega)
        _ = decimal (10 ^ 16) 0 := (Binary64.decimal_pow _ _).symm
    rw [← value, Binary64.decimal_le_iff] at small
    rw [Nat.pow_succ, ← Nat.mul_assoc]
    exact Nat.mul_le_mul_right 10 small
  · obtain ⟨z, value, -⟩ := Binary64.digitsOf_spec k s
    calc (digitsOf k s).significand ≤ (digitsOf k s).significand * 10 ^ z :=
          Nat.le_mul_of_pos_right _ (Nat.pow_pos (by decide))
      _ = k := value.symm
      _ ≤ 10 ^ 17 := high.trans (Nat.pow_le_pow_right (by decide) (by omega))

theorem significant_shortest {u : Nat} (hpos : 0 < u) : Significant (shortest u).digits := by
  obtain ⟨k, i, -, digits, low, -, -⟩ := Binary64.exists_digitsOf hpos
  rw [digits]
  exact significant_digitsOf (low.trans_lt' (Nat.pow_pos (by decide))) _

theorem written_shortest_le {u : Nat} (hpos : 0 < u) :
    (written (shortest u)).1 ≤ maxSignificand := by
  obtain ⟨k, i, hi, digits, low, high, -⟩ := Binary64.exists_digitsOf hpos
  have word : (10 : Nat) ^ 17 ≤ maxSignificand := by decide
  rw [digits]
  exact (written_digitsOf_le hi low high).trans word

theorem natAbs_exponent_shortest_le {u : Nat} (hpos : 0 < u) (hu : u < Binary64.overflow) :
    (shortest u).exponent.natAbs ≤ maxExponent := by
  have first := Binary64.natAbs_firstExponent_le hpos hu
  have exponent := Binary64.exponent_shortest hpos
  have range : 1000 ≤ maxExponent := by decide
  omega

/-- **A binary64 number is read back as its digits, scaled.** -/
theorem readsAs_real {u : Nat} (hpos : 0 < u) (hu : u < Binary64.overflow) {y : Binary64}
    (h : scaled negative (written (shortest u)).1 (written (shortest u)).2 = some y) :
    (Number.real (.finite negative u)).ReadsAs (.real y) := by
  have significant := significant_shortest hpos
  have fits := written_shortest_le hpos
  have small := natAbs_exponent_shortest_le hpos hu
  have text : (Number.real (.finite negative u)).text
      = (if negative then ['-'] else []) ++ digitsText (shortest u) := by
    simp only [Number.text, realText, hpos.ne', if_false]
    rfl
  generalize shortest u = d at h text significant fits small
  obtain ⟨c, cs, starts, hc⟩ := digitsText_starts significant
  rw [starts] at text
  refine Number.readsAs_of_readNumber text hc fun rest hrest => ?_
  rw [← starts, readNumber_digitsText significant fits small hrest, realNumber]
  simp only [h]

/-- Zero is read back with its sign. -/
theorem readsAs_zero (negative : Bool) :
    (Number.real (.finite negative 0)).ReadsAs (.real (.finite negative 0)) := by
  have text : (Number.real (.finite negative 0)).text
      = (if negative then ['-'] else []) ++ '0' :: ['.', '0'] := rfl
  refine Number.readsAs_of_readNumber text rfl fun rest hrest => ?_
  have value : scaled negative 0 (-1) = some (.finite negative 0) := by
    cases negative <;> decide +kernel
  have whole : IsWhole ['0'] := ⟨by simp, by simp, by simp⟩
  have fraction : readFraction negative 0 0 (['0'] ++ rest) = realNumber negative 0 (-1) rest :=
    readFraction_ends (by simp) (by simp) (by decide) hrest
  show readNumber negative (['0'] ++ '.' :: (['0'] ++ rest)) = _
  rw [readNumber_whole negative whole (by decide) (by simp)]
  show readFraction negative 0 0 (['0'] ++ rest) = _
  rw [fraction, realNumber]
  simp only [value]

end SkillMarket.Json
