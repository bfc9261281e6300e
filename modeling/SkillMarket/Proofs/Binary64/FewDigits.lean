import SkillMarket.Proofs.Binary64.Shortest

/-!
# Numbers of few digits

Natural numbers that are binary64 numbers are multiplied and divided with one rounding only. A
number of few digits is the one nearest to a decimal of at most fifteen digits, within twenty-two
places of the point. The digits that are found for it are no more than those of the decimal, since
decimals of fifteen digits are further apart than what is rounded to one number.
-/

namespace SkillMarket.Binary64

/-! ## Exact factors -/

variable {a b u : Nat}

/-- What lies in the interval of a count is rounded to it. -/
theorem ofUnits_of_contains {n d : Nat} (negative : Bool) (hd : 0 < d) (hu : InFormat u)
    (hpos : 0 < u) (h : (interval u).Contains (n / d)) :
    ofUnits negative n d = .finite negative u := by
  have rounded := (roundUnits_eq_iff_contains hd hu.representable hpos).mpr h
  rw [ofUnits_of_lt negative (by rw [rounded]; exact hu.inRange), rounded]

theorem mul_ofNat (ha : Exact a) (hb : Exact b) (hu : InFormat u) (hpos : 0 < u)
    (h : (interval u).Contains (a * b * one)) : ofNat a * ofNat b = .finite false u := by
  have cancel (w : Nat) (hw : 0 < w) : ((a * w * (b * w) : Nat) : ℚ) / w = a * b * w := by
    have : (w : ℚ) ≠ 0 := by exact_mod_cast hw.ne'
    push_cast
    field_simp
  rw [ha.ofNat_eq, hb.ofNat_eq, finite_mul_finite]
  refine ofUnits_of_contains false one_pos hu hpos ?_
  rw [cancel one one_pos]
  exact h

theorem div_ofNat (ha : Exact a) (hb : Exact b) (hb₀ : 0 < b) (hu : InFormat u) (hpos : 0 < u)
    (h : (interval u).Contains (a / b * one)) : ofNat a / ofNat b = .finite false u := by
  have cancel (w : Nat) (hw : 0 < w) : ((a * w * w : Nat) : ℚ) / (b * w : Nat) = a / b * w := by
    have : (w : ℚ) ≠ 0 := by exact_mod_cast hw.ne'
    have : (b : ℚ) ≠ 0 := by exact_mod_cast hb₀.ne'
    push_cast
    field_simp
  have units : 0 < b * one := Nat.mul_pos hb₀ one_pos
  rw [ha.ofNat_eq, hb.ofNat_eq, finite_div_finite _ _ _ units]
  refine ofUnits_of_contains false units hu hpos ?_
  rw [cancel one one_pos]
  exact h

/-! ## Decimals of few digits -/

/-- A decimal of at most fifteen digits, at most twenty-two of them after the point, that is no
whole number of sixteen digits. -/
structure FewDigits (k : Nat) (s : Int) : Prop where
  digits : k ≤ 10 ^ 15
  least : -22 ≤ s
  most : s ≤ 7
  apart : 0 < s → 10 ^ 16 ≤ k * 10 ^ s.toNat

instance (k : Nat) (s : Int) : Decidable (FewDigits k s) :=
  decidable_of_iff
    (k ≤ 10 ^ 15 ∧ -22 ≤ s ∧ s ≤ 7 ∧ (0 < s → 10 ^ 16 ≤ k * 10 ^ s.toNat))
    ⟨fun ⟨digits, least, most, apart⟩ => ⟨digits, least, most, apart⟩,
      fun ⟨digits, least, most, apart⟩ => ⟨digits, least, most, apart⟩⟩

/-- The number nearest to a decimal of few digits. -/
def Short (x : Binary64) : Prop :=
  ∃ negative k s, x = ofDecimal negative k s ∧ FewDigits k s

variable {k : Nat} {s : Int}

theorem FewDigits.ofDecimal_eq (h : FewDigits k s) (hk : 0 < k) (negative : Bool) :
    ofDecimal negative k s = ofUnits negative (gridPoint k s).1 (gridPoint k s).2 := by
  have some : 0 < (Nat.toDigits 10 k).length := List.length_pos_of_ne_nil Nat.toDigits_ne_nil
  have few : (Nat.toDigits 10 k).length ≤ 16 := by
    rw [Nat.length_toDigits_le_iff (by decide) (by decide)]
    exact h.digits.trans_lt (by decide)
  have low := h.least
  have high := h.most
  unfold ofDecimal gridPoint
  dsimp only
  rw [if_neg hk.ne', if_neg (by omega), if_neg (by omega)]
  split <;> rfl

theorem FewDigits.decimal_le (h : FewDigits k s) : decimal k s ≤ decimal 1 (22 : Nat) :=
  calc decimal k s ≤ decimal (10 ^ 15) s := decimal_le_iff.mpr h.digits
    _ = decimal 1 (s + (15 : Nat)) := decimal_pow _ _
    _ ≤ decimal 1 (22 : Nat) := decimal_mono 1 (by have := h.most; omega)

theorem FewDigits.le_decimal (h : FewDigits k s) (hk : 0 < k) :
    decimal 1 (-(22 : Nat)) ≤ decimal k s :=
  calc decimal 1 (-(22 : Nat)) ≤ decimal 1 s := decimal_mono 1 (by have := h.least; omega)
    _ ≤ decimal k s := decimal_le_iff.mpr hk

/-- A decimal of few digits is rounded to a normal number in range. -/
theorem FewDigits.exists_finite (h : FewDigits k s) (hk : 0 < k) (negative : Bool) :
    ∃ u, ofDecimal negative k s = .finite negative u ∧ InFormat u ∧ 2 ^ 52 ≤ u ∧
      (interval u).Contains (decimal k s) ∧ (0 < s → 10 ^ 16 * one ≤ u) := by
  obtain ⟨hd, value⟩ := gridPoint_eq k s
  rw [h.ofDecimal_eq hk]
  generalize (gridPoint k s).1 = n at value ⊢
  generalize (gridPoint k s).2 = d at hd value ⊢
  -- even `10^-22` is more than `2^52` units
  have least : 2 ^ 52 ≤ roundUnits n d := by
    refine le_roundUnits_of_le hd (by decide) ?_
    rw [value]
    have small : 2 ^ 52 * 10 ^ 22 ≤ 1 * one := by decide +kernel
    have small : ((2 ^ 52 : Nat) : ℚ) * 10 ^ 22 ≤ decimal 1 (-(22 : Nat)) * 10 ^ 22 := by
      rw [decimal_neg_mul_pow]
      exact_mod_cast small
    exact (le_of_mul_le_mul_right small (by positivity)).trans (h.le_decimal hk)
  have most : roundUnits n d ≤ 10 ^ 22 * one := by
    refine roundUnits_le_of_le hd (exact_ten_pow (Nat.le_refl 22)).representable ?_
    rw [value, ← Nat.one_mul (10 ^ 22), ← decimal_natCast]
    exact h.decimal_le
  have range : roundUnits n d < overflow := most.trans_lt (exact_ten_pow (Nat.le_refl 22)).inRange
  have format : InFormat (roundUnits n d) := ⟨representable_roundUnits hd, range⟩
  refine ⟨roundUnits n d, ofUnits_of_lt negative range, format, least, ?_, fun whole => ?_⟩
  · rw [← value]
    exact (roundUnits_eq_iff_contains hd format.representable (least.trans_lt' (by decide))).mp rfl
  · refine le_roundUnits_of_le hd (exact_ten_pow (by decide)).representable ?_
    have integer : decimal (k * 10 ^ s.toNat) (0 : Nat) = decimal k s := by
      rw [decimal_mul_pow]
      congr 1
      omega
    rw [value, ← Nat.mul_one (10 ^ 16), ← Nat.pow_zero 10, ← decimal_natCast, ← integer,
      decimal_le_iff]
    exact h.apart whole

theorem digitsOf_ten (s : Int) :
    (digitsOf 10 s).significand = 1 ∧ (digitsOf 10 s).scale = s + 1 := by
  have digits : (digitsOf 10 s).digits = ['1'] := by
    show ((Nat.toDigits 10 10).reverse.dropWhile (· == '0')).reverse = ['1']
    decide
  have exponent : (digitsOf 10 s).exponent = s + (2 : Nat) - 1 := rfl
  rw [Digits.significand, Digits.scale, digits, exponent]
  exact ⟨rfl, by simp; omega⟩

/-- Decimals of few digits that are rounded to one number are the same: of two numbers in the
interval, the digits of one are no more than those of the other. -/
theorem le_of_contains {a b : Nat} {t : Int} {p q : ℚ} (hu : 2 ^ 52 ≤ u)
    (hp : (interval u).Contains p) (ha : decimal a t ≤ p) (hq : (interval u).Contains q)
    (hb : q ≤ decimal b t) (few : b ≤ 10 ^ 15) : a ≤ b := by
  by_contra more
  have next : decimal (b + 1) t ≤ p := (decimal_le_iff.mpr (by omega)).trans ha
  rw [decimal_add_one] at next
  have below := le_abs_self (p - u)
  have above := neg_abs_le (q - u)
  have closeP := hp.close hu
  have closeQ := hq.close hu
  have some := decimal_one_pos t
  -- the two are nearer to each other than one step of the grid
  have size : decimal b t ≤ 10 ^ 15 * decimal 1 t := by
    rw [decimal_eq_mul b]
    exact mul_le_mul_of_nonneg_right (by exact_mod_cast few) some.le
  linarith

/-! ## The digits that are found -/

/-- A count next below a decimal on a coarser grid has the digit of that decimal. -/
theorem shortest_of_lt {k u : Nat} {s : Int} (h : FewDigits k s) (hk : 0 < k) (hu : 2 ^ 52 ≤ u)
    (contains : (interval u).Contains (decimal k s)) (hs : firstExponent u < s) :
    shortest u = digitsOf 10 (firstExponent u) ∧ -22 ≤ firstExponent u + 1 := by
  have hpos : 0 < u := hu.trans_lt' (by decide)
  -- the first grid that is searched has the decimal, so the search ends on it
  obtain ⟨n, same⟩ := exists_decimal_eq k hs.le
  have here : (interval u).Contains (decimal n (firstExponent u - (0 : Nat))) := by
    rw [Nat.cast_zero, sub_zero, ← same]
    exact contains
  obtain ⟨k', i, hi, -, digits, low, high, found⟩ := exists_shortest_eq hpos here
  obtain rfl : i = 0 := by omega
  rw [Nat.cast_zero, sub_zero] at digits found
  constructor
  · have next : decimal 10 (firstExponent u) ≤ decimal k s :=
      calc decimal 10 (firstExponent u) = decimal 1 (firstExponent u + (1 : Nat)) :=
            decimal_pow 1 _
        _ ≤ decimal 1 s := decimal_mono 1 (by omega)
        _ ≤ decimal k s := decimal_le_iff.mpr hk
    have ten : 10 ≤ k' := le_of_contains hu contains next found le_rfl (by omega)
    rw [digits, show k' = 10 by omega]
  · by_contra tiny
    have above : decimal 10 (-23) ≤ decimal k s :=
      (decimal_pow 1 (-23)).trans_le (h.le_decimal hk)
    have below : (u : ℚ) ≤ decimal 1 (-23) :=
      (firstExponent_spec hpos).2.le.trans (decimal_mono 1 (by omega))
    have : 10 ≤ 1 := le_of_contains hu contains above (contains_self hpos) below
      (by decide)
    omega

/-- The digits that are found for a number of few digits are few. -/
theorem few_shortest {k u : Nat} {s : Int} (h : FewDigits k s) (hk : 0 < k) (hu : 2 ^ 52 ≤ u)
    (contains : (interval u).Contains (decimal k s)) :
    (shortest u).significand ≤ 10 ^ 15 ∧ -22 ≤ (shortest u).scale := by
  have hpos : 0 < u := hu.trans_lt' (by decide)
  by_cases hs : s ≤ firstExponent u
  · -- the search ends on the grid of the decimal or on a coarser one
    obtain ⟨j, grid⟩ := Int.le.dest hs
    have here : (interval u).Contains (decimal k (firstExponent u - j)) := by
      rw [← grid, add_sub_cancel_right]
      exact contains
    obtain ⟨k', i, hi, -, digits, -, -, found⟩ := exists_shortest_eq hpos here
    obtain ⟨z, -, scale⟩ := digitsOf_spec k' (firstExponent u - i)
    have least := h.least
    have below : decimal (digitsOf k' (firstExponent u - i)).significand s
        ≤ decimal k' (firstExponent u - i) :=
      (decimal_mono _ (by omega)).trans (decimal_digitsOf _ _).le
    have fewer := le_of_contains hu found below contains le_rfl h.digits
    rw [digits]
    exact ⟨fewer.trans h.digits, by omega⟩
  · obtain ⟨digits, low⟩ := shortest_of_lt h hk hu contains (not_le.mp hs)
    obtain ⟨one, scale⟩ := digitsOf_ten (firstExponent u)
    rw [digits, one, scale]
    exact ⟨by decide, low⟩

/-- The last digit that is found for a number of few digits is at most that of `10^22`. -/
theorem scale_shortest_le {k u : Nat} {s : Int} (h : FewDigits k s) (hu : 2 ^ 52 ≤ u)
    (contains : (interval u).Contains (decimal k s)) : (shortest u).scale ≤ 22 := by
  have hpos : 0 < u := hu.trans_lt' (by decide)
  by_contra large
  have some := pos_of_contains hpos (contains_shortest hpos)
  have above : decimal 10 (22 : Nat) ≤ decimal (shortest u).significand (shortest u).scale :=
    calc decimal 10 (22 : Nat) = decimal 1 ((22 : Nat) + (1 : Nat)) := decimal_pow 1 _
      _ ≤ decimal 1 (shortest u).scale := decimal_mono 1 (by omega)
      _ ≤ _ := decimal_le_iff.mpr some
  have : 10 ≤ 1 := le_of_contains hu (contains_shortest hpos) above contains
    h.decimal_le (by decide)
  omega

end SkillMarket.Binary64
