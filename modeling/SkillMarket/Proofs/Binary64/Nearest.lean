import SkillMarket.Proofs.Binary64.Format

/-!
# The nearest number

What a fraction is rounded to is as near to it as any finite number is.
-/

namespace SkillMarket.Binary64

/-! ## Counts -/

/-- No multiple of `d` is nearer to `n` than the one that `n / d` is rounded to. -/
theorem nearest_near (n : ℕ) {d : ℕ} (hd : 0 < d) (j : ℕ) :
    |(nearest n d * d - n : ℚ)| ≤ |(j * d - n : ℚ)| := by
  obtain ⟨below, above, -⟩ := (nearest_eq_iff hd).mp (rfl : nearest n d = _)
  generalize nearest n d = k at below above ⊢
  have below' : 2 * (k * d) ≤ (2 * n + d : ℚ) := by exact_mod_cast below
  have above' : (2 * n : ℚ) ≤ 2 * (k * d) + d := by exact_mod_cast above
  rcases lt_trichotomy k j with less | rfl | more
  · have step : (k * d + d : ℚ) ≤ j * d := by
      rw [← add_one_mul]
      exact_mod_cast Nat.mul_le_mul_right d less
    rw [abs_of_nonneg (by linarith : (0 : ℚ) ≤ j * d - n), abs_le]
    constructor <;> linarith
  · exact le_rfl
  · have step : (j * d + d : ℚ) ≤ k * d := by
      rw [← add_one_mul]
      exact_mod_cast Nat.mul_le_mul_right d more
    rw [abs_of_nonpos (by linarith : (j * d - n : ℚ) ≤ 0), abs_le]
    constructor <;> linarith

/-- No representable count is nearer to `n / d` than the one that it is rounded to. -/
theorem roundUnits_near (n : ℕ) {d v : ℕ} (hd : 0 < d) (hv : Representable v) :
    |(roundUnits n d * d - n : ℚ)| ≤ |(v * d - n : ℚ)| := by
  obtain ⟨e, binade⟩ : ∃ e, Binade n d e := ⟨_, binade_spacing hd⟩
  have unit : 0 < d * 2 ^ e := Nat.mul_pos hd (Nat.two_pow_pos e)
  -- around `n / d` the representable counts are the multiples of the spacing
  have multiple (j : ℕ) : |(roundUnits n d * d - n : ℚ)| ≤ |(j * (d * 2 ^ e) - n : ℚ)| := by
    have near := nearest_near n unit j
    rw [binade.roundUnits_eq hd]
    push_cast at near ⊢
    rwa [mul_assoc, mul_comm (2 ^ e : ℚ)]
  rcases hv.dvd_or_lt e with ⟨j, rfl⟩ | ⟨he, less⟩
  · have near := multiple j
    push_cast
    rwa [mul_comm (2 ^ e : ℚ), mul_assoc, mul_comm (2 ^ e : ℚ)]
  · -- a count of another binade lies beyond the least one of this binade
    have above : (2 ^ 52 * (d * 2 ^ e) : ℚ) ≤ n := by
      exact_mod_cast binade.above.resolve_left he
    have beyond : (v * d : ℚ) ≤ 2 ^ 52 * (d * 2 ^ e) := by
      have := Nat.mul_le_mul_right d less.le
      rw [Nat.mul_assoc, Nat.mul_comm (2 ^ e)] at this
      exact_mod_cast this
    refine (multiple (2 ^ 52)).trans ?_
    push_cast
    rw [abs_of_nonpos (by linarith), abs_of_nonpos (by linarith)]
    linarith

/-! ## Numbers -/

/-- The rational number that a finite number is. -/
def value : Binary64 → ℚ
  | finite negative units => signed negative units / one
  | _ => 0

theorem signed_natAbs_mul (i : ℤ) (u : ℕ) :
    signed (decide (i < 0)) (i.natAbs * u) = i * u := by
  by_cases negative : i < 0
  · have size : (i.natAbs : ℤ) = -i := by omega
    simp [signed, negative, size]
  · have size : (i.natAbs : ℤ) = i := by omega
    simp [signed, negative, size]

/-- An exact integer is converted to itself. -/
theorem Exact.value_ofInt {i : ℤ} (h : Exact i.natAbs) : (ofInt i).value = i := by
  have units : (one : ℚ) ≠ 0 := by exact_mod_cast one_pos.ne'
  rw [h.ofInt_eq]
  change (signed (decide (i < 0)) (i.natAbs * one) / one : ℚ) = i
  rw [signed_natAbs_mul, Int.cast_mul, Int.cast_natCast, mul_div_cancel_right₀ _ units]

/-- The number is finite, and no finite number is nearer. -/
structure IsNearest (x : Binary64) (q : ℚ) : Prop where
  isFinite : x.IsFinite
  near : ∀ y : Binary64, y.IsFinite → |x.value - q| ≤ |y.value - q|

theorem abs_div_sub_div {u w n d : ℕ} (hw : 0 < w) (hd : 0 < d) :
    |(u / w - n / d : ℚ)| = |(u * d - (n * w : ℕ) : ℚ)| / (w * d) := by
  have units : (0 : ℚ) < w := by exact_mod_cast hw
  have positive : (0 : ℚ) < d := by exact_mod_cast hd
  rw [← abs_of_pos (mul_pos units positive), ← abs_div]
  congr 1
  push_cast
  field_simp

/-- A negative number is no nearer to a fraction than its positive counterpart. -/
theorem abs_value_sub (negative : Bool) (u n d : ℕ) :
    |(u / one - n / d : ℚ)| ≤ |(finite negative u).value - n / d| := by
  have value_eq : (finite negative u).value = signed negative u / one := rfl
  rw [value_eq]
  generalize one = w
  cases negative with
  | false => exact le_rfl
  | true =>
      have counted : (0 : ℚ) ≤ u / w := by positivity
      have fraction : (0 : ℚ) ≤ n / d := by positivity
      have opposite : (signed true u / w : ℚ) = -(u / w) := by simp [signed, neg_div]
      rw [opposite, abs_of_nonpos (by linarith : (-(u / w) - n / d : ℚ) ≤ 0), abs_le]
      constructor <;> linarith

/-- **A fraction in range is rounded to the nearest number.** -/
theorem isNearest_ofRatio {n d m : ℕ} (hd : 0 < d) (range : Exact m) (h : n ≤ m * d) :
    IsNearest (ofRatio n d) (n / d) := by
  have most : n * one ≤ m * one * d := by
    rw [Nat.mul_right_comm]
    exact Nat.mul_le_mul_right one h
  rw [ofRatio, InFormat.ofUnits_eq range hd most]
  refine ⟨.mk (InFormat.roundUnits range hd most), fun y hy => ?_⟩
  cases hy with
  | @mk negative v format =>
      refine le_trans ?_ (abs_value_sub negative v n d)
      change |(roundUnits (n * one) d / one - n / d : ℚ)| ≤ _
      rw [abs_div_sub_div one_pos hd, abs_div_sub_div one_pos hd]
      exact div_le_div_of_nonneg_right (roundUnits_near _ hd format.representable)
        (mul_nonneg (Nat.cast_nonneg _) (Nat.cast_nonneg _))

end SkillMarket.Binary64
