import SkillMarket.Proofs.Json.Real

/-!
# Binary64 numbers are read back

Every finite number is read back as a number, though it may be another one. The significand that is
written and its power of ten are rounded, and so is their product, which could leave the range. It
does not: three spacings or more below the greatest number these errors are too small, and the
digits of the numbers above are read one by one.
-/

namespace SkillMarket.Json

open Binary64 (InFormat interval decimal one spacing roundUnits overflow greatest
  maxSpacing shortest)

variable {k u : Nat} {e : Int} {q : ℚ}

/-! ## Errors -/

/-- What identifies a finite number is at most half of the greatest spacing above it. -/
theorem two_mul_le_of_contains (hu : InFormat u) (hpos : 0 < u) (h : (interval u).Contains q) :
    2 * q ≤ 2 * u + (2 ^ maxSpacing : Nat) := by
  have near := h.near hpos
  have above := le_abs_self (q - u)
  have most : 2 ^ spacing u ≤ 2 ^ maxSpacing :=
    Nat.pow_le_pow_right (by decide) (Binary64.spacing_le hu)
  generalize 2 ^ maxSpacing = w at most ⊢
  have most : (2 : ℚ) ^ spacing u ≤ w := by exact_mod_cast most
  linarith

/-- The decimals that identify finite numbers are scaled by one power of ten. -/
theorem exponent_le_of_contains (hu : InFormat u) (hpos : 0 < u)
    (h : (interval u).Contains (decimal k e)) : e ≤ maxPower := by
  have positive := Binary64.pos_of_contains hpos h
  by_contra large
  have most := two_mul_le_of_contains hu hpos h
  have least : decimal 1 (309 : Nat) ≤ decimal k e :=
    (Binary64.decimal_mono 1 (by unfold maxPower at large; omega)).trans
      (Binary64.decimal_le_iff.mpr positive)
  rw [Binary64.decimal_natCast] at least
  have outside : overflow + 2 ^ maxSpacing ≤ 1 * 10 ^ 309 * one := by decide +kernel
  have range := hu.inRange
  generalize 2 ^ maxSpacing = w at most outside
  generalize 1 * 10 ^ 309 * one = v at least outside
  have : 2 * v ≤ 2 * u + w := by
    have : 2 * (v : ℚ) ≤ 2 * u + w := by linarith
    exact_mod_cast this
  omega

/-- A natural number is rounded with a small error. -/
theorem roundUnits_natCast_le (hk : 0 < k) :
    (2 ^ 53 - 1) * (roundUnits (k * one) 1 : ℚ) ≤ 2 ^ 53 * (k * one) := by
  have least : one ≤ roundUnits (k * one) 1 := by
    refine Binary64.le_roundUnits Nat.one_pos Binary64.representable_one ?_
    rw [Nat.mul_one]
    exact Nat.le_mul_of_pos_left one hk
  have normal : 2 ^ 52 ≤ roundUnits (k * one) 1 := least.trans' (by decide +kernel)
  have contains := (Binary64.roundUnits_eq_iff_contains (n := k * one) Nat.one_pos
    (Binary64.representable_roundUnits Nat.one_pos) (Binary64.one_pos.trans_le least)).mp rfl
  have close := contains.close normal
  rw [Nat.cast_one, div_one, Nat.cast_mul] at close
  have above := neg_abs_le ((k : ℚ) * one - roundUnits (k * one) 1)
  linarith

/-- Two rounded numbers have a product in range if the numbers themselves have one that is three and
a half spacings or more below the end of the range. -/
theorem mul_le_greatest {j a b w v : Nat} (ha : (2 ^ 53 - 1) * (a : ℚ) ≤ 2 ^ 53 * (k * v))
    (hb : (2 ^ 53 - 1) * (b : ℚ) ≤ 2 ^ 53 * (j * v))
    (h : (2 * (k * j * v) : ℚ) ≤ (2 ^ 54 - 7) * w) : a * b ≤ (2 ^ 53 - 1) * w * v := by
  have errors : (2 ^ 53 - 1) * (a : ℚ) * ((2 ^ 53 - 1) * b)
      ≤ 2 ^ 53 * (k * v) * (2 ^ 53 * (j * v)) :=
    mul_le_mul ha hb (by positivity) (by positivity)
  have range : (2 * (k * j * v) : ℚ) * v ≤ (2 ^ 54 - 7) * w * v :=
    mul_le_mul_of_nonneg_right h (Nat.cast_nonneg v)
  have scale : (0 : ℚ) ≤ w * v := by positivity
  have : (a * b : ℚ) ≤ (2 ^ 53 - 1) * w * v := by linarith
  have cast : (((2 ^ 53 - 1) * w * v : Nat) : ℚ) = (2 ^ 53 - 1) * w * v := by
    push_cast
    norm_num
  rw [← Nat.cast_le (α := ℚ), cast]
  exact_mod_cast this

/-! ## The range -/

/-- The decimals that identify a number three spacings or more below the greatest one are read. -/
theorem exists_scale_of_le (hu : InFormat u) (hpos : 0 < u) (fits : k ≤ maxSignificand)
    (h : (interval u).Contains (decimal k e)) (he : 0 ≤ e)
    (below : u ≤ (2 ^ 53 - 4) * 2 ^ maxSpacing) :
    ∃ y, scale maxSteps (Binary64.ofNat k) e = some y := by
  have positive := Binary64.pos_of_contains hpos h
  have small := exponent_le_of_contains hu hpos h
  have most := two_mul_le_of_contains hu hpos h
  obtain ⟨e, rfl⟩ := Int.eq_ofNat_of_zero_le he
  have small : e ≤ maxPower := by exact_mod_cast small
  have power_pos : 0 < Nat.pow 10 e := Nat.pow_pos (by decide)
  obtain ⟨significand, -⟩ := Binary64.exists_ofNat_eq positive (fits.trans maxSignificand_le)
  obtain ⟨factor, -⟩ := Binary64.exists_ofNat_eq power_pos (ten_pow_le small)
  have product : roundUnits (k * one) 1 * roundUnits (Nat.pow 10 e * one) 1 ≤ greatest * one := by
    unfold greatest
    generalize 2 ^ maxSpacing = w at most below ⊢
    refine mul_le_greatest (roundUnits_natCast_le positive) (roundUnits_natCast_le power_pos) ?_
    have below : (u : ℚ) ≤ (2 ^ 53 - 4) * w := by
      have : (u : ℚ) ≤ ((2 ^ 53 - 4) * w : Nat) := Nat.cast_le.mpr below
      push_cast at this
      norm_num at this ⊢
      exact this
    have value : decimal k e = k * (Nat.pow 10 e : Nat) * one := by
      unfold decimal
      rw [zpow_natCast, Nat.pow_eq, Nat.cast_pow]
      rfl
    rw [value] at most
    linarith
  have finite := Binary64.inFormat_greatest.ofUnits_eq Binary64.one_pos product false
  unfold scale
  rw [if_pos (by simpa using small), if_pos he, Int.toNat_natCast, power, significand, factor,
    Binary64.finite_mul_finite]
  simp only [bne_self_eq_false, finite]
  exact ⟨_, rfl⟩

/-- The numbers above those are the three greatest ones. -/
theorem eq_greatest_of_lt (hu : InFormat u) (above : (2 ^ 53 - 4) * 2 ^ maxSpacing < u) :
    ∃ m, u = m * 2 ^ maxSpacing ∧ 2 ^ 53 - 4 < m ∧ m < 2 ^ 53 := by
  obtain ⟨m, a, value, spacing, short, -⟩ := hu.representable.exists_significand
  have least := Binary64.spacing_le hu
  rw [spacing] at least
  rw [value] at above
  have same : a = maxSpacing := by
    by_contra other
    have small : m * 2 ^ a < 2 ^ 53 * 2 ^ a :=
      Nat.mul_lt_mul_of_pos_right short (Nat.two_pow_pos a)
    have double := Binary64.carry a
    have next : 2 ^ 52 * 2 ^ (a + 1) ≤ 2 ^ 52 * 2 ^ maxSpacing :=
      Nat.mul_le_mul_left _ (Nat.pow_le_pow_right (by decide) (by omega))
    omega
  rw [same] at value above
  exact ⟨m, value, Nat.lt_of_mul_lt_mul_right above, short⟩

/-- The digits of the three greatest numbers are read. -/
theorem exists_scale_of_gt (hu : InFormat u) (above : (2 ^ 53 - 4) * 2 ^ maxSpacing < u) :
    ∃ y, scale maxSteps (Binary64.ofNat (written (shortest u)).1) (written (shortest u)).2
      = some y := by
  obtain ⟨m, value, least, most⟩ := eq_greatest_of_lt hu above
  rw [← Option.isSome_iff_exists, value]
  obtain third | second | first : m = 2 ^ 53 - 3 ∨ m = 2 ^ 53 - 2 ∨ m = 2 ^ 53 - 1 := by omega
  · rw [third]
    decide +kernel
  · rw [second]
    decide +kernel
  · rw [first]
    decide +kernel

theorem exists_scaled_written (hu : InFormat u) (hpos : 0 < u) (negative : Bool) :
    ∃ y, scaled negative (written (shortest u)).1 (written (shortest u)).2 = some y := by
  have scales : ∃ y, scale maxSteps (Binary64.ofNat (written (shortest u)).1)
      (written (shortest u)).2 = some y := by
    rcases Nat.lt_or_ge ((2 ^ 53 - 4) * 2 ^ maxSpacing) u with above | below
    · exact exists_scale_of_gt hu above
    · rcases Int.lt_or_le (written (shortest u)).2 0 with down | up
      · exact exists_scale_of_neg _ _ down
      · have contains : (interval u).Contains
            (decimal (written (shortest u)).1 (written (shortest u)).2) := by
          rw [decimal_written]
          exact Binary64.contains_shortest hpos
        exact exists_scale_of_le hu hpos (written_shortest_le hpos) contains up below
  obtain ⟨y, hy⟩ := scales
  rw [scaled, hy]
  exact ⟨_, rfl⟩

/-- What a number becomes when it is written and read again. -/
def reread : Binary64 → Binary64
  | .finite negative u =>
    if u = 0 then .finite negative 0
    else (scaled negative (written (shortest u)).1 (written (shortest u)).2).getD .nan
  | x => x

/-- **Every finite number is read back as a number.** -/
theorem readsAs_reread {x : Binary64} (h : x.IsFinite) :
    (Number.real x).ReadsAs (.real (reread x)) := by
  cases h with
  | @mk negative u hu =>
      rw [reread]
      rcases Nat.eq_zero_or_pos u with rfl | hpos
      · exact readsAs_zero negative
      · obtain ⟨y, hy⟩ := exists_scaled_written hu hpos negative
        rw [if_neg hpos.ne', hy]
        exact readsAs_real hpos hu.inRange hy

end SkillMarket.Json
