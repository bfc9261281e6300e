import SkillMarket.Proofs.Binary64.Format

/-!
# Numbers on a grid

Numbers between a quarter and some thousands are multiples of `2^-54`. Their sums are rounded as the
sums of the multiples are, so what is added up on this grid is added up in natural numbers of some
sixty bits.
-/

namespace SkillMarket.Binary64

/-! ## Fractions with a common factor -/

theorem nearest_mul_right {c : Nat} (hc : 0 < c) (n : Nat) {d : Nat} (hd : 0 < d) :
    nearest (n * c) (d * c) = nearest n d := by
  obtain ⟨below, above, tie⟩ := (nearest_eq_iff hd).mp (rfl : nearest n d = _)
  rw [nearest_eq_iff (Nat.mul_pos hd hc)]
  generalize nearest n d = k at below above tie ⊢
  have scaled : k * (d * c) = k * d * c := (Nat.mul_assoc k d c).symm
  have low := Nat.mul_le_mul_right c below
  have high := Nat.mul_le_mul_right c above
  rw [Nat.add_mul, Nat.mul_assoc 2, Nat.mul_assoc 2] at low high
  rw [scaled]
  refine ⟨low, high, fun half => tie ?_⟩
  have cancel {a b : Nat} (h : a * c = b * c) : a = b := Nat.eq_of_mul_eq_mul_right hc h
  refine half.imp (fun h => cancel ?_) (fun h => cancel ?_) <;>
    rw [Nat.add_mul, Nat.mul_assoc 2, Nat.mul_assoc 2] <;> exact h

theorem roundUnits_mul_right {c : Nat} (hc : 0 < c) (n : Nat) {d : Nat} (hd : 0 < d) :
    roundUnits (n * c) (d * c) = roundUnits n d := by
  have unit : 0 < d * Nat.pow 2 (spacing (n / d)) := Nat.mul_pos hd (Nat.two_pow_pos _)
  simp only [roundUnits, Nat.mul_div_mul_right n d hc]
  rw [Nat.mul_right_comm, nearest_mul_right hc n unit]

/-! ## The grid -/

/-- A count that is rounded to a 53-bit significand. -/
def rounded (n : Nat) : Nat := roundUnits n 1

/-- Long counts are rounded alike in every binade. -/
theorem roundUnits_mul_two_pow {n : Nat} (hn : 2 ^ 52 ≤ n) (a : Nat) :
    roundUnits (n * 2 ^ a) 1 = rounded n * 2 ^ a := by
  obtain ⟨e, here⟩ : ∃ e, Binade n 1 e := ⟨_, binade_spacing Nat.one_pos⟩
  have power : 2 ^ (e + a) = 2 ^ e * 2 ^ a := Nat.pow_add 2 e a
  have there : Binade (n * 2 ^ a) 1 (e + a) := by
    refine ⟨?_, .inr ?_⟩
    · rw [power, Nat.one_mul, ← Nat.mul_assoc]
      exact Nat.mul_lt_mul_of_pos_right (by simpa using here.below) (Nat.two_pow_pos a)
    · rw [power, Nat.one_mul, ← Nat.mul_assoc]
      refine Nat.mul_le_mul_right _ ?_
      rcases here.above with rfl | above
      · simpa using hn
      · simpa using above
  rw [there.roundUnits_eq Nat.one_pos, rounded, here.roundUnits_eq Nat.one_pos, power, Nat.one_mul,
    Nat.one_mul, nearest_mul_right (Nat.two_pow_pos a) n (Nat.two_pow_pos e), Nat.mul_assoc]

theorem le_rounded {n a : Nat} (h : 2 ^ a ≤ n) : 2 ^ a ≤ rounded n := by
  have representable := representable_mul_two_pow (m := 1) (by decide) a
  rw [Nat.one_mul] at representable
  exact le_roundUnits Nat.one_pos representable (by simpa using h)

theorem rounded_le {n a : Nat} (h : n ≤ 2 ^ a) : rounded n ≤ 2 ^ a := by
  have representable := representable_mul_two_pow (m := 1) (by decide) a
  rw [Nat.one_mul] at representable
  exact roundUnits_le Nat.one_pos representable (by simpa using h)

/-- The number of units of the grid, as an exponent. -/
def gridSpacing : Nat := 1020

/-- So many times `2^-54`. -/
def grid (m : Nat) : Binary64 := .finite false (m * 2 ^ gridSpacing)

/-- The greatest multiple that is considered. -/
def maxGrid : Nat := 2 ^ 64

theorem ofUnits_grid {n : Nat} (long : 2 ^ 52 ≤ n) (small : n ≤ maxGrid) :
    ofUnits false (n * 2 ^ gridSpacing) 1 = grid (rounded n) := by
  have format : InFormat (1 * 2 ^ (64 + gridSpacing)) :=
    inFormat_mul_two_pow (by decide) (by decide)
  have most : n * 2 ^ gridSpacing ≤ 1 * 2 ^ (64 + gridSpacing) * 1 := by
    rw [Nat.one_mul, Nat.mul_one, Nat.pow_add 2 64]
    generalize 2 ^ gridSpacing = unit
    exact Nat.mul_le_mul_right unit small
  rw [format.ofUnits_eq Nat.one_pos most, roundUnits_mul_two_pow long, grid]

/-- Numbers on the grid are added like their multiples. -/
theorem grid_add_grid {m n : Nat} (long : 2 ^ 52 ≤ m + n) (small : m + n ≤ maxGrid) :
    grid m + grid n = grid (rounded (m + n)) := by
  have positive : 0 < (m + n) * 2 ^ gridSpacing := Nat.mul_pos (by omega) (Nat.two_pow_pos _)
  have sum : signed false (m * 2 ^ gridSpacing) + signed false (n * 2 ^ gridSpacing) =
      (((m + n) * 2 ^ gridSpacing : Nat) : Int) := by
    rw [Nat.add_mul]
    rfl
  rw [← ofUnits_grid long small]
  show add (grid m) (grid n) = _
  rw [grid, grid, add, sum]
  generalize (m + n) * 2 ^ gridSpacing = total at positive
  have notNegative : ¬ (total : Int) < 0 := by omega
  have notZero : (total : Int) ≠ 0 := by omega
  rw [if_neg notZero, Int.natAbs_natCast, decide_eq_false notNegative]

/-- Numbers on the grid are multiplied by ten like their multiples. -/
theorem grid_mul_ten {m : Nat} (long : 2 ^ 52 ≤ m * 10) (small : m * 10 ≤ maxGrid) :
    grid m * ofNat 10 = grid (rounded (m * 10)) := by
  have ten : Exact 10 := exact_ten_pow (k := 1) (by decide)
  have same (u w : Nat) (hw : 0 < w) :
      roundUnits (m * u * (10 * w)) w = roundUnits (m * 10 * u) 1 := by
    rw [← roundUnits_mul_right hw (m * 10 * u) Nat.one_pos, Nat.one_mul]
    congr 1
    ring
  rw [← ofUnits_grid long small, grid, ten.ofNat_eq, finite_mul_finite]
  unfold ofUnits
  rw [same _ _ one_pos]
  rfl

/-- So many halves on the grid, rounded to a natural number. -/
theorem roundToEven_grid (h : Nat) :
    (grid (h * 2 ^ 53)).roundToEven = .finite false (nearest h 2 * one) := by
  have unit : 0 < 2 ^ 53 * 2 ^ gridSpacing := Nat.mul_pos (Nat.two_pow_pos _) (Nat.two_pow_pos _)
  have two : one = 2 * (2 ^ 53 * 2 ^ gridSpacing) := by decide +kernel
  have whole : nearest (h * (2 ^ 53 * 2 ^ gridSpacing)) one = nearest h 2 := by
    rw [two]
    exact nearest_mul_right unit h (by decide)
  rw [grid, roundToEven, Nat.mul_assoc, whole]

/-- A natural number divided by ten is rounded once. -/
theorem natural_div_ten (n : Nat) : .finite false (n * one) / ofNat 10 = ofRatio n 10 := by
  have ten : Exact 10 := exact_ten_pow (k := 1) (by decide)
  have positive : 0 < 10 * one := Nat.mul_pos (by decide) one_pos
  rw [ten.ofNat_eq, finite_div_finite _ _ _ positive, ofRatio]
  unfold ofUnits
  rw [roundUnits_mul_right one_pos _ (by decide)]
  rfl

end SkillMarket.Binary64
