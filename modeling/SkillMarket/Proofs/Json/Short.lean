import SkillMarket.Proofs.Binary64.FewDigits
import SkillMarket.Proofs.Json.Range

/-!
# Binary64 numbers that come back

A significand that is exact, scaled by an exact power of ten, is rounded only once. So a number of
few digits is read back as itself from the digits that are found for it. With more digits the
significand is rounded before it is scaled, and another number may come back.
-/

namespace SkillMarket.Json

open Binary64 (Exact InFormat FewDigits Short interval one decimal shortest firstExponent)

/-- **Exact factors are scaled exactly**, but for one rounding. -/
theorem scaled_eq {significand u : Nat} {exponent : Int} (negative : Bool)
    (exact : Exact significand) (small : exponent.natAbs ≤ 22) (hu : InFormat u) (hpos : 0 < u)
    (h : (interval u).Contains (decimal significand exponent)) :
    scaled negative significand exponent = some (.finite negative u) := by
  have factor (k : Nat) (hk : k ≤ 22) : Exact (Nat.pow 10 k) := Binary64.exact_ten_pow hk
  have sign : (some (Binary64.finite false u)).map (fun x => if negative then -x else x)
      = some (.finite negative u) := by
    cases negative <;> rfl
  unfold scaled scale
  rw [if_pos (small.trans (by decide))]
  by_cases up : exponent ≥ 0
  · obtain ⟨e, rfl⟩ := Int.eq_ofNat_of_zero_le up
    have product : Binary64.ofNat significand * power e = .finite false u := by
      refine Binary64.mul_ofNat exact (factor e (by omega)) hu hpos ?_
      convert h using 1
      unfold decimal
      rw [zpow_natCast, Nat.pow_eq, Nat.cast_pow]
      rfl
    rw [if_pos up, Int.toNat_natCast, product]
    exact sign
  · obtain ⟨e, rfl⟩ : ∃ e : Nat, exponent = -e := ⟨exponent.natAbs, by omega⟩
    have quotient : Binary64.ofNat significand / power e = .finite false u := by
      refine Binary64.div_ofNat exact (factor e (by omega)) (Nat.pow_pos (by decide)) hu hpos ?_
      convert h using 1
      unfold decimal
      rw [zpow_neg, zpow_natCast, Nat.pow_eq, Nat.cast_pow, div_eq_mul_inv]
      rfl
    rw [if_neg up, Int.natAbs_neg, Int.natAbs_natCast, quotient]
    exact sign

/-- The whole number that the digits of a number of few digits stand for has few digits too. -/
theorem whole_shortest_le {k u : Nat} {s : Int} (h : FewDigits k s) (hu : 2 ^ 52 ≤ u)
    (contains : (interval u).Contains (decimal k s)) (apart : 0 < s → 10 ^ 16 * one ≤ u)
    (plain : isPlain (shortest u).exponent = true) (whole : 0 ≤ (shortest u).scale) :
    (shortest u).significand * 10 ^ (shortest u).scale.toNat ≤ 10 ^ 15 := by
  have hpos : 0 < u := hu.trans_lt' (by decide)
  have integer : decimal ((shortest u).significand * 10 ^ (shortest u).scale.toNat) 0
      = decimal (shortest u).significand (shortest u).scale := by
    rw [Binary64.decimal_mul_pow, Int.toNat_of_nonneg whole, zero_add]
  rcases le_or_gt s 0 with hs | hs
  · have most : decimal k s ≤ decimal (10 ^ 15) 0 :=
      (Binary64.decimal_mono k hs).trans (Binary64.decimal_le_iff.mpr h.digits)
    exact Binary64.le_of_contains hu (Binary64.contains_shortest hpos) integer.le contains most
      le_rfl
  · -- a larger number is written with an exponent
    have first := (Binary64.exponent_shortest hpos).1
    have above := (Binary64.firstExponent_spec hpos).2
    simp only [isPlain, Bool.and_eq_true, decide_eq_true_eq] at plain
    have below : decimal 1 (firstExponent u + 1) ≤ decimal 1 (16 : Nat) :=
      Binary64.decimal_mono 1 (by omega)
    rw [Binary64.decimal_natCast, Nat.one_mul] at below
    exact absurd (apart hs) (not_le.mpr (by exact_mod_cast above.trans_le below))

/-- The digits of a number of few digits are scaled to that number. -/
theorem scaled_written {k u : Nat} {s : Int} (h : FewDigits k s) (hk : 0 < k) (hu : 2 ^ 52 ≤ u)
    (format : InFormat u) (contains : (interval u).Contains (decimal k s))
    (apart : 0 < s → 10 ^ 16 * one ≤ u) (negative : Bool) :
    scaled negative (written (shortest u)).1 (written (shortest u)).2
      = some (.finite negative u) := by
  have hpos : 0 < u := hu.trans_lt' (by decide)
  have found : (interval u).Contains
      (decimal (written (shortest u)).1 (written (shortest u)).2) := by
    rw [decimal_written]
    exact Binary64.contains_shortest hpos
  obtain ⟨few, low⟩ := Binary64.few_shortest h hk hu contains
  have high := Binary64.scale_shortest_le h hu contains
  refine scaled_eq negative ?_ ?_ format hpos found
  · unfold written
    split
    · next inPlace =>
      simp only [Bool.and_eq_true, decide_eq_true_eq] at inPlace
      have whole := whole_shortest_le h hu contains apart inPlace.1 inPlace.2
      have even : (shortest u).significand * 10 ^ ((shortest u).scale.toNat + 1)
          = (shortest u).significand * 10 ^ (shortest u).scale.toNat * 5 * 2 ^ 1 := by
        rw [Nat.pow_succ]
        ring
      rw [even]
      exact Binary64.exact_mul_two_pow (by omega) (by decide)
    · rw [← Nat.mul_one (shortest u).significand]
      exact Binary64.exact_mul_two_pow (a := 0) (by omega) (by decide)
  · unfold written
    split
    · show (-1 : Int).natAbs ≤ 22
      decide
    · show (shortest u).scale.natAbs ≤ 22
      omega

/-- **A number of few digits is read back as itself.** -/
theorem reread_of_short {x : Binary64} (h : Short x) : reread x = x := by
  obtain ⟨negative, k, s, rfl, few⟩ := h
  rcases Nat.eq_zero_or_pos k with rfl | hk
  · have zero : Binary64.ofDecimal negative 0 s = .finite negative 0 := if_pos rfl
    rw [zero, reread, if_pos rfl]
  · obtain ⟨u, value, format, hu, contains, apart⟩ := few.exists_finite hk negative
    have positive : u ≠ 0 := (hu.trans_lt' (by decide)).ne'
    rw [value, reread, if_neg positive, scaled_written few hk hu format contains apart negative]
    rfl

theorem iterate_reread_of_short {x : Binary64} (h : Short x) (rounds : Nat) :
    reread^[rounds] x = x :=
  Function.iterate_fixed (reread_of_short h) rounds

end SkillMarket.Json
