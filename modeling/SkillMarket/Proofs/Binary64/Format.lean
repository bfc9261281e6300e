import SkillMarket.Proofs.Binary64.Rounding

/-!
# Numbers in range

A finite number has a representable count below the first one that is out of range. What is at most
such a count is rounded to another one. So dividing by a natural number gives a finite number again,
and multiplying gives one or is out of range.
-/

namespace SkillMarket.Binary64

theorem one_eq : one = 2 ^ 1074 := by decide +kernel

theorem overflow_eq : overflow = 2 ^ 2098 := by decide +kernel

theorem one_pos : 0 < one := by decide +kernel

/-- The count is that of a finite number. -/
structure InFormat (u : Nat) : Prop where
  representable : Representable u
  inRange : u < overflow

variable {n d u : Nat} {negative : Bool} {x : Binary64}

/-! ## Exact natural numbers -/

/-- The natural number is a binary64 number. -/
def Exact (n : Nat) : Prop := InFormat (n * one)

theorem mul_two_pow_lt {m a b c : Nat} (hm : m < 2 ^ a) (h : a + b ≤ c) : m * 2 ^ b < 2 ^ c :=
  calc m * 2 ^ b < 2 ^ a * 2 ^ b := Nat.mul_lt_mul_of_pos_right hm (Nat.two_pow_pos b)
    _ = 2 ^ (a + b) := (Nat.pow_add 2 a b).symm
    _ ≤ 2 ^ c := Nat.pow_le_pow_right (by decide) h

/-- The spacing of the greatest finite numbers. -/
def maxSpacing : Nat := 2045

theorem inFormat_mul_two_pow {m a : Nat} (hm : m < 2 ^ 53) (ha : a ≤ maxSpacing) :
    InFormat (m * 2 ^ a) := by
  refine ⟨representable_mul_two_pow hm a, ?_⟩
  rw [overflow_eq]
  exact mul_two_pow_lt hm (by unfold maxSpacing at ha; omega)

theorem spacing_le (hu : InFormat u) : spacing u ≤ maxSpacing := by
  have range := hu.inRange
  rw [overflow_eq] at range
  unfold spacing maxSpacing
  rcases Nat.eq_zero_or_pos u with rfl | hpos
  · decide
  · have := (Nat.log2_lt hpos.ne').mpr range
    omega

theorem exact_mul_two_pow {m a : Nat} (hm : m < 2 ^ 53) (ha : a ≤ 900) : Exact (m * 2 ^ a) := by
  have units : m * 2 ^ a * one = m * 2 ^ (a + 1074) := by
    rw [one_eq, Nat.mul_assoc, Nat.pow_add]
  unfold Exact
  rw [units]
  exact inFormat_mul_two_pow hm (by unfold maxSpacing; omega)

/-- The powers of ten up to this one are exact. -/
theorem exact_ten_pow {k : Nat} (hk : k ≤ 22) : Exact (10 ^ k) := by
  have split : 10 ^ k = 5 ^ k * 2 ^ k := by rw [← Nat.mul_pow]
  have small : 5 ^ k < 2 ^ 53 := (Nat.pow_le_pow_right (by decide) hk).trans_lt (by decide)
  rw [split]
  exact exact_mul_two_pow small (by omega)

/-- The natural numbers up to this one are exact. -/
theorem exact_of_le_two_pow (h : n ≤ 2 ^ 53) : Exact n := by
  have last : Exact (1 * 2 ^ 53) := exact_mul_two_pow (by decide) (by decide)
  rcases Nat.lt_or_eq_of_le h with less | rfl
  · rw [← Nat.mul_one n, ← Nat.pow_zero 2]
    exact exact_mul_two_pow less (by decide)
  · rwa [Nat.one_mul] at last

theorem ofUnits_of_lt (negative : Bool) (h : roundUnits n d < overflow) :
    ofUnits negative n d = .finite negative (roundUnits n d) := by
  unfold ofUnits
  exact if_pos h

theorem Exact.ofNat_eq (h : Exact n) : ofNat n = .finite false (n * one) := by
  have same := roundUnits_self h.representable
  rw [ofNat, ofUnits_of_lt false (by rw [same]; exact h.inRange), same]

theorem Exact.ofInt_eq {i : Int} (h : Exact i.natAbs) :
    ofInt i = .finite (i < 0) (i.natAbs * one) := by
  have same := roundUnits_self h.representable
  rw [ofInt, ofUnits_of_lt _ (by rw [same]; exact h.inRange), same]

/-! ## Finite numbers -/

theorem representable_one : Representable one := by
  rw [one_eq, ← Nat.one_mul (2 ^ 1074)]
  exact representable_mul_two_pow (by decide) 1074

/-- The number is finite, and has a count that a number can have. -/
inductive IsFinite : Binary64 → Prop
  | mk {negative : Bool} {u : Nat} (format : InFormat u) : IsFinite (.finite negative u)

/-- The greatest finite number, as a count of units. -/
def greatest : Nat := (2 ^ 53 - 1) * 2 ^ maxSpacing

theorem inFormat_greatest : InFormat greatest := inFormat_mul_two_pow (by decide) (Nat.le_refl _)

theorem inFormat_zero : InFormat 0 := ⟨by decide, by decide +kernel⟩

/-- What is at most the count of a finite number is rounded to one. -/
theorem InFormat.roundUnits (hu : InFormat u) (hd : 0 < d) (h : n ≤ u * d) :
    InFormat (roundUnits n d) :=
  ⟨representable_roundUnits hd, (roundUnits_le hd hu.representable h).trans_lt hu.inRange⟩

theorem InFormat.ofUnits_eq (hu : InFormat u) (hd : 0 < d) (h : n ≤ u * d) (negative : Bool) :
    ofUnits negative n d = .finite negative (Binary64.roundUnits n d) :=
  ofUnits_of_lt negative (hu.roundUnits hd h).inRange

/-- Rounding gives a finite number, or is out of range. -/
theorem ofUnits_cases (negative : Bool) (n : Nat) (hd : 0 < d) :
    ofUnits negative n d = .infinite negative ∨ (ofUnits negative n d).IsFinite := by
  by_cases range : roundUnits n d < overflow
  · rw [ofUnits_of_lt negative range]
    exact .inr (.mk ⟨representable_roundUnits hd, range⟩)
  · left
    unfold ofUnits
    exact if_neg range

/-- A natural number with at most 308 digits after the first is a finite number, and at least one if
it is positive. -/
theorem exists_ofNat_eq (hn : 0 < n) (h : n ≤ 10 ^ 308) :
    ofNat n = .finite false (roundUnits (n * one) 1) ∧ InFormat (roundUnits (n * one) 1) ∧
      one ≤ roundUnits (n * one) 1 := by
  have range : 10 ^ 308 * one ≤ greatest := by decide +kernel
  have most : n * one ≤ greatest * 1 := by
    rw [Nat.mul_one]
    exact (Nat.mul_le_mul_right one h).trans range
  refine ⟨inFormat_greatest.ofUnits_eq Nat.one_pos most false,
    inFormat_greatest.roundUnits Nat.one_pos most, ?_⟩
  refine le_roundUnits Nat.one_pos representable_one ?_
  rw [Nat.mul_one]
  exact Nat.le_mul_of_pos_left one hn

theorem isFinite_ofNat (h : n ≤ 10 ^ 308) : (ofNat n).IsFinite := by
  rcases Nat.eq_zero_or_pos n with rfl | hn
  · have zero : ofNat 0 = .finite false 0 := by decide +kernel
    rw [zero]
    exact .mk inFormat_zero
  · obtain ⟨value, format, -⟩ := exists_ofNat_eq hn h
    rw [value]
    exact .mk format

theorem IsFinite.neg (h : x.IsFinite) : (-x).IsFinite := by
  cases h with
  | mk format => exact .mk format

theorem finite_mul_finite (s t : Bool) (m n : Nat) :
    finite s m * finite t n = ofUnits (s != t) (m * n) one := by
  show mul (finite s m) (finite t n) = _
  rw [mul]

theorem finite_div_finite (s t : Bool) (m : Nat) (hn : 0 < n) :
    finite s m / finite t n = ofUnits (s != t) (m * one) n := by
  show div (finite s m) (finite t n) = _
  rw [div, if_neg hn.ne']

/-- A product of finite numbers is finite, or out of range. -/
theorem IsFinite.mul_cases {y : Binary64} (hx : x.IsFinite) (hy : y.IsFinite) :
    (∃ negative, x * y = .infinite negative) ∨ (x * y).IsFinite := by
  cases hx with
  | @mk s m _ =>
      cases hy with
      | @mk t n _ =>
          rw [finite_mul_finite]
          exact (ofUnits_cases _ _ one_pos).imp_left fun h => ⟨_, h⟩

/-- A finite number divided by a natural number is finite. -/
theorem IsFinite.div_ofNat (hx : x.IsFinite) (hn : 0 < n) (h : n ≤ 10 ^ 308) :
    (x / ofNat n).IsFinite := by
  cases hx with
  | @mk s m format =>
      obtain ⟨value, -, least⟩ := exists_ofNat_eq hn h
      rw [value]
      generalize roundUnits (n * one) 1 = w at least ⊢
      have positive : 0 < w := one_pos.trans_le least
      have most : m * one ≤ m * w := Nat.mul_le_mul_left m least
      rw [finite_div_finite _ _ _ positive, format.ofUnits_eq positive most]
      exact .mk (format.roundUnits positive most)

end SkillMarket.Binary64
