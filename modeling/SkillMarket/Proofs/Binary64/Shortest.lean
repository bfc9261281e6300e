import Mathlib.Data.List.DropRight
import Mathlib.Tactic
import SkillMarket.Proofs.Binary64.Format

/-!
# The fewest digits

`shortest` looks for a decimal in the interval of a count of units, from the grid of the first
digit to finer ones. Here the decimals are taken as rational numbers of units. The decimal that is
found is in the interval and on the coarsest grid that has such a decimal; the seventeenth grid
always has one.
-/

namespace SkillMarket.Binary64

/-! ## Intervals of rational numbers -/

/-- The number, in units, is in the interval. -/
def Interval.Contains (i : Interval) (q : ℚ) : Prop :=
  if i.closed then (i.low : ℚ) ≤ 4 * q ∧ 4 * q ≤ i.high
  else (i.low : ℚ) < 4 * q ∧ 4 * q < i.high

theorem Interval.holds_iff_contains (i : Interval) {n d : Nat} (hd : 0 < d) :
    i.holds n d = true ↔ i.Contains (n / d) := by
  have positive : (0 : ℚ) < d := by exact_mod_cast hd
  have quotient : 4 * ((n : ℚ) / d) = 4 * n / d := by ring
  unfold holds Contains
  rw [quotient]
  split
  · simp only [Bool.and_eq_true, decide_eq_true_eq, le_div_iff₀ positive, div_le_iff₀ positive]
    norm_cast
  · simp only [Bool.and_eq_true, decide_eq_true_eq, lt_div_iff₀ positive, div_lt_iff₀ positive]
    norm_cast

/-- What lies between two numbers of the interval is in it. -/
theorem Interval.Contains.between {i : Interval} {p q r : ℚ} (hp : i.Contains p)
    (hr : i.Contains r) (hpq : p ≤ q) (hqr : q ≤ r) : i.Contains q := by
  unfold Contains at *
  split_ifs at * with closed
  · exact ⟨by linarith, by linarith⟩
  · exact ⟨by linarith, by linarith⟩

/-- A fraction is rounded to a representable count exactly if it lies in its interval. -/
theorem roundUnits_eq_iff_contains {n d u : Nat} (hd : 0 < d) (hu : Representable u)
    (hpos : 0 < u) : roundUnits n d = u ↔ (interval u).Contains (n / d) :=
  (roundUnits_eq_iff hd hu hpos).trans ((interval u).holds_iff_contains hd)

variable {u : Nat}

theorem le_roundUnits_of_le {n d : Nat} (hd : 0 < d) (hu : Representable u) (h : (u : ℚ) ≤ n / d) :
    u ≤ roundUnits n d := by
  rw [le_div_iff₀ (by exact_mod_cast hd)] at h
  exact le_roundUnits hd hu (by exact_mod_cast h)

theorem roundUnits_le_of_le {n d : Nat} (hd : 0 < d) (hu : Representable u) (h : n / d ≤ (u : ℚ)) :
    roundUnits n d ≤ u := by
  rw [div_le_iff₀ (by exact_mod_cast hd)] at h
  exact roundUnits_le hd hu (by exact_mod_cast h)

/-- The spacing of significands is at most the count itself. -/
theorem two_pow_spacing_le (hpos : 0 < u) : 2 ^ spacing u ≤ u :=
  (Nat.pow_le_pow_right (by decide) (Nat.sub_le _ _)).trans (Nat.log2_self_le hpos.ne')

/-- The ends of the interval, as rational numbers. -/
theorem interval_ends (hpos : 0 < u) :
    ((interval u).low : ℚ) = 4 * u - reach u * 2 ^ spacing u ∧
      ((interval u).high : ℚ) = 4 * u + 2 * 2 ^ spacing u := by
  have inside : reach u * 2 ^ spacing u ≤ 4 * u :=
    Nat.mul_le_mul ((reach_le u).trans (by decide)) (two_pow_spacing_le hpos)
  rw [interval_eq]
  constructor
  · rw [Nat.cast_sub inside]
    push_cast
    rfl
  · push_cast
    rfl

/-- The interval reaches to half of the spacing on both sides at most. -/
theorem Interval.Contains.near {q : ℚ} (hpos : 0 < u) (h : (interval u).Contains q) :
    2 * |q - u| ≤ 2 ^ spacing u := by
  obtain ⟨low, high⟩ := interval_ends hpos
  have most : (reach u : ℚ) * 2 ^ spacing u ≤ 2 * 2 ^ spacing u :=
    mul_le_mul_of_nonneg_right (by exact_mod_cast reach_le u) (by positivity)
  have ends : 4 * (u : ℚ) - reach u * 2 ^ spacing u ≤ 4 * q ∧
      4 * q ≤ 4 * u + 2 * 2 ^ spacing u := by
    rw [← low, ← high]
    unfold Contains at h
    split_ifs at h
    · exact h
    · exact ⟨h.1.le, h.2.le⟩
  have : |q - u| ≤ 2 ^ spacing u / 2 := abs_le.mpr ⟨by linarith, by linarith⟩
  linarith

/-- A normal count is close to what is in its interval. -/
theorem Interval.Contains.close {q : ℚ} (hu : 2 ^ 52 ≤ u) (h : (interval u).Contains q) :
    2 ^ 53 * |q - u| ≤ u := by
  have hpos : 0 < u := hu.trans_lt' (by decide)
  have size : 2 ^ 52 * 2 ^ spacing u ≤ u := by
    have long : 52 ≤ u.log2 := (Nat.le_log2 hpos.ne').mpr hu
    have log : 52 + spacing u = u.log2 := by
      unfold spacing
      omega
    rw [← Nat.pow_add, log]
    exact Nat.log2_self_le hpos.ne'
  have size : (2 : ℚ) ^ 52 * 2 ^ spacing u ≤ u := by exact_mod_cast size
  have := h.near hpos
  linarith

/-- What is nearer than a quarter of the spacing is in the interval, and so is what is nearer than
half of it unless the count is a power of two. -/
theorem contains_of_near {q : ℚ} (hpos : 0 < u) (near : 2 * |q - u| < 2 ^ spacing u)
    (nearer : u = 2 ^ 52 * 2 ^ spacing u → 4 * |q - u| < 2 ^ spacing u) :
    (interval u).Contains q := by
  obtain ⟨low, high⟩ := interval_ends hpos
  have below : 4 * |q - u| < reach u * 2 ^ spacing u := by
    unfold reach
    split
    · next power => simpa using nearer power.2
    · push_cast
      linarith
  have above := (abs_lt.mp (show |q - u| < 2 ^ spacing u / 2 by linarith)).2
  have ends : ((interval u).low : ℚ) < 4 * q ∧ 4 * q < (interval u).high := by
    rw [low, high]
    have := neg_abs_le (q - u)
    exact ⟨by linarith, by linarith⟩
  unfold Interval.Contains
  split_ifs
  · exact ⟨ends.1.le, ends.2.le⟩
  · exact ends

theorem contains_self (hpos : 0 < u) : (interval u).Contains u :=
  contains_of_near hpos (by simp) (by simp)

/-! ## Decimals in units -/

/-- The decimal `k · 10^s`, as a number of units. -/
def decimal (k : Nat) (s : Int) : ℚ := k * 10 ^ s * one

theorem decimal_eq_mul (k : Nat) (s : Int) : decimal k s = k * decimal 1 s := by
  unfold decimal
  push_cast
  ring

theorem decimal_add_one (k : Nat) (s : Int) : decimal (k + 1) s = decimal k s + decimal 1 s := by
  rw [decimal_eq_mul, decimal_eq_mul k]
  push_cast
  ring

theorem decimal_one_pos (s : Int) : 0 < decimal 1 s := by
  have unit : (0 : ℚ) < one := by exact_mod_cast one_pos
  exact mul_pos (mul_pos (by norm_num) (zpow_pos (by norm_num) s)) unit

theorem decimal_le_iff {k j : Nat} {s : Int} : decimal k s ≤ decimal j s ↔ k ≤ j := by
  rw [decimal_eq_mul k, decimal_eq_mul j, mul_le_mul_iff_left₀ (decimal_one_pos s)]
  exact Nat.cast_le

theorem decimal_lt_iff {k j : Nat} {s : Int} : decimal k s < decimal j s ↔ k < j := by
  rw [decimal_eq_mul k, decimal_eq_mul j, mul_lt_mul_iff_left₀ (decimal_one_pos s)]
  exact Nat.cast_lt

/-- Zeros can be moved from the exponent to the number. -/
theorem decimal_mul_pow (k j : Nat) (s : Int) : decimal (k * 10 ^ j) s = decimal k (s + j) := by
  unfold decimal
  rw [zpow_add₀ (by norm_num), zpow_natCast]
  push_cast
  ring

theorem decimal_mono (k : Nat) {s t : Int} (h : s ≤ t) : decimal k s ≤ decimal k t := by
  obtain ⟨a, rfl⟩ := Int.le.dest h
  rw [← decimal_mul_pow, decimal_le_iff]
  exact Nat.le_mul_of_pos_right k (Nat.pow_pos (by decide))

theorem decimal_pow (a : Nat) (s : Int) : decimal (10 ^ a) s = decimal 1 (s + a) := by
  rw [← decimal_mul_pow, Nat.one_mul]

theorem decimal_natCast (k a : Nat) : decimal k (a : Int) = ((k * 10 ^ a * one : Nat) : ℚ) := by
  unfold decimal
  generalize one = w
  rw [zpow_natCast]
  push_cast
  rfl

theorem decimal_neg_mul_pow (k a : Nat) : decimal k (-(a : Int)) * 10 ^ a = (k * one : Nat) := by
  unfold decimal
  generalize one = w
  rw [zpow_neg, zpow_natCast]
  push_cast
  field_simp

/-- A finer grid has the decimal too. -/
theorem exists_decimal_eq (k : Nat) {s t : Int} (h : t ≤ s) : ∃ j, decimal k s = decimal j t := by
  obtain ⟨a, rfl⟩ := Int.le.dest h
  exact ⟨k * 10 ^ a, (decimal_mul_pow k a t).symm⟩

/-- The interval of a positive count does not reach zero. -/
theorem pos_of_contains (hpos : 0 < u) {k : Nat} {s : Int}
    (h : (interval u).Contains (decimal k s)) : 0 < k := by
  rcases Nat.eq_zero_or_pos k with rfl | some
  · have near := h.near hpos
    have spacing : (2 : ℚ) ^ spacing u ≤ u := by exact_mod_cast two_pow_spacing_le hpos
    have positive : (0 : ℚ) < u := by exact_mod_cast hpos
    rw [decimal_eq_mul, Nat.cast_zero, zero_mul, zero_sub, abs_neg, abs_of_pos positive] at near
    linarith
  · exact some

theorem gridPoint_eq (k : Nat) (s : Int) :
    0 < (gridPoint k s).2 ∧ ((gridPoint k s).1 : ℚ) / (gridPoint k s).2 = decimal k s := by
  unfold gridPoint decimal
  generalize one = w
  split
  · next h =>
    obtain ⟨a, rfl⟩ := Int.eq_ofNat_of_zero_le h
    refine ⟨Nat.one_pos, ?_⟩
    show ((k * 10 ^ a * w : Nat) : ℚ) / (1 : Nat) = _
    push_cast
    rw [div_one, zpow_natCast]
  · next h =>
    obtain ⟨a, rfl⟩ : ∃ a : Nat, s = -a := ⟨s.natAbs, by omega⟩
    rw [neg_neg]
    refine ⟨Nat.pow_pos (by decide), ?_⟩
    show ((k * w : Nat) : ℚ) / (10 ^ a : Nat) = _
    push_cast
    rw [zpow_neg, zpow_natCast]
    field_simp

/-- The decimal is in the interval of the count, as the search tests it. -/
theorem holds_gridPoint_iff (i : Interval) (k : Nat) (s : Int) :
    i.holds (gridPoint k s).1 (gridPoint k s).2 = true ↔ i.Contains (decimal k s) := by
  obtain ⟨positive, value⟩ := gridPoint_eq k s
  rw [i.holds_iff_contains positive, value]

/-! ## One grid -/

/-- A count in units of the grid, as the fraction that the search takes it for. -/
theorem exists_index (u : Nat) (s : Int) : ∃ n d : Nat,
    (if s ≥ 0 then (u, Nat.pow 10 s.toNat * one) else (u * Nat.pow 10 (-s).toNat, one)) = (n, d) ∧
      0 < d ∧ (n / d : ℚ) * decimal 1 s = u := by
  have unit := one_pos
  unfold decimal
  generalize one = w at unit ⊢
  have positive : (0 : ℚ) < w := by exact_mod_cast unit
  split
  · next h =>
    obtain ⟨a, rfl⟩ := Int.eq_ofNat_of_zero_le h
    refine ⟨_, _, rfl, Nat.mul_pos (Nat.pow_pos (by decide)) unit, ?_⟩
    show (u / (10 ^ a * w : Nat) : ℚ) * _ = u
    rw [zpow_natCast]
    push_cast
    field_simp
  · next h =>
    obtain ⟨a, rfl⟩ : ∃ a : Nat, s = -a := ⟨s.natAbs, by omega⟩
    rw [neg_neg]
    refine ⟨_, _, rfl, unit, ?_⟩
    show ((u * 10 ^ a : Nat) / w : ℚ) * _ = u
    rw [zpow_neg, zpow_natCast]
    push_cast
    field_simp

/-- **The two neighbours of a count on a grid.** One of them is found if one of them is in the
interval. -/
theorem exists_neighbours (u : Nat) (s : Int) : ∃ b,
    decimal b s ≤ u ∧ u < decimal (b + 1) s ∧
      ((∃ k, onGrid? u s = some k ∧ (k = b ∨ k = b + 1) ∧ (interval u).Contains (decimal k s)) ∨
        onGrid? u s = none ∧ ¬ (interval u).Contains (decimal b s) ∧
          ¬ (interval u).Contains (decimal (b + 1) s)) := by
  obtain ⟨n, d, index, hd, value⟩ := exists_index u s
  have positive : (0 : ℚ) < d := by exact_mod_cast hd
  have floor : ((n / d : Nat) : ℚ) ≤ n / d ∧ (n / d : ℚ) < (n / d : Nat) + 1 := by
    have above : n < (n / d + 1) * d := by
      rw [Nat.succ_mul]
      exact Nat.lt_div_mul_add hd
    rw [le_div_iff₀ positive, div_lt_iff₀ positive]
    exact ⟨by exact_mod_cast Nat.div_mul_le_self n d, by exact_mod_cast above⟩
  refine ⟨n / d, ?_, ?_, ?_⟩
  · rw [decimal_eq_mul, ← value]
    exact mul_le_mul_of_nonneg_right floor.1 (decimal_one_pos s).le
  · rw [decimal_eq_mul, ← value]
    push_cast
    exact mul_lt_mul_of_pos_right floor.2 (decimal_one_pos s)
  · have near : nearest n d = n / d ∨ nearest n d = n / d + 1 := by
      unfold nearest
      dsimp only
      split_ifs <;> simp
    unfold onGrid?
    rw [index]
    dsimp only
    simp only [← holds_gridPoint_iff]
    split
    · next low high =>
      refine .inl ⟨_, rfl, near, ?_⟩
      rcases near with h | h
      · rw [h]
        exact low
      · rw [h]
        exact high
    · next low _ => exact .inl ⟨_, rfl, .inl rfl, low⟩
    · next _ high => exact .inl ⟨_, rfl, .inr rfl, high⟩
    · next low high => exact .inr ⟨rfl, ne_true_of_eq_false low, ne_true_of_eq_false high⟩

/-- What is found on a grid is in the interval, and less than a step away. -/
theorem onGrid?_eq_some {s : Int} {k : Nat} (h : onGrid? u s = some k) :
    (interval u).Contains (decimal k s) ∧ decimal k s ≤ u + decimal 1 s ∧
      u < decimal (k + 1) s := by
  obtain ⟨b, below, above, ⟨k', found, side, inside⟩ | ⟨none, -⟩⟩ := exists_neighbours u s
  · rw [h] at found
    obtain rfl := Option.some.inj found
    have step := decimal_one_pos s
    have next := decimal_add_one b s
    refine ⟨inside, ?_, ?_⟩
    · rcases side with rfl | rfl <;> linarith
    · refine above.trans_le (decimal_le_iff.mpr ?_)
      omega
  · rw [h] at none
    simp at none

/-- A grid with a decimal in the interval is one on which the search finds a decimal. -/
theorem exists_onGrid?_eq_some (hpos : 0 < u) {s : Int} {k : Nat}
    (h : (interval u).Contains (decimal k s)) : ∃ k', onGrid? u s = some k' := by
  obtain ⟨b, below, above, ⟨k', found, -⟩ | ⟨-, notLow, notHigh⟩⟩ := exists_neighbours u s
  · exact ⟨k', found⟩
  · -- a neighbour lies between the count and the decimal
    rcases Nat.lt_or_ge b k with less | more
    · have := decimal_le_iff (s := s).mpr less
      exact absurd ((contains_self hpos).between h above.le this) notHigh
    · have := decimal_le_iff (s := s).mpr more
      exact absurd (h.between (contains_self hpos) this below) notLow

/-! ## The first digit -/

/-- A positive number has as many digits as its size says. -/
theorem length_toDigits {n : Nat} (hn : 0 < n) :
    10 ^ ((Nat.toDigits 10 n).length - 1) ≤ n ∧ n < 10 ^ (Nat.toDigits 10 n).length := by
  have some : 0 < (Nat.toDigits 10 n).length := List.length_pos_of_ne_nil Nat.toDigits_ne_nil
  refine ⟨?_, (Nat.length_toDigits_le_iff (by decide) some).mp (Nat.le_refl _)⟩
  rcases Nat.eq_zero_or_pos ((Nat.toDigits 10 n).length - 1) with h | h
  · rw [h]
    exact hn
  · by_contra less
    have := (Nat.length_toDigits_le_iff (by decide) h).mpr (Nat.lt_of_not_le less)
    omega

/-- The first digit of a positive count has the first exponent. -/
theorem firstExponent_spec (hpos : 0 < u) :
    decimal 1 (firstExponent u) ≤ u ∧ (u : ℚ) < decimal 1 (firstExponent u + 1) := by
  have enough : one ≤ Nat.pow 10 places := by decide +kernel
  have unit := one_pos
  unfold firstExponent decimal
  generalize one = w at enough unit ⊢
  have leading : 0 < u * Nat.pow 10 places / w :=
    Nat.div_pos (enough.trans (Nat.le_mul_of_pos_left _ hpos)) unit
  obtain ⟨least, most⟩ := length_toDigits leading
  have some : 0 < (Nat.toDigits 10 (u * Nat.pow 10 places / w)).length :=
    List.length_pos_of_ne_nil Nat.toDigits_ne_nil
  rw [Nat.le_div_iff_mul_le unit] at least
  rw [Nat.div_lt_iff_lt_mul unit] at most
  generalize (Nat.toDigits 10 (u * Nat.pow 10 places / w)).length = l at least most some ⊢
  generalize places = p at least most ⊢
  obtain ⟨l, rfl⟩ : ∃ i, l = i + 1 := ⟨l - 1, by omega⟩
  have least : (10 : ℚ) ^ l * w ≤ u * 10 ^ p := by exact_mod_cast least
  have most : (u : ℚ) * 10 ^ p < 10 ^ (l + 1) * w := by exact_mod_cast most
  have scale : (0 : ℚ) < 10 ^ p := by positivity
  have shift (a : Nat) : ((1 : Nat) : ℚ) * 10 ^ ((a : Int) - p) * w = 10 ^ a * w / 10 ^ p := by
    rw [zpow_sub₀ (by norm_num), zpow_natCast, zpow_natCast]
    push_cast
    ring
  constructor
  · rw [show ((l + 1 : Nat) : Int) - 1 - p = l - p by omega, shift, div_le_iff₀ scale]
    exact least
  · rw [show ((l + 1 : Nat) : Int) - 1 - p + 1 = (l + 1 : Nat) - p by omega, shift,
      lt_div_iff₀ scale]
    exact most

/-- The first digits of the numbers in range are no further from one than this. -/
theorem natAbs_firstExponent_le (hpos : 0 < u) (hu : u < overflow) :
    (firstExponent u).natAbs ≤ 324 := by
  have some : 0 < (Nat.toDigits 10 (u * Nat.pow 10 places / one)).length :=
    List.length_pos_of_ne_nil Nat.toDigits_ne_nil
  have low : -324 ≤ firstExponent u := by
    unfold firstExponent places at *
    omega
  have high : firstExponent u < 309 := by
    by_contra large
    have first : decimal 1 (309 : Nat) ≤ u :=
      (decimal_mono 1 (not_lt.mp large)).trans (firstExponent_spec hpos).1
    rw [decimal_natCast, Nat.cast_le] at first
    have range : overflow ≤ 1 * 10 ^ 309 * one := by decide +kernel
    exact absurd (range.trans first) (not_le.mpr hu)
  omega

/-- A decimal on a grid that is `j` places finer than the first digit has `j + 1` digits, or is
the power of ten above those. -/
theorem onGrid?_bounds (hpos : 0 < u) {j k : Nat}
    (h : onGrid? u (firstExponent u - j) = some k) : 10 ^ j ≤ k ∧ k ≤ 10 ^ (j + 1) := by
  obtain ⟨-, above, below⟩ := onGrid?_eq_some h
  obtain ⟨first, last⟩ := firstExponent_spec hpos
  constructor
  · have : decimal (10 ^ j) (firstExponent u - j) < decimal (k + 1) (firstExponent u - j) := by
      rw [decimal_pow, sub_add_cancel]
      exact first.trans_lt below
    exact Nat.lt_succ_iff.mp (decimal_lt_iff.mp this)
  · have : decimal k (firstExponent u - j)
        < decimal (10 ^ (j + 1) + 1) (firstExponent u - j) := by
      have next : firstExponent u - j + (j + 1 : Nat) = firstExponent u + 1 := by omega
      rw [decimal_add_one, decimal_pow, next]
      linarith
    exact Nat.lt_succ_iff.mp (decimal_lt_iff.mp this)

/-! ## The coarsest grid -/

/-- The search stops at the first grid that has a decimal, if it gets there. -/
theorem coarsestGrid_spec {fuel : Nat} {s : Int} {j k : Nat} (hj : j < fuel)
    (h : onGrid? u (s - j) = some k) : ∃ k' i, i ≤ j ∧ coarsestGrid u fuel s = (k', s - (i : Nat)) ∧
      onGrid? u (s - (i : Nat)) = some k' := by
  induction fuel generalizing s j with
  | zero => omega
  | succ fuel ih =>
      rw [coarsestGrid]
      cases here : onGrid? u s with
      | some k' => exact ⟨k', 0, by omega, by simp, by simpa using here⟩
      | none =>
          obtain ⟨j, rfl⟩ : ∃ i, j = i + 1 := by
            rcases Nat.eq_zero_or_pos j with rfl | positive
            · simp [here] at h
            · exact ⟨j - 1, by omega⟩
          have deeper (i : Nat) : s - 1 - i = s - (i + 1 : Nat) := by omega
          rw [← deeper] at h
          obtain ⟨k', i, hi, grid, found⟩ := ih (by omega) h
          rw [deeper] at grid found
          exact ⟨k', i + 1, by omega, grid, found⟩

/-- **Seventeen digits are enough**: the grid sixteen places below the first digit has a decimal in
the interval. -/
theorem exists_onGrid?_sixteen (hpos : 0 < u) :
    ∃ k, onGrid? u (firstExponent u - (16 : Nat)) = some k := by
  obtain ⟨b, below, above, -⟩ := exists_neighbours u (firstExponent u - (16 : Nat))
  have first := (firstExponent_spec hpos).1
  have power : decimal 1 (firstExponent u)
      = 10 ^ 16 * decimal 1 (firstExponent u - (16 : Nat)) := by
    rw [← sub_add_cancel (firstExponent u) ((16 : Nat) : Int), ← decimal_mul_pow, sub_add_cancel,
      decimal_eq_mul]
    push_cast
    ring
  have size : (u : ℚ) < 2 ^ 53 * 2 ^ spacing u := by
    have := (binade_spacing (n := u) Nat.one_pos).below
    rw [Nat.div_one, Nat.one_mul] at this
    exact_mod_cast this
  rw [decimal_add_one] at above
  rw [power] at first
  -- a step of this grid is less than the spacing, and less than half of it at a power of two
  have fine : ∀ q : ℚ, 2 * |q - u| ≤ decimal 1 (firstExponent u - (16 : Nat)) →
      (interval u).Contains q := by
    intro q near
    refine contains_of_near hpos (by linarith) fun edge => ?_
    have edge : (u : ℚ) = 2 ^ 52 * 2 ^ spacing u := by exact_mod_cast edge
    linarith
  generalize firstExponent u - (16 : Nat) = s at *
  rcases le_total (2 * (u - decimal b s)) (decimal 1 s) with half | half
  · refine exists_onGrid?_eq_some hpos (fine (decimal b s) ?_)
    rw [abs_sub_comm, abs_of_nonneg (by linarith)]
    exact half
  · refine exists_onGrid?_eq_some hpos (fine (decimal (b + 1) s) ?_)
    rw [decimal_add_one, abs_of_nonneg (by linarith)]
    linarith

/-! ## Digits -/

/-- The number that the digits stand for. -/
def Digits.significand (d : Digits) : Nat := Nat.ofDigitChars 10 d.digits 0

/-- The exponent of the last digit. -/
def Digits.scale (d : Digits) : Int := d.exponent + 1 - d.digits.length

/-- Only zeros are left out. -/
theorem exists_toDigits_eq (k : Nat) (s : Int) :
    ∃ z, Nat.toDigits 10 k = (digitsOf k s).digits ++ List.replicate z '0' := by
  have zeros : ∀ c ∈ (Nat.toDigits 10 k).rtakeWhile (· == '0'), c = '0' := fun c hc => by
    simpa using List.mem_rtakeWhile_imp hc
  refine ⟨((Nat.toDigits 10 k).rtakeWhile (· == '0')).length, ?_⟩
  rw [← List.eq_replicate_of_mem zeros]
  exact List.rdropWhile_append_rtakeWhile.symm

/-- The digits stand for the decimal. -/
theorem digitsOf_spec (k : Nat) (s : Int) : ∃ z : Nat,
    k = (digitsOf k s).significand * 10 ^ z ∧ (digitsOf k s).scale = s + z := by
  obtain ⟨z, digits⟩ := exists_toDigits_eq k s
  refine ⟨z, ?_, ?_⟩
  · have value := Nat.ofDigitChars_ten_toDigits (n := k)
    rw [digits, Nat.ofDigitChars_append, Nat.ofDigitChars_replicate_zero] at value
    rw [Digits.significand, Nat.mul_comm]
    exact value.symm
  · have length := congrArg List.length digits
    rw [List.length_append, List.length_replicate] at length
    have exponent : (digitsOf k s).exponent = s + (Nat.toDigits 10 k).length - 1 := rfl
    rw [Digits.scale, exponent]
    omega

theorem decimal_digitsOf (k : Nat) (s : Int) :
    decimal (digitsOf k s).significand (digitsOf k s).scale = decimal k s := by
  obtain ⟨z, value, scale⟩ := digitsOf_spec k s
  conv_rhs => rw [value]
  rw [decimal_mul_pow, scale]

/-- The exponent of the first digit is that of the count, or one more if the digits are those of
the next power of ten. -/
theorem exponent_digitsOf {j k : Nat} {s : Int} (low : 10 ^ j ≤ k) (high : k ≤ 10 ^ (j + 1)) :
    s + j ≤ (digitsOf k s).exponent ∧ (digitsOf k s).exponent ≤ s + j + 1 := by
  have exponent : (digitsOf k s).exponent = s + (Nat.toDigits 10 k).length - 1 := rfl
  have most : (Nat.toDigits 10 k).length ≤ j + 2 := by
    rw [Nat.length_toDigits_le_iff (by decide) (by omega)]
    exact high.trans_lt (Nat.pow_lt_pow_right (by decide) (by omega))
  have least : j < (Nat.toDigits 10 k).length := by
    by_contra short
    have small := (length_toDigits (low.trans_lt' (Nat.pow_pos (by decide)))).2
    have : 10 ^ (Nat.toDigits 10 k).length ≤ 10 ^ j := Nat.pow_le_pow_right (by decide) (by omega)
    omega
  omega

/-- **What is found**: a decimal in the interval, on the first grid that has one, and no finer than
the seventeenth. -/
theorem exists_shortest_eq (hpos : 0 < u) {j : Nat} {n : Nat}
    (h : (interval u).Contains (decimal n (firstExponent u - j))) : ∃ k i : Nat, i ≤ j ∧ i ≤ 16 ∧
      shortest u = digitsOf k (firstExponent u - i) ∧ 10 ^ i ≤ k ∧ k ≤ 10 ^ (i + 1) ∧
      (interval u).Contains (decimal k (firstExponent u - i)) := by
  have least : ∃ m, m ≤ j ∧ m ≤ 16 ∧ ∃ k, onGrid? u (firstExponent u - m) = some k := by
    rcases Nat.le_total j 16 with hj | hj
    · exact ⟨j, Nat.le_refl j, hj, exists_onGrid?_eq_some hpos h⟩
    · exact ⟨16, hj, Nat.le_refl 16, exists_onGrid?_sixteen hpos⟩
  obtain ⟨m, hmj, hm, n, there⟩ := least
  obtain ⟨k, i, hi, grid, found⟩ := coarsestGrid_spec (by omega : m < 17) there
  obtain ⟨low, high⟩ := onGrid?_bounds hpos found
  refine ⟨k, i, hi.trans hmj, hi.trans hm, ?_, low, high, (onGrid?_eq_some found).1⟩
  unfold shortest
  rw [grid]

/-- **What is found for every positive count.** -/
theorem exists_digitsOf (hpos : 0 < u) : ∃ k i : Nat, i ≤ 16 ∧
    shortest u = digitsOf k (firstExponent u - i) ∧ 10 ^ i ≤ k ∧ k ≤ 10 ^ (i + 1) ∧
      (interval u).Contains (decimal k (firstExponent u - i)) := by
  obtain ⟨n, sixteen⟩ := exists_onGrid?_sixteen hpos
  obtain ⟨k, i, -, found⟩ := exists_shortest_eq hpos (onGrid?_eq_some sixteen).1
  exact ⟨k, i, found⟩

/-- **The digits identify the count**: the decimal that they stand for is in its interval. -/
theorem contains_shortest (hpos : 0 < u) :
    (interval u).Contains (decimal (shortest u).significand (shortest u).scale) := by
  obtain ⟨k, i, -, digits, -, -, found⟩ := exists_digitsOf hpos
  rw [digits, decimal_digitsOf]
  exact found

theorem exponent_shortest (hpos : 0 < u) :
    firstExponent u ≤ (shortest u).exponent ∧ (shortest u).exponent ≤ firstExponent u + 1 := by
  obtain ⟨k, i, -, digits, low, high, -⟩ := exists_digitsOf hpos
  have exponent := exponent_digitsOf (s := firstExponent u - i) low high
  rw [sub_add_cancel] at exponent
  rw [digits]
  exact exponent

end SkillMarket.Binary64
