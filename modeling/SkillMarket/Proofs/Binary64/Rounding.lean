import Mathlib.Tactic
import SkillMarket.Binary64.Decimal

/-!
# Rounding

A count of units is representable if a 53-bit significand can hold it. What is rounded to a
representable count is what lies in its interval (`roundUnits_eq_iff`), and rounding keeps the
order to every representable count.

A fraction `n / d` lies in the binade `e` if significands around it are `2^e` units apart. With
`d · 2^e` as the unit, its significand is a number of 53 bits, or of fewer in the lowest binade.
-/

namespace SkillMarket.Binary64

/-! ## The nearest natural number -/

/-- The nearest number is at most half away, and is even if it is exactly half away. -/
theorem nearest_eq_iff {n d k : Nat} (hd : 0 < d) :
    nearest n d = k ↔ 2 * (k * d) ≤ 2 * n + d ∧ 2 * n ≤ 2 * (k * d) + d ∧
      (2 * (k * d) = 2 * n + d ∨ 2 * n = 2 * (k * d) + d → k % 2 = 0) := by
  have split : n = n / d * d + n % d := (Nat.div_add_mod' n d).symm
  have small : n % d < d := Nat.mod_lt n hd
  unfold nearest
  dsimp only
  generalize n / d = q at split ⊢
  generalize n % d = r at split small ⊢
  subst split
  have next : (q + 1) * d = q * d + d := Nat.succ_mul q d
  constructor
  · rintro rfl
    split_ifs <;> omega
  · rintro ⟨below, above, tie⟩
    -- no other number than the two neighbours is near enough
    have near : k = q ∨ k = q + 1 := by
      rcases Nat.lt_trichotomy k q with h | h | h
      · have : (k + 1) * d ≤ q * d := Nat.mul_le_mul_right d h
        have : (k + 1) * d = k * d + d := Nat.succ_mul k d
        omega
      · exact .inl h
      · by_contra other
        have : (q + 1 + 1) * d ≤ k * d := Nat.mul_le_mul_right d (by omega)
        have : (q + 1 + 1) * d = (q + 1) * d + d := Nat.succ_mul _ d
        omega
    rcases near with rfl | rfl <;> split_ifs <;> omega

/-- What is at least `k` is rounded to `k` at least. -/
theorem le_nearest {n d k : Nat} (hd : 0 < d) (h : k * d ≤ n) : k ≤ nearest n d := by
  obtain ⟨-, above, -⟩ := (nearest_eq_iff hd).mp (rfl : nearest n d = _)
  by_contra less
  have : (nearest n d + 1) * d ≤ k * d := Nat.mul_le_mul_right d (by omega)
  have : (nearest n d + 1) * d = nearest n d * d + d := Nat.succ_mul _ d
  omega

/-- What is at most `k` is rounded to `k` at most. -/
theorem nearest_le {n d k : Nat} (hd : 0 < d) (h : n ≤ k * d) : nearest n d ≤ k := by
  obtain ⟨below, -, -⟩ := (nearest_eq_iff hd).mp (rfl : nearest n d = _)
  by_contra more
  have : (k + 1) * d ≤ nearest n d * d := Nat.mul_le_mul_right d (by omega)
  have : (k + 1) * d = k * d + d := Nat.succ_mul _ d
  omega

/-! ## Binades -/

theorem mul_two_pow_succ (d e : Nat) : d * 2 ^ (e + 1) = 2 * (d * 2 ^ e) := by
  rw [Nat.pow_succ]
  ring

/-- A significand that is rounded up to 54 bits is the least one of the next binade. -/
theorem carry (e : Nat) : 2 ^ 53 * 2 ^ e = 2 ^ 52 * 2 ^ (e + 1) := by
  rw [Nat.pow_succ 2 e]
  ring

/-- Significands around `n / d` are `2^e` units apart. -/
structure Binade (n d e : Nat) : Prop where
  below : n < 2 ^ 53 * (d * 2 ^ e)
  above : e = 0 ∨ 2 ^ 52 * (d * 2 ^ e) ≤ n

theorem binade_spacing {n d : Nat} (hd : 0 < d) : Binade n d (spacing (n / d)) := by
  have shift (a e : Nat) : 2 ^ a * (d * 2 ^ e) = 2 ^ (a + e) * d := by rw [Nat.pow_add]; ring
  unfold spacing
  constructor
  · have size : n / d < 2 ^ (53 + ((n / d).log2 - 52)) :=
      Nat.lt_of_lt_of_le Nat.lt_log2_self (Nat.pow_le_pow_right (by decide) (by omega))
    rw [shift]
    exact (Nat.div_lt_iff_lt_mul hd).mp size
  · by_cases h : (n / d).log2 - 52 = 0
    · exact .inl h
    · have positive : n / d ≠ 0 := by
        intro zero
        rw [zero] at h
        exact h (by decide)
      have size : 2 ^ (52 + ((n / d).log2 - 52)) ≤ n / d := by
        rw [show 52 + ((n / d).log2 - 52) = (n / d).log2 by omega]
        exact Nat.log2_self_le positive
      rw [shift]
      exact .inr ((Nat.le_div_iff_mul_le hd).mp size)

/-- A fraction lies in one binade only. -/
theorem Binade.unique {n d e e' : Nat} (h : Binade n d e) (h' : Binade n d e') :
    e = e' := by
  have le {a b : Nat} (ha : Binade n d a) (hb : Binade n d b) : a ≤ b := by
    by_contra more
    have wide : d * 2 ^ (b + 1) ≤ d * 2 ^ a :=
      Nat.mul_le_mul_left d (Nat.pow_le_pow_right (by decide) (by omega))
    have double := mul_two_pow_succ d b
    have high := ha.above.resolve_left (by omega)
    have low := hb.below
    omega
  exact Nat.le_antisymm (le h h') (le h' h)

theorem Binade.spacing_eq {n d e : Nat} (hd : 0 < d) (h : Binade n d e) :
    spacing (n / d) = e :=
  (binade_spacing hd).unique h

theorem Binade.roundUnits_eq {n d e : Nat} (hd : 0 < d) (h : Binade n d e) :
    roundUnits n d = nearest n (d * 2 ^ e) * 2 ^ e := by
  unfold roundUnits
  rw [h.spacing_eq hd]
  rfl

/-- A significand is rounded to 53 bits, or up to the next power of two. -/
theorem Binade.nearest_bounds {n d e : Nat} (hd : 0 < d) (h : Binade n d e) :
    nearest n (d * 2 ^ e) ≤ 2 ^ 53 ∧ (e = 0 ∨ 2 ^ 52 ≤ nearest n (d * 2 ^ e)) := by
  have unit : 0 < d * 2 ^ e := Nat.mul_pos hd (Nat.two_pow_pos e)
  exact ⟨nearest_le unit h.below.le, h.above.imp_right (le_nearest unit)⟩

/-! ## Representable counts -/

/-- A 53-bit significand can hold the count. -/
def Representable (u : Nat) : Prop := 2 ^ spacing u ∣ u

instance (u : Nat) : Decidable (Representable u) := inferInstanceAs (Decidable (_ ∣ _))

/-- The spacing around a significand of full length is its own unit. -/
theorem spacing_mul_two_pow {m e : Nat} (hm : m < 2 ^ 53) (he : e = 0 ∨ 2 ^ 52 ≤ m) :
    spacing (m * 2 ^ e) = e := by
  have unit : 0 < 2 ^ e := Nat.two_pow_pos e
  have here : Binade (m * 2 ^ e) 1 e := by
    rw [← Nat.one_mul (2 ^ e)] at unit
    refine ⟨?_, he.imp_right fun hm => ?_⟩
    · rw [Nat.one_mul]
      exact Nat.mul_lt_mul_of_pos_right hm (by omega)
    · rw [Nat.one_mul]
      exact Nat.mul_le_mul_right _ hm
  simpa using here.spacing_eq Nat.one_pos

/-- A significand of full length, by the number of units it is held in. -/
theorem Representable.exists_significand {u : Nat} (h : Representable u) :
    ∃ m e, u = m * 2 ^ e ∧ spacing u = e ∧ m < 2 ^ 53 ∧ (e = 0 ∨ 2 ^ 52 ≤ m) := by
  obtain ⟨m, hm⟩ := h
  have unit : 0 < 2 ^ spacing u := Nat.two_pow_pos _
  have binade : Binade u 1 (spacing u) := by simpa using binade_spacing (n := u) Nat.one_pos
  have eq : u = m * 2 ^ spacing u := by rw [Nat.mul_comm]; exact hm
  refine ⟨m, spacing u, eq, rfl, ?_, binade.above.imp_right fun above => ?_⟩
  · have below := binade.below
    rw [Nat.one_mul] at below
    exact Nat.lt_of_mul_lt_mul_right (eq ▸ below : m * 2 ^ spacing u < _)
  · rw [Nat.one_mul] at above
    exact Nat.le_of_mul_le_mul_right (eq ▸ above : _ ≤ m * 2 ^ spacing u) unit

theorem representable_mul_two_pow {m : Nat} (hm : m < 2 ^ 53) (a : Nat) :
    Representable (m * 2 ^ a) := by
  have small : spacing (m * 2 ^ a) ≤ a := by
    unfold spacing
    by_cases zero : m * 2 ^ a = 0
    · rw [zero]
      simp
    · have size : m * 2 ^ a < 2 ^ (53 + a) := by
        rw [Nat.pow_add]
        exact Nat.mul_lt_mul_of_pos_right hm (Nat.two_pow_pos a)
      have := (Nat.log2_lt zero).mpr size
      omega
  exact Nat.dvd_trans (Nat.pow_dvd_pow 2 small) (Nat.dvd_mul_left _ _)

/-- What rounding gives is representable. -/
theorem representable_roundUnits {n d : Nat} (hd : 0 < d) : Representable (roundUnits n d) := by
  have binade := binade_spacing (n := n) hd
  rw [binade.roundUnits_eq hd]
  rcases Nat.lt_or_eq_of_le (binade.nearest_bounds hd).1 with h | h
  · exact representable_mul_two_pow h _
  · rw [h, carry]
    exact representable_mul_two_pow (by decide) _

/-! ## What is rounded to a count -/

variable {n d u : Nat}

/-- How many quarters of its spacing the interval of a count reaches down: below a power of two it
reaches half as far. -/
def reach (u : Nat) : Nat := if spacing u ≠ 0 ∧ u = 2 ^ 52 * 2 ^ spacing u then 1 else 2

theorem interval_eq (u : Nat) :
    interval u = ⟨4 * u - reach u * 2 ^ spacing u, 4 * u + 2 * 2 ^ spacing u,
      u / 2 ^ spacing u % 2 = 0⟩ := by
  have power : u = Nat.pow 2 (52 + spacing u) ↔ u = 2 ^ 52 * 2 ^ spacing u := by
    rw [← Nat.pow_add]
    rfl
  unfold interval reach
  simp only [power, Bool.and_eq_true, decide_eq_true_eq]
  split_ifs <;> simp

theorem reach_mul_two_pow {m e : Nat} (hm : m < 2 ^ 53) (he : e = 0 ∨ 2 ^ 52 ≤ m) :
    reach (m * 2 ^ e) = if e ≠ 0 ∧ m = 2 ^ 52 then 1 else 2 := by
  simp only [reach, spacing_mul_two_pow hm he, Nat.mul_left_inj (Nat.two_pow_pos e).ne']

theorem reach_le (u : Nat) : reach u ≤ 2 := by
  unfold reach
  split <;> omega

/-- The interval of a significand, with the spacing around it as the unit. -/
theorem holds_interval_iff {m e : Nat} (hm : m < 2 ^ 53) (he : e = 0 ∨ 2 ^ 52 ≤ m) (hpos : 0 < m)
    (n d : Nat) :
    (interval (m * 2 ^ e)).holds n d = true ↔
      4 * (m * (d * 2 ^ e)) ≤ 4 * n + reach (m * 2 ^ e) * (d * 2 ^ e) ∧
      4 * n ≤ 4 * (m * (d * 2 ^ e)) + 2 * (d * 2 ^ e) ∧
      (4 * (m * (d * 2 ^ e)) = 4 * n + reach (m * 2 ^ e) * (d * 2 ^ e) ∨
        4 * n = 4 * (m * (d * 2 ^ e)) + 2 * (d * 2 ^ e) → m % 2 = 0) := by
  have significand : m * 2 ^ e / 2 ^ e = m := Nat.mul_div_cancel m (Nat.two_pow_pos e)
  have short := reach_le (m * 2 ^ e)
  rw [interval_eq, spacing_mul_two_pow hm he, significand]
  generalize reach (m * 2 ^ e) = r at short ⊢
  have low : (4 * (m * 2 ^ e) - r * 2 ^ e) * d = 4 * (m * (d * 2 ^ e)) - r * (d * 2 ^ e) := by
    rw [Nat.sub_mul]
    ring_nf
  have high : (4 * (m * 2 ^ e) + 2 * 2 ^ e) * d = 4 * (m * (d * 2 ^ e)) + 2 * (d * 2 ^ e) := by
    ring
  have inside : r * (d * 2 ^ e) ≤ 4 * (m * (d * 2 ^ e)) := by
    rw [← Nat.mul_assoc 4]
    exact Nat.mul_le_mul_right _ (by omega)
  simp only [Interval.holds, low, high]
  by_cases even : m % 2 = 0
  · simp [even]
  · simp [even]
    omega

theorem holds_of_roundUnits {m e : Nat} (hd : 0 < d) (hm : m < 2 ^ 53) (he : e = 0 ∨ 2 ^ 52 ≤ m)
    (hpos : 0 < m) (h : roundUnits n d = m * 2 ^ e) :
    (interval (m * 2 ^ e)).holds n d = true := by
  obtain ⟨a, binade⟩ : ∃ a, Binade n d a := ⟨_, binade_spacing hd⟩
  obtain ⟨most, least⟩ := binade.nearest_bounds hd
  have unit : 0 < d * 2 ^ a := Nat.mul_pos hd (Nat.two_pow_pos a)
  obtain ⟨below, above, tie⟩ := (nearest_eq_iff unit).mp (rfl : nearest n (d * 2 ^ a) = _)
  rw [binade.roundUnits_eq hd] at h
  generalize nearest n (d * 2 ^ a) = k at most least below above tie h
  rw [holds_interval_iff hm he hpos]
  rcases Nat.lt_or_eq_of_le most with less | rfl
  · -- the significand is the one that rounding gives
    have same : a = e := by rw [← spacing_mul_two_pow less least, h, spacing_mul_two_pow hm he]
    subst same
    have same : k = m := Nat.eq_of_mul_eq_mul_right (Nat.two_pow_pos a) h
    subst same
    rw [reach_mul_two_pow hm he]
    split
    · next edge =>
      have := binade.above.resolve_left edge.1
      rw [edge.2] at below above tie ⊢
      omega
    · omega
  · -- rounding has reached the next power of two
    rw [carry] at h
    have same : a + 1 = e := by
      rw [← spacing_mul_two_pow (m := 2 ^ 52) (e := a + 1) (by decide) (.inr (Nat.le_refl _)), h,
        spacing_mul_two_pow hm he]
    subst same
    have same : 2 ^ 52 = m := Nat.eq_of_mul_eq_mul_right (Nat.two_pow_pos _) h
    subst same
    have double := mul_two_pow_succ d a
    have := binade.below
    rw [reach_mul_two_pow hm he, if_pos ⟨by omega, rfl⟩, double]
    omega

theorem roundUnits_of_holds {m e : Nat} (hd : 0 < d) (hm : m < 2 ^ 53) (he : e = 0 ∨ 2 ^ 52 ≤ m)
    (hpos : 0 < m) (h : (interval (m * 2 ^ e)).holds n d = true) :
    roundUnits n d = m * 2 ^ e := by
  have unit (a : Nat) : 0 < d * 2 ^ a := Nat.mul_pos hd (Nat.two_pow_pos a)
  obtain ⟨low, high, tie⟩ := (holds_interval_iff hm he hpos n d).mp h
  rw [reach_mul_two_pow hm he] at low tie
  by_cases edge : e ≠ 0 ∧ m = 2 ^ 52
  · rw [if_pos edge] at low tie
    obtain ⟨a, rfl⟩ : ∃ a, e = a + 1 := ⟨e - 1, by omega⟩
    rw [edge.2] at low high tie ⊢
    have double := mul_two_pow_succ d a
    have half := unit a
    by_cases upper : 2 ^ 52 * (d * 2 ^ (a + 1)) ≤ n
    · have binade : Binade n d (a + 1) := ⟨by omega, .inr upper⟩
      have same : nearest n (d * 2 ^ (a + 1)) = 2 ^ 52 :=
        (nearest_eq_iff (unit _)).mpr ⟨by omega, by omega, by omega⟩
      rw [binade.roundUnits_eq hd, same]
    · -- the lower part of the interval is in the binade below
      have binade : Binade n d a := ⟨by omega, .inr (by omega)⟩
      have carried : nearest n (d * 2 ^ a) = 2 ^ 53 :=
        (nearest_eq_iff (unit _)).mpr ⟨by omega, by omega, by omega⟩
      rw [binade.roundUnits_eq hd, carried, carry]
  · rw [if_neg edge] at low tie
    have below : (m + 1) * (d * 2 ^ e) ≤ 2 ^ 53 * (d * 2 ^ e) := Nat.mul_le_mul_right _ hm
    have more : (m + 1) * (d * 2 ^ e) = m * (d * 2 ^ e) + d * 2 ^ e := Nat.succ_mul _ _
    have binade : Binade n d e := by
      refine ⟨by have := unit e; omega, ?_⟩
      by_cases zero : e = 0
      · exact .inl zero
      · have above : (2 ^ 52 + 1) * (d * 2 ^ e) ≤ m * (d * 2 ^ e) :=
          Nat.mul_le_mul_right _ (by omega)
        right
        omega
    have same : nearest n (d * 2 ^ e) = m :=
      (nearest_eq_iff (unit e)).mpr ⟨by omega, by omega, by omega⟩
    rw [binade.roundUnits_eq hd, same]

/-- **A fraction is rounded to a representable count exactly if it lies in its interval.** -/
theorem roundUnits_eq_iff (hd : 0 < d) (hu : Representable u) (hpos : 0 < u) :
    roundUnits n d = u ↔ (interval u).holds n d = true := by
  obtain ⟨m, e, rfl, -, short, full⟩ := hu.exists_significand
  have some : 0 < m := Nat.pos_of_mul_pos_right hpos
  exact ⟨holds_of_roundUnits hd short full some, roundUnits_of_holds hd short full some⟩

/-! ## Order -/

/-- A representable count is a multiple of every spacing, or below the binade that has it. -/
theorem Representable.dvd_or_lt (hu : Representable u) (e : Nat) :
    2 ^ e ∣ u ∨ (e ≠ 0 ∧ u < 2 ^ 52 * 2 ^ e) := by
  obtain ⟨m, a, rfl, -, short, -⟩ := hu.exists_significand
  rcases Nat.le_total e a with h | h
  · exact .inl (Nat.dvd_trans (Nat.pow_dvd_pow 2 h) (Nat.dvd_mul_left _ _))
  · rcases Nat.eq_or_lt_of_le h with rfl | h
    · exact .inl (Nat.dvd_mul_left _ _)
    · refine .inr ⟨by omega, ?_⟩
      calc m * 2 ^ a < 2 ^ 53 * 2 ^ a := Nat.mul_lt_mul_of_pos_right short (Nat.two_pow_pos a)
        _ = 2 ^ 52 * 2 ^ (a + 1) := carry a
        _ ≤ 2 ^ 52 * 2 ^ e := Nat.mul_le_mul_left _ (Nat.pow_le_pow_right (by decide) h)

/-- What is at least a representable count is rounded to that count at least. -/
theorem le_roundUnits (hd : 0 < d) (hu : Representable u) (h : u * d ≤ n) :
    u ≤ roundUnits n d := by
  obtain ⟨e, binade⟩ : ∃ e, Binade n d e := ⟨_, binade_spacing hd⟩
  have unit : 0 < d * 2 ^ e := Nat.mul_pos hd (Nat.two_pow_pos e)
  rw [binade.roundUnits_eq hd]
  rcases hu.dvd_or_lt e with ⟨k, rfl⟩ | ⟨he, less⟩
  · rw [Nat.mul_comm _ k]
    exact Nat.mul_le_mul_right _ (le_nearest unit (by linarith))
  · exact less.le.trans (Nat.mul_le_mul_right _ ((binade.nearest_bounds hd).2.resolve_left he))

/-- What is at most a representable count is rounded to that count at most. -/
theorem roundUnits_le (hd : 0 < d) (hu : Representable u) (h : n ≤ u * d) :
    roundUnits n d ≤ u := by
  obtain ⟨e, binade⟩ : ∃ e, Binade n d e := ⟨_, binade_spacing hd⟩
  have unit : 0 < d * 2 ^ e := Nat.mul_pos hd (Nat.two_pow_pos e)
  rw [binade.roundUnits_eq hd]
  rcases hu.dvd_or_lt e with ⟨k, rfl⟩ | ⟨he, less⟩
  · rw [Nat.mul_comm _ k]
    exact Nat.mul_le_mul_right _ (nearest_le unit (by linarith))
  · -- the count would be below the binade of what is rounded
    have above := binade.above.resolve_left he
    have : u * d < 2 ^ 52 * 2 ^ e * d := Nat.mul_lt_mul_of_pos_right less hd
    linarith

/-- A representable count is rounded to itself. -/
theorem roundUnits_self (hu : Representable u) : roundUnits u 1 = u :=
  Nat.le_antisymm (roundUnits_le Nat.one_pos hu (by simp)) (le_roundUnits Nat.one_pos hu (by simp))

end SkillMarket.Binary64
