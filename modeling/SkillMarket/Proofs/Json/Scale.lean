import SkillMarket.Json.Reader
import SkillMarket.Proofs.Binary64.Format

/-!
# Scaling by powers of ten

A significand is scaled by one power of ten, or by several if that one is out of range. The result
is a finite number. Only a positive exponent can leave no result.
-/

namespace SkillMarket.Json

variable {steps k : Nat} {x y : Binary64} {e : Int}

theorem ten_pow_le (hk : k ≤ maxPower) : Nat.pow 10 k ≤ 10 ^ 308 := by
  have least : 10 ^ k ≤ 10 ^ maxPower := Nat.pow_le_pow_right (by decide) hk
  rw [maxPower] at least
  exact least

theorem isFinite_power (hk : k ≤ maxPower) : (power k).IsFinite :=
  Binary64.isFinite_ofNat (ten_pow_le hk)

theorem isFinite_div_power (hx : x.IsFinite) (hk : k ≤ maxPower) : (x / power k).IsFinite :=
  hx.div_ofNat (Nat.pow_pos (by decide)) (ten_pow_le hk)

/-- Each step keeps the number finite. -/
theorem isFinite_scale (hx : x.IsFinite) (h : scale steps x e = some y) : y.IsFinite := by
  fun_induction scale steps x e with
  | case1 => simp at h
  | case2 steps x e small up product =>
      rcases hx.mul_cases (isFinite_power (k := e.toNat) (by omega)) with ⟨negative, out⟩ | finite
      · exact absurd out (product negative)
      · exact Option.some.inj h ▸ finite
  | case3 steps x e small down => exact Option.some.inj h ▸ isFinite_div_power hx small
  | case4 => exact Option.some.inj h ▸ hx
  | case5 => simp at h
  | case6 => exact Option.some.inj h ▸ .mk Binary64.inFormat_zero
  | case7 x e _ _ _ steps ih =>
      -- one step down, and the rest of the exponent is left
      exact ih (isFinite_div_power hx (Nat.le_refl _)) h

/-- Nothing leaves the range downwards. -/
theorem exists_scale_of_neg (steps : Nat) (x : Binary64) (he : e < 0) :
    ∃ y, scale steps x e = some y := by
  fun_induction scale steps x e with
  | case1 => omega
  | case2 => omega
  | case3 => exact ⟨_, rfl⟩
  | case4 => exact ⟨_, rfl⟩
  | case5 => omega
  | case6 => exact ⟨_, rfl⟩
  | case7 x e large _ _ steps ih => exact ih (by unfold maxPower at *; omega)

theorem maxSignificand_le : maxSignificand ≤ 10 ^ 308 := by decide +kernel

theorem isFinite_significand (h : k ≤ maxSignificand) : (Binary64.ofNat k).IsFinite :=
  Binary64.isFinite_ofNat (h.trans maxSignificand_le)

/-- A number that is read with a significand and an exponent is finite. -/
theorem isFinite_scaled {negative : Bool} {significand : Nat} (h : significand ≤ maxSignificand)
    (hy : scaled negative significand e = some y) : y.IsFinite := by
  obtain ⟨x, hx, rfl⟩ := Option.map_eq_some_iff.mp hy
  have finite : x.IsFinite := isFinite_scale (isFinite_significand h) hx
  cases negative with
  | true => exact finite.neg
  | false => exact finite

end SkillMarket.Json
