/-
  BasisHawk.Planning.CommonIncrement
  ──────────────────────────────────
  `_decimal_lcm` on the digits of both increments (`sizing.py`): it moves the
  point of both behind the last digit of either, and divides the product of the
  two integers by their greatest common divisor.

  Main results:
    • `scaledLcm_eq` — on the digits it is `decimalLcm` of the two numbers,
    • `scaledLcm_least` — it is the least common multiple of the two.
-/
import BasisHawk.Accounts.Decimal
import BasisHawk.Planning.MinimumNotional

namespace BasisHawk.Planning

open Domain Lib
open Accounts (Decimal)

/-! ## §1. The digits. -/

/-- `max(-left.as_tuple().exponent, -right.as_tuple().exponent, 0)`. -/
def commonScale (left right : Decimal) : Int := max (max (-left.exponent) (-right.exponent)) 0

/-- `d * factor` of a whole factor, without rounding. -/
def scaledBy (factor : Nat) (d : Decimal) : Decimal :=
  { d with coefficient := d.coefficient * factor }

/-- `_decimal_lcm`, digit for digit and without rounding. -/
def scaledLcm (left right : Decimal) : Except Exc ℚ := do
  raiseIf (left.value ≤ 0 ∨ right.value ≤ 0) (.value "quantity increments must be positive")
  let factor := 10 ^ (commonScale left right).toNat
  let leftUnits := (scaledBy factor left).toInt
  let rightUnits := (scaledBy factor right).toInt
  let units := |leftUnits * rightUnits| / (Int.gcd leftUnits rightUnits : Int)
  return (units : ℚ) / factor

/-! ## §2. The units. -/

/-- The integer that a number is with the point moved `scale` places. -/
def unitsAt (scale : Int) (d : Decimal) : Nat := d.coefficient * 10 ^ (d.exponent + scale).toNat

section Units

variable {left right d : Decimal} {scale : Int}

/-- Scaling a decimal by a power of ten multiplies its value. -/
theorem scaledBy_value (factor : Nat) : (scaledBy factor d).value = d.value * factor := by
  unfold Decimal.value Decimal.magnitude scaledBy
  dsimp only
  split
  · push_cast
    ring
  · push_cast
    ring

/-- Moved far enough, the point is behind every digit. -/
theorem value_mul_scale (hd : 0 < d.value) (hscale : 0 ≤ scale) (h : 0 ≤ d.exponent + scale) :
    d.value * (10 ^ scale.toNat : ℕ) = unitsAt scale d := by
  have hpos := (d.value_pos_iff).mp hd
  have hexp : (10 : ℚ) ^ d.exponent * 10 ^ scale.toNat = 10 ^ (d.exponent + scale).toNat := by
    rw [← zpow_natCast, ← zpow_natCast, ← zpow_add₀ (by norm_num), Int.toNat_of_nonneg hscale,
      Int.toNat_of_nonneg h]
  unfold Decimal.value unitsAt
  rw [hpos.1, if_neg (by decide)]
  unfold Decimal.magnitude
  push_cast
  rw [mul_assoc, hexp]

/-- A positive decimal has a positive number of units. -/
theorem unitsAt_pos (hd : 0 < d.value) : 0 < unitsAt scale d := by
  have hpos := (d.value_pos_iff).mp hd
  have hcoefficient : 0 < d.coefficient := by
    by_contra hzero
    have hmagnitude : d.magnitude = 0 := by
      unfold Decimal.magnitude
      rw [show d.coefficient = 0 by omega]
      simp
    exact absurd hpos.2 (by rw [hmagnitude]; exact lt_irrefl 0)
  unfold unitsAt
  positivity

/-- With enough decimals taken off, a decimal is the integer number of its
units. -/
theorem toInt_scaledBy (hd : 0 < d.value) (hscale : 0 ≤ scale) (h : 0 ≤ d.exponent + scale) :
    (scaledBy (10 ^ scale.toNat) d).toInt = unitsAt scale d := by
  have hvalue : (scaledBy (10 ^ scale.toNat) d).value = unitsAt scale d := by
    rw [scaledBy_value, value_mul_scale hd hscale h]
  unfold Decimal.toInt
  rw [hvalue, if_pos (by positivity)]
  exact Int.floor_natCast _

/-- The common scale of two decimals does not divide. -/
theorem commonScale_nonneg : 0 ≤ commonScale left right := le_max_right _ _

theorem left_scaled : 0 ≤ left.exponent + commonScale left right := by
  have : -left.exponent ≤ commonScale left right := le_max_of_le_left (le_max_left _ _)
  omega

theorem right_scaled : 0 ≤ right.exponent + commonScale left right := by
  have : -right.exponent ≤ commonScale left right := le_max_of_le_left (le_max_right _ _)
  omega

/-! ## §3. The least common multiple. -/

/-- On the digits `_decimal_lcm` is `decimalLcm` of the two numbers. -/
theorem scaledLcm_eq : scaledLcm left right = decimalLcm left.value right.value := by
  by_cases hpos : left.value ≤ 0 ∨ right.value ≤ 0
  · unfold scaledLcm decimalLcm
    rw [raiseIf_pos hpos]
    rfl
  · have hl : 0 < left.value := by
      by_contra h
      exact hpos (.inl (not_lt.mp h))
    have hr : 0 < right.value := by
      by_contra h
      exact hpos (.inr (not_lt.mp h))
    let scale := commonScale left right
    have hfactor : (0 : ℚ) < (10 ^ scale.toNat : ℕ) := by positivity
    -- Both numbers are whole units of the common scale.
    have hleft : left.value = unitsAt scale left / (10 ^ scale.toNat : ℕ) := by
      rw [eq_div_iff hfactor.ne', value_mul_scale hl commonScale_nonneg left_scaled]
    have hright : right.value = unitsAt scale right / (10 ^ scale.toNat : ℕ) := by
      rw [eq_div_iff hfactor.ne', value_mul_scale hr commonScale_nonneg right_scaled]
    -- So their least common multiple is that of the units, on the same scale.
    rw [hleft, hright, decimalLcm_scaled (unitsAt_pos hl) (unitsAt_pos hr) (by positivity)]
    unfold scaledLcm
    rw [raiseIf_neg hpos]
    dsimp only [bind, Except.bind]
    rw [toInt_scaledBy hl commonScale_nonneg left_scaled,
      toInt_scaledBy hr commonScale_nonneg right_scaled]
    -- The source computes it as a quotient by the greatest common divisor.
    have hunits : |(unitsAt scale left : ℤ) * unitsAt scale right|
        / (Int.gcd (unitsAt scale left) (unitsAt scale right) : ℤ)
        = (Nat.lcm (unitsAt scale left) (unitsAt scale right) : ℕ) := by
      rw [abs_of_nonneg (by positivity), Int.gcd_natCast_natCast]
      unfold Nat.lcm
      push_cast
      rfl
    rw [hunits]
    push_cast
    rfl

/-- `_decimal_lcm` of two positive decimals is their least common multiple. -/
theorem scaledLcm_least (hl : 0 < left.value) (hr : 0 < right.value) :
    ∃ m, scaledLcm left right = .ok m ∧ 0 < m ∧ OnGrid left.value m ∧ OnGrid right.value m
      ∧ ∀ v, OnGrid left.value v → OnGrid right.value v → OnGrid m v := by
  have hm := decimalLcm_eq hl hr
  refine ⟨_, scaledLcm_eq.trans hm, decimalLcm_pos hm, (decimalLcm_onGrid hl hr hm).1,
    (decimalLcm_onGrid hl hr hm).2, fun v hleft hright => ?_⟩
  exact decimalLcm_least hl hr hm hleft hright

end Units

/-- `_decimal_lcm(Decimal("1E+2"), Decimal("0.150"))`. -/
theorem scaledLcm_least_mixed :
    ∃ m, scaledLcm ⟨false, 1, 2⟩ ⟨false, 150, -3⟩ = .ok m ∧ 0 < m
      ∧ OnGrid (Decimal.value ⟨false, 1, 2⟩) m ∧ OnGrid (Decimal.value ⟨false, 150, -3⟩) m
      ∧ ∀ v, OnGrid (Decimal.value ⟨false, 1, 2⟩) v → OnGrid (Decimal.value ⟨false, 150, -3⟩) v →
        OnGrid m v :=
  scaledLcm_least (by decide +kernel) (by decide +kernel)

end BasisHawk.Planning
