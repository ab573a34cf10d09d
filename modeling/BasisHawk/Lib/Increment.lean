/-
  BasisHawk.Lib.Increment
  ───────────────────────
  Rounding a quantity to a whole number of steps: toward zero, down and up.

  Main results:
    • `truncTo_le` — rounding never enlarges a non-negative quantity,
    • `truncTo_le_of_pos` — a positive result is at most what it came from,
    • `OnGrid.le_floorTo`, `OnGrid.ceilTo_le` — rounding down and up are the
      nearest multiples on either side.
-/
import Mathlib.Algebra.Order.Floor.Ring
import Mathlib.Algebra.Order.Field.Basic

namespace BasisHawk.Lib

section

variable {α : Type} [Field α] [LinearOrder α] [IsStrictOrderedRing α] [FloorRing α]

/-! ## §1. Toward zero. -/

/-- `v` rounded toward zero to a multiple of `step`. -/
def truncTo (step v : α) : α :=
  ((if 0 ≤ v / step then ⌊v / step⌋ else ⌈v / step⌉ : ℤ) : α) * step

/-- Of a value that is not negative, truncation is the floor. -/
private theorem truncTo_of_nonneg {step v : α} (hs : 0 < step) (hv : 0 ≤ v) :
    truncTo step v = (⌊v / step⌋ : α) * step := by
  unfold truncTo
  rw [if_pos (div_nonneg hv hs.le)]

/-- What is rounded toward zero, if it is not negative, has not grown: an order
for the result never asks for more than the quantity it came from. -/
theorem truncTo_le {step v : α} (hs : 0 < step) (hv : 0 ≤ v) : truncTo step v ≤ v := by
  rw [truncTo_of_nonneg hs hv]
  calc (⌊v / step⌋ : α) * step
      ≤ v / step * step := mul_le_mul_of_nonneg_right (Int.floor_le _) hs.le
    _ = v := div_mul_cancel₀ v hs.ne'

/-- Rounding toward zero never turns a quantity positive. -/
theorem truncTo_nonpos {step v : α} (hs : 0 < step) (hv : v ≤ 0) : truncTo step v ≤ 0 := by
  unfold truncTo
  have hq : v / step ≤ 0 := div_nonpos_of_nonpos_of_nonneg hv hs.le
  have hn : (if 0 ≤ v / step then ⌊v / step⌋ else ⌈v / step⌉ : ℤ) ≤ 0 := by
    split
    · next h =>
        rw [le_antisymm hq h, Int.floor_zero]
    · exact Int.ceil_le.mpr (by simpa using hq)
  exact mul_nonpos_of_nonpos_of_nonneg (Int.cast_nonpos.mpr hn) hs.le

/-- A positive result is at most the quantity it came from. -/
theorem truncTo_le_of_pos {step v : α} (hs : 0 < step) (h : 0 < truncTo step v) :
    truncTo step v ≤ v := by
  by_cases hv : 0 ≤ v
  · exact truncTo_le hs hv
  · exact absurd h (truncTo_nonpos hs (le_of_not_ge hv)).not_gt

/-! ## §2. Down and up. -/

/-- `v` is a whole number of steps. -/
def OnGrid (step v : α) : Prop := ∃ n : ℤ, v = n * step

/-- `v` rounded down to a multiple of `step`. -/
def floorTo (step v : α) : α := (⌊v / step⌋ : α) * step

/-- `v` rounded up to a multiple of `step`. -/
def ceilTo (step v : α) : α := (⌈v / step⌉ : α) * step

variable {step v w : α}

omit [IsStrictOrderedRing α] in
theorem floorTo_onGrid : OnGrid step (floorTo step v) := ⟨_, rfl⟩

omit [IsStrictOrderedRing α] in
theorem ceilTo_onGrid : OnGrid step (ceilTo step v) := ⟨_, rfl⟩

omit [LinearOrder α] [IsStrictOrderedRing α] [FloorRing α] in
/-- A multiple of a multiple is one of the smaller step: what is on a common grid is
on each of the grids it is common to. -/
theorem OnGrid.trans {u : α} (h : OnGrid u step) (hv : OnGrid step v) : OnGrid u v := by
  obtain ⟨n, rfl⟩ := h
  obtain ⟨m, rfl⟩ := hv
  refine ⟨m * n, ?_⟩
  rw [Int.cast_mul, mul_assoc]

/-- Rounding down to a grid does not exceed the value. -/
theorem floorTo_le (hs : 0 < step) : floorTo step v ≤ v := by
  unfold floorTo
  rw [← le_div_iff₀ hs]
  exact Int.floor_le _

/-- Rounding up to a grid does not fall below it. -/
theorem le_ceilTo (hs : 0 < step) : v ≤ ceilTo step v := by
  unfold ceilTo
  rw [← div_le_iff₀ hs]
  exact Int.le_ceil _

/-- Rounding down loses less than one step. -/
theorem sub_floorTo_lt (hs : 0 < step) : v - floorTo step v < step := by
  have h : v / step < ⌊v / step⌋ + 1 := Int.lt_floor_add_one _
  rw [div_lt_iff₀ hs, add_mul, one_mul] at h
  unfold floorTo
  exact sub_lt_iff_lt_add'.mpr h

/-- No multiple lies between a value and the value rounded down. -/
theorem OnGrid.le_floorTo (hs : 0 < step) (hw : OnGrid step w) (h : w ≤ v) : w ≤ floorTo step v := by
  obtain ⟨n, rfl⟩ := hw
  unfold floorTo
  have hn : n ≤ ⌊v / step⌋ := by
    rw [Int.le_floor, le_div_iff₀ hs]
    exact h
  exact mul_le_mul_of_nonneg_right (Int.cast_le.mpr hn) hs.le

/-- Nor between a value and the value rounded up. -/
theorem OnGrid.ceilTo_le (hs : 0 < step) (hw : OnGrid step w) (h : v ≤ w) : ceilTo step v ≤ w := by
  obtain ⟨n, rfl⟩ := hw
  unfold ceilTo
  have hn : ⌈v / step⌉ ≤ n := by
    rw [Int.ceil_le, div_le_iff₀ hs]
    exact h
  exact mul_le_mul_of_nonneg_right (Int.cast_le.mpr hn) hs.le

/-- A multiple of the step is not rounded at all. -/
theorem OnGrid.floorTo_eq (hs : 0 < step) (hv : OnGrid step v) : floorTo step v = v :=
  le_antisymm (Lib.floorTo_le hs) (hv.le_floorTo hs le_rfl)

end

end BasisHawk.Lib
