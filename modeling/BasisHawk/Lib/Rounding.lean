/-
  BasisHawk.Lib.Rounding
  ──────────────────────
  Decimal rounding of rationals: to a number of fractional digits, as a fixed
  point column stores a value, and to a number of significant digits, as a
  decimal context computes one.

  Main results:
    • `toScale_eq_self_iff` — a value survives the column exactly if it has no
      more fractional digits than the column,
    • `toScale_nonneg` — the column keeps signs,
    • `toPrecision_eq_self_iff` — a value survives the context exactly if it
      has no more significant digits than the context,
    • `toPrecision_toPrecision` — rounding twice changes nothing,
    • `exists_toPrecision_eq_mul` — the context computes with a bounded relative
      error,
    • `exists_sumToPrecision_replicate` — and so does a running sum of it.
-/
import Mathlib.Algebra.Order.Field.Power
import Mathlib.Data.Int.Log
import Mathlib.Data.Rat.Floor
import Mathlib.Tactic.FieldSimp
import Mathlib.Tactic.Linarith
import Mathlib.Tactic.Positivity
import Mathlib.Tactic.Ring

namespace BasisHawk.Lib

/-! ## §1. Values. -/

/-- The nearest integer, ties away from zero. -/
def roundAway (v : ℚ) : ℤ := if 0 ≤ v then ⌊v + 1 / 2⌋ else ⌈v - 1 / 2⌉

/-- The nearest integer, ties to even. -/
def roundEven (v : ℚ) : ℤ :=
  if v - ⌊v⌋ < 1 / 2 then ⌊v⌋
  else if 1 / 2 < v - ⌊v⌋ then ⌊v⌋ + 1
  else ⌊v⌋ + ⌊v⌋ % 2

/-- `v` with `digits` fractional digits. -/
def toScale (digits : ℕ) (v : ℚ) : ℚ := roundAway (v * 10 ^ digits) / 10 ^ digits

/-- `v` with `digits` significant digits. -/
def toPrecision (digits : ℕ) (v : ℚ) : ℚ :=
  if v = 0 then 0
  else
    let places : ℤ := digits - 1 - Int.log 10 |v|
    roundEven (v * 10 ^ places) / 10 ^ places

@[simp] theorem roundAway_intCast (n : ℤ) : roundAway n = n := by
  unfold roundAway
  split
  · rw [Int.floor_intCast_add, show ⌊(1 : ℚ) / 2⌋ = 0 by rw [Int.floor_eq_zero_iff]; norm_num, add_zero]
  · rw [sub_eq_add_neg, Int.ceil_intCast_add,
      show ⌈-((1 : ℚ) / 2)⌉ = 0 by rw [Int.ceil_eq_zero_iff]; norm_num, add_zero]

theorem roundAway_nonneg {v : ℚ} (h : 0 ≤ v) : 0 ≤ roundAway v := by
  unfold roundAway
  rw [if_pos h]
  exact Int.floor_nonneg.mpr (by linarith)

theorem toScale_nonneg (digits : ℕ) {v : ℚ} (h : 0 ≤ v) : 0 ≤ toScale digits v := by
  have hround : 0 ≤ roundAway (v * 10 ^ digits) := roundAway_nonneg (by positivity)
  unfold toScale
  exact div_nonneg (Int.cast_nonneg hround) (by positivity)

/-- A column stores a value unchanged exactly if the value has no more
fractional digits than the column. -/
theorem toScale_eq_self_iff (digits : ℕ) (v : ℚ) :
    toScale digits v = v ↔ ∃ n : ℤ, v = n / 10 ^ digits := by
  unfold toScale
  constructor
  · exact fun h => ⟨_, h.symm⟩
  · rintro ⟨n, rfl⟩
    rw [div_mul_cancel₀ _ (by positivity), roundAway_intCast]

/-- Rounding to the nearest integer picks one of the two neighbours. -/
theorem roundEven_bounds (v : ℚ) : ⌊v⌋ ≤ roundEven v ∧ roundEven v ≤ ⌊v⌋ + 1 := by
  unfold roundEven
  split
  · omega
  · split <;> omega

@[simp] theorem roundEven_intCast (n : ℤ) : roundEven n = n := by
  unfold roundEven
  rw [Int.floor_intCast, sub_self, if_pos (by norm_num)]

/-- Rounding does not lead beyond an integer bound. -/
theorem roundEven_abs_le {v : ℚ} {n : ℕ} (h : |v| < n) : |roundEven v| ≤ n := by
  obtain ⟨hlow, hhigh⟩ := roundEven_bounds v
  obtain ⟨hneg, hpos⟩ := abs_lt.mp h
  have hfloor : -(n : ℤ) ≤ ⌊v⌋ := Int.le_floor.mpr (by push_cast; exact hneg.le)
  have hbelow : ⌊v⌋ < (n : ℤ) := Int.floor_lt.mpr (by push_cast; exact hpos)
  exact abs_le.mpr ⟨by omega, by omega⟩

/-- What rounding to a precision leaves has that precision, or is the power of
ten one above. -/
theorem exists_toPrecision (digits : ℕ) (v : ℚ) :
    ∃ n e : ℤ, |n| ≤ 10 ^ digits ∧ toPrecision digits v = n * 10 ^ e := by
  unfold toPrecision
  split
  · exact ⟨0, 0, by simp, by simp⟩
  · next hv =>
      let places : ℤ := digits - 1 - Int.log 10 |v|
      have hlt : |v| < (10 : ℚ) ^ (Int.log 10 |v| + 1) :=
        mod_cast Int.lt_zpow_succ_log_self (b := 10) (by norm_num) |v|
      have hscaled : |v * 10 ^ places| < ((10 ^ digits : ℕ) : ℚ) := by
        rw [abs_mul, abs_of_pos (by positivity : (0 : ℚ) < 10 ^ places)]
        calc |v| * 10 ^ places < 10 ^ (Int.log 10 |v| + 1) * 10 ^ places :=
              mul_lt_mul_of_pos_right hlt (by positivity)
          _ = 10 ^ ((digits : ℤ)) := by
              rw [← zpow_add₀ (by norm_num)]
              congr 1
              show Int.log 10 |v| + 1 + (digits - 1 - Int.log 10 |v|) = digits
              ring
          _ = _ := by push_cast; rw [zpow_natCast]
      refine ⟨roundEven (v * 10 ^ places), -places, ?_, ?_⟩
      · exact_mod_cast roundEven_abs_le hscaled
      · rw [zpow_neg, ← div_eq_mul_inv]

/-- A number with that many digits is kept: nothing is rounded where the
coefficient fits. -/
theorem toPrecision_eq_self {digits : ℕ} {v : ℚ} {n e : ℤ} (hn : |n| < 10 ^ digits)
    (hv : v = n * 10 ^ e) : toPrecision digits v = v := by
  unfold toPrecision
  split
  · next h0 => exact h0.symm
  · next h0 =>
      have hpos : 0 < |v| := abs_pos.mpr h0
      have hlt : |v| < (10 : ℚ) ^ ((digits : ℤ) + e) := by
        rw [hv, abs_mul, abs_of_pos (by positivity : (0 : ℚ) < 10 ^ e),
          zpow_add₀ (by norm_num : (10 : ℚ) ≠ 0), zpow_natCast]
        have hcast : |(n : ℚ)| < 10 ^ digits := mod_cast hn
        exact mul_lt_mul_of_pos_right hcast (by positivity)
      have hlog : Int.log 10 |v| < digits + e :=
        (Int.lt_zpow_iff_log_lt (b := 10) (by norm_num) hpos).mp (mod_cast hlt)
      -- The value has no digits behind the place that is rounded to.
      obtain ⟨k, hk⟩ := Int.eq_ofNat_of_zero_le
        (show 0 ≤ e + ((digits : ℤ) - 1 - Int.log 10 |v|) by omega)
      have hscaled : v * 10 ^ ((digits : ℤ) - 1 - Int.log 10 |v|) = ((n * 10 ^ k : ℤ) : ℚ) := by
        conv_lhs => rw [hv]
        rw [mul_assoc, ← zpow_add₀ (by norm_num : (10 : ℚ) ≠ 0), ← hv, hk, zpow_natCast]
        push_cast
        rfl
      dsimp only
      rw [hscaled, roundEven_intCast, ← hscaled, mul_div_cancel_right₀ _ (by positivity)]

/-- A context keeps a value exactly if the value has no more significant digits
than the context. -/
theorem toPrecision_eq_self_iff {digits : ℕ} (hd : 0 < digits) (v : ℚ) :
    toPrecision digits v = v ↔ ∃ n e : ℤ, |n| < 10 ^ digits ∧ v = n * 10 ^ e := by
  constructor
  · intro h
    obtain ⟨n, e, hn, hv⟩ := exists_toPrecision digits v
    rw [h] at hv
    rcases lt_or_eq_of_le hn with hlt | heq
    · exact ⟨n, e, hlt, hv⟩
    · -- The power of ten has one digit.
      have hone : (1 : ℤ) < 10 ^ digits := one_lt_pow₀ (by norm_num) (by omega)
      rcases abs_choice n with hs | hs
      · refine ⟨1, digits + e, by simpa using hone, ?_⟩
        rw [hv, ← hs, heq, zpow_add₀ (by norm_num : (10 : ℚ) ≠ 0), zpow_natCast]
        push_cast
        ring
      · refine ⟨-1, digits + e, by simpa using hone, ?_⟩
        rw [hv, show n = -10 ^ digits by omega, zpow_add₀ (by norm_num : (10 : ℚ) ≠ 0),
          zpow_natCast]
        push_cast
        ring
  · rintro ⟨n, e, hn, hv⟩
    exact toPrecision_eq_self hn hv

/-- Rounding once more to the same precision changes nothing. -/
theorem toPrecision_toPrecision {digits : ℕ} (hd : 0 < digits) (v : ℚ) :
    toPrecision digits (toPrecision digits v) = toPrecision digits v := by
  obtain ⟨n, e, hn, hv⟩ := exists_toPrecision digits v
  rw [toPrecision_eq_self_iff hd]
  rcases lt_or_eq_of_le hn with hlt | heq
  · exact ⟨n, e, hlt, hv⟩
  · have hone : (1 : ℤ) < 10 ^ digits := one_lt_pow₀ (by norm_num) (by omega)
    refine ⟨n / 10 ^ digits, digits + e, ?_, ?_⟩
    · rcases abs_choice n with hs | hs
      · rw [← hs, heq, Int.ediv_self (by positivity)]
        simpa using hone
      · rw [show n = -10 ^ digits by omega, Int.neg_ediv_of_dvd (dvd_refl _),
          Int.ediv_self (by positivity)]
        simpa using hone
    · have hdvd : (10 : ℤ) ^ digits ∣ n := by
        rw [← heq]
        exact (abs_dvd n n).mpr (dvd_refl n)
      obtain ⟨m, hm⟩ := hdvd
      rw [hv, hm, Int.mul_ediv_cancel_left _ (by positivity),
        zpow_add₀ (by norm_num : (10 : ℚ) ≠ 0), zpow_natCast]
      push_cast
      ring

/-- A positive number stays positive: significant digits never round to zero. -/
theorem toPrecision_pos {digits : ℕ} (hd : 0 < digits) {v : ℚ} (h : 0 < v) :
    0 < toPrecision digits v := by
  unfold toPrecision
  rw [if_neg h.ne']
  dsimp only
  refine div_pos ?_ (by positivity)
  have hle : (10 : ℚ) ^ Int.log 10 |v| ≤ |v| :=
    mod_cast Int.zpow_log_le_self (b := 10) (by norm_num) (abs_pos.mpr h.ne')
  -- Scaled, the value is at least one.
  have hscaled : (1 : ℚ) ≤ v * 10 ^ ((digits : ℤ) - 1 - Int.log 10 |v|) := by
    calc (1 : ℚ) ≤ 10 ^ ((digits : ℤ) - 1) := one_le_zpow₀ (by norm_num) (by omega)
      _ = 10 ^ Int.log 10 |v| * 10 ^ ((digits : ℤ) - 1 - Int.log 10 |v|) := by
          rw [← zpow_add₀ (by norm_num)]
          congr 1
          ring
      _ ≤ |v| * 10 ^ ((digits : ℤ) - 1 - Int.log 10 |v|) :=
          mul_le_mul_of_nonneg_right hle (by positivity)
      _ = _ := by rw [abs_of_pos h]
  have hfloor : 1 ≤ ⌊v * 10 ^ ((digits : ℤ) - 1 - Int.log 10 |v|)⌋ :=
    Int.le_floor.mpr (by exact_mod_cast hscaled)
  have hbounds := roundEven_bounds (v * 10 ^ ((digits : ℤ) - 1 - Int.log 10 |v|))
  exact_mod_cast (by omega : 0 < roundEven (v * 10 ^ ((digits : ℤ) - 1 - Int.log 10 |v|)))

/-- Rounding to the nearest integer is off by half a unit at most. -/
theorem abs_roundEven_sub_le (v : ℚ) : |(roundEven v : ℚ) - v| ≤ 1 / 2 := by
  have hlow : (⌊v⌋ : ℚ) ≤ v := Int.floor_le v
  have hhigh : v < ⌊v⌋ + 1 := Int.lt_floor_add_one v
  unfold roundEven
  split
  · next h => exact abs_le.mpr ⟨by linarith, by linarith⟩
  · next h =>
      split
      · next h' =>
          push_cast
          exact abs_le.mpr ⟨by linarith, by linarith⟩
      · next h' =>
          -- A tie: both neighbours are half a unit away.
          have hparity : ((⌊v⌋ % 2 : ℤ) : ℚ) = 0 ∨ ((⌊v⌋ % 2 : ℤ) : ℚ) = 1 := by
            rcases Int.emod_two_eq_zero_or_one ⌊v⌋ with h0 | h1
            · exact .inl (by rw [h0]; rfl)
            · exact .inr (by rw [h1]; rfl)
          push_cast
          rcases hparity with hp | hp
          · rw [hp]
            exact abs_le.mpr ⟨by linarith, by linarith⟩
          · rw [hp]
            exact abs_le.mpr ⟨by linarith, by linarith⟩

/-- The standard model of decimal arithmetic: what a context returns is the exact
result up to a relative error of half a unit of its last digit. -/
theorem exists_toPrecision_eq_mul (digits : ℕ) (v : ℚ) :
    ∃ δ : ℚ, |δ| ≤ 5 / 10 ^ digits ∧ toPrecision digits v = v * (1 + δ) := by
  by_cases hv : v = 0
  · refine ⟨0, ?_, ?_⟩
    · rw [abs_zero]
      positivity
    · unfold toPrecision
      rw [if_pos hv, hv, zero_mul]
  · let places : ℤ := digits - 1 - Int.log 10 |v|
    have hpow : (0 : ℚ) < 10 ^ places := by positivity
    have hscaled : v * 10 ^ places ≠ 0 := mul_ne_zero hv hpow.ne'
    -- Scaled, the value is at least a tenth of the precision.
    have hsize : (10 : ℚ) ^ digits / 10 ≤ |v * 10 ^ places| := by
      have hle : (10 : ℚ) ^ Int.log 10 |v| ≤ |v| :=
        mod_cast Int.zpow_log_le_self (b := 10) (by norm_num) (abs_pos.mpr hv)
      calc (10 : ℚ) ^ digits / 10 = 10 ^ Int.log 10 |v| * 10 ^ places := by
            rw [← zpow_add₀ (by norm_num), show Int.log 10 |v| + places = (digits : ℤ) - 1 by
              show Int.log 10 |v| + (digits - 1 - Int.log 10 |v|) = _
              ring, zpow_sub_one₀ (by norm_num), zpow_natCast]
            ring
        _ ≤ |v| * 10 ^ places := mul_le_mul_of_nonneg_right hle hpow.le
        _ = |v * 10 ^ places| := by rw [abs_mul, abs_of_pos hpow]
    refine ⟨(roundEven (v * 10 ^ places) - v * 10 ^ places) / (v * 10 ^ places), ?_, ?_⟩
    · rw [abs_div, div_le_div_iff₀ (abs_pos.mpr hscaled) (by positivity)]
      have herror := abs_roundEven_sub_le (v * 10 ^ places)
      calc |(roundEven (v * 10 ^ places) : ℚ) - v * 10 ^ places| * 10 ^ digits
          ≤ 1 / 2 * 10 ^ digits := mul_le_mul_of_nonneg_right herror (by positivity)
        _ = 5 * (10 ^ digits / 10) := by ring
        _ ≤ 5 * |v * 10 ^ places| := mul_le_mul_of_nonneg_left hsize (by norm_num)
    · unfold toPrecision
      rw [if_neg hv]
      show (roundEven (v * 10 ^ places) : ℚ) / 10 ^ places = _
      rw [one_add_div hscaled, add_sub_cancel]
      rw [div_eq_iff hpow.ne']
      field_simp

example : toPrecision 3 (2 / 3) = 667 / 1000 := by decide +kernel
example : toScale 2 (-1 / 8) = -13 / 100 := by decide +kernel

/-! ## §2. Running sums. -/

/-- The values added up from the left, each sum rounded. -/
def sumToPrecision (digits : ℕ) (values : List ℚ) : ℚ :=
  values.foldl (fun total v => toPrecision digits (total + v)) 0

/-- A sum that is rounded after each addition, one term more. -/
theorem sumToPrecision_replicate_succ (digits n : ℕ) (v : ℚ) :
    sumToPrecision digits (List.replicate (n + 1) v)
      = toPrecision digits (sumToPrecision digits (List.replicate n v) + v) := by
  unfold sumToPrecision
  rw [List.replicate_succ', List.foldl_append]
  rfl

/-- As long as every multiple fits the context, so does the sum. -/
theorem sumToPrecision_replicate {digits n : ℕ} {v : ℚ}
    (h : ∀ k ≤ n, toPrecision digits ((k : ℚ) * v) = k * v) :
    sumToPrecision digits (List.replicate n v) = n * v := by
  induction n with
  | zero => simp [sumToPrecision]
  | succ n ih =>
      have hnext : (n : ℚ) * v + v = ((n + 1 : ℕ) : ℚ) * v := by
        push_cast
        ring
      rw [sumToPrecision_replicate_succ, ih fun k hk => h k (by omega), hnext]
      exact h (n + 1) le_rfl

/-- Otherwise a running sum of one value loses at most one relative error with
each addition. -/
theorem exists_sumToPrecision_replicate {digits : ℕ} (hd : 0 < digits) (n : ℕ) (v : ℚ) :
    ∃ c : ℚ, (1 - 5 / 10 ^ digits) ^ n ≤ c ∧ sumToPrecision digits (List.replicate n v) = n * v * c := by
  have hsmall : (5 : ℚ) / 10 ^ digits ≤ 1 := by
    rw [div_le_one (by positivity)]
    calc (5 : ℚ) ≤ 10 ^ 1 := by norm_num
      _ ≤ 10 ^ digits := pow_le_pow_right₀ (by norm_num) hd
  have hbase : (0 : ℚ) ≤ 1 - 5 / 10 ^ digits := by linarith
  have hbase' : 1 - (5 : ℚ) / 10 ^ digits ≤ 1 := by
    have : (0 : ℚ) ≤ 5 / 10 ^ digits := by positivity
    linarith
  induction n with
  | zero => exact ⟨1, by simp, by simp [sumToPrecision]⟩
  | succ n ih =>
      obtain ⟨c, hc, hsum⟩ := ih
      obtain ⟨δ, hδ, hround⟩ := exists_toPrecision_eq_mul digits (n * v * c + v)
      have hpow : (1 - (5 : ℚ) / 10 ^ digits) ^ n ≤ 1 := pow_le_one₀ hbase hbase'
      have hpow₀ : (0 : ℚ) ≤ (1 - 5 / 10 ^ digits) ^ n := by positivity
      have hn : (0 : ℚ) < n + 1 := by positivity
      refine ⟨(n * c + 1) / (n + 1) * (1 + δ), ?_, ?_⟩
      · -- Of the sum so far and the next value, neither is smaller than the bound says.
        have hmean : (1 - (5 : ℚ) / 10 ^ digits) ^ n ≤ (n * c + 1) / (n + 1) := by
          rw [le_div_iff₀ hn]
          have := mul_le_mul_of_nonneg_left hc (Nat.cast_nonneg (α := ℚ) n)
          linarith
        have hone : 1 - (5 : ℚ) / 10 ^ digits ≤ 1 + δ := by
          have := (abs_le.mp hδ).1
          linarith
        rw [pow_succ]
        exact mul_le_mul hmean hone hbase (hpow₀.trans hmean)
      · rw [sumToPrecision_replicate_succ, hsum, hround]
        push_cast
        field_simp

end BasisHawk.Lib
