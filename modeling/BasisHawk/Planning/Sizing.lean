/-
  BasisHawk.Planning.Sizing
  ─────────────────────────
  `size_paired_order` and `minimum_paired_order_notional` (`sizing.py`): how
  much of both legs a notional buys under the trading rules.

  Main results:
    • `sizePairedOrder_pos` — an accepted size is positive on both legs,
    • `protectiveLimitPrice_buy`, `protectiveLimitPrice_sell` — a protective
      limit is within the slippage it was asked for.
-/
import BasisHawk.Domain.Market
import Mathlib.Algebra.Order.Field.Rat
import Mathlib.Data.Rat.Floor
import Mathlib.Tactic.Positivity
import Mathlib.Tactic.FieldSimp

namespace BasisHawk.Planning

open Domain Lib

/-! ## §1. Sizes. -/

/-- `PairedOrderSize`. -/
structure PairedOrderSize where
  baseQuantity : ℚ
  spotQuantity : ℚ
  perpQuantity : ℚ
  commonBaseIncrement : ℚ
  spotNotional : ℚ
  perpNotional : ℚ
  deriving DecidableEq

/-- `InstrumentPair.perp_base_quantity_increment`. -/
def perpBaseQuantityIncrement (p : InstrumentPair) : ℚ :=
  p.perpQuantityIncrement * p.perpContractSize

/-- `_decimal_lcm`.  On a common decimal scale both values are whole; the
quotient does not depend on the scale. -/
def decimalLcm (left right : ℚ) : Except Exc ℚ := do
  raiseIf (left ≤ 0 ∨ right ≤ 0) (.value "quantity increments must be positive")
  return (Nat.lcm left.num.natAbs right.num.natAbs : ℚ) / Nat.gcd left.den right.den

/-- `_is_multiple`. -/
def isMultiple (value increment : ℚ) : Prop := (⌊value / increment⌋ : ℚ) * increment = value

instance (value increment : ℚ) : Decidable (isMultiple value increment) :=
  inferInstanceAs (Decidable (_ = _))

/-- `pair.spot_min_notional / spot_price if pair.spot_min_notional > 0 else 0`. -/
def quantityForNotional (minimum price : ℚ) : ℚ := if 0 < minimum then minimum / price else 0

/-- `minimum_paired_order_notional`. -/
def minimumPairedOrderNotional (p : InstrumentPair) (spotPrice perpPrice spotBaseFeeRate : ℚ) :
    Except Exc ℚ := do
  raiseIf (¬p.tradingRulesComplete) (.value "instrument trading rules are incomplete")
  raiseIf (spotPrice ≤ 0 ∨ perpPrice ≤ 0) (.value "prices must be positive")
  raiseIf (spotBaseFeeRate < 0 ∨ 1 ≤ spotBaseFeeRate)
    (.value "spot base fee rate must be between zero and one")
  let commonIncrement ← decimalLcm p.spotQuantityIncrement (perpBaseQuantityIncrement p)
  let requiredSpotQuantity := max (max commonIncrement p.spotMinQuantity)
    (quantityForNotional p.spotMinNotional spotPrice)
  let requiredPerpBaseQuantity :=
    max (max (perpBaseQuantityIncrement p) (p.perpMinQuantity * p.perpContractSize))
      (quantityForNotional p.perpMinNotional perpPrice)
  let requiredPerpIncrements := ⌈requiredPerpBaseQuantity / perpBaseQuantityIncrement p⌉
  let requiredPerpBaseQuantity := requiredPerpIncrements * perpBaseQuantityIncrement p
  let requiredBaseQuantity :=
    max requiredSpotQuantity (requiredPerpBaseQuantity / (1 - spotBaseFeeRate))
  let increments := ⌈requiredBaseQuantity / commonIncrement⌉
  return increments * commonIncrement * spotPrice

/-- `size_paired_order`. -/
def sizePairedOrder (p : InstrumentPair) (requestedNotional spotPrice perpPrice spotBaseFeeRate : ℚ) :
    Except Exc PairedOrderSize := do
  raiseIf (¬p.tradingRulesComplete) (.value "instrument trading rules are incomplete")
  raiseIf (requestedNotional ≤ 0 ∨ spotPrice ≤ 0 ∨ perpPrice ≤ 0)
    (.value "notional and prices must be positive")
  raiseIf (spotBaseFeeRate < 0 ∨ 1 ≤ spotBaseFeeRate)
    (.value "spot base fee rate must be between zero and one")
  let commonIncrement ← decimalLcm p.spotQuantityIncrement (perpBaseQuantityIncrement p)
  let minimumNotional ← minimumPairedOrderNotional p spotPrice perpPrice spotBaseFeeRate
  raiseIf (requestedNotional < minimumNotional)
    (.value "requested notional is below the minimum executable amount")
  let targetBaseQuantity := requestedNotional / spotPrice
  let increments := ⌊targetBaseQuantity / commonIncrement⌋
  let spotQuantity := increments * commonIncrement
  raiseIf (spotQuantity ≤ 0) (.value "requested notional is below the common quantity step")
  let expectedNetSpot := spotQuantity * (1 - spotBaseFeeRate)
  let perpIncrements := ⌊expectedNetSpot / perpBaseQuantityIncrement p⌋
  let baseQuantity := perpIncrements * perpBaseQuantityIncrement p
  let perpQuantity := baseQuantity / p.perpContractSize
  raiseIf (spotQuantity < p.spotMinQuantity) (.value "spot quantity is below the exchange minimum")
  raiseIf (perpQuantity < p.perpMinQuantity)
    (.value "perpetual quantity is below the exchange minimum")
  raiseIf (¬isMultiple spotQuantity p.spotQuantityIncrement)
    (.value "spot quantity is not aligned to its increment")
  raiseIf (¬isMultiple perpQuantity p.perpQuantityIncrement)
    (.value "perpetual quantity is not aligned to its increment")
  let spotNotional := spotQuantity * spotPrice
  let perpNotional := baseQuantity * perpPrice
  raiseIf (0 < p.spotMinNotional ∧ spotNotional < p.spotMinNotional)
    (.value "spot notional is below the exchange minimum")
  raiseIf (0 < p.perpMinNotional ∧ perpNotional < p.perpMinNotional)
    (.value "perpetual notional is below the exchange minimum")
  return {
    baseQuantity, spotQuantity, perpQuantity
    commonBaseIncrement := commonIncrement
    spotNotional, perpNotional }

/-! ## §2. What an accepted size is. -/

/-- A common increment is positive, as the increments that have one are. -/
theorem decimalLcm_pos {left right inc : ℚ} (h : decimalLcm left right = .ok inc) : 0 < inc := by
  simp only [decimalLcm, raiseIf_bind_eq_ok] at h
  obtain ⟨hpos, h⟩ := h
  injection h with h
  have hl : 0 < left := lt_of_not_ge fun hle => hpos (.inl hle)
  have hr : 0 < right := lt_of_not_ge fun hle => hpos (.inr hle)
  have hlcm : 0 < Nat.lcm left.num.natAbs right.num.natAbs :=
    Nat.lcm_pos (Int.natAbs_pos.mpr (Rat.num_pos.mpr hl).ne')
      (Int.natAbs_pos.mpr (Rat.num_pos.mpr hr).ne')
  have hgcd : 0 < Nat.gcd left.den right.den := Nat.gcd_pos_of_pos_left _ left.den_pos
  rw [← h]
  positivity

/-- A notional that is not below the minimum pays for one whole step of the
perpetual after the fee. -/
theorem minimumPairedOrderNotional_le {p : InstrumentPair} {spotPrice perpPrice fee minimum inc : ℚ}
    (h : minimumPairedOrderNotional p spotPrice perpPrice fee = .ok minimum)
    (hinc : decimalLcm p.spotQuantityIncrement (perpBaseQuantityIncrement p) = .ok inc) {notional : ℚ}
    (hn : minimum ≤ notional) :
    perpBaseQuantityIncrement p ≤ ⌊notional / spotPrice / inc⌋ * inc * (1 - fee) := by
  simp only [minimumPairedOrderNotional, raiseIf_bind_eq_ok, hinc] at h
  obtain ⟨hrules, hprices, hfee, h⟩ := h
  injection h with h
  have hspot : 0 < spotPrice := lt_of_not_ge fun hle => hprices (.inl hle)
  have hnet : 0 < 1 - fee := sub_pos.mpr (lt_of_not_ge fun hle => hfee (.inr hle))
  have hrules := InstrumentPair.rules_pos (p := p) (by simpa using hrules)
  have hstep : 0 < perpBaseQuantityIncrement p := mul_pos hrules.2.2.2.1 hrules.2.2.2.2
  have hincpos := decimalLcm_pos hinc
  generalize hq : max (max (perpBaseQuantityIncrement p) (p.perpMinQuantity * p.perpContractSize))
    (quantityForNotional p.perpMinNotional perpPrice) = q at h
  have hqge : perpBaseQuantityIncrement p ≤ q := by
    rw [← hq]
    exact (le_max_left _ _).trans (le_max_left _ _)
  generalize hb : max (max (max inc p.spotMinQuantity) (quantityForNotional p.spotMinNotional spotPrice))
    (⌈q / perpBaseQuantityIncrement p⌉ * perpBaseQuantityIncrement p / (1 - fee)) = base at h
  -- The required base pays for one step of the perpetual …
  have hbase : perpBaseQuantityIncrement p ≤ base * (1 - fee) := by
    have hceil : perpBaseQuantityIncrement p
        ≤ ⌈q / perpBaseQuantityIncrement p⌉ * perpBaseQuantityIncrement p := by
      have h₁ := Int.le_ceil (q / perpBaseQuantityIncrement p)
      rw [div_le_iff₀ hstep] at h₁
      exact hqge.trans h₁
    have hle : ⌈q / perpBaseQuantityIncrement p⌉ * perpBaseQuantityIncrement p / (1 - fee) ≤ base := by
      rw [← hb]
      exact le_max_right _ _
    rw [div_le_iff₀ hnet] at hle
    exact hceil.trans hle
  -- … and is itself covered by the whole steps the notional buys.
  have hcover : base ≤ ⌊notional / spotPrice / inc⌋ * inc := by
    have hn' : (⌈base / inc⌉ : ℚ) ≤ notional / spotPrice / inc := by
      rw [le_div_iff₀ hincpos, le_div_iff₀ hspot]
      rw [h]
      exact hn
    have hfloor : (⌈base / inc⌉ : ℚ) ≤ ⌊notional / spotPrice / inc⌋ := by
      exact_mod_cast Int.le_floor.mpr hn'
    have hbase' := Int.le_ceil (base / inc)
    rw [div_le_iff₀ hincpos] at hbase'
    exact hbase'.trans (mul_le_mul_of_nonneg_right hfloor hincpos.le)
  exact hbase.trans (mul_le_mul_of_nonneg_right hcover hnet.le)

/-- A size is given only under complete trading rules. -/
theorem sizePairedOrder_rules {p : InstrumentPair} {notional spotPrice perpPrice fee : ℚ}
    {size : PairedOrderSize} (h : sizePairedOrder p notional spotPrice perpPrice fee = .ok size) :
    p.tradingRulesComplete := by
  simp only [sizePairedOrder, raiseIf_bind_eq_ok] at h
  simpa using h.1

/-- Every quantity that the sizing returns is positive. -/
theorem sizePairedOrder_pos {p : InstrumentPair} {notional spotPrice perpPrice fee : ℚ}
    {size : PairedOrderSize} (h : sizePairedOrder p notional spotPrice perpPrice fee = .ok size) :
    0 < size.spotQuantity ∧ 0 < size.baseQuantity ∧ 0 < size.perpQuantity := by
  have hrules := InstrumentPair.rules_pos (sizePairedOrder_rules h)
  simp only [sizePairedOrder, raiseIf_bind_eq_ok] at h
  obtain ⟨-, -, -, h⟩ := h
  obtain ⟨inc, hinc, h⟩ := bind_eq_ok.mp h
  obtain ⟨minimum, hmin, h⟩ := bind_eq_ok.mp h
  simp only [raiseIf_bind_eq_ok] at h
  obtain ⟨hn, hspot, -, -, -, -, -, -, h⟩ := h
  injection h with h
  subst h
  have hstep : 0 < perpBaseQuantityIncrement p := mul_pos hrules.2.2.2.1 hrules.2.2.2.2
  have hone := minimumPairedOrderNotional_le hmin hinc (le_of_not_gt hn)
  have hfloor : 1 ≤ ⌊⌊notional / spotPrice / inc⌋ * inc * (1 - fee) / perpBaseQuantityIncrement p⌋ := by
    rw [Int.le_floor, Int.cast_one, one_le_div hstep]
    exact hone
  have hbase : 0 < (⌊⌊notional / spotPrice / inc⌋ * inc * (1 - fee)
      / perpBaseQuantityIncrement p⌋ : ℚ) * perpBaseQuantityIncrement p := by
    have : (0 : ℚ) < ⌊⌊notional / spotPrice / inc⌋ * inc * (1 - fee)
        / perpBaseQuantityIncrement p⌋ := by
      exact_mod_cast hfloor
    exact mul_pos this hstep
  exact ⟨lt_of_not_ge hspot, hbase, div_pos hbase hrules.2.2.2.2⟩

/-! ## §3. What sizing raises. -/

/-- Nothing but a `ValueError` is raised. -/
def RaisesValue {α : Type} (x : Except Exc α) : Prop := ∀ e, x = .error e → e.kind = .value

section RaisesValue

variable {α β : Type}

theorem RaisesValue.pure {a : α} : RaisesValue (Except.ok a : Except Exc α) :=
  fun _ h => by cases h

/-- A sequence of steps that raise nothing but `ValueError` raises nothing else.
-/
theorem RaisesValue.bind {x : Except Exc α} {f : α → Except Exc β} (hx : RaisesValue x)
    (hf : ∀ a, RaisesValue (f a)) : RaisesValue (x >>= f) := by
  intro e h
  cases x with
  | error e' =>
      cases h
      exact hx e rfl
  | ok a => exact hf a e h

/-- A check of this module raises a `ValueError`. -/
theorem RaisesValue.raiseIf {c : Prop} [Decidable c] {message : String} :
    RaisesValue (Lib.raiseIf c (Exc.value message)) := by
  intro e h
  unfold Lib.raiseIf at h
  split at h
  · cases h
    rfl
  · cases h

/-- So does a row that is not there. -/
theorem RaisesValue.found {o : Option α} {message : String} :
    RaisesValue (Lib.found o (Exc.value message)) := by
  intro e h
  cases o with
  | none =>
      cases h
      rfl
  | some a => cases h

end RaisesValue

/-- The common increment is refused with a `ValueError`. -/
theorem decimalLcm_raises {left right : ℚ} : RaisesValue (decimalLcm left right) :=
  .bind .raiseIf fun _ => .pure

/-- So is the minimum notional of a pair. -/
theorem minimumPairedOrderNotional_raises {p : InstrumentPair} {spotPrice perpPrice fee : ℚ} :
    RaisesValue (minimumPairedOrderNotional p spotPrice perpPrice fee) :=
  .bind .raiseIf fun _ => .bind .raiseIf fun _ => .bind .raiseIf fun _ =>
    .bind decimalLcm_raises fun _ => .pure

/-- So is a notional that no quantity of the pair reaches. -/
theorem sizePairedOrder_raises {p : InstrumentPair} {notional spotPrice perpPrice fee : ℚ} :
    RaisesValue (sizePairedOrder p notional spotPrice perpPrice fee) :=
  .bind .raiseIf fun _ => .bind .raiseIf fun _ => .bind .raiseIf fun _ =>
    .bind decimalLcm_raises fun _ => .bind minimumPairedOrderNotional_raises fun _ =>
    .bind .raiseIf fun _ => .bind .raiseIf fun _ => .bind .raiseIf fun _ => .bind .raiseIf fun _ =>
    .bind .raiseIf fun _ => .bind .raiseIf fun _ => .bind .raiseIf fun _ => .bind .raiseIf fun _ =>
    .pure

/-- So is a limit price that is not positive. -/
theorem protectiveLimitPrice_raises {reference slippage increment : ℚ} {side : Side} :
    RaisesValue (protectiveLimitPrice reference slippage side increment) :=
  .bind .raiseIf fun _ => .bind .raiseIf fun _ => .bind .raiseIf fun _ => .pure

/-! ## §4. Protective limits. -/

/-- A buy limit is at most the reference price plus the slippage. -/
theorem protectiveLimitPrice_buy {reference slippage increment limit : ℚ}
    (h : protectiveLimitPrice reference slippage .buy increment = .ok limit) :
    limit ≤ reference * (1 + slippage) := by
  simp only [protectiveLimitPrice, raiseIf_bind_eq_ok] at h
  obtain ⟨hpos, -, -, h⟩ := h
  injection h with h
  have hinc : 0 < increment := lt_of_not_ge fun hle => hpos (.inr hle)
  rw [← h, ← le_div_iff₀ hinc]
  exact Int.floor_le _

/-- A sell limit is at least the reference price less the slippage. -/
theorem protectiveLimitPrice_sell {reference slippage increment limit : ℚ}
    (h : protectiveLimitPrice reference slippage .sell increment = .ok limit) :
    reference * (1 - slippage) ≤ limit := by
  simp only [protectiveLimitPrice, raiseIf_bind_eq_ok] at h
  obtain ⟨hpos, -, -, h⟩ := h
  injection h with h
  have hinc : 0 < increment := lt_of_not_ge fun hle => hpos (.inr hle)
  rw [← h, ← div_le_iff₀ hinc]
  exact Int.le_ceil _

end BasisHawk.Planning
