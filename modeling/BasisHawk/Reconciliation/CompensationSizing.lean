/-
  BasisHawk.Reconciliation.CompensationSizing
  ───────────────────────────────────────────
  The size `compensation_quantity` gives a protection order (`sizing.py`)
  against what the settlements take (`storage.py`).

  A size is a number of steps of the exchange.  Buying back rounds up and
  selling rounds down, so that what is left over stays on the spot side, less
  than a step.  A ratio within 1e-9 of a whole number is first moved to it, and
  that can be the other way.

  Main results:
    • `compensationQuantity_eq` — the size, in steps,
    • `compensation_accepted_iff` — a completely filled protection order is
      accepted exactly if the move to a whole number was not the wrong way,
    • `protection_sizable_iff` — the protection leg a settlement creates can be
      sized exactly if the imbalance is not too far below a step.
-/
import BasisHawk.Paired.Readings
import BasisHawk.Paired.Exposure
import BasisHawk.Reconciliation.Executors

namespace BasisHawk.Reconciliation.LiveCompensation

open Domain Lib Paired

/-! ## §1. The steps of a protection order. -/

/-- A ratio this close to a whole number counts as that number. -/
def snap : ℚ := 1 / 10 ^ 9

/-- `to_integral_value`: half to even. -/
def nearest (ratio : ℚ) : ℚ :=
  if ratio - ⌊ratio⌋ < 1 / 2 ∨ (ratio - ⌊ratio⌋ = 1 / 2 ∧ ⌊ratio⌋ % 2 = 0) then ⌊ratio⌋
  else ⌊ratio⌋ + 1

/-- The steps of a protection order for an imbalance of `ratio` steps. -/
def roundedSteps (side : Side) (ratio : ℚ) : ℤ :=
  match side with
  | .buy => if Int.fract ratio ≤ snap then ⌊ratio⌋ else ⌊ratio⌋ + 1
  | .sell => if 1 - snap ≤ Int.fract ratio then ⌊ratio⌋ + 1 else ⌊ratio⌋

/-- The part of a step that is left over on the spot side. -/
def leftOver (side : Side) (ratio : ℚ) : ℚ :=
  match side with
  | .buy => roundedSteps .buy ratio - ratio
  | .sell => ratio - roundedSteps .sell ratio

/-- The nearest whole number is the one a purchase must not be rounded down to,
or a sale up to. -/
def SnapsAway (side : Side) (ratio : ℚ) : Prop :=
  match side with
  | .buy => 0 < Int.fract ratio ∧ Int.fract ratio ≤ snap
  | .sell => 1 - snap ≤ Int.fract ratio

/-- Enough of a step for an order. -/
def Sizable (side : Side) (ratio : ℚ) : Prop :=
  match side with
  | .buy => snap < ratio
  | .sell => 1 - snap ≤ ratio

instance (side : Side) (ratio : ℚ) : Decidable (SnapsAway side ratio) :=
  match side with
  | .buy => inferInstanceAs (Decidable (_ ∧ _))
  | .sell => inferInstanceAs (Decidable (_ ≤ _))

instance (side : Side) (ratio : ℚ) : Decidable (Sizable side ratio) :=
  match side with
  | .buy => inferInstanceAs (Decidable (_ < _))
  | .sell => inferInstanceAs (Decidable (_ ≤ _))

theorem snap_pos : 0 < snap := by
  unfold snap
  norm_num

theorem snap_lt_half : snap < 1 / 2 := by
  unfold snap
  norm_num

variable {ratio : ℚ} {side : Side}

/-- Only the distance to the next whole number below decides whether a ratio is
moved, and where to. -/
theorem snapped_eq (ratio : ℚ) :
    (if |ratio - nearest ratio| ≤ snap then nearest ratio else ratio)
      = if Int.fract ratio ≤ snap then (⌊ratio⌋ : ℚ)
        else if 1 - snap ≤ Int.fract ratio then (⌊ratio⌋ : ℚ) + 1
        else ratio := by
  have hfract : ratio - ⌊ratio⌋ = Int.fract ratio := Int.self_sub_floor ratio
  have hlt := Int.fract_lt_one ratio
  have h0 := Int.fract_nonneg ratio
  have hhalf := snap_lt_half
  unfold nearest
  rw [hfract]
  -- `nearest` is the whole number below, so the distance is the fraction.
  by_cases hdown : Int.fract ratio < 1 / 2 ∨ (Int.fract ratio = 1 / 2 ∧ ⌊ratio⌋ % 2 = 0)
  · have hle : Int.fract ratio ≤ 1 / 2 := by
      rcases hdown with h | h
      · exact h.le
      · exact h.1.le
    rw [if_pos hdown, hfract, abs_of_nonneg h0]
    by_cases hs : Int.fract ratio ≤ snap
    · rw [if_pos hs, if_pos hs]
    · rw [if_neg hs, if_neg hs, if_neg (by linarith)]
  · -- Or it is the one above, and the distance is what the fraction lacks.
    have hle : 1 / 2 ≤ Int.fract ratio := by
      rw [not_or, not_lt] at hdown
      exact hdown.1
    have habs : |ratio - (⌊ratio⌋ + 1)| = 1 - Int.fract ratio := by
      rw [← sub_sub, hfract, abs_sub_comm]
      exact abs_of_pos (sub_pos.mpr hlt)
    rw [if_neg hdown, habs, if_neg (show ¬Int.fract ratio ≤ snap by linarith)]
    by_cases hs : 1 - snap ≤ Int.fract ratio
    · rw [if_pos (by linarith), if_pos hs]
    · rw [if_neg (by linarith), if_neg hs]

/-- The ceiling of a ratio that is not whole. -/
theorem ceil_of_fract_pos (h : 0 < Int.fract ratio) : ⌈ratio⌉ = ⌊ratio⌋ + 1 := by
  have hfract : ratio - ⌊ratio⌋ = Int.fract ratio := Int.self_sub_floor ratio
  have hlt := Int.fract_lt_one ratio
  rw [Int.ceil_eq_iff]
  push_cast
  constructor <;> linarith

/-- The moved ratio, rounded to the side of the order. -/
theorem roundedSteps_eq (side : Side) (ratio : ℚ) :
    ((match side with
      | .buy => ⌈if |ratio - nearest ratio| ≤ snap then nearest ratio else ratio⌉
      | .sell => ⌊if |ratio - nearest ratio| ≤ snap then nearest ratio else ratio⌋ : ℤ))
      = roundedSteps side ratio := by
  have hhalf := snap_lt_half
  have hsnap := snap_pos
  have hcast : (⌊ratio⌋ : ℚ) + 1 = ((⌊ratio⌋ + 1 : ℤ) : ℚ) := by push_cast; rfl
  rw [snapped_eq]
  by_cases hdown : Int.fract ratio ≤ snap
  · have hup : ¬1 - snap ≤ Int.fract ratio := by linarith
    cases side with
    | buy => simp only [roundedSteps, if_pos hdown, Int.ceil_intCast]
    | sell => simp only [roundedSteps, if_pos hdown, if_neg hup, Int.floor_intCast]
  · by_cases hup : 1 - snap ≤ Int.fract ratio
    · cases side with
      | buy => simp only [roundedSteps, if_neg hdown, if_pos hup, hcast, Int.ceil_intCast]
      | sell => simp only [roundedSteps, if_neg hdown, if_pos hup, hcast, Int.floor_intCast]
    · cases side with
      | buy =>
          simp only [roundedSteps, if_neg hdown, if_neg hup]
          rw [ceil_of_fract_pos (by linarith)]
      | sell => simp only [roundedSteps, if_neg hdown, if_neg hup]

/-- `compensation_quantity` in steps. -/
theorem compensationQuantity_eq {requested increment : ℚ} (hr : 0 < requested)
    (hi : 0 < increment) (side : Side) :
    compensationQuantity requested increment side
      = if roundedSteps side (requested / increment) ≤ 0 then
          .error (.value "compensation quantity is below the exchange increment")
        else .ok (roundedSteps side (requested / increment) * increment) := by
  have hsteps := roundedSteps_eq side (requested / increment)
  have hfinish : ∀ n : ℤ, n = roundedSteps side (requested / increment) →
      (raiseIf ((n : ℚ) ≤ 0) (Exc.value "compensation quantity is below the exchange increment")
        >>= fun _ => .ok (n * increment) : Except Exc ℚ) = if roundedSteps side (requested / increment) ≤ 0 then
          .error (.value "compensation quantity is below the exchange increment")
        else .ok (roundedSteps side (requested / increment) * increment) := by
    intro n hn
    rw [hn]
    by_cases h : roundedSteps side (requested / increment) ≤ 0
    · rw [if_pos h, raiseIf_pos (Int.cast_nonpos.mpr h)]
      rfl
    · rw [if_neg h, raiseIf_neg (fun hle => h (Int.cast_nonpos.mp hle))]
      rfl
  unfold compensationQuantity
  rw [raiseIf_neg (by rintro (h | h) <;> linarith)]
  cases side with
  | buy => exact hfinish _ hsteps
  | sell => exact hfinish _ hsteps

theorem compensationQuantity_ok {requested increment quantity : ℚ} (hr : 0 < requested)
    (hi : 0 < increment) (h : compensationQuantity requested increment side = .ok quantity) :
    quantity = roundedSteps side (requested / increment) * increment := by
  rw [compensationQuantity_eq hr hi] at h
  split at h
  · cases h
  · cases h
    rfl

/-- Less than a step is left over. -/
theorem leftOver_lt_one (side : Side) (ratio : ℚ) : leftOver side ratio < 1 := by
  have hfract := Int.floor_add_fract ratio
  have h0 := Int.fract_nonneg ratio
  have hlt := Int.fract_lt_one ratio
  have hsnap := snap_pos
  cases side with
  | buy =>
      simp only [leftOver, roundedSteps]
      split
      · linarith
      · push_cast
        linarith
  | sell =>
      simp only [leftOver, roundedSteps]
      split
      · push_cast
        linarith
      · linarith

/-- It is left over on the spot side exactly if the ratio was not moved away. -/
theorem leftOver_nonneg_iff (side : Side) (ratio : ℚ) :
    0 ≤ leftOver side ratio ↔ ¬SnapsAway side ratio := by
  have hfract := Int.floor_add_fract ratio
  have h0 := Int.fract_nonneg ratio
  have hlt := Int.fract_lt_one ratio
  cases side with
  | buy =>
      simp only [leftOver, roundedSteps, SnapsAway, not_and_or, not_lt, not_le]
      by_cases hs : Int.fract ratio ≤ snap
      · rw [if_pos hs]
        constructor
        · intro h
          exact .inl (by linarith)
        · rintro (h | h) <;> linarith
      · rw [if_neg hs]
        push_cast
        exact ⟨fun _ => .inr (not_le.mp hs), fun _ => by linarith⟩
  | sell =>
      simp only [leftOver, roundedSteps, SnapsAway]
      by_cases hs : 1 - snap ≤ Int.fract ratio
      · rw [if_pos hs]
        push_cast
        exact ⟨fun h => by linarith, fun h => absurd hs h⟩
      · rw [if_neg hs]
        exact ⟨fun _ => hs, fun _ => by linarith⟩

/-- There is an order exactly if there is enough of a step. -/
theorem roundedSteps_pos_iff (side : Side) (h : 0 < ratio) :
    0 < roundedSteps side ratio ↔ Sizable side ratio := by
  have hfract := Int.floor_add_fract ratio
  have h0 := Int.fract_nonneg ratio
  have hlt := Int.fract_lt_one ratio
  have hhalf := snap_lt_half
  have hfloor : 0 ≤ ⌊ratio⌋ := Int.floor_nonneg.mpr h.le
  -- Below a whole step the ratio is its own fraction.
  have hzero : ⌊ratio⌋ = 0 → Int.fract ratio = ratio := by
    intro hz
    rw [hz, Int.cast_zero, zero_add] at hfract
    exact hfract
  have hone : 0 < ⌊ratio⌋ → 1 ≤ ratio := by
    intro hp
    have hle : ((1 : ℤ) : ℚ) ≤ ⌊ratio⌋ := Int.cast_le.mpr hp
    push_cast at hle
    linarith
  rcases hfloor.lt_or_eq with hp | hz
  · have hge := hone hp
    cases side with
    | buy =>
        simp only [roundedSteps, Sizable]
        refine ⟨fun _ => by linarith, fun _ => ?_⟩
        split <;> omega
    | sell =>
        simp only [roundedSteps, Sizable]
        refine ⟨fun _ => by linarith [snap_pos], fun _ => ?_⟩
        split <;> omega
  · have heq := hzero hz.symm
    cases side with
    | buy =>
        simp only [roundedSteps, Sizable, heq, ← hz]
        by_cases hs : ratio ≤ snap
        · rw [if_pos hs]
          exact ⟨fun h => absurd h (lt_irrefl 0), fun h => absurd h hs.not_gt⟩
        · rw [if_neg hs]
          exact ⟨fun _ => not_le.mp hs, fun _ => by omega⟩
    | sell =>
        simp only [roundedSteps, Sizable, heq, ← hz]
        by_cases hs : 1 - snap ≤ ratio
        · rw [if_pos hs]
          exact ⟨fun _ => hs, fun _ => by omega⟩
        · rw [if_neg hs]
          exact ⟨fun h => absurd h (lt_irrefl 0), fun h => absurd h hs⟩

/-! ## §2. The imbalance a settlement finds. -/

/-- The settlement of an action. -/
def settle (action : TradeAction) (intentId : Nat) (now : Int) (l : Ledger) :
    Except Exc (Option Ledger.Settled × Ledger) :=
  match action with
  | .opening => l.settleLiveOpen intentId now
  | .closing => l.settleLiveClose intentId now

/-- The primary base quantities a settlement compares; only an opening looks at
base-asset fees. -/
def primaryBases (l : Ledger) (intent : TradeIntentRow) (y : Layout) : ℚ × ℚ :=
  match intent.action with
  | .opening => (spotBaseAfterFee y.spot (spotBaseFee intent.baseAsset (l.fillsOfLeg y.spot.id)),
      y.perp.filledBase)
  | .closing => (y.spot.filledBase, y.perp.filledBase)

/-- The primary fills are settled as they are. -/
def TakenAsTheyAre (l : Ledger) (intent : TradeIntentRow) (y : Layout) : Prop :=
  numericEqual (primaryBases l intent y).1 (primaryBases l intent y).2
    ∨ (intent.action = .opening ∧ feeAwareOpenIsHedged intent y (primaryBases l intent y).1)

/-- The leg that filled more. -/
def excessLeg (l : Ledger) (intent : TradeIntentRow) (y : Layout) : OrderLegRow :=
  y.excess (primaryBases l intent y).1 (primaryBases l intent y).2

/-- The primary imbalance in base units. -/
def imbalance (l : Ledger) (intent : TradeIntentRow) (y : Layout) : ℚ :=
  |(primaryBases l intent y).1 - (primaryBases l intent y).2|

/-- The steps the protection leg is to make up for. -/
def imbalanceRatio (l : Ledger) (intent : TradeIntentRow) (y : Layout) (increment : Market → ℚ) :
    ℚ :=
  imbalance l intent y / (excessLeg l intent y).baseMultiplier
    / increment (excessLeg l intent y).market

instance (l : Ledger) (intent : TradeIntentRow) (y : Layout) :
    Decidable (TakenAsTheyAre l intent y) :=
  inferInstanceAs (Decidable (_ ∨ (_ ∧ _)))

/-! ## §3. What a settlement makes of a filled protection order. -/

/-- The protection leg `leg` after it has been sized, submitted and completely
filled. -/
structure CompletelyFilled (leg : OrderLegRow) (quantity tolerance : ℚ) (c : OrderLegRow) :
    Prop where
  target : c.compensationTargetBaseQuantity = leg.compensationTargetBaseQuantity
  multiplier : c.baseMultiplier = leg.baseMultiplier
  tolerance_eq : c.compensationToleranceBase = tolerance
  quantity_eq : c.quantity = quantity
  filled : c.filledQuantity = c.quantity

/-- No perpetual is left without spot: of an opening the quantities bought and
sold short, of a close what it leaves of a pair. -/
def PerpCovered (action : TradeAction) (adjusted : ℚ × ℚ) : Prop :=
  match action with
  | .opening => adjusted.2 ≤ adjusted.1
  | .closing => ∀ held, held - adjusted.2 ≤ held - adjusted.1

theorem perpCovered_iff (action : TradeAction) (adjusted : ℚ × ℚ) :
    PerpCovered action adjusted ↔ 0 ≤ residualDust action adjusted := by
  cases action with
  | opening => exact sub_nonneg.symm
  | closing =>
      constructor
      · intro h
        exact sub_nonneg.mpr (sub_le_sub_iff_left 0 |>.mp (h 0))
      · intro h held
        exact sub_le_sub_left (sub_nonneg.mp h) held

/-- The size of a new protection leg makes up for the whole imbalance. -/
theorem liveCompensationLeg_base {intent : TradeIntentRow} {excess leg : OrderLegRow} {base : ℚ}
    {id : Nat} {now : Int} (h : liveCompensationLeg intent excess base id now = .ok leg) :
    leg.baseMultiplier = excess.baseMultiplier ∧ leg.quantity = base / excess.baseMultiplier
      ∧ leg.compensationTargetBaseQuantity = some base := by
  unfold liveCompensationLeg at h
  split at h
  · cases h
  · cases h
    exact ⟨rfl, rfl, rfl⟩

section

variable {intent : TradeIntentRow} {y : Layout} {spotBase perpBase : ℚ} {leg c : OrderLegRow}
  {id : Nat} {now : Int} {increment quantity : ℚ}

/-- The imbalance that is left is the part of a step the size leaves over. -/
theorem residualDust_eq (hy : y.Fits intent.action)
    (hleg : liveCompensationLeg intent (y.excess spotBase perpBase) |spotBase - perpBase| id now
      = .ok leg)
    (hi : 0 < increment) (hq : compensationQuantity leg.quantity increment leg.side = .ok quantity)
    (hc : CompletelyFilled leg quantity (increment * leg.baseMultiplier) c) :
    residualDust intent.action
        (netOfCompensation spotBase perpBase (y.excess spotBase perpBase) c)
      = leftOver leg.side (leg.quantity / increment) * (increment * leg.baseMultiplier) := by
  obtain ⟨-, -, -, -, -, hside, -, -, -⟩ := Ledger.liveCompensationLeg_ok hleg
  obtain ⟨hmult, hquantity, -⟩ := liveCompensationLeg_base hleg
  have hm : leg.baseMultiplier ≠ 0 := leg.multiplier_check.ne'
  have hbase : leg.quantity / increment * (increment * leg.baseMultiplier)
      = |spotBase - perpBase| := by
    rw [← mul_assoc, div_mul_cancel₀ _ hi.ne', hquantity, ← hmult, div_mul_cancel₀ _ hm]
  have hfilled : c.filledBase
      = roundedSteps leg.side (leg.quantity / increment) * (increment * leg.baseMultiplier) := by
    unfold OrderLegRow.filledBase
    rw [hc.filled, hc.quantity_eq, hc.multiplier, compensationQuantity_ok leg.quantity_pos.1 hi hq,
      mul_assoc]
  -- A purchase leaves over what it bought too much, a sale what it did not sell.
  have hleft : leftOver leg.side (leg.quantity / increment) * (increment * leg.baseMultiplier)
      = match leg.side with
        | .buy => c.filledBase - |spotBase - perpBase|
        | .sell => |spotBase - perpBase| - c.filledBase := by
    cases hs : leg.side with
    | buy =>
        rw [hs] at hfilled
        rw [hfilled, ← hbase]
        exact sub_mul _ _ _
    | sell =>
        rw [hs] at hfilled
        rw [hfilled, ← hbase]
        exact sub_mul _ _ _
  rw [hleft, hside]
  unfold Layout.excess netOfCompensation residualDust
  by_cases hmore : perpBase < spotBase
  · rw [if_pos hmore, hy.spot.1, hy.spot.2, abs_of_pos (sub_pos.mpr hmore)]
    cases intent.action with
    | opening => show spotBase - c.filledBase - perpBase = spotBase - perpBase - c.filledBase; ring
    | closing => show perpBase - (spotBase - c.filledBase) = c.filledBase - (spotBase - perpBase); ring
  · rw [if_neg hmore, hy.perp.1, hy.perp.2, abs_of_nonpos (sub_nonpos.mpr (le_of_not_gt hmore))]
    cases intent.action with
    | opening => show spotBase - (perpBase - c.filledBase) = c.filledBase - -(spotBase - perpBase); ring
    | closing => show perpBase - c.filledBase - spotBase = -(spotBase - perpBase) - c.filledBase; ring

/-- What a settlement checks of a protection order that filled no more than the
leg it undoes. -/
theorem compensatedBaseQuantities_iff {action : TradeAction} {excess : OrderLegRow}
    {adjusted : ℚ × ℚ} {tolerance : ℚ}
    (htarget : c.compensationTargetBaseQuantity = some |spotBase - perpBase|)
    (hpos : 0 < |spotBase - perpBase|) (hfilled : c.filledQuantity = c.quantity)
    (htolerance : c.compensationToleranceBase = tolerance) (ht : 0 < tolerance)
    (hs : 0 ≤ (netOfCompensation spotBase perpBase excess c).1)
    (hp : 0 ≤ (netOfCompensation spotBase perpBase excess c).2) :
    compensatedBaseQuantities action spotBase perpBase excess c = .ok adjusted
      ↔ adjusted = netOfCompensation spotBase perpBase excess c
        ∧ 0 ≤ residualDust action adjusted ∧ residualDust action adjusted < tolerance := by
  have hself : ∀ v : ℚ, numericEqual v v := fun v => by
    rw [numericEqual_iff, sub_self, abs_zero]
    norm_num
  constructor
  · intro h
    -- The checks of the source leave the net quantities and dust that is not unsafe.
    obtain ⟨hnet, -, -, hdust, -, -⟩ := compensatedBaseQuantities_ok h
    refine ⟨hnet, residualDust_nonneg hdust, ?_⟩
    unfold unsafeDust at hdust
    rw [not_or, not_or, htolerance, not_and_or, not_and_or, not_le] at hdust
    exact hdust.2.2.resolve_left (not_not.mpr ht)
  · rintro ⟨rfl, h0, hlt⟩
    unfold compensatedBaseQuantities
    rw [htarget]
    -- The order filled its target: neither overfilled, nor off by more than a float.
    refine raiseIf_bind_eq_ok.mpr ⟨?_, raiseIf_bind_eq_ok.mpr ⟨?_, raiseIf_bind_eq_ok.mpr
      ⟨?_, rfl⟩⟩⟩
    · rw [hfilled]
      rintro (h | h | h)
      · linarith
      · exact h (hself _)
      · exact h (hself _)
    · -- Nothing is sold beyond what was there.
      rintro (h | h) <;> linarith
    · -- And the dust stays below the tolerance.
      unfold unsafeDust
      rw [htolerance]
      rintro (h | ⟨h, -⟩ | ⟨-, h⟩) <;> linarith

/-- The sizing of a protection order is what the settlement accepts exactly if
the ratio was not moved the wrong way. -/
theorem compensation_accepted_iff (hy : y.Fits intent.action) (hs : 0 ≤ spotBase)
    (hp : 0 ≤ perpBase)
    (hleg : liveCompensationLeg intent (y.excess spotBase perpBase) |spotBase - perpBase| id now
      = .ok leg)
    (hi : 0 < increment) (hq : compensationQuantity leg.quantity increment leg.side = .ok quantity)
    (hc : CompletelyFilled leg quantity (increment * leg.baseMultiplier) c)
    (hle : c.filledBase ≤ max spotBase perpBase) :
    (∃ adjusted, compensatedBaseQuantities intent.action spotBase perpBase
          (y.excess spotBase perpBase) c = .ok adjusted
        ∧ 0 ≤ residualDust intent.action adjusted
        ∧ residualDust intent.action adjusted < increment * leg.baseMultiplier
        ∧ PerpCovered intent.action adjusted)
      ↔ ¬SnapsAway leg.side (leg.quantity / increment) := by
  obtain ⟨hpos, -⟩ := Ledger.liveCompensationLeg_ok hleg
  obtain ⟨-, -, htarget⟩ := liveCompensationLeg_base hleg
  have ht : 0 < increment * leg.baseMultiplier := mul_pos hi leg.multiplier_check
  -- The dust is what rounding the compensation to its increment has left over.
  have hdust := residualDust_eq hy hleg hi hq hc
  have hnonneg : 0 ≤ (netOfCompensation spotBase perpBase (y.excess spotBase perpBase) c).1
      ∧ 0 ≤ (netOfCompensation spotBase perpBase (y.excess spotBase perpBase) c).2 := by
    unfold Layout.excess netOfCompensation
    by_cases hmore : perpBase < spotBase
    · rw [if_pos hmore, hy.spot.1]
      rw [max_eq_left hmore.le] at hle
      exact ⟨sub_nonneg.mpr hle, hp⟩
    · rw [if_neg hmore, hy.perp.1]
      rw [max_eq_right (le_of_not_gt hmore)] at hle
      exact ⟨hs, sub_nonneg.mpr hle⟩
  -- What the check computes, and the bounds it has on it.
  have hiff : ∀ adjusted, compensatedBaseQuantities intent.action spotBase perpBase
        (y.excess spotBase perpBase) c = .ok adjusted
      ↔ adjusted = netOfCompensation spotBase perpBase (y.excess spotBase perpBase) c
        ∧ 0 ≤ residualDust intent.action adjusted
        ∧ residualDust intent.action adjusted < increment * leg.baseMultiplier :=
    fun _ => compensatedBaseQuantities_iff (hc.target.trans htarget) hpos hc.filled hc.tolerance_eq
      ht hnonneg.1 hnonneg.2
  rw [← leftOver_nonneg_iff]
  constructor
  · rintro ⟨adjusted, hadjusted, h0, -, -⟩
    rw [((hiff adjusted).mp hadjusted).1, hdust] at h0
    exact nonneg_of_mul_nonneg_left h0 ht
  · intro h
    have h0 : 0 ≤ residualDust intent.action
        (netOfCompensation spotBase perpBase (y.excess spotBase perpBase) c) := by
      rw [hdust]
      exact mul_nonneg h ht.le
    have hlt : residualDust intent.action
        (netOfCompensation spotBase perpBase (y.excess spotBase perpBase) c)
          < increment * leg.baseMultiplier := by
      rw [hdust]
      exact mul_lt_of_lt_one_left ht (leftOver_lt_one _ _)
    exact ⟨_, (hiff _).mpr ⟨rfl, h0, hlt⟩, h0, hlt, (perpCovered_iff _ _).mpr h0⟩

end

namespace Sample

open Paired.Sample

/-- Six spot units are bought for a fee in the base asset and one perpetual unit
is sold; `size` spot units are sold back. -/
def protectedOpen (fee size : ℚ) : List (TradeOp × Int) := [
  (.createOpen openPlan, 0), (.prepareSubmission 0 none, 0),
  (.persistFills 1 [fill .spot .buy "s" 6 100 fee], 0),
  (.persistFills 2 [fill .perp .sell "p" 1 100 0], 0),
  (.reconcileOrder 1 (canceled .spot .buy "bh-0123456789abcdef01234567-s" 10 false), 0),
  (.reconcileOrder 2 (canceled .perp .sell "bh-0123456789abcdef01234567-p" 10 false), 0),
  (.settleOpen 0, 0), (.prepareCompensation 0 90 size 1, 0),
  (.persistFills 5 [fill .spot .sell "c" size 100 0], 0)]

/-- The protection order of a reading is sized in whole units and filled. -/
def SizedInUnits (b : Books) (r : OpenReading) (c leg : OrderLegRow) : Prop :=
  liveCompensationLeg r.intent (excessLeg b.ledger r.intent r.layout)
      (imbalance b.ledger r.intent r.layout) 0 0 = .ok leg
    ∧ compensationQuantity leg.quantity 1 leg.side = .ok c.quantity
    ∧ c.compensationTargetBaseQuantity = leg.compensationTargetBaseQuantity
    ∧ c.baseMultiplier = leg.baseMultiplier
    ∧ c.compensationToleranceBase = 1 * leg.baseMultiplier
    ∧ c.filledQuantity = c.quantity

instance (b : Books) (r : OpenReading) (c leg : OrderLegRow) : Decidable (SizedInUnits b r c leg) :=
  inferInstanceAs (Decidable (_ ∧ _ ∧ _ ∧ _ ∧ _ ∧ _))

end Sample

/-- Four and a half units too many of spot: four are sold, and the settlement
takes the half that is left. -/
theorem compensation_accepted_half :
    ∃ (b : Books) (r : OpenReading) (c leg : OrderLegRow), Reachable b
      ∧ r.layout.compensation = some c ∧ Sample.SizedInUnits b r c leg
      ∧ ((∃ adjusted, compensatedBaseQuantities r.intent.action
            (primaryBases b.ledger r.intent r.layout).1 (primaryBases b.ledger r.intent r.layout).2
            (excessLeg b.ledger r.intent r.layout) c = .ok adjusted
          ∧ 0 ≤ residualDust r.intent.action adjusted
          ∧ residualDust r.intent.action adjusted < 1 * leg.baseMultiplier
          ∧ PerpCovered r.intent.action adjusted)
        ↔ ¬SnapsAway leg.side (leg.quantity / 1)) := by
  obtain ⟨b, hb, r, hr, c, hc, leg, -, hsized, hs, hp, hle⟩ := Books.exists_of_play
    (fun b => ∃ r ∈ b.ledger.openReading 0, ∃ c ∈ r.layout.compensation,
      ∃ leg ∈ (liveCompensationLeg r.intent (excessLeg b.ledger r.intent r.layout)
          (imbalance b.ledger r.intent r.layout) 0 0).toOption,
        Sample.SizedInUnits b r c leg ∧ 0 ≤ (primaryBases b.ledger r.intent r.layout).1
          ∧ 0 ≤ (primaryBases b.ledger r.intent r.layout).2
          ∧ c.filledBase ≤ max (primaryBases b.ledger r.intent r.layout).1
              (primaryBases b.ledger r.intent r.layout).2)
    (Sample.protectedOpen (1 / 2) 4) (by decide +kernel)
  obtain ⟨hfound, -, -, hlayout⟩ := Ledger.openReading_some.mp hr
  have hfits : r.layout.Fits r.intent.action :=
    hb.wellFormed.layout_fits (Table.find?_some hfound).1 hlayout
  have hsized' := hsized
  obtain ⟨hleg, hq, htarget, hmult, htolerance, hfilled⟩ := hsized'
  exact ⟨b, r, c, leg, hb, hc, hsized, compensation_accepted_iff hfits hs hp hleg one_pos hq
    ⟨htarget, hmult, htolerance, rfl, hfilled⟩ hle⟩

/-- A fee of half a billionth of a unit: five units are sold where a little less
was too much, and the settlement refuses the completely filled order. -/
theorem compensation_snapped_away :
    ∃ (b : Books) (r : OpenReading) (c leg : OrderLegRow), Reachable b
      ∧ b.ledger.openReading 0 = some r ∧ r.layout.compensation = some c
      ∧ Sample.SizedInUnits b r c leg
      ∧ c.filledBase ≤ max (primaryBases b.ledger r.intent r.layout).1
          (primaryBases b.ledger r.intent r.layout).2
      ∧ compensatedBaseQuantities r.intent.action (primaryBases b.ledger r.intent r.layout).1
          (primaryBases b.ledger r.intent r.layout).2 (excessLeg b.ledger r.intent r.layout) c
        = .error (.value "live compensation leaves unsafe residual exposure") := by
  obtain ⟨b, hb, r, hr, c, hc, leg, -, h⟩ := Books.exists_of_play
    (fun b => ∃ r ∈ b.ledger.openReading 0, ∃ c ∈ r.layout.compensation,
      ∃ leg ∈ (liveCompensationLeg r.intent (excessLeg b.ledger r.intent r.layout)
          (imbalance b.ledger r.intent r.layout) 0 0).toOption,
        Sample.SizedInUnits b r c leg
          ∧ c.filledBase ≤ max (primaryBases b.ledger r.intent r.layout).1
              (primaryBases b.ledger r.intent r.layout).2
          ∧ compensatedBaseQuantities r.intent.action (primaryBases b.ledger r.intent r.layout).1
              (primaryBases b.ledger r.intent r.layout).2 (excessLeg b.ledger r.intent r.layout) c
            = .error (.value "live compensation leaves unsafe residual exposure"))
    (Sample.protectedOpen (5 / 10 ^ 10) 5) (by decide +kernel)
  exact ⟨b, r, c, leg, hb, hr, hc, h⟩

/-! ## §4. The protection leg a settlement creates. -/

variable {l l' : Ledger} {intentId : Nat} {now : Int} {i i' : TradeIntentRow} {y : Layout}
  {p : Option PairedPositionRow}

/-- The first decision on terminal fills of an opening. -/
theorem openVerdict_first {verdict : OpenVerdict} (haction : i.action = .opening)
    (hexec : i.status = .executing) (hnone : y.compensation = none)
    (h : openVerdict i y (l.fillsOfLeg y.spot.id) (l.fillsOfIntent i.id) = .ok verdict) :
    verdict = .pending
      ∨ (TakenAsTheyAre l i y ∧ ∀ excess base, verdict ≠ .protect excess base)
      ∨ (¬TakenAsTheyAre l i y ∧ verdict = .protect (excessLeg l i y) (imbalance l i y)) := by
  have hbases : primaryBases l i y = (spotBaseAfterFee y.spot
      (spotBaseFee i.baseAsset (l.fillsOfLeg y.spot.id)), y.perp.filledBase) := by
    unfold primaryBases
    rw [haction]
  simp only [TakenAsTheyAre, excessLeg, imbalance, hbases, haction, true_and]
  simp only [openVerdict] at h
  -- An order is still active.
  split at h
  · cases h
    exact .inl rfl
  -- More is filled than was asked for: an exception.
  split at h
  · cases h
  -- Nothing is filled on either leg.
  split at h
  · next hzero =>
      cases h
      refine .inr (.inl ⟨.inl ?_, fun _ _ => (by intro h; cases h)⟩)
      rw [hzero.1, hzero.2, numericEqual_iff, sub_self, abs_zero]
      norm_num
  split at h
  · -- The legs differ, so the larger one is undone.
    next hunequal =>
      cases h
      refine .inr (.inr ⟨not_or.mpr hunequal, ?_⟩)
      simp only [openImbalance, hnone, hexec, if_true]
  · -- They agree, or differ by the fee of the spot leg.
    next hequal =>
      cases h
      rw [not_and_or, not_not, not_not] at hequal
      refine .inr (.inl ⟨hequal, fun _ _ => ?_⟩)
      unfold openBalanced
      split
      · split <;> intro h <;> cases h
      · intro h
        cases h

/-- The first decision on terminal fills of a close. -/
theorem closeVerdict_first {position : PairedPositionRow} {verdict : CloseVerdict}
    (haction : i.action = .closing) (hexec : i.status = .executing) (hnone : y.compensation = none)
    (h : closeVerdict i position y (l.fillsOfIntent i.id) = .ok verdict) :
    verdict = .pending
      ∨ (TakenAsTheyAre l i y ∧ (∀ excess base, verdict ≠ .protect excess base)
        ∧ ∀ o, verdict = .settle o → o.status = .closed)
      ∨ (¬TakenAsTheyAre l i y ∧ verdict = .protect (excessLeg l i y) (imbalance l i y)) := by
  have hbases : primaryBases l i y = (y.spot.filledBase, y.perp.filledBase) := by
    unfold primaryBases
    rw [haction]
  simp only [TakenAsTheyAre, excessLeg, imbalance, hbases, haction, reduceCtorEq, false_and,
    or_false]
  simp only [closeVerdict] at h
  -- An order is still active.
  split at h
  · cases h
    exact .inl rfl
  -- Nothing is filled on either leg.
  split at h
  · next hzero =>
      cases h
      refine .inr (.inl ⟨?_, fun _ _ => (by intro h; cases h), fun _ h => (by cases h)⟩)
      rw [hzero.1, hzero.2, numericEqual_iff, sub_self, abs_zero]
      norm_num
  split at h
  · -- The legs differ, so the larger one is undone.
    next hunequal =>
      refine .inr (.inr ⟨hunequal, ?_⟩)
      simp only [closeImbalance, hnone, hexec, if_true] at h
      cases h
      rfl
  · -- They agree, and the close is booked.
    next hequal =>
      rw [not_not] at hequal
      refine .inr (.inl ⟨hequal, ?_⟩)
      unfold closeBalanced at h
      split at h
      · cases h
        exact ⟨fun _ _ => (by intro h; cases h), fun _ h => (by cases h)⟩
      split at h
      · cases h
        exact ⟨fun _ _ => (by intro h; cases h), fun _ h => (by cases h)⟩
      obtain ⟨allocation, -, h⟩ := bind_eq_ok.mp h
      obtain ⟨gross, -, h⟩ := bind_eq_ok.mp h
      cases h
      refine ⟨fun _ _ => (by intro h; cases h), fun o h => ?_⟩
      cases h
      rfl

/-- The intent and its protection leg after a settlement has protected it. -/
theorem protect_legs {excess : OrderLegRow} {base : ℚ} (hy : l.layout i.id = .ok y)
    (hnone : y.compensation = none) (h : l.protect i excess base now = .ok (i', l')) :
    i'.status = .compensating ∧ ∃ leg, (l'.legsOfIntent i'.id).filter (·.leg.isCompensation) = [leg]
      ∧ liveCompensationLeg i excess base l.nextId now = .ok leg := by
  obtain ⟨leg, hleg, rfl, rfl⟩ := Ledger.protect_ok h
  obtain ⟨-, -, hintent, hname, -⟩ := Ledger.liveCompensationLeg_ok hleg
  refine ⟨rfl, leg, ?_, hleg⟩
  have hlegs : (l.legsOfIntent i.id).filter (·.leg.isCompensation) = [] := by
    rw [List.filter_eq_nil_iff]
    intro o ho
    obtain ⟨hspot, hperp, hcomp, hperm⟩ := layout_legs hy
    have ho : o ∈ y.legs := hperm.mem_iff.mpr ho
    simp only [Layout.legs, hnone, Option.toList_none, List.mem_cons, List.not_mem_nil,
      or_false] at ho
    rcases ho with rfl | rfl
    · rw [hspot]
      decide
    · rw [hperp]
      decide
  have hcompensation : leg.leg.isCompensation = true := by
    rw [hname]
    cases excess.leg <;> rfl
  show ((l.legs ++ [leg]).filter (fun o => o.tradeIntentId = i.id)).filter (·.leg.isCompensation)
    = [leg]
  rw [List.filter_append, List.filter_append]
  show (l.legsOfIntent i.id).filter (·.leg.isCompensation) ++ _ = _
  rw [hlegs, List.nil_append, List.filter_cons_of_pos (by simpa using hintent), List.filter_nil,
    List.filter_cons_of_pos (by simpa using hcompensation), List.filter_nil]

/-- A settlement that has found the fills terminal: it takes them as they are,
or it protects their imbalance. -/
theorem settle_first (hi : Table.find? l.intents intentId = some i)
    (hy : l.layout i.id = .ok y) (hexec : i.status = .executing) (hnone : y.compensation = none)
    (h : settle i.action intentId now l = .ok (some (i', p, true), l')) :
    (TakenAsTheyAre l i y ∧ i'.status ≠ .compensating)
      ∨ (¬TakenAsTheyAre l i y
        ∧ l.protect i (excessLeg l i y) (imbalance l i y) now = .ok (i', l')) := by
  cases haction : i.action with
  | opening =>
      rw [haction] at h
      obtain ⟨r, verdict, hr, hv, happly⟩ := Ledger.settleLiveOpen_changed h
      obtain ⟨hfound, -, -, hlayout⟩ := Ledger.openReading_some.mp hr
      obtain rfl : i = r.intent := Option.some.inj (hi.symm.trans hfound)
      obtain rfl : y = r.layout := Except.ok.inj (hy.symm.trans hlayout)
      -- The first verdict on an execution is to wait, to take the fills as they are, or to protect.
      rcases openVerdict_first haction hexec hnone hv with rfl | ⟨htaken, hne⟩ | ⟨hnot, rfl⟩
      · cases happly
      · refine .inl ⟨htaken, ?_⟩
        cases verdict with
        | pending => cases happly
        | protect excess base => exact absurd rfl (hne excess base)
        | noFills | review | neutralized | hedge =>
            cases happly
            intro h
            cases h
      · refine .inr ⟨hnot, ?_⟩
        obtain ⟨⟨i'', l''⟩, hprotect, happly⟩ := bind_eq_ok.mp happly
        cases happly
        exact hprotect
  | closing =>
      rw [haction] at h
      obtain ⟨r, verdict, hr, hv, happly⟩ := Ledger.settleLiveClose_changed h
      obtain ⟨hfound, -, -, -, hlayout⟩ := Ledger.closeReading_some.mp hr
      obtain rfl : i = r.intent := Option.some.inj (hi.symm.trans hfound)
      obtain rfl : y = r.layout := Except.ok.inj (hy.symm.trans hlayout)
      rcases closeVerdict_first haction hexec hnone hv with rfl | ⟨htaken, hne, hclosed⟩ | ⟨hnot, rfl⟩
      · cases happly
      · refine .inl ⟨htaken, ?_⟩
        cases verdict with
        | pending => cases happly
        | protect excess base => exact absurd rfl (hne excess base)
        | noFills | review =>
            cases happly
            intro h
            cases h
        -- A booked close ends the intent.
        | settle o =>
            obtain ⟨l₁, -, happly⟩ := bind_eq_ok.mp happly
            cases happly
            show o.status ≠ .compensating
            rw [hclosed o rfl]
            intro h
            cases h
      · refine .inr ⟨hnot, ?_⟩
        obtain ⟨⟨i'', l''⟩, hprotect, happly⟩ := bind_eq_ok.mp happly
        cases happly
        exact hprotect

/-- The first settlement of terminal fills never leaves an intent with a
protection leg that cannot be sized, exactly if the fills are taken as they are
or their imbalance is enough of a step. -/
theorem protection_sizable_iff {increment : Market → ℚ} (hinc : ∀ m, 0 < increment m)
    (hi : Table.find? l.intents intentId = some i) (hy : l.layout i.id = .ok y)
    (hexec : i.status = .executing) (hnone : y.compensation = none)
    (h : settle i.action intentId now l = .ok (some (i', p, true), l')) :
    (i'.status = .compensating →
        ∃ c, (l'.legsOfIntent i'.id).filter (·.leg.isCompensation) = [c] ∧ c.status = .created
          ∧ ∃ quantity, 0 < quantity
            ∧ compensationQuantity c.quantity (increment c.market) c.side = .ok quantity)
      ↔ TakenAsTheyAre l i y
        ∨ Sizable (excessLeg l i y).side.flip (imbalanceRatio l i y increment) := by
  rcases settle_first hi hy hexec hnone h with ⟨htaken, hne⟩ | ⟨hnot, hprotect⟩
  · exact ⟨fun _ => .inl htaken, fun _ h => absurd h hne⟩
  -- The fills are not taken as they are, so the one new leg is the protection.
  obtain ⟨hstatus, leg, hlegs, hleg⟩ := protect_legs hy hnone hprotect
  obtain ⟨-, -, -, -, hmarket, hside, hcreated, -, -⟩ := Ledger.liveCompensationLeg_ok hleg
  obtain ⟨-, hquantity, -⟩ := liveCompensationLeg_base hleg
  have hratio : leg.quantity / increment leg.market = imbalanceRatio l i y increment := by
    rw [hquantity, hmarket]
    rfl
  have hpos : 0 < imbalanceRatio l i y increment := by
    rw [← hratio]
    exact div_pos leg.quantity_pos.1 (hinc leg.market)
  -- Its size is the ratio in whole steps, and there is one exactly if any step is left.
  have hsized := compensationQuantity_eq leg.quantity_pos.1 (hinc leg.market) leg.side
  have hsteps := roundedSteps_pos_iff leg.side hpos
  rw [hratio] at hsized
  rw [hside] at hsteps hsized
  constructor
  · intro hall
    right
    obtain ⟨c, hc, -, quantity, -, hok⟩ := hall hstatus
    rw [hlegs, List.cons.injEq] at hc
    obtain ⟨rfl, -⟩ := hc
    rw [hside, hsized] at hok
    rw [← hsteps]
    by_contra hle
    rw [if_pos (not_lt.mp hle)] at hok
    cases hok
  · rintro (htaken | hsizable) -
    · exact absurd htaken hnot
    · have hlt := hsteps.mpr hsizable
      rw [if_neg (not_le.mpr hlt), ← hside] at hsized
      refine ⟨leg, hlegs, hcreated, _, ?_, hsized⟩
      rw [hside]
      exact mul_pos (Int.cast_pos.mpr hlt) (hinc leg.market)

namespace Sample

open Paired.Sample

/-- Ten spot units are bought for a fee in the base asset and `size` perpetual
units are sold. -/
def unevenOpen (fee size : ℚ) : List (TradeOp × Int) := [
  (.createOpen openPlan, 0), (.prepareSubmission 0 none, 0),
  (.persistFills 1 [fill .spot .buy "s" 10 100 fee], 0),
  (.persistFills 2 [fill .perp .sell "p" size 100 0], 0),
  (.reconcileOrder 2 (canceled .perp .sell "bh-0123456789abcdef01234567-p" 10 false), 0)]

/-- The pair 0 about to be settled for the first time. -/
def Unsettled (b : Books) (i : TradeIntentRow) (y : Layout) : Prop :=
  Table.find? b.ledger.intents 0 = some i ∧ b.ledger.layout i.id = .ok y
    ∧ i.status = .executing ∧ y.compensation = none ∧ ¬TakenAsTheyAre b.ledger i y

instance (b : Books) (i : TradeIntentRow) (y : Layout) : Decidable (Unsettled b i y) :=
  inferInstanceAs (Decidable (_ ∧ _ ∧ _ ∧ _ ∧ _))

end Sample

/-- One and a half units too many of spot can be sold back in whole units. -/
theorem protection_sizable_half :
    ∃ (b : Books) (i : TradeIntentRow) (y : Layout) (i' : TradeIntentRow) (l' : Ledger),
      Reachable b ∧ Sample.Unsettled b i y
      ∧ ((i'.status = .compensating →
          ∃ c, (l'.legsOfIntent i'.id).filter (·.leg.isCompensation) = [c] ∧ c.status = .created
            ∧ ∃ quantity, 0 < quantity ∧ compensationQuantity c.quantity 1 c.side = .ok quantity)
        ↔ TakenAsTheyAre b.ledger i y
          ∨ Sizable (excessLeg b.ledger i y).side.flip (imbalanceRatio b.ledger i y fun _ => 1)) := by
  obtain ⟨b, hb, i, -, y, -, hu, ⟨_, l'⟩, hsettle, ⟨i', p, _⟩, rfl, rfl⟩ := Books.exists_of_play
    (fun b => ∃ i ∈ Table.find? b.ledger.intents 0, ∃ y ∈ (b.ledger.layout i.id).toOption,
      Sample.Unsettled b i y ∧ ∃ x ∈ (settle i.action 0 0 b.ledger).toOption,
        ∃ settled ∈ x.1, settled.2.2 = true)
    (Sample.unevenOpen (1 / 2) 8) (by decide +kernel)
  have hu' := hu
  obtain ⟨hi, hy, hexec, hnone, -⟩ := hu'
  exact ⟨b, i, y, i', l', hb, hu, protection_sizable_iff (fun _ => one_pos) hi hy hexec hnone
    (toOption_some.mp hsettle)⟩

/-- Less than a hundredth of a unit too much of spot on a market of hundredths:
the intent compensates with a leg no attempt can size. -/
theorem protection_unsizable :
    ∃ (b : Books) (i : TradeIntentRow) (y : Layout) (i' : TradeIntentRow)
        (p : Option PairedPositionRow) (l' : Ledger) (c : OrderLegRow),
      Reachable b ∧ Sample.Unsettled b i y
      ∧ settle i.action 0 0 b.ledger = .ok (some (i', p, true), l') ∧ i'.status = .compensating
      ∧ (l'.legsOfIntent i'.id).filter (·.leg.isCompensation) = [c] ∧ c.status = .created
      ∧ compensationQuantity c.quantity (1 / 100) c.side
        = .error (.value "compensation quantity is below the exchange increment") := by
  obtain ⟨b, hb, i, -, y, -, hu, ⟨_, l'⟩, hsettle, ⟨i', p, _⟩, rfl, rfl, hstatus, c, -, hc⟩ :=
    Books.exists_of_play
    (fun b => ∃ i ∈ Table.find? b.ledger.intents 0, ∃ y ∈ (b.ledger.layout i.id).toOption,
      Sample.Unsettled b i y ∧ ∃ x ∈ (settle i.action 0 0 b.ledger).toOption,
        ∃ settled ∈ x.1, settled.2.2 = true ∧ settled.1.status = .compensating
          ∧ ∃ c ∈ x.2.legs, (x.2.legsOfIntent settled.1.id).filter (·.leg.isCompensation) = [c]
            ∧ c.status = .created ∧ compensationQuantity c.quantity (1 / 100) c.side
              = .error (.value "compensation quantity is below the exchange increment"))
    (Sample.unevenOpen (6 / 1000) (999 / 100)) (by decide +kernel)
  exact ⟨b, i, y, i', p, l', c, hb, hu, toOption_some.mp hsettle, hstatus, hc⟩

end BasisHawk.Reconciliation.LiveCompensation
