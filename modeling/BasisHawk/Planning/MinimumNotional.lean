/-
  BasisHawk.Planning.MinimumNotional
  ──────────────────────────────────
  `minimum_paired_order_notional` is the exact bound of `size_paired_order`
  (`sizing.py`): a notional below it buys nothing that both exchanges take, and
  from it on every notional is sized.

  The common grid of both legs is the one of `_decimal_lcm`.  On it the least
  spot quantity the minima allow is a single number, `minimumBase`; the bound
  is its price.

  Main results:
    • `decimalLcm_least` — the common increment is the least common multiple,
    • `Meets.minimumBase_le`, `meets_of_minimumBase_le` — `minimumBase` is the
      least quantity that meets all minima,
    • `minimumNotional_exact` — the bound is exact.
-/
import BasisHawk.Planning.Sizing
import BasisHawk.Lib.Increment

namespace BasisHawk.Planning

open Domain Lib

/-! ## §1. The common grid. -/

section Lcm

variable {left right inc v : ℚ}

/-- The common increment is the least common multiple of the numerators over the
greatest common divisor of the denominators. -/
theorem decimalLcm_eq (hl : 0 < left) (hr : 0 < right) :
    decimalLcm left right
      = .ok ((Nat.lcm left.num.natAbs right.num.natAbs : ℚ) / Nat.gcd left.den right.den) := by
  unfold decimalLcm
  rw [raiseIf_neg (by rintro (h | h) <;> linarith)]
  rfl

/-- `n / d` divides `L / g` where `n` divides `L` and `g` divides `d`. -/
theorem onGrid_div {n L : ℤ} {d g : ℕ} (hd : 0 < d) (hn : n ∣ L) (hg : g ∣ d) :
    OnGrid ((n : ℚ) / d) ((L : ℚ) / g) := by
  obtain ⟨k, rfl⟩ := hn
  obtain ⟨m, rfl⟩ := hg
  have hg' : (g : ℚ) ≠ 0 := Nat.cast_ne_zero.mpr (Nat.pos_of_mul_pos_right hd).ne'
  have hm' : (m : ℚ) ≠ 0 := Nat.cast_ne_zero.mpr (Nat.pos_of_mul_pos_left hd).ne'
  refine ⟨k * m, ?_⟩
  push_cast
  field_simp

/-- What a multiple has of the numerator and the denominator of its step. -/
theorem dvd_of_onGrid {step : ℚ} (h : OnGrid step v) : step.num ∣ v.num ∧ v.den ∣ step.den := by
  obtain ⟨a, ha⟩ := h
  have hsd : (step.den : ℚ) ≠ 0 := Nat.cast_ne_zero.mpr step.den_pos.ne'
  have hvd : (v.den : ℚ) ≠ 0 := Nat.cast_ne_zero.mpr v.den_pos.ne'
  have hrat : ((v.num * step.den : ℤ) : ℚ) = ((a * step.num * v.den : ℤ) : ℚ) := by
    have hcross : (v.num : ℚ) / v.den = a * (step.num / step.den) := by
      rw [Rat.num_div_den, Rat.num_div_den, ha]
    rw [mul_div_assoc', div_eq_div_iff hvd hsd] at hcross
    push_cast
    exact hcross
  have hint : v.num * step.den = a * step.num * v.den := by exact_mod_cast hrat
  constructor
  · refine Int.dvd_of_dvd_mul_left_of_gcd_one (b := v.num) (c := step.den) ?_ step.reduced
    exact ⟨a * v.den, by rw [hint]; ring⟩
  · have hdvd : (v.den : ℤ) ∣ step.den * v.num := ⟨a * step.num, by rw [mul_comm, hint]; ring⟩
    have hcop : Int.gcd v.den v.num = 1 := by
      rw [Int.gcd_comm]
      exact v.reduced
    exact_mod_cast Int.dvd_of_dvd_mul_left_of_gcd_one hdvd hcop

/-- The common increment is a multiple of both … -/
theorem decimalLcm_onGrid (hl : 0 < left) (hr : 0 < right) (h : decimalLcm left right = .ok inc) :
    OnGrid left inc ∧ OnGrid right inc := by
  rw [decimalLcm_eq hl hr] at h
  injection h with h
  rw [← h, ← Int.cast_natCast]
  constructor
  · nth_rewrite 1 [← Rat.num_div_den left]
    exact onGrid_div left.den_pos (Int.dvd_natCast.mpr (Nat.dvd_lcm_left _ _)) (Nat.gcd_dvd_left _ _)
  · nth_rewrite 1 [← Rat.num_div_den right]
    exact onGrid_div right.den_pos (Int.dvd_natCast.mpr (Nat.dvd_lcm_right _ _))
      (Nat.gcd_dvd_right _ _)

/-- … and divides every multiple of both. -/
theorem decimalLcm_least (hl : 0 < left) (hr : 0 < right) (h : decimalLcm left right = .ok inc)
    (hleft : OnGrid left v) (hright : OnGrid right v) : OnGrid inc v := by
  rw [decimalLcm_eq hl hr] at h
  injection h with h
  obtain ⟨hnl, hdl⟩ := dvd_of_onGrid hleft
  obtain ⟨hnr, hdr⟩ := dvd_of_onGrid hright
  rw [← h, ← Int.cast_natCast]
  nth_rewrite 1 [← Rat.num_div_den v]
  refine onGrid_div (Nat.gcd_pos_of_pos_left _ left.den_pos) ?_ (Nat.dvd_gcd hdl hdr)
  exact Int.natCast_dvd.mpr (Nat.lcm_dvd (Int.natAbs_dvd_natAbs.mpr hnl)
    (Int.natAbs_dvd_natAbs.mpr hnr))

/-- Two positive steps that are multiples of each other are one. -/
theorem onGrid_antisymm {a b : ℚ} (ha : 0 < a) (hb : 0 < b) (hab : OnGrid a b) (hba : OnGrid b a) :
    a = b := by
  have hle : ∀ {x y : ℚ}, 0 < x → 0 < y → OnGrid x y → x ≤ y := by
    rintro x y hx hy ⟨n, rfl⟩
    have hn : (0 : ℚ) < n := (pos_iff_pos_of_mul_pos hy).mpr hx
    have hn' : (1 : ℚ) ≤ n := by exact_mod_cast Int.cast_pos.mp hn
    exact le_mul_of_one_le_left hx.le hn'
  exact le_antisymm (hle ha hb hab) (hle hb ha hba)

/-- `_decimal_lcm` works on the integers that both increments are at some common
scale. -/
theorem decimalLcm_scaled {l r scale : ℕ} (hl : 0 < l) (hr : 0 < r) (hscale : 0 < scale) :
    decimalLcm ((l : ℚ) / scale) ((r : ℚ) / scale) = .ok ((Nat.lcm l r : ℚ) / scale) := by
  have hl' : (0 : ℚ) < (l : ℚ) / scale := by positivity
  have hr' : (0 : ℚ) < (r : ℚ) / scale := by positivity
  have hpos : (0 : ℚ) < (Nat.lcm l r : ℚ) / scale := by
    have := Nat.lcm_pos hl hr
    positivity
  obtain ⟨inc, hinc⟩ : ∃ inc, decimalLcm ((l : ℚ) / scale) ((r : ℚ) / scale) = .ok inc :=
    ⟨_, decimalLcm_eq hl' hr'⟩
  have hscale' : (scale : ℚ) ≠ 0 := Nat.cast_ne_zero.mpr hscale.ne'
  have hdvd : ∀ {a b : ℕ}, a ∣ b → OnGrid ((a : ℚ) / scale) ((b : ℚ) / scale) := by
    rintro a b ⟨k, rfl⟩
    exact ⟨k, by push_cast; ring⟩
  rw [hinc]
  refine congrArg Except.ok (onGrid_antisymm (decimalLcm_pos hinc) hpos
    (decimalLcm_least hl' hr' hinc (hdvd (Nat.dvd_lcm_left l r)) (hdvd (Nat.dvd_lcm_right l r))) ?_)
  -- Over the scale, a common multiple is a common multiple of the integers.
  obtain ⟨⟨a, ha⟩, ⟨b, hb⟩⟩ := decimalLcm_onGrid hl' hr' hinc
  have hunits : (a * l : ℤ) = b * r := by
    have hrat : (a : ℚ) * (l / scale) = b * (r / scale) := ha.symm.trans hb
    rw [← mul_div_assoc, ← mul_div_assoc, div_left_inj' hscale'] at hrat
    exact_mod_cast hrat
  have hlcm : ((Nat.lcm l r : ℕ) : ℤ) ∣ a * l := by
    refine Int.natCast_dvd.mpr (Nat.lcm_dvd ?_ ?_)
    · exact Int.natCast_dvd.mp (Dvd.intro_left a rfl)
    · rw [hunits]
      exact Int.natCast_dvd.mp (Dvd.intro_left b rfl)
  obtain ⟨k, hk⟩ := hlcm
  refine ⟨k, ?_⟩
  rw [ha, mul_div_assoc', mul_div_assoc']
  congr 1
  have hk' : ((a * l : ℤ) : ℚ) = ((Nat.lcm l r : ℕ) * k : ℤ) := by exact_mod_cast hk
  push_cast at hk' ⊢
  rw [hk', mul_comm]

end Lcm

/-! ## §2. The least quantity. -/

/-- What both exchanges ask of an order that buys `spot` and sells `base`: the
perpetual is covered by what the fee leaves, and no minimum is missed. -/
structure Meets (p : InstrumentPair) (spotPrice perpPrice fee spot base : ℚ) : Prop where
  spot_pos : 0 < spot
  base_pos : 0 < base
  covered : base ≤ spot * (1 - fee)
  spotQuantity : p.spotMinQuantity ≤ spot
  spotNotional : 0 < p.spotMinNotional → p.spotMinNotional ≤ spot * spotPrice
  perpQuantity : p.perpMinQuantity ≤ base / p.perpContractSize
  perpNotional : 0 < p.perpMinNotional → p.perpMinNotional ≤ base * perpPrice

/-- Inputs that are sized. -/
structure Sizable (p : InstrumentPair) (spotPrice perpPrice fee : ℚ) : Prop where
  rules : p.tradingRulesComplete
  spotPrice : 0 < spotPrice
  perpPrice : 0 < perpPrice
  fee : 0 ≤ fee ∧ fee < 1

/-- `required_spot_quantity`. -/
def requiredSpot (p : InstrumentPair) (spotPrice inc : ℚ) : ℚ :=
  max (max inc p.spotMinQuantity) (quantityForNotional p.spotMinNotional spotPrice)

/-- `required_perp_base_quantity`, before it is rounded up. -/
def requiredPerp (p : InstrumentPair) (perpPrice : ℚ) : ℚ :=
  max (max (perpBaseQuantityIncrement p) (p.perpMinQuantity * p.perpContractSize))
    (quantityForNotional p.perpMinNotional perpPrice)

/-- The least spot quantity on the common grid that the minima allow. -/
def minimumBase (p : InstrumentPair) (spotPrice perpPrice fee inc : ℚ) : ℚ :=
  ceilTo inc (max (requiredSpot p spotPrice inc)
    (ceilTo (perpBaseQuantityIncrement p) (requiredPerp p perpPrice) / (1 - fee)))

/-- A quantity reaches the notional minimum exactly where it is at least the
quantity that the minimum asks for. -/
theorem quantityForNotional_le {minimum price quantity : ℚ} (hp : 0 < price) (hq : 0 ≤ quantity) :
    quantityForNotional minimum price ≤ quantity ↔ (0 < minimum → minimum ≤ quantity * price) := by
  unfold quantityForNotional
  by_cases hm : 0 < minimum
  · rw [if_pos hm, div_le_iff₀ hp]
    exact ⟨fun h _ => h, fun h => h hm⟩
  · rw [if_neg hm]
    exact ⟨fun _ h => absurd h hm, fun _ => hq⟩

/-- A positive multiple is at least one step. -/
theorem step_le_of_onGrid {step v : ℚ} (hs : 0 < step) (hv : OnGrid step v) (hpos : 0 < v) :
    step ≤ v := by
  obtain ⟨n, rfl⟩ := hv
  have hn : (0 : ℚ) < n := (pos_iff_pos_of_mul_pos hpos).mpr hs
  have hn' : (1 : ℚ) ≤ n := by exact_mod_cast Int.cast_pos.mp hn
  exact le_mul_of_one_le_left hs.le hn'

section Sizing

variable {p : InstrumentPair} {spotPrice perpPrice fee inc : ℚ}

theorem Sizable.step_pos (h : Sizable p spotPrice perpPrice fee) :
    0 < perpBaseQuantityIncrement p := by
  obtain ⟨-, -, -, hq, hc⟩ := InstrumentPair.rules_pos h.rules
  exact mul_pos hq hc

/-- The increments of a pair that can be sized have a common one. -/
theorem Sizable.exists_inc (h : Sizable p spotPrice perpPrice fee) :
    ∃ inc, decimalLcm p.spotQuantityIncrement (perpBaseQuantityIncrement p) = .ok inc :=
  ⟨_, decimalLcm_eq (InstrumentPair.rules_pos h.rules).2.1 h.step_pos⟩

/-- An order on both grids that meets all minima is at least `minimumBase`. -/
theorem Meets.minimumBase_le (h : Sizable p spotPrice perpPrice fee) (hinc : 0 < inc) {spot base : ℚ}
    (hm : Meets p spotPrice perpPrice fee spot base) (hspot : OnGrid inc spot)
    (hbase : OnGrid (perpBaseQuantityIncrement p) base) :
    minimumBase p spotPrice perpPrice fee inc ≤ spot := by
  have hcontract := (InstrumentPair.rules_pos h.rules).2.2.2.2
  have hnet : 0 < 1 - fee := sub_pos.mpr h.fee.2
  refine hspot.ceilTo_le hinc (max_le (max_le (max_le ?_ hm.spotQuantity) ?_) ?_)
  · exact step_le_of_onGrid hinc hspot hm.spot_pos
  · exact (quantityForNotional_le h.spotPrice hm.spot_pos.le).mpr hm.spotNotional
  · have hperp : requiredPerp p perpPrice ≤ base := by
      refine max_le (max_le (step_le_of_onGrid h.step_pos hbase hm.base_pos) ?_) ?_
      · exact (le_div_iff₀ hcontract).mp hm.perpQuantity
      · exact (quantityForNotional_le h.perpPrice hm.base_pos.le).mpr hm.perpNotional
    rw [div_le_iff₀ hnet]
    exact (hbase.ceilTo_le h.step_pos hperp).trans hm.covered

/-- From `minimumBase` on, the perpetual quantity that the fee leaves room for
meets all minima. -/
theorem meets_of_minimumBase_le (h : Sizable p spotPrice perpPrice fee) (hinc : 0 < inc) {spot : ℚ}
    (hle : minimumBase p spotPrice perpPrice fee inc ≤ spot) :
    Meets p spotPrice perpPrice fee spot
      (floorTo (perpBaseQuantityIncrement p) (spot * (1 - fee))) := by
  have hcontract := (InstrumentPair.rules_pos h.rules).2.2.2.2
  have hnet : 0 < 1 - fee := sub_pos.mpr h.fee.2
  have hrequired := (le_ceilTo hinc).trans hle
  have hspot : requiredSpot p spotPrice inc ≤ spot := (le_max_left _ _).trans hrequired
  have hspot_pos : 0 < spot := hinc.trans_le
    ((le_max_left _ _).trans ((le_max_left _ _).trans hspot))
  -- The rounded-up perpetual minimum fits under what the fee leaves.
  have hbase : requiredPerp p perpPrice
      ≤ floorTo (perpBaseQuantityIncrement p) (spot * (1 - fee)) := by
    have hfits : ceilTo (perpBaseQuantityIncrement p) (requiredPerp p perpPrice)
        ≤ spot * (1 - fee) := by
      rw [← div_le_iff₀ hnet]
      exact (le_max_right _ _).trans hrequired
    exact (le_ceilTo h.step_pos).trans (ceilTo_onGrid.le_floorTo h.step_pos hfits)
  have hbase_pos : 0 < floorTo (perpBaseQuantityIncrement p) (spot * (1 - fee)) :=
    h.step_pos.trans_le ((le_max_left _ _).trans ((le_max_left _ _).trans hbase))
  exact {
    spot_pos := hspot_pos
    base_pos := hbase_pos
    covered := floorTo_le h.step_pos
    spotQuantity := (le_max_right _ _).trans ((le_max_left _ _).trans hspot)
    spotNotional := (quantityForNotional_le h.spotPrice hspot_pos.le).mp
      ((le_max_right _ _).trans hspot)
    perpQuantity := by
      rw [le_div_iff₀ hcontract]
      exact (le_max_right _ _).trans ((le_max_left _ _).trans hbase)
    perpNotional := (quantityForNotional_le h.perpPrice hbase_pos.le).mp
      ((le_max_right _ _).trans hbase) }

/-! ## §3. The bound. -/

/-- The minimum as a formula: the least base quantity that both legs can hold,
at the spot price. -/
theorem minimumPairedOrderNotional_eq (h : Sizable p spotPrice perpPrice fee)
    (hinc : decimalLcm p.spotQuantityIncrement (perpBaseQuantityIncrement p) = .ok inc) :
    minimumPairedOrderNotional p spotPrice perpPrice fee
      = .ok (minimumBase p spotPrice perpPrice fee inc * spotPrice) := by
  refine raiseIf_bind_eq_ok.mpr ⟨not_not.mpr h.rules, raiseIf_bind_eq_ok.mpr ⟨?_,
    raiseIf_bind_eq_ok.mpr ⟨?_, bind_eq_ok.mpr ⟨inc, hinc, rfl⟩⟩⟩⟩
  · rintro (hle | hle)
    · exact absurd h.spotPrice (not_lt_of_ge hle)
    · exact absurd h.perpPrice (not_lt_of_ge hle)
  · rintro (hlt | hle)
    · exact absurd h.fee.1 (not_le_of_gt hlt)
    · exact absurd h.fee.2 (not_lt_of_ge hle)

/-- What `size_paired_order` returns for a spot quantity. -/
def sizeOf (p : InstrumentPair) (spotPrice perpPrice fee inc spot : ℚ) : PairedOrderSize :=
  let base := floorTo (perpBaseQuantityIncrement p) (spot * (1 - fee))
  { baseQuantity := base
    spotQuantity := spot
    perpQuantity := base / p.perpContractSize
    commonBaseIncrement := inc
    spotNotional := spot * spotPrice
    perpNotional := base * perpPrice }

/-- From the bound on, none of the later checks fails. -/
theorem sizePairedOrder_eq (h : Sizable p spotPrice perpPrice fee)
    (hinc : decimalLcm p.spotQuantityIncrement (perpBaseQuantityIncrement p) = .ok inc)
    {notional : ℚ} (hn : minimumBase p spotPrice perpPrice fee inc * spotPrice ≤ notional) :
    sizePairedOrder p notional spotPrice perpPrice fee
      = .ok (sizeOf p spotPrice perpPrice fee inc (floorTo inc (notional / spotPrice))) := by
  obtain ⟨-, hspotInc, -, hperpInc, hcontract⟩ := InstrumentPair.rules_pos h.rules
  have hpos := decimalLcm_pos hinc
  obtain ⟨hgridSpot, -⟩ := decimalLcm_onGrid hspotInc h.step_pos hinc
  have hle : minimumBase p spotPrice perpPrice fee inc ≤ floorTo inc (notional / spotPrice) := by
    refine OnGrid.le_floorTo hpos ceilTo_onGrid ?_
    rw [le_div_iff₀ h.spotPrice]
    exact hn
  have hm := meets_of_minimumBase_le h hpos hle
  have hnotional : 0 < notional := by
    have hq : 0 < notional / spotPrice := hm.spot_pos.trans_le (floorTo_le hpos)
    exact (div_pos_iff_of_pos_right h.spotPrice).mp hq
  have hperpGrid : OnGrid p.perpQuantityIncrement
      (floorTo (perpBaseQuantityIncrement p) (floorTo inc (notional / spotPrice) * (1 - fee))
        / p.perpContractSize) := by
    refine ⟨⌊floorTo inc (notional / spotPrice) * (1 - fee) / perpBaseQuantityIncrement p⌋, ?_⟩
    rw [div_eq_iff hcontract.ne', mul_assoc]
    rfl
  refine raiseIf_bind_eq_ok.mpr ⟨not_not.mpr h.rules, raiseIf_bind_eq_ok.mpr ⟨?_,
    raiseIf_bind_eq_ok.mpr ⟨?_, bind_eq_ok.mpr ⟨inc, hinc, bind_eq_ok.mpr ⟨_,
      minimumPairedOrderNotional_eq h hinc, raiseIf_bind_eq_ok.mpr ⟨not_lt_of_ge hn,
        raiseIf_bind_eq_ok.mpr ⟨?_, raiseIf_bind_eq_ok.mpr ⟨?_, raiseIf_bind_eq_ok.mpr ⟨?_,
          raiseIf_bind_eq_ok.mpr ⟨?_, raiseIf_bind_eq_ok.mpr ⟨?_, raiseIf_bind_eq_ok.mpr ⟨?_,
            raiseIf_bind_eq_ok.mpr ⟨?_, rfl⟩⟩⟩⟩⟩⟩⟩⟩⟩⟩⟩⟩⟩
  · rintro (hle | hle | hle)
    · exact absurd hnotional (not_lt_of_ge hle)
    · exact absurd h.spotPrice (not_lt_of_ge hle)
    · exact absurd h.perpPrice (not_lt_of_ge hle)
  · rintro (hlt | hle)
    · exact absurd h.fee.1 (not_le_of_gt hlt)
    · exact absurd h.fee.2 (not_lt_of_ge hle)
  · exact not_le_of_gt hm.spot_pos
  · exact not_lt_of_ge hm.spotQuantity
  · exact not_lt_of_ge hm.perpQuantity
  · exact not_not.mpr ((hgridSpot.trans floorTo_onGrid).floorTo_eq hspotInc)
  · exact not_not.mpr (hperpGrid.floorTo_eq hperpInc)
  · exact fun hlt => absurd (hm.spotNotional hlt.1) (not_le_of_gt hlt.2)
  · exact fun hlt => absurd (hm.perpNotional hlt.1) (not_le_of_gt hlt.2)

/-- What is sized at all is sized so. -/
theorem sizePairedOrder_ok {notional : ℚ} {size : PairedOrderSize}
    (hsize : sizePairedOrder p notional spotPrice perpPrice fee = .ok size) :
    Sizable p spotPrice perpPrice fee
      ∧ ∃ inc, decimalLcm p.spotQuantityIncrement (perpBaseQuantityIncrement p) = .ok inc
        ∧ minimumBase p spotPrice perpPrice fee inc * spotPrice ≤ notional
        ∧ size = sizeOf p spotPrice perpPrice fee inc (floorTo inc (notional / spotPrice)) := by
  have hchecks := hsize
  simp only [sizePairedOrder, raiseIf_bind_eq_ok] at hchecks
  obtain ⟨hrules, hpos, hfee, hchecks⟩ := hchecks
  obtain ⟨inc, hinc, hchecks⟩ := bind_eq_ok.mp hchecks
  obtain ⟨minimum, hminimum, hchecks⟩ := bind_eq_ok.mp hchecks
  simp only [raiseIf_bind_eq_ok] at hchecks
  have hsizable : Sizable p spotPrice perpPrice fee := {
    rules := not_not.mp hrules
    spotPrice := not_le.mp fun hle => hpos (.inr (.inl hle))
    perpPrice := not_le.mp fun hle => hpos (.inr (.inr hle))
    fee := ⟨not_lt.mp fun hlt => hfee (.inl hlt), not_le.mp fun hle => hfee (.inr hle)⟩ }
  rw [minimumPairedOrderNotional_eq hsizable hinc] at hminimum
  cases hminimum
  have hn := not_lt.mp hchecks.1
  refine ⟨hsizable, inc, hinc, hn, ?_⟩
  rw [sizePairedOrder_eq hsizable hinc hn] at hsize
  exact (Except.ok.inj hsize).symm

/-- What a size has to do with the notional it was asked for. -/
structure PairedOrderSize.Fits (p : InstrumentPair) (notional fee : ℚ) (size : PairedOrderSize) :
    Prop where
  spotGrid : OnGrid p.spotQuantityIncrement size.spotQuantity
  commonGrid : OnGrid size.commonBaseIncrement size.spotQuantity
  perpGrid : OnGrid p.perpQuantityIncrement size.perpQuantity
  perpBase : size.baseQuantity = size.perpQuantity * p.perpContractSize
  notional : size.spotNotional ≤ notional
  covered : 0 ≤ size.spotQuantity * (1 - fee) - size.baseQuantity
  dust : size.spotQuantity * (1 - fee) - size.baseQuantity < perpBaseQuantityIncrement p

/-- The quantities of a notional fit the rules of the pair and the notional
itself. -/
theorem sizeOf_fits (h : Sizable p spotPrice perpPrice fee)
    (hinc : decimalLcm p.spotQuantityIncrement (perpBaseQuantityIncrement p) = .ok inc)
    (notional : ℚ) :
    (sizeOf p spotPrice perpPrice fee inc (floorTo inc (notional / spotPrice))).Fits p notional fee := by
  obtain ⟨-, hspotInc, -, -, hcontract⟩ := InstrumentPair.rules_pos h.rules
  have hpos := decimalLcm_pos hinc
  exact {
    spotGrid := (decimalLcm_onGrid hspotInc h.step_pos hinc).1.trans floorTo_onGrid
    commonGrid := floorTo_onGrid
    perpGrid := by
      refine ⟨⌊floorTo inc (notional / spotPrice) * (1 - fee) / perpBaseQuantityIncrement p⌋, ?_⟩
      show floorTo _ _ / p.perpContractSize = _
      rw [div_eq_iff hcontract.ne', mul_assoc]
      rfl
    perpBase := (div_mul_cancel₀ _ hcontract.ne').symm
    notional := (le_div_iff₀ h.spotPrice).mp (floorTo_le hpos)
    covered := sub_nonneg.mpr (floorTo_le h.step_pos)
    dust := sub_floorTo_lt h.step_pos }

/-- The minimum notional is exact: a notional is sized if and only if it
reaches the bound, below the bound no quantity on the common grid meets all
minima on both legs, and what is sized lies on both grids and leaves less than
one step of the perpetual uncovered. -/
theorem minimumNotional_exact (h : Sizable p spotPrice perpPrice fee) :
    ∃ minimum inc, minimumPairedOrderNotional p spotPrice perpPrice fee = .ok minimum
      ∧ decimalLcm p.spotQuantityIncrement (perpBaseQuantityIncrement p) = .ok inc
      ∧ (∀ notional, (∃ size, sizePairedOrder p notional spotPrice perpPrice fee = .ok size)
          ↔ minimum ≤ notional)
      ∧ (∀ notional < minimum, ∀ spot base, OnGrid inc spot →
          OnGrid (perpBaseQuantityIncrement p) base → spot * spotPrice ≤ notional →
          ¬Meets p spotPrice perpPrice fee spot base)
      ∧ ∀ notional size, sizePairedOrder p notional spotPrice perpPrice fee = .ok size →
          size.Fits p notional fee := by
  obtain ⟨inc, hinc⟩ := h.exists_inc
  have hmin := minimumPairedOrderNotional_eq h hinc
  have hpos := decimalLcm_pos hinc
  -- Below the bound the notional itself is refused.
  have hbound : ∀ {notional size}, sizePairedOrder p notional spotPrice perpPrice fee = .ok size →
      minimumBase p spotPrice perpPrice fee inc * spotPrice ≤ notional := by
    intro notional size hsize
    simp only [sizePairedOrder, raiseIf_bind_eq_ok] at hsize
    obtain ⟨-, -, -, hsize⟩ := hsize
    obtain ⟨_, -, hsize⟩ := bind_eq_ok.mp hsize
    obtain ⟨minimum, hminimum, hsize⟩ := bind_eq_ok.mp hsize
    rw [hmin] at hminimum
    injection hminimum with hminimum
    rw [hminimum]
    exact le_of_not_gt (raiseIf_bind_eq_ok.mp hsize).1
  refine ⟨_, inc, hmin, hinc, ?_, ?_, ?_⟩
  · intro notional
    constructor
    · rintro ⟨size, hsize⟩
      exact hbound hsize
    · intro hn
      exact ⟨_, sizePairedOrder_eq h hinc hn⟩
  · intro notional hlt spot base hspot hbase hnotional hm
    have hle := hm.minimumBase_le h hpos hspot hbase
    exact absurd ((mul_le_mul_of_nonneg_right hle h.spotPrice.le).trans hnotional) (not_le_of_gt hlt)
  · intro notional size hsize
    have heq := sizePairedOrder_eq h hinc (hbound hsize)
    rw [hsize] at heq
    injection heq with heq
    rw [heq]
    exact sizeOf_fits h hinc notional

end Sizing

namespace Sample

/-- Contracts of ten coins, and minima on both legs. -/
def orderPair : InstrumentPair where
  exchange := .okx
  baseAsset := "ORDER"
  spotSymbol := "ORDER-USDT"
  perpSymbol := "ORDER-USDT-SWAP"
  spotPriceIncrement := 1 / 100000
  spotQuantityIncrement := 1 / 10
  spotMinQuantity := 1
  spotMinNotional := 5
  perpPriceIncrement := 1 / 10000
  perpQuantityIncrement := 1
  perpMinQuantity := 1
  perpMinNotional := 5
  perpContractSize := 10

end Sample

theorem minimumNotional_exact_order :
    ∃ minimum inc, minimumPairedOrderNotional Sample.orderPair (51 / 100) (52 / 100) (1 / 1000)
        = .ok minimum
      ∧ decimalLcm (1 / 10) (perpBaseQuantityIncrement Sample.orderPair) = .ok inc
      ∧ (∀ notional, (∃ size, sizePairedOrder Sample.orderPair notional (51 / 100) (52 / 100) (1 / 1000)
            = .ok size) ↔ minimum ≤ notional)
      ∧ (∀ notional < minimum, ∀ spot base, OnGrid inc spot →
          OnGrid (perpBaseQuantityIncrement Sample.orderPair) base → spot * (51 / 100) ≤ notional →
          ¬Meets Sample.orderPair (51 / 100) (52 / 100) (1 / 1000) spot base)
      ∧ ∀ notional size, sizePairedOrder Sample.orderPair notional (51 / 100) (52 / 100) (1 / 1000)
          = .ok size → size.Fits Sample.orderPair notional (1 / 1000) :=
  minimumNotional_exact ⟨by decide +kernel, by norm_num, by norm_num, by norm_num⟩

end BasisHawk.Planning
