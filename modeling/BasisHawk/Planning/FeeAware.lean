/-
  BasisHawk.Planning.FeeAware
  ───────────────────────────
  What becomes of an opening that is sized for a spot fee in the base asset
  (`sizing.py`, `storage.py`).

  The perpetual is sized to what the planned fee leaves of the spot quantity.
  Whatever part of it is charged, the rest stays within the residual that the
  settlement allows.

  Main results:
    • `fee_aware_open_iff` — the filled pair is hedged without a protection leg,
      provided its fees have a value in USDT,
    • `fee_aware_review` — a perpetual fee in another asset.
-/
import BasisHawk.Planning.MinimumNotional
import BasisHawk.Paired.Readings

namespace BasisHawk.Planning

open Domain Lib
open Paired (TradeIntentRow OrderLegRow PairedPositionRow FillRow Layout Ledger OpenPlan OpenReading
  OpenVerdict WellFormed)

/-! ## §1. Fees. -/

/-- The fee is zero, or in an asset that `_live_fees_usdt` values. -/
def Valued (baseAsset : String) (f : FillRow) : Prop :=
  f.feeAmount = 0 ∨ sameUpper f.feeAsset "USDT" ∨ sameUpper f.feeAsset "USD"
    ∨ sameUpper f.feeAsset baseAsset

/-- The fees of an opening can be valued exactly if each fill pays in an asset
with a price. -/
theorem liveFeesUsdt_ok_iff {baseAsset : String} {fills : List FillRow} :
    (∃ fees, Paired.liveFeesUsdt baseAsset fills = .ok fees) ↔ ∀ f ∈ fills, Valued baseAsset f := by
  induction fills with
  | nil => simp [Paired.liveFeesUsdt]
  | cons f rest ih =>
      rw [List.forall_mem_cons, ← ih, Paired.liveFeesUsdt]
      constructor
      · rintro ⟨fees, h⟩
        obtain ⟨others, hothers, h⟩ := bind_eq_ok.mp h
        refine ⟨?_, others, hothers⟩
        -- The branches of the source: a fee of nothing, in dollars, in the base asset, and the
        -- rest.
        unfold Valued
        by_cases hzero : f.feeAmount = 0
        · exact .inl hzero
        · rw [if_neg hzero] at h
          by_cases husd : sameUpper f.feeAsset "USDT" ∨ sameUpper f.feeAsset "USD"
          · exact .inr (husd.elim .inl fun h => .inr (.inl h))
          · rw [if_neg husd] at h
            by_cases hbase : sameUpper f.feeAsset baseAsset
            · exact .inr (.inr (.inr hbase))
            · rw [if_neg hbase] at h
              cases h
      · rintro ⟨hvalued, others, hothers⟩
        rw [hothers]
        show ∃ fees, (if f.feeAmount = 0 then (pure others : Except Exc ℚ) else _) = .ok fees
        -- The other way each branch yields a fee.
        by_cases hzero : f.feeAmount = 0
        · exact ⟨_, by rw [if_pos hzero]; rfl⟩
        · rw [if_neg hzero]
          by_cases husd : sameUpper f.feeAsset "USDT" ∨ sameUpper f.feeAsset "USD"
          · exact ⟨_, by rw [if_pos husd]; rfl⟩
          · rw [if_neg husd]
            have hbase : sameUpper f.feeAsset baseAsset := by
              rcases hvalued with h | h | h | h
              · exact absurd h hzero
              · exact absurd (.inl h) husd
              · exact absurd (.inr h) husd
              · exact h
            exact ⟨_, by rw [if_pos hbase]; rfl⟩

/-! ## §2. The rows of a plan. -/

/-- The intent and its primary legs ask for what was sized. -/
structure PlannedAs (pair : InstrumentPair) (size : PairedOrderSize) (intent : TradeIntentRow)
    (spot perp : OrderLegRow) : Prop where
  spotQuantity : spot.quantity = size.spotQuantity
  spotMultiplier : spot.baseMultiplier = 1
  perpQuantity : perp.quantity = size.perpQuantity
  perpMultiplier : perp.baseMultiplier = pair.perpContractSize
  perpSymbol : perp.symbol = pair.perpSymbol
  baseQuantity : intent.baseQuantity = size.baseQuantity

/-- Both primary legs are over, and filled. -/
structure FilledUp (y : Layout) : Prop where
  terminal : y.isTerminal = true
  spot : y.spot.filledQuantity = y.spot.quantity
  perp : y.perp.filledQuantity = y.perp.quantity

/-! ## §3. The settlement. -/

section Settlement

variable {seen : List PairedPositionRow} {l l' : Ledger} {intentId : Nat} {now : Int} {r : OpenReading}
  {pair : InstrumentPair} {size : PairedOrderSize} {notional spotPrice perpPrice fee : ℚ}

/-- The spot leg of an opening intent buys. -/
theorem spot_buys (hw : WellFormed seen l) (hr : l.openReading intentId = some r) :
    r.layout.spot.side = .buy := by
  obtain ⟨hintent, -, hsettleable, hy⟩ := Paired.Ledger.openReading_some.mp hr
  obtain ⟨hname, -⟩ := Paired.layout_legs hy
  obtain ⟨hs, hs_intent⟩ := Paired.mem_layout hy
    (show r.layout.spot ∈ r.layout.legs by simp [Layout.legs])
  have hfits := hw.fits (Table.find?_some hintent).1 hs hs_intent
  rw [hfits.side, hname, hsettleable.2.1]
  rfl

/-- What the fee leaves covers the perpetual, and exceeds it by less than was
planned. -/
theorem fee_aware_hedged (hsize : sizePairedOrder pair notional spotPrice perpPrice fee = .ok size)
    (hplan : PlannedAs pair size r.intent r.layout.spot r.layout.perp) (hfee : r.intent.spotBuyFeeInBase)
    (hfull : FilledUp r.layout) {charged : ℚ}
    (hcharged : 0 < charged ∧ charged ≤ fee * size.spotQuantity) :
    Paired.feeAwareOpenIsHedged r.intent r.layout (r.layout.spot.filledBase - charged)
      ∧ r.layout.perp.filledBase = size.baseQuantity
      ∧ size.baseQuantity ≤ r.layout.spot.filledBase - charged := by
  obtain ⟨hsizable, inc, hinc, -, rfl⟩ := sizePairedOrder_ok hsize
  have hfits := sizeOf_fits hsizable hinc notional
  -- Both legs are filled as they were sized.
  have hspot : r.layout.spot.filledBase
      = (sizeOf pair spotPrice perpPrice fee inc (floorTo inc (notional / spotPrice))).spotQuantity := by
    unfold OrderLegRow.filledBase
    rw [hfull.spot, hplan.spotQuantity, hplan.spotMultiplier, mul_one]
  have hperp : r.layout.perp.filledBase
      = (sizeOf pair spotPrice perpPrice fee inc (floorTo inc (notional / spotPrice))).baseQuantity := by
    unfold OrderLegRow.filledBase
    rw [hfull.perp, hplan.perpQuantity, hplan.perpMultiplier, hfits.perpBase]
  generalize sizeOf pair spotPrice perpPrice fee inc (floorTo inc (notional / spotPrice)) = size
    at *
  have hcovered := hfits.covered
  -- The bound on the fee is a bound on what is missing of the spot leg.
  have hbase : r.layout.spot.base = size.spotQuantity := by
    unfold OrderLegRow.base
    rw [hplan.spotQuantity, hplan.spotMultiplier, mul_one]
  have hle : size.baseQuantity ≤ r.layout.spot.filledBase - charged := by
    rw [hspot]
    linarith [hcharged.2]
  -- The conditions of `_fee_aware_open_is_hedged`, in its order.
  refine ⟨⟨hfee, ?_, hfull.spot, hfull.perp, ?_, ?_, ?_⟩, hperp, hle⟩
  · rw [hbase, hplan.baseQuantity]
    linarith [hcharged.1, hcharged.2]
  · rw [Paired.numericEqual_iff, hperp, hplan.baseQuantity, sub_self, abs_zero]
    norm_num
  · rw [hperp]
    exact hle
  · rw [hspot, hperp, hbase, hplan.baseQuantity]
    linarith [hcharged.1]

/-- The decision on such an opening: hedged if its fees have a value, and left to
a person otherwise. -/
theorem fee_aware_decision (hw : WellFormed seen l) (hr : l.openReading intentId = some r)
    (hsize : sizePairedOrder pair notional spotPrice perpPrice fee = .ok size)
    (hplan : PlannedAs pair size r.intent r.layout.spot r.layout.perp) (hfee : r.intent.spotBuyFeeInBase)
    (hfull : FilledUp r.layout)
    (hcharged : 0 < Paired.spotBaseFee r.intent.baseAsset (l.fillsOfLeg r.layout.spot.id)
      ∧ Paired.spotBaseFee r.intent.baseAsset (l.fillsOfLeg r.layout.spot.id)
        ≤ fee * size.spotQuantity) :
    (∃ s p cost, l.openDecision r = .ok (.hedge size.baseQuantity s p cost)
        ∧ ∀ f ∈ l.fillsOfIntent r.intent.id, Valued r.intent.baseAsset f)
      ∨ (l.openDecision r = .ok .review
        ∧ ¬∀ f ∈ l.fillsOfIntent r.intent.id, Valued r.intent.baseAsset f) := by
  obtain ⟨hhedged, hperp, hle⟩ := fee_aware_hedged hsize hplan hfee hfull hcharged
  obtain ⟨hspotPos, hbasePos, hperpPos⟩ := sizePairedOrder_pos hsize
  have hspotBase : Paired.spotBaseAfterFee r.layout.spot
        (Paired.spotBaseFee r.intent.baseAsset (l.fillsOfLeg r.layout.spot.id))
      = r.layout.spot.filledBase
        - Paired.spotBaseFee r.intent.baseAsset (l.fillsOfLeg r.layout.spot.id) := by
    unfold Paired.spotBaseAfterFee
    rw [spot_buys hw hr]
  -- Both legs are filled, so both have a price.
  obtain ⟨s, hs⟩ := Option.isSome_iff_exists.mp (r.layout.spot.average_iff.mpr (by
    rw [hfull.spot, hplan.spotQuantity]
    exact hspotPos))
  obtain ⟨p, hp⟩ := Option.isSome_iff_exists.mp (r.layout.perp.average_iff.mpr (by
    rw [hfull.perp, hplan.perpQuantity]
    exact hperpPos))
  -- The decision takes the balanced branch.
  have hbalanced : l.openDecision r = .ok (Paired.openBalanced r.intent r.layout
      (r.layout.spot.filledBase
        - Paired.spotBaseFee r.intent.baseAsset (l.fillsOfLeg r.layout.spot.id))
      r.layout.perp.filledBase (l.fillsOfIntent r.intent.id)) := by
    unfold Ledger.openDecision Paired.openVerdict
    rw [if_neg (not_not.mpr hfull.terminal)]
    dsimp only
    rw [hspotBase, if_neg (not_lt.mpr (hbasePos.le.trans hle)), if_neg, if_neg]
    · exact fun h => h.2 hhedged
    · rintro ⟨-, hzero⟩
      rw [hperp] at hzero
      exact hbasePos.ne' hzero
  rw [hbalanced]
  unfold Paired.openBalanced
  rw [hs, hp, hperp, min_eq_right hle]
  dsimp only
  -- What is left is whether every fee can be valued.
  cases hfees : Paired.liveFeesUsdt r.intent.baseAsset (l.fillsOfIntent r.intent.id) with
  | error e =>
      refine .inr ⟨rfl, fun hvalued => ?_⟩
      obtain ⟨fees, hok⟩ := liveFeesUsdt_ok_iff.mpr hvalued
      rw [hfees] at hok
      cases hok
  | ok fees => exact .inl ⟨s, p, fees, rfl, liveFeesUsdt_ok_iff.mp ⟨fees, hfees⟩⟩

/-- The intent is settled as hedged: one new position of the planned base
quantity, and the legs as they were. -/
structure Hedges (l : Ledger) (intentId : Nat) (now : Int) (quantity : ℚ) (p : PairedPositionRow)
    (l' : Ledger) : Prop where
  settled : ∃ intent, Ledger.settleLiveOpen intentId now l = .ok (some (intent, some p, true), l')
    ∧ intent.status = .hedged ∧ intent ∈ l'.intents ∧ p.openingIntentId = intent.id
  quantity : p.quantity = quantity
  positions : l'.positions = l.positions ++ [p]
  legs : l'.legs = l.legs

/-- An opening sized for a fee in the base asset, both legs filled and at most
the planned fee charged, is hedged at its base quantity without a protection leg
exactly if all its fees have a value in USDT; otherwise the stored intent goes to
manual review, without a position and without a protection leg. -/
theorem fee_aware_open_iff (hw : WellFormed seen l) (hr : l.openReading intentId = some r)
    (hsize : sizePairedOrder pair notional spotPrice perpPrice fee = .ok size)
    (hplan : PlannedAs pair size r.intent r.layout.spot r.layout.perp) (hfee : r.intent.spotBuyFeeInBase)
    (hfull : FilledUp r.layout)
    (hcharged : 0 < Paired.spotBaseFee r.intent.baseAsset (l.fillsOfLeg r.layout.spot.id)
      ∧ Paired.spotBaseFee r.intent.baseAsset (l.fillsOfLeg r.layout.spot.id)
        ≤ fee * size.spotQuantity) :
    ((∃ p l', Hedges l intentId now size.baseQuantity p l')
        ↔ ∀ f ∈ l.fillsOfIntent r.intent.id, Valued r.intent.baseAsset f)
      ∧ ((¬∀ f ∈ l.fillsOfIntent r.intent.id, Valued r.intent.baseAsset f) →
        ∃ intent l', Ledger.settleLiveOpen intentId now l = .ok (some (intent, none, true), l')
          ∧ intent.status = .manualReview ∧ intent ∈ l'.intents ∧ l'.positions = l.positions
          ∧ l'.legs = l.legs) := by
  obtain ⟨hintent, -⟩ := Paired.Ledger.openReading_some.mp hr
  -- Either way the settlement writes the intent back.
  have hstored : ∀ status code,
      (l.moveIntent r.intent status code).1 ∈ (l.moveIntent r.intent status code).2.intents :=
    fun status code => Table.mem_put.mpr (.inl ⟨rfl, r.intent, (Table.find?_some hintent).1, rfl⟩)
  rcases fee_aware_decision hw hr hsize hplan hfee hfull hcharged with
    ⟨s, p, cost, hdecision, hvalued⟩ | ⟨hdecision, hvalued⟩
  · have hsettle := @Paired.Ledger.settleLiveOpen_eq l intentId now r _ hr hdecision
    refine ⟨iff_of_true ?_ hvalued, fun hnot => absurd hvalued hnot⟩
    exact ⟨_, _, ⟨_, hsettle, rfl, hstored _ _, rfl⟩, rfl, rfl, rfl⟩
  · have hsettle := @Paired.Ledger.settleLiveOpen_eq l intentId now r _ hr hdecision
    refine ⟨iff_of_false ?_ hvalued, fun _ => ⟨_, _, hsettle, rfl, hstored _ _, rfl, rfl⟩⟩
    rintro ⟨p, l', ⟨intent, hhedged, -⟩, -⟩
    rw [hsettle] at hhedged
    cases hhedged

end Settlement

/-! ## §4. A pair in whole and in tenth coins. -/

namespace Sample

/-- Spot trades in whole coins, the perpetual in tenths. -/
def feePair : InstrumentPair where
  exchange := .binance
  baseAsset := "ABC"
  spotSymbol := "ABCUSDT"
  perpSymbol := "ABCUSDT"
  spotPriceIncrement := 1
  spotQuantityIncrement := 1
  spotMinQuantity := 1
  spotMinNotional := 5
  perpPriceIncrement := 1
  perpQuantityIncrement := 1 / 10
  perpMinQuantity := 1 / 10
  perpMinNotional := 5
  perpContractSize := 1

/-- Ten coins, of which a thousandth is charged. -/
def feeSize : PairedOrderSize where
  baseQuantity := 99 / 10
  spotQuantity := 10
  perpQuantity := 99 / 10
  commonBaseIncrement := 1
  spotNotional := 1000
  perpNotional := 990

theorem feeSize_eq : sizePairedOrder feePair 1000 100 100 (1 / 1000) = .ok feeSize := by
  decide +kernel

def feePlan : OpenPlan :=
  { Paired.Sample.openPlan with
    baseQuantity := 99 / 10
    spotBuyFeeInBase := true
    spotQuantity := 10
    perpQuantity := 99 / 10
    spot_pos := by decide +kernel
    perp_pos := by decide +kernel }

/-- Both legs fill; a hundredth of a coin is charged on the spot leg, and one
unit of `feeAsset` on the perpetual. -/
def feeFills (feeAsset : String) : List (Paired.TradeOp × Int) :=
  [(.createOpen feePlan, 0), (.prepareSubmission 0 none, 0),
    (.persistFills 1 [Paired.Sample.fill .spot .buy "s" 10 100 (1 / 100)], 0),
    (.persistFills 2 [{ Paired.Sample.fill .perp .sell "p" (99 / 10) 100 1 with feeAsset }], 0)]

/-- The reading is of the sized intent, filled, with a hundredth charged. -/
def IsFeeReading (l : Ledger) (r : OpenReading) : Prop :=
  (r.layout.spot.quantity = 10 ∧ r.layout.spot.baseMultiplier = 1 ∧ r.layout.perp.quantity = 99 / 10
      ∧ r.layout.perp.baseMultiplier = 1 ∧ r.layout.perp.symbol = "ABCUSDT"
      ∧ r.intent.baseQuantity = 99 / 10 ∧ r.intent.spotBuyFeeInBase = true)
    ∧ (r.layout.isTerminal = true ∧ r.layout.spot.filledQuantity = r.layout.spot.quantity
      ∧ r.layout.perp.filledQuantity = r.layout.perp.quantity)
    ∧ Paired.spotBaseFee r.intent.baseAsset (l.fillsOfLeg r.layout.spot.id) = 1 / 100

instance (l : Ledger) (r : OpenReading) : Decidable (IsFeeReading l r) :=
  inferInstanceAs (Decidable (_ ∧ _ ∧ _))

/-- The sample's opening is planned as the claim assumes. -/
theorem IsFeeReading.plannedAs {l : Ledger} {r : OpenReading} (h : IsFeeReading l r) :
    PlannedAs feePair feeSize r.intent r.layout.spot r.layout.perp :=
  ⟨h.1.1, h.1.2.1, h.1.2.2.1, h.1.2.2.2.1, h.1.2.2.2.2.1, h.1.2.2.2.2.2.1⟩

/-- Its spot fills are charged in the base asset, within the fee rate. -/
theorem IsFeeReading.charged {l : Ledger} {r : OpenReading} (h : IsFeeReading l r) :
    0 < Paired.spotBaseFee r.intent.baseAsset (l.fillsOfLeg r.layout.spot.id)
      ∧ Paired.spotBaseFee r.intent.baseAsset (l.fillsOfLeg r.layout.spot.id)
        ≤ 1 / 1000 * feeSize.spotQuantity := by
  rw [h.2.2]
  decide +kernel

/-- What the settlement makes of the intent: its status, the quantity of its
position and the number of its legs. -/
def feeOutcome (l : Ledger) : Option (Paired.IntentStatus × Option ℚ × Nat) :=
  match Ledger.settleLiveOpen 0 0 l with
  | .ok (some (intent, p, true), l') => some (intent.status, p.map (·.quantity), l'.legs.length)
  | _ => none

end Sample

/-- With the perpetual fee in another asset the filled pair goes to manual
review. -/
theorem fee_aware_review :
    sizePairedOrder Sample.feePair 1000 100 100 (1 / 1000) = .ok Sample.feeSize
      ∧ ∃ b, Paired.Reachable b
        ∧ (∃ r ∈ b.ledger.openReading 0, Sample.IsFeeReading b.ledger r)
        ∧ Sample.feeOutcome b.ledger = some (.manualReview, none, 2) := by
  refine ⟨Sample.feeSize_eq, ?_⟩
  exact Paired.Books.exists_of_play
    (fun b => (∃ r ∈ b.ledger.openReading 0, Sample.IsFeeReading b.ledger r)
      ∧ Sample.feeOutcome b.ledger = some (.manualReview, none, 2))
    (Sample.feeFills "BNB") (by decide +kernel)

theorem fee_aware_open_usdt :
    ∃ b r, Paired.Reachable b ∧ b.ledger.openReading 0 = some r
      ∧ ((∃ p l', Hedges b.ledger 0 0 (99 / 10) p l')
          ↔ ∀ f ∈ b.ledger.fillsOfIntent r.intent.id, Valued r.intent.baseAsset f)
      ∧ ((¬∀ f ∈ b.ledger.fillsOfIntent r.intent.id, Valued r.intent.baseAsset f) →
        ∃ intent l', Ledger.settleLiveOpen 0 0 b.ledger = .ok (some (intent, none, true), l')
          ∧ intent.status = .manualReview ∧ intent ∈ l'.intents
          ∧ l'.positions = b.ledger.positions ∧ l'.legs = b.ledger.legs) := by
  obtain ⟨b, hb, r, hr, hreading⟩ := Paired.Books.exists_of_play
    (fun b => ∃ r ∈ b.ledger.openReading 0, Sample.IsFeeReading b.ledger r)
    (Sample.feeFills "USDT") (by decide +kernel)
  exact ⟨b, r, hb, hr, fee_aware_open_iff hb.wellFormed hr Sample.feeSize_eq hreading.plannedAs
    hreading.1.2.2.2.2.2.2 ⟨hreading.2.1.1, hreading.2.1.2.1, hreading.2.1.2.2⟩ hreading.charged⟩

end BasisHawk.Planning
