/-
  BasisHawk.Domain.Market
  ───────────────────────
  Market data and trading rules (`models.py`, `order_books.py`,
  `sizing.py`), as far as an order is priced and sized from them.

  Main results:
    • `InstrumentPair.rules_pos` — complete rules have positive increments,
    • `protectiveLimitPrice_pos` — an accepted protective price is positive.
-/
import BasisHawk.Domain.Basic
import BasisHawk.Lib.Transaction

namespace BasisHawk.Domain

open Lib

/-- `InstrumentPair`. -/
structure InstrumentPair where
  exchange : Exchange
  baseAsset : String
  spotSymbol : String
  perpSymbol : String
  spotPriceIncrement : ℚ
  spotQuantityIncrement : ℚ
  spotMinQuantity : ℚ
  spotMinNotional : ℚ
  perpPriceIncrement : ℚ
  perpQuantityIncrement : ℚ
  perpMinQuantity : ℚ
  perpMinNotional : ℚ
  perpContractSize : ℚ
  deriving DecidableEq

/-- `InstrumentPair.trading_rules_complete`. -/
def InstrumentPair.tradingRulesComplete (p : InstrumentPair) : Bool :=
  0 < p.spotPriceIncrement && 0 < p.spotQuantityIncrement && 0 < p.perpPriceIncrement
    && 0 < p.perpQuantityIncrement && 0 < p.perpContractSize

/-- Complete trading rules have positive increments and a positive contract
size: a missing one is zero, and the check is on its truth. -/
theorem InstrumentPair.rules_pos {p : InstrumentPair} (h : p.tradingRulesComplete) :
    0 < p.spotPriceIncrement ∧ 0 < p.spotQuantityIncrement ∧ 0 < p.perpPriceIncrement
      ∧ 0 < p.perpQuantityIncrement ∧ 0 < p.perpContractSize := by
  simp only [tradingRulesComplete, Bool.and_eq_true, decide_eq_true_eq] at h
  obtain ⟨⟨⟨⟨h₁, h₂⟩, h₃⟩, h₄⟩, h₅⟩ := h
  exact ⟨h₁, h₂, h₃, h₄, h₅⟩

/-- The fields of `Opportunity` that the executors read. -/
structure Opportunity where
  exchange : Exchange
  baseAsset : String
  observedAt : Int
  spotBid : ℚ
  spotAsk : ℚ
  perpBid : ℚ
  perpAsk : ℚ
  quality : Quality
  deriving DecidableEq

/-- `OrderBookSnapshot`. -/
structure OrderBookSnapshot where
  bids : List ℚ
  asks : List ℚ
  observedAt : Int
  deriving DecidableEq

/-- `OrderBookSnapshot.maker_price`. -/
def OrderBookSnapshot.makerPrice (b : OrderBookSnapshot) (side : Side) (level : Nat) :
    Except Exc ℚ := do
  raiseIf (level < 1) (.value "order-book level must be positive")
  let prices := match side with
    | .buy => b.bids
    | .sell => b.asks
  found prices[level - 1]? (.ofKind .orderBookUnavailable
    ("order book has fewer than " ++ toString level ++ " executable levels"))

/-- `protective_limit_price`. -/
def protectiveLimitPrice (referencePrice maximumSlippage : ℚ) (side : Side)
    (priceIncrement : ℚ) : Except Exc ℚ := do
  raiseIf (referencePrice ≤ 0 ∨ priceIncrement ≤ 0)
    (.value "reference price and increment must be positive")
  raiseIf (maximumSlippage < 0 ∨ 1 ≤ maximumSlippage)
    (.value "maximum slippage must be between zero and one")
  let increments : Int := match side with
    | .buy => ⌊referencePrice * (1 + maximumSlippage) / priceIncrement⌋
    | .sell => ⌈referencePrice * (1 - maximumSlippage) / priceIncrement⌉
  let result := increments * priceIncrement
  raiseIf (result ≤ 0) (.value "protective limit price is not positive")
  return result

/-- A protective limit price is positive where it is computed at all. -/
theorem protectiveLimitPrice_pos {referencePrice maximumSlippage priceIncrement p : ℚ} {side : Side}
    (h : protectiveLimitPrice referencePrice maximumSlippage side priceIncrement = .ok p) :
    0 < p := by
  simp only [protectiveLimitPrice, raiseIf_bind_eq_ok] at h
  obtain ⟨-, -, hpos, h⟩ := h
  injection h with h
  rw [← h]
  exact lt_of_not_ge hpos

end BasisHawk.Domain
