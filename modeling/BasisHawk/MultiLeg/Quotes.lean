/-
  BasisHawk.MultiLeg.Quotes
  ─────────────────────────
  `LatestOpportunityLiveQuoteProvider`: the market of a leg, and the size and
  price of its next order.

  Main results:
    • `quoteOrder_yields` — quoting only reads market data, and a quoted order
      is a positive quantity worth at most the base quantity asked for,
    • `resolveLeg_yields` — so does resolving a leg.
-/
import BasisHawk.MultiLeg.Operations

namespace BasisHawk.MultiLeg

open Domain Lib Accounts

/-! ## §1. The provider. -/

/-- `ResolvedLegMarket`. -/
structure ResolvedLegMarket where
  baseQuantity : ℚ
  baseMultiplier : ℚ
  referencePrice : ℚ
  observedAt : Int

/-- `LiveOrderQuote`. -/
structure LiveOrderQuote where
  nativeQuantity : ℚ
  baseMultiplier : ℚ
  limitPrice : Option ℚ
  observedAt : Int

/-- Five seconds, in microseconds. -/
def futureTolerance : Int := 5000000

/-- The default `maximum_age`, in microseconds. -/
def maximumAge : Int := 15000000

/-- The price a leg's side takes. -/
def takingPrice (marketType : MarketType) (side : Side) (o : Opportunity) : ℚ :=
  match marketType, side with
  | .spot, .buy => o.spotAsk
  | .spot, .sell => o.spotBid
  | .perpetual, .buy => o.perpAsk
  | .perpetual, .sell => o.perpBid

/-- The base quantity of one native unit. -/
def baseMultiplier (marketType : MarketType) (pair : InstrumentPair) : ℚ :=
  match marketType with
  | .spot => 1
  | .perpetual => pair.perpContractSize

def quantityIncrement (marketType : MarketType) (pair : InstrumentPair) : ℚ :=
  match marketType with
  | .spot => pair.spotQuantityIncrement
  | .perpetual => pair.perpQuantityIncrement

def priceIncrement (marketType : MarketType) (pair : InstrumentPair) : ℚ :=
  match marketType with
  | .spot => pair.spotPriceIncrement
  | .perpetual => pair.perpPriceIncrement

def expectedSymbol (marketType : MarketType) (pair : InstrumentPair) : String :=
  match marketType with
  | .spot => pair.spotSymbol
  | .perpetual => pair.perpSymbol

/-- `_rules`. -/
def rules (leg : ExecutionTaskLegRow) : Worker InstrumentPair := do
  let pairs ← ask (.instrumentPairs leg.exchange)
  match pairs.find? (fun p => sameUpper p.baseAsset leg.baseAsset) with
  | none => throw (.value "live instrument rules are incomplete")
  | some pair =>
      if !pair.tradingRulesComplete then
        throw (.value "live instrument rules are incomplete")
      else if leg.symbol ≠ expectedSymbol leg.marketType pair then
        throw (.value "task-leg symbol does not match instrument rules")
      else pure pair

/-- `_market`. -/
def market (leg : ExecutionTaskLegRow) : Worker (Opportunity × InstrumentPair) := do
  let opportunities ← ask (.latestOpportunities leg.exchange)
  match opportunities.find? (fun o => sameUpper o.baseAsset leg.baseAsset) with
  | none => throw (.value "healthy live quote is unavailable")
  | some opportunity =>
      if opportunity.quality ≠ .healthy then
        throw (.value "healthy live quote is unavailable")
      else do
        let now ← ask .now
        if now + futureTolerance < opportunity.observedAt
            ∨ maximumAge < now - opportunity.observedAt then
          throw (.value "live quote is stale")
        else do
          let pair ← rules leg
          return (opportunity, pair)

/-- The resolved market of a leg, from its opportunity and rules. -/
def resolveFrom (leg : ExecutionTaskLegRow) (quantityMode : QuantityMode) (o : Opportunity)
    (pair : InstrumentPair) : Except Exc ResolvedLegMarket := do
  let reference := takingPrice leg.marketType leg.side o
  let multiplier := baseMultiplier leg.marketType pair
  raiseIf (quantityMode = .usdt ∧ reference = 0) (.ofKind .arithmetic "division by zero")
  let requestedBase := match quantityMode with
    | .base => leg.targetQuantity
    | .usdt => leg.targetQuantity / reference
  let native ← floorToIncrement (requestedBase / multiplier) (quantityIncrement leg.marketType pair)
  raiseIf (native ≤ 0) (.value "resolved order quantity is below the exchange increment")
  let base := native * multiplier
  let (minimumQuantity, minimumNotional) := match leg.marketType with
    | .spot => (pair.spotMinQuantity, pair.spotMinNotional)
    | .perpetual => (pair.perpMinQuantity, pair.perpMinNotional)
  raiseIf (native < minimumQuantity) (.value "resolved order quantity is below the exchange minimum")
  raiseIf (base * reference < minimumNotional)
    (.value "resolved order notional is below the exchange minimum")
  return ⟨base, multiplier, reference, o.observedAt⟩

/-- `resolve_leg`. -/
def resolveLeg (leg : ExecutionTaskLegRow) (quantityMode : QuantityMode) :
    Worker ResolvedLegMarket := do
  let (opportunity, pair) ← market leg
  pyEval (resolveFrom leg quantityMode opportunity pair)

/-- The native quantity of an order. -/
def nativeQuantity (leg : ExecutionTaskLegRow) (pair : InstrumentPair) (baseQuantity : ℚ) :
    Except Exc ℚ := do
  let native ← floorToIncrement (baseQuantity / baseMultiplier leg.marketType pair)
    (quantityIncrement leg.marketType pair)
  raiseIf (native ≤ 0) (.value "remaining quantity is below the exchange increment")
  return native

/-- A limit price must be positive. -/
def quoteFrom (native multiplier : ℚ) (limitPrice : Option ℚ) (observedAt : Int) :
    Except Exc LiveOrderQuote := do
  raiseIf (∃ p ∈ limitPrice, p ≤ 0) (.value "resolved order price must be positive")
  return ⟨native, multiplier, limitPrice, observedAt⟩

/-- `quote_order`. -/
def quoteOrder (leg : ExecutionTaskLegRow) (baseQuantity : ℚ) (mode : OrderMode)
    (environment : ExchangeEnvironment) (orderSide : Side) : Worker LiveOrderQuote :=
  match mode with
  | .maker => do
      let pair ← rules leg
      let native ← pyEval (nativeQuantity leg pair baseQuantity)
      -- `leg.maker_book_level or 1`: zero falls back too.
      let level := (leg.makerBookLevel.filter (· ≠ 0)).getD 1
      let book ← ask (.fetchBook leg.exchange environment leg.marketType.market leg.symbol level)
      let price ← pyEval (book.makerPrice orderSide level)
      pyEval (quoteFrom native (baseMultiplier leg.marketType pair) (some price) book.observedAt)
  | .market => do
      let (opportunity, pair) ← market leg
      let native ← pyEval (nativeQuantity leg pair baseQuantity)
      pyEval (quoteFrom native (baseMultiplier leg.marketType pair) none opportunity.observedAt)
  | .protectedIoc => do
      let (opportunity, pair) ← market leg
      let native ← pyEval (nativeQuantity leg pair baseQuantity)
      let price ← pyEval (protectiveLimitPrice (takingPrice leg.marketType orderSide opportunity)
        leg.maximumSlippage orderSide (priceIncrement leg.marketType pair))
      pyEval (quoteFrom native (baseMultiplier leg.marketType pair) (some price)
        opportunity.observedAt)

/-! ## §2. What quoting reads and returns. -/

/-- The reads of market data. -/
def Op.isQuote : Op → Prop
  | .out .now | .out (.latestOpportunities _) | .out (.instrumentPairs _) | .out (.fetchBook ..) =>
      True
  | _ => False

/-- A question to the outside world is a quote. -/
theorem ask_yields (o : OutOp) (h : Op.isQuote (.out o)) :
    (ask o).Yields Op.isQuote fun _ => True :=
  .call h fun _ => .done fun _ _ => trivial

/-- The rules that a leg is quoted under are complete. -/
theorem rules_yields (leg : ExecutionTaskLegRow) :
    (rules leg).Yields Op.isQuote fun pair => pair.tradingRulesComplete := by
  refine (ask_yields (.instrumentPairs _) trivial).bind fun pairs _ => ?_
  cases pairs.find? (fun p => sameUpper p.baseAsset leg.baseAsset) with
  | none => exact .raise
  | some pair =>
      dsimp only
      split
      · exact .raise
      · next hc =>
          split
          · exact .raise
          · exact .value (by simpa using hc)

/-- So are those of the market that is found for it. -/
theorem market_yields (leg : ExecutionTaskLegRow) :
    (market leg).Yields Op.isQuote fun m => m.2.tradingRulesComplete := by
  refine (ask_yields (.latestOpportunities _) trivial).bind fun opportunities _ => ?_
  cases opportunities.find? (fun o => sameUpper o.baseAsset leg.baseAsset) with
  | none => exact .raise
  | some opportunity =>
      dsimp only
      split
      · exact .raise
      · refine (ask_yields .now trivial).bind fun now _ => ?_
        split
        · exact .raise
        · exact (rules_yields leg).bind fun pair hpair => .value hpair

/-- With complete rules, a native unit is worth something. -/
theorem baseMultiplier_pos {pair : InstrumentPair} (h : pair.tradingRulesComplete)
    (marketType : MarketType) : 0 < baseMultiplier marketType pair := by
  cases marketType with
  | spot => exact one_pos
  | perpetual => exact (InstrumentPair.rules_pos h).2.2.2.2

/-- A native quantity is positive and worth at most the base quantity. -/
theorem nativeQuantity_ok {leg : ExecutionTaskLegRow} {pair : InstrumentPair} {base native : ℚ}
    (hpair : pair.tradingRulesComplete) (h : nativeQuantity leg pair base = .ok native) :
    0 < native ∧ native * baseMultiplier leg.marketType pair ≤ base := by
  obtain ⟨n, hn, h⟩ := bind_eq_ok.mp h
  simp only [raiseIf_bind_eq_ok] at h
  obtain ⟨hpos, h⟩ := h
  injection h with h
  subst h
  obtain ⟨hinc, rfl⟩ := floorToIncrement_ok hn
  have hpos := lt_of_not_ge hpos
  refine ⟨hpos, ?_⟩
  rw [← le_div_iff₀ (baseMultiplier_pos hpair _)]
  exact truncTo_le_of_pos hinc hpos

/-- A quote holds what it was computed from. -/
theorem quoteFrom_ok {native multiplier : ℚ} {price : Option ℚ} {t : Int} {q : LiveOrderQuote}
    (h : quoteFrom native multiplier price t = .ok q) :
    q.nativeQuantity = native ∧ q.baseMultiplier = multiplier ∧ q.limitPrice = price := by
  simp only [quoteFrom, raiseIf_bind_eq_ok] at h
  injection h.2 with h
  subst h
  exact ⟨rfl, rfl, rfl⟩

/-- A quote for at most the base quantity asked for. -/
def LiveOrderQuote.FitsIn (base : ℚ) (q : LiveOrderQuote) : Prop :=
  0 < q.nativeQuantity ∧ 0 < q.baseMultiplier ∧ q.nativeQuantity * q.baseMultiplier ≤ base

/-- A quote of the native quantity that the rules of the leg's market make of the
base quantity. -/
def LiveOrderQuote.SizedFor (leg : ExecutionTaskLegRow) (base : ℚ) (q : LiveOrderQuote) : Prop :=
  ∃ pair : InstrumentPair, pair.tradingRulesComplete
    ∧ MultiLeg.nativeQuantity leg pair base = .ok q.nativeQuantity
    ∧ q.baseMultiplier = MultiLeg.baseMultiplier leg.marketType pair

/-- A quote sized for a quantity does not exceed it. -/
theorem LiveOrderQuote.SizedFor.fits {leg : ExecutionTaskLegRow} {base : ℚ} {q : LiveOrderQuote}
    (h : q.SizedFor leg base) : q.FitsIn base := by
  obtain ⟨pair, hpair, hnative, hmult⟩ := h
  obtain ⟨hpos, hle⟩ := nativeQuantity_ok hpair hnative
  unfold FitsIn
  rw [hmult]
  exact ⟨hpos, baseMultiplier_pos hpair _, hle⟩

private theorem quoteFrom_yields {leg : ExecutionTaskLegRow} {pair : InstrumentPair}
    {base native : ℚ} (hpair : pair.tradingRulesComplete)
    (hnative : nativeQuantity leg pair base = .ok native) (price : Option ℚ) (t : Int) :
    (pyEval (quoteFrom native (baseMultiplier leg.marketType pair) price t)).Yields Op.isQuote
      (LiveOrderQuote.SizedFor leg base) := by
  refine .done fun q hq => ?_
  obtain ⟨hn, hm, -⟩ := quoteFrom_ok hq
  exact ⟨pair, hpair, by rw [hn]; exact hnative, hm⟩

/-- A computation that may raise yields its value. -/
theorem pyEval_yields {α : Type} {allowed : Op → Prop} (r : Except Exc α) :
    (pyEval r).Yields allowed fun a => r = .ok a :=
  .done fun _ h => h

/-- Every quote of an order is sized for the base quantity it was asked for,
rounded down to the increment. -/
theorem quoteOrder_sized (leg : ExecutionTaskLegRow) (base : ℚ) (mode : OrderMode)
    (environment : ExchangeEnvironment) (side : Side) :
    (quoteOrder leg base mode environment side).Yields Op.isQuote
      (LiveOrderQuote.SizedFor leg base) := by
  cases mode with
  | maker =>
      refine (rules_yields leg).bind fun pair hpair => ?_
      refine (pyEval_yields _).bind fun native hnative => ?_
      refine (ask_yields (.fetchBook ..) trivial).bind fun book _ => ?_
      exact (pyEval_yields _).bind fun price _ => quoteFrom_yields hpair hnative _ _
  | protectedIoc =>
      refine (market_yields leg).bind fun m hpair => ?_
      refine (pyEval_yields _).bind fun native hnative => ?_
      exact (pyEval_yields _).bind fun price _ => quoteFrom_yields hpair hnative _ _
  | market =>
      refine (market_yields leg).bind fun m hpair => ?_
      exact (pyEval_yields _).bind fun native hnative => quoteFrom_yields hpair hnative _ _

/-- So no quote exceeds what is missing. -/
theorem quoteOrder_yields (leg : ExecutionTaskLegRow) (base : ℚ) (mode : OrderMode)
    (environment : ExchangeEnvironment) (side : Side) :
    (quoteOrder leg base mode environment side).Yields Op.isQuote (LiveOrderQuote.FitsIn base) :=
  (quoteOrder_sized leg base mode environment side).mono (fun _ ho => ho) fun _ hr q hq =>
    (hr q hq).fits

/-- The resolution of a leg's market asks and changes nothing. -/
theorem resolveLeg_yields (leg : ExecutionTaskLegRow) (quantityMode : QuantityMode) :
    (resolveLeg leg quantityMode).Yields Op.isQuote fun _ => True :=
  (market_yields leg).bind fun _ _ => .done fun _ _ => trivial

end BasisHawk.MultiLeg
