/-
  BasisHawk.Planning.Preview
  ──────────────────────────
  What `TradeLedger` (`trading.py`) works out of the market before it stores a
  trade: the previews of live trades and the validation of paper trades.

  A fingerprint is the digest of a JSON object; `Digested` is the object, and
  the digest a parameter.

  Main results:
    • `previewLiveOpen_spec`, `previewLiveClose_spec` — what an accepted preview
      has checked, and where its limits lie.
-/
import BasisHawk.Planning.Sizing
import BasisHawk.Paired.Storage

namespace BasisHawk.Planning

open Domain Lib
open Paired (PairedPositionRow TradeIntentRow OrderLegRow)

/-! ## §1. Inputs. -/

/-- `FeeRate`. -/
structure FeeRate where
  spotTaker : ℚ
  perpTaker : ℚ
  deriving DecidableEq

/-- `ScannerSettings`, whose fees cover every exchange. -/
structure ScannerSettings where
  universeSize : Nat
  minimumQuoteVolume : ℚ
  holdingPeriodDays : Nat
  retentionDays : Nat
  fees : Exchange → FeeRate
  feeCheckedAt : String

/-- The fields of `Opportunity` that a plan reads. -/
structure Opportunity extends Domain.Opportunity where
  spotSymbol : String
  perpSymbol : String
  topBookNotional : ℚ
  closeTopBookNotional : ℚ
  deriving DecidableEq

/-- `_instrument_rules_payload`. -/
structure InstrumentRules where
  spotSymbol : String
  perpSymbol : String
  spotPriceIncrement : ℚ
  spotQuantityIncrement : ℚ
  spotMinQuantity : ℚ
  spotMinNotional : ℚ
  perpPriceIncrement : ℚ
  perpQuantityIncrement : ℚ
  perpMinQuantity : ℚ
  perpMinNotional : ℚ
  perpContractSize : ℚ
  deriving DecidableEq

def instrumentRulesPayload (p : InstrumentPair) : InstrumentRules where
  spotSymbol := p.spotSymbol
  perpSymbol := p.perpSymbol
  spotPriceIncrement := p.spotPriceIncrement
  spotQuantityIncrement := p.spotQuantityIncrement
  spotMinQuantity := p.spotMinQuantity
  spotMinNotional := p.spotMinNotional
  perpPriceIncrement := p.perpPriceIncrement
  perpQuantityIncrement := p.perpQuantityIncrement
  perpMinQuantity := p.perpMinQuantity
  perpMinNotional := p.perpMinNotional
  perpContractSize := p.perpContractSize

/-- The objects `trading.py` takes a SHA-256 digest of. -/
inductive Digested where
  | openConfig (scanner : ScannerSettings) (environment : ExchangeEnvironment) (leverage : Int)
      (maximumSlippage : ℚ) (spotBuyFeeInBase : Bool)
  | closeConfig (scanner : ScannerSettings) (environment : ExchangeEnvironment)
      (maximumSlippage : ℚ) (emergency : Bool)
  | paperConfig (scanner : ScannerSettings)
  | liveOpen (exchange : Exchange) (environment : ExchangeEnvironment) (baseAsset : String)
      (notionalUsdt : ℚ) (leverage : Int) (maximumSlippage : ℚ) (rules : InstrumentRules)
      (configVersion : String) (spotBuyFeeInBase : Bool)
  | liveClose (emergency : Bool) (positionId : Nat) (exchange : Exchange)
      (environment : ExchangeEnvironment) (baseAsset : String) (baseQuantity : ℚ)
      (rules : InstrumentRules) (configVersion : String)
  | paperOpen (exchange : Exchange) (baseAsset : String) (notionalUsdt : ℚ)
      (spotSymbol perpSymbol : String) (spotPrice perpPrice : ℚ) (marketObservedAt : Int)
      (configVersion : String)
  | paperClose (positionId : Nat) (exchange : Exchange) (baseAsset : String) (quantity : ℚ)
      (spotPrice perpPrice : ℚ) (marketObservedAt : Int) (configVersion : String)

/-- Times are in microseconds. -/
def seconds (n : Nat) : Int := n * 1000000

/-- `MANUAL_PREVIEW_TTL`. -/
def manualPreviewTtl : Int := seconds 60

/-- The quote is neither from the future nor stale. -/
def checkQuoteTime (o : Opportunity) (now : Int) : Except Exc Unit := do
  raiseIf (now + seconds 5 < o.observedAt) (.value "market quote timestamp is in the future")
  raiseIf (seconds 15 < now - o.observedAt) (.value "market quote is stale")

/-- The trading rules are those of the opportunity. -/
def checkRules (o : Opportunity) (pair : InstrumentPair) : Except Exc Unit :=
  raiseIf (pair.exchange ≠ o.exchange ∨ pair.baseAsset ≠ o.baseAsset
      ∨ pair.spotSymbol ≠ o.spotSymbol ∨ pair.perpSymbol ≠ o.perpSymbol)
    (.value "instrument rules do not match the selected opportunity")

/-- The exchange has the environment. -/
def checkSandbox (environment : ExchangeEnvironment) (o : Opportunity) : Except Exc Unit :=
  raiseIf (environment = .sandbox ∧ o.exchange = .mexc)
    (.value (o.exchange.name ++ " does not provide a supported sandbox"))

variable (sha256 : Digested → String)

/-! ## §2. Opening. -/

/-- `LiveOpenPreview`. -/
structure LiveOpenPreview where
  requestFingerprint : String
  configVersion : String
  exchange : Exchange
  environment : ExchangeEnvironment
  baseAsset : String
  leverage : Int
  requestedNotional : ℚ
  maximumSlippage : ℚ
  marketObservedAt : Int
  expiresAt : Int
  spotSymbol : String
  spotReferencePrice : ℚ
  spotLimitPrice : ℚ
  spotQuantity : ℚ
  spotUsdtRequired : ℚ
  perpSymbol : String
  perpReferencePrice : ℚ
  perpLimitPrice : ℚ
  perpQuantity : ℚ
  perpBaseMultiplier : ℚ
  perpUsdtMarginRequired : ℚ
  baseQuantity : ℚ
  spotBuyFeeInBase : Bool
  estimatedTotalFeesUsdt : ℚ
  worstCaseBasis : ℚ
  deriving DecidableEq

/-- What an opening trade is asked for with. -/
structure OpenTerms where
  opportunity : Opportunity
  pair : InstrumentPair
  notionalUsdt : ℚ
  settings : ScannerSettings
  environment : ExchangeEnvironment
  leverage : Int
  maximumSlippage : ℚ
  spotBuyFeeInBase : Bool

/-- `config_version` of a live opening. -/
def OpenTerms.configVersion (t : OpenTerms) : String :=
  sha256 (.openConfig t.settings t.environment t.leverage t.maximumSlippage t.spotBuyFeeInBase)

/-- `request_fingerprint` of a live opening. -/
def OpenTerms.fingerprint (t : OpenTerms) : String :=
  sha256 (.liveOpen t.opportunity.exchange t.environment t.opportunity.baseAsset t.notionalUsdt
    t.leverage t.maximumSlippage (instrumentRulesPayload t.pair) (t.configVersion sha256)
    t.spotBuyFeeInBase)

/-- `preview_live_open`. -/
def previewLiveOpen (t : OpenTerms) (now : Int) : Except Exc LiveOpenPreview := do
  let o := t.opportunity
  raiseIf (t.leverage < 1 ∨ 10 < t.leverage) (.value "leverage must be between 1 and 10")
  raiseIf (t.maximumSlippage ≤ 0 ∨ 1 / 10 < t.maximumSlippage)
    (.value "maximum slippage must be above 0 and at most 0.1")
  checkSandbox t.environment o
  checkRules o t.pair
  raiseIf (o.quality ≠ .healthy) (.value "only healthy opportunities can be planned")
  checkQuoteTime o now
  raiseIf (t.notionalUsdt ≤ 0) (.value "notional must be positive")
  raiseIf (o.topBookNotional < t.notionalUsdt) (.value "notional exceeds current top-book capacity")
  let fees := t.settings.fees o.exchange
  let sizing ← sizePairedOrder t.pair t.notionalUsdt o.spotAsk o.perpBid
    (if t.spotBuyFeeInBase then fees.spotTaker else 0)
  let spotLimit ← protectiveLimitPrice o.spotAsk t.maximumSlippage .buy t.pair.spotPriceIncrement
  let perpLimit ← protectiveLimitPrice o.perpBid t.maximumSlippage .sell t.pair.perpPriceIncrement
  let spotNotional := sizing.spotQuantity * spotLimit
  let perpNotional := sizing.baseQuantity * perpLimit
  let spotFee := spotNotional * fees.spotTaker
  let perpFee := perpNotional * fees.perpTaker
  return {
    requestFingerprint := t.fingerprint sha256
    configVersion := t.configVersion sha256
    exchange := o.exchange
    environment := t.environment
    baseAsset := o.baseAsset
    leverage := t.leverage
    requestedNotional := t.notionalUsdt
    maximumSlippage := t.maximumSlippage
    marketObservedAt := o.observedAt
    expiresAt := now + manualPreviewTtl
    spotSymbol := t.pair.spotSymbol
    spotReferencePrice := o.spotAsk
    spotLimitPrice := spotLimit
    spotQuantity := sizing.spotQuantity
    spotUsdtRequired := spotNotional + spotFee
    perpSymbol := t.pair.perpSymbol
    perpReferencePrice := o.perpBid
    perpLimitPrice := perpLimit
    perpQuantity := sizing.perpQuantity
    perpBaseMultiplier := t.pair.perpContractSize
    perpUsdtMarginRequired := perpNotional / t.leverage + perpFee
    baseQuantity := sizing.baseQuantity
    spotBuyFeeInBase := t.spotBuyFeeInBase
    estimatedTotalFeesUsdt := spotFee + perpFee
    worstCaseBasis := (perpLimit - spotLimit) / spotLimit }

/-- What an accepted opening preview has checked, and where its limits lie. -/
structure LiveOpenPreview.Spec (t : OpenTerms) (now : Int) (p : LiveOpenPreview) : Prop where
  fingerprint : p.requestFingerprint = t.fingerprint sha256
  configVersion : p.configVersion = t.configVersion sha256
  leverage : 1 ≤ t.leverage ∧ t.leverage ≤ 10
  spot_pos : 0 < p.spotQuantity ∧ 0 < p.spotLimitPrice
  perp_pos : 0 < p.perpQuantity ∧ 0 < p.perpLimitPrice
  multiplier : p.perpBaseMultiplier = t.pair.perpContractSize ∧ 0 < p.perpBaseMultiplier
  expires : p.expiresAt = now + manualPreviewTtl
  spot_bound : p.spotLimitPrice ≤ t.opportunity.spotAsk * (1 + t.maximumSlippage)
  perp_bound : t.opportunity.perpBid * (1 - t.maximumSlippage) ≤ p.perpLimitPrice

/-- The preview of an opening carries what its confirmation compares later. -/
theorem previewLiveOpen_spec {t : OpenTerms} {now : Int} {p : LiveOpenPreview}
    (h : previewLiveOpen sha256 t now = .ok p) : p.Spec sha256 t now := by
  simp only [previewLiveOpen, raiseIf_bind_eq_ok] at h
  obtain ⟨hlev, -, h⟩ := h
  obtain ⟨-, -, h⟩ := bind_eq_ok.mp h
  obtain ⟨-, -, h⟩ := bind_eq_ok.mp h
  simp only [raiseIf_bind_eq_ok] at h
  obtain ⟨-, h⟩ := h
  obtain ⟨-, -, h⟩ := bind_eq_ok.mp h
  simp only [raiseIf_bind_eq_ok] at h
  obtain ⟨-, -, h⟩ := h
  obtain ⟨sizing, hsize, h⟩ := bind_eq_ok.mp h
  obtain ⟨spotLimit, hspot, h⟩ := bind_eq_ok.mp h
  obtain ⟨perpLimit, hperp, h⟩ := bind_eq_ok.mp h
  injection h with h
  subst h
  obtain ⟨hspotQ, -, hperpQ⟩ := sizePairedOrder_pos hsize
  have hrules := sizePairedOrder_rules hsize
  exact {
    fingerprint := rfl
    configVersion := rfl
    leverage := ⟨by omega, by omega⟩
    spot_pos := ⟨hspotQ, protectiveLimitPrice_pos hspot⟩
    perp_pos := ⟨hperpQ, protectiveLimitPrice_pos hperp⟩
    multiplier := ⟨rfl, (InstrumentPair.rules_pos hrules).2.2.2.2⟩
    expires := rfl
    spot_bound := protectiveLimitPrice_buy hspot
    perp_bound := protectiveLimitPrice_sell hperp }

/-! ## §3. Closing. -/

/-- `LiveClosePreview`. -/
structure LiveClosePreview where
  requestFingerprint : String
  configVersion : String
  positionId : Nat
  exchange : Exchange
  environment : ExchangeEnvironment
  baseAsset : String
  emergency : Bool
  leverage : Nat
  marketObservedAt : Int
  expiresAt : Int
  maximumSlippage : ℚ
  baseQuantity : ℚ
  spotSymbol : String
  spotReferencePrice : ℚ
  spotLimitPrice : ℚ
  spotQuantity : ℚ
  spotUsdtProceedsBeforeFee : ℚ
  perpSymbol : String
  perpReferencePrice : ℚ
  perpLimitPrice : ℚ
  perpQuantity : ℚ
  perpBaseMultiplier : ℚ
  estimatedTotalFeesUsdt : ℚ
  estimatedGrossPnlUsdt : ℚ
  estimatedNetPnlUsdt : ℚ
  worstCaseBasis : ℚ
  deriving DecidableEq

/-- What a closing trade is asked for with. -/
structure CloseTerms where
  positionId : Nat
  opportunity : Opportunity
  pair : InstrumentPair
  settings : ScannerSettings
  environment : ExchangeEnvironment
  maximumSlippage : ℚ
  emergency : Bool

/-- `config_version` of a live closing. -/
def CloseTerms.configVersion (t : CloseTerms) : String :=
  sha256 (.closeConfig t.settings t.environment t.maximumSlippage t.emergency)

/-- What `preview_live_close` checks before it reads the position. -/
def checkCloseTerms (t : CloseTerms) : Except Exc Unit := do
  raiseIf (t.maximumSlippage ≤ 0 ∨ (if t.emergency then 1 / 4 else 1 / 10) < t.maximumSlippage)
    (.value "maximum slippage exceeds the allowed close limit")
  checkSandbox t.environment t.opportunity

/-- The position, if it can be closed on these terms. -/
def closablePosition (t : CloseTerms) (position : Option PairedPositionRow) :
    Except Exc PairedPositionRow := do
  let position ← found position (.value "paired position was not found")
  raiseIf (position.environment ≠ t.environment ∨ position.status ≠ .opened
      ∨ position.closingIntentId ≠ none)
    (.value "paired position is not open for live closing")
  raiseIf (position.exchange ≠ t.opportunity.exchange ∨ position.baseAsset ≠ t.opportunity.baseAsset)
    (.value "opportunity does not match paired position")
  checkRules t.opportunity t.pair
  return position

/-- The opening intent, if the trading rules are still those it was sized by. -/
def openingOf (t : CloseTerms) (position : PairedPositionRow)
    (opening : Option (TradeIntentRow × List OrderLegRow)) : Except Exc TradeIntentRow := do
  let (intent, legs) ← found opening (.value "opening trade intent was not found")
  let perp ← found (legs.find? (·.leg = .primary .perp))
    (.value "opening perpetual order leg was not found")
  raiseIf (intent.exchange ≠ position.exchange ∨ intent.environment ≠ position.environment
      ∨ perp.symbol ≠ t.pair.perpSymbol ∨ perp.baseMultiplier ≠ t.pair.perpContractSize)
    (.value "current instrument rules do not match the opening position")
  return intent

/-- The closing capacity of the book covers the position. -/
def checkCapacity (o : Opportunity) (position : PairedPositionRow) : Except Exc Unit := do
  raiseIf (o.spotBid ≤ 0 ∨ o.perpAsk ≤ 0) (.value "closing market prices must be positive")
  raiseIf (o.closeTopBookNotional < max (position.quantity * o.spotBid) (position.quantity * o.perpAsk))
    (.value "position exceeds current closing top-book capacity")

/-- `preview_live_close`, after the position and its opening intent are read. -/
def previewLiveClose (t : CloseTerms) (position : PairedPositionRow) (opening : TradeIntentRow)
    (now : Int) : Except Exc LiveClosePreview := do
  let o := t.opportunity
  raiseIf (¬t.emergency ∧ o.quality ≠ .healthy)
    (.value "only healthy opportunities can be closed normally")
  checkQuoteTime o now
  checkCapacity o position
  let sizing ← sizePairedOrder t.pair (position.quantity * o.spotBid) o.spotBid o.perpAsk 0
  raiseIf (sizing.baseQuantity ≠ position.quantity)
    (.value "position quantity is no longer aligned to current trading rules")
  let spotLimit ← protectiveLimitPrice o.spotBid t.maximumSlippage .sell t.pair.spotPriceIncrement
  let perpLimit ← protectiveLimitPrice o.perpAsk t.maximumSlippage .buy t.pair.perpPriceIncrement
  let fees := t.settings.fees o.exchange
  let spotNotional := sizing.spotQuantity * spotLimit
  let perpNotional := sizing.baseQuantity * perpLimit
  let closingFees := spotNotional * fees.spotTaker + perpNotional * fees.perpTaker
  let grossPnl := ((spotLimit - position.spotEntryPrice) + (position.perpEntryPrice - perpLimit))
    * sizing.baseQuantity
  return {
    requestFingerprint := sha256 (.liveClose t.emergency position.id o.exchange t.environment
      o.baseAsset sizing.baseQuantity (instrumentRulesPayload t.pair) (t.configVersion sha256))
    configVersion := t.configVersion sha256
    positionId := position.id
    exchange := o.exchange
    environment := t.environment
    baseAsset := o.baseAsset
    emergency := t.emergency
    leverage := opening.leverage
    marketObservedAt := o.observedAt
    expiresAt := now + manualPreviewTtl
    maximumSlippage := t.maximumSlippage
    baseQuantity := sizing.baseQuantity
    spotSymbol := t.pair.spotSymbol
    spotReferencePrice := o.spotBid
    spotLimitPrice := spotLimit
    spotQuantity := sizing.spotQuantity
    spotUsdtProceedsBeforeFee := spotNotional
    perpSymbol := t.pair.perpSymbol
    perpReferencePrice := o.perpAsk
    perpLimitPrice := perpLimit
    perpQuantity := sizing.perpQuantity
    perpBaseMultiplier := t.pair.perpContractSize
    estimatedTotalFeesUsdt := closingFees
    estimatedGrossPnlUsdt := grossPnl
    estimatedNetPnlUsdt := grossPnl - position.remainingOpeningFeesUsdt - closingFees
    worstCaseBasis := (perpLimit - spotLimit) / spotLimit }

/-- What an accepted closing preview has checked. -/
structure LiveClosePreview.Spec (t : CloseTerms) (position : PairedPositionRow)
    (opening : TradeIntentRow) (p : LiveClosePreview) : Prop where
  fingerprint : p.requestFingerprint = sha256 (.liveClose t.emergency position.id
    t.opportunity.exchange t.environment t.opportunity.baseAsset position.quantity
    (instrumentRulesPayload t.pair) (t.configVersion sha256))
  leverage : p.leverage = opening.leverage
  spot_pos : 0 < p.spotQuantity ∧ 0 < p.spotLimitPrice
  perp_pos : 0 < p.perpQuantity ∧ 0 < p.perpLimitPrice
  multiplier_pos : 0 < p.perpBaseMultiplier

/-- So does the preview of a closing. -/
theorem previewLiveClose_spec {t : CloseTerms} {position : PairedPositionRow}
    {opening : TradeIntentRow} {now : Int} {p : LiveClosePreview}
    (h : previewLiveClose sha256 t position opening now = .ok p) :
    p.Spec sha256 t position opening := by
  simp only [previewLiveClose, raiseIf_bind_eq_ok] at h
  obtain ⟨-, h⟩ := h
  obtain ⟨-, -, h⟩ := bind_eq_ok.mp h
  obtain ⟨-, -, h⟩ := bind_eq_ok.mp h
  obtain ⟨sizing, hsize, h⟩ := bind_eq_ok.mp h
  simp only [raiseIf_bind_eq_ok, not_not] at h
  obtain ⟨hbase, h⟩ := h
  obtain ⟨spotLimit, hspot, h⟩ := bind_eq_ok.mp h
  obtain ⟨perpLimit, hperp, h⟩ := bind_eq_ok.mp h
  injection h with h
  subst h
  obtain ⟨hspotQ, -, hperpQ⟩ := sizePairedOrder_pos hsize
  have hrules := sizePairedOrder_rules hsize
  exact {
    fingerprint := by rw [hbase]
    leverage := rfl
    spot_pos := ⟨hspotQ, protectiveLimitPrice_pos hspot⟩
    perp_pos := ⟨hperpQ, protectiveLimitPrice_pos hperp⟩
    multiplier_pos := (InstrumentPair.rules_pos hrules).2.2.2.2 }

/-! ## §4. What the previews raise. -/

/-- A quote too old is refused with a `ValueError`. -/
theorem checkQuoteTime_raises {o : Opportunity} {now : Int} : RaisesValue (checkQuoteTime o now) :=
  .bind .raiseIf fun _ => .raiseIf

/-- So is a position beyond the capacity of the top of the book. -/
theorem checkCapacity_raises {o : Opportunity} {position : PairedPositionRow} :
    RaisesValue (checkCapacity o position) :=
  .bind .raiseIf fun _ => .raiseIf

variable {sha256}

/-- The preview of an opening is refused with a `ValueError` and nothing else.
-/
theorem previewLiveOpen_raises {t : OpenTerms} {now : Int} :
    RaisesValue (previewLiveOpen sha256 t now) :=
  .bind .raiseIf fun _ => .bind .raiseIf fun _ => .bind .raiseIf fun _ => .bind .raiseIf fun _ =>
    .bind .raiseIf fun _ => .bind checkQuoteTime_raises fun _ => .bind .raiseIf fun _ =>
    .bind .raiseIf fun _ => .bind sizePairedOrder_raises fun _ =>
    .bind protectiveLimitPrice_raises fun _ => .bind protectiveLimitPrice_raises fun _ => .pure

/-- So is the preview of a closing. -/
theorem previewLiveClose_raises {t : CloseTerms} {position : PairedPositionRow}
    {opening : TradeIntentRow} {now : Int} :
    RaisesValue (previewLiveClose sha256 t position opening now) :=
  .bind .raiseIf fun _ => .bind checkQuoteTime_raises fun _ => .bind checkCapacity_raises fun _ =>
    .bind sizePairedOrder_raises fun _ => .bind .raiseIf fun _ =>
    .bind protectiveLimitPrice_raises fun _ => .bind protectiveLimitPrice_raises fun _ => .pure

/-- Terms that no close can have are refused with a `ValueError`. -/
theorem checkCloseTerms_raises {t : CloseTerms} : RaisesValue (checkCloseTerms t) :=
  .bind .raiseIf fun _ => .raiseIf

/-- So is a position that is not there or not open. -/
theorem closablePosition_raises {t : CloseTerms} {read : Option PairedPositionRow} :
    RaisesValue (closablePosition t read) :=
  .bind .found fun _ => .bind .raiseIf fun _ => .bind .raiseIf fun _ => .bind .raiseIf fun _ =>
    .pure

theorem openingOf_raises {t : CloseTerms} {position : PairedPositionRow}
    {opening : Option (TradeIntentRow × List OrderLegRow)} :
    RaisesValue (openingOf t position opening) :=
  .bind .found fun _ => .bind .found fun _ => .bind .raiseIf fun _ => .pure

end BasisHawk.Planning
