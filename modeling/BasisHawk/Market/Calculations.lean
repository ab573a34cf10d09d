/-
  BasisHawk.Market.Calculations
  ─────────────────────────────
  What is worked out of quotes and funding rates (`calculations.py`).

  A rate is brought to a year in two ways: the current one from its interval,
  the settled ones from the days they cover.  Both divide before they multiply,
  and every result is rounded to the context, so the order of the operations
  matters.  `build_opportunity` puts both together with the top of both books.
-/
import BasisHawk.Lib.Rounding
import BasisHawk.Planning.Preview

namespace BasisHawk.Market

open Domain Lib
open Planning (FeeRate)

/-! ## §1. Inputs. -/

/-- The fields of `FundingObservation` that are computed with. -/
structure FundingObservation where
  rate : ℚ
  fundingAt : Int
  observedAt : Int
  settled : Bool
  nextFundingAt : Option Int
  intervalHours : ℚ
  deriving DecidableEq

/-- The fields of `MarketQuote` that are computed with. -/
structure MarketQuote where
  observedAt : Int
  spotBid : ℚ
  spotBidQty : ℚ
  spotAsk : ℚ
  spotAskQty : ℚ
  perpBid : ℚ
  perpBidQty : ℚ
  perpAsk : ℚ
  perpAskQty : ℚ
  spotQuoteVolume24h : ℚ
  perpQuoteVolume24h : ℚ
  deriving DecidableEq

/-- `Opportunity`. -/
structure Opportunity extends planned : Planning.Opportunity where
  executableBasis : ℚ
  currentFundingRate : ℚ
  fundingIntervalHours : ℚ
  nextFundingAt : Option Int
  currentApr : ℚ
  apr24h : Option ℚ
  apr7d : Option ℚ
  netReturn : Option ℚ
  spotQuoteVolume24h : ℚ
  perpQuoteVolume24h : ℚ
  spotTakerFee : ℚ
  perpTakerFee : ℚ
  spotAskNotional : ℚ
  perpBidNotional : ℚ
  deriving DecidableEq

/-! ## §2. Annual rates. -/

def daysPerYear : ℚ := 365
def hoursPerDay : ℚ := 24

/-- `annualize_current`. -/
def annualizeCurrent (rate intervalHours : ℚ) : Except Exc ℚ := do
  raiseIf (intervalHours ≤ 0) (.value "funding interval must be positive")
  return rounded (rounded (rounded (rate * hoursPerDay) / intervalHours) * daysPerYear)

/-- `timedelta(hours=float(hours))`, in microseconds. -/
def hoursDelta (hours : ℚ) : Int := roundEven (hours * 3600000000)

/-- The settled observations of a window, in time. -/
def settledWithin (observations : List FundingObservation) (start stop : Int) :
    List FundingObservation :=
  (observations.filter fun item => item.settled ∧ start ≤ item.fundingAt ∧ item.fundingAt ≤ stop)
    |>.insertionSort fun a b => a.fundingAt ≤ b.fundingAt

/-- `annualize_history`. -/
def annualizeHistory (observations : List FundingObservation) (start stop : Int) :
    Except Exc (Option ℚ) := do
  raiseIf (stop ≤ start) (.value "history end must be after start")
  match settledWithin observations start stop with
  | [] => return none
  | first :: rest =>
      let values := first :: rest
      let last := values.getLast (List.cons_ne_nil _ _)
      let observedSpan := last.fundingAt - first.fundingAt + hoursDelta first.intervalHours
      let covered := min (stop - start) observedSpan
      if covered ≤ 0 then return none
      else
        let coveredSeconds : ℚ := (covered : ℚ) / 1000000
        let coveredDays := rounded (coveredSeconds / 86400)
        let total := sumToPrecision contextPrecision (values.map (·.rate))
        return some (rounded (rounded (total / coveredDays) * daysPerYear))

/-- `projected_net_return`. -/
def projectedNetReturn (apr7d : ℚ) (fee : FeeRate) (holdingDays : Nat) : ℚ :=
  let fundingReturn := rounded (rounded (apr7d * holdingDays) / daysPerYear)
  let roundTripFees := rounded (2 * rounded (fee.spotTaker + fee.perpTaker))
  rounded (fundingReturn - roundTripFees)

/-! ## §3. Opportunities. -/

def hours (n : Nat) : Int := Planning.seconds (3600 * n)

/-- The settled history does not span six days. -/
def isWarming (history : List FundingObservation) (start : Int) : Bool :=
  let coverage := (history.filter fun item => item.settled ∧ start ≤ item.fundingAt).map (·.fundingAt)
  match coverage.max?, coverage.min? with
  | some latest, some earliest => latest - earliest < hours (24 * 6)
  | _, _ => true

/-- `build_opportunity`.  A price and a quantity of a quote have together no more
digits than the context, so the notionals are products as they are. -/
def buildOpportunity (pair : InstrumentPair) (quote : MarketQuote) (current : FundingObservation)
    (history : List FundingObservation) (fee : FeeRate) (holdingDays : Nat) (now : Int) :
    Except Exc Opportunity := do
  raiseIf (min (min quote.spotBid quote.spotAsk) (min quote.perpBid quote.perpAsk) ≤ 0)
    (.value "quote prices must be positive")
  let spotAskNotional := quote.spotAsk * quote.spotAskQty
  let perpBidNotional := quote.perpBid * quote.perpBidQty
  let start24h := now - hours 24
  let start7d := now - hours (24 * 7)
  let apr24h ← annualizeHistory history start24h now
  let apr7d ← annualizeHistory history start7d now
  let currentApr ← annualizeCurrent current.rate current.intervalHours
  return {
    exchange := pair.exchange
    baseAsset := pair.baseAsset
    observedAt := quote.observedAt
    spotBid := quote.spotBid
    spotAsk := quote.spotAsk
    perpBid := quote.perpBid
    perpAsk := quote.perpAsk
    quality :=
      if Planning.seconds 15 < now - quote.observedAt
          ∨ Planning.seconds 600 < now - current.observedAt then .stale
      else if isWarming history start7d then .warming else .healthy
    spotSymbol := pair.spotSymbol
    perpSymbol := pair.perpSymbol
    topBookNotional := min spotAskNotional perpBidNotional
    closeTopBookNotional := min (quote.spotBid * quote.spotBidQty) (quote.perpAsk * quote.perpAskQty)
    executableBasis := rounded (rounded (quote.perpBid / quote.spotAsk) - 1)
    currentFundingRate := current.rate
    fundingIntervalHours := current.intervalHours
    nextFundingAt := current.nextFundingAt
    currentApr
    apr24h
    apr7d
    netReturn := apr7d.map fun apr => projectedNetReturn apr fee holdingDays
    spotQuoteVolume24h := quote.spotQuoteVolume24h
    perpQuoteVolume24h := quote.perpQuoteVolume24h
    spotTakerFee := fee.spotTaker
    perpTakerFee := fee.perpTaker
    spotAskNotional
    perpBidNotional }

end BasisHawk.Market
