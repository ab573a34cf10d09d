/-
  BasisHawk.Paired.Settlement
  ───────────────────────────
  `settle_live_open` and `settle_live_close`: what the fills of an intent's
  legs mean for the intent and its position (`storage.py`).

  A settlement first decides (`openVerdict`, `closeVerdict`: pure functions of
  the rows it has read) and then writes (`applyOpen`, `applyClose`).

  Contents:
    • fees, protection legs and the arithmetic of compensation,
    • the settlement of an opening intent,
    • the settlement of a closing intent.
-/
import BasisHawk.Paired.Rows

namespace BasisHawk.Paired

open Domain Lib
open MultiLeg (ExecutionControlRow)

/-! ## §1. Arithmetic of a settlement. -/

/-- `_numeric_equal`. -/
def numericEqual (left right : ℚ) : Bool := |left - right| ≤ 1 / 10 ^ 15

/-- `_live_fees_usdt`. -/
def liveFeesUsdt (baseAsset : String) : List FillRow → Except Exc ℚ
  | [] => .ok 0
  | item :: rest => do
      let others ← liveFeesUsdt baseAsset rest
      if item.feeAmount = 0 then return others
      else if sameUpper item.feeAsset "USDT" ∨ sameUpper item.feeAsset "USD" then
        return item.feeAmount + others
      else if sameUpper item.feeAsset baseAsset then
        return item.feeAmount * item.price + others
      else throw (.value "live fill fee asset cannot be valued in USDT")

/-- `_compensation_client_order_id`. -/
def compensationClientOrderId (intent : TradeIntentRow) : String :=
  let token := String.ofList (intent.token.toList.take 20)
  match intent.exchange with
  | .okx => "bhc" ++ token
  | .gate => "t-bhc-" ++ token
  | _ => "bh-c-" ++ token

/-- `_live_compensation_leg`.  The multiplier is positive in every row. -/
def liveCompensationLeg (intent : TradeIntentRow) (excess : OrderLegRow) (excessBase : ℚ)
    (id : Nat) (now : Int) : Except Exc OrderLegRow :=
  if h : excessBase ≤ 0 then .error (.value "live compensation quantity must be positive")
  else .ok {
    id := id
    tradeIntentId := intent.id
    leg := excess.leg.protection
    market := excess.market
    symbol := excess.symbol
    side := if excess.side = .sell then .buy else .sell
    clientOrderId := compensationClientOrderId intent
    exchangeOrderId := none
    status := .created
    failureCode := none
    quantity := excessBase / excess.baseMultiplier
    baseMultiplier := excess.baseMultiplier
    compensationTargetBaseQuantity := some excessBase
    compensationToleranceBase := 0
    limitPrice := excess.limitPrice
    filledQuantity := 0
    averagePrice := none
    -- Only the undoing of a short perpetual is known to reduce a position.
    reduceOnly := excess.market = .perp ∧ (if excess.side = .sell then Side.buy else .sell) = .buy
      ∧ intent.action = .opening
    createdAt := now
    quantity_pos := ⟨div_pos (lt_of_not_ge h) excess.multiplier_check, excess.quantity_pos.2⟩
    multiplier_check := excess.multiplier_check
    tolerance_check := OrderLegRow.zero_nonneg
    filled_nonneg := OrderLegRow.zero_nonneg
    average_iff := OrderLegRow.unfilled_average }

/-- `_compensation_pnl`. -/
def compensationPnl (primary compensation : OrderLegRow) (baseQuantity : ℚ) : Except Exc ℚ :=
  match primary.averagePrice, compensation.averagePrice with
  | some p, some c =>
      .ok (match primary.side with
        | .buy => (c - p) * baseQuantity
        | .sell => (p - c) * baseQuantity)
  | _, _ => .error (.value "live compensation prices are incomplete")

/-- The residual exposure a compensation may leave. -/
def unsafeDust (tolerance dust : ℚ) : Prop :=
  dust < 0 ∨ (tolerance = 0 ∧ ¬numericEqual dust 0) ∨ (0 < tolerance ∧ tolerance ≤ dust)

instance (tolerance dust : ℚ) : Decidable (unsafeDust tolerance dust) :=
  inferInstanceAs (Decidable (_ ∨ (_ ∧ _) ∨ (_ ∧ _)))

/-- The primary base quantities net of what was compensated. -/
def netOfCompensation (spotBase perpBase : ℚ) (excess compensation : OrderLegRow) : ℚ × ℚ :=
  match excess.market with
  | .spot => (spotBase - compensation.filledBase, perpBase)
  | .perp => (spotBase, perpBase - compensation.filledBase)

/-- The imbalance that is left, which must be on the spot side of the books. -/
def residualDust (action : TradeAction) (adjusted : ℚ × ℚ) : ℚ :=
  match action with
  | .opening => adjusted.1 - adjusted.2
  | .closing => adjusted.2 - adjusted.1

/-- `_compensated_base_quantities`. -/
def compensatedBaseQuantities (action : TradeAction) (spotBase perpBase : ℚ)
    (excess compensation : OrderLegRow) : Except Exc (ℚ × ℚ) := do
  let incomplete : Exc := .value "live compensation quantity is incomplete"
  match compensation.compensationTargetBaseQuantity with
  | none => throw incomplete
  | some target => do
      raiseIf (target ≤ 0 ∨ ¬numericEqual target |spotBase - perpBase|
        ∨ ¬numericEqual compensation.filledQuantity compensation.quantity) incomplete
      let adjusted := netOfCompensation spotBase perpBase excess compensation
      raiseIf (adjusted.1 < 0 ∨ adjusted.2 < 0)
        (.value "live compensation exceeds the primary fill")
      raiseIf (unsafeDust compensation.compensationToleranceBase (residualDust action adjusted))
        (.value "live compensation leaves unsafe residual exposure")
      return adjusted

/-- The primary leg that filled more. -/
def Layout.excess (y : Layout) (spotBase perpBase : ℚ) : OrderLegRow :=
  if perpBase < spotBase then y.spot else y.perp

/-! ## §2. What an opening intent's fills mean. -/

/-- What `settle_live_open` does with an intent whose rows it has read. -/
inductive OpenVerdict where
  /-- Not to be settled yet. -/
  | pending
  | noFills
  /-- The leg's excess is to be undone by a protection leg. -/
  | protect (excess : OrderLegRow) (base : ℚ)
  | review
  /-- Everything was undone. -/
  | neutralized
  | hedge (quantity spotEntry perpEntry openingCost : ℚ)
  deriving DecidableEq

/-- The base-asset fees of the primary spot leg. -/
def spotBaseFee (baseAsset : String) (fills : List FillRow) : ℚ :=
  ((fills.filter fun f => sameUpper f.feeAsset baseAsset).map (·.feeAmount)).sum

/-- The spot base quantity net of base-asset fees. -/
def spotBaseAfterFee (spot : OrderLegRow) (fee : ℚ) : ℚ :=
  match spot.side with
  | .buy => spot.filledBase - fee
  | .sell => spot.filledBase + fee

/-- `fee_aware_open_is_hedged`. -/
def feeAwareOpenIsHedged (intent : TradeIntentRow) (y : Layout) (spotBase : ℚ) : Prop :=
  intent.spotBuyFeeInBase ∧ 0 < y.spot.base - intent.baseQuantity
    ∧ y.spot.filledQuantity = y.spot.quantity ∧ y.perp.filledQuantity = y.perp.quantity
    ∧ numericEqual y.perp.filledBase intent.baseQuantity ∧ y.perp.filledBase ≤ spotBase
    ∧ spotBase - y.perp.filledBase < y.spot.base - intent.baseQuantity

instance (intent : TradeIntentRow) (y : Layout) (spotBase : ℚ) :
    Decidable (feeAwareOpenIsHedged intent y spotBase) :=
  inferInstanceAs (Decidable (_ ∧ _ ∧ _ ∧ _ ∧ _ ∧ _ ∧ _))

/-- The `try` body of the compensation branch: common base quantity, fees,
profit of the round trip. -/
def openCompensated (baseAsset : String) (spotBase perpBase : ℚ) (excess compensation : OrderLegRow)
    (fills : List FillRow) : Except Exc (ℚ × ℚ × ℚ) := do
  let adjusted ← compensatedBaseQuantities .opening spotBase perpBase excess compensation
  let fees ← liveFeesUsdt baseAsset fills
  let profit ← compensationPnl excess compensation compensation.filledBase
  return (adjusted.2, fees, profit)

/-- The branch for unequal fills. -/
def openImbalance (intent : TradeIntentRow) (y : Layout) (spotBase perpBase : ℚ)
    (fills : List FillRow) : OpenVerdict :=
  let excess := y.excess spotBase perpBase
  match y.compensation with
  | none => if intent.status = .executing then .protect excess |spotBase - perpBase| else .review
  | some c =>
      if ¬c.status.isTerminal then .pending
      else if c.averagePrice = none then .review
      else match openCompensated intent.baseAsset spotBase perpBase excess c fills with
        -- Everything the `try` body raises is a `ValueError`.
        | .error _ => .review
        | .ok (common, fees, profit) =>
            if common = 0 then .neutralized
            else match y.spot.averagePrice, y.perp.averagePrice with
              | some s, some p => .hedge common s p (fees - profit)
              | _, _ => .review

/-- The branch for balanced fills. -/
def openBalanced (intent : TradeIntentRow) (y : Layout) (spotBase perpBase : ℚ)
    (fills : List FillRow) : OpenVerdict :=
  match y.spot.averagePrice, y.perp.averagePrice with
  | some s, some p =>
      match liveFeesUsdt intent.baseAsset fills with
      | .error _ => .review
      | .ok fees => .hedge (min spotBase perpBase) s p fees
  | _, _ => .review

/-- The decision of `settle_live_open`; `spotFills` are the fills of the primary
spot leg, `fills` those of all legs. -/
def openVerdict (intent : TradeIntentRow) (y : Layout) (spotFills fills : List FillRow) :
    Except Exc OpenVerdict :=
  if ¬y.isTerminal then .ok .pending
  else
    let perpBase := y.perp.filledBase
    let spotBase := spotBaseAfterFee y.spot (spotBaseFee intent.baseAsset spotFills)
    if spotBase < 0 then .error (.value "spot base-asset fees exceed the filled quantity")
    else if spotBase = 0 ∧ perpBase = 0 then .ok .noFills
    else if ¬numericEqual spotBase perpBase ∧ ¬feeAwareOpenIsHedged intent y spotBase then
      .ok (openImbalance intent y spotBase perpBase fills)
    else .ok (openBalanced intent y spotBase perpBase fills)

/-! ## §3. Settling an opening intent. -/

namespace Ledger

/-- The reason `_pause_live_settlement` gives. -/
def settlementPause : String :=
  "live paired fills are imbalanced or cannot be valued; manual exposure review is required"

/-- The intent moves to `status`, the last write of a settlement. -/
def moveIntent (intent : TradeIntentRow) (status : IntentStatus) (code : Option FailureCode)
    (l : Ledger) : TradeIntentRow × Ledger :=
  let intent := { intent with
    status := status, failureCode := code, version := intent.version + 1 }
  (intent, { l with intents := Table.put l.intents intent })

/-- A new leg, its client order id and its name within the intent unused. -/
def insertLeg (leg : OrderLegRow) (l : Ledger) : Except Exc Ledger := do
  raiseIf (∃ o ∈ l.legs, o.clientOrderId = leg.clientOrderId) (.integrity "client_order_id")
  raiseIf (∃ o ∈ l.legs, o.tradeIntentId = leg.tradeIntentId ∧ o.leg = leg.leg)
    (.integrity "uq_order_leg_intent_leg")
  return { l with legs := l.legs ++ [leg], nextId := l.nextId + 1 }

/-- The protection leg is created, the execution paused. -/
def protect (intent : TradeIntentRow) (excess : OrderLegRow) (base : ℚ) (now : Int) (l : Ledger) :
    Except Exc (TradeIntentRow × Ledger) := do
  let leg ← liveCompensationLeg intent excess base l.nextId now
  let l ← l.insertLeg leg
  return (l.pause settlementPause).moveIntent intent .compensating intent.failureCode

/-- The position a hedged opening intent leaves. -/
def openedPosition (intent : TradeIntentRow) (quantity spotEntry perpEntry openingCost : ℚ)
    (id : Nat) (now : Int) : PairedPositionRow where
  id := id
  openingIntentId := intent.id
  closingIntentId := none
  exchange := intent.exchange
  environment := intent.environment
  baseAsset := intent.baseAsset
  initialQuantity := quantity
  quantity := quantity
  spotEntryPrice := spotEntry
  perpEntryPrice := perpEntry
  openingFeesUsdt := openingCost
  remainingOpeningFeesUsdt := openingCost
  closingFeesUsdt := none
  realizedPnlUsdt := none
  status := .opened
  openedAt := now
  closedAt := none

/-- What a settlement returns: the intent, its position, whether it changed. -/
abbrev Settled : Type := TradeIntentRow × Option PairedPositionRow × Bool

/-- The writes of `settle_live_open`. -/
def applyOpen (intent : TradeIntentRow) (now : Int) (l : Ledger) :
    OpenVerdict → Except Exc (Settled × Ledger)
  | .pending => .ok ((intent, none, false), l)
  | .noFills =>
      let (intent, l) := l.moveIntent intent .failed (some .noFills)
      .ok ((intent, none, true), l)
  | .protect excess base => do
      let (intent, l) ← l.protect intent excess base now
      return ((intent, none, true), l)
  | .review =>
      let (intent, l) := (l.pause settlementPause).moveIntent intent .manualReview intent.failureCode
      .ok ((intent, none, true), l)
  | .neutralized =>
      let (intent, l) := l.moveIntent intent .failed (some .exposureNeutralized)
      .ok ((intent, none, true), l)
  | .hedge quantity spotEntry perpEntry openingCost =>
      let position := openedPosition intent quantity spotEntry perpEntry openingCost l.nextId now
      let (intent, l) := { l with
        positions := l.positions ++ [position], nextId := l.nextId + 1 : Ledger }.moveIntent
          intent .hedged intent.failureCode
      .ok ((intent, some position, true), l)

/-- The intents `settle_live_open` and `settle_live_close` look into. -/
def isSettleable (intent : TradeIntentRow) (action : TradeAction) : Prop :=
  (intent.environment = .sandbox ∨ intent.environment = .live) ∧ intent.action = action
    ∧ (intent.status = .executing ∨ intent.status = .compensating)

instance (intent : TradeIntentRow) (action : TradeAction) :
    Decidable (isSettleable intent action) :=
  inferInstanceAs (Decidable (_ ∧ _ ∧ _))

/-- `settle_live_open`. -/
def settleLiveOpen (intentId : Nat) (now : Int) (l : Ledger) :
    Except Exc (Option Settled × Ledger) :=
  match Table.find? l.intents intentId with
  | none => .ok (none, l)
  | some intent =>
      match l.positions.find? (·.openingIntentId = intent.id) with
      | some position => .ok (some (intent, some position, false), l)
      | none =>
          if ¬isSettleable intent .opening then .ok (some (intent, none, false), l)
          else do
            let y ← l.layout intent.id
            let verdict ← openVerdict intent y (l.fillsOfLeg y.spot.id) (l.fillsOfIntent intent.id)
            let (settled, l) ← l.applyOpen intent now verdict
            return (some settled, l)

end Ledger

/-! ## §4. What a closing intent's fills mean. -/

/-- The result of a close that `settle_live_close` books. -/
structure CloseOutcome where
  quantity : ℚ
  grossPnl : ℚ
  openingFeeAllocation : ℚ
  closingFees : ℚ
  status : IntentStatus
  deriving DecidableEq

namespace CloseOutcome

def netPnl (o : CloseOutcome) : ℚ := o.grossPnl - o.openingFeeAllocation - o.closingFees

end CloseOutcome

/-- What `settle_live_close` does with an intent whose rows it has read. -/
inductive CloseVerdict where
  | pending
  | noFills
  | protect (excess : OrderLegRow) (base : ℚ)
  | review
  | settle (o : CloseOutcome)
  deriving DecidableEq

/-- An average price in an expression; `None` is not a number. -/
def OrderLegRow.average (o : OrderLegRow) : Except Exc ℚ :=
  found o.averagePrice
    (.ofKind .type "unsupported operand type(s) for -: 'NoneType' and 'decimal.Decimal'")

/-- The opening fees that go with the closed quantity. -/
def allocateOpeningFee (position : PairedPositionRow) (quantity : ℚ) : Except Exc ℚ :=
  if numericEqual quantity position.quantity then .ok position.remainingOpeningFeesUsdt
  else if position.quantity = 0 then .error (.ofKind .arithmetic "division by zero")
  else .ok (position.remainingOpeningFeesUsdt * quantity / position.quantity)

/-- The gross PnL of a pair of equal fills. -/
def pairedGross (position : PairedPositionRow) (y : Layout) (quantity : ℚ) : Except Exc ℚ := do
  let spot ← y.spot.average
  let perp ← y.perp.average
  return ((spot - position.spotEntryPrice) + (position.perpEntryPrice - perp)) * quantity

/-- The gross PnL of the primary fills, each leg at its own quantity. -/
def legwiseGross (position : PairedPositionRow) (y : Layout) (spotBase perpBase : ℚ) :
    Except Exc ℚ := do
  let spot ← (if spotBase = 0 then .ok 0
    else do
      let spot ← y.spot.average
      return (spot - position.spotEntryPrice) * spotBase : Except Exc ℚ)
  let perp ← (if perpBase = 0 then .ok 0
    else do
      let perp ← y.perp.average
      return (position.perpEntryPrice - perp) * perpBase : Except Exc ℚ)
  return spot + perp

/-- The gross PnL of a compensated close: one formula for a compensation
without tolerance, one for a compensation with. -/
def compensatedGross (position : PairedPositionRow) (y : Layout) (compensation : OrderLegRow)
    (spotBase perpBase common profit : ℚ) : Except Exc ℚ := do
  if compensation.compensationToleranceBase = 0 then do
    let gross ← (if common = 0 then .ok 0 else pairedGross position y common : Except Exc ℚ)
    return gross + profit
  else do
    let gross ← legwiseGross position y spotBase perpBase
    return gross + profit

/-- The `try` body of the compensation branch: common base quantity, closing
fees, profit of the round trip. -/
def closeCompensated (baseAsset : String) (position : PairedPositionRow) (spotBase perpBase : ℚ)
    (excess compensation : OrderLegRow) (fills : List FillRow) : Except Exc (ℚ × ℚ × ℚ) := do
  let adjusted ← compensatedBaseQuantities .closing spotBase perpBase excess compensation
  raiseIf (position.quantity < adjusted.2) (.value "live close compensation exceeds position")
  let fees ← liveFeesUsdt baseAsset fills
  let profit ← compensationPnl excess compensation compensation.filledBase
  return (adjusted.2, fees, profit)

/-- The booking of a compensated close. -/
def closeCompensatedOutcome (position : PairedPositionRow) (y : Layout) (compensation : OrderLegRow)
    (spotBase perpBase common fees profit : ℚ) : Except Exc CloseOutcome := do
  let allocation ← (if common = 0 then .ok 0 else allocateOpeningFee position common :
    Except Exc ℚ)
  let gross ← compensatedGross position y compensation spotBase perpBase common profit
  return {
    quantity := common
    grossPnl := gross
    openingFeeAllocation := allocation
    closingFees := fees
    status := if 0 < common then .closed else .failed }

/-- The branch for unequal fills. -/
def closeImbalance (intent : TradeIntentRow) (position : PairedPositionRow) (y : Layout)
    (spotBase perpBase : ℚ) (fills : List FillRow) : Except Exc CloseVerdict :=
  let excess := y.excess spotBase perpBase
  match y.compensation with
  | none =>
      .ok (if intent.status = .executing then .protect excess |spotBase - perpBase| else .review)
  | some c =>
      if ¬c.status.isTerminal then .ok .pending
      else if c.averagePrice = none ∨ (0 < min spotBase perpBase
          ∧ (y.spot.averagePrice = none ∨ y.perp.averagePrice = none)) then .ok .review
      else match closeCompensated intent.baseAsset position spotBase perpBase excess c fills with
        | .error _ => .ok .review
        | .ok (common, fees, profit) => do
            let o ← closeCompensatedOutcome position y c spotBase perpBase common fees profit
            return .settle o

/-- The branch for balanced fills. -/
def closeBalanced (intent : TradeIntentRow) (position : PairedPositionRow) (y : Layout)
    (spotBase : ℚ) (fills : List FillRow) : Except Exc CloseVerdict :=
  if position.quantity < spotBase ∨ y.spot.averagePrice = none ∨ y.perp.averagePrice = none then
    .ok .review
  else match liveFeesUsdt intent.baseAsset fills with
    | .error _ => .ok .review
    | .ok fees => do
        let allocation ← allocateOpeningFee position spotBase
        let gross ← pairedGross position y spotBase
        return .settle {
          quantity := spotBase, grossPnl := gross, openingFeeAllocation := allocation
          closingFees := fees, status := .closed }

/-- The decision of `settle_live_close`.  Base-asset fees are not looked at. -/
def closeVerdict (intent : TradeIntentRow) (position : PairedPositionRow) (y : Layout)
    (fills : List FillRow) : Except Exc CloseVerdict :=
  if ¬y.isTerminal then .ok .pending
  else
    let spotBase := y.spot.filledBase
    let perpBase := y.perp.filledBase
    if spotBase = 0 ∧ perpBase = 0 then .ok .noFills
    else if ¬numericEqual spotBase perpBase then
      closeImbalance intent position y spotBase perpBase fills
    else closeBalanced intent position y spotBase fills

/-! ## §5. Settling a closing intent. -/

/-- The position after a booked close; a remainder too small to count is
dropped. -/
def PairedPositionRow.afterClose (position : PairedPositionRow) (o : CloseOutcome) (now : Int) :
    PairedPositionRow :=
  let position := { position with
    closingFeesUsdt := some (position.closingFeesUsdt.getD 0 + o.closingFees)
    realizedPnlUsdt := some (position.realizedPnlUsdt.getD 0 + o.netPnl)
    remainingOpeningFeesUsdt := position.remainingOpeningFeesUsdt - o.openingFeeAllocation
    quantity := position.quantity - o.quantity }
  if numericEqual position.quantity 0 then
    { position with quantity := 0, status := .closed, closedAt := some now }
  else { position with status := .opened, closingIntentId := none }

namespace Ledger

/-- A new realization row, if its table admits it. -/
def insertRealization (position : PairedPositionRow) (intent : TradeIntentRow) (o : CloseOutcome)
    (now : Int) (l : Ledger) : Except Exc Ledger := do
  raiseIf (∃ r ∈ l.realizations, r.closingIntentId = intent.id) (.integrity "closing_intent_id")
  if hq : ¬0 ≤ o.quantity then throw (.integrity "ck_pnl_realization_quantity_nonnegative")
  else if ho : ¬0 ≤ o.openingFeeAllocation then
    throw (.integrity "ck_pnl_realization_opening_fee_nonnegative")
  else if hc : ¬0 ≤ o.closingFees then
    throw (.integrity "ck_pnl_realization_closing_fees_nonnegative")
  else
    let row : PnlRealizationRow := {
      id := l.nextId
      pairedPositionId := position.id
      closingIntentId := intent.id
      quantity := o.quantity
      grossPnlUsdt := o.grossPnl
      openingFeeAllocatedUsdt := o.openingFeeAllocation
      closingFeesUsdt := o.closingFees
      netPnlUsdt := o.netPnl
      realizedAt := now
      quantity_nonnegative := not_not.mp hq
      opening_fee_nonnegative := not_not.mp ho
      closing_fees_nonnegative := not_not.mp hc }
    return { l with realizations := l.realizations ++ [row], nextId := l.nextId + 1 }

/-- The failure code a booked close leaves in its intent. -/
def closeFailureCode (intent : TradeIntentRow) (o : CloseOutcome) : Option FailureCode :=
  if o.status = .failed then some .exposureNeutralized else intent.failureCode

/-- The writes of `settle_live_close`. -/
def applyClose (intent : TradeIntentRow) (position : PairedPositionRow) (now : Int) (l : Ledger) :
    CloseVerdict → Except Exc (Settled × Ledger)
  | .pending => .ok ((intent, some position, false), l)
  | .noFills =>
      let position := { position with status := .opened, closingIntentId := none }
      let (intent, l) := { l with positions := Table.put l.positions position : Ledger }.moveIntent
        intent .failed (some .noFills)
      .ok ((intent, some position, true), l)
  | .protect excess base => do
      let (intent, l) ← l.protect intent excess base now
      return ((intent, some position, true), l)
  | .review =>
      let (intent, l) := (l.pause settlementPause).moveIntent intent .manualReview intent.failureCode
      .ok ((intent, some position, true), l)
  | .settle o => do
      let l ← l.insertRealization position intent o now
      let position := position.afterClose o now
      let (intent, l) := { l with positions := Table.put l.positions position : Ledger }.moveIntent
        intent o.status (closeFailureCode intent o)
      return ((intent, some position, true), l)

/-- The position is reserved by the intent. -/
def isReserved (position : PairedPositionRow) (intent : TradeIntentRow) : Prop :=
  position.status = .closing ∧ position.closingIntentId = some intent.id

instance (position : PairedPositionRow) (intent : TradeIntentRow) :
    Decidable (isReserved position intent) :=
  inferInstanceAs (Decidable (_ ∧ _))

/-- The position an intent is to close. -/
def positionOf (l : Ledger) (intent : TradeIntentRow) : Option PairedPositionRow :=
  intent.pairedPositionId.bind (Table.find? l.positions)

/-- `settle_live_close`. -/
def settleLiveClose (intentId : Nat) (now : Int) (l : Ledger) :
    Except Exc (Option Settled × Ledger) :=
  match Table.find? l.intents intentId with
  | none => .ok (none, l)
  | some intent =>
      match l.positionOf intent with
      | none => .ok (some (intent, none, false), l)
      | some position =>
          if intent.status.isTerminal ∨ ¬(isSettleable intent .closing ∧ isReserved position intent)
          then .ok (some (intent, some position, false), l)
          else do
            let y ← l.layout intent.id
            let verdict ← closeVerdict intent position y (l.fillsOfIntent intent.id)
            let (settled, l) ← l.applyClose intent position now verdict
            return (some settled, l)

end Ledger

end BasisHawk.Paired
