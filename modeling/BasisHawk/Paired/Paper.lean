/-
  BasisHawk.Paired.Paper
  ──────────────────────
  The paper executions of two-leg intents (`Database` in `storage.py`).

  Paper orders fill at their limit prices, in whatever part the caller says,
  and fees are charged at the intent's rates.
-/
import BasisHawk.Paired.Storage

namespace BasisHawk.Paired

open Domain Lib

/-! ## §1. Paper fills. -/

/-- The taker rate of a market. -/
def TradeIntentRow.feeRate (intent : TradeIntentRow) (m : Market) : ℚ :=
  match m with
  | .spot => intent.spotFeeRate
  | .perp => intent.perpFeeRate

/-- The fee of a paper fill of a leg. -/
def paperFee (intent : TradeIntentRow) (leg : OrderLegRow) (quantity : ℚ) : ℚ :=
  quantity * leg.limitPrice * intent.feeRate leg.market

/-- A leg filled on paper. -/
def paperFilled (leg : OrderLegRow) (quantity : ℚ) (hq : 0 ≤ quantity) : OrderLegRow :=
  { leg with
    exchangeOrderId := some ("paper:" ++ toString leg.id)
    status := if quantity = leg.quantity then .filled
      else if 0 < quantity then .partiallyFilled else .canceled
    filledQuantity := quantity
    averagePrice := if 0 < quantity then some leg.limitPrice else none
    filled_nonneg := hq
    average_iff := by split <;> simp_all }

/-- The fill row of a paper fill, where there is one. -/
def paperFills (intent : TradeIntentRow) (leg : OrderLegRow) (quantity : ℚ) (id : Nat) (now : Int) :
    List FillRow :=
  if h : 0 < quantity then [{
    id := id
    orderLegId := leg.id
    exchangeTradeId := "paper:" ++ toString leg.id ++ ":fill"
    quantity := quantity
    price := leg.limitPrice
    feeAmount := paperFee intent leg quantity
    feeAsset := "USDT"
    liquidity := "taker"
    occurredAt := now
    quantity_price_pos := ⟨h, leg.quantity_pos.2⟩ }]
  else []

/-- The leg that undoes the excess of a paper fill. -/
def paperCompensationLeg (intent : TradeIntentRow) (excess : OrderLegRow) (quantity : ℚ)
    (clientOrderId : String) (id : Nat) (now : Int) (hq : 0 < quantity) : OrderLegRow where
  id := id
  tradeIntentId := intent.id
  leg := excess.leg.protection
  market := excess.market
  symbol := excess.symbol
  side := excess.side.flip
  clientOrderId := clientOrderId
  exchangeOrderId := none
  status := .created
  failureCode := none
  quantity := quantity
  baseMultiplier := 1
  compensationTargetBaseQuantity := none
  compensationToleranceBase := 0
  limitPrice := excess.limitPrice
  filledQuantity := 0
  averagePrice := none
  reduceOnly := intent.action = .opening ∧ excess.market = .perp
  createdAt := now
  quantity_pos := ⟨hq, excess.quantity_pos.2⟩
  multiplier_check := OrderLegRow.unit_multiplier
  tolerance_check := OrderLegRow.zero_nonneg
  filled_nonneg := OrderLegRow.zero_nonneg
  average_iff := OrderLegRow.unfilled_average

/-- `client_order_id.rsplit("-", 1)[0]` with `-c` appended. -/
def paperCompensationId (clientOrderId : String) : String :=
  let rest := clientOrderId.toList.reverse.dropWhile (· ≠ '-')
  let head := match rest with
    | [] => clientOrderId.toList
    | _ :: before => before.reverse
  String.ofList head ++ "-c"

namespace Ledger

/-- The primary legs, whatever other legs there are. -/
def paperLegs (l : Ledger) (intentId : Nat) : Option (OrderLegRow × OrderLegRow) :=
  let legs := l.legsOfIntent intentId
  match legs.find? (·.leg = .primary .spot), legs.find? (·.leg = .primary .perp) with
  | some spot, some perp => some (spot, perp)
  | _, _ => none

/-- Both primary legs of a paper intent are filled. -/
def fillPaperLegs (intent : TradeIntentRow) (spot perp spotRow perpRow : OrderLegRow)
    (spotFill perpFill : ℚ) (now : Int) (l : Ledger) : Ledger :=
  { l with
    legs := Table.put (Table.put l.legs spotRow) perpRow
    fills := l.fills ++ paperFills intent spot spotFill l.nextId now
      ++ paperFills intent perp perpFill (l.nextId + 1) now
    nextId := l.nextId + 2 }

/-- The excess of one leg is to be undone on paper. -/
def protectPaper (intent : TradeIntentRow) (excess : OrderLegRow) (quantity : ℚ) (now : Int)
    (hq : 0 < quantity) (l : Ledger) : Except Exc (TradeIntentRow × Ledger) := do
  let l ← l.insertLeg (paperCompensationLeg intent excess quantity
    (paperCompensationId excess.clientOrderId) l.nextId now hq)
  return l.moveIntent intent .compensating intent.failureCode

/-- A new open position of a hedged paper intent. -/
def openPaper (intent : TradeIntentRow) (spot perp : OrderLegRow) (quantity fees : ℚ) (now : Int)
    (l : Ledger) : PairedPositionRow × Ledger :=
  let position := openedPosition intent quantity spot.limitPrice perp.limitPrice fees l.nextId now
  (position, { l with positions := l.positions ++ [position], nextId := l.nextId + 1 })

/-! ## §2. Opening on paper. -/

/-- `record_paper_open_fills`. -/
def recordPaperOpenFills (intentId : Nat) (spotFill perpFill : ℚ) (now : Int) (l : Ledger) :
    Except Exc (Option Settled × Ledger) :=
  match Table.find? l.intents intentId with
  | none => .ok (none, l)
  | some intent =>
      match l.positions.find? (·.openingIntentId = intent.id) with
      | some position => .ok (some (intent, some position, false), l)
      | none =>
          if ¬(intent.environment = .paper ∧ intent.action = .opening ∧ intent.status = .planned)
          then .ok (none, l)
          else match l.paperLegs intent.id with
            | none => .ok (none, l)
            | some (spot, perp) =>
                if h : ¬((0 ≤ spotFill ∧ spotFill ≤ spot.quantity)
                    ∧ 0 ≤ perpFill ∧ perpFill ≤ perp.quantity) then
                  .error (.value "paper fill quantity is outside the order quantity")
                else
                  have hs : 0 ≤ spotFill := (not_not.mp h).1.1
                  have hp : 0 ≤ perpFill := (not_not.mp h).2.1
                  let l := l.fillPaperLegs intent spot perp (paperFilled spot spotFill hs)
                    (paperFilled perp perpFill hp) spotFill perpFill now
                  if he : spotFill - perpFill ≠ 0 then do
                    let excess := if perpFill < spotFill then spot else perp
                    let (intent, l) ← l.protectPaper intent excess |spotFill - perpFill| now
                      (abs_pos.mpr he)
                    return (some (intent, none, true), l)
                  else if 0 < min spotFill perpFill then
                    let fees := paperFee intent spot spotFill + paperFee intent perp perpFill
                    let (position, l) := l.openPaper intent spot perp (min spotFill perpFill) fees now
                    let (intent, l) := l.moveIntent intent .hedged intent.failureCode
                    .ok (some (intent, some position, true), l)
                  else
                    let (intent, l) := l.moveIntent intent .failed (some .noFills)
                    .ok (some (intent, none, true), l)

/-- The compensation leg filled completely at its limit. -/
def fillPaperCompensation (intent : TradeIntentRow) (c : OrderLegRow) (now : Int) (l : Ledger) :
    Ledger :=
  { l with
    legs := Table.put l.legs (paperFilled c c.quantity c.quantity_pos.1.le)
    fills := l.fills ++ paperFills intent c c.quantity l.nextId now
    nextId := l.nextId + 1 }

/-- A paper compensation that fails leaves its intent to manual review and pauses
the execution. -/
def failPaperCompensation (intent : TradeIntentRow) (c : OrderLegRow) (l : Ledger) :
    TradeIntentRow × Ledger :=
  let l := { l with legs := Table.put l.legs { c with status := .failed } : Ledger }
  (l.pause "paired trade compensation failed; manual exposure review is required").moveIntent
    intent .manualReview intent.failureCode

/-- `execute_paper_compensation`. -/
def executePaperCompensation (intentId : Nat) (succeeds : Bool) (now : Int) (l : Ledger) :
    Except Exc (Option Settled × Ledger) :=
  match Table.find? l.intents intentId with
  | none => .ok (none, l)
  | some intent =>
      match l.positions.find? (·.openingIntentId = intent.id) with
      | some position => .ok (some (intent, some position, false), l)
      | none =>
          if ¬(intent.environment = .paper ∧ intent.action = .opening
              ∧ intent.status = .compensating) then .ok (none, l)
          else match l.paperLegs intent.id,
              (l.legsOfIntent intent.id).filter (·.leg.isCompensation) with
            | some (spot, perp), [c] =>
                if ¬succeeds then
                  let (intent, l) := l.failPaperCompensation intent c
                  .ok (some (intent, none, true), l)
                else
                  let l := l.fillPaperCompensation intent c now
                  let common := min spot.filledQuantity perp.filledQuantity
                  let fees := paperFee intent c c.quantity
                    + (paperFee intent spot spot.filledQuantity
                      + paperFee intent perp perp.filledQuantity)
                  if 0 < common then
                    let (position, l) := l.openPaper intent spot perp common fees now
                    let (intent, l) := l.moveIntent intent .hedged intent.failureCode
                    .ok (some (intent, some position, true), l)
                  else
                    let (intent, l) := l.moveIntent intent .failed (some .exposureNeutralized)
                    .ok (some (intent, none, true), l)
            | _, _ => .ok (none, l)

/-! ## §3. Closing on paper. -/

/-- What `_apply_paper_close_outcome` books.  `spot` and `perp` are the legs as
they have filled. -/
def paperCloseOutcome (intent : TradeIntentRow) (position : PairedPositionRow)
    (spot perp : OrderLegRow) (compensationFee : ℚ) : Except Exc CloseOutcome := do
  let common := min spot.filledQuantity perp.filledQuantity
  raiseIf (position.quantity < common) (.value "paper close fill exceeds the remaining position")
  let fees := paperFee intent spot spot.filledQuantity + paperFee intent perp perp.filledQuantity
    + compensationFee
  let allocation ← (if common = position.quantity then .ok position.remainingOpeningFeesUsdt
    else if position.quantity = 0 then .error (.ofKind .arithmetic "division by zero")
    else .ok (position.remainingOpeningFeesUsdt * common / position.quantity) : Except Exc ℚ)
  return {
    quantity := common
    grossPnl := ((spot.limitPrice - position.spotEntryPrice)
      + (position.perpEntryPrice - perp.limitPrice)) * common
    openingFeeAllocation := allocation
    closingFees := fees
    status := if position.quantity - common = 0 ∨ 0 < common then .closed else .failed }

/-- The position after a paper close. -/
def paperAfterClose (position : PairedPositionRow) (o : CloseOutcome) (now : Int) :
    PairedPositionRow :=
  let position := { position with
    closingFeesUsdt := some (position.closingFeesUsdt.getD 0 + o.closingFees)
    realizedPnlUsdt := some (position.realizedPnlUsdt.getD 0 + o.netPnl)
    remainingOpeningFeesUsdt := position.remainingOpeningFeesUsdt - o.openingFeeAllocation
    quantity := position.quantity - o.quantity }
  if position.quantity = 0 then { position with status := .closed, closedAt := some now }
  else { position with status := .opened, closingIntentId := none }

/-- `_apply_paper_close_outcome`. -/
def applyPaperCloseOutcome (intent : TradeIntentRow) (position : PairedPositionRow)
    (spot perp : OrderLegRow) (compensationFee : ℚ) (now : Int) (l : Ledger) :
    Except Exc (Settled × Ledger) := do
  let o ← paperCloseOutcome intent position spot perp compensationFee
  let l ← l.insertRealization position intent o now
  let position := paperAfterClose position o now
  let code := if o.status = .failed then some FailureCode.noFills else intent.failureCode
  let (intent, l) := { l with positions := Table.put l.positions position : Ledger }.moveIntent
    intent o.status code
  return ((intent, some position, true), l)

/-- What a paper close looks into: the intent and the position it has reserved. -/
def paperClosing (l : Ledger) (intent : TradeIntentRow) (position : PairedPositionRow)
    (status : IntentStatus) : Prop :=
  intent.environment = .paper ∧ intent.action = .closing ∧ intent.status = status
    ∧ isReserved position intent ∧ l.positionOf intent = some position

instance (l : Ledger) (intent : TradeIntentRow) (position : PairedPositionRow)
    (status : IntentStatus) : Decidable (l.paperClosing intent position status) :=
  inferInstanceAs (Decidable (_ ∧ _ ∧ _ ∧ _ ∧ _))

/-- `record_paper_close_fills`. -/
def recordPaperCloseFills (intentId : Nat) (spotFill perpFill : ℚ) (now : Int) (l : Ledger) :
    Except Exc (Option Settled × Ledger) :=
  match Table.find? l.intents intentId with
  | none => .ok (none, l)
  | some intent =>
      match l.positionOf intent with
      | none => .ok (none, l)
      | some position =>
          if intent.status.isTerminal then .ok (some (intent, some position, false), l)
          else if ¬l.paperClosing intent position .planned then .ok (none, l)
          else match l.paperLegs intent.id with
            | none => .ok (none, l)
            | some (spot, perp) =>
                if h : ¬((0 ≤ spotFill ∧ spotFill ≤ spot.quantity)
                    ∧ 0 ≤ perpFill ∧ perpFill ≤ perp.quantity) then
                  .error (.value "paper fill quantity is outside the order quantity")
                else
                  have hs : 0 ≤ spotFill := (not_not.mp h).1.1
                  have hp : 0 ≤ perpFill := (not_not.mp h).2.1
                  let spotRow := paperFilled spot spotFill hs
                  let perpRow := paperFilled perp perpFill hp
                  let l := l.fillPaperLegs intent spot perp spotRow perpRow spotFill perpFill now
                  if he : spotFill - perpFill ≠ 0 then do
                    let excess := if perpFill < spotFill then spot else perp
                    let (intent, l) ← l.protectPaper intent excess |spotFill - perpFill| now
                      (abs_pos.mpr he)
                    return (some (intent, some position, true), l)
                  else do
                    let (settled, l) ←
                      l.applyPaperCloseOutcome intent position spotRow perpRow 0 now
                    return (some settled, l)

/-- `execute_paper_close_compensation`. -/
def executePaperCloseCompensation (intentId : Nat) (succeeds : Bool) (now : Int) (l : Ledger) :
    Except Exc (Option Settled × Ledger) :=
  match Table.find? l.intents intentId with
  | none => .ok (none, l)
  | some intent =>
      match l.positionOf intent with
      | none => .ok (none, l)
      | some position =>
          if intent.status.isTerminal then .ok (some (intent, some position, false), l)
          else if ¬l.paperClosing intent position .compensating then .ok (none, l)
          else match l.paperLegs intent.id,
              (l.legsOfIntent intent.id).filter (·.leg.isCompensation) with
            | some (spot, perp), [c] =>
                if ¬succeeds then
                  let (intent, l) := l.failPaperCompensation intent c
                  .ok (some (intent, some position, true), l)
                else do
                  let l := l.fillPaperCompensation intent c now
                  let (settled, l) ← l.applyPaperCloseOutcome intent position spot perp
                    (paperFee intent c c.quantity) now
                  return (some settled, l)
            | _, _ => .ok (none, l)

end Ledger

end BasisHawk.Paired
