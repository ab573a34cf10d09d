/-
  BasisHawk.Paired.Rows
  ─────────────────────
  The tables of the two-leg executor (`storage.py`): trade intents, their
  order legs and fills, paired positions and realized PnL.

  A row carries the CHECK constraints of its table as fields, and what every
  writer of the row keeps (a leg with a fill has an average price).  A UUID is
  a number; where its text matters (client order ids) the row has the text.
-/
import Mathlib.Data.List.Sort
import Mathlib.Algebra.BigOperators.Group.List.Basic
import Mathlib.Algebra.Order.BigOperators.Group.List
import BasisHawk.Domain.Basic
import BasisHawk.Lib.Table
import BasisHawk.Lib.Transaction
import BasisHawk.MultiLeg.Rows

namespace BasisHawk.Paired

open Domain Lib
open MultiLeg (ExecutionControlRow)

/-! ## §1. Statuses. -/

/-- The two actions, `open` and `close`. -/
inductive TradeAction where
  | opening | closing
  deriving DecidableEq, Repr

inductive IntentStatus where
  | planned | executing | hedged | compensating | manualReview | closed | failed
  deriving DecidableEq, Repr

/-- The statuses an intent never leaves. -/
def IntentStatus.isTerminal : IntentStatus → Bool
  | .closed | .failed => true
  | _ => false

inductive LegStatus where
  | created | submitted | acknowledged | partiallyFilled | filled | canceled | failed | unknown
  deriving DecidableEq, Repr

namespace LegStatus

/-- `{"filled", "canceled", "failed"}`. -/
def isTerminal : LegStatus → Bool
  | .filled | .canceled | .failed => true
  | _ => false

/-- `{"submitted", "acknowledged", "partially_filled", "unknown"}`: the order
may still be at the exchange. -/
def isActive : LegStatus → Bool
  | .submitted | .acknowledged | .partiallyFilled | .unknown => true
  | _ => false

end LegStatus

/-- The name of a leg within its intent: `spot`, `perp`, `spot_compensation`,
`perp_compensation`. -/
inductive LegName where
  | primary (m : Market)
  | compensation (m : Market)
  deriving DecidableEq, Repr

/-- `name.endswith("_compensation")`. -/
def LegName.isCompensation : LegName → Bool
  | .primary _ => false
  | .compensation _ => true

/-- `f"{leg}_compensation"` of a primary leg. -/
def LegName.protection : LegName → LegName
  | .primary m => .compensation m
  | .compensation m => .compensation m

/-- The statuses `open`, `closing` and `closed`. -/
inductive PositionStatus where
  | opened | closing | closed
  deriving DecidableEq, Repr

/-- The codes `ck_trade_intent_failure_code` admits. -/
inductive FailureCode where
  | marketDataExpired | marketUnexecutable | noFills | exposureNeutralized
  | stateTransitionFailed | credentialMissing | accountClientFailed | accountSnapshotFailed
  | remoteStateFailed | accountSnapshotStale | tradePermissionUnconfirmed | positionModeUnknown
  | remoteStateIncomplete | remoteOpenOrders | intentMissing | intentLegsInvalid
  | remotePositionsPresent | balanceInsufficient | perpConfigurationFailed | closeStateMismatch
  | spotFeeModeChanged | preflightInternalError
  deriving DecidableEq, Repr

/-- The code as `execution_control.reason` spells it. -/
def FailureCode.name : FailureCode → String
  | .marketDataExpired => "market_data_expired"
  | .marketUnexecutable => "market_unexecutable"
  | .noFills => "no_fills"
  | .exposureNeutralized => "exposure_neutralized"
  | .stateTransitionFailed => "state_transition_failed"
  | .credentialMissing => "credential_missing"
  | .accountClientFailed => "account_client_failed"
  | .accountSnapshotFailed => "account_snapshot_failed"
  | .remoteStateFailed => "remote_state_failed"
  | .accountSnapshotStale => "account_snapshot_stale"
  | .tradePermissionUnconfirmed => "trade_permission_unconfirmed"
  | .positionModeUnknown => "position_mode_unknown"
  | .remoteStateIncomplete => "remote_state_incomplete"
  | .remoteOpenOrders => "remote_open_orders"
  | .intentMissing => "intent_missing"
  | .intentLegsInvalid => "intent_legs_invalid"
  | .remotePositionsPresent => "remote_positions_present"
  | .balanceInsufficient => "balance_insufficient"
  | .perpConfigurationFailed => "perp_configuration_failed"
  | .closeStateMismatch => "close_state_mismatch"
  | .spotFeeModeChanged => "spot_fee_mode_changed"
  | .preflightInternalError => "preflight_internal_error"

/-! ## §2. Rows. -/

/-- `TradeIntentRow`.  `token` is the text of its id without dashes. -/
structure TradeIntentRow where
  id : Nat
  token : String
  pairedPositionId : Option Nat
  idempotencyKey : String
  exchange : Exchange
  environment : ExchangeEnvironment
  baseAsset : String
  action : TradeAction
  emergency : Bool
  status : IntentStatus
  failureCode : Option FailureCode
  leverage : Nat
  baseQuantity : ℚ
  spotFeeRate : ℚ
  perpFeeRate : ℚ
  spotBuyFeeInBase : Bool
  marketObservedAt : Int
  version : Nat
  createdAt : Int
  leverage_check : 1 ≤ leverage ∧ leverage ≤ 10
  emergency_check : emergency → action = .closing
  deriving DecidableEq

/-- `OrderLegRow`. -/
structure OrderLegRow where
  id : Nat
  tradeIntentId : Nat
  leg : LegName
  market : Market
  symbol : String
  side : Side
  clientOrderId : String
  exchangeOrderId : Option String
  status : LegStatus
  failureCode : Option String
  quantity : ℚ
  baseMultiplier : ℚ
  compensationTargetBaseQuantity : Option ℚ
  compensationToleranceBase : ℚ
  limitPrice : ℚ
  filledQuantity : ℚ
  averagePrice : Option ℚ
  reduceOnly : Bool
  createdAt : Int
  quantity_pos : 0 < quantity ∧ 0 < limitPrice
  multiplier_check : 0 < baseMultiplier
  tolerance_check : 0 ≤ compensationToleranceBase
  filled_nonneg : 0 ≤ filledQuantity
  average_iff : averagePrice.isSome ↔ 0 < filledQuantity

/-- Rows are compared column by column. -/
instance : DecidableEq OrderLegRow := fun a b =>
  decidable_of_iff
    (a.id = b.id ∧ a.tradeIntentId = b.tradeIntentId ∧ a.leg = b.leg ∧ a.market = b.market
      ∧ a.symbol = b.symbol ∧ a.side = b.side ∧ a.clientOrderId = b.clientOrderId
      ∧ a.exchangeOrderId = b.exchangeOrderId ∧ a.status = b.status
      ∧ a.failureCode = b.failureCode ∧ a.quantity = b.quantity
      ∧ a.baseMultiplier = b.baseMultiplier
      ∧ a.compensationTargetBaseQuantity = b.compensationTargetBaseQuantity
      ∧ a.compensationToleranceBase = b.compensationToleranceBase ∧ a.limitPrice = b.limitPrice
      ∧ a.filledQuantity = b.filledQuantity ∧ a.averagePrice = b.averagePrice
      ∧ a.reduceOnly = b.reduceOnly ∧ a.createdAt = b.createdAt)
    (by cases a; cases b; simp)

/-- `FillRow`. -/
structure FillRow where
  id : Nat
  orderLegId : Nat
  exchangeTradeId : String
  quantity : ℚ
  price : ℚ
  feeAmount : ℚ
  feeAsset : String
  liquidity : String
  occurredAt : Int
  quantity_price_pos : 0 < quantity ∧ 0 < price

/-- Rows are compared column by column. -/
instance : DecidableEq FillRow := fun a b =>
  decidable_of_iff
    (a.id = b.id ∧ a.orderLegId = b.orderLegId ∧ a.exchangeTradeId = b.exchangeTradeId
      ∧ a.quantity = b.quantity ∧ a.price = b.price ∧ a.feeAmount = b.feeAmount
      ∧ a.feeAsset = b.feeAsset ∧ a.liquidity = b.liquidity ∧ a.occurredAt = b.occurredAt)
    (by cases a; cases b; simp)

/-- `PairedPositionRow`. -/
structure PairedPositionRow where
  id : Nat
  openingIntentId : Nat
  closingIntentId : Option Nat
  exchange : Exchange
  environment : ExchangeEnvironment
  baseAsset : String
  initialQuantity : ℚ
  quantity : ℚ
  spotEntryPrice : ℚ
  perpEntryPrice : ℚ
  openingFeesUsdt : ℚ
  remainingOpeningFeesUsdt : ℚ
  closingFeesUsdt : Option ℚ
  realizedPnlUsdt : Option ℚ
  status : PositionStatus
  openedAt : Int
  closedAt : Option Int
  deriving DecidableEq

/-- `PnlRealizationRow`. -/
structure PnlRealizationRow where
  id : Nat
  pairedPositionId : Nat
  closingIntentId : Nat
  quantity : ℚ
  grossPnlUsdt : ℚ
  openingFeeAllocatedUsdt : ℚ
  closingFeesUsdt : ℚ
  netPnlUsdt : ℚ
  realizedAt : Int
  quantity_nonnegative : 0 ≤ quantity
  opening_fee_nonnegative : 0 ≤ openingFeeAllocatedUsdt
  closing_fees_nonnegative : 0 ≤ closingFeesUsdt

/-- Rows are compared column by column. -/
instance : DecidableEq PnlRealizationRow := fun a b =>
  decidable_of_iff
    (a.id = b.id ∧ a.pairedPositionId = b.pairedPositionId
      ∧ a.closingIntentId = b.closingIntentId ∧ a.quantity = b.quantity
      ∧ a.grossPnlUsdt = b.grossPnlUsdt ∧ a.openingFeeAllocatedUsdt = b.openingFeeAllocatedUsdt
      ∧ a.closingFeesUsdt = b.closingFeesUsdt ∧ a.netPnlUsdt = b.netPnlUsdt
      ∧ a.realizedAt = b.realizedAt)
    (by cases a; cases b; simp)

/-! A row just created passes its own checks. -/

/-- A leverage of one is within the check of the column. -/
theorem TradeIntentRow.unlevered : 1 ≤ 1 ∧ 1 ≤ 10 := by decide

/-- An intent that is no emergency meets the check of that column. -/
theorem TradeIntentRow.ordinary_opening : false = true → TradeAction.opening = .closing :=
  fun h => by cases h

/-- A multiplier of one is positive, as the column asks. -/
theorem OrderLegRow.unit_multiplier : (0 : ℚ) < 1 := one_pos

theorem OrderLegRow.zero_nonneg : (0 : ℚ) ≤ 0 := le_refl 0

/-- A leg without fills has no average price, as the check asks. -/
theorem OrderLegRow.unfilled_average : (none : Option ℚ).isSome ↔ (0 : ℚ) < 0 :=
  ⟨fun h => (by cases h), fun h => absurd h (lt_irrefl 0)⟩

instance : Keyed TradeIntentRow := ⟨(·.id)⟩
instance : Keyed OrderLegRow := ⟨(·.id)⟩
instance : Keyed PairedPositionRow := ⟨(·.id)⟩

/-- The tables the two-leg executor works on.  `nextId` stands for the supply
of fresh UUIDs. -/
structure Ledger where
  control : Option ExecutionControlRow
  intents : List TradeIntentRow
  legs : List OrderLegRow
  fills : List FillRow
  positions : List PairedPositionRow
  realizations : List PnlRealizationRow
  nextId : Nat
  deriving DecidableEq

/-! ## §3. Legs. -/

namespace OrderLegRow

/-- `filled_quantity * base_multiplier`. -/
def filledBase (o : OrderLegRow) : ℚ := o.filledQuantity * o.baseMultiplier

/-- `quantity * base_multiplier`. -/
def base (o : OrderLegRow) : ℚ := o.quantity * o.baseMultiplier

/-- What is filled is not negative, in base units too. -/
theorem filledBase_nonneg (o : OrderLegRow) : 0 ≤ o.filledBase :=
  mul_nonneg o.filled_nonneg o.multiplier_check.le

/-- A leg is filled in base units exactly if it is filled at all. -/
theorem filledBase_pos_iff (o : OrderLegRow) : 0 < o.filledBase ↔ 0 < o.filledQuantity := by
  unfold filledBase
  rw [mul_pos_iff_of_pos_right o.multiplier_check]

/-- A leg has an average price exactly if it has filled. -/
theorem averagePrice_none_iff (o : OrderLegRow) : o.averagePrice = none ↔ o.filledBase = 0 := by
  have hpos := o.filledBase_pos_iff
  have hnonneg := o.filledBase_nonneg
  have hiff := o.average_iff
  rw [← Option.not_isSome_iff_eq_none, hiff, ← hpos, not_lt]
  exact ⟨fun h => le_antisymm h hnonneg, fun h => h.le⟩

/-- A leg with an average price has traded. -/
theorem filledBase_pos_of_average {o : OrderLegRow} {p : ℚ} (h : o.averagePrice = some p) :
    0 < o.filledBase := by
  refine lt_of_le_of_ne o.filledBase_nonneg fun h0 => ?_
  rw [o.averagePrice_none_iff.mpr h0.symm] at h
  cases h

end OrderLegRow

/-- The legs of an intent: the two primary ones and, where there is one, the
leg that protects against their imbalance. -/
structure Layout where
  spot : OrderLegRow
  perp : OrderLegRow
  compensation : Option OrderLegRow
  deriving DecidableEq

/-- The primary legs are terminal. -/
def Layout.isTerminal (y : Layout) : Bool := y.spot.status.isTerminal && y.perp.status.isTerminal

/-! ## §4. Queries. -/

namespace Ledger

/-- The legs of an intent. -/
def legsOfIntent (l : Ledger) (intentId : Nat) : List OrderLegRow :=
  l.legs.filter (fun o => o.tradeIntentId = intentId)

/-- The fills of a leg. -/
def fillsOfLeg (l : Ledger) (legId : Nat) : List FillRow :=
  l.fills.filter (fun f => f.orderLegId = legId)

/-- The fills of all legs of an intent. -/
def fillsOfIntent (l : Ledger) (intentId : Nat) : List FillRow :=
  l.fills.filter (fun f => ∃ o ∈ l.legs, o.id = f.orderLegId ∧ o.tradeIntentId = intentId)

/-- The layout the settlements insist on: both primary legs, at most one
protection leg, and nothing else. -/
def layout (l : Ledger) (intentId : Nat) : Except Exc Layout :=
  let legs := l.legsOfIntent intentId
  let invalid : Exc := .value "live intent contains an invalid compensation layout"
  match legs.find? (·.leg = .primary .spot), legs.find? (·.leg = .primary .perp) with
  | some spot, some perp =>
      match legs.filter (·.leg.isCompensation) with
      | [] => if legs.length = 2 then .ok ⟨spot, perp, none⟩ else .error invalid
      | [c] => if legs.length = 3 then .ok ⟨spot, perp, some c⟩ else .error invalid
      | _ => .error invalid
  | _, _ => .error invalid

/-- `execution_control` is set to `paused`, the row created if missing. -/
def pause (reason : String) (l : Ledger) : Ledger :=
  { l with control := some ⟨.paused, reason⟩ }

@[simp] theorem pause_intents (reason : String) (l : Ledger) :
    (l.pause reason).intents = l.intents := rfl
@[simp] theorem pause_legs (reason : String) (l : Ledger) : (l.pause reason).legs = l.legs := rfl
@[simp] theorem pause_fills (reason : String) (l : Ledger) : (l.pause reason).fills = l.fills := rfl
@[simp] theorem pause_positions (reason : String) (l : Ledger) :
    (l.pause reason).positions = l.positions := rfl
@[simp] theorem pause_realizations (reason : String) (l : Ledger) :
    (l.pause reason).realizations = l.realizations := rfl
@[simp] theorem pause_nextId (reason : String) (l : Ledger) :
    (l.pause reason).nextId = l.nextId := rfl

end Ledger

end BasisHawk.Paired
