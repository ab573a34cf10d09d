/-
  BasisHawk.MultiLeg.Rows
  ───────────────────────
  The tables of the multi-leg executor (`storage.py`).

  A row carries the CHECK constraints of its table as fields, so a row that
  the database would refuse cannot be built.  A table is the list of its rows
  in insertion order.
-/
import Mathlib.Data.List.Sort
import Mathlib.Data.Prod.Lex
import BasisHawk.Domain.Basic
import BasisHawk.Lib.Table

namespace BasisHawk.MultiLeg

open Domain Lib

/-! ## §1. Statuses. -/

inductive TaskStatus where
  | draft | preflightReady | queued | running | hedging | compensating
  | completed | failed | manualReview | emergencyStopped
  deriving DecidableEq, Repr

/-- The name of a status in messages. -/
def TaskStatus.name : TaskStatus → String
  | .draft => "draft"
  | .preflightReady => "preflight_ready"
  | .queued => "queued"
  | .running => "running"
  | .hedging => "hedging"
  | .compensating => "compensating"
  | .completed => "completed"
  | .failed => "failed"
  | .manualReview => "manual_review"
  | .emergencyStopped => "emergency_stopped"

/-- The states the executor claims a started task in. -/
def TaskStatus.isStarted : TaskStatus → Bool
  | .running | .hedging | .compensating => true
  | _ => false

inductive RunStatus where
  | queued | running | completed | failed | manualReview
  deriving DecidableEq, Repr

inductive OrderStatus where
  | created | submitted | acknowledged | partiallyFilled | cancelPending | unknown
  | filled | canceled | rejected | failed
  deriving DecidableEq, Repr

namespace OrderStatus

/-- `TERMINAL_ORDER_STATUSES`. -/
def isTerminal : OrderStatus → Bool
  | .filled | .canceled | .rejected | .failed => true
  | _ => false

/-- `ACTIVE_ORDER_STATUSES`. -/
def isActive : OrderStatus → Bool
  | .created | .submitted | .acknowledged | .partiallyFilled | .cancelPending | .unknown => true
  | _ => false

/-- The statuses `run_once` takes for an undecided order after a failure. -/
def isUncertain : OrderStatus → Bool
  | .submitted | .acknowledged | .partiallyFilled | .cancelPending | .unknown => true
  | _ => false

/-- An order is active exactly as long as it has not ended: `unknown` and
`cancel_pending` count as active. -/
theorem isActive_eq_not_isTerminal (s : OrderStatus) : s.isActive = !s.isTerminal := by
  cases s <;> rfl

/-- The two sets differ in `created` alone. -/
theorem isActive_iff (s : OrderStatus) : s.isActive ↔ s.isUncertain ∨ s = .created := by
  cases s <;> simp [isActive, isUncertain]

end OrderStatus

inductive Purpose where
  | primary | compensation
  deriving DecidableEq, Repr

inductive QuantityMode where
  | base | usdt
  deriving DecidableEq, Repr

inductive HedgeTrigger where
  | realtime | cumulativePercent
  deriving DecidableEq, Repr

inductive LegRole where
  | anchor | hedge
  deriving DecidableEq, Repr

inductive MarketType where
  | spot | perpetual
  deriving DecidableEq, Repr

/-- The market the account client is asked about. -/
def MarketType.market : MarketType → Market
  | .spot => .spot
  | .perpetual => .perp

/-! ## §2. Rows. -/

/-- `ExecutionTaskRow`. -/
structure ExecutionTaskRow where
  id : Nat
  name : String
  environment : ExchangeEnvironment
  baseAsset : String
  quantityMode : QuantityMode
  createStrategy : Bool
  hedgeTrigger : HedgeTrigger
  hedgeThreshold : Option ℚ
  maximumBaseExposure : ℚ
  maximumNotionalExposureUsdt : ℚ
  maximumRetries : Nat
  status : TaskStatus
  failureCode : Option String
  preflightExpiresAt : Option Int
  version : Nat
  createdAt : Int
  threshold_check :
    (hedgeTrigger = .realtime ∧ hedgeThreshold = none)
      ∨ (hedgeTrigger = .cumulativePercent ∧ ∃ t ∈ hedgeThreshold, 0 < t ∧ t ≤ 1)
  exposure_check : 0 < maximumBaseExposure ∧ 0 < maximumNotionalExposureUsdt
  retries_check : maximumRetries ≤ 20
  deriving DecidableEq

/-- `ExecutionTaskLegRow`. -/
structure ExecutionTaskLegRow where
  id : Nat
  taskId : Nat
  accountId : Option Nat
  exchange : Exchange
  ordinal : Nat
  role : LegRole
  marketType : MarketType
  side : Side
  baseAsset : String
  symbol : String
  targetQuantity : ℚ
  resolvedBaseQuantity : Option ℚ
  signedBaseRatio : Option ℚ
  perOrderQuantity : ℚ
  orderMode : OrderMode
  maximumSlippage : ℚ
  makerBookLevel : Option Nat
  makerMaximumChases : Option Nat
  makerFallbackMode : Option OrderMode
  marginMode : Option PerpMarginMode
  leverage : Nat
  reduceOnly : Bool
  target_check : 0 < targetQuantity
  child_check : 0 ≤ perOrderQuantity ∧ perOrderQuantity ≤ targetQuantity
  slippage_check : 0 < maximumSlippage ∧ maximumSlippage ≤ 1 / 4
  maker_check :
    (orderMode = .maker ∧ (∃ n ∈ makerBookLevel, 1 ≤ n ∧ n ≤ 20)
        ∧ ∃ n ∈ makerMaximumChases, n ≤ 200)
      ∨ (orderMode ≠ .maker ∧ makerBookLevel = none ∧ makerMaximumChases = none
          ∧ makerFallbackMode = none)
  fallback_check : makerFallbackMode ≠ some .maker
  margin_check :
    (marketType = .spot ∧ marginMode = none ∧ leverage = 1 ∧ reduceOnly = false)
      ∨ (marketType = .perpetual ∧ marginMode.isSome ∧ 1 ≤ leverage ∧ leverage ≤ 10)
  deriving DecidableEq

/-- A leg row with its resolution forgotten. -/
def ExecutionTaskLegRow.planned (l : ExecutionTaskLegRow) : ExecutionTaskLegRow :=
  { l with resolvedBaseQuantity := none, signedBaseRatio := none }

/-- The plan of a leg includes its identifier. -/
theorem planned_id {l l' : ExecutionTaskLegRow} (h : l.planned = l'.planned) : l.id = l'.id :=
  show l.planned.id = l'.planned.id from congrArg _ h

/-- `ExecutionRunRow`. -/
structure ExecutionRunRow where
  id : Nat
  taskId : Nat
  runNumber : Nat
  status : RunStatus
  workerId : Option String
  failureCode : Option String
  startedAt : Option Int
  finishedAt : Option Int
  deriving DecidableEq

/-- `ExecutionOrderRow`. -/
structure ExecutionOrderRow where
  id : Nat
  runId : Nat
  taskLegId : Nat
  parentOrderId : Option Nat
  attemptNumber : Nat
  chaseNumber : Nat
  clientOrderId : String
  exchangeOrderId : Option String
  orderMode : OrderMode
  side : Side
  reduceOnly : Bool
  purpose : Purpose
  status : OrderStatus
  quantity : ℚ
  baseMultiplier : ℚ
  limitPrice : Option ℚ
  filledQuantity : ℚ
  averagePrice : Option ℚ
  submittedAt : Option Int
  terminalAt : Option Int
  createdAt : Int
  quantity_check : 0 < quantity ∧ 0 < baseMultiplier
  filled_check : 0 ≤ filledQuantity ∧ filledQuantity ≤ quantity
  deriving DecidableEq

/-- `ExecutionFillRow`. -/
structure ExecutionFillRow where
  id : Nat
  executionOrderId : Nat
  exchangeTradeId : String
  quantity : ℚ
  price : ℚ
  feeAmount : ℚ
  feeAsset : String
  liquidity : String
  occurredAt : Int
  quantity_price_check : 0 < quantity ∧ 0 < price
  deriving DecidableEq

/-- `ArbitrageStrategyRow`, as far as a completed task fills it in. -/
structure ArbitrageStrategyRow where
  id : Nat
  name : String
  environment : ExchangeEnvironment
  baseAsset : String
  openingTaskId : Nat
  feesUsdt : ℚ
  openedAt : Int
  deriving DecidableEq

/-- `StrategyLegRow`, as far as a completed task fills it in. -/
structure StrategyLegRow where
  id : Nat
  strategyId : Nat
  openingTaskLegId : Nat
  accountId : Option Nat
  ordinal : Nat
  marketType : MarketType
  side : Side
  symbol : String
  initialBaseQuantity : ℚ
  remainingBaseQuantity : ℚ
  entryPrice : ℚ
  feesUsdt : ℚ
  deriving DecidableEq

/-- `ExecutionControlRow`. -/
structure ExecutionControlRow where
  state : ControlState
  reason : String
  deriving DecidableEq

instance : Keyed ExecutionTaskRow := ⟨(·.id)⟩
instance : Keyed ExecutionTaskLegRow := ⟨(·.id)⟩
instance : Keyed ExecutionRunRow := ⟨(·.id)⟩
instance : Keyed ExecutionOrderRow := ⟨(·.id)⟩

/-- The tables the executor works on.  `nextId` stands for the supply of fresh
UUIDs. -/
structure Database where
  control : Option ExecutionControlRow
  tasks : List ExecutionTaskRow
  legs : List ExecutionTaskLegRow
  runs : List ExecutionRunRow
  orders : List ExecutionOrderRow
  fills : List ExecutionFillRow
  strategies : List ArbitrageStrategyRow
  strategyLegs : List StrategyLegRow
  nextId : Nat
  deriving DecidableEq

/-! ## §3. Queries. -/

/-- The base quantity an order has filled. -/
def ExecutionOrderRow.filledBase (o : ExecutionOrderRow) : ℚ :=
  o.filledQuantity * o.baseMultiplier

theorem ExecutionOrderRow.filledBase_nonneg (o : ExecutionOrderRow) : 0 ≤ o.filledBase :=
  mul_nonneg o.filled_check.1 o.quantity_check.2.le

/-- The base quantity the orders of one leg and purpose have filled. -/
def filledBaseOf (orders : List ExecutionOrderRow) (legId : Nat) (purpose : Purpose) : ℚ :=
  ((orders.filter (fun o => o.taskLegId = legId ∧ o.purpose = purpose)).map (·.filledBase)).sum

/-- `ORDER BY created_at, attempt_number, chase_number`. -/
def ExecutionOrderRow.sortKey (o : ExecutionOrderRow) : Int ×ₗ Nat ×ₗ Nat :=
  toLex (o.createdAt, toLex (o.attemptNumber, o.chaseNumber))

namespace Database

/-- The orders of a run in the order the queries return them. -/
def ordersOfRun (db : Database) (runId : Nat) : List ExecutionOrderRow :=
  (db.orders.filter (fun o => o.runId = runId)).insertionSort (fun a b => a.sortKey ≤ b.sortKey)

/-- The legs of a task by ordinal. -/
def legsOfTask (db : Database) (taskId : Nat) : List ExecutionTaskLegRow :=
  (db.legs.filter (fun l => l.taskId = taskId)).insertionSort (fun a b => a.ordinal ≤ b.ordinal)

/-- The orders of a run, read off the table. -/
theorem mem_ordersOfRun {db : Database} {runId : Nat} {o : ExecutionOrderRow} :
    o ∈ db.ordersOfRun runId ↔ o ∈ db.orders ∧ o.runId = runId := by
  unfold ordersOfRun
  rw [List.mem_insertionSort, List.mem_filter]
  simp only [decide_eq_true_eq]

/-- The legs of a task, read off the table: the sorting by ordinal changes their
order only. -/
theorem mem_legsOfTask {db : Database} {taskId : Nat} {l : ExecutionTaskLegRow} :
    l ∈ db.legsOfTask taskId ↔ l ∈ db.legs ∧ l.taskId = taskId := by
  unfold legsOfTask
  rw [List.mem_insertionSort, List.mem_filter]
  simp only [decide_eq_true_eq]

/-- The query order does not matter for what a run has filled. -/
theorem filledBaseOf_ordersOfRun (db : Database) (runId legId : Nat) (purpose : Purpose) :
    filledBaseOf (db.ordersOfRun runId) legId purpose
      = filledBaseOf (db.orders.filter (fun o => o.runId = runId)) legId purpose := by
  unfold filledBaseOf ordersOfRun
  exact List.Perm.sum_eq (((List.perm_insertionSort _ _).filter _).map _)

end Database

end BasisHawk.MultiLeg
