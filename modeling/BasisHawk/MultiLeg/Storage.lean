/-
  BasisHawk.MultiLeg.Storage
  ──────────────────────────
  The transactions of the multi-leg executor (`Database` in `storage.py`).

  A transaction takes the tables to a result and the tables it commits, or
  raises.  `now` is the wall clock it reads, `locked` the task rows that other
  transactions hold locked.  Audit events are not modelled.

  Contents:
    • the life of a task before it starts: planning, preflight, queueing,
      cancellation,
    • the transactions of a worker pass, in the order of the source.
-/
import BasisHawk.MultiLeg.Rows
import BasisHawk.Lib.Transaction

namespace BasisHawk.MultiLeg

open Domain Lib

/-- What a transaction sees of its surroundings. -/
structure Ambient where
  now : Int
  locked : List Nat

/-- The arithmetic of persisted decimals: a division to context precision, and
a column's rounding on the way in, which never takes a quantity below zero. -/
structure Numeric where
  divide : ℚ → ℚ → ℚ
  store : ℚ → ℚ
  store_nonneg : ∀ q, 0 ≤ q → 0 ≤ store q

namespace Database

/-! ## §1. Before a task starts. -/

/-- The rows `create_execution_task` inserts for a validated plan: one draft
task, its legs numbered in order, nothing resolved yet. -/
structure TaskPlan where
  task : ExecutionTaskRow
  legs : List ExecutionTaskLegRow
  leg_count : 2 ≤ legs.length ∧ legs.length ≤ 16
  one_anchor : (legs.filter (fun l => l.role = .anchor)).length = 1

/-- `create_execution_task`. -/
def createExecutionTask (plan : TaskPlan) (amb : Ambient) (db : Database) :
    Except Exc (ExecutionTaskRow × Database) :=
  let task := { plan.task with
    id := db.nextId, status := .draft, failureCode := none, preflightExpiresAt := none,
    version := 1, createdAt := amb.now }
  let legs := plan.legs.mapIdx fun i leg => { leg with
    id := db.nextId + 1 + i, taskId := task.id, ordinal := i,
    resolvedBaseQuantity := none, signedBaseRatio := none }
  .ok (task, { db with
    tasks := db.tasks ++ [task], legs := db.legs ++ legs,
    nextId := db.nextId + 1 + legs.length })

/-- `mark_execution_task_preflight_ready`. -/
def markExecutionTaskPreflightReady (taskId expectedVersion : Nat) (expiresAt : Int)
    (db : Database) : Except Exc (ExecutionTaskRow × Database) := do
  let row ← found (Table.find? db.tasks taskId) (.ofKind .key "task_id")
  raiseIf (row.version ≠ expectedVersion)
    (.value "execution task version changed during preflight")
  raiseIf (row.status ≠ .draft ∧ row.status ≠ .preflightReady)
    (.value ("execution task cannot be preflighted from " ++ row.status.name))
  let row := { row with
    status := .preflightReady, preflightExpiresAt := some expiresAt, failureCode := none,
    version := row.version + 1 }
  return (row, { db with tasks := Table.put db.tasks row })

/-- `queue_execution_task`. -/
def queueExecutionTask (taskId expectedVersion : Nat) (amb : Ambient) (db : Database) :
    Except Exc (ExecutionTaskRow × Database) := do
  let row ← found (Table.find? db.tasks taskId) (.ofKind .key "task_id")
  raiseIf (row.version ≠ expectedVersion) (.value "execution task version changed")
  raiseIf (row.status ≠ .preflightReady) (.value "execution task is not ready to start")
  raiseIf (¬∃ t ∈ row.preflightExpiresAt, amb.now < t)
    (.value "execution task preflight has expired")
  raiseIf (row.environment ≠ .paper ∧ ¬∃ c ∈ db.control, c.state = .ready)
    (.value "global execution control is not ready")
  let row := { row with status := .queued, version := row.version + 1 }
  return (row, { db with tasks := Table.put db.tasks row })

/-- `cancel_execution_task`. -/
def cancelExecutionTask (taskId expectedVersion : Nat) (db : Database) :
    Except Exc (ExecutionTaskRow × Database) := do
  let row ← found (Table.find? db.tasks taskId) (.ofKind .key "task_id")
  raiseIf (row.version ≠ expectedVersion) (.value "execution task version changed")
  raiseIf (row.status ≠ .draft ∧ row.status ≠ .preflightReady ∧ row.status ≠ .queued)
    (.value "only a task that has not started can be canceled")
  let row := { row with
    status := .emergencyStopped, preflightExpiresAt := none, version := row.version + 1 }
  return (row, { db with tasks := Table.put db.tasks row })

/-! ## §2. Claiming. -/

/-- What `claim_live_execution_task` returns: the rows as they stood when it
committed. -/
structure Claimed where
  task : ExecutionTaskRow
  legs : List ExecutionTaskLegRow
  run : ExecutionRunRow
  orders : List ExecutionOrderRow

/-- The claim query: the ten oldest claimable tasks that nobody holds locked. -/
def claimCandidates (amb : Ambient) (db : Database) : List ExecutionTaskRow :=
  ((db.tasks.filter fun t =>
      (t.environment = .sandbox ∨ t.environment = .live)
        ∧ (t.status = .queued ∨ t.status.isStarted) ∧ t.id ∉ amb.locked).insertionSort
    (fun a b => a.createdAt ≤ b.createdAt)).take 10

/-- A candidate is taken unless it is queued and the control state is not
`ready`. -/
def mayClaim (db : Database) (t : ExecutionTaskRow) : Bool :=
  t.status != .queued || db.control.any (fun c => c.state == .ready)

/-- The run a claimed task goes on with. -/
def openRun? (db : Database) (taskId : Nat) : Option ExecutionRunRow :=
  ((db.runs.filter fun r => r.taskId = taskId ∧ (r.status = .queued ∨ r.status = .running)).insertionSort
    (fun a b => b.runNumber ≤ a.runNumber)).head?

/-- `int(maximum_run or 0) + 1`. -/
def nextRunNumber (db : Database) (taskId : Nat) : Nat :=
  ((db.runs.filter fun r => r.taskId = taskId).map (·.runNumber)).foldr max 0 + 1

/-- The run of a claimed task, reopened or new, with the tables it is stored in. -/
def claimRun (taskId : Nat) (workerId : String) (amb : Ambient) (db : Database) :
    ExecutionRunRow × Database :=
  match db.openRun? taskId with
  | some run =>
      let run := { run with
        status := .running, workerId := some workerId,
        startedAt := some (run.startedAt.getD amb.now) }
      (run, { db with runs := Table.put db.runs run })
  | none =>
      let run : ExecutionRunRow := {
        id := db.nextId, taskId := taskId, runNumber := db.nextRunNumber taskId,
        status := .running, workerId := some workerId, failureCode := none,
        startedAt := some amb.now, finishedAt := none }
      (run, { db with runs := db.runs ++ [run], nextId := db.nextId + 1 })

/-- A queued task starts running when it is claimed. -/
def startTask (row : ExecutionTaskRow) : ExecutionTaskRow :=
  if row.status = .queued then { row with status := .running, version := row.version + 1 }
  else row

/-- `claim_live_execution_task`. -/
def claimLiveExecutionTask (workerId : String) (amb : Ambient) (db : Database) :
    Except Exc (Option Claimed × Database) :=
  match (db.claimCandidates amb).find? db.mayClaim with
  | none => .ok (none, db)
  | some row =>
      let claimed := db.claimRun row.id workerId amb
      let db := { claimed.2 with tasks := Table.put claimed.2.tasks (startTask row) }
      .ok (some ⟨startTask row, db.legsOfTask row.id, claimed.1, db.ordersOfRun claimed.1.id⟩, db)

/-! ## §3. Orders. -/

/-- The arguments of `create_execution_order_attempt`. -/
structure OrderAttempt where
  runId : Nat
  taskLegId : Nat
  clientOrderId : String
  orderMode : OrderMode
  side : Side
  reduceOnly : Bool
  purpose : Purpose
  quantity : ℚ
  baseMultiplier : ℚ
  limitPrice : Option ℚ
  parentOrderId : Option Nat

/-- The attempt and chase numbers of a new order. -/
def attemptNumbers (a : OrderAttempt) (db : Database) : Except Exc (Nat × Nat) :=
  match a.parentOrderId with
  | some parentId => do
      let parent ← found
        (db.orders.find? fun o => o.id = parentId ∧ o.runId = a.runId ∧ o.taskLegId = a.taskLegId)
        (.value "parent execution order was not found")
      raiseIf (¬parent.status.isTerminal) (.value "parent execution order is not terminal")
      return (parent.attemptNumber, parent.chaseNumber + 1)
  | none =>
      let attempts := db.orders.filter fun o => o.runId = a.runId ∧ o.taskLegId = a.taskLegId
      return ((attempts.map (·.attemptNumber)).foldr max 0 + 1, 0)

/-- `create_execution_order_attempt`.  The last three checks are the table's
constraints. -/
def createExecutionOrderAttempt (a : OrderAttempt) (amb : Ambient) (db : Database) :
    Except Exc (ExecutionOrderRow × Database) := do
  let run ← found (Table.find? db.runs a.runId) (.value "execution run or task leg was not found")
  let leg ← found (Table.find? db.legs a.taskLegId)
    (.value "execution run or task leg was not found")
  raiseIf (leg.taskId ≠ run.taskId) (.value "execution run or task leg was not found")
  raiseIf (∃ o ∈ db.orders, o.runId = a.runId ∧ o.taskLegId = a.taskLegId ∧ o.status.isActive)
    (.value "a nonterminal order already exists for this task leg")
  let (attemptNumber, chaseNumber) ← db.attemptNumbers a
  raiseIf (∃ o ∈ db.orders, o.clientOrderId = a.clientOrderId) (.integrity "client_order_id")
  raiseIf (∃ o ∈ db.orders, o.taskLegId = a.taskLegId ∧ o.attemptNumber = attemptNumber
    ∧ o.chaseNumber = chaseNumber) (.integrity "uq_execution_order_attempt_chase")
  if hq : 0 < a.quantity ∧ 0 < a.baseMultiplier then
    let row : ExecutionOrderRow := {
      id := db.nextId, runId := a.runId, taskLegId := a.taskLegId,
      parentOrderId := a.parentOrderId, attemptNumber, chaseNumber,
      clientOrderId := a.clientOrderId, exchangeOrderId := none, orderMode := a.orderMode,
      side := a.side, reduceOnly := a.reduceOnly, purpose := a.purpose, status := .created,
      quantity := a.quantity, baseMultiplier := a.baseMultiplier, limitPrice := a.limitPrice,
      filledQuantity := 0, averagePrice := none, submittedAt := none, terminalAt := none,
      createdAt := amb.now, quantity_check := hq, filled_check := ⟨le_refl 0, hq.1.le⟩ }
    return (row, { db with orders := db.orders ++ [row], nextId := db.nextId + 1 })
  else
    throw (.integrity "ck_execution_order_quantity")

/-- `mark_execution_order_submitted`. -/
def markExecutionOrderSubmitted (orderId : Nat) (exchangeOrderId : Option String) (amb : Ambient)
    (db : Database) : Except Exc (ExecutionOrderRow × Database) := do
  let row ← found (Table.find? db.orders orderId) (.value "execution order was not found")
  if row.status ≠ .created ∧ row.status ≠ .unknown then
    return (row, db)
  else
    let row := { row with
      exchangeOrderId := exchangeOrderId, status := .submitted,
      submittedAt := some (row.submittedAt.getD amb.now) }
    return (row, { db with orders := Table.put db.orders row })

/-- `mark_execution_order_unknown`. -/
def markExecutionOrderUnknown (orderId : Nat) (db : Database) :
    Except Exc (ExecutionOrderRow × Database) := do
  let row ← found (Table.find? db.orders orderId) (.value "execution order was not found")
  if row.status ≠ .created ∧ row.status ≠ .submitted ∧ row.status ≠ .unknown then
    return (row, db)
  else
    let row := { row with status := .unknown }
    return (row, { db with orders := Table.put db.orders row })

/-- `mark_execution_order_cancel_pending`. -/
def markExecutionOrderCancelPending (orderId : Nat) (db : Database) :
    Except Exc (ExecutionOrderRow × Database) := do
  let row ← found (Table.find? db.orders orderId) (.value "execution order was not found")
  if row.status.isTerminal then
    return (row, db)
  else
    let row := { row with status := .cancelPending }
    return (row, { db with orders := Table.put db.orders row })

/-- A fill as `_progress_order` hands it to the database. -/
structure FillItem where
  exchangeTradeId : String
  quantity : ℚ
  price : ℚ
  feeAmount : ℚ
  feeAsset : String
  liquidity : String
  occurredAt : Int

/-- The arguments of `apply_execution_order_observation`. -/
structure Observation where
  orderId : Nat
  exchangeOrderId : Option String
  status : OrderStatus
  filledQuantity : ℚ
  averagePrice : Option ℚ
  fills : List FillItem

/-- One pass of the fill loop: a known trade must not have changed, a new one
is added (and flushed before the next is looked up). -/
def persistFill (orderId : Nat) (item : FillItem) (db : Database) : Except Exc Database :=
  match db.fills.find? fun f =>
      f.executionOrderId = orderId ∧ f.exchangeTradeId = item.exchangeTradeId with
  | some existing => do
      raiseIf (existing.quantity ≠ item.quantity ∨ existing.price ≠ item.price
        ∨ existing.feeAmount ≠ item.feeAmount ∨ existing.feeAsset ≠ item.feeAsset)
        (.value "execution fill changed after persistence")
      return db
  | none =>
      if hq : 0 < item.quantity ∧ 0 < item.price then
        let row : ExecutionFillRow := {
          id := db.nextId, executionOrderId := orderId, exchangeTradeId := item.exchangeTradeId,
          quantity := item.quantity, price := item.price, feeAmount := item.feeAmount,
          feeAsset := item.feeAsset, liquidity := item.liquidity, occurredAt := item.occurredAt,
          quantity_price_check := hq }
        .ok { db with fills := db.fills ++ [row], nextId := db.nextId + 1 }
      else .error (.integrity "ck_execution_fill_quantity_price")

/-- The fill loop. -/
def persistFills (orderId : Nat) : List FillItem → Database → Except Exc Database
  | [], db => .ok db
  | item :: rest, db => do
      let db ← db.persistFill orderId item
      db.persistFills orderId rest

/-- `apply_execution_order_observation`. -/
def applyExecutionOrderObservation (ob : Observation) (amb : Ambient) (db : Database) :
    Except Exc (ExecutionOrderRow × Database) := do
  raiseIf (ob.status = .created ∨ ob.status = .submitted)
    (.value "unsupported execution order status")
  let row ← found (Table.find? db.orders ob.orderId) (.value "execution order was not found")
  if hback : ob.filledQuantity < row.filledQuantity then
    throw (.value "execution order fill quantity moved backwards")
  else if hover : row.quantity < ob.filledQuantity then
    throw (.value "execution order fills exceed requested quantity")
  else
    let db ← db.persistFills ob.orderId ob.fills
    let row := { row with
      -- An empty exchange id never replaces a known one.
      exchangeOrderId := (ob.exchangeOrderId.filter (· ≠ "")).or row.exchangeOrderId
      status := ob.status
      filledQuantity := ob.filledQuantity
      averagePrice := ob.averagePrice
      terminalAt := if ob.status.isTerminal then some amb.now else row.terminalAt
      filled_check := ⟨le_trans row.filled_check.1 (not_lt.mp hback), not_lt.mp hover⟩ }
    return (row, { db with orders := Table.put db.orders row })

/-! ## §4. Phases and outcomes. -/

/-- `set_execution_task_phase`. -/
def setExecutionTaskPhase (taskId : Nat) (status : TaskStatus) (db : Database) :
    Except Exc (Unit × Database) := do
  raiseIf (¬status.isStarted) (.value "unsupported execution task phase")
  let row ← found (Table.find? db.tasks taskId) (.value "execution task was not found")
  raiseIf (¬row.status.isStarted) (.value "execution task is not active")
  if row.status = status then
    return ((), db)
  else
    let row := { row with status := status, version := row.version + 1 }
    return ((), { db with tasks := Table.put db.tasks row })

/-- `resolve_execution_task_leg_quantity`, with the row as it reads back. -/
def resolveExecutionTaskLegQuantity (num : Numeric) (taskLegId : Nat) (baseQuantity ratio : ℚ)
    (db : Database) : Except Exc (ExecutionTaskLegRow × Database) := do
  raiseIf (baseQuantity ≤ 0) (.value "resolved task-leg quantity must be positive")
  let row ← found (Table.find? db.legs taskLegId) (.value "execution task leg was not found")
  match row.resolvedBaseQuantity with
  | some q =>
      raiseIf (q ≠ baseQuantity ∨ row.signedBaseRatio ≠ some ratio)
        (.value "resolved task-leg quantity cannot change")
      return (row, db)
  | none =>
      let row := { row with
        resolvedBaseQuantity := some (num.store baseQuantity)
        signedBaseRatio := some (num.store ratio) }
      return (row, { db with legs := Table.put db.legs row })

/-- The control row, where there is one, is paused. -/
def pauseControl (reason : String) (db : Database) : Database :=
  { db with control := db.control.map fun _ => ⟨.paused, reason⟩ }

/-- The task and run of a pass. -/
def taskAndRun (taskId runId : Nat) (missing : String) (db : Database) :
    Except Exc (ExecutionTaskRow × ExecutionRunRow) := do
  let task ← found (Table.find? db.tasks taskId) (.value missing)
  let run ← found (Table.find? db.runs runId) (.value missing)
  raiseIf (run.taskId ≠ taskId) (.value missing)
  return (task, run)

/-- `fail_execution_task_run`. -/
def failExecutionTaskRun (taskId runId : Nat) (failureCode : String) (workerId : String)
    (manualReview : Bool) (amb : Ambient) (db : Database) : Except Exc (Unit × Database) := do
  let (task, run) ← db.taskAndRun taskId runId "execution task or run was not found"
  let task := { task with
    status := if manualReview then .manualReview else .failed
    failureCode := some failureCode, version := task.version + 1 }
  let run := { run with
    status := if manualReview then .manualReview else .failed
    failureCode := some failureCode, workerId := some workerId, finishedAt := some amb.now }
  let db := { db with tasks := Table.put db.tasks task, runs := Table.put db.runs run }
  return ((), if manualReview then db.pauseControl failureCode else db)

/-- `begin_execution_task_compensation`. -/
def beginExecutionTaskCompensation (taskId runId : Nat) (failureCode : String) (workerId : String)
    (db : Database) : Except Exc (Unit × Database) := do
  let (task, run) ← db.taskAndRun taskId runId "execution task or run was not found"
  raiseIf (¬task.status.isStarted) (.value "execution task cannot enter compensation")
  let task := { task with
    version := if task.status = .compensating then task.version else task.version + 1
    status := .compensating, failureCode := some failureCode }
  let run := { run with
    status := .running, failureCode := some failureCode, workerId := some workerId }
  let db := { db with tasks := Table.put db.tasks task, runs := Table.put db.runs run }
  return ((), db.pauseControl failureCode)

/-! ## §5. Completion. -/

/-- What one leg has executed: base quantity, average price, fees in USDT. -/
structure LegAggregate where
  leg : ExecutionTaskLegRow
  baseQuantity : ℚ
  averagePrice : ℚ
  feeUsdt : ℚ

/-- The fee of one fill in USDT. -/
def fillFeeUsdt (baseAsset : String) (fill : ExecutionFillRow) : Except Exc ℚ :=
  if sameUpper fill.feeAsset "USDT" ∨ sameUpper fill.feeAsset "USD" then .ok fill.feeAmount
  else if sameUpper fill.feeAsset baseAsset then .ok (fill.feeAmount * fill.price)
  else .error (.value "live execution fee asset cannot be valued in USDT")

/-- The fees of a list of fills in USDT. -/
def feesUsdt (baseAsset : String) : List ExecutionFillRow → Except Exc ℚ
  | [] => .ok 0
  | fill :: rest => do
      let fee ← fillFeeUsdt baseAsset fill
      let others ← feesUsdt baseAsset rest
      return fee + others

/-- The fills of the run's orders on one leg, each with its order. -/
def fillsOfLeg (db : Database) (runId legId : Nat) : List (ExecutionOrderRow × ExecutionFillRow) :=
  db.fills.filterMap fun fill =>
    (db.orders.find? fun o =>
        o.id = fill.executionOrderId ∧ o.runId = runId ∧ o.taskLegId = legId).map (·, fill)

/-- The aggregate of one leg, which must have reached its target. -/
def aggregateLeg (num : Numeric) (db : Database) (baseAsset : String) (runId : Nat)
    (leg : ExecutionTaskLegRow) : Except Exc LegAggregate := do
  let values := db.fillsOfLeg runId leg.id
  let base := (values.map fun v => v.2.quantity * v.1.baseMultiplier).sum
  -- `resolved or target`: a resolved quantity of zero falls back too.
  let target := (leg.resolvedBaseQuantity.filter (· ≠ 0)).getD leg.targetQuantity
  raiseIf (base < target) (.value "live execution task is not fully filled")
  let notional := (values.map fun v => v.2.quantity * v.1.baseMultiplier * v.2.price).sum
  let fee ← feesUsdt baseAsset (values.map (·.2))
  raiseIf (base = 0) (.ofKind .arithmetic "division by zero")
  return ⟨leg, base, num.divide notional base, fee⟩

/-- The aggregates of all legs, in order. -/
def aggregateLegs (num : Numeric) (db : Database) (baseAsset : String) (runId : Nat) :
    List ExecutionTaskLegRow → Except Exc (List LegAggregate)
  | [] => .ok []
  | leg :: rest => do
      let first ← db.aggregateLeg num baseAsset runId leg
      let others ← db.aggregateLegs num baseAsset runId rest
      return first :: others

/-- The strategy a completed task opens. -/
def openStrategy (num : Numeric) (task : ExecutionTaskRow) (aggregates : List LegAggregate)
    (amb : Ambient) (db : Database) : Database :=
  let strategy : ArbitrageStrategyRow := {
    id := db.nextId, name := task.name, environment := task.environment,
    baseAsset := task.baseAsset, openingTaskId := task.id,
    feesUsdt := (aggregates.map (·.feeUsdt)).sum, openedAt := amb.now }
  let legs := aggregates.mapIdx fun i a => {
    id := db.nextId + 1 + i, strategyId := strategy.id, openingTaskLegId := a.leg.id,
    accountId := a.leg.accountId, ordinal := a.leg.ordinal, marketType := a.leg.marketType,
    side := a.leg.side, symbol := a.leg.symbol, initialBaseQuantity := a.baseQuantity,
    remainingBaseQuantity := a.baseQuantity, entryPrice := num.store a.averagePrice,
    feesUsdt := a.feeUsdt : StrategyLegRow }
  { db with
    strategies := db.strategies ++ [strategy], strategyLegs := db.strategyLegs ++ legs,
    nextId := db.nextId + 1 + legs.length }

/-- `complete_live_execution_task`. -/
def completeLiveExecutionTask (num : Numeric) (taskId runId : Nat) (workerId : String)
    (amb : Ambient) (db : Database) : Except Exc (Bool × Database) := do
  let (task, run) ← db.taskAndRun taskId runId "live execution task or run was not found"
  if task.status = .completed then
    return (false, db)
  else
    raiseIf (task.status ≠ .running ∧ task.status ≠ .hedging)
      (.value "live execution task is not active")
    let aggregates ← db.aggregateLegs num task.baseAsset runId (db.legsOfTask taskId)
    let db := if task.createStrategy then db.openStrategy num task aggregates amb else db
    let task := { task with status := .completed, version := task.version + 1 }
    let run := { run with
      status := .completed, workerId := some workerId, finishedAt := some amb.now }
    return (true, { db with tasks := Table.put db.tasks task, runs := Table.put db.runs run })

end Database

end BasisHawk.MultiLeg
