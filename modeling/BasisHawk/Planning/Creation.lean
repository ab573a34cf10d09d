/-
  BasisHawk.Planning.Creation
  ───────────────────────────
  The four creations with an idempotency key, statement by statement:
  `create_trade_intent` and `create_paper_close_intent` under the planners of
  `TradeLedger` (`trading.py`), `create_execution_task` and
  `plan_internal_transfer` (`storage.py`).

  Every one of them looks for the key before it locks anything.  What they do
  about a twin that commits after that look differs.
-/
import BasisHawk.Planning.Tables

namespace BasisHawk.Planning

open Domain Lib
open Paired (PairedPositionRow TradeIntentRow OrderLegRow)
open MultiLeg (ExecutionTaskLegRow)
open Transfers (InternalTransferRow TransferLimitSettings transferLimitSettings)

/-! ## §1. Statements. -/

namespace Tx

def select (q : Query) : Tx (Ans q) := .call (.select q) fun r => .done (.ok r)

def selectForUpdate (q : Query) : Tx (Ans q) := .call (.selectForUpdate q) fun r => .done (.ok r)

/-- The violated constraint is not told apart. -/
def integrityError : Exc := .integrity "unique"

def flush (w : Write) : Tx Unit :=
  .call (.flush w) fun stored => .done (if stored then .ok () else .error integrityError)

def commit : Tx Unit := .call .commit fun _ => .done (.ok ())

def rollback : Tx Unit := .call .rollback fun _ => .done (.ok ())

/-- `raise` and computations that read nothing. -/
def pure' {α : Type} (r : Except Exc α) : Tx α := .done r

/-- `async with self.sessions() as session`: what is not committed at the end is
rolled back. -/
def withSession {α : Type} (p : Tx α) : Tx α := p.finallyQuietly rollback

/-- `except IntegrityError`. -/
def exceptIntegrityError {α : Type} (p : Tx α) (h : Exc → Tx α) : Tx α :=
  p.catching fun e => if e.kind = .integrity then h e else .done (.error e)

end Tx

open Tx

/-! ## §2. Trade intents. -/

/-- The row that was found, with its legs. -/
def withLegs : Option TradeIntent → Tx (Option Prepared)
  | none => return none
  | some row => do
      let legs ← select (.legsOfIntent row.id)
      return some ⟨row, legs⟩

/-- The intent under a key, with its legs, as the creations look for it. -/
def intentByKey (key : String) : Tx (Option Prepared) := do
  let row ← select (.intentByKey key)
  withLegs row

/-- `trade_intent_by_idempotency`. -/
def tradeIntentByIdempotency (key : String) : Tx (Option Prepared) := withSession do
  let row ← select (.tradeIntentByIdempotency key)
  withLegs row

/-- `trade_intent`. -/
def tradeIntent (id : Nat) : Tx (Option Prepared) := withSession do
  let row ← select (.intent id)
  withLegs row

/-- The rows that another caller has stored under the key in the meantime. -/
def recoverIntent (key : String) (e : Exc) : Tx (Prepared × Bool) := do
  rollback
  match ← intentByKey key with
  | none => pure' (.error e)
  | some existing => return (existing, false)

/-- `create_trade_intent`. -/
def createTradeIntent (p : Prepared) : Tx (Prepared × Bool) := withSession do
  match ← intentByKey p.intent.idempotencyKey with
  | some existing => return (existing, false)
  | none =>
      exceptIntegrityError
        (do
          flush (.intent p.intent)
          flush (.legs p.legs)
          commit
          return (p, true))
        (recoverIntent p.intent.idempotencyKey)

/-- `create_paper_close_intent`. -/
def createPaperCloseIntent (positionId : Nat) (p : Prepared) : Tx (Prepared × Bool) :=
  withSession do
    match ← intentByKey p.intent.idempotencyKey with
    | some existing => return (existing, false)
    | none => do
        let position ← selectForUpdate (.position positionId)
        let position ← pure' (found position (.value "paired position was not found"))
        pure' (raiseIf (position.status ≠ .opened ∨ position.closingIntentId ≠ none)
          (.value "paired position is not open"))
        exceptIntegrityError
          (do
            flush (.intent p.intent)
            flush (.reservePosition positionId p.intent.id)
            flush (.legs p.legs)
            commit
            return (p, true))
          (recoverIntent p.intent.idempotencyKey)

/-- `IdempotencyConflict`. -/
def idempotencyConflict : Exc :=
  .ofKind .runtime "idempotency key was already used for a different trade request"

/-- Create the rows, and compare the fingerprint of what is stored. -/
def createAndCompare (create : Prepared → Tx (Prepared × Bool)) (prepared : Prepared) :
    Tx (Prepared × Bool) := do
  let (stored, created) ← create prepared
  if stored.intent.requestFingerprint ≠ prepared.intent.requestFingerprint then
    pure' (.error idempotencyConflict)
  else return (stored, created)

/-- The planners' common course: look for the key, prepare the rows and create
them. -/
def planTrade (key : String) (isSame : TradeIntent → Prop) [DecidablePred isSame]
    (prepare : Tx Prepared) (create : Prepared → Tx (Prepared × Bool)) : Tx (Prepared × Bool) := do
  match ← tradeIntentByIdempotency key with
  | some existing =>
      if isSame existing.intent then return (existing, false) else pure' (.error idempotencyConflict)
  | none => do
      let prepared ← prepare
      createAndCompare create prepared

variable (sha256 : Digested → String)

/-- `plan_live_open`. -/
def planLiveOpen (t : OpenTerms) (key : String) (spotLimitPrice perpLimitPrice : Option Limit)
    (d : Draw) : Tx (Prepared × Bool) :=
  planTrade key t.isSame (pure' (prepareLiveOpen sha256 t key spotLimitPrice perpLimitPrice d))
    createTradeIntent

/-- `plan_paper_open`. -/
def planPaperOpen (t : PaperOpenTerms) (key : String) (d : Draw) : Tx (Prepared × Bool) :=
  planTrade key t.isSame (pure' (preparePaperOpen sha256 t key d)) createTradeIntent

/-- What `plan_live_close` reads and works out after its lookup. -/
def readLiveClose (t : CloseTerms) (key : String) (spotLimitPrice perpLimitPrice : Option Limit)
    (d : Draw) : Tx Prepared := do
  pure' (checkCloseTerms t)
  let read ← withSession (select (.position t.positionId))
  let position ← pure' (closablePosition t (read.map (·.toPairedPositionRow)))
  let opening ← tradeIntent position.openingIntentId
  let opening ← pure' (openingOf t position
    (opening.map fun p => (p.intent.toTradeIntentRow, p.legs)))
  pure' (prepareLiveClose sha256 t key spotLimitPrice perpLimitPrice position opening d)

/-- `plan_live_close`. -/
def planLiveClose (t : CloseTerms) (key : String) (spotLimitPrice perpLimitPrice : Option Limit)
    (d : Draw) : Tx (Prepared × Bool) :=
  planTrade key t.isSame (readLiveClose sha256 t key spotLimitPrice perpLimitPrice d)
    (createPaperCloseIntent t.positionId)

/-- What `plan_paper_close` reads and works out after its lookup. -/
def readPaperClose (t : PaperCloseTerms) (key : String) (d : Draw) : Tx Prepared := do
  let read ← withSession (select (.position t.positionId))
  pure' (preparePaperClose sha256 t key read d)

/-- `plan_paper_close`. -/
def planPaperClose (t : PaperCloseTerms) (key : String) (d : Draw) : Tx (Prepared × Bool) :=
  planTrade key t.isSame (readPaperClose sha256 t key d) (createPaperCloseIntent t.positionId)

/-! ## §3. Execution tasks. -/

/-- A task with its legs. -/
structure PlannedTask where
  task : ExecutionTask
  legs : List ExecutionTaskLegRow
  deriving DecidableEq

/-- The stored task, if it was created by the same request. -/
def sameTask (t : PlannedTask) (existing : ExecutionTask) : Tx (PlannedTask × Bool) := do
  pure' (raiseIf (existing.requestFingerprint ≠ t.task.requestFingerprint)
    (.value "execution task idempotency key conflicts with another request"))
  let legs ← select (.legsOfTask existing.id)
  return (⟨existing, legs⟩, false)

/-- `create_execution_task`.  The task row is flushed outside the `try`. -/
def createExecutionTask (t : PlannedTask) : Tx (PlannedTask × Bool) := withSession do
  match ← select (.taskByKey t.task.idempotencyKey) with
  | some existing => sameTask t existing
  | none => do
      flush (.task t.task)
      exceptIntegrityError
        (do
          flush (.taskLegs t.legs)
          commit
          return (t, true))
        fun e => do
          rollback
          match ← select (.taskByKey t.task.idempotencyKey) with
          | none => pure' (.error e)
          | some existing => sameTask t existing

/-! ## §4. Internal transfers. -/

/-- The limits in force, locked or else stored for the first time. -/
def transferLimits (q : Transfers.PlanRequest) : Tx TransferLimitSettings := do
  match ← selectForUpdate .transferLimits with
  | some limits => return limits
  | none => do
      let limits ← pure' (transferLimitSettings q.defaultPerRequestLimit q.defaultDailyLimit)
      flush (.transferLimits limits)
      return limits

/-- The control row before the worker has started. -/
def startupControl : MultiLeg.ExecutionControlRow :=
  ⟨.blocked, "execution worker has not completed startup reconciliation"⟩

/-- The control row, locked or else stored for the first time. -/
def executionControl : Tx MultiLeg.ExecutionControlRow := do
  match ← selectForUpdate .control with
  | some control => return control
  | none => do
      flush (.control startupControl)
      return startupControl

/-- A new transfer pauses the execution. -/
def pauseForTransfer (control : MultiLeg.ExecutionControlRow) : Tx Unit :=
  if control.state = .paused then return ()
  else flush (.pauseControl "internal account transfer requires balance confirmation")

/-- `plan_internal_transfer`. -/
def planInternalTransfer (q : Transfers.PlanRequest) (observedAt : Int) :
    Tx (InternalTransferRow × Bool) :=
  if henv : q.environment = .paper then
    pure' (.error (.value "internal transfer environment must be sandbox or live"))
  else if hamount : q.amount ≤ 0 then
    pure' (.error (.value "internal transfer amount must be positive"))
  else withSession do
    match ← select (.transferByKey q.idempotencyKey) with
    | some existing => do
        pure' (raiseIf (existing.requestFingerprint ≠ q.requestFingerprint)
          (.value "internal transfer idempotency key conflicts with another request"))
        return (existing, false)
    | none => do
        let limits ← transferLimits q
        pure' (raiseIf (¬limits.enabled) (.value "internal transfers are disabled by zero limits"))
        pure' (raiseIf (q.amount > limits.perRequestLimit)
          (.value "internal transfer exceeds the per-request limit"))
        let control ← executionControl
        let used ← select (.usedOn (Transfers.dayStart observedAt))
        pure' (raiseIf (used + q.amount > limits.dailyLimit)
          (.value "internal transfer exceeds the UTC daily limit"))
        let row := Transfers.Desk.plannedRow q henv (q.amount_pos hamount) observedAt
        flush (.transfer row)
        pauseForTransfer control
        commit
        return (row, true)

end BasisHawk.Planning
