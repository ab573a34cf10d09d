/-
  BasisHawk.Transfers.Service
  ───────────────────────────
  `InternalTransferExecutionService` (`transfers.py`) as a program over its
  transactions and its calls to the exchange.

  A pass first looks for a transfer that may be at the exchange and confirms
  it; only when there is none it submits a planned one.
-/
import BasisHawk.Reconciliation.Worker
import BasisHawk.Transfers.Storage
import Mathlib.Data.List.MinMax

namespace BasisHawk.Transfers

open Domain Lib Accounts
open Reconciliation (Account LiveSnapshot)

/-! ## §1. Operations. -/

inductive SubmissionStatus where
  | pending | completed
  deriving DecidableEq, Repr

/-- `InternalTransferSubmission`. -/
structure InternalTransferSubmission where
  transferId : String
  status : SubmissionStatus
  deriving DecidableEq

inductive RemoteTransferStatus where
  | pending | completed | failed | unknown
  deriving DecidableEq, Repr

/-- The fields of `RemoteInternalTransfer` that the service reads. -/
structure RemoteInternalTransfer where
  transferId : String
  status : RemoteTransferStatus
  deriving DecidableEq

inductive Op where
  | nextInternalTransfer (statuses : List TransferStatus)
  | prepareSubmission (transferId : Nat) (sourceBalance targetBalance : ℚ)
  | recordRemoteId (transferId : Nat) (exchangeTransferId : String)
  | finalize (transferId : Nat) (status : TransferStatus) (errorCode : Option String)
  | now
  | loadSecrets (a : Account)
  | openClient (a : Account)
  | snapshot (a : Account)
  | tradingState (a : Account)
  | submitInternalTransfer (a : Account) (transferId : Nat) (direction : InternalTransferDirection)
      (amount : ℚ)
  | internalTransferStatus (a : Account) (transferId : String) (clientTransferId : Nat)
      (direction : InternalTransferDirection) (amount : ℚ) (createdAt : Int)
  | close (a : Account)
  deriving DecidableEq

/-- The row the worker reads next is always told; everything else may raise. -/
abbrev Rep : Op → Type
  | .nextInternalTransfer _ => Option InternalTransferRow
  | .prepareSubmission .. => Except Exc (Option InternalTransferRow)
  | .recordRemoteId .. => Except Exc InternalTransferRow
  | .finalize .. => Except Exc InternalTransferRow
  | .now => Int
  | .loadSecrets _ => Except Exc Bool
  | .openClient _ => Except Exc Unit
  | .snapshot _ => Except Exc LiveSnapshot
  | .tradingState _ => Except Exc RemoteTradingState
  | .submitInternalTransfer .. => Except Exc InternalTransferSubmission
  | .internalTransferStatus .. => Except Exc RemoteInternalTransfer
  | .close _ => Except Exc Unit

/-- A program of the service. -/
abbrev Worker (α : Type) : Type := Prog Op Rep Exc α

def nextInternalTransfer (statuses : List TransferStatus) : Worker (Option InternalTransferRow) :=
  .call (.nextInternalTransfer statuses) fun row => .done (.ok row)

def prepareSubmission (transferId : Nat) (sourceBalance targetBalance : ℚ) :
    Worker (Option InternalTransferRow) :=
  .call (.prepareSubmission transferId sourceBalance targetBalance) .done

def recordRemoteId (transferId : Nat) (exchangeTransferId : String) : Worker InternalTransferRow :=
  .call (.recordRemoteId transferId exchangeTransferId) .done

def finalize (transferId : Nat) (status : TransferStatus) (errorCode : Option String) :
    Worker InternalTransferRow :=
  .call (.finalize transferId status errorCode) .done

def readClock : Worker Int := .call .now fun t => .done (.ok t)

def snapshot (a : Account) : Worker LiveSnapshot := .call (.snapshot a) .done

def tradingState (a : Account) : Worker RemoteTradingState := .call (.tradingState a) .done

def submitInternalTransfer (row : InternalTransferRow) : Worker InternalTransferSubmission :=
  .call (.submitInternalTransfer row.account row.id row.direction row.amount) .done

def internalTransferStatus (row : InternalTransferRow) (remoteId : String) :
    Worker RemoteInternalTransfer :=
  .call (.internalTransferStatus row.account remoteId row.id row.direction row.amount row.createdAt)
    .done

/-! ## §2. Results. -/

inductive TransferAction where
  | idle | blocked | preflightRetry | rejected | lostClaim | submissionUncertain | submitted
  | confirmationRetry | remoteFailed | arrivalRetry | completed
  deriving DecidableEq, Repr

/-- `InternalTransferExecutionResult`. -/
structure InternalTransferExecutionResult where
  transferId : Option Nat := none
  action : TransferAction := .idle
  status : Option TransferStatus := none
  deriving DecidableEq

/-- The result of a pass over `row`. -/
def InternalTransferRow.result (row : InternalTransferRow) (action : TransferAction)
    (status : TransferStatus) : InternalTransferExecutionResult :=
  ⟨some row.id, action, some status⟩

/-- `_transfer_balances`: source and target. -/
def transferBalances (row : InternalTransferRow) (s : LiveSnapshot) : ℚ × ℚ :=
  match row.direction with
  | .spotToPerp => (s.spotUsdtAvailable, s.perpUsdtAvailable)
  | .perpToSpot => (s.perpUsdtAvailable, s.spotUsdtAvailable)

/-- `_recoverable_without_ack`. -/
def recoverableWithoutAck (exchange : Exchange) : Bool := exchange = .bitget

/-! ## §3. The service. -/

section Service

-- `confirmation_timeout_seconds`, in microseconds.
variable (timeout : Int)

/-- `_confirmation_timed_out`. -/
def confirmationTimedOut (row : InternalTransferRow) : Worker Bool := do
  let now ← readClock
  return decide (timeout ≤ now - row.submittedAt.getD row.updatedAt)

/-- A transfer that cannot be confirmed any more is left to a person. -/
def retryOrReview (row : InternalTransferRow) (action : TransferAction) (errorCode : String) :
    Worker InternalTransferExecutionResult := do
  if ← confirmationTimedOut timeout row then do
    let _ ← finalize row.id .manualReview (some errorCode)
    return row.result .blocked .manualReview
  else return row.result action row.status

/-- `_client`: whether there is a client for the row's account. -/
def client (row : InternalTransferRow) : Worker Bool := do
  if ← (.call (.loadSecrets row.account) .done : Worker Bool) then do
    (.call (.openClient row.account) .done : Worker Unit)
    return true
  else do
    let _ ← finalize row.id .manualReview (some "credential_missing")
    return false

/-- Run `body` with a client, and close it afterwards. -/
def withClient (row : InternalTransferRow) (body : Worker InternalTransferExecutionResult) :
    Worker InternalTransferExecutionResult := do
  if ← client row then
    body.finallyQuietly (.call (.close row.account) .done : Worker Unit)
  else return row.result .blocked .manualReview

/-- `_confirm_arrival`. -/
def confirmArrival (row : InternalTransferRow) : Worker InternalTransferExecutionResult := do
  match ← (snapshot row.account).outcome with
  | .error _ => return row.result .arrivalRetry row.status
  | .ok shown =>
      if ∃ expected ∈ row.expectedTargetBalance, expected ≤ (transferBalances row shown).2 then do
        let _ ← finalize row.id .completed none
        return row.result .completed .completed
      else retryOrReview timeout row .arrivalRetry "arrival_confirmation_timeout"

/-- The call to the exchange, for a row this pass has moved to `submitted`. -/
def submitPrepared (row : InternalTransferRow) : Worker InternalTransferExecutionResult := do
  match ← (submitInternalTransfer row).outcome with
  | .error _ =>
      if recoverableWithoutAck row.exchange then return row.result .submissionUncertain .submitted
      else do
        let _ ← finalize row.id .manualReview (some "submission_ack_uncertain")
        return row.result .submissionUncertain .manualReview
  | .ok submission => do
      let persisted ← recordRemoteId row.id submission.transferId
      if submission.status = .completed then confirmArrival timeout persisted
      else return row.result .submitted persisted.status

/-- `_submit`, once the account has been looked at. -/
def submitSeen (row : InternalTransferRow) (shown : LiveSnapshot) (state : RemoteTradingState) :
    Worker InternalTransferExecutionResult := do
  if shown.sharedBalance then do
    let _ ← finalize row.id .failed (some "shared_balance_transfer_not_required")
    return row.result .rejected .failed
  else if ¬state.complete ∨ state.openOrders ≠ [] then
    return row.result .preflightRetry .planned
  else if (transferBalances row shown).1 < row.amount then do
    let _ ← finalize row.id .failed (some "insufficient_source_balance")
    return row.result .rejected .failed
  else
    match ← prepareSubmission row.id (transferBalances row shown).1 (transferBalances row shown).2 with
    | none => return row.result .lostClaim row.status
    | some _ => submitPrepared timeout row

/-- `_submit`, with a client. -/
def submitWithClient (row : InternalTransferRow) : Worker InternalTransferExecutionResult := do
  match ← (do
      let shown ← snapshot row.account
      let state ← tradingState row.account
      return (shown, state) : Worker (LiveSnapshot × RemoteTradingState)).outcome with
  | .error _ => return row.result .preflightRetry .planned
  | .ok (shown, state) => submitSeen timeout row shown state

/-- `_submit`. -/
def submit (row : InternalTransferRow) : Worker InternalTransferExecutionResult :=
  withClient row (submitWithClient timeout row)

/-- `_confirm`, once the exchange has answered. -/
def confirmSeen (row : InternalTransferRow) (remote : RemoteInternalTransfer) :
    Worker InternalTransferExecutionResult :=
  match remote.status with
  | .failed => do
      let _ ← finalize row.id .failed (some "exchange_transfer_failed")
      return row.result .remoteFailed .failed
  | .completed => confirmArrival timeout row
  | .pending | .unknown => retryOrReview timeout row .confirmationRetry "transfer_confirmation_timeout"

/-- `_confirm`, with a client. -/
def confirmWithClient (row : InternalTransferRow) : Worker InternalTransferExecutionResult := do
  let remoteId := row.exchangeTransferId.getD ""
  if remoteId = "" ∧ recoverableWithoutAck row.exchange = false then do
    let _ ← finalize row.id .manualReview (some "submission_ack_missing")
    return row.result .blocked .manualReview
  else
    match ← (internalTransferStatus row remoteId).outcome with
    | .error _ => retryOrReview timeout row .confirmationRetry "transfer_confirmation_timeout"
    | .ok remote => do
        let row ← if remote.transferId ≠ "" ∧ remote.transferId ≠ remoteId
          then recordRemoteId row.id remote.transferId else pure row
        confirmSeen timeout row remote

/-- `_confirm`. -/
def confirm (row : InternalTransferRow) : Worker InternalTransferExecutionResult :=
  withClient row (confirmWithClient timeout row)

/-- `InternalTransferExecutionService.run_once`. -/
def runOnce : Worker InternalTransferExecutionResult := do
  match ← nextInternalTransfer [.submitted, .pending] with
  | some active => confirm timeout active
  | none =>
      match ← nextInternalTransfer [.planned] with
      | none => return {}
      | some planned => submit timeout planned

end Service

/-! ## §4. One operation on the tables. -/

/-- What an operation answers, and what it does to the tables.  The exchange
and the credentials answer as they like. -/
def serve : (o : Op) → Int → Desk → Rep o → Desk → Prop
  | .nextInternalTransfer statuses, _, d, r, d' => Desk.IsNext statuses d.rows r ∧ d' = d
  | .prepareSubmission id source target, now, d, r, d' =>
      commit (Desk.prepareInternalTransferSubmission id source target now) d = (r, d')
  | .recordRemoteId id remoteId, now, d, r, d' =>
      commit (Desk.recordInternalTransferRemoteId id remoteId now) d = (r, d')
  | .finalize id status errorCode, now, d, r, d' =>
      commit (Desk.finalizeInternalTransfer id status errorCode now) d = (r, d')
  | .now, now, d, r, d' => r = now ∧ d' = d
  | _, _, d, _, d' => d' = d

/-- What the other actors do to the tables. -/
inductive Act where
  | plan (q : PlanRequest) (observedAt : Int)
  | saveLimits (perRequestLimit dailyLimit : ℚ)

/-- The transaction of an actor. -/
def Act.apply : Act → Desk → Desk
  | .plan q observedAt, d => (commit (Desk.planInternalTransfer q observedAt) d).2
  | .saveLimits perRequestLimit dailyLimit, d =>
      (commit (Desk.saveTransferLimits perRequestLimit dailyLimit) d).2

/-! ## §5. Concrete passes. -/

/-- The oldest row in one of the statuses. -/
def Desk.oldest (statuses : List TransferStatus) (rows : List InternalTransferRow) :
    Option InternalTransferRow :=
  @List.argmin InternalTransferRow Int Int.instLinearOrder.toPreorder
    Int.instLinearOrder.toDecidableLT (·.createdAt) (rows.filter (·.status ∈ statuses))

/-- The oldest row of these states is the next one that the query can give. -/
theorem Desk.isNext_oldest (statuses : List TransferStatus) (rows : List InternalTransferRow) :
    IsNext statuses rows (oldest statuses rows) := by
  cases h : oldest statuses rows with
  | none =>
      intro row hrow hs
      have hmem : row ∈ rows.filter (·.status ∈ statuses) := by simp [hrow, hs]
      rw [List.argmin_eq_none.mp h] at hmem
      cases hmem
  | some row =>
      obtain ⟨hrow, hs⟩ := List.mem_filter.mp (List.argmin_mem (Option.mem_def.mpr h))
      refine ⟨hrow, of_decide_eq_true hs, fun other hother ho => ?_⟩
      exact List.le_of_mem_argmin (List.mem_filter.mpr ⟨hother, decide_eq_true ho⟩)
        (Option.mem_def.mpr h)

/-- The answers when the exchange and the credentials say `sc`. -/
def respond (sc : (o : Op) → Rep o) (now : Int) : (o : Op) → Desk → Rep o × Desk
  | .nextInternalTransfer statuses, d => (Desk.oldest statuses d.rows, d)
  | .prepareSubmission id source target, d =>
      commit (Desk.prepareInternalTransferSubmission id source target now) d
  | .recordRemoteId id remoteId, d => commit (Desk.recordInternalTransferRemoteId id remoteId now) d
  | .finalize id status errorCode, d =>
      commit (Desk.finalizeInternalTransfer id status errorCode now) d
  | .now, d => (now, d)
  | o, d => (sc o, d)

/-- A scripted reply is one that the desk can give. -/
theorem serve_respond (sc : (o : Op) → Rep o) (now : Int) (o : Op) (d : Desk) :
    serve o now d (respond sc now o d).1 (respond sc now o d).2 := by
  cases o with
  | nextInternalTransfer statuses => exact ⟨Desk.isNext_oldest statuses d.rows, rfl⟩
  | now => exact ⟨rfl, rfl⟩
  | _ => exact rfl

namespace Sample

def account : Account := Reconciliation.Sample.account

/-- 50 USDT from the spot to the perpetual balance. -/
def request : PlanRequest where
  transferId := 7
  idempotencyKey := 7
  requestFingerprint := ""
  exchange := .binance
  environment := .live
  direction := .spotToPerp
  amount := 50
  defaultPerRequestLimit := 100
  defaultDailyLimit := 100

/-- What the exchange says when the balances are these; it has completed every
transfer it is asked about. -/
def exchange (spot perp : ℚ) : (o : Op) → Rep o
  | .nextInternalTransfer _ => none
  | .prepareSubmission .. => .error (.ofKind .runtime "")
  | .recordRemoteId .. => .error (.ofKind .runtime "")
  | .finalize .. => .error (.ofKind .runtime "")
  | .now => 0
  | .loadSecrets _ => .ok true
  | .openClient _ => .ok ()
  | .snapshot _ => .ok { Reconciliation.Sample.snapshot with
      spotUsdtAvailable := spot
      perpUsdtAvailable := perp }
  | .tradingState _ => .ok ⟨[], [], true, none⟩
  | .submitInternalTransfer .. => .ok ⟨"exchange-transfer-id", .pending⟩
  | .internalTransferStatus .. => .ok ⟨"exchange-transfer-id", .completed⟩
  | .close _ => .ok ()

end Sample

end BasisHawk.Transfers
