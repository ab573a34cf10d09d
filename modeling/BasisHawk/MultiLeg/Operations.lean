/-
  BasisHawk.MultiLeg.Operations
  ─────────────────────────────
  What a pass of the multi-leg worker does besides computing: its database
  transactions, and its calls to the outside world (market data, credentials,
  the exchange).

  `BasisHawk.MultiLeg.Service` is a program over these operations.  The
  transactions mean what `Storage` says; the outside world answers as it
  likes.
-/
import BasisHawk.Accounts.Remote
import BasisHawk.Domain.Market
import BasisHawk.Lib.Program
import BasisHawk.MultiLeg.Storage

namespace BasisHawk.MultiLeg

open Domain Lib Accounts

/-! ## §1. Database operations. -/

inductive DbOp where
  | claim (workerId : String)
  | ordersForRun (runId : Nat)
  | executionTask (taskId : Nat)
  | setPhase (taskId : Nat) (status : TaskStatus)
  | resolveLeg (taskLegId : Nat) (baseQuantity ratio : ℚ)
  | createOrder (a : Database.OrderAttempt)
  | markUnknown (orderId : Nat)
  | markSubmitted (orderId : Nat) (exchangeOrderId : Option String)
  | markCancelPending (orderId : Nat)
  | observe (ob : Database.Observation)
  | beginCompensation (taskId runId : Nat) (failureCode workerId : String)
  | failRun (taskId runId : Nat) (failureCode workerId : String) (manualReview : Bool)
  | complete (taskId runId : Nat) (workerId : String)

/-- What a transaction returns. -/
abbrev DbOp.Result : DbOp → Type
  | .claim _ => Option Database.Claimed
  | .ordersForRun _ => List ExecutionOrderRow
  | .executionTask _ => Option ExecutionTaskRow
  | .setPhase .. => Unit
  | .resolveLeg .. => ExecutionTaskLegRow
  | .createOrder _ => ExecutionOrderRow
  | .markUnknown _ => ExecutionOrderRow
  | .markSubmitted .. => ExecutionOrderRow
  | .markCancelPending _ => ExecutionOrderRow
  | .observe _ => ExecutionOrderRow
  | .beginCompensation .. => Unit
  | .failRun .. => Unit
  | .complete .. => Bool

/-- The transaction of an operation. -/
def DbOp.tx (num : Numeric) (amb : Ambient) :
    (o : DbOp) → Database → Except Exc (o.Result × Database)
  | .claim workerId => Database.claimLiveExecutionTask workerId amb
  | .ordersForRun runId => fun db => .ok (db.ordersOfRun runId, db)
  | .executionTask taskId => fun db => .ok (Table.find? db.tasks taskId, db)
  | .setPhase taskId status => Database.setExecutionTaskPhase taskId status
  | .resolveLeg legId base ratio => Database.resolveExecutionTaskLegQuantity num legId base ratio
  | .createOrder a => Database.createExecutionOrderAttempt a amb
  | .markUnknown orderId => Database.markExecutionOrderUnknown orderId
  | .markSubmitted orderId exchangeOrderId =>
      Database.markExecutionOrderSubmitted orderId exchangeOrderId amb
  | .markCancelPending orderId => Database.markExecutionOrderCancelPending orderId
  | .observe ob => Database.applyExecutionOrderObservation ob amb
  | .beginCompensation taskId runId code worker =>
      Database.beginExecutionTaskCompensation taskId runId code worker
  | .failRun taskId runId code worker manualReview =>
      Database.failExecutionTaskRun taskId runId code worker manualReview amb
  | .complete taskId runId worker => Database.completeLiveExecutionTask num taskId runId worker amb

/-! ## §2. The outside world. -/

/-- The account client a pass works with. -/
structure Client where
  accountId : Nat
  exchange : Exchange
  environment : ExchangeEnvironment
  deriving DecidableEq

/-- The fields of `CredentialSummary` that the worker reads. -/
structure AccountSummary where
  exchange : Exchange
  environment : ExchangeEnvironment
  deriving DecidableEq

/-- How an order is identified to an exchange. -/
structure OrderRef where
  market : Market
  symbol : String
  exchangeOrderId : Option String
  clientOrderId : String
  deriving DecidableEq

inductive OutOp where
  | now
  | uuid
  | latestOpportunities (exchange : Exchange)
  | instrumentPairs (exchange : Exchange)
  | fetchBook (exchange : Exchange) (environment : ExchangeEnvironment) (market : Market)
      (symbol : String) (level : Nat)
  | accountSummary (accountId : Nat)
  | hasSecrets (accountId : Nat)
  | openClient (c : Client)
  | orderByClientId (c : Client) (market : Market) (symbol clientOrderId : String)
  | fillsForOrder (c : Client) (ref : OrderRef) (since : Int)
  | cancelOrder (c : Client) (ref : OrderRef)
  | snapshot (c : Client)
  | spotAssetAvailable (c : Client) (asset : String)
  | configurePerp (c : Client) (symbol : String) (leverage : Nat) (positionMode : PositionMode)
      (marginMode : Option PerpMarginMode)
  | placeOrder (c : Client) (request : PrivateOrderRequest)
  | close (c : Client)

/-- What the outside world answers when it does not raise. -/
abbrev OutOp.Answer : OutOp → Type
  | .now => Int
  | .uuid => String
  | .latestOpportunities _ => List Opportunity
  | .instrumentPairs _ => List InstrumentPair
  | .fetchBook .. => OrderBookSnapshot
  | .accountSummary _ => Option AccountSummary
  | .hasSecrets _ => Bool
  | .openClient _ => Unit
  | .orderByClientId .. => RemoteOrderLookup
  | .fillsForOrder .. => RemoteFillBatch
  | .cancelOrder .. => Unit
  | .snapshot _ => AccountSnapshot
  | .spotAssetAvailable .. => ℚ
  | .configurePerp .. => PerpConfiguration
  | .placeOrder .. => OrderSubmission
  | .close _ => Unit

/-! ## §3. Programs of the worker. -/

inductive Op where
  | db (o : DbOp)
  | out (o : OutOp)

/-- Every operation may raise. -/
abbrev Rep : Op → Type
  | .db o => Except Exc o.Result
  | .out o => Except Exc o.Answer

/-- A program of the worker. -/
abbrev Worker (α : Type) : Type := Prog Op Rep Exc α

/-- One database transaction. -/
def perform (o : DbOp) : Worker o.Result := .call (.db o) .done

/-- One call to the outside world. -/
def ask (o : OutOp) : Worker o.Answer := .call (.out o) .done

/-- A computation that may raise. -/
def pyEval {α : Type} (r : Except Exc α) : Worker α := .done r

end BasisHawk.MultiLeg
