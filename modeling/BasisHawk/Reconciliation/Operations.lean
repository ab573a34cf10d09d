/-
  BasisHawk.Reconciliation.Operations
  ───────────────────────────────────
  What a pass of the reconciliation worker does besides computing: its
  transactions on the two-leg tables and on `execution_control`, its queries,
  and its calls to the outside world.

  Tables that nothing here depends on (credentials, market data, strategies,
  funding income, stream states, reconciliation results) count as outside:
  they answer as they like.  So do the passes of the other services that
  `run_once` starts; their writes are steps of other actors.
-/
import BasisHawk.Accounts.Remote
import BasisHawk.Domain.Market
import BasisHawk.Lib.Program
import BasisHawk.Paired.Operations
import BasisHawk.Reconciliation.Control

namespace BasisHawk.Reconciliation

open Domain Lib Accounts Paired

/-! ## §1. Accounts. -/

/-- The exchange and environment of a default credential. -/
structure Account where
  exchange : Exchange
  environment : ExchangeEnvironment
  backed : environment ≠ .paper
  deriving DecidableEq

/-- `ExchangeEnvironment(intent.environment)`: the credentials know two
environments. -/
def accountOf (intent : TradeIntentRow) : Except Exc Account :=
  if h : intent.environment = .paper then
    .error (.value "'paper' is not a valid ExchangeEnvironment")
  else .ok ⟨intent.exchange, intent.environment, h⟩

/-- `intent` belongs to the account. -/
def Account.owns (a : Account) (intent : TradeIntentRow) : Prop :=
  intent.exchange = a.exchange ∧ intent.environment = a.environment

instance (a : Account) (intent : TradeIntentRow) : Decidable (a.owns intent) :=
  inferInstanceAs (Decidable (_ ∧ _))

/-- The fields of `CredentialSummary` that the worker reads. -/
structure CredentialSummary where
  account : Account
  isDefault : Bool
  deriving DecidableEq

/-- The fields of `AccountSnapshot` that the two-leg services read. -/
structure LiveSnapshot extends AccountSnapshot where
  exchange : Exchange
  environment : ExchangeEnvironment
  observedAt : Int
  tradeBlockReason : Option String
  deriving DecidableEq

/-- The fields of `Opportunity` that a compensation reads. -/
structure LiveOpportunity extends Opportunity where
  topBookNotional : ℚ
  closeTopBookNotional : ℚ
  deriving DecidableEq

/-- `AutomationControlRow.active_strategy_id` and the strategy behind it: its
environment and its `emergency_max_slippage`. -/
structure StrategyVersion where
  environment : ExchangeEnvironment
  emergencyMaxSlippage : ℚ
  deriving DecidableEq

/-- `OrderCancellation`. -/
structure OrderCancellation where
  market : String
  symbol : String
  clientOrderId : Option String
  exchangeOrderId : Option String
  accepted : Bool
  deriving DecidableEq

/-- `LimitIocOrder`. -/
structure LimitIocOrder where
  market : Market
  symbol : String
  side : Side
  quantity : ℚ
  limitPrice : ℚ
  clientOrderId : String
  reduceOnly : Bool
  positionMode : PositionMode
  deriving DecidableEq

/-- Building the order object runs its validators. -/
def LimitIocOrder.validate (o : LimitIocOrder) : Except Exc LimitIocOrder := do
  raiseIf (o.symbol.length < 1 ∨ 100 < o.symbol.length) (.value "symbol length is out of range")
  raiseIf (pyStrip o.symbol ≠ o.symbol.toList)
    (.value "order identifiers cannot contain surrounding whitespace")
  raiseIf (o.quantity ≤ 0) (.value "quantity must be greater than 0")
  raiseIf (o.limitPrice ≤ 0) (.value "limit_price must be greater than 0")
  raiseIf (o.clientOrderId.length < 1 ∨ 64 < o.clientOrderId.length)
    (.value "client_order_id length is out of range")
  raiseIf (pyStrip o.clientOrderId ≠ o.clientOrderId.toList)
    (.value "order identifiers cannot contain surrounding whitespace")
  match o.market with
  | .spot => raiseIf o.reduceOnly (.value "spot orders cannot be reduce-only")
  | .perp => do
      raiseIf (o.positionMode = .unknown) (.value "perpetual position mode must be known")
      raiseIf (o.side = .sell ∧ o.reduceOnly) (.value "opening short orders cannot be reduce-only")
      raiseIf (o.side = .buy ∧ ¬o.reduceOnly) (.value "short-closing buy orders must be reduce-only")
  return o

/-! ## §2. What a pass records of an account. -/

inductive AccountStatus where
  | ready | blocked | error
  deriving DecidableEq, Repr

/-- What `record_account_reconciliation` stores. -/
structure AccountReconciliation where
  status : AccountStatus
  reasons : List String
  snapshot : Option LiveSnapshot := none
  tradingState : Option RemoteTradingState := none
  orderReconciliationComplete : Bool := false
  recoveredOrderCount : Nat := 0
  fillReconciliationComplete : Bool := false
  fillCount : Nat := 0
  fundingIncomeComplete : Bool := false
  fundingIncomeCount : Nat := 0
  privateStreamReady : Bool := false

/-- Its `reason`. -/
def AccountReconciliation.reason (r : AccountReconciliation) : String :=
  match r.status with
  | .ready => "account reconciliation passed"
  | .blocked | .error => String.intercalate "; " r.reasons

/-! ## §3. Operations. -/

/-- Who looks at `execution_control`. -/
inductive Reader where
  | executor
  | compensator
  /-- The first look of `ReconciliationService.run_once`. -/
  | opening
  /-- The compensator's, after the accounts were checked. -/
  | lateCompensator
  /-- The last look of `ReconciliationService.run_once`. -/
  | closing
  deriving DecidableEq, Repr

/-- Queries of the two-leg tables. -/
inductive Query where
  | executionControl (reader : Reader)
  | recoverableTradeIntents
  | tradeIntent (intentId : Nat)
  | pairedPosition (positionId : Nat)
  | pairedPerpExposures (a : Account)
  | orderLegsForReconciliation (a : Account)

abbrev Query.Answer : Query → Type
  | .executionControl _ => Control
  | .recoverableTradeIntents => List TradeIntentRow
  | .tradeIntent _ => Option (TradeIntentRow × List OrderLegRow)
  | .pairedPosition _ => Option PairedPositionRow
  | .pairedPerpExposures _ => List Ledger.PerpExposure
  | .orderLegsForReconciliation _ => List OrderLegRow

/-- What a query finds. -/
def Query.eval (l : Ledger) : (q : Query) → q.Answer
  | .executionControl _ => l.control
  | .recoverableTradeIntents => l.recoverableTradeIntents
  | .tradeIntent intentId =>
      (Table.find? l.intents intentId).map fun intent => (intent, l.legsOfIntent intent.id)
  | .pairedPosition positionId => Table.find? l.positions positionId
  | .pairedPerpExposures a => l.pairedPerpExposures a.exchange a.environment
  | .orderLegsForReconciliation a => l.orderLegsForReconciliation a.exchange a.environment

/-- The services whose passes `run_once` starts and that are not modelled here. -/
inductive Service where
  | transfers | paper | multiLegPaper | multiLegLive | automaticTrader
  deriving DecidableEq, Repr

inductive OutOp where
  | now
  | elsewhere (s : Service)
  | listCredentials
  | loadSecrets (a : Account)
  | openClient (a : Account)
  | snapshot (a : Account)
  | tradingState (a : Account)
  | latestFundingIncomeAt (a : Account)
  | fundingIncome (a : Account) (since : Int)
  | persistFundingIncome (a : Account) (count : Nat)
  | privateStreamReady (a : Account)
  | cancelOrder (a : Account) (order : RemoteOrder)
  | orderByClientId (a : Account) (market : Market) (symbol clientOrderId : String)
  | fillsForOrder (a : Account) (market : Market) (symbol exchangeOrderId clientOrderId : String)
      (since : Int)
  | configurePerp (a : Account) (symbol : String) (leverage : Nat) (positionMode : PositionMode)
  | placeLimitIoc (a : Account) (order : LimitIocOrder)
  | close (a : Account)
  | latestOpportunities (exchange : Exchange)
  | instrumentPairs (exchange : Exchange)
  | gateInstruments
  | gateQuote (pair : InstrumentPair) (opportunity : LiveOpportunity)
  | closeGateAdapter
  | activeStrategy
  | executableLimit (environment : ExchangeEnvironment) (symbol : String) (side : Side)
      (plannedLimitPrice : ℚ)
  | closeGuard
  | recordAccount (a : Account) (r : AccountReconciliation)

/-- What the outside world answers when it does not raise. -/
abbrev OutOp.Answer : OutOp → Type
  | .now => Int
  | .elsewhere _ => Unit
  | .listCredentials => List CredentialSummary
  | .loadSecrets _ => Bool
  | .openClient _ => Unit
  | .snapshot _ => LiveSnapshot
  | .tradingState _ => RemoteTradingState
  | .latestFundingIncomeAt _ => Option Int
  | .fundingIncome .. => Nat × Bool
  | .persistFundingIncome .. => Unit
  | .privateStreamReady _ => Bool
  | .cancelOrder .. => OrderCancellation
  | .orderByClientId .. => RemoteOrderLookup
  | .fillsForOrder .. => RemoteFillBatch
  | .configurePerp .. => Unit
  | .placeLimitIoc .. => OrderSubmission
  | .close _ => Unit
  | .latestOpportunities _ => List LiveOpportunity
  | .instrumentPairs _ => List InstrumentPair
  | .gateInstruments => List InstrumentPair
  | .gateQuote .. => LiveOpportunity
  | .closeGateAdapter => Unit
  | .activeStrategy => Option StrategyVersion
  | .executableLimit .. => Option ℚ
  | .closeGuard => Unit
  | .recordAccount .. => Unit

inductive Op where
  | trade (o : TradeOp)
  | query (q : Query)
  | setControl (state : ControlState) (reason : String)
  | out (o : OutOp)

/-- Every operation may raise; the two-leg tables and the control row are
always there. -/
abbrev Rep : Op → Type
  | .trade o => Except Exc o.Result
  | .query q => q.Answer
  | .setControl .. => Unit
  | .out o => Except Exc o.Answer

/-! ## §4. Programs. -/

/-- A program of the worker that may end in an exception of type `ε`. -/
abbrev Worker (ε α : Type) : Type := Prog Op Rep ε α

variable {α : Type}

/-- One transaction. -/
def perform (o : TradeOp) : Worker Exc o.Result := .call (.trade o) .done

/-- One query. -/
def look (q : Query) : Worker Exc q.Answer := .call (.query q) fun a => .done (.ok a)

/-- `set_execution_control`. -/
def setControl (state : ControlState) (reason : String) : Worker Exc Unit :=
  .call (.setControl state reason) fun _ => .done (.ok ())

/-- One call to the outside world. -/
def ask (o : OutOp) : Worker Exc o.Answer := .call (.out o) .done

/-- A computation that may raise. -/
def pyEval (r : Except Exc α) : Worker Exc α := .done r

/-- The outcome of a program, value or exception. -/
def attempt {ε ε' : Type} (p : Worker ε α) : Worker ε' (Except ε α) :=
  p.resume fun r => .done (.ok r)

/-- `finally: try o except Exception: pass`. -/
def finallyQuietly {ε : Type} (p : Worker ε α) (o : OutOp) : Worker ε α :=
  p.resume fun r => (ask o).resume fun _ => .done r

end BasisHawk.Reconciliation
