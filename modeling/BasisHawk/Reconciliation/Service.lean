/-
  BasisHawk.Reconciliation.Service
  ────────────────────────────────
  `ReconciliationService.run_once` (`reconciliation.py`) as a program over the
  operations.

  The control state is read, overwritten, read again at the end and
  overwritten again; in between every default account is reconciled, one
  after the other, and an exception of one account does not stop the others.
-/
import BasisHawk.Reconciliation.Executors

namespace BasisHawk.Reconciliation

open Domain Lib Accounts Paired

/-! ## §1. One order leg. -/

/-- What the loop over the legs has found out so far. -/
structure Tally where
  reasons : List String
  orderComplete : Bool := true
  recovered : Nat := 0
  fillComplete : Bool := true
  fillCount : Nat := 0

/-- An order lookup left something open. -/
def Tally.orderOpen (t : Tally) (reason : String) : Tally :=
  { t with orderComplete := false, reasons := t.reasons ++ [reason] }

/-- The trades of an order are not all known. -/
def Tally.fillsOpen (t : Tally) (reason : String) : Tally :=
  { t with fillComplete := false, reasons := t.reasons ++ [reason] }

/-- `value or default` of an optional text. -/
def orText (value : Option String) (default : String) : String :=
  (value.filter (· ≠ "")).getD default

/-- The lookup of an order that may still be at the exchange.  The row in hand
only changes when an unknown order turns out not to exist. -/
def reconcileOrder (a : Account) (t : Tally) (leg : OrderLegRow) :
    Worker Exc (Tally × OrderLegRow × Option String) := do
  let recovering := leg.exchangeOrderId.isNone
  let lookup ← ask (.orderByClientId a leg.market leg.symbol leg.clientOrderId)
  if ¬lookup.complete then
    return (t.orderOpen (orText lookup.incompleteReason "remote order lookup is incomplete"), leg,
      leg.exchangeOrderId)
  else match lookup.order with
    | none => do
        let missing ← if leg.status = .unknown then perform (.markUnknownNotFound leg.id)
          else pure false
        if missing then return (t, { leg with status := .failed }, leg.exchangeOrderId)
        else return (t.orderOpen (if recovering
            then "submitted order was not found by client order ID"
            else "linked order was not found by client order ID"), leg, leg.exchangeOrderId)
    | some order => do
        let exchangeOrderId ← perform (.reconcileOrder leg.id order)
        return ({ t with recovered := t.recovered + recovering.toNat }, leg, some exchangeOrderId)

/-- The trades of an order. -/
def reconcileFills (a : Account) (t : Tally) (leg : OrderLegRow) (exchangeOrderId : Option String) :
    Worker Exc Tally :=
  match exchangeOrderId with
  | none =>
      if leg.status = .created ∨ leg.status = .failed ∨ leg.status = .canceled then return t
      else return t.fillsOpen "remote fills require a recovered exchange order ID"
  | some exchangeOrderId => do
      let batch ← ask (.fillsForOrder a leg.market leg.symbol exchangeOrderId leg.clientOrderId
        (leg.createdAt - Ledger.fiveMinutes))
      let _ ← perform (.persistFills leg.id batch.fills)
      let t := { t with fillCount := t.fillCount + batch.fills.length }
      if batch.complete then return t
      else return t.fillsOpen (orText batch.incompleteReason "remote order fills are incomplete")

/-- One step of the loop over the legs. -/
def reconcileLeg (a : Account) (t : Tally) (leg : OrderLegRow) : Worker Exc (Tally × OrderLegRow) := do
  let (t, leg, exchangeOrderId) ← if leg.status.isActive then reconcileOrder a t leg
    else pure (t, leg, leg.exchangeOrderId)
  let t ← reconcileFills a t leg exchangeOrderId
  return (t, leg)

/-- The loop over the legs. -/
def reconcileLegs (a : Account) : Tally → List OrderLegRow → Worker Exc (Tally × List OrderLegRow)
  | t, [] => return (t, [])
  | t, leg :: rest => do
      let (t, leg) ← reconcileLeg a t leg
      let (t, others) ← reconcileLegs a t rest
      return (t, leg :: others)

/-! ## §2. Settlement. -/

/-- The names of the legs are both primary ones and at most one protection leg. -/
def isSettlementLayout (names : List LegName) : Bool :=
  names.contains (.primary .spot) && names.contains (.primary .perp)
    && !(names.contains (.compensation .spot) && names.contains (.compensation .perp))

/-- The intent is one the account has to settle. -/
def isDue (a : Account) (legs : List OrderLegRow) (intent : TradeIntentRow) : Prop :=
  a.owns intent ∧ (intent.status = .executing ∨ intent.status = .compensating)
    ∧ isSettlementLayout ((legs.filter (·.tradeIntentId = intent.id)).map (·.leg))

instance (a : Account) (legs : List OrderLegRow) (intent : TradeIntentRow) :
    Decidable (isDue a legs intent) :=
  inferInstanceAs (Decidable (_ ∧ _ ∧ _))

/-- `settle_live_open` or `settle_live_close`. -/
def settle (intent : TradeIntentRow) : Worker Exc Unit := do
  match intent.action with
  | .opening => let _ ← perform (.settleOpen intent.id)
  | .closing => let _ ← perform (.settleClose intent.id)

/-- The loop over the recoverable intents. -/
def settleAll (a : Account) (legs : List OrderLegRow) : List TradeIntentRow → Worker Exc Unit
  | [] => return ()
  | intent :: rest => do
      if isDue a legs intent then settle intent
      settleAll a legs rest

/-! ## §3. One account. -/

/-- A cancellation that the exchange has taken as asked. -/
def isCanceled (order : RemoteOrder) (c : OrderCancellation) : Prop :=
  c.accepted ∧ c.market = order.market ∧ c.symbol = order.symbol
    ∧ (∀ x ∈ c.exchangeOrderId, x = order.exchangeOrderId)
    ∧ ∀ x ∈ c.clientOrderId, ∀ y ∈ order.clientOrderId, x = y

instance (order : RemoteOrder) (c : OrderCancellation) : Decidable (isCanceled order c) :=
  inferInstanceAs (Decidable (_ ∧ _ ∧ _ ∧ (∀ x ∈ c.exchangeOrderId, _)
    ∧ ∀ x ∈ c.clientOrderId, ∀ y ∈ order.clientOrderId, _))

/-- `_cancel_open_orders`: how many cancellations were submitted, and how many
failed. -/
def cancelOpenOrders (a : Account) : List RemoteOrder → Nat × Nat → Worker Exc (Nat × Nat)
  | [], counts => return counts
  | order :: rest, (submitted, failed) => do
      match ← attempt (ask (.cancelOrder a order)) with
      | .error _ => cancelOpenOrders a rest (submitted, failed + 1)
      | .ok c =>
          if isCanceled order c then cancelOpenOrders a rest (submitted + 1, failed)
          else cancelOpenOrders a rest (submitted, failed + 1)

/-- The funding income: whether it is complete, and how many records came. -/
def reconcileFunding (a : Account) : Worker Exc (Bool × Nat) := do
  let latest ← ask (.latestFundingIncomeAt a)
  let since ← match latest with
    | some latest => pure (latest - seconds 60)
    | none => do
        let now ← ask .now
        pure (now - seconds 86400)
  match ← attempt (ask (.fundingIncome a since)) with
  | .error _ => return (false, 0)
  | .ok (count, complete) => do
      ask (.persistFundingIncome a count)
      return (complete, count)

/-- The reasons an account is blocked for before its legs are looked at. -/
def openingReasons (counts : Nat × Nat) (streamReady : Bool) : List String :=
  (if 0 < counts.1 then
      ["pause cancellation was submitted and requires remote terminal verification"] else [])
    ++ (if 0 < counts.2 then
      ["one or more open orders could not be canceled during the safety pause"] else [])
    ++ (if streamReady then []
      else ["private event stream is disconnected, incomplete, or stale"])

/-- The reasons that the account itself gives. -/
def accountReasons (snapshot : LiveSnapshot) : List String :=
  (if snapshot.positionMode = .unknown then ["position mode is unknown"] else [])
    ++ (if snapshot.tradePermission = some true then []
      else [orText snapshot.tradeBlockReason "two-leg trade permission is not confirmed"])

/-- The end of the work on an account: the positions at the exchange are compared
with the stored ones, and all reasons are put together. -/
def compareAccount (a : Account) (snapshot : LiveSnapshot) (state : RemoteTradingState)
    (funding : Bool × Nat) (streamReady : Bool) (t : Tally) (localLegs : List OrderLegRow) :
    Worker Exc AccountReconciliation := do
  let exposures ← look (.pairedPerpExposures a)
  let reasons := t.reasons
    ++ (if state.complete then []
      else [orText state.incompleteReason "remote trading state is incomplete"])
    ++ openOrderReasons state.openOrders localLegs
    ++ positionReasons state.positions exposures (snapshot.perpMarginMode = .isolated)
    ++ accountReasons snapshot
  return {
    status := if reasons = [] then .ready else .blocked
    reasons := reasons
    snapshot := some snapshot
    tradingState := some state
    orderReconciliationComplete := t.orderComplete
    recoveredOrderCount := t.recovered
    fillReconciliationComplete := t.fillComplete
    fillCount := t.fillCount
    fundingIncomeComplete := funding.1
    fundingIncomeCount := funding.2
    privateStreamReady := streamReady }

/-- What the body of the loop over the accounts finds out with an open client. -/
def reconcileWith (a : Account) (paused : Bool) : Worker Exc AccountReconciliation := do
  let snapshot ← ask (.snapshot a)
  let state ← ask (.tradingState a)
  let funding ← reconcileFunding a
  let counts ← if paused then cancelOpenOrders a state.openOrders (0, 0) else pure (0, 0)
  let streamReady ← ask (.privateStreamReady a)
  let localLegs ← look (.orderLegsForReconciliation a)
  let (t, localLegs) ← reconcileLegs a ⟨openingReasons counts streamReady, true, 0, true, 0⟩ localLegs
  if t.orderComplete ∧ t.fillComplete then do
    let recoverable ← look .recoverableTradeIntents
    settleAll a localLegs recoverable
  compareAccount a snapshot state funding streamReady t localLegs

/-- `_SAFE_RECONCILIATION_ERRORS`. -/
def safeReconciliationErrors : List (String × String) :=
  [("remote order quantity does not match the local order leg", "remote_order_quantity_mismatch"),
    ("remote fill changed after it was persisted", "remote_fill_changed"),
    ("remote fills exceed the local order quantity", "remote_fills_exceed_local_quantity"),
    ("live compensation quantity is incomplete", "compensation_quantity_incomplete"),
    ("live compensation leaves unsafe residual exposure", "compensation_residual_unsafe")]

/-- `_safe_reconciliation_error`. -/
def safeReconciliationError (e : Exc) : String :=
  let unclassified := "reconciliation_failed:internal:unclassified"
  match e.kind with
  | .privateRequest =>
      "reconciliation_failed:private_request:" ++ match e.remoteCode.filter (· ≠ ""), e.statusCode with
        | some code, _ => code
        | none, some code => "http_" ++ toString code
        | none, none => "transport"
  | .value =>
      match getItem safeReconciliationErrors e.message with
      | some detail => "reconciliation_failed:ledger:" ++ detail
      | none => unclassified
  | _ => unclassified

/-- How an account came out. -/
inductive Outcome where
  | ready | blocked | failed
  deriving DecidableEq, Repr

/-- The body of the `try` with an open client: the account is reconciled and the
result stored. -/
def reconcileOpened (a : Account) (paused : Bool) : Worker Exc Outcome := do
  let r ← reconcileWith a paused
  ask (.recordAccount a r)
  return if r.reasons = [] then .ready else .blocked

/-- The handler: the error is stored. -/
def recordFailure (a : Account) (e : Exc) : Worker Exc Outcome := do
  ask (.recordAccount a { status := .error, reasons := [safeReconciliationError e] })
  return .failed

/-- One step of the loop over the accounts. -/
def reconcileAccount (a : Account) (paused : Bool) : Worker Exc Outcome := do
  let opened ← attempt (do
    let present ← ask (.loadSecrets a)
    pyEval (raiseIf (¬present) (.ofKind .runtime "credential disappeared during reconciliation"))
    ask (.openClient a) : Worker Exc Unit)
  match opened with
  | .error e => recordFailure a e
  | .ok () =>
      -- The client is closed after the handler as well.
      finallyQuietly ((reconcileOpened a paused).catching (recordFailure a)) (.close a)

/-- The loop over the accounts. -/
def reconcileAccounts (paused : Bool) : List Account → Worker Exc (List Outcome)
  | [] => return []
  | a :: rest => do
      let first ← reconcileAccount a paused
      let others ← reconcileAccounts paused rest
      return first :: others

/-! ## §4. `run_once`. -/

/-- `ReconciliationResult`. -/
structure Result where
  accountsChecked : Nat
  accountsBlocked : Nat
  accountsFailed : Nat
  executionState : ControlState

/-- The passes of the other services. -/
def precedingPasses : Worker Exc Unit := do
  ask (.elsewhere .transfers)
  ask (.elsewhere .paper)
  ask (.elsewhere .multiLegPaper)
  ask (.elsewhere .multiLegLive)
  let _ ← LiveExecution.runOnce
  let _ ← LiveCompensation.runOnce .compensator

/-- The second look at the private streams. -/
def streamsReady : List Account → Worker Exc Bool
  | [] => return true
  | a :: rest => do
      if ← ask (.privateStreamReady a) then streamsReady rest else return false

/-- The reason of a pause. -/
def pauseReason (control : Control) : Option String :=
  (control.filter fun row => row.state = .paused).map (·.reason)

/-- `if reason:` of an optional text. -/
def isTruthy (reason : Option String) : Bool := reason.any (· ≠ "")

/-- The end of a pass: the last look at the control state, and what follows
from it.  `pause` is the reason the first look found. -/
def conclude (accounts : List Account) (pause : Option String) (outcomes : List Outcome) :
    Worker Exc Result := do
  let control ← look (.executionControl .closing)
  let finalPause := (pauseReason control).or pause
  let allReady ← if outcomes.all (· = .ready) then streamsReady accounts else pure false
  if finalPause = none then
    if allReady then do
      setControl .ready "all configured accounts passed startup reconciliation"
      ask (.elsewhere .automaticTrader)
    else
      setControl .blocked ("startup reconciliation is incomplete; "
        ++ "order, fill, and position matching is required before execution")
  return {
    accountsChecked := accounts.length
    accountsBlocked := outcomes.count .blocked
    accountsFailed := outcomes.count .failed
    executionState := if isTruthy finalPause then .paused else if allReady then .ready else .blocked }

/-- A pass with accounts. -/
def reconcile (accounts : List Account) (pause : Option String) : Worker Exc Result := do
  let outcomes ← reconcileAccounts pause.isSome accounts
  let _ ← LiveCompensation.runOnce .lateCompensator
  conclude accounts pause outcomes

/-- A pass without default accounts. -/
def withoutAccounts (pause : Option String) : Worker Exc Result := do
  if pause = none then setControl .blocked "no exchange accounts are configured"
  return ⟨0, 0, 0, if isTruthy pause then .paused else .blocked⟩

/-- `ReconciliationService.run_once` from the first look at the control state
on. -/
def reconcileAll : Worker Exc Result := do
  let control ← look (.executionControl .opening)
  let pause := pauseReason control
  if pause = none then setControl .reconciling "startup account reconciliation is running"
  let summaries ← ask .listCredentials
  match (summaries.filter (·.isDefault)).map (·.account) with
  | [] => withoutAccounts pause
  | a :: rest => reconcile (a :: rest) pause

/-- `ReconciliationService.run_once`. -/
def runOnce : Worker Exc Result := do
  precedingPasses
  reconcileAll

end BasisHawk.Reconciliation
