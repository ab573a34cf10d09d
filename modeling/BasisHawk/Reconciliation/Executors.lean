/-
  BasisHawk.Reconciliation.Executors
  ──────────────────────────────────
  `LiveExecutionService` and `LiveCompensationService` (`live_execution.py`)
  as programs over the operations.

  Both persist first and submit afterwards: the transaction that moves a leg
  out of `created` commits before its order is placed.

  The orders of `asyncio.gather` are placed one after the other; nothing the
  program does in between depends on their order.
-/
import BasisHawk.Reconciliation.Matching

namespace BasisHawk.Reconciliation

open Domain Lib Accounts Paired

/-! ## §1. Shared checks. -/

/-- Seconds, in microseconds. -/
def seconds (n : Int) : Int := n * 1000000

/-- `exchange == GATE and environment == SANDBOX`. -/
def isGateSandbox (a : Account) : Bool := a.exchange = .gate && a.environment = .sandbox

/-- `_definitive_order_rejection`. -/
def definitiveOrderRejection (e : Exc) : Bool :=
  e.kind = .privateRequest && match e.statusCode with
    | some code => 400 ≤ code && code < 500 && code ∉ [408, 425, 429]
    | none => false

/-- `_order_rejection_code`. -/
def orderRejectionCode (exchange : Exchange) (e : Exc) : String :=
  let plain := exchange.name ++ "_order_rejected"
  if e.kind ≠ .privateRequest then plain
  else match e.remoteCode.filter (· ≠ ""), e.statusCode with
    | some code, _ => String.ofList ((exchange.name ++ "_" ++ code).toList.take 100)
    | none, some code => exchange.name ++ "_http_" ++ toString code
    | none, none => plain

/-- `_validate_balance`. -/
def validateBalance (snapshot : LiveSnapshot) (intent : TradeIntentRow) (spot perp : OrderLegRow) :
    Except Exc Unit :=
  let spotRequired := spot.quantity * spot.limitPrice
  let perpRequired := perp.base * perp.limitPrice / intent.leverage
  if snapshot.sharedBalance then
    raiseIf (snapshot.spotUsdtAvailable < spotRequired
        ∨ snapshot.perpUsdtAvailable < spotRequired + perpRequired)
      (.ofKind .runtime "shared USDT balance is insufficient")
  else raiseIf (snapshot.spotUsdtAvailable < spotRequired
      ∨ snapshot.perpUsdtAvailable < perpRequired)
    (.ofKind .runtime "spot or perpetual USDT balance is insufficient")

/-- The order of a leg. -/
def orderFor (snapshot : LiveSnapshot) (leg : OrderLegRow) : LimitIocOrder where
  market := leg.market
  symbol := leg.symbol
  side := leg.side
  quantity := leg.quantity
  limitPrice := leg.limitPrice
  clientOrderId := leg.clientOrderId
  reduceOnly := leg.reduceOnly
  positionMode := if leg.market = .perp then snapshot.positionMode else .unknown

/-- `client.place_limit_ioc(LimitIocOrder(...))`. -/
def submit (a : Account) (snapshot : LiveSnapshot) (leg : OrderLegRow) :
    Worker Exc OrderSubmission := do
  let order ← pyEval (orderFor snapshot leg).validate
  ask (.placeLimitIoc a order)

/-- `_gate_sandbox_guarded_perp_limit`. -/
def guardedPerpLimit (a : Account) (leg : OrderLegRow) (plannedLimitPrice : ℚ) :
    Worker Exc (Option ℚ) :=
  finallyQuietly (ask (.executableLimit a.environment leg.symbol leg.side plannedLimitPrice))
    .closeGuard

/-- Asks for the local exposures and validates the remote positions. -/
def checkPairedPositions (a : Account) (positions : List RemotePosition) (isolated : Bool) :
    Worker Exc Unit := do
  let exposures ← look (.pairedPerpExposures a)
  pyEval (validatePairedPositions exposures positions isolated)

/-- `_validate_close_state`. -/
def validateCloseState (a : Account) (intent : TradeIntentRow) (spot perp : OrderLegRow)
    (positions : List RemotePosition) (isolated : Bool) : Worker Exc Unit := do
  let positionId ← pyEval (found intent.pairedPositionId
    (.ofKind .runtime "live close intent has no paired position"))
  let position ← look (.pairedPosition positionId)
  let position ← pyEval (found (position.filter fun p =>
      p.status = .closing ∧ p.closingIntentId = some intent.id)
    (.ofKind .runtime "paired position is not reserved for closing"))
  pyEval (raiseIf (¬Ledger.closesExactly position spot perp)
    (.ofKind .runtime "live close legs do not exactly reduce the paired position"))
  checkPairedPositions a positions isolated

/-! ## §2. `LiveExecutionService`. -/

namespace LiveExecution

/-- `LiveExecutionResult`. -/
structure Result where
  examined : Nat
  submitted : Nat
  uncertain : Nat
  preflightFailed : Nat

/-- `try p except Exception: raise LivePreflightError(code)`.  Any exception that
is not a preflight error is recorded as `preflight_internal_error`, so the code
is all that is left of an exception. -/
def orElse {α : Type} (p : Worker Exc α) (code : FailureCode) : Worker FailureCode α :=
  p.resume fun
    | .ok a => .done (.ok a)
    | .error _ => .done (.error code)

/-- `if c: raise LivePreflightError(code)`. -/
def require (c : Prop) [Decidable c] (code : FailureCode) : Worker FailureCode Unit :=
  .done (raiseIf (¬c) code)

/-- What `_execute` has established before it prepares the submission. -/
structure Preflight where
  snapshot : LiveSnapshot
  remote : RemoteTradingState

/-- The snapshot and the remote state, and what they must say. -/
def observeAccount (a : Account) : Worker FailureCode Preflight := do
  let snapshot ← orElse (ask (.snapshot a)) .accountSnapshotFailed
  let remote ← orElse (ask (.tradingState a)) .remoteStateFailed
  let now ← orElse (ask .now) .preflightInternalError
  require (snapshot.exchange = a.exchange ∧ snapshot.environment = a.environment
    ∧ now - seconds 30 ≤ snapshot.observedAt) .accountSnapshotStale
  require (snapshot.tradePermission = some true) .tradePermissionUnconfirmed
  require (snapshot.positionMode ≠ .unknown) .positionModeUnknown
  require remote.complete .remoteStateIncomplete
  require (remote.openOrders = []) .remoteOpenOrders
  return ⟨snapshot, remote⟩

/-- The intent and its primary legs as they are now. -/
def currentLegs (intent : TradeIntentRow) : Worker FailureCode (OrderLegRow × OrderLegRow) := do
  let current ← orElse (look (.tradeIntent intent.id)) .preflightInternalError
  match current with
  | none => .done (.error .intentMissing)
  | some (_, legs) =>
      match legs.find? (·.leg = .primary .spot), legs.find? (·.leg = .primary .perp) with
      | some spot, some perp => return (spot, perp)
      | _, _ => .done (.error .intentLegsInvalid)

/-- What the account must have for the intent. -/
def checkAccount (a : Account) (intent : TradeIntentRow) (p : Preflight)
    (spot perp : OrderLegRow) : Worker FailureCode Unit := do
  let isolated : Bool := p.snapshot.perpMarginMode = .isolated
  match intent.action with
  | .opening => do
      require (intent.spotBuyFeeInBase → p.snapshot.spotBuyFeeInBase = some true)
        .spotFeeModeChanged
      orElse (checkPairedPositions a p.remote.positions isolated) .remotePositionsPresent
      orElse (pyEval (validateBalance p.snapshot intent spot perp)) .balanceInsufficient
  | .closing =>
      orElse (validateCloseState a intent spot perp p.remote.positions isolated)
        .closeStateMismatch

/-- What becomes of a leg by the outcome of its submission: the number of
uncertain legs. -/
def recordOutcome (exchange : Exchange) (leg : OrderLegRow) (outcome : Except Exc OrderSubmission) :
    Worker Exc Nat :=
  match outcome with
  | .error e =>
      if definitiveOrderRejection e then do
        perform (.markSubmissionRejected leg.id (orderRejectionCode exchange e))
        return 0
      else do
        perform (.markSubmissionUnknown leg.id)
        return 1
  | .ok submission =>
      (do perform (.recordSubmission leg.id submission)
          return 0 : Worker Exc Nat).catching fun _ => do
        perform (.markSubmissionUnknown leg.id)
        return 1

/-- The legs of a Gate sandbox intent are submitted one after the other; the
spot leg only if the perpetual leg went through. -/
def submitInTurn (a : Account) (snapshot : LiveSnapshot) (perp spot : OrderLegRow) :
    Worker Exc (List (OrderLegRow × Except Exc OrderSubmission)) := do
  match ← attempt (submit a snapshot perp) with
  | .error e => do
      perform (.markSubmissionRejected spot.id "gate_prior_leg_not_submitted")
      return [(perp, .error e)]
  | .ok first => do
      let second ← attempt (submit a snapshot spot)
      return [(perp, .ok first), (spot, second)]

/-- Both legs are submitted whatever becomes of the other. -/
def submitTogether (a : Account) (snapshot : LiveSnapshot) (spot perp : OrderLegRow) :
    Worker Exc (List (OrderLegRow × Except Exc OrderSubmission)) := do
  let first ← attempt (submit a snapshot spot)
  let second ← attempt (submit a snapshot perp)
  return [(spot, first), (perp, second)]

/-- The outcomes of all submitted legs. -/
def recordOutcomes (exchange : Exchange) :
    List (OrderLegRow × Except Exc OrderSubmission) → Worker Exc Nat
  | [] => return 0
  | (leg, outcome) :: rest => do
      let first ← recordOutcome exchange leg outcome
      let others ← recordOutcomes exchange rest
      return first + others

/-- From the prepared submission on. -/
def submitPrepared (a : Account) (snapshot : LiveSnapshot) (intent : TradeIntentRow)
    (legs : List OrderLegRow) : Worker Exc (Bool × Nat) := do
  let spot ← pyEval (found (legs.find? (·.leg = .primary .spot)) (.ofKind .key "spot"))
  let perp ← pyEval (found (legs.find? (·.leg = .primary .perp)) (.ofKind .key "perp"))
  let outcomes ← if isGateSandbox a then submitInTurn a snapshot perp spot
    else submitTogether a snapshot spot perp
  let uncertain ← recordOutcomes intent.exchange outcomes
  return (true, uncertain)

/-- `_execute` from the checked account on; `adjusted` is the tighter limit of a
Gate sandbox leg. -/
def prepareAndSubmit (a : Account) (intent : TradeIntentRow) (p : Preflight) (perp : OrderLegRow)
    (adjusted : Option ℚ) : Worker FailureCode (Bool × Nat) := do
  if intent.action = .opening then
    orElse (ask (.configurePerp a perp.symbol intent.leverage p.snapshot.positionMode))
      .perpConfigurationFailed
  let prepared ← orElse (perform (.prepareSubmission intent.id adjusted)) .preflightInternalError
  match prepared with
  | some (intent, legs, true) =>
      orElse (submitPrepared a p.snapshot intent legs) .preflightInternalError
  | _ => return (false, 0)

/-- `_execute` with an open client. -/
def executeWith (a : Account) (intent : TradeIntentRow) : Worker FailureCode (Bool × Nat) := do
  let p ← observeAccount a
  let (spot, perp) ← currentLegs intent
  checkAccount a intent p spot perp
  if isGateSandbox a then do
    -- Price-protection data may recover until the market observation expires.
    match ← attempt (guardedPerpLimit a perp perp.limitPrice) with
    | .error _ => return (false, 0)
    | .ok none => do
        let _ ← orElse (perform (.failMarketUnexecutable intent.id)) .preflightInternalError
        return (false, 0)
    | .ok (some price) => prepareAndSubmit a intent p perp (some price)
  else prepareAndSubmit a intent p perp none

/-- `_execute`. -/
def execute (intent : TradeIntentRow) : Worker FailureCode (Bool × Nat) := do
  let a ← orElse (pyEval (accountOf intent)) .preflightInternalError
  let present ← orElse (ask (.loadSecrets a)) .preflightInternalError
  require present .credentialMissing
  orElse (ask (.openClient a)) .accountClientFailed
  finallyQuietly (executeWith a intent) (.close a)

/-- The market observation lies in the future or is too old. -/
def isExpired (intent : TradeIntentRow) (now : Int) : Prop :=
  now + seconds 5 < intent.marketObservedAt ∨ seconds 15 < now - intent.marketObservedAt

instance (intent : TradeIntentRow) (now : Int) : Decidable (isExpired intent now) :=
  inferInstanceAs (Decidable (_ ∨ _))

/-- The loop over the candidates. -/
def executeAll : List TradeIntentRow → Result → Worker Exc Result
  | [], r => return r
  | item :: rest, r => do
      let r := { r with examined := r.examined + 1 }
      let now ← ask .now
      if isExpired item now then
        let _ ← perform (.expirePlanned item.id)
        executeAll rest r
      else match ← attempt (execute item) with
        | .error code => do
            perform (.recordPreflightFailure item.id item.exchange code)
            return { r with preflightFailed := r.preflightFailed + 1 }
        | .ok (didSubmit, uncertain) =>
            let r := { r with
              submitted := r.submitted + didSubmit.toNat, uncertain := r.uncertain + uncertain }
            if didSubmit ∨ 0 < uncertain then return r else executeAll rest r

/-- The planned intents the control state lets through. -/
def candidates (control : Control) (recoverable : List TradeIntentRow) : List TradeIntentRow :=
  recoverable.filter fun i => i.environment ≠ .paper ∧ i.status = .planned
    ∧ (control.Ready ∨ (i.action = .closing ∧ i.emergency))

/-- `LiveExecutionService.run_once`. -/
def runOnce : Worker Exc Result := do
  let control ← look (.executionControl .executor)
  if control.Ready ∨ control.Paused then do
    let recoverable ← look .recoverableTradeIntents
    executeAll (candidates control recoverable) ⟨0, 0, 0, 0⟩
  else return ⟨0, 0, 0, 0⟩

end LiveExecution

/-! ## §3. `LiveCompensationService`. -/

namespace LiveCompensation

/-- `LiveCompensationResult`. -/
structure Result where
  examined : Nat
  submitted : Nat
  uncertain : Nat
  failed : Nat

/-- `compensation_quantity`: buying back rounds up, selling rounds down.  The
increment is the decimal the exchange declares: its way through a float and back
is the identity up to 15 significant digits, and so is the last `quantize` on
results of up to 28. -/
def compensationQuantity (requested increment : ℚ) (side : Side) : Except Exc ℚ := do
  raiseIf (requested ≤ 0 ∨ increment ≤ 0)
    (.value "compensation quantity and increment must be positive")
  let ratio := requested / increment
  -- `to_integral_value` rounds half to even
  let nearest : ℚ := if ratio - ⌊ratio⌋ < 1 / 2 ∨ (ratio - ⌊ratio⌋ = 1 / 2 ∧ ⌊ratio⌋ % 2 = 0) then ⌊ratio⌋
    else ⌊ratio⌋ + 1
  let ratio := if |ratio - nearest| ≤ 1 / 10 ^ 9 then nearest else ratio
  let increments : ℚ := match side with
    | .buy => ⌈ratio⌉
    | .sell => ⌊ratio⌋
  raiseIf (increments ≤ 0) (.value "compensation quantity is below the exchange increment")
  return increments * increment

/-- `_maximum_slippage`. -/
def maximumSlippage (environment : ExchangeEnvironment) : Worker Exc ℚ := do
  match ← ask .activeStrategy with
  | none => return 1 / 100
  | some strategy =>
      if strategy.environment ≠ environment then return 1 / 100
      else do
        pyEval (raiseIf (strategy.emergencyMaxSlippage ≤ 0 ∨ 1 / 4 < strategy.emergencyMaxSlippage)
          (.ofKind .runtime "configured emergency compensation slippage is invalid"))
        return strategy.emergencyMaxSlippage

/-- `_gate_sandbox_market`. -/
def gateSandboxMarket (opportunity : LiveOpportunity) :
    Worker Exc (LiveOpportunity × Option InstrumentPair) :=
  Prog.finally' (do
      let pairs ← ask .gateInstruments
      match pairs.find? (·.baseAsset = opportunity.baseAsset) with
      | none => return (opportunity, none)
      | some pair => do
          let quoted ← ask (.gateQuote pair opportunity)
          return (quoted, some pair))
    (ask .closeGateAdapter)

/-- The market and the rules a protection leg is priced with, as they are stored;
a Gate sandbox account has a market of its own. -/
def storedMarket (a : Account) (intent : TradeIntentRow) :
    Worker Exc (Option LiveOpportunity × Option InstrumentPair) := do
  let opportunities ← ask (.latestOpportunities intent.exchange)
  let pairs ← ask (.instrumentPairs intent.exchange)
  let pair := pairs.find? (·.baseAsset = intent.baseAsset)
  match opportunities.find? (·.baseAsset = intent.baseAsset) with
  | none => return (none, pair)
  | some opportunity =>
      if isGateSandbox a then do
        let (quoted, pair) ← gateSandboxMarket opportunity
        return (some quoted, pair)
      else return (some opportunity, pair)

/-- The market and the rules must be there and fresh. -/
def compensationMarket (a : Account) (intent : TradeIntentRow) :
    Worker Exc (LiveOpportunity × InstrumentPair) := do
  let market ← storedMarket a intent
  let now ← ask .now
  match market with
  | (some opportunity, some pair) => do
      pyEval (raiseIf (¬pair.tradingRulesComplete ∨ opportunity.observedAt < now - seconds 15)
        (.ofKind .runtime "fresh compensation market and rules are unavailable"))
      return (opportunity, pair)
  | _ => pyEval (.error (.ofKind .runtime "fresh compensation market and rules are unavailable"))

/-- The quote a protection leg is priced at. -/
def referencePrice (o : LiveOpportunity) (leg : OrderLegRow) : ℚ :=
  match leg.market, leg.side with
  | .spot, .buy => o.spotAsk
  | .spot, .sell => o.spotBid
  | .perp, .buy => o.perpAsk
  | .perp, .sell => o.perpBid

/-- The top of the book a protection leg trades against. -/
def capacity (o : LiveOpportunity) (leg : OrderLegRow) : ℚ :=
  match leg.market, leg.side with
  | .spot, .sell | .perp, .buy => o.closeTopBookNotional
  | .spot, .buy | .perp, .sell => o.topBookNotional

/-- How a protection leg is to be submitted. -/
structure Terms where
  limitPrice : ℚ
  quantity : ℚ
  toleranceBase : ℚ

/-- The limit of a Gate sandbox perpetual leg must lie in the price band. -/
def guardedLimit (a : Account) (leg : OrderLegRow) (limit : ℚ) : Worker Exc ℚ :=
  if isGateSandbox a ∧ leg.market = .perp then do
    let guarded ← guardedPerpLimit a leg limit
    pyEval (found guarded (.ofKind .runtime "Gate Sandbox compensation is outside the price band"))
  else return limit

/-- Quantity, limit and tolerance of the protection leg. -/
def terms (a : Account) (intent : TradeIntentRow) (leg : OrderLegRow) : Worker Exc Terms := do
  let (opportunity, pair) ← compensationMarket a intent
  let priceIncrement := if leg.market = .spot then pair.spotPriceIncrement
    else pair.perpPriceIncrement
  let quantityIncrement := if leg.market = .spot then pair.spotQuantityIncrement
    else pair.perpQuantityIncrement
  let quantity ← pyEval (compensationQuantity leg.quantity quantityIncrement leg.side)
  let slippage ← maximumSlippage intent.environment
  let limit ← pyEval (protectiveLimitPrice (referencePrice opportunity leg) slippage leg.side
    priceIncrement)
  let limit ← guardedLimit a leg limit
  pyEval (raiseIf (capacity opportunity leg
      < quantity * leg.baseMultiplier * referencePrice opportunity leg)
    (.ofKind .runtime "compensation exceeds the current protected top book"))
  return ⟨limit, quantity, quantityIncrement * leg.baseMultiplier⟩

/-- The account must be quiet. -/
def observeAccount (a : Account) : Worker Exc LiveSnapshot := do
  let snapshot ← ask (.snapshot a)
  let remote ← ask (.tradingState a)
  pyEval (raiseIf (snapshot.tradePermission ≠ some true ∨ snapshot.positionMode = .unknown
      ∨ ¬remote.complete ∨ remote.openOrders ≠ [])
    (.ofKind .runtime "account is not safe for compensation submission"))
  return snapshot

/-- From the prepared protection leg on. -/
def submitPrepared (a : Account) (snapshot : LiveSnapshot) (leg : OrderLegRow) :
    Worker Exc (Bool × Nat) :=
  (do let submission ← submit a snapshot leg
      perform (.recordSubmission leg.id submission)
      return (true, 0) : Worker Exc (Bool × Nat)).catching fun _ => do
    perform (.markSubmissionUnknown leg.id)
    return (true, 1)

/-- `_execute` with an open client. -/
def executeWith (a : Account) (intent : TradeIntentRow) (t : Terms) : Worker Exc (Bool × Nat) := do
  let snapshot ← observeAccount a
  match ← perform (.prepareCompensation intent.id t.limitPrice t.quantity t.toleranceBase) with
  | some (_, [leg], true) => submitPrepared a snapshot leg
  | _ => return (false, 0)

/-- `_execute`. -/
def execute (intent : TradeIntentRow) : Worker Exc (Bool × Nat) := do
  let current ← look (.tradeIntent intent.id)
  let (_, legs) ← pyEval (found current (.ofKind .runtime "compensating intent disappeared"))
  let leg ← pyEval (match legs.filter (·.leg.isCompensation) with
    | [leg] => .ok leg
    | _ => .error (.ofKind .runtime "compensating intent has no unique protection leg"))
  if leg.status ≠ .created then return (false, 0)
  else do
    let a ← pyEval (accountOf intent)
    let t ← terms a intent leg
    let present ← ask (.loadSecrets a)
    pyEval (raiseIf (¬present) (.ofKind .runtime "exchange credential is not configured"))
    ask (.openClient a)
    Prog.finally' (executeWith a intent t) (ask (.close a))

/-- The compensating intents. -/
def candidates (recoverable : List TradeIntentRow) : List TradeIntentRow :=
  recoverable.filter fun i => i.environment ≠ .paper ∧ i.status = .compensating

/-- `LiveCompensationService.run_once`. -/
def runOnce (reader : Reader) : Worker Exc Result := do
  let control ← look (.executionControl reader)
  if ¬control.Paused then return ⟨0, 0, 0, 0⟩
  else do
    let recoverable ← look .recoverableTradeIntents
    match candidates recoverable with
    | [] => return ⟨0, 0, 0, 0⟩
    | intent :: _ =>
        match ← attempt (execute intent) with
        | .error _ => return ⟨1, 0, 0, 1⟩
        | .ok (submitted, uncertain) => return ⟨1, submitted.toNat, uncertain, 0⟩

end LiveCompensation

end BasisHawk.Reconciliation
