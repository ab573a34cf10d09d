/-
  BasisHawk.MultiLeg.Service
  ──────────────────────────
  `MultiLegLiveExecutionService`: one pass of the multi-leg worker, as a
  program over the operations.

  The pure decisions (which leg is next, how much, in which mode, what a remote
  status means) are separate functions, so that the program around them is
  only the sequence of its operations.
-/
import BasisHawk.MultiLeg.Quotes

namespace BasisHawk.MultiLeg

open Domain Lib Accounts Database

/-! ## §1. Pure decisions. -/

/-- `_target`. -/
def target (leg : ExecutionTaskLegRow) : Except Exc ℚ :=
  found leg.resolvedBaseQuantity (.value "task-leg base quantity is unresolved")

/-- `_maker_is_outside_book_level`. -/
def makerIsOutsideBookLevel (side : Side) (orderPrice bookLevelPrice : Option ℚ) :
    Except Exc Bool :=
  match orderPrice, bookLevelPrice with
  | some order, some book =>
      .ok (match side with
        | .buy => order < book
        | .sell => book < order)
  | _, _ => .error (.value "maker price comparison requires two limit prices")

/-- `_position_side`. -/
def positionSide (side : Side) (reduceOnly : Bool) : PerpPositionSide :=
  if (side == .buy) != reduceOnly then .long else .short

/-- `_client_order_id`. -/
def newClientOrderId (exchange : Exchange) (token : String) : String :=
  match exchange with
  | .okx => "bh" ++ String.ofList (token.toList.take 28)
  | .gate => "t-bh-" ++ String.ofList (token.toList.take 20)
  | _ => "bh-" ++ String.ofList (token.toList.take 28)

/-- `value.strip().lower().replace("-", "_").replace(" ", "_")`. -/
def normalizeStatus (value : String) : String :=
  String.ofList ((pyLowerString (pyStrip value)).map fun c => if c = '-' ∨ c = ' ' then '_' else c)

/-- What `_remote_status` makes of a status word while the order is not full. -/
def statusOfWord (word : String) (filledQuantity : ℚ) : OrderStatus :=
  if word ∈ ["filled", "closed", "done"] then .filled
  else if word ∈ ["canceled", "cancelled", "expired", "deactivated"] then .canceled
  else if word ∈ ["rejected", "reject"] then .rejected
  else if word ∈ ["failed", "error"] then .failed
  else if 0 < filledQuantity ∨ word ∈ ["partially_filled", "partial_fill", "partial"] then
    .partiallyFilled
  else if word ∈ ["new", "open", "live", "active", "created", "submitted", "acknowledged"] then
    .acknowledged
  else .unknown

/-- `_remote_status`. -/
def remoteStatus (value : String) (filledQuantity requestedQuantity : ℚ) : OrderStatus :=
  if requestedQuantity ≤ filledQuantity then .filled
  else statusOfWord (normalizeStatus value) filledQuantity

/-- `+1` for a buy, `-1` for a sell. -/
def sign (side : Side) : ℚ :=
  match side with
  | .buy => 1
  | .sell => -1

/-- The first hedge leg that is behind its share of the anchor's fill. -/
def nextHedge (task : ExecutionTaskRow) (filled : Nat → ℚ) (anchorTarget anchorFilled : ℚ) :
    List ExecutionTaskLegRow → Except Exc (Option (ExecutionTaskLegRow × ℚ))
  | [] => .ok none
  | leg :: rest => do
      let hedgeTarget ← target leg
      raiseIf (anchorTarget = 0) (.ofKind .arithmetic "division by zero")
      let share := min hedgeTarget (anchorFilled * hedgeTarget / anchorTarget)
      -- `task.hedge_threshold or 1`
      let threshold := (task.hedgeThreshold.filter (· ≠ 0)).getD 1
      let desired :=
        if task.hedgeTrigger = .cumulativePercent ∧ anchorFilled < anchorTarget
            ∧ anchorFilled / anchorTarget < threshold then 0
        else share
      if 0 < desired - filled leg.id then
        return some (leg, desired - filled leg.id)
      else nextHedge task filled anchorTarget anchorFilled rest

/-- The first hedge leg that is short of its own target. -/
def nextShort (filled : Nat → ℚ) :
    List ExecutionTaskLegRow → Except Exc (Option (ExecutionTaskLegRow × ℚ))
  | [] => .ok none
  | leg :: rest => do
      let hedgeTarget ← target leg
      if 0 < hedgeTarget - filled leg.id then
        return some (leg, hedgeTarget - filled leg.id)
      else nextShort filled rest

/-- `next(item for item in legs if item.role == "anchor")`; inside a coroutine
an exhausted `next` is a `RuntimeError`. -/
def anchorOf (legs : List ExecutionTaskLegRow) : Except Exc ExecutionTaskLegRow :=
  found (legs.find? (fun l => l.role = .anchor))
    (.ofKind .runtime "coroutine raised StopIteration")

/-- What `_progress` does when no order is active: the phase to enter and the
leg to trade with its deficit, or nothing when every leg has its target. -/
def nextDeficit (task : ExecutionTaskRow) (legs : List ExecutionTaskLegRow)
    (orders : List ExecutionOrderRow) :
    Except Exc (Option (TaskStatus × ExecutionTaskLegRow × ℚ)) := do
  let filled := fun legId => filledBaseOf orders legId .primary
  let hedges := legs.filter (fun l => l.role = .hedge)
  let anchor ← anchorOf legs
  let anchorTarget ← target anchor
  let anchorFilled := filled anchor.id
  match ← nextHedge task filled anchorTarget anchorFilled hedges with
  | some (leg, deficit) => return some (.hedging, leg, deficit)
  | none =>
      if 0 < anchorTarget - anchorFilled then
        return some (.running, anchor, anchorTarget - anchorFilled)
      else do
        match ← nextShort filled hedges with
        | some (leg, deficit) => return some (.hedging, leg, deficit)
        | none => return none

/-- The mode and parent of a leg's next order, from its orders so far. -/
def nextAttempt (task : ExecutionTaskRow) (leg : ExecutionTaskLegRow)
    (legOrders : List ExecutionOrderRow) : Except Exc (OrderMode × Option Nat) :=
  match legOrders.getLast? with
  | none => .ok (leg.orderMode, none)
  | some latest =>
      if latest.orderMode = .maker ∧ latest.status.isTerminal
          ∧ latest.filledQuantity < latest.quantity then
        if leg.makerMaximumChases.getD 0 ≤ latest.chaseNumber then
          match leg.makerFallbackMode with
          | none => .error (.value "maker chase limit reached without fallback")
          | some mode => .ok (mode, some latest.id)
        else .ok (.maker, some latest.id)
      else if latest.status = .canceled ∨ latest.status = .rejected ∨ latest.status = .failed then do
        raiseIf (task.maximumRetries < (legOrders.map (·.attemptNumber)).foldr max 0)
          (.value "execution task retry limit reached")
        return (leg.orderMode, none)
      else .ok (leg.orderMode, none)

/-- The part of a deficit that one order takes. -/
def chunkOf (task : ExecutionTaskRow) (leg : ExecutionTaskLegRow) (deficit : ℚ) : Except Exc ℚ :=
  if 0 < leg.perOrderQuantity then do
    let legTarget ← target leg
    return min deficit (match task.quantityMode with
      | .base => leg.perOrderQuantity
      | .usdt => legTarget * leg.perOrderQuantity / leg.targetQuantity)
  else .ok deficit

/-- The first leg whose primary fill is not yet compensated, with the rest. -/
def nextCompensation (task : ExecutionTaskRow) (orders : List ExecutionOrderRow) :
    List ExecutionTaskLegRow → Except Exc (Option (ExecutionTaskLegRow × ℚ))
  | [] => .ok none
  | leg :: rest => do
      let remaining := filledBaseOf orders leg.id .primary - filledBaseOf orders leg.id .compensation
      raiseIf (remaining < 0) (.value "compensation exceeded the primary fill")
      if remaining = 0 then nextCompensation task orders rest
      else do
        raiseIf (task.maximumRetries <
            (orders.filter fun o => o.taskLegId = leg.id ∧ o.purpose = .compensation).length)
          (.value "compensation retry limit reached")
        return some (leg, remaining)

/-! ## §2. Resolving the legs. -/

/-- The first loop of `_resolve_legs`: the market of every leg, with the stored
quantity where there is one. -/
def resolveMarkets (quantityMode : QuantityMode) :
    List ExecutionTaskLegRow → Worker (List (ExecutionTaskLegRow × ResolvedLegMarket))
  | [] => pure []
  | leg :: rest => do
      let market ← resolveLeg leg quantityMode
      let market := { market with
        baseQuantity := leg.resolvedBaseQuantity.getD market.baseQuantity }
      let others ← resolveMarkets quantityMode rest
      return (leg, market) :: others

/-- The second loop: store what is new, compare what is known.  The legs come
back as the pass goes on with them. -/
def storeResolved (num : Numeric) (anchorQuantity : ℚ) :
    List (ExecutionTaskLegRow × ResolvedLegMarket) → Worker (List ExecutionTaskLegRow)
  | [] => pure []
  | (leg, market) :: rest => do
      let ratio := num.divide (sign leg.side * market.baseQuantity) anchorQuantity
      match leg.resolvedBaseQuantity with
      | none => do
          let updated ← perform (.resolveLeg leg.id market.baseQuantity ratio)
          let leg := { leg with
            resolvedBaseQuantity := updated.resolvedBaseQuantity
            signedBaseRatio := updated.signedBaseRatio }
          let others ← storeResolved num anchorQuantity rest
          return leg :: others
      | some quantity =>
          if quantity ≠ market.baseQuantity ∨ leg.signedBaseRatio ≠ some ratio then
            throw (.value "resolved live task quantity changed")
          else do
            let others ← storeResolved num anchorQuantity rest
            return leg :: others

/-- The exposure limits of a task. -/
def checkExposure (task : ExecutionTaskRow)
    (markets : List (ExecutionTaskLegRow × ResolvedLegMarket)) : Except Exc Unit := do
  let base := |(markets.map fun m => sign m.1.side * m.2.baseQuantity).sum|
  let notional := |(markets.map fun m =>
    sign m.1.side * m.2.baseQuantity * m.2.referencePrice).sum|
  raiseIf (task.maximumBaseExposure < base)
    (.value "resolved live base exposure exceeds the task limit")
  raiseIf (task.maximumNotionalExposureUsdt < notional)
    (.value "resolved live notional exposure exceeds the task limit")

/-- The anchor's resolved quantity. -/
def anchorQuantity (markets : List (ExecutionTaskLegRow × ResolvedLegMarket)) : Except Exc ℚ := do
  let anchor ← found (markets.find? (fun m => m.1.role = .anchor))
    (.ofKind .runtime "coroutine raised StopIteration")
  raiseIf (anchor.2.baseQuantity = 0) (.ofKind .arithmetic "division by zero")
  return anchor.2.baseQuantity

/-- `_resolve_legs`. -/
def resolveLegs (num : Numeric) (task : ExecutionTaskRow) (legs : List ExecutionTaskLegRow) :
    Worker (List ExecutionTaskLegRow) := do
  let markets ← resolveMarkets task.quantityMode legs
  let anchor ← pyEval (anchorQuantity markets)
  let legs ← storeResolved num anchor markets
  pyEval (checkExposure task markets)
  return legs

/-! ## §3. Creating orders. -/

/-- `_create_next_order`. -/
def createNextOrder (task : ExecutionTaskRow) (run : ExecutionRunRow) (leg : ExecutionTaskLegRow)
    (deficit : ℚ) (orders : List ExecutionOrderRow) : Worker Unit := do
  let (mode, parentId) ← pyEval (nextAttempt task leg (orders.filter (fun o => o.taskLegId = leg.id)))
  let chunk ← pyEval (chunkOf task leg deficit)
  let quote ← quoteOrder leg chunk mode task.environment leg.side
  let token ← ask .uuid
  let _ ← perform (.createOrder {
    runId := run.id, taskLegId := leg.id, clientOrderId := newClientOrderId leg.exchange token,
    orderMode := mode, side := leg.side, reduceOnly := leg.reduceOnly, purpose := .primary,
    quantity := quote.nativeQuantity, baseMultiplier := quote.baseMultiplier,
    limitPrice := quote.limitPrice, parentOrderId := parentId })
  return ()

/-- The side that undoes a leg. -/
def reverseSide (side : Side) : Side :=
  match side with
  | .buy => .sell
  | .sell => .buy

/-- `_progress_compensation`. -/
def progressCompensation (workerId : String) (c : Claimed) (legs : List ExecutionTaskLegRow) :
    Worker Unit := do
  match ← pyEval (nextCompensation c.task c.orders legs) with
  | some (leg, remaining) => do
      let side := reverseSide leg.side
      let quote ← quoteOrder leg remaining .protectedIoc c.task.environment side
      let token ← ask .uuid
      let _ ← perform (.createOrder {
        runId := c.run.id, taskLegId := leg.id
        clientOrderId := newClientOrderId leg.exchange token, orderMode := .protectedIoc
        side := side, reduceOnly := decide (leg.marketType = .perpetual)
        purpose := .compensation, quantity := quote.nativeQuantity
        baseMultiplier := quote.baseMultiplier, limitPrice := quote.limitPrice
        parentOrderId := none })
      return ()
  | none =>
      -- `task.failure_code or ...`: an empty code falls back too.
      let code := (c.task.failureCode.filter (· ≠ "")).getD "multi_leg_execution_compensated"
      perform (.failRun c.task.id c.run.id code workerId false)

/-! ## §4. Submitting and observing an order. -/

/-- The perpetual configuration a request needs, checked before it is sent. -/
def confirmPerp (client : Client) (leg : ExecutionTaskLegRow) (snapshot : AccountSnapshot)
    (margin : PerpMarginMode) : Worker Unit := do
  if snapshot.positionMode = .unknown then
    throw (.value "live execution position mode is unknown")
  else
    let symbolScopedCross :=
      (leg.exchange = .binance ∨ leg.exchange = .okx) ∧ margin = .cross
    if snapshot.perpMarginMode ≠ margin ∧ ¬symbolScopedCross then
      throw (.value "live execution margin mode changed after preflight")
    else if margin = .cross ∧ leg.exchange ≠ .binance ∧ leg.exchange ≠ .okx
        ∧ leg.exchange ≠ .gate then
      throw (.value (leg.exchange.name ++ " cross-margin leverage confirmation is not implemented"))
    else do
      let configuration ← ask (.configurePerp client leg.symbol leg.leverage snapshot.positionMode
        (if symbolScopedCross then some margin else none))
      if configuration.isolated ≠ decide (margin = .isolated)
          ∨ configuration.leverage ≠ leg.leverage
          ∨ configuration.positionMode ≠ snapshot.positionMode then
        throw (.value "live execution perpetual configuration was not confirmed")
      else pure ()

/-- The request for an order row. -/
def requestFor (leg : ExecutionTaskLegRow) (order : ExecutionOrderRow) (snapshot : AccountSnapshot)
    (margin : PerpMarginMode) : PrivateOrderRequest where
  market := leg.marketType.market
  symbol := leg.symbol
  side := order.side
  quantity := order.quantity
  mode := order.orderMode
  limitPrice := order.limitPrice
  clientOrderId := order.clientOrderId
  reduceOnly := order.reduceOnly
  positionMode := match leg.marketType with
    | .perpetual => snapshot.positionMode
    | .spot => .unknown
  positionSide := match leg.marketType with
    | .perpetual => some (positionSide order.side order.reduceOnly)
    | .spot => none
  marginMode := margin

/-- The margin mode a leg asks for. -/
def requestedMargin (leg : ExecutionTaskLegRow) : PerpMarginMode :=
  match leg.marketType with
  | .perpetual => leg.marginMode.getD .isolated
  | .spot => .isolated

/-- The submission itself: an uncertain one marks the order unknown. -/
def sendOrder (client : Client) (order : ExecutionOrderRow) (request : PrivateOrderRequest) :
    Worker Unit :=
  (ask (.placeOrder client request)).resume fun
  | .ok submission => do
      let _ ← perform (.markSubmitted order.id submission.exchangeOrderId)
      return ()
  | .error e =>
      if e.kind = ErrorClass.privateRequest then do
        let _ ← perform (.markUnknown order.id)
        return ()
      else throw e

/-- A spot sell needs the inventory. -/
def checkInventory (client : Client) (leg : ExecutionTaskLegRow) (order : ExecutionOrderRow) :
    Worker Unit :=
  if leg.marketType = .spot ∧ order.side = .sell then do
    let available ← ask (.spotAssetAvailable client leg.baseAsset)
    pyEval (raiseIf (available < order.quantity * order.baseMultiplier)
      (.value "spot inventory is insufficient for sell order"))
  else pure ()

/-- A perpetual order needs its configuration confirmed. -/
def checkMarket (client : Client) (leg : ExecutionTaskLegRow) (snapshot : AccountSnapshot) :
    Worker Unit :=
  match leg.marketType with
  | .perpetual => confirmPerp client leg snapshot (requestedMargin leg)
  | .spot => pure ()

/-- `_submit_order`. -/
def submitOrder (client : Client) (leg : ExecutionTaskLegRow) (order : ExecutionOrderRow) :
    Worker Unit := do
  let snapshot ← ask (.snapshot client)
  pyEval (raiseIf (snapshot.tradePermission = some false)
    (.value "live execution account cannot trade"))
  checkInventory client leg order
  checkMarket client leg snapshot
  let request ← pyEval (requestFor leg order snapshot (requestedMargin leg)).validate
  sendOrder client order request

/-- A remote fill as the database takes it. -/
def fillItem (f : RemoteFill) : FillItem where
  exchangeTradeId := f.exchangeTradeId
  quantity := f.quantity
  price := f.price
  feeAmount := f.feeAmount
  feeAsset := f.feeAsset
  liquidity := f.liquidity
  occurredAt := f.occurredAt

/-- The average price of a batch, where it has one. -/
def batchAverage (batch : RemoteFillBatch) (otherwise : Option ℚ) : Option ℚ :=
  if 0 < batch.total then some ((batch.fills.map fun f => f.quantity * f.price).sum / batch.total)
  else otherwise

/-- What the fills of a cancelled order that the exchange no longer knows say. -/
def canceledObservation (order : ExecutionOrderRow) (batch : RemoteFillBatch) : Observation where
  orderId := order.id
  exchangeOrderId := order.exchangeOrderId
  status := .canceled
  filledQuantity := batch.total
  averagePrice := batchAverage batch order.averagePrice
  fills := batch.fills.map fillItem

/-- The status an observation records; a pending cancellation stays pending
until the order ends. -/
def observedStatus (order : ExecutionOrderRow) (remote : RemoteOrder) (filled : ℚ) : OrderStatus :=
  let status := remoteStatus remote.status filled order.quantity
  if order.status = .cancelPending
      ∧ (status = .acknowledged ∨ status = .partiallyFilled ∨ status = .unknown) then .cancelPending
  else status

/-- What a remote order and its fills say. -/
def remoteObservation (order : ExecutionOrderRow) (remote : RemoteOrder)
    (batch : RemoteFillBatch) : Observation where
  orderId := order.id
  exchangeOrderId := some remote.exchangeOrderId
  status := observedStatus order remote batch.total
  filledQuantity := batch.total
  averagePrice := batchAverage batch (if 0 < remote.price then some remote.price else none)
  fills := batch.fills.map fillItem

/-- A resting maker order that has left its book level is cancelled. -/
def chaseMaker (client : Client) (task : ExecutionTaskRow) (leg : ExecutionTaskLegRow)
    (order : ExecutionOrderRow) (remote : RemoteOrder) (observed : ExecutionOrderRow) :
    Worker Unit := do
  let remaining := (observed.quantity - observed.filledQuantity) * observed.baseMultiplier
  let quote ← ((quoteOrder leg remaining .maker task.environment leg.side).resume fun
    | .ok quote => .done (.ok (some quote))
    | .error e => if e.kind = ErrorClass.orderBookUnavailable then .done (.ok none) else .done (.error e) :
      Worker (Option LiveOrderQuote))
  match quote with
  | none => return ()
  | some quote => do
      if ← pyEval (makerIsOutsideBookLevel observed.side observed.limitPrice quote.limitPrice) then do
        ask (.cancelOrder client ⟨leg.marketType.market, leg.symbol, some remote.exchangeOrderId,
          order.clientOrderId⟩)
        let _ ← perform (.markCancelPending order.id)
        return ()
      else return ()

/-- A lookup that came back complete and empty. -/
def orderAbsent (client : Client) (leg : ExecutionTaskLegRow) (order : ExecutionOrderRow) :
    Worker Unit := do
  if order.status = .cancelPending then do
    let batch ← ask (.fillsForOrder client ⟨leg.marketType.market, leg.symbol,
      order.exchangeOrderId, order.clientOrderId⟩ order.createdAt)
    if !batch.complete then do
      let _ ← perform (.markUnknown order.id)
      return ()
    else do
      let _ ← perform (.observe (canceledObservation order batch))
      return ()
  else if order.status ≠ .created ∧ order.status ≠ .unknown then do
    let _ ← perform (.markUnknown order.id)
    return ()
  else submitOrder client leg order

/-- A lookup that found the order. -/
def orderFound (client : Client) (task : ExecutionTaskRow) (leg : ExecutionTaskLegRow)
    (order : ExecutionOrderRow) (remote : RemoteOrder) : Worker Unit := do
  let batch ← ask (.fillsForOrder client ⟨leg.marketType.market, leg.symbol,
    some remote.exchangeOrderId, order.clientOrderId⟩ order.createdAt)
  if !batch.complete then do
    let _ ← perform (.markUnknown order.id)
    return ()
  else do
    let observed ← perform (.observe (remoteObservation order remote batch))
    if observed.orderMode = .maker
        ∧ (observed.status = .acknowledged ∨ observed.status = .partiallyFilled)
        ∧ order.status ≠ .cancelPending then
      chaseMaker client task leg order remote observed
    else return ()

/-- The body of the `try` in `_progress_order`. -/
def lookupOrder (client : Client) (task : ExecutionTaskRow) (leg : ExecutionTaskLegRow)
    (order : ExecutionOrderRow) : Worker Unit := do
  let lookup ← ask (.orderByClientId client leg.marketType.market leg.symbol order.clientOrderId)
  if !lookup.complete then do
    let _ ← perform (.markUnknown order.id)
    return ()
  else match lookup.order with
    | none => orderAbsent client leg order
    | some remote => orderFound client task leg order remote

/-- The client of a leg's account. -/
def openClient (task : ExecutionTaskRow) (leg : ExecutionTaskLegRow) : Worker Client := do
  match leg.accountId with
  | none => throw (.value "live execution task leg has no account")
  | some accountId => do
      let summary ← ask (.accountSummary accountId)
      let secrets ← ask (.hasSecrets accountId)
      match summary with
      | none => throw (.value "live execution account is not configured")
      | some summary =>
          if !secrets then throw (.value "live execution account is not configured")
          else if summary.exchange ≠ leg.exchange ∨ summary.environment ≠ task.environment then
            throw (.value "live execution account scope changed")
          else do
            let client : Client := ⟨accountId, summary.exchange, summary.environment⟩
            ask (.openClient client)
            return client

/-- `_progress_order`. -/
def progressOrder (task : ExecutionTaskRow) (leg : ExecutionTaskLegRow)
    (order : ExecutionOrderRow) : Worker Unit := do
  let client ← openClient task leg
  (lookupOrder client task leg order).finally' (ask (.close client))

/-! ## §5. The pass. -/

/-- `_progress` with its legs resolved. -/
def progressResolved (workerId : String) (c : Claimed) (legs : List ExecutionTaskLegRow) :
    Worker Unit := do
  match c.orders.find? (fun o => o.status.isActive) with
  | some active => do
      let leg ← pyEval (found (legs.find? (fun l => l.id = active.taskLegId))
        (.ofKind .runtime "coroutine raised StopIteration"))
      progressOrder c.task leg active
  | none =>
      if c.task.status = .compensating then progressCompensation workerId c legs
      else do
        match ← pyEval (nextDeficit c.task legs c.orders) with
        | some (phase, leg, deficit) => do
            perform (.setPhase c.task.id phase)
            createNextOrder c.task c.run leg deficit c.orders
        | none => do
            let _ ← perform (.complete c.task.id c.run.id workerId)
            return ()

/-- `_progress`. -/
def progress (num : Numeric) (workerId : String) (c : Claimed) : Worker Unit := do
  let legs ← if c.task.status = .compensating then pure c.legs else resolveLegs num c.task c.legs
  progressResolved workerId c legs

/-- `MultiLegLiveExecutionResult`. -/
structure PassResult where
  examined : Nat
  progressed : Nat
  completed : Nat
  failed : Nat
  deriving DecidableEq

/-- The exceptions `run_once` handles. -/
def isHandled (e : Exc) : Bool :=
  match e.kind with
  | .arithmetic | .key | .value => true
  | _ => e.isRuntimeError

/-- The `except` clause of `run_once`. -/
def afterFailure (workerId : String) (c : Claimed) : Worker PassResult := do
  let current ← perform (.ordersForRun c.run.id)
  let hasPrimaryExposure := current.any fun o => o.purpose = .primary ∧ 0 < o.filledQuantity
  let hasUncertainOrder := current.any fun o => o.status.isUncertain
  if c.task.status ≠ .compensating ∧ hasPrimaryExposure ∧ ¬hasUncertainOrder then do
    perform (.beginCompensation c.task.id c.run.id "multi_leg_execution_failed" workerId)
    return ⟨1, 1, 0, 0⟩
  else do
    perform (.failRun c.task.id c.run.id "multi_leg_execution_failed" workerId
      (c.task.status = .compensating ∨ hasPrimaryExposure ∨ hasUncertainOrder))
    return ⟨1, 0, 0, 1⟩

/-- The end of a pass that raised nothing. -/
def afterProgress (c : Claimed) : Worker PassResult := do
  let refreshed ← perform (.executionTask c.task.id)
  return ⟨1, 1, if refreshed.any (fun t => t.status = .completed) then 1 else 0, 0⟩

/-- `run_once`. -/
def runOnce (num : Numeric) (workerId : String) : Worker PassResult := do
  match ← perform (.claim workerId) with
  | none => return ⟨0, 0, 0, 0⟩
  | some c =>
      (progress num workerId c).resume fun
      | .ok () => afterProgress c
      | .error e => if isHandled e then afterFailure workerId c else throw e

end BasisHawk.MultiLeg
