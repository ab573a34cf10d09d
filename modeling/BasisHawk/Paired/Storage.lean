/-
  BasisHawk.Paired.Storage
  ────────────────────────
  The other transactions on the two-leg tables (`Database` in `storage.py`):
  planning, submission, fills, order status.

  Contents:
    • planning an opening or a closing intent,
    • the transactions around a submission,
    • `persist_remote_fills` and `reconcile_remote_order`,
    • the queries of the executors.
-/
import BasisHawk.Accounts.Remote
import BasisHawk.Paired.Settlement

namespace BasisHawk.Paired

open Domain Lib Accounts

/-! ## §1. Planning. -/

/-- What `plan_live_open` and `plan_paper_open` ask to be stored.  A paper plan
has equal native quantities and the default multiplier. -/
structure OpenPlan where
  token : String
  idempotencyKey : String
  exchange : Exchange
  environment : ExchangeEnvironment
  baseAsset : String
  leverage : Nat
  baseQuantity : ℚ
  spotFeeRate : ℚ
  perpFeeRate : ℚ
  spotBuyFeeInBase : Bool
  marketObservedAt : Int
  spotSymbol : String
  spotQuantity : ℚ
  spotLimit : ℚ
  perpSymbol : String
  perpQuantity : ℚ
  perpLimit : ℚ
  perpMultiplier : ℚ
  leverage_range : 1 ≤ leverage ∧ leverage ≤ 10
  spot_pos : 0 < spotQuantity ∧ 0 < spotLimit
  perp_pos : 0 < perpQuantity ∧ 0 < perpLimit
  multiplier_pos : 0 < perpMultiplier

/-- What `plan_live_close` and `plan_paper_close` ask to be stored: the whole
position, as the preview has read it. -/
structure ClosePlan where
  token : String
  idempotencyKey : String
  read : PairedPositionRow
  emergency : Bool
  leverage : Nat
  spotFeeRate : ℚ
  perpFeeRate : ℚ
  marketObservedAt : Int
  spotSymbol : String
  spotLimit : ℚ
  perpSymbol : String
  perpLimit : ℚ
  perpMultiplier : ℚ
  leverage_range : 1 ≤ leverage ∧ leverage ≤ 10
  quantity_pos : 0 < read.quantity
  limits_pos : 0 < spotLimit ∧ 0 < perpLimit
  multiplier_pos : 0 < perpMultiplier

/-- The client order ids of the primary legs: `_live_client_order_ids`, and the
ids of a paper plan. -/
def primaryClientOrderId (environment : ExchangeEnvironment) (exchange : Exchange)
    (token : String) (m : Market) : String :=
  let suffix := match m with
    | .spot => "s"
    | .perp => "p"
  match environment, exchange with
  | .paper, _ => "bh-" ++ String.ofList (token.toList.take 20) ++ "-" ++ suffix
  | _, .okx => "bh" ++ String.ofList (token.toList.take 24) ++ suffix
  | _, .gate => "t-bh-" ++ String.ofList (token.toList.take 20) ++ "-" ++ suffix
  | _, _ => "bh-" ++ String.ofList (token.toList.take 24) ++ "-" ++ suffix

/-- The two primary legs of an intent have different client order ids. -/
theorem primaryClientOrderId_ne (environment : ExchangeEnvironment) (exchange : Exchange)
    (token : String) : primaryClientOrderId environment exchange token .spot
      ≠ primaryClientOrderId environment exchange token .perp := by
  intro h
  have hlist := congrArg String.toList h
  unfold primaryClientOrderId at hlist
  cases environment <;> cases exchange <;> simp [String.toList_append] at hlist

/-- A primary leg as it is planned. -/
def plannedLeg (id intentId : Nat) (m : Market) (side : Side) (symbol clientOrderId : String)
    (reduceOnly : Bool) (quantity limit multiplier : ℚ) (now : Int)
    (hq : 0 < quantity ∧ 0 < limit) (hm : 0 < multiplier) : OrderLegRow where
  id := id
  tradeIntentId := intentId
  leg := .primary m
  market := m
  symbol := symbol
  side := side
  clientOrderId := clientOrderId
  exchangeOrderId := none
  status := .created
  failureCode := none
  quantity := quantity
  baseMultiplier := multiplier
  compensationTargetBaseQuantity := none
  compensationToleranceBase := 0
  limitPrice := limit
  filledQuantity := 0
  averagePrice := none
  reduceOnly := reduceOnly
  createdAt := now
  quantity_pos := hq
  multiplier_check := hm
  tolerance_check := OrderLegRow.zero_nonneg
  filled_nonneg := OrderLegRow.zero_nonneg
  average_iff := OrderLegRow.unfilled_average

namespace OpenPlan

/-- The intent row of an opening plan. -/
def intent (p : OpenPlan) (id : Nat) (now : Int) : TradeIntentRow where
  id := id
  token := p.token
  pairedPositionId := none
  idempotencyKey := p.idempotencyKey
  exchange := p.exchange
  environment := p.environment
  baseAsset := p.baseAsset
  action := .opening
  emergency := false
  status := .planned
  failureCode := none
  leverage := p.leverage
  baseQuantity := p.baseQuantity
  spotFeeRate := p.spotFeeRate
  perpFeeRate := p.perpFeeRate
  spotBuyFeeInBase := p.spotBuyFeeInBase
  marketObservedAt := p.marketObservedAt
  version := 1
  createdAt := now
  leverage_check := p.leverage_range
  emergency_check := TradeIntentRow.ordinary_opening

/-- Its legs: a spot buy and a perpetual sell. -/
def legs (p : OpenPlan) (id : Nat) (now : Int) : List OrderLegRow :=
  [ plannedLeg (id + 1) id .spot .buy p.spotSymbol
      (primaryClientOrderId p.environment p.exchange p.token .spot) false p.spotQuantity
      p.spotLimit 1 now p.spot_pos OrderLegRow.unit_multiplier,
    plannedLeg (id + 2) id .perp .sell p.perpSymbol
      (primaryClientOrderId p.environment p.exchange p.token .perp) false p.perpQuantity
      p.perpLimit p.perpMultiplier now p.perp_pos p.multiplier_pos ]

end OpenPlan

namespace ClosePlan

/-- The intent row of a closing plan. -/
def intent (p : ClosePlan) (id : Nat) (now : Int) : TradeIntentRow where
  id := id
  token := p.token
  pairedPositionId := some p.read.id
  idempotencyKey := p.idempotencyKey
  exchange := p.read.exchange
  environment := p.read.environment
  baseAsset := p.read.baseAsset
  action := .closing
  emergency := p.emergency
  status := .planned
  failureCode := none
  leverage := p.leverage
  baseQuantity := p.read.quantity
  spotFeeRate := p.spotFeeRate
  perpFeeRate := p.perpFeeRate
  spotBuyFeeInBase := false
  marketObservedAt := p.marketObservedAt
  version := 1
  createdAt := now
  leverage_check := p.leverage_range
  emergency_check := fun _ => rfl

/-- Its legs: a spot sell and a reduce-only perpetual buy. -/
def legs (p : ClosePlan) (id : Nat) (now : Int) : List OrderLegRow :=
  [ plannedLeg (id + 1) id .spot .sell p.spotSymbol
      (primaryClientOrderId p.read.environment p.read.exchange p.token .spot) false
      p.read.quantity p.spotLimit 1 now ⟨p.quantity_pos, p.limits_pos.1⟩ one_pos,
    plannedLeg (id + 2) id .perp .buy p.perpSymbol
      (primaryClientOrderId p.read.environment p.read.exchange p.token .perp) true
      (p.read.quantity / p.perpMultiplier) p.perpLimit p.perpMultiplier now
      ⟨div_pos p.quantity_pos p.multiplier_pos, p.limits_pos.2⟩ p.multiplier_pos ]

end ClosePlan

namespace Ledger

/-- New rows for an intent and its legs. -/
def insertIntent (intent : TradeIntentRow) (legs : List OrderLegRow) (l : Ledger) :
    Except Exc Ledger := do
  raiseIf (∃ o ∈ l.legs, ∃ new ∈ legs, o.clientOrderId = new.clientOrderId)
    (.integrity "client_order_id")
  return { l with
    intents := l.intents ++ [intent], legs := l.legs ++ legs
    nextId := l.nextId + 1 + legs.length }

/-- `create_trade_intent`: the intent and whether it is new. -/
def createTradeIntent (plan : OpenPlan) (now : Int) (l : Ledger) :
    Except Exc ((TradeIntentRow × Bool) × Ledger) :=
  match l.intents.find? (·.idempotencyKey = plan.idempotencyKey) with
  | some existing => .ok ((existing, false), l)
  | none => do
      let intent := plan.intent l.nextId now
      let l' ← l.insertIntent intent (plan.legs l.nextId now)
      return ((intent, true), l')

/-- `create_paper_close_intent`, which live closes use too: the position is
reserved for the new intent. -/
def createPaperCloseIntent (plan : ClosePlan) (now : Int) (l : Ledger) :
    Except Exc ((TradeIntentRow × Bool) × Ledger) :=
  match l.intents.find? (·.idempotencyKey = plan.idempotencyKey) with
  | some existing => .ok ((existing, false), l)
  | none => do
      let position ← found (Table.find? l.positions plan.read.id)
        (.value "paired position was not found")
      raiseIf (position.status ≠ .opened ∨ position.closingIntentId ≠ none)
        (.value "paired position is not open")
      let intent := plan.intent l.nextId now
      let l' ← l.insertIntent intent (plan.legs l.nextId now)
      let position := { position with status := .closing, closingIntentId := some intent.id }
      return ((intent, true), { l' with positions := Table.put l'.positions position })

/-! ## §2. Around a submission. -/

/-- The primary legs of an intent that has no other legs. -/
def primaryLegs (l : Ledger) (intentId : Nat) : Except Exc (OrderLegRow × OrderLegRow) :=
  let legs := l.legsOfIntent intentId
  match legs.find? (·.leg = .primary .spot), legs.find? (·.leg = .primary .perp) with
  | some spot, some perp =>
      if legs.length = 2 then .ok (spot, perp)
      else .error (.value "live intent must contain exactly two primary legs")
  | _, _ => .error (.value "live intent must contain exactly two primary legs")

/-- The control states in which an intent may be submitted. -/
def maySubmit (l : Ledger) (intent : TradeIntentRow) : Prop :=
  ∃ c ∈ l.control, c.state = .ready
    ∨ (c.state = .paused ∧ intent.emergency ∧ intent.action = .closing)

instance (l : Ledger) (intent : TradeIntentRow) : Decidable (l.maySubmit intent) :=
  inferInstanceAs (Decidable (∃ c ∈ l.control, _ ∨ (_ ∧ _ ∧ _)))

/-- The legs exactly close the position. -/
def closesExactly (position : PairedPositionRow) (spot perp : OrderLegRow) : Prop :=
  numericEqual spot.base position.quantity ∧ numericEqual perp.base position.quantity
    ∧ spot.side = .sell ∧ ¬spot.reduceOnly ∧ perp.side = .buy ∧ perp.reduceOnly

instance (position : PairedPositionRow) (spot perp : OrderLegRow) :
    Decidable (closesExactly position spot perp) :=
  inferInstanceAs (Decidable (_ ∧ _ ∧ _ ∧ _ ∧ _ ∧ _))

/-- What `prepare_live_submission` checks of a closing intent. -/
def checkClose (l : Ledger) (intent : TradeIntentRow) (spot perp : OrderLegRow) :
    Except Exc Unit :=
  match intent.action with
  | .opening => .ok ()
  | .closing => do
      raiseIf (intent.pairedPositionId = none)
        (.value "live close intent is missing its paired position")
      match l.positionOf intent with
      | none => throw (.value "paired position is not reserved by the live close intent")
      | some position => do
          raiseIf (¬isReserved position intent)
            (.value "paired position is not reserved by the live close intent")
          raiseIf (¬closesExactly position spot perp)
            (.value "live close legs do not exactly reduce the paired position")

/-- The perpetual leg under a tighter limit. -/
def adjustLimit (perp : OrderLegRow) : Option ℚ → Except Exc OrderLegRow
  | none => .ok perp
  | some price =>
      if h : price ≤ 0 then .error (.value "adjusted perpetual limit price must be positive")
      else if (perp.side = .buy ∧ perp.limitPrice < price)
          ∨ (perp.side = .sell ∧ price < perp.limitPrice) then
        .error (.value "adjusted perpetual limit price weakens protection")
      else .ok { perp with
        limitPrice := price, quantity_pos := ⟨perp.quantity_pos.1, lt_of_not_ge h⟩ }

/-- What `prepare_live_submission` and `prepare_live_compensation` return: the
legs to submit, or nothing to do. -/
abbrev Prepared : Type := Option (TradeIntentRow × List OrderLegRow × Bool)

/-- `prepare_live_submission`: from here on both orders may be at the exchange. -/
def prepareLiveSubmission (intentId : Nat) (adjusted : Option ℚ) (l : Ledger) :
    Except Exc (Prepared × Ledger) := do
  raiseIf (∃ p ∈ adjusted, p ≤ 0) (.value "adjusted perpetual limit price must be positive")
  match Table.find? l.intents intentId with
  | none => return (none, l)
  | some intent => do
      raiseIf (intent.environment = .paper)
        (.value "only exchange-backed intents can be submitted")
      let (spot, perp) ← l.primaryLegs intent.id
      if intent.status ≠ .planned then return (some (intent, [spot, perp], false), l)
      else if ¬l.maySubmit intent then return (some (intent, [spot, perp], false), l)
      else do
        raiseIf (spot.status ≠ .created ∨ perp.status ≠ .created)
          (.value "live order legs are not ready for first submission")
        let perp ← adjustLimit perp adjusted
        l.checkClose intent spot perp
        let intent := { intent with
          status := .executing, failureCode := none, version := intent.version + 1 }
        let spot := { spot with status := .submitted }
        let perp := { perp with status := .submitted }
        return (some (intent, [spot, perp], true), { l with
          intents := Table.put l.intents intent
          legs := Table.put (Table.put l.legs spot) perp })

/-- `prepare_live_compensation`. -/
def prepareLiveCompensation (intentId : Nat) (limitPrice quantity toleranceBase : ℚ)
    (l : Ledger) : Except Exc (Prepared × Ledger) :=
  if hl : limitPrice ≤ 0 then .error (.value "live compensation limit price must be positive")
  else if hq : quantity ≤ 0 then .error (.value "live compensation quantity must be positive")
  else if ht : toleranceBase ≤ 0 then
    .error (.value "live compensation tolerance must be positive")
  else match Table.find? l.intents intentId with
    | none => .ok (none, l)
    | some intent =>
        match (l.legsOfIntent intent.id).filter (·.leg.isCompensation) with
        | [c] =>
            if intent.status ≠ .compensating ∨ c.status ≠ .created
                ∨ ¬∃ row ∈ l.control, row.state = .paused then
              .ok (some (intent, [c], false), l)
            else
              let c := { c with
                quantity := quantity, compensationToleranceBase := toleranceBase
                limitPrice := limitPrice, status := .submitted
                quantity_pos := ⟨lt_of_not_ge hq, lt_of_not_ge hl⟩
                tolerance_check := le_of_not_ge ht }
              .ok (some (intent, [c], true), { l with legs := Table.put l.legs c })
        | _ => .error (.value "compensating intent must contain one protection leg")

/-- A planned intent that never was submitted is given up; a closing one lets go
of its position. -/
def failPlanned (intentId : Nat) (code : FailureCode) (l : Ledger) :
    Except Exc (Bool × Ledger) :=
  match Table.find? l.intents intentId with
  | none => .ok (false, l)
  | some intent =>
      if intent.environment = .paper ∨ intent.status ≠ .planned then .ok (false, l)
      else
        let released := match intent.action, l.positionOf intent with
          | .closing, some position =>
              if isReserved position intent then
                Table.put l.positions { position with status := .opened, closingIntentId := none }
              else l.positions
          | _, _ => l.positions
        let (_, l) := { l with positions := released : Ledger }.moveIntent intent .failed (some code)
        .ok (true, l)

/-- `expire_planned_trade_intent`. -/
def expirePlannedTradeIntent (intentId : Nat) (l : Ledger) : Except Exc (Bool × Ledger) :=
  l.failPlanned intentId .marketDataExpired

/-- `fail_market_unexecutable_trade_intent`. -/
def failMarketUnexecutableTradeIntent (intentId : Nat) (l : Ledger) : Except Exc (Bool × Ledger) :=
  l.failPlanned intentId .marketUnexecutable

/-- `record_live_preflight_failure`: the intent stays planned. -/
def recordLivePreflightFailure (intentId : Nat) (exchange : Exchange) (code : FailureCode)
    (l : Ledger) : Except Exc (Unit × Ledger) :=
  let l := l.pause ("live_order_preflight:" ++ exchange.name ++ ":" ++ code.name)
  match Table.find? l.intents intentId with
  | none => .ok ((), l)
  | some intent =>
      if intent.status = .planned then
        .ok ((), (l.moveIntent intent .planned (some code)).2)
      else .ok ((), l)

/-- The leg of a transaction on one leg. -/
def orderLeg (l : Ledger) (legId : Nat) : Except Exc OrderLegRow :=
  found (Table.find? l.legs legId) (.value "order leg was not found")

/-- `record_order_submission`. -/
def recordOrderSubmission (legId : Nat) (s : OrderSubmission) (l : Ledger) :
    Except Exc (Unit × Ledger) := do
  let leg ← l.orderLeg legId
  raiseIf (leg.status ≠ .submitted ∧ leg.status ≠ .acknowledged)
    (.value "order leg is not awaiting an acknowledgement")
  raiseIf (s.market ≠ leg.market ∨ s.symbol ≠ leg.symbol ∨ s.clientOrderId ≠ leg.clientOrderId)
    (.value "order acknowledgement does not match the local leg")
  raiseIf (∃ a ∈ leg.exchangeOrderId, ∃ b ∈ s.exchangeOrderId, a ≠ b)
    (.value "order acknowledgement changed exchange order ID")
  let leg := { leg with
    exchangeOrderId := s.exchangeOrderId.or leg.exchangeOrderId, status := .acknowledged }
  return ((), { l with legs := Table.put l.legs leg })

/-- `mark_order_submission_unknown`. -/
def markOrderSubmissionUnknown (legId : Nat) (l : Ledger) : Except Exc (Unit × Ledger) := do
  let leg ← l.orderLeg legId
  let legs := if leg.status = .submitted then Table.put l.legs { leg with status := .unknown }
    else l.legs
  return ((), { l with legs := legs : Ledger }.pause
    "live order acknowledgement is uncertain; client-order-ID reconciliation is required")

/-- `re.fullmatch(r"[a-z0-9_]{1,100}", code)`. -/
def isRejectionCode (code : String) : Bool :=
  1 ≤ code.length && code.length ≤ 100
    && code.toList.all fun c => ('a' ≤ c && c ≤ 'z') || ('0' ≤ c && c ≤ '9') || c == '_'

/-- `mark_order_submission_rejected`. -/
def markOrderSubmissionRejected (legId : Nat) (failureCode : String) (l : Ledger) :
    Except Exc (Unit × Ledger) := do
  raiseIf (¬isRejectionCode failureCode) (.value "order rejection code is invalid")
  let leg ← l.orderLeg legId
  let legs := if leg.status = .submitted then
      Table.put l.legs { leg with status := .failed, failureCode := some failureCode }
    else l.legs
  return ((), { l with legs := legs : Ledger }.pause
    "one or more two-leg orders were rejected; fill reconciliation and compensation are required")

/-- `mark_unknown_order_not_found`. -/
def markUnknownOrderNotFound (legId : Nat) (l : Ledger) : Except Exc (Bool × Ledger) := do
  let leg ← l.orderLeg legId
  if leg.status ≠ .unknown ∨ leg.exchangeOrderId ≠ none then return (false, l)
  else return (true, { l with legs := Table.put l.legs { leg with status := .failed } })

/-! ## §3. Fills. -/

/-- A remote fill with a positive quantity and price. -/
abbrev ValidFill : Type := { f : RemoteFill // 0 < f.quantity ∧ 0 < f.price }

/-- Five minutes, in microseconds. -/
def fiveMinutes : Int := 5 * 60 * 1000000

/-- The checks of one remote fill against its leg. -/
def checkRemoteFill (leg : OrderLegRow) (item : RemoteFill) : Except Exc ValidFill := do
  raiseIf (item.exchangeTradeId = "") (.value "remote fill is missing an exchange trade ID")
  if h : item.quantity ≤ 0 ∨ item.price ≤ 0 then
    throw (.value "remote fill quantity and price must be positive")
  else do
    raiseIf (item.occurredAt < leg.createdAt - fiveMinutes)
      (.value "remote fill predates the local order leg")
    raiseIf (item.market ≠ leg.market.name ∨ item.symbol ≠ leg.symbol)
      (.value "remote fill does not match the local order leg")
    raiseIf (item.side ≠ leg.side.name)
      (.value "remote fill side does not match the local order leg")
    raiseIf (∃ c ∈ item.clientOrderId, c ≠ leg.clientOrderId)
      (.value "remote fill client order ID does not match the local order leg")
    raiseIf (∃ x ∈ leg.exchangeOrderId, item.exchangeOrderId ≠ x)
      (.value "remote fill exchange order ID does not match the local order leg")
    return ⟨item, lt_of_not_ge fun hq => h (.inl hq), lt_of_not_ge fun hp => h (.inr hp)⟩

/-- The checks of a batch. -/
def checkRemoteFills (leg : OrderLegRow) : List RemoteFill → Except Exc (List ValidFill)
  | [] => .ok []
  | item :: rest => do
      let first ← checkRemoteFill leg item
      let others ← checkRemoteFills leg rest
      return first :: others

/-- The exchange order id a leg is linked to by its fills. -/
def linkByFills (leg : OrderLegRow) (fills : List RemoteFill) : Except Exc (Option String) :=
  match leg.exchangeOrderId, (fills.map (·.exchangeOrderId)).filter (· ≠ "") with
  | some known, _ => .ok (some known)
  | none, [] => .ok none
  | none, id :: rest =>
      if rest.all (· = id) then .ok (some id)
      else .error (.value "remote fills contain multiple exchange order IDs")

/-- A stored fill says the same as a remote one. -/
def sameFill (existing : FillRow) (item : RemoteFill) : Prop :=
  numericEqual existing.quantity item.quantity ∧ numericEqual existing.price item.price
    ∧ numericEqual existing.feeAmount item.feeAmount ∧ existing.feeAsset = item.feeAsset
    ∧ existing.liquidity = item.liquidity ∧ existing.occurredAt = item.occurredAt

instance (existing : FillRow) (item : RemoteFill) : Decidable (sameFill existing item) :=
  inferInstanceAs (Decidable (_ ∧ _ ∧ _ ∧ _ ∧ _ ∧ _))

/-- The row of a new fill. -/
def fillRow (id legId : Nat) (item : ValidFill) : FillRow where
  id := id
  orderLegId := legId
  exchangeTradeId := item.val.exchangeTradeId
  quantity := item.val.quantity
  price := item.val.price
  feeAmount := item.val.feeAmount
  feeAsset := item.val.feeAsset
  liquidity := item.val.liquidity
  occurredAt := item.val.occurredAt
  quantity_price_pos := item.property

/-- The trades of a batch that are not stored yet, each once. -/
def newTrades (seen : List String) : List ValidFill → List ValidFill
  | [] => []
  | item :: rest =>
      if item.val.exchangeTradeId ∈ seen then newTrades seen rest
      else item :: newTrades (item.val.exchangeTradeId :: seen) rest

/-- The sum of the quantities of fills. -/
def fillsTotal (fills : List FillRow) : ℚ := (fills.map (·.quantity)).sum

/-- Fills do not add up to less than nothing. -/
theorem fillsTotal_nonneg (fills : List FillRow) : 0 ≤ fillsTotal fills := by
  unfold fillsTotal
  apply List.sum_nonneg
  intro q hq
  obtain ⟨f, -, rfl⟩ := List.mem_map.mp hq
  exact f.quantity_price_pos.1.le

/-- The notional of fills. -/
def fillsNotional (fills : List FillRow) : ℚ := (fills.map fun f => f.quantity * f.price).sum

/-- The volume-weighted price of fills. -/
def fillsAverage (fills : List FillRow) : Option ℚ :=
  if 0 < fillsTotal fills then some (fillsNotional fills / fillsTotal fills) else none

/-- There is an average price exactly if something was filled. -/
theorem fillsAverage_isSome (fills : List FillRow) :
    (fillsAverage fills).isSome ↔ 0 < fillsTotal fills := by
  unfold fillsAverage
  split
  · next h => exact ⟨fun _ => h, fun _ => rfl⟩
  · next h => exact ⟨fun hs => (by cases hs), fun hp => absurd hp h⟩

/-- The status a leg has by its fills. -/
def statusByFills (leg : OrderLegRow) (filled : ℚ) : LegStatus :=
  if leg.quantity ≤ filled then .filled
  else if 0 < filled ∧ leg.status ≠ .canceled ∧ leg.status ≠ .failed then .partiallyFilled
  else leg.status

/-- The leg its fills describe. -/
def legByFills (leg : OrderLegRow) (link : Option String) (fills : List FillRow) : OrderLegRow :=
  { leg with
    exchangeOrderId := link
    filledQuantity := fillsTotal fills
    averagePrice := fillsAverage fills
    status := statusByFills leg (fillsTotal fills)
    filled_nonneg := fillsTotal_nonneg fills
    average_iff := fillsAverage_isSome fills }

/-- `persist_remote_fills`: the number of new fills. -/
def persistRemoteFills (legId : Nat) (fills : List RemoteFill) (l : Ledger) :
    Except Exc (Nat × Ledger) := do
  let leg ← l.orderLeg legId
  let valid ← checkRemoteFills leg fills
  let link ← linkByFills leg fills
  let existing := l.fillsOfLeg leg.id
  raiseIf (∃ e ∈ existing, ∃ item ∈ fills,
      e.exchangeTradeId = item.exchangeTradeId ∧ ¬sameFill e item)
    (.value "remote fill changed after it was persisted")
  let rows := (newTrades (existing.map (·.exchangeTradeId)) valid).mapIdx fun i item =>
    fillRow (l.nextId + i) leg.id item
  raiseIf (leg.quantity < fillsTotal (existing ++ rows))
    (.value "remote fills exceed the local order quantity")
  return (rows.length, { l with
    fills := l.fills ++ rows
    legs := Table.put l.legs (legByFills leg link (existing ++ rows))
    nextId := l.nextId + rows.length })

/-! ## §4. Order status. -/

/-- The remote statuses of a canceled order. -/
def canceledWords : List String :=
  ["cancelled", "canceled", "deactivated", "expired", "expired_in_match",
    "partiallyfilledcanceled", "partially_filled_canceled", "finished", "4"]

/-- The remote statuses of a failed order. -/
def failedWords : List String := ["failed", "invalid", "rejected", "5"]

/-- `status.strip().lower()`. -/
def statusWord (status : String) : String := String.ofList (pyLowerString (pyStrip status))

/-- The status a leg has by a lookup of its order: an order the exchange knows
is accepted, and filled only by its trades. -/
def statusByLookup (leg : OrderLegRow) (order : RemoteOrder) : LegStatus :=
  if statusWord order.status ∈ canceledWords then .canceled
  else if statusWord order.status ∈ failedWords then .failed
  else if leg.status = .submitted ∨ leg.status = .unknown then .acknowledged
  else leg.status

/-- The checks of a remote order against its leg. -/
def checkRemoteOrder (leg : OrderLegRow) (order : RemoteOrder) : Except Exc Unit := do
  raiseIf (order.exchangeOrderId = "") (.value "remote order is missing an exchange order ID")
  raiseIf (order.clientOrderId ≠ some leg.clientOrderId)
    (.value "remote order client ID does not match the local order leg")
  raiseIf (order.market ≠ leg.market.name ∨ order.symbol ≠ leg.symbol)
    (.value "remote order does not match the local order leg")
  raiseIf (order.side ≠ leg.side.name)
    (.value "remote order side does not match the local order leg")
  raiseIf (¬numericEqual order.originalQuantity leg.quantity)
    (.value "remote order quantity does not match the local order leg")
  raiseIf (order.filledQuantity < 0 ∨ order.originalQuantity < order.filledQuantity)
    (.value "remote order filled quantity is invalid")
  raiseIf (order.reduceOnly ≠ leg.reduceOnly)
    (.value "remote order reduce-only flag does not match the local order leg")
  raiseIf (∃ x ∈ leg.exchangeOrderId, x ≠ order.exchangeOrderId)
    (.value "remote order ID does not match the linked local order leg")

/-- `reconcile_remote_order`. -/
def reconcileRemoteOrder (legId : Nat) (order : RemoteOrder) (l : Ledger) :
    Except Exc (String × Ledger) := do
  let leg ← l.orderLeg legId
  checkRemoteOrder leg order
  let leg := { leg with
    exchangeOrderId := some order.exchangeOrderId, status := statusByLookup leg order }
  return (order.exchangeOrderId, { l with legs := Table.put l.legs leg })

/-! ## §5. Queries. -/

/-- `recoverable_trade_intents`. -/
def recoverableTradeIntents (l : Ledger) : List TradeIntentRow :=
  (l.intents.filter fun i => ¬i.status.isTerminal).insertionSort
    (fun a b => a.createdAt ≤ b.createdAt)

/-- The intent of a leg. -/
def intentOf (l : Ledger) (leg : OrderLegRow) : Option TradeIntentRow :=
  Table.find? l.intents leg.tradeIntentId

/-- `order_legs_for_reconciliation`. -/
def orderLegsForReconciliation (exchange : Exchange) (environment : ExchangeEnvironment)
    (l : Ledger) : List OrderLegRow :=
  (l.legs.filter fun o => ∃ i ∈ l.intentOf o, i.exchange = exchange
      ∧ i.environment = environment ∧ ¬i.status.isTerminal).insertionSort
    (fun a b => toLex (a.createdAt, a.id) ≤ toLex (b.createdAt, b.id))

/-- The native short exposure an open pair stands for. -/
structure PerpExposure where
  symbol : String
  quantity : ℚ
  leverage : Nat
  deriving DecidableEq

/-- `paired_perp_exposures`. -/
def pairedPerpExposures (exchange : Exchange) (environment : ExchangeEnvironment) (l : Ledger) :
    List PerpExposure :=
  l.positions.flatMap fun position =>
    if position.exchange = exchange ∧ position.environment = environment
        ∧ (position.status = .opened ∨ position.status = .closing) then
      match Table.find? l.intents position.openingIntentId with
      | none => []
      | some intent =>
          ((l.legsOfIntent intent.id).filter (·.leg = .primary .perp)).map fun leg =>
            ⟨leg.symbol, position.quantity / leg.baseMultiplier, intent.leverage⟩
    else []

end Ledger

end BasisHawk.Paired
