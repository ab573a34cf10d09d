/-
  BasisHawk.Automation.Service
  ────────────────────────────
  `AutomaticTradingService.run_once` (`automation.py`) and the planning of its
  decisions (`trading.py`), on the two-leg tables.

  What the tables of the two executors do not hold (market data, trading
  rules, realized PnL, liquidation buffers, previews and the refresh of Gate's
  order books) answers as it likes.

  Main results:
    • `planLiveOpen_created` — what planning an opening trade stores,
    • `runOnce_created` — the evaluation behind a stored opening intent.
-/
import BasisHawk.Automation.Strategy
import BasisHawk.Paired.Effects

namespace BasisHawk.Automation

open Domain Lib
open Paired (Ledger TradeIntentRow PairedPositionRow OpenPlan ClosePlan)
open Reconciliation (Control)

/-! ## §1. State. -/

inductive AutomationState where
  | disabled | enabled | paused
  deriving DecidableEq, Repr

/-- `AutomationControlRow`. -/
structure AutomationControl where
  state : AutomationState
  activeStrategyId : Option Nat
  reason : String
  deriving DecidableEq

/-- The tables a pass works on.  `requestedNotional` is the column of
`trade_intents`, by the id of the row. -/
structure AutomationDb where
  control : AutomationControl
  strategies : List (Nat × AutoStrategyConfig)
  ledger : Ledger
  requestedNotional : Nat → ℚ
  notional_check : ∀ intent ∈ ledger.intents, 0 < requestedNotional intent.id

/-- `strategy_version`. -/
def AutomationDb.strategyVersion (db : AutomationDb) (id : Nat) : Option AutoStrategyConfig :=
  (db.strategies.find? (·.1 = id)).map (·.2)

/-- The statuses `active_open_intent_keys` looks for. -/
def isInFlightStatus : Paired.IntentStatus → Bool
  | .planned | .executing | .compensating | .manualReview => true
  | .hedged | .closed | .failed => false

/-- The open intents of an environment that are under way. -/
def AutomationDb.inFlightOpens (db : AutomationDb) (environment : ExchangeEnvironment) :
    List TradeIntentRow :=
  db.ledger.intents.filter fun i =>
    i.environment = environment ∧ i.action = .opening ∧ isInFlightStatus i.status

/-- `active_open_intent_keys`. -/
def AutomationDb.activeOpenIntentKeys (db : AutomationDb) (environment : ExchangeEnvironment) :
    List String :=
  (db.inFlightOpens environment).map fun i => symbolKey i.exchange i.baseAsset

/-- The position as the evaluation sees it. -/
def automationPosition (buffer : Nat → Option ℚ) (p : PairedPositionRow) : AutomationPosition where
  id := p.id
  exchange := p.exchange
  environment := p.environment
  baseAsset := p.baseAsset
  quantity := p.quantity
  spotEntryPrice := p.spotEntryPrice
  perpEntryPrice := p.perpEntryPrice
  remainingOpeningFeesUsdt := p.remainingOpeningFeesUsdt
  status := p.status
  openedAt := p.openedAt
  closedAt := p.closedAt
  liquidationBuffer := buffer p.id

/-- `list_paired_positions`, newest first, as the evaluation sees them. -/
def AutomationDb.positions (buffer : Nat → Option ℚ) (db : AutomationDb) : List AutomationPosition :=
  (db.ledger.positions.insertionSort fun a b => b.openedAt ≤ a.openedAt).map
    (automationPosition buffer)

/-- The fields of `AutomaticTradingResult`. -/
structure AutomaticTradingResult where
  evaluated : Bool
  created : Bool
  intentId : Option Nat := none
  action : Option DecisionAction := none
  reason : String
  deriving DecidableEq

/-! ## §2. Planning. -/

/-- How planning fails: with one of the two exceptions a pass handles, or with
another one. -/
inductive PlanError where
  | idempotencyConflict (message : String)
  | tradeValidation (message : String)
  | other (e : Exc)

/-- What `preview_live_open` works out of an opening trade. -/
structure OpenPreview where
  token : String
  baseQuantity : ℚ
  spotQuantity : ℚ
  spotLimitPrice : ℚ
  perpQuantity : ℚ
  perpLimitPrice : ℚ
  perpBaseMultiplier : ℚ
  spotFeeRate : ℚ
  perpFeeRate : ℚ
  spot_pos : 0 < spotQuantity ∧ 0 < spotLimitPrice
  perp_pos : 0 < perpQuantity ∧ 0 < perpLimitPrice
  multiplier_pos : 0 < perpBaseMultiplier

/-- What a pass reads besides the tables. -/
structure Reads where
  now : Int
  opportunities : List Opportunity
  instrumentPairs : List InstrumentPair
  liquidationBuffer : Nat → Option ℚ
  dailyRealizedPnl : ℚ
  /-- `_refresh_gate_automatic_capacity`: the opportunities with Gate's order
  books, and the pairs it has learned of. -/
  refreshGate : List Opportunity → List Opportunity × List InstrumentPair
  /-- `_gate_sandbox_decision_is_executable`. -/
  gateExecutable : AutomaticDecision → Bool
  spotBuyFeeInBase : Exchange → Bool
  previewOpen : Opportunity → InstrumentPair → ℚ → Except PlanError OpenPreview
  previewClose : Nat → Opportunity → InstrumentPair → Except PlanError ClosePlan

/-- The name the idempotency key of a decision is derived from. -/
def idempotencyName (strategyId : Nat) (d : AutomaticDecision) : String :=
  let action := match d.action with
    | .opening => "open"
    | .closing => "close"
  let subject := match d.positionId with
    | some id => toString id
    | none => d.opportunity.key
  String.intercalate ":"
    ["basis-hawk", toString strategyId, action, subject, toString d.opportunity.observedAt]

/-- The row asks for the same opening trade. -/
def isSameOpen (db : AutomationDb) (config : AutoStrategyConfig) (o : Opportunity) (notional : ℚ)
    (feeInBase : Bool) (row : TradeIntentRow) : Prop :=
  row.environment = config.environment ∧ row.action = .opening ∧ row.exchange = o.exchange
    ∧ row.baseAsset = o.baseAsset ∧ db.requestedNotional row.id = notional
    ∧ row.leverage = config.leverage ∧ row.spotBuyFeeInBase = feeInBase

instance (db : AutomationDb) (config : AutoStrategyConfig) (o : Opportunity) (notional : ℚ)
    (feeInBase : Bool) (row : TradeIntentRow) :
    Decidable (isSameOpen db config o notional feeInBase row) :=
  inferInstanceAs (Decidable (_ ∧ _ ∧ _ ∧ _ ∧ _ ∧ _ ∧ _))

/-- What `plan_live_open` asks to be stored. -/
def openPlan (config : AutoStrategyConfig) (o : Opportunity) (pair : InstrumentPair) (key : String)
    (feeInBase : Bool) (preview : OpenPreview) : OpenPlan where
  token := preview.token
  idempotencyKey := key
  exchange := o.exchange
  environment := config.environment
  baseAsset := o.baseAsset
  leverage := config.leverage
  baseQuantity := preview.baseQuantity
  spotFeeRate := preview.spotFeeRate
  perpFeeRate := preview.perpFeeRate
  spotBuyFeeInBase := feeInBase
  marketObservedAt := o.observedAt
  spotSymbol := pair.spotSymbol
  spotQuantity := preview.spotQuantity
  spotLimit := preview.spotLimitPrice
  perpSymbol := pair.perpSymbol
  perpQuantity := preview.perpQuantity
  perpLimit := preview.perpLimitPrice
  perpMultiplier := preview.perpBaseMultiplier
  leverage_range := config.leverage_range
  spot_pos := preview.spot_pos
  perp_pos := preview.perp_pos
  multiplier_pos := preview.multiplier_pos

/-- New rows, with the notional of the new intent. -/
def AutomationDb.withIntent (db : AutomationDb) (ledger : Ledger) (id : Nat) (notional : ℚ)
    (hpos : 0 < notional) (hold : ∀ intent ∈ ledger.intents, intent ∈ db.ledger.intents ∨ intent.id = id) :
    AutomationDb :=
  { db with
    ledger := ledger
    requestedNotional := Function.update db.requestedNotional id notional
    notional_check := by
      intro intent hi
      by_cases hid : intent.id = id
      · rw [hid, Function.update_self]
        exact hpos
      · rw [Function.update_of_ne hid]
        exact db.notional_check intent ((hold intent hi).resolve_right hid) }

/-- Behind a row that is appended there are the old ones only. -/
theorem mem_intents_of_append {new : TradeIntentRow} {l l' : Ledger}
    (h : l'.intents = l.intents ++ [new]) :
    ∀ intent ∈ l'.intents, intent ∈ l.intents ∨ intent.id = new.id := by
  intro intent hi
  rw [h] at hi
  rcases List.mem_append.mp hi with hold | hlast
  · exact .inl hold
  · rw [List.mem_singleton.mp hlast]
    exact .inr rfl

/-- What the creation of an opening intent does to the intents. -/
theorem mem_intents_of_create {plan : OpenPlan} {now : Int} {l l' : Ledger} {row : TradeIntentRow}
    {created : Bool} (h : Ledger.createTradeIntent plan now l = .ok ((row, created), l')) :
    ∀ intent ∈ l'.intents, intent ∈ l.intents ∨ intent.id = row.id := by
  rcases Ledger.createTradeIntent_ok h with ⟨rfl, -⟩ | ⟨-, hrow, rfl⟩
  · exact fun intent hi => .inl hi
  · cases hrow
    exact mem_intents_of_append rfl

/-- `plan_live_open`. -/
def planLiveOpen (config : AutoStrategyConfig) (o : Opportunity) (pair : InstrumentPair)
    (notional : ℚ) (key : String) (feeInBase : Bool) (preview : Except PlanError OpenPreview)
    (now : Int) (db : AutomationDb) : Except PlanError ((TradeIntentRow × Bool) × AutomationDb) :=
  match db.ledger.intents.find? (·.idempotencyKey = key) with
  | some row =>
      if isSameOpen db config o notional feeInBase row then .ok ((row, false), db)
      else .error (.idempotencyConflict
        "idempotency key was already used for a different trade request")
  | none => do
      let preview ← preview
      raiseIf (preview.spotLimitPrice < o.spotAsk ∨ o.perpBid < preview.perpLimitPrice)
        (.tradeValidation "market moved beyond preview slippage protection")
      match hcreate : Ledger.createTradeIntent (openPlan config o pair key feeInBase preview) now
          db.ledger with
      | .error e => .error (.other e)
      | .ok ((row, created), ledger) =>
          if hpos : 0 < notional then
            .ok ((row, created),
              db.withIntent ledger row.id notional hpos (mem_intents_of_create hcreate))
          else .error (.other (.integrity "ck_trade_intent_notional_positive"))

/-- The row asks for the same closing trade. -/
def isSameClose (config : AutoStrategyConfig) (positionId : Nat) (row : TradeIntentRow) : Prop :=
  row.environment = config.environment ∧ row.action = .closing
    ∧ row.pairedPositionId = some positionId ∧ row.emergency = false

instance (config : AutoStrategyConfig) (positionId : Nat) (row : TradeIntentRow) :
    Decidable (isSameClose config positionId row) :=
  inferInstanceAs (Decidable (_ ∧ _ ∧ _ ∧ _))

/-- What the creation of a closing intent does to the intents. -/
theorem mem_intents_of_close {plan : ClosePlan} {now : Int} {l l' : Ledger} {row : TradeIntentRow}
    {created : Bool} (h : Ledger.createPaperCloseIntent plan now l = .ok ((row, created), l')) :
    ∀ intent ∈ l'.intents, intent ∈ l.intents ∨ intent.id = row.id := by
  rcases Ledger.createPaperCloseIntent_ok h with ⟨rfl, -⟩ | ⟨position, -, -, -, hrow, rfl⟩
  · exact fun intent hi => .inl hi
  · cases hrow
    exact mem_intents_of_append rfl

/-- `plan_live_close`; the notional is that of the spot leg at its limit. -/
def planLiveClose (config : AutoStrategyConfig) (positionId : Nat) (o : Opportunity) (key : String)
    (preview : Except PlanError ClosePlan) (now : Int) (db : AutomationDb) :
    Except PlanError ((TradeIntentRow × Bool) × AutomationDb) :=
  match db.ledger.intents.find? (·.idempotencyKey = key) with
  | some row =>
      if isSameClose config positionId row then .ok ((row, false), db)
      else .error (.idempotencyConflict
        "idempotency key was already used for a different trade request")
  | none => do
      let plan ← preview
      raiseIf (o.spotBid < plan.spotLimit ∨ plan.perpLimit < o.perpAsk)
        (.tradeValidation "market moved beyond preview slippage protection")
      match hcreate : Ledger.createPaperCloseIntent plan now db.ledger with
      | .error e =>
          if e.kind = .value then .error (.tradeValidation e.message) else .error (.other e)
      | .ok ((row, created), ledger) =>
          .ok ((row, created), db.withIntent ledger row.id (plan.read.quantity * plan.spotLimit)
            (mul_pos plan.quantity_pos plan.limits_pos.1) (mem_intents_of_close hcreate))

/-! ## §3. `run_once`. -/

/-- The plan of a decision. -/
def planDecision (config : AutoStrategyConfig) (strategyId : Nat) (r : Reads)
    (d : AutomaticDecision) (pair : InstrumentPair) (db : AutomationDb) :
    Except PlanError ((TradeIntentRow × Bool) × AutomationDb) :=
  let key := idempotencyName strategyId d
  match d.action with
  | .opening =>
      match d.notionalUsdt with
      | none => .error (.other (.ofKind .runtime "automatic open decision has no bounded notional"))
      | some notional =>
          planLiveOpen config d.opportunity pair notional key (r.spotBuyFeeInBase d.opportunity.exchange)
            (r.previewOpen d.opportunity pair notional) r.now db
  | .closing =>
      match d.positionId with
      | none => .error (.other (.ofKind .runtime "automatic close decision has no paired position"))
      | some positionId =>
          planLiveClose config positionId d.opportunity key
            (r.previewClose positionId d.opportunity pair) r.now db

/-- The end of a pass that has evaluated the strategy. -/
def actOn (config : AutoStrategyConfig) (strategyId : Nat) (r : Reads) (pairs : List InstrumentPair)
    (e : AutomaticEvaluation) (db : AutomationDb) :
    Except Exc (AutomaticTradingResult × AutomationDb) :=
  match e.decision with
  | none =>
      let reason := e.openingBlockReason.getD "no automatic action is required"
      let db := if e.openingBlockReason = some "daily realized loss limit was reached" then
          { db with control := ⟨.paused, some strategyId, reason⟩ }
        else db
      .ok ({ evaluated := true, created := false, reason }, db)
  | some d =>
      match (pairs.reverse.find? fun p => symbolKey p.exchange p.baseAsset = d.opportunity.key).filter
          (·.tradingRulesComplete) with
      | none => .ok ({
          evaluated := true
          created := false
          action := some d.action
          reason := "current instrument trading rules are incomplete" }, db)
      | some pair =>
          if d.opportunity.exchange = .gate ∧ config.environment = .sandbox
              ∧ r.gateExecutable d = false then
            .ok ({
              evaluated := true
              created := false
              action := some d.action
              reason := "Gate Sandbox perpetual top book is outside the "
                ++ "exchange price-protection band" }, db)
          else match planDecision config strategyId r d pair db with
            | .error (.idempotencyConflict message) | .error (.tradeValidation message) =>
                .ok ({
                  evaluated := true
                  created := false
                  action := some d.action
                  reason := message }, db)
            | .error (.other e) => .error e
            | .ok ((intent, created), db) => .ok ({
                evaluated := true
                created
                intentId := some intent.id
                action := some d.action
                reason := d.reason }, db)

/-- What the strategy calls for, and the pairs known by then. -/
def evaluate (config : AutoStrategyConfig) (r : Reads) (db : AutomationDb) :
    AutomaticEvaluation × List InstrumentPair :=
  let opportunities := r.opportunities.filter (·.exchange ∈ config.enabledExchanges)
  let pairs := r.instrumentPairs.filter (·.exchange ∈ config.enabledExchanges)
  let blocked := db.activeOpenIntentKeys config.environment
  let (opportunities, learned) :=
    if .gate ∈ config.enabledExchanges then r.refreshGate opportunities else (opportunities, [])
  (evaluateAutomaticStrategy config opportunities (db.positions r.liquidationBuffer)
    r.dailyRealizedPnl blocked r.now, pairs ++ learned)

/-- `AutomaticTradingService.run_once`. -/
def runOnce (r : Reads) (db : AutomationDb) : Except Exc (AutomaticTradingResult × AutomationDb) :=
  let idle (reason : String) : AutomaticTradingResult := { evaluated := false, created := false, reason }
  match (db.control.activeStrategyId).filter fun _ => db.control.state = .enabled with
  | none => .ok (idle "automatic trading is not enabled", db)
  | some strategyId =>
      if ¬Control.Ready db.ledger.control then .ok (idle "account execution is not ready", db)
      else match db.strategyVersion strategyId with
        | none => .ok (idle "active strategy version was not found", db)
        | some config =>
            actOn config strategyId r (evaluate config r db).2 (evaluate config r db).1 db

/-! ## §4. What a pass stores. -/

/-- A new intent is the row its plan describes, behind those already there. -/
theorem createTradeIntent_created {plan : OpenPlan} {now : Int} {l l' : Ledger}
    {row : TradeIntentRow} (h : Ledger.createTradeIntent plan now l = .ok ((row, true), l')) :
    row = plan.intent l.nextId now ∧ l'.intents = l.intents ++ [row] := by
  rcases Ledger.createTradeIntent_ok h with ⟨-, hnot⟩ | ⟨-, hrow, rfl⟩
  · cases hnot
  · cases hrow
    exact ⟨rfl, rfl⟩

/-- A new opening intent has the notional it was planned with. -/
theorem planLiveOpen_created {config : AutoStrategyConfig} {o : Opportunity} {pair : InstrumentPair}
    {notional : ℚ} {key : String} {feeInBase : Bool} {preview : Except PlanError OpenPreview}
    {now : Int} {db db' : AutomationDb} {row : TradeIntentRow}
    (h : planLiveOpen config o pair notional key feeInBase preview now db = .ok ((row, true), db')) :
    db'.ledger.intents = db.ledger.intents ++ [row] ∧ row.exchange = o.exchange
      ∧ row.environment = config.environment ∧ row.baseAsset = o.baseAsset
      ∧ row.action = .opening ∧ row.status = .planned ∧ db'.requestedNotional row.id = notional := by
  unfold planLiveOpen at h
  split at h
  · split at h <;> cases h
  · obtain ⟨p, -, h⟩ := bind_eq_ok.mp h
    rw [raiseIf_bind_eq_ok] at h
    obtain ⟨-, h⟩ := h
    split at h
    · cases h
    · next planned created ledger hcreate =>
        split at h
        · cases h
          obtain ⟨hrow, happend⟩ := createTradeIntent_created hcreate
          have hnotional : Function.update db.requestedNotional row.id notional row.id = notional :=
            Function.update_self ..
          refine ⟨happend, ?_, ?_, ?_, ?_, ?_, hnotional⟩ <;> rw [hrow] <;> rfl
        · cases h

/-- Behind a new opening intent stands an opening decision of the enabled
strategy, and the intent has its notional. -/
theorem runOnce_created {r : Reads} {db db' : AutomationDb} {result : AutomaticTradingResult}
    (h : runOnce r db = .ok (result, db')) (hcreated : result.created = true)
    (hopen : result.action = some .opening) :
    ∃ strategyId config d notional row, db.control.activeStrategyId = some strategyId
      ∧ db.strategyVersion strategyId = some config
      ∧ (evaluate config r db).1.decision = some d ∧ d.action = .opening
      ∧ d.notionalUsdt = some notional
      ∧ db'.ledger.intents = db.ledger.intents ++ [row] ∧ row.exchange = d.opportunity.exchange
      ∧ row.environment = config.environment ∧ row.baseAsset = d.opportunity.baseAsset
      ∧ row.action = .opening ∧ row.status = .planned
      ∧ db'.requestedNotional row.id = notional := by
  unfold runOnce at h
  dsimp only at h
  split at h
  · cases h
    cases hcreated
  · next strategyId hactive =>
      split at h
      · cases h
        cases hcreated
      · split at h
        · cases h
          cases hcreated
        · next config hconfig =>
            unfold actOn at h
            split at h
            · cases h
              cases hcreated
            · next d hd =>
                split at h
                · cases h
                  cases hcreated
                · split at h
                  · cases h
                    cases hcreated
                  · split at h
                    · cases h
                      cases hcreated
                    · cases h
                      cases hcreated
                    · cases h
                    · -- Every other way through the pass returns `created = False`.
                      next intent created planned hplan =>
                        cases h
                        have hact : d.action = .opening := Option.some.inj hopen
                        have hmade : created = true := hcreated
                        subst hmade
                        unfold planDecision at hplan
                        rw [hact] at hplan
                        dsimp only at hplan
                        split at hplan
                        · cases hplan
                        · next notional hnotional =>
                            obtain ⟨ha, he, hv, hb, ho, hs, hn⟩ := planLiveOpen_created hplan
                            have hid := (Option.filter_eq_some_iff.mp hactive).1
                            exact ⟨strategyId, config, d, notional, intent, hid, hconfig, hd, hact,
                              hnotional, ha, he, hv, hb, ho, hs, hn⟩

end BasisHawk.Automation
