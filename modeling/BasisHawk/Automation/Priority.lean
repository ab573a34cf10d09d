/-
  BasisHawk.Automation.Priority
  ─────────────────────────────
  What becomes of the other positions a pass wants to close (`automation.py`).

  An evaluation comes to one decision, for the position ranked first.  Whether
  the trade can be planned is seen only then, and a pass that cannot plan it
  ends.

  Main results:
    • `runOnce_closes_iff` — a pass closes exactly if the position ranked first
      can be planned,
    • `close_unblocked_iff` — when a position that can be planned is closed, its
      own or another one,
    • `close_blocked` — a misaligned position that keeps another one open.
-/
import BasisHawk.Automation.Limits
import BasisHawk.Planning.Preview

namespace BasisHawk.Automation

open Domain Lib
open Paired (Ledger TradeIntentRow PairedPositionRow OrderLegRow ClosePlan)
open Reconciliation (Control)

/-! ## §1. The positions to close. -/

/-- The opportunities an evaluation looks at. -/
def evaluatedOpportunities (config : AutoStrategyConfig) (r : Reads) : List Opportunity :=
  let opportunities := r.opportunities.filter (·.exchange ∈ config.enabledExchanges)
  if .gate ∈ config.enabledExchanges then (r.refreshGate opportunities).1 else opportunities

/-- The positions that trigger a closing rule, in their order. -/
def triggered (config : AutoStrategyConfig) (r : Reads) (db : AutomationDb) : List CloseCandidate :=
  ((((db.positions r.liquidationBuffer).filter (·.inScope config)).filterMap
    (closeCandidate config r.now
      ((evaluatedOpportunities config r).filter (·.exchange ∈ config.enabledExchanges))))
    ).insertionSort CloseCandidate.before

/-- The trading rules a pass knows of an opportunity. -/
def rulesOf (config : AutoStrategyConfig) (r : Reads) (db : AutomationDb) (o : Opportunity) :
    Option InstrumentPair :=
  (evaluate config r db).2.reverse.find? fun p => symbolKey p.exchange p.baseAsset = o.key

section Pass

variable {config : AutoStrategyConfig} {strategyId : Nat} {r : Reads} {db : AutomationDb}
  {first : CloseCandidate} {rest : List CloseCandidate}

/-- The first of them is what an evaluation decides on. -/
theorem evaluate_decision (h : triggered config r db = first :: rest) :
    (evaluate config r db).1.decision = some first.decision := by
  unfold triggered evaluatedOpportunities at h
  unfold evaluate evaluateAutomaticStrategy
  by_cases hgate : .gate ∈ config.enabledExchanges
  · simp only [if_pos hgate] at h ⊢
    rw [h]
  · simp only [if_neg hgate] at h ⊢
    rw [h]

/-- Whatever triggers is a close. -/
theorem triggered_action {c : CloseCandidate} (h : c ∈ triggered config r db) :
    c.decision.action = .closing := by
  unfold triggered at h
  obtain ⟨p, -, hp⟩ := List.mem_filterMap.mp ((List.mem_insertionSort _).mp h)
  exact closeCandidate_action hp

/-! ## §2. Planning. -/

/-- `plan_live_close` accepts the decision, with the rules that are known. -/
def Accepted (config : AutoStrategyConfig) (strategyId : Nat) (r : Reads) (db : AutomationDb)
    (d : AutomaticDecision) : Prop :=
  ∃ pair ∈ rulesOf config r db d.opportunity, ∃ row created db',
    planDecision config strategyId r d pair db = .ok ((row, created), db')

/-- The decision passes every check on its way, and its key is new. -/
def Plannable (config : AutoStrategyConfig) (strategyId : Nat) (r : Reads) (db : AutomationDb)
    (d : AutomaticDecision) : Prop :=
  ∃ pair ∈ rulesOf config r db d.opportunity, pair.tradingRulesComplete = true
    ∧ (d.opportunity.exchange = .gate → config.environment = .sandbox → r.gateExecutable d = true)
    ∧ ∃ row db', planDecision config strategyId r d pair db = .ok ((row, true), db')

/-- A pass creates a closing intent. -/
def Closes (r : Reads) (db : AutomationDb) : Prop :=
  ∃ result db', runOnce r db = .ok (result, db') ∧ result.created = true
    ∧ result.action = some .closing

/-- The strategy is enabled and accounts are ready. -/
structure Active (db : AutomationDb) (strategyId : Nat) (config : AutoStrategyConfig) : Prop where
  strategy : db.control.activeStrategyId = some strategyId
  enabled : db.control.state = .enabled
  ready : Control.Ready db.ledger.control
  known : db.strategyVersion strategyId = some config

/-- A pass of an active strategy evaluates it. -/
theorem runOnce_active (h : Active db strategyId config) :
    runOnce r db = actOn config strategyId r (evaluate config r db).2 (evaluate config r db).1 db := by
  have hfilter : (db.control.activeStrategyId).filter (fun _ => db.control.state = .enabled)
      = some strategyId := by
    rw [h.strategy, Option.filter_some, if_pos (decide_eq_true h.enabled)]
  unfold runOnce
  simp only [hfilter, h.ready, not_true, if_false, h.known]

/-- A decision that a pass acts on is planned, or nothing is created. -/
theorem actOn_creates_iff {e : AutomaticEvaluation} {d : AutomaticDecision}
    (he : e.decision = some d) :
    (∃ result db', actOn config strategyId r (evaluate config r db).2 e db = .ok (result, db')
        ∧ result.created = true ∧ result.action = some d.action)
      ↔ Plannable config strategyId r db d := by
  unfold actOn Plannable rulesOf
  rw [he]
  dsimp only
  cases hpair : (evaluate config r db).2.reverse.find?
      (fun p => symbolKey p.exchange p.baseAsset = d.opportunity.key) with
  | none => simp
  | some pair =>
      by_cases hcomplete : pair.tradingRulesComplete = true
      · rw [Option.filter_some, if_pos hcomplete]
        dsimp only
        by_cases hguard : d.opportunity.exchange = .gate ∧ config.environment = .sandbox
            ∧ r.gateExecutable d = false
        · -- Gate's price guard refuses.
          rw [if_pos hguard]
          constructor
          · rintro ⟨result, db', h, hcreated, -⟩
            cases h
            cases hcreated
          · rintro ⟨pair', hpair', -, hpass, -⟩
            exact absurd (hpass hguard.1 hguard.2.1) (by rw [hguard.2.2]; decide)
        · rw [if_neg hguard]
          have hpass : d.opportunity.exchange = .gate → config.environment = .sandbox →
              r.gateExecutable d = true := by
            intro hx hs
            by_contra hno
            exact hguard ⟨hx, hs, Bool.eq_false_iff.mpr hno⟩
          cases hplan : planDecision config strategyId r d pair db with
          | error e =>
              constructor
              · rintro ⟨result, db', h, hcreated, -⟩
                cases e <;> cases h <;> cases hcreated
              · rintro ⟨pair', hpair', -, -, row, db', h⟩
                cases hpair'
                rw [hplan] at h
                cases h
          | ok out =>
              obtain ⟨⟨row, created⟩, db''⟩ := out
              constructor
              · rintro ⟨result, db', h, hcreated, -⟩
                cases h
                obtain rfl : created = true := hcreated
                exact ⟨pair, rfl, hcomplete, hpass, row, db'', hplan⟩
              · rintro ⟨pair', hpair', -, -, row', db', h⟩
                cases hpair'
                rw [hplan] at h
                cases h
                exact ⟨_, _, rfl, rfl, rfl⟩
      · rw [Option.filter_some, if_neg hcomplete]
        constructor
        · rintro ⟨result, db', h, hcreated, -⟩
          cases h
          cases hcreated
        · rintro ⟨pair', hpair', hcomplete', -⟩
          cases hpair'
          exact absurd hcomplete' hcomplete

/-- A pass closes exactly if the position ranked first can be planned. -/
theorem runOnce_closes_iff (hactive : Active db strategyId config)
    (h : triggered config r db = first :: rest) :
    Closes r db ↔ Plannable config strategyId r db first.decision := by
  have hact : first.decision.action = .closing := triggered_action (h ▸ List.mem_cons_self)
  unfold Closes
  rw [runOnce_active hactive, ← actOn_creates_iff (evaluate_decision h), hact]

/-- A pass in which some position triggers a rule and can be closed closes one,
exactly unless the position ranked first keeps it from that. -/
theorem close_unblocked_iff (hactive : Active db strategyId config)
    (h : triggered config r db = first :: rest) :
    ((∃ c ∈ triggered config r db, Accepted config strategyId r db c.decision) → Closes r db)
      ↔ Plannable config strategyId r db first.decision
        ∨ ∀ c ∈ triggered config r db, ¬Accepted config strategyId r db c.decision := by
  rw [runOnce_closes_iff hactive h]
  constructor
  · intro himp
    by_cases hsome : ∃ c ∈ triggered config r db, Accepted config strategyId r db c.decision
    · exact .inl (himp hsome)
    · exact .inr fun c hc hacc => hsome ⟨c, hc, hacc⟩
  · rintro (hplan | hnone)
    · exact fun _ => hplan
    · rintro ⟨c, hc, hacc⟩
      exact absurd hacc (hnone c hc)

end Pass

/-! ## §3. Two positions. -/

section Preview

variable (sha256 : Planning.Digested → String) {t : Planning.CloseTerms}
  {position : PairedPositionRow} {opening : TradeIntentRow} {now : Int}

/-- A close is previewed only for a position that holds something. -/
theorem previewLiveClose_quantity_pos {p : Planning.LiveClosePreview}
    (h : Planning.previewLiveClose sha256 t position opening now = .ok p) : 0 < position.quantity := by
  simp only [Planning.previewLiveClose, raiseIf_bind_eq_ok] at h
  obtain ⟨-, h⟩ := h
  obtain ⟨-, -, h⟩ := bind_eq_ok.mp h
  obtain ⟨-, -, h⟩ := bind_eq_ok.mp h
  obtain ⟨sizing, hsize, h⟩ := bind_eq_ok.mp h
  rw [raiseIf_bind_eq_ok, not_not] at h
  rw [← h.1]
  exact (Planning.sizePairedOrder_pos hsize).2.1

/-- What `plan_live_close` stores for the preview of a position. -/
def closePlanOf (t : Planning.CloseTerms) (key token : String) (position : PairedPositionRow)
    (opening : TradeIntentRow) (now : Int) : Except Exc ClosePlan :=
  match h : Planning.previewLiveClose sha256 t position opening now with
  | .error e => .error e
  | .ok p =>
      let hp := Planning.previewLiveClose_spec sha256 h
      .ok {
        token
        idempotencyKey := key
        read := position
        emergency := t.emergency
        leverage := p.leverage
        spotFeeRate := (t.settings.fees t.opportunity.exchange).spotTaker
        perpFeeRate := (t.settings.fees t.opportunity.exchange).perpTaker
        marketObservedAt := t.opportunity.observedAt
        spotSymbol := t.pair.spotSymbol
        spotLimit := p.spotLimitPrice
        perpSymbol := t.pair.perpSymbol
        perpLimit := p.perpLimitPrice
        perpMultiplier := p.perpBaseMultiplier
        leverage_range := hp.leverage ▸ opening.leverage_check
        quantity_pos := previewLiveClose_quantity_pos sha256 h
        limits_pos := ⟨hp.spot_pos.2, hp.perp_pos.2⟩
        multiplier_pos := hp.multiplier_pos }

/-- `plan_live_close` between its lookup and its insertion. -/
def liveClosePlan (t : Planning.CloseTerms) (key token : String) (now : Int) (l : Ledger) :
    Except Exc ClosePlan := do
  Planning.checkCloseTerms t
  let position ← Planning.closablePosition t (Table.find? l.positions t.positionId)
  let opening ← Planning.openingOf t position
    ((Table.find? l.intents position.openingIntentId).map fun i => (i, l.legsOfIntent i.id))
  closePlanOf sha256 t key token position opening now

end Preview

namespace Sample

/-- The opening of a position. -/
def openingOf (id : Nat) (baseAsset : String) (quantity : ℚ) : TradeIntentRow where
  id := id
  token := baseAsset
  pairedPositionId := none
  idempotencyKey := baseAsset
  exchange := .binance
  environment := .sandbox
  baseAsset := baseAsset
  action := .opening
  emergency := false
  status := .hedged
  failureCode := none
  leverage := 1
  baseQuantity := quantity
  spotFeeRate := 0
  perpFeeRate := 0
  spotBuyFeeInBase := false
  marketObservedAt := -seconds 86400
  version := 1
  createdAt := -seconds 86400
  leverage_check := TradeIntentRow.unlevered
  emergency_check := TradeIntentRow.ordinary_opening

/-- A filled leg of it. -/
def filledLeg (id intentId : Nat) (m : Market) (baseAsset : String) (quantity : ℚ)
    (hq : 0 < quantity) : OrderLegRow where
  id := id
  tradeIntentId := intentId
  leg := .primary m
  market := m
  symbol := baseAsset ++ "USDT"
  side := if m = .spot then .buy else .sell
  clientOrderId := Paired.primaryClientOrderId .sandbox .binance baseAsset m
  exchangeOrderId := some (baseAsset ++ m.name)
  status := .filled
  failureCode := none
  quantity := quantity
  baseMultiplier := 1
  compensationTargetBaseQuantity := none
  compensationToleranceBase := 0
  limitPrice := 100
  filledQuantity := quantity
  averagePrice := some 100
  reduceOnly := false
  createdAt := -seconds 86400
  quantity_pos := ⟨hq, by norm_num⟩
  multiplier_check := OrderLegRow.unit_multiplier
  tolerance_check := OrderLegRow.zero_nonneg
  filled_nonneg := hq.le
  average_iff := ⟨fun _ => hq, fun _ => rfl⟩

/-- The position, a day old. -/
def held (id openingId : Nat) (baseAsset : String) (quantity : ℚ) : PairedPositionRow where
  id := id
  openingIntentId := openingId
  closingIntentId := none
  exchange := .binance
  environment := .sandbox
  baseAsset := baseAsset
  initialQuantity := quantity
  quantity := quantity
  spotEntryPrice := 100
  perpEntryPrice := 100
  openingFeesUsdt := 0
  remainingOpeningFeesUsdt := 0
  closingFeesUsdt := none
  realizedPnlUsdt := none
  status := .opened
  openedAt := -seconds 86400
  closedAt := none

/-- One and a half of the one, one of the other, while both trade in whole
coins. -/
def twoPositions : AutomationDb where
  control := ⟨.enabled, some 0, ""⟩
  strategies := [(0, config)]
  ledger := {
    control := some ⟨.ready, ""⟩
    intents := [openingOf 1 "AAA" (3 / 2), openingOf 4 "BBB" 1]
    legs := [
      filledLeg 2 1 .spot "AAA" (3 / 2) (by norm_num), filledLeg 3 1 .perp "AAA" (3 / 2) (by norm_num),
      filledLeg 5 4 .spot "BBB" 1 OrderLegRow.unit_multiplier,
      filledLeg 6 4 .perp "BBB" 1 OrderLegRow.unit_multiplier]
    fills := []
    positions := [held 7 1 "AAA" (3 / 2), held 8 4 "BBB" 1]
    realizations := []
    nextId := 9 }
  requestedNotional := fun _ => 150
  notional_check := fun _ _ => by norm_num

/-- What a closing is asked for with. -/
def closeTerms (positionId : Nat) (o : Opportunity) (pair : InstrumentPair) : Planning.CloseTerms where
  positionId
  opportunity := {
    toOpportunity := o.toOpportunity
    spotSymbol := pair.spotSymbol
    perpSymbol := pair.perpSymbol
    topBookNotional := o.topBookNotional
    closeTopBookNotional := o.closeTopBookNotional }
  pair
  settings := ⟨10, 0, 30, 90, fun _ => ⟨0, 0⟩, ""⟩
  environment := .sandbox
  maximumSlippage := config.normalMaxSlippage
  emergency := false

/-- Healthy quotes and complete rules of these symbols. -/
def closeReads (baseAssets : List String) : Reads where
  now := 0
  opportunities := baseAssets.map opportunity
  instrumentPairs := baseAssets.map pair
  liquidationBuffer := fun _ => none
  dailyRealizedPnl := 0
  refreshGate := fun opportunities => (opportunities, [])
  gateExecutable := fun _ => true
  spotBuyFeeInBase := fun _ => false
  previewOpen := fun o _ _ => .ok (preview o.baseAsset)
  previewClose := fun id o p =>
    match liveClosePlan (fun _ => "") (closeTerms id o p) ("close" ++ toString id) (toString id) 0
        twoPositions.ledger with
    | .ok plan => .ok plan
    | .error e => .error (.tradeValidation e.message)

/-- The sample of two positions is an active account: enabled, ready and within
its configuration. -/
theorem twoPositions_active : Active twoPositions 0 config where
  strategy := rfl
  enabled := rfl
  ready := by decide
  known := rfl

/-- What a pass over the two positions reports, and how many intents it leaves. -/
def closeOutcome (baseAssets : List String) : Except Exc (Bool × Option Nat × String × Nat) :=
  (runOnce (closeReads baseAssets) twoPositions).map fun out =>
    (out.1.created, out.1.intentId, out.1.reason, out.2.ledger.intents.length)

/-- The positions whose closing would be accepted. -/
def acceptedIds (r : Reads) (db : AutomationDb) : List Nat :=
  (triggered config r db).filterMap fun c =>
    match rulesOf config r db c.decision.opportunity with
    | none => none
    | some pair =>
        match planDecision config 0 r c.decision pair db with
        | .ok _ => c.decision.positionId
        | .error _ => none

/-- An intent that a pass has accepted comes from one of the triggered closes.
-/
theorem exists_accepted {r : Reads} {db : AutomationDb} {id : Nat} (h : id ∈ acceptedIds r db) :
    ∃ c ∈ triggered config r db, Accepted config 0 r db c.decision := by
  obtain ⟨c, hc, h⟩ := List.mem_filterMap.mp h
  refine ⟨c, hc, ?_⟩
  cases hpair : rulesOf config r db c.decision.opportunity with
  | none =>
      rw [hpair] at h
      cases h
  | some pair =>
      rw [hpair] at h
      cases hplan : planDecision config 0 r c.decision pair db with
      | error e => simp [hplan] at h
      | ok out => exact ⟨pair, hpair, out.1.1, out.1.2, out.2, hplan⟩

end Sample

/-- Both positions are due.  The older one is not in whole coins, so the pass
ends with it, and the other one, which could be closed, stays open. -/
theorem close_blocked :
    Sample.closeOutcome ["AAA", "BBB"]
        = .ok (false, none, "position quantity is no longer aligned to current trading rules", 2)
      ∧ (∃ c ∈ triggered Sample.config (Sample.closeReads ["AAA", "BBB"]) Sample.twoPositions,
        Accepted Sample.config 0 (Sample.closeReads ["AAA", "BBB"]) Sample.twoPositions c.decision)
      ∧ ¬Closes (Sample.closeReads ["AAA", "BBB"]) Sample.twoPositions := by
  have hout : Sample.closeOutcome ["AAA", "BBB"]
      = .ok (false, none, "position quantity is no longer aligned to current trading rules", 2) := by
    decide +kernel
  refine ⟨hout, @Sample.exists_accepted _ _ 8 (by decide +kernel), ?_⟩
  rintro ⟨result, db', hrun, hcreated, -⟩
  unfold Sample.closeOutcome at hout
  rw [hrun] at hout
  have : result.created = false := congrArg Prod.fst (Except.ok.inj hout)
  rw [hcreated] at this
  cases this

theorem close_unblocked_two :
    ∃ first rest, triggered Sample.config (Sample.closeReads ["AAA", "BBB"]) Sample.twoPositions
        = first :: rest
      ∧ (((∃ c ∈ triggered Sample.config (Sample.closeReads ["AAA", "BBB"]) Sample.twoPositions,
            Accepted Sample.config 0 (Sample.closeReads ["AAA", "BBB"]) Sample.twoPositions c.decision) →
          Closes (Sample.closeReads ["AAA", "BBB"]) Sample.twoPositions)
        ↔ Plannable Sample.config 0 (Sample.closeReads ["AAA", "BBB"]) Sample.twoPositions first.decision
          ∨ ∀ c ∈ triggered Sample.config (Sample.closeReads ["AAA", "BBB"]) Sample.twoPositions,
            ¬Accepted Sample.config 0 (Sample.closeReads ["AAA", "BBB"]) Sample.twoPositions
              c.decision) := by
  cases h : triggered Sample.config (Sample.closeReads ["AAA", "BBB"]) Sample.twoPositions with
  | nil =>
      have hlength : (triggered Sample.config (Sample.closeReads ["AAA", "BBB"])
        Sample.twoPositions).length = 2 := by decide +kernel
      rw [h] at hlength
      cases hlength
  | cons first rest =>
      refine ⟨first, rest, rfl, ?_⟩
      rw [← h]
      exact close_unblocked_iff Sample.twoPositions_active h

end BasisHawk.Automation
