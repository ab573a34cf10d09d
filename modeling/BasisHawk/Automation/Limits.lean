/-
  BasisHawk.Automation.Limits
  ───────────────────────────
  The exposure limits of a strategy against what is on its way.

  An evaluation measures the room left by the positions it looks at: those of
  the strategy's environment on its enabled exchanges.  An open intent that has
  no position yet takes no room, it only blocks its own symbol.

  Main results:
    • `opening_within_limits` — a new opening intent stays within the limits
      exactly when what the evaluation does not count leaves room for it,
    • `opening_over_limits` — a strategy that opens over every limit.
-/
import BasisHawk.Automation.Service
import Mathlib.Tactic.Linarith

namespace BasisHawk.Automation

open Domain Lib
open Paired (Ledger TradeIntentRow PairedPositionRow)

/-! ## §1. What the limits are about. -/

namespace AutomationDb

variable (db : AutomationDb) (environment : ExchangeEnvironment)

/-- The position is active, in the environment. -/
def isActiveRow (p : PairedPositionRow) : Prop :=
  p.environment = environment ∧ (p.status = .opened ∨ p.status = .closing) ∧ 0 < p.quantity

instance (p : PairedPositionRow) : Decidable (isActiveRow environment p) :=
  inferInstanceAs (Decidable (_ ∧ _ ∧ _))

/-- The active positions of the environment. -/
def activePositions : List PairedPositionRow :=
  db.ledger.positions.filter (isActiveRow environment ·)

/-- `quantity * spot_entry_price`, summed up. -/
def exposureOf (positions : List PairedPositionRow) : ℚ :=
  (positions.map fun p => p.quantity * p.spotEntryPrice).sum

/-- The requested notional of the intents. -/
def requestedOf (intents : List TradeIntentRow) : ℚ :=
  (intents.map fun i => db.requestedNotional i.id).sum

/-- The open intents under way at one exchange. -/
def inFlightAt (exchange : Exchange) : List TradeIntentRow :=
  (db.inFlightOpens environment).filter (·.exchange = exchange)

end AutomationDb

open AutomationDb

/-- A new opening of the notional at the exchange keeps the strategy's
environment within the limits, counting what is on its way. -/
structure WithinLimits (config : AutoStrategyConfig) (db : AutomationDb) (exchange : Exchange)
    (notional : ℚ) : Prop where
  exchange : notional
      + exposureOf ((db.activePositions config.environment).filter (·.exchange = exchange))
      + db.requestedOf (db.inFlightAt config.environment exchange)
    ≤ config.perExchangeMaxExposure
  everywhere : notional + exposureOf (db.activePositions config.environment)
      + db.requestedOf (db.inFlightOpens config.environment)
    ≤ config.globalMaxExposure
  concurrent : (db.activePositions config.environment).length
      + (db.inFlightOpens config.environment).length + 1
    ≤ config.maxConcurrentPositions

section Room

variable (config : AutoStrategyConfig) (db : AutomationDb)

/-- The active positions an evaluation counts. -/
def countedPositions : List PairedPositionRow :=
  (db.activePositions config.environment).filter (·.exchange ∈ config.enabledExchanges)

/-- Those it does not: their exchange is not enabled any more. -/
def uncountedPositions : List PairedPositionRow :=
  (db.activePositions config.environment).filter (·.exchange ∉ config.enabledExchanges)

/-- What the counted positions leave of the limit at the exchange. -/
def exchangeRoom (exchange : Exchange) : ℚ :=
  config.perExchangeMaxExposure
    - exposureOf ((countedPositions config db).filter (·.exchange = exchange))

/-- What the counted positions leave of the global limit. -/
def globalRoom : ℚ := config.globalMaxExposure - exposureOf (countedPositions config db)

/-- What an evaluation does not count leaves room for the trade: under each
limit nothing is left out, or the trade is small enough for other reasons. -/
structure LeavesRoom (o : Opportunity) : Prop where
  exchange : db.requestedOf (db.inFlightAt config.environment o.exchange) ≤ 0
    ∨ min (tradeCap config o) (globalRoom config db)
        + db.requestedOf (db.inFlightAt config.environment o.exchange)
      ≤ exchangeRoom config db o.exchange
  everywhere : exposureOf (uncountedPositions config db)
        + db.requestedOf (db.inFlightOpens config.environment) ≤ 0
    ∨ min (tradeCap config o) (exchangeRoom config db o.exchange)
        + (exposureOf (uncountedPositions config db)
          + db.requestedOf (db.inFlightOpens config.environment))
      ≤ globalRoom config db
  concurrent : (uncountedPositions config db).length + (db.inFlightOpens config.environment).length
    < config.maxConcurrentPositions - (countedPositions config db).length

end Room

/-! ## §2. What the evaluation measures. -/

section Evaluation

variable {config : AutoStrategyConfig} {db : AutomationDb} {buffer : Nat → Option ℚ}
  {o : Opportunity}

/-- The order of the positions does not matter to a sum over some of them. -/
theorem sum_positions (P : AutomationPosition → Bool) :
    (((db.positions buffer).filter P).map (·.exposure)).sum
      = exposureOf (db.ledger.positions.filter (P ∘ automationPosition buffer)) := by
  have hperm : ((db.positions buffer).filter P).Perm
      ((db.ledger.positions.map (automationPosition buffer)).filter P) :=
    ((List.perm_insertionSort _ _).map _).filter _
  rw [(hperm.map _).sum_eq, List.filter_map, List.map_map]
  rfl

/-- Counting positions of the automation by a predicate is counting rows of the
ledger by it. -/
theorem length_positions (P : AutomationPosition → Bool) :
    ((db.positions buffer).filter P).length
      = (db.ledger.positions.filter (P ∘ automationPosition buffer)).length := by
  have hperm : ((db.positions buffer).filter P).Perm
      ((db.ledger.positions.map (automationPosition buffer)).filter P) :=
    ((List.perm_insertionSort _ _).map _).filter _
  rw [hperm.length_eq, List.filter_map, List.length_map]

/-- The active positions in the scope of a strategy are the counted ones. -/
theorem active_inScope_iff (p : PairedPositionRow) :
    (automationPosition buffer p).isActive ∧ (automationPosition buffer p).inScope config
      ↔ isActiveRow config.environment p ∧ p.exchange ∈ config.enabledExchanges := by
  unfold AutomationPosition.isActive AutomationPosition.inScope isActiveRow automationPosition
  tauto

/-- The evaluator's exposure is the sum over the counted positions of the
ledger: an opening that is still in flight adds nothing to it. -/
theorem globalExposure_eq :
    globalExposure ((db.positions buffer).filter (·.inScope config))
      = exposureOf (countedPositions config db) := by
  unfold globalExposure countedPositions activePositions
  rw [List.filter_filter, sum_positions, List.filter_filter]
  congr 2
  funext p
  have h := @active_inScope_iff config buffer p
  rw [Bool.eq_iff_iff]
  simp only [Function.comp_apply, Bool.and_eq_true, decide_eq_true_eq]
  rw [h, and_comm]

/-- The same for the exposure of one exchange. -/
theorem exchangeExposure_eq (exchange : Exchange) :
    exchangeExposure ((db.positions buffer).filter (·.inScope config)) exchange
      = exposureOf ((countedPositions config db).filter (·.exchange = exchange)) := by
  unfold exchangeExposure countedPositions activePositions
  rw [List.filter_filter, sum_positions, List.filter_filter, List.filter_filter]
  congr 2
  funext p
  have h := @active_inScope_iff config buffer p
  rw [Bool.eq_iff_iff]
  simp only [Function.comp_apply, Bool.and_eq_true, decide_eq_true_eq]
  show (_ ∧ p.exchange = exchange) ∧ _ ↔ _
  tauto

/-- The notional of a trade in terms of the room that is left. -/
theorem boundedNotional_eq :
    boundedNotional config ((db.positions buffer).filter (·.inScope config)) o
      = min (min (tradeCap config o) (exchangeRoom config db o.exchange)) (globalRoom config db) := by
  unfold boundedNotional exchangeRoom globalRoom
  rw [exchangeExposure_eq, globalExposure_eq]

/-- Every active position is counted or not. -/
theorem exposure_active :
    exposureOf (db.activePositions config.environment)
      = exposureOf (countedPositions config db) + exposureOf (uncountedPositions config db) := by
  unfold exposureOf countedPositions uncountedPositions
  generalize db.activePositions config.environment = rows
  induction rows with
  | nil => simp
  | cons p rows ih =>
      by_cases hp : p.exchange ∈ config.enabledExchanges
      · rw [List.filter_cons_of_pos (by simpa using hp), List.filter_cons_of_neg (by simpa using hp)]
        simp only [List.map_cons, List.sum_cons, ih]
        ring
      · rw [List.filter_cons_of_neg (by simpa using hp), List.filter_cons_of_pos (by simpa using hp)]
        simp only [List.map_cons, List.sum_cons, ih]
        ring

/-- The active positions are the counted ones and the others, which the limits
on the number of positions do not see. -/
theorem length_active :
    (db.activePositions config.environment).length
      = (countedPositions config db).length + (uncountedPositions config db).length := by
  unfold countedPositions uncountedPositions
  rw [List.length_eq_length_filter_add (fun p => decide (p.exchange ∈ config.enabledExchanges))]
  simp only [decide_not]

/-- At an enabled exchange every active position is counted. -/
theorem active_at_enabled {exchange : Exchange} (he : exchange ∈ config.enabledExchanges) :
    (db.activePositions config.environment).filter (·.exchange = exchange)
      = (countedPositions config db).filter (·.exchange = exchange) := by
  unfold countedPositions
  rw [List.filter_filter]
  apply List.filter_congr
  intro p hp
  by_cases hx : p.exchange = exchange
  · simp [hx, he]
  · simp [hx]

/-! ## §3. The limits. -/

/-- A minimum of three stays below a bound. -/
theorem min_add_le_iff (a x g u : ℚ) : min (min a x) g + u ≤ x ↔ u ≤ 0 ∨ min a g + u ≤ x := by
  rw [min_right_comm]
  rcases le_total (min a g) x with h | h
  · rw [min_eq_left h]
    constructor
    · exact .inr
    · rintro (hu | hle)
      · linarith
      · exact hle
  · rw [min_eq_right h]
    constructor
    · intro hle
      exact .inl (by linarith)
    · rintro (hu | hle) <;> linarith

/-- The bounded notional stays within the limits exactly when there is room. -/
theorem withinLimits_iff (he : o.exchange ∈ config.enabledExchanges) :
    WithinLimits config db o.exchange
        (boundedNotional config ((db.positions buffer).filter (·.inScope config)) o)
      ↔ LeavesRoom config db o := by
  rw [boundedNotional_eq]
  -- A minimum of three rooms fits a limit exactly if the request that is in flight leaves it.
  have hx := min_add_le_iff (tradeCap config o) (exchangeRoom config db o.exchange)
    (globalRoom config db) (db.requestedOf (db.inFlightAt config.environment o.exchange))
  have hg := min_add_le_iff (tradeCap config o) (globalRoom config db)
    (exchangeRoom config db o.exchange) (exposureOf (uncountedPositions config db)
      + db.requestedOf (db.inFlightOpens config.environment))
  rw [min_right_comm] at hg
  -- What is active are the positions that are counted and those that are not.
  have hsum := @exposure_active config db
  have hlen := @length_active config db
  constructor
  · intro h
    refine ⟨hx.mp ?_, hg.mp ?_, ?_⟩
    · have := h.exchange
      rw [active_at_enabled he] at this
      show _ ≤ config.perExchangeMaxExposure - _
      linarith
    · have := h.everywhere
      show _ ≤ config.globalMaxExposure - _
      linarith
    · have := h.concurrent
      omega
  · intro h
    refine ⟨?_, ?_, ?_⟩
    · have : _ ≤ config.perExchangeMaxExposure - _ := hx.mpr h.exchange
      rw [active_at_enabled he]
      linarith
    · have : _ ≤ config.globalMaxExposure - _ := hg.mpr h.everywhere
      linarith
    · have := h.concurrent
      omega

end Evaluation

/-- A new opening intent of an enabled strategy stays within its limits exactly
when what the evaluation does not count leaves room. -/
theorem opening_within_limits {r : Reads} {db db' : AutomationDb} {result : AutomaticTradingResult}
    (h : runOnce r db = .ok (result, db')) (hcreated : result.created = true)
    (hopen : result.action = some .opening) :
    ∃ strategyId config o row, db.control.activeStrategyId = some strategyId
      ∧ db.strategyVersion strategyId = some config
      ∧ (evaluate config r db).1.decision.map (·.opportunity) = some o
      ∧ db'.ledger.intents = db.ledger.intents ++ [row] ∧ row.action = .opening
      ∧ row.environment = config.environment ∧ row.exchange = o.exchange
      ∧ row.baseAsset = o.baseAsset
      ∧ (WithinLimits config db row.exchange (db'.requestedNotional row.id)
        ↔ LeavesRoom config db o) := by
  obtain ⟨strategyId, config, d, notional, row, hid, hconfig, hd, hact, hn, happend, hx, henv, hbase,
    hro, -, hrequested⟩ := runOnce_created h hcreated hopen
  refine ⟨strategyId, config, d.opportunity, row, hid, hconfig, by rw [hd]; rfl, happend, hro, henv,
    hx, hbase, ?_⟩
  have hev : (evaluateAutomaticStrategy config _ (db.positions r.liquidationBuffer)
    r.dailyRealizedPnl (db.activeOpenIntentKeys config.environment) r.now).decision = some d := hd
  obtain ⟨hrules, -, hbounded, -, -⟩ := evaluate_open hev hact
  rw [hn] at hbounded
  rw [hx, hrequested, Option.some.inj hbounded]
  exact withinLimits_iff hrules.1

/-! ## §4. Two runs of one strategy. -/

namespace Sample

theorem hundred_pos : (0 : ℚ) < 100 ∧ (0 : ℚ) < 100 := by decide

/-- A strategy that may hold one position of 100 USDT. -/
def config : AutoStrategyConfig where
  environment := .sandbox
  enabledExchanges := [.binance]
  leverage := 1
  notionalPerTrade := 100
  perExchangeMaxExposure := 100
  globalMaxExposure := 100
  maxConcurrentPositions := 1
  minimumCurrentApr := 0
  minimumApr24h := 0
  minimumApr7d := 0
  minimumNetReturn := 0
  minimumOpeningBasis := 0
  maximumOpeningBasis := 1 / 10
  minimumTwoLegNotional := 10
  bookCapacityMultiple := 10
  normalMaxSlippage := 1 / 100
  emergencyMaxSlippage := 1 / 10
  dailyMaxLoss := 50
  minimumReentryMinutes := 0
  maximumHoldingHours := 24
  minimumLiquidationBuffer := 1 / 10
  closeFundingRateBelow := -1
  closeNetReturnBelow := -1
  closeBasisAbove := 1 / 2
  takeProfitUsdt := 50
  stopLossUsdt := 50
  backed := by decide
  enabled_nonempty := by decide
  leverage_range := Paired.TradeIntentRow.unlevered
  notional_pos := by norm_num
  exposure_pos := hundred_pos
  concurrent_range := by decide
  capacity_range := by norm_num
  slippage_range := by norm_num
  loss_pos := by norm_num
  reentry_range := by decide
  holding_range := by decide
  buffer_range := by norm_num
  basis_range := by norm_num
  exposure_covers_trade := le_rfl
  global_covers_exchange := le_rfl
  minimum_le_trade := by norm_num

def opportunity (baseAsset : String) : Opportunity where
  exchange := .binance
  baseAsset := baseAsset
  observedAt := 0
  spotBid := 100
  spotAsk := 100
  perpBid := 101
  perpAsk := 101
  quality := .healthy
  topBookNotional := 2000
  closeTopBookNotional := 2000
  executableBasis := 1 / 100
  currentFundingRate := 1 / 1000
  currentApr := 1
  apr24h := some 1
  apr7d := some 1
  netReturn := some (1 / 100)
  spotTakerFee := 0
  perpTakerFee := 0

def pair (baseAsset : String) : InstrumentPair :=
  ⟨.binance, baseAsset, baseAsset ++ "USDT", baseAsset ++ "USDT", 1, 1, 0, 0, 1, 1, 0, 0, 1⟩

def preview (baseAsset : String) : OpenPreview where
  token := baseAsset
  baseQuantity := 1
  spotQuantity := 1
  spotLimitPrice := 101
  perpQuantity := 1
  perpLimitPrice := 100
  perpBaseMultiplier := 1
  spotFeeRate := 0
  perpFeeRate := 0
  spot_pos := by norm_num
  perp_pos := by norm_num
  multiplier_pos := by norm_num

/-- One opportunity, with complete rules and a preview at its quotes. -/
def reads (baseAsset : String) : Reads where
  now := 0
  opportunities := [opportunity baseAsset]
  instrumentPairs := [pair baseAsset]
  liquidationBuffer := fun _ => none
  dailyRealizedPnl := 0
  refreshGate := fun opportunities => (opportunities, [])
  gateExecutable := fun _ => true
  spotBuyFeeInBase := fun _ => false
  previewOpen := fun o _ _ => .ok (preview o.baseAsset)
  previewClose := fun _ _ _ => .error (.tradeValidation "")

/-- The strategy is enabled, nothing has happened yet. -/
def start : AutomationDb where
  control := ⟨.enabled, some 0, ""⟩
  strategies := [(0, config)]
  ledger := ⟨some ⟨.ready, ""⟩, [], [], [], [], [], 0⟩
  requestedNotional := fun _ => 1
  notional_check := by simp

/-- The end of a pass; an error leaves everything as it is. -/
def after (baseAsset : String) (db : AutomationDb) : AutomaticTradingResult × AutomationDb :=
  match runOnce (reads baseAsset) db with
  | .ok out => out
  | .error _ => ({ evaluated := false, created := false, reason := "" }, db)

theorem ran {baseAsset : String} {db : AutomationDb}
    (h : (runOnce (reads baseAsset) db).isOk = true) :
    runOnce (reads baseAsset) db = .ok (after baseAsset db) := by
  unfold after
  cases hout : runOnce (reads baseAsset) db with
  | ok out => rfl
  | error e =>
      rw [hout] at h
      cases h

/-- The first opening is planned, and has no fills yet. -/
def planned : AutomationDb := (after "BTC" start).2

end Sample

/-- With the first opening on its way, another symbol is opened too: over both
exposure limits and the limit on concurrent positions. -/
theorem opening_over_limits :
    ∃ result db' row, runOnce (Sample.reads "ETH") Sample.planned = .ok (result, db')
      ∧ result.created = true ∧ result.action = some .opening
      ∧ db'.ledger.intents = Sample.planned.ledger.intents ++ [row]
      ∧ row.exchange = .binance ∧ db'.requestedNotional row.id = 100
      ∧ (Sample.planned.inFlightAt .sandbox .binance).length = 1
      ∧ ¬WithinLimits Sample.config Sample.planned row.exchange (db'.requestedNotional row.id) := by
  have hran : runOnce (Sample.reads "ETH") Sample.planned
      = .ok (Sample.after "ETH" Sample.planned) := Sample.ran (by decide +kernel)
  -- The created row is the last one of the intents.
  obtain ⟨strategyId, config, d, notional, row, -, -, -, -, -, happend, -, -, -, -, -, -⟩ :=
    runOnce_created hran (by decide +kernel) (by decide +kernel)
  change (Sample.after "ETH" Sample.planned).2.ledger.intents = _ at happend
  have hlast : (Sample.after "ETH" Sample.planned).2.ledger.intents.getLast? = some row := by
    rw [happend, List.getLast?_concat]
  have hx : row.exchange = .binance := by
    have : (Sample.after "ETH" Sample.planned).2.ledger.intents.getLast?.map (·.exchange)
        = some .binance := by decide +kernel
    rw [hlast] at this
    exact Option.some.inj this
  have hn : (Sample.after "ETH" Sample.planned).2.requestedNotional row.id = 100 := by
    have : (Sample.after "ETH" Sample.planned).2.ledger.intents.getLast?.map
        (fun i => (Sample.after "ETH" Sample.planned).2.requestedNotional i.id) = some 100 := by
      decide +kernel
    rw [hlast] at this
    exact Option.some.inj this
  refine ⟨_, _, row, hran, by decide +kernel, by decide +kernel, happend, hx, hn, by decide +kernel,
    fun hwithin => ?_⟩
  -- Two openings are on their way, and the strategy allows one position.
  have hcount := hwithin.concurrent
  revert hcount
  decide +kernel

/-- The first opening, with nothing on its way, stays within the limits. -/
theorem opening_within_limits_first :
    ∃ row, (Sample.after "BTC" Sample.start).2.ledger.intents = [row]
      ∧ WithinLimits Sample.config Sample.start row.exchange
        ((Sample.after "BTC" Sample.start).2.requestedNotional row.id) := by
  have hran : runOnce (Sample.reads "BTC") Sample.start = .ok (Sample.after "BTC" Sample.start) :=
    Sample.ran (by decide +kernel)
  obtain ⟨strategyId, config, o, row, hid, hconfig, ho, happend, -, -, -, -, hiff⟩ :=
    opening_within_limits hran (by decide +kernel) (by decide +kernel)
  cases hid
  cases hconfig
  have hroom : LeavesRoom Sample.config Sample.start o :=
    ⟨.inl (le_of_eq rfl), .inl (by decide +kernel), by decide +kernel⟩
  exact ⟨row, happend, hiff.mpr hroom⟩

end BasisHawk.Automation
