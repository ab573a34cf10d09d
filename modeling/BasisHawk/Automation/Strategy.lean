/-
  BasisHawk.Automation.Strategy
  ─────────────────────────────
  `evaluate_automatic_strategy` (`automation.py`): which one action a strategy
  calls for, given the positions, the opportunities and the realized PnL of
  the day.

  A pass closes before it opens.  Closing candidates are ranked by what
  triggered them; opening candidates by their expected return, and the first
  one with enough room under the exposure limits is taken.

  Main results:
    • `evaluate_open` — what an opening decision has checked.
-/
import BasisHawk.Reconciliation.Operations

namespace BasisHawk.Automation

open Domain Lib
open Paired (PositionStatus)

/-! ## §1. Configuration and inputs. -/

/-- `AutoStrategyConfig`, with its validators.  Hours and minutes are those of
the source. -/
structure AutoStrategyConfig where
  environment : ExchangeEnvironment
  enabledExchanges : List Exchange
  leverage : Nat
  notionalPerTrade : ℚ
  perExchangeMaxExposure : ℚ
  globalMaxExposure : ℚ
  maxConcurrentPositions : Nat
  minimumCurrentApr : ℚ
  minimumApr24h : ℚ
  minimumApr7d : ℚ
  minimumNetReturn : ℚ
  minimumOpeningBasis : ℚ
  maximumOpeningBasis : ℚ
  minimumTwoLegNotional : ℚ
  bookCapacityMultiple : ℚ
  normalMaxSlippage : ℚ
  emergencyMaxSlippage : ℚ
  dailyMaxLoss : ℚ
  minimumReentryMinutes : Nat
  maximumHoldingHours : Nat
  minimumLiquidationBuffer : ℚ
  closeFundingRateBelow : ℚ
  closeNetReturnBelow : ℚ
  closeBasisAbove : ℚ
  takeProfitUsdt : ℚ
  stopLossUsdt : ℚ
  backed : environment ≠ .paper
  enabled_nonempty : enabledExchanges ≠ []
  leverage_range : 1 ≤ leverage ∧ leverage ≤ 10
  notional_pos : 0 < notionalPerTrade ∧ 0 < minimumTwoLegNotional
  exposure_pos : 0 < perExchangeMaxExposure ∧ 0 < globalMaxExposure
  concurrent_range : 1 ≤ maxConcurrentPositions ∧ maxConcurrentPositions ≤ 1000
  capacity_range : 1 ≤ bookCapacityMultiple ∧ bookCapacityMultiple ≤ 100
  slippage_range : 0 < normalMaxSlippage ∧ normalMaxSlippage ≤ 1 / 10
    ∧ normalMaxSlippage ≤ emergencyMaxSlippage ∧ emergencyMaxSlippage ≤ 1 / 4
  loss_pos : 0 < dailyMaxLoss ∧ 0 < takeProfitUsdt ∧ 0 < stopLossUsdt
  reentry_range : minimumReentryMinutes ≤ 10080
  holding_range : 1 ≤ maximumHoldingHours ∧ maximumHoldingHours ≤ 8760
  buffer_range : 0 < minimumLiquidationBuffer ∧ minimumLiquidationBuffer ≤ 1
  basis_range : -1 < minimumOpeningBasis ∧ minimumOpeningBasis ≤ maximumOpeningBasis
    ∧ maximumOpeningBasis < 1 ∧ -1 < closeBasisAbove ∧ closeBasisAbove < 1
  exposure_covers_trade : notionalPerTrade ≤ perExchangeMaxExposure
  global_covers_exchange : perExchangeMaxExposure ≤ globalMaxExposure
  minimum_le_trade : minimumTwoLegNotional ≤ notionalPerTrade

/-- The fields of `Opportunity` that a strategy reads. -/
structure Opportunity extends Reconciliation.LiveOpportunity where
  executableBasis : ℚ
  currentFundingRate : ℚ
  currentApr : ℚ
  apr24h : Option ℚ
  apr7d : Option ℚ
  netReturn : Option ℚ
  spotTakerFee : ℚ
  perpTakerFee : ℚ
  deriving DecidableEq

/-- `f"{exchange}:{base_asset}"`. -/
def symbolKey (exchange : Exchange) (baseAsset : String) : String := exchange.name ++ ":" ++ baseAsset

/-- `Opportunity.key`. -/
def Opportunity.key (o : Opportunity) : String := symbolKey o.exchange o.baseAsset

/-- `AutomationPosition`. -/
structure AutomationPosition where
  id : Nat
  exchange : Exchange
  environment : ExchangeEnvironment
  baseAsset : String
  quantity : ℚ
  spotEntryPrice : ℚ
  perpEntryPrice : ℚ
  remainingOpeningFeesUsdt : ℚ
  status : PositionStatus
  openedAt : Int
  closedAt : Option Int
  liquidationBuffer : Option ℚ
  deriving DecidableEq

namespace AutomationPosition

def key (p : AutomationPosition) : String := symbolKey p.exchange p.baseAsset

/-- `status in {"open", "closing"} and quantity > 0`. -/
def isActive (p : AutomationPosition) : Prop :=
  (p.status = .opened ∨ p.status = .closing) ∧ 0 < p.quantity

instance (p : AutomationPosition) : Decidable p.isActive := inferInstanceAs (Decidable (_ ∧ _))

/-- The position is one of the strategy's environment and exchanges. -/
def inScope (config : AutoStrategyConfig) (p : AutomationPosition) : Prop :=
  p.environment = config.environment ∧ p.exchange ∈ config.enabledExchanges

instance (config : AutoStrategyConfig) (p : AutomationPosition) : Decidable (p.inScope config) :=
  inferInstanceAs (Decidable (_ ∧ _))

/-- `quantity * spot_entry_price`. -/
def exposure (p : AutomationPosition) : ℚ := p.quantity * p.spotEntryPrice

end AutomationPosition

inductive DecisionAction where
  | opening | closing
  deriving DecidableEq, Repr

/-- `AutomaticDecision`. -/
structure AutomaticDecision where
  action : DecisionAction
  opportunity : Opportunity
  positionId : Option Nat := none
  reason : String
  notionalUsdt : Option ℚ := none
  estimatedNetPnlUsdt : Option ℚ := none

/-- `AutomaticEvaluation`. -/
structure AutomaticEvaluation where
  decision : Option AutomaticDecision := none
  openingBlockReason : Option String := none

/-- Microseconds. -/
def seconds (n : Nat) : Int := n * 1000000

/-- `_tradable_quote`. -/
def tradableQuote (o : Opportunity) (now : Int) : Prop :=
  o.quality = .healthy ∧ o.observedAt ≤ now + seconds 5 ∧ now - o.observedAt ≤ seconds 15
    ∧ 0 < o.spotBid ∧ 0 < o.spotAsk ∧ 0 < o.perpBid ∧ 0 < o.perpAsk

instance (o : Opportunity) (now : Int) : Decidable (tradableQuote o now) :=
  inferInstanceAs (Decidable (_ ∧ _ ∧ _ ∧ _ ∧ _ ∧ _ ∧ _))

/-! ## §2. Closing. -/

section Closing

variable (config : AutoStrategyConfig) (now : Int)

/-- The net PnL of closing the position at the quotes of `o`. -/
def estimatedNetPnl (p : AutomationPosition) (o : Opportunity) : ℚ :=
  (o.spotBid - p.spotEntryPrice + p.perpEntryPrice - o.perpAsk) * p.quantity
    - p.remainingOpeningFeesUsdt
    - (p.quantity * o.spotBid * o.spotTakerFee + p.quantity * o.perpAsk * o.perpTakerFee)

/-- The first of the closing rules that fires, with its rank. -/
def closeTrigger (p : AutomationPosition) (o : Opportunity) : Option (Nat × String) :=
  if ∃ buffer ∈ p.liquidationBuffer, buffer < config.minimumLiquidationBuffer then
    some (0, "liquidation buffer is below the configured minimum")
  else if estimatedNetPnl p o ≤ -config.stopLossUsdt then
    some (1, "estimated net PnL reached the stop loss")
  else if seconds (3600 * config.maximumHoldingHours) ≤ now - p.openedAt then
    some (2, "maximum holding period was reached")
  else if o.currentFundingRate < config.closeFundingRateBelow then
    some (3, "current funding rate crossed the close threshold")
  else if ∃ r ∈ o.netReturn, r < config.closeNetReturnBelow then
    some (4, "estimated net return crossed the close threshold")
  else if config.closeBasisAbove < (o.perpAsk - o.spotBid) / o.spotBid then
    some (5, "executable closing basis crossed the close threshold")
  else if config.takeProfitUsdt ≤ estimatedNetPnl p o then
    some (6, "estimated net PnL reached the take profit")
  else none

/-- A position that should be closed, ranked by trigger, PnL and age. -/
structure CloseCandidate where
  rank : Nat
  pnl : ℚ
  openedAt : Int
  decision : AutomaticDecision

/-- The order of the candidates. -/
def CloseCandidate.before (a b : CloseCandidate) : Prop :=
  a.rank < b.rank ∨ (a.rank = b.rank
    ∧ (a.pnl < b.pnl ∨ (a.pnl = b.pnl ∧ a.openedAt ≤ b.openedAt)))

instance (a b : CloseCandidate) : Decidable (a.before b) :=
  inferInstanceAs (Decidable (_ ∨ (_ ∧ (_ ∨ (_ ∧ _)))))

/-- One step of the loop over the positions. -/
def closeCandidate (opportunities : List Opportunity) (p : AutomationPosition) :
    Option CloseCandidate :=
  if p.status ≠ .opened ∨ p.quantity ≤ 0 then none
  else do
    let o ← opportunities.reverse.find? (·.key = p.key)
    if ¬tradableQuote o now then none
    else if o.closeTopBookNotional < max (p.quantity * o.spotBid) (p.quantity * o.perpAsk) then none
    else do
      let (rank, reason) ← closeTrigger config now p o
      return {
        rank
        pnl := estimatedNetPnl p o
        openedAt := p.openedAt
        decision := {
          action := .closing
          opportunity := o
          positionId := some p.id
          reason
          estimatedNetPnlUsdt := some (estimatedNetPnl p o) } }

end Closing

/-! ## §3. Opening. -/

section Opening

variable (config : AutoStrategyConfig) (now : Int)

/-- `_opening_portfolio_block`. -/
def openingPortfolioBlock (positions : List AutomationPosition) (dailyRealizedPnl : ℚ) :
    Option String :=
  if dailyRealizedPnl ≤ -config.dailyMaxLoss then some "daily realized loss limit was reached"
  else if config.maxConcurrentPositions ≤ (positions.filter (·.isActive)).length then
    some "maximum concurrent positions was reached"
  else none

/-- When the last position of a symbol was closed. -/
def lastClosed (positions : List AutomationPosition) (key : String) : Option Int :=
  ((positions.filter fun p => p.key = key ∧ ¬p.isActive).filterMap (·.closedAt)).max?

/-- The rules an opportunity has to satisfy, exposure limits apart. -/
def satisfiesRules (positions : List AutomationPosition) (blockedOpenKeys : List String)
    (o : Opportunity) : Prop :=
  o.exchange ∈ config.enabledExchanges ∧ o.key ∉ blockedOpenKeys
    ∧ (∀ p ∈ positions, p.isActive → p.key ≠ o.key) ∧ tradableQuote o now
    ∧ (∃ apr ∈ o.apr24h, config.minimumApr24h ≤ apr) ∧ (∃ apr ∈ o.apr7d, config.minimumApr7d ≤ apr)
    ∧ (∃ r ∈ o.netReturn, config.minimumNetReturn ≤ r) ∧ config.minimumCurrentApr ≤ o.currentApr
    ∧ config.minimumOpeningBasis ≤ o.executableBasis ∧ o.executableBasis ≤ config.maximumOpeningBasis
    ∧ ∀ t ∈ lastClosed positions o.key, seconds (60 * config.minimumReentryMinutes) ≤ now - t

instance (positions : List AutomationPosition) (blockedOpenKeys : List String) (o : Opportunity) :
    Decidable (satisfiesRules config now positions blockedOpenKeys o) :=
  inferInstanceAs (Decidable (_ ∧ _ ∧ _ ∧ _ ∧ _ ∧ _ ∧ _ ∧ _ ∧ _ ∧ _ ∧ _))

/-- `-(item.net_return or Decimal("-Infinity"))`: a return of zero counts as none. -/
def Opportunity.returnRank (o : Opportunity) : Option ℚ :=
  match o.netReturn with
  | some r => if r = 0 then none else some (-r)
  | none => none

/-- Strictly smaller rank; no rank is the largest. -/
def rankLt : Option ℚ → Option ℚ → Prop
  | some a, some b => a < b
  | some _, none => True
  | none, _ => False

instance : (a b : Option ℚ) → Decidable (rankLt a b)
  | some a, some b => inferInstanceAs (Decidable (a < b))
  | some _, none => inferInstanceAs (Decidable True)
  | none, some _ => inferInstanceAs (Decidable False)
  | none, none => inferInstanceAs (Decidable False)

/-- The order of the candidates. -/
def Opportunity.before (a b : Opportunity) : Prop :=
  rankLt a.returnRank b.returnRank ∨ (a.returnRank = b.returnRank
    ∧ (b.currentApr < a.currentApr ∨ (a.currentApr = b.currentApr
      ∧ (a.exchange.name < b.exchange.name ∨ (a.exchange.name = b.exchange.name
        ∧ a.baseAsset ≤ b.baseAsset)))))

instance (a b : Opportunity) : Decidable (a.before b) :=
  inferInstanceAs (Decidable (_ ∨ (_ ∧ (_ ∨ (_ ∧ (_ ∨ (_ ∧ _)))))))

/-- `_opening_rule_candidates`. -/
def openingRuleCandidates (opportunities : List Opportunity) (positions : List AutomationPosition)
    (blockedOpenKeys : List String) : List Opportunity :=
  (opportunities.filter (satisfiesRules config now (positions.filter (·.inScope config))
    blockedOpenKeys ·)).insertionSort Opportunity.before

/-- The exposure of the positions of one exchange. -/
def exchangeExposure (positions : List AutomationPosition) (exchange : Exchange) : ℚ :=
  ((positions.filter fun p => p.isActive ∧ p.exchange = exchange).map (·.exposure)).sum

/-- The exposure of all positions. -/
def globalExposure (positions : List AutomationPosition) : ℚ :=
  ((positions.filter (·.isActive)).map (·.exposure)).sum

/-- What one trade may take, whatever is open already. -/
def tradeCap (o : Opportunity) : ℚ :=
  min config.notionalPerTrade (o.topBookNotional / config.bookCapacityMultiple)

/-- The notional of an opening trade. -/
def boundedNotional (positions : List AutomationPosition) (o : Opportunity) : ℚ :=
  min (min (tradeCap config o) (config.perExchangeMaxExposure - exchangeExposure positions o.exchange))
    (config.globalMaxExposure - globalExposure positions)

/-- The decision to open. -/
def openDecision (o : Opportunity) (notional : ℚ) : AutomaticDecision where
  action := .opening
  opportunity := o
  reason := "highest-ranked opportunity satisfies every opening rule "
    ++ "at the available bounded notional"
  notionalUsdt := some notional

/-- The opening half of `evaluate_automatic_strategy`. -/
def evaluateOpening (opportunities : List Opportunity) (positions : List AutomationPosition)
    (dailyRealizedPnl : ℚ) (blockedOpenKeys : List String) : AutomaticEvaluation :=
  match openingPortfolioBlock config positions dailyRealizedPnl with
  | some reason => { openingBlockReason := some reason }
  | none =>
      match (openingRuleCandidates config now opportunities positions blockedOpenKeys).find?
          fun o => config.minimumTwoLegNotional ≤ boundedNotional config positions o with
      | none => { openingBlockReason := some "no opportunity satisfies every opening rule" }
      | some o => { decision := some (openDecision o (boundedNotional config positions o)) }

end Opening

/-! ## §4. `evaluate_automatic_strategy`. -/

/-- `evaluate_automatic_strategy`. -/
def evaluateAutomaticStrategy (config : AutoStrategyConfig) (opportunities : List Opportunity)
    (positions : List AutomationPosition) (dailyRealizedPnl : ℚ) (blockedOpenKeys : List String)
    (now : Int) : AutomaticEvaluation :=
  let known := opportunities.filter (·.exchange ∈ config.enabledExchanges)
  let own := positions.filter (·.inScope config)
  match (own.filterMap (closeCandidate config now known)).insertionSort CloseCandidate.before with
  | first :: _ => { decision := some first.decision }
  | [] => evaluateOpening config now opportunities own dailyRealizedPnl blockedOpenKeys

variable {config : AutoStrategyConfig} {opportunities : List Opportunity}
  {positions : List AutomationPosition} {pnl : ℚ} {blocked : List String} {now : Int}
  {d : AutomaticDecision}

/-- A candidate for closing decides to close. -/
theorem closeCandidate_action {p : AutomationPosition} {c : CloseCandidate}
    (h : closeCandidate config now opportunities p = some c) : c.decision.action = .closing := by
  unfold closeCandidate at h
  split at h
  · cases h
  · obtain ⟨o, -, h⟩ := Option.bind_eq_some_iff.mp h
    split at h
    · cases h
    · split at h
      · cases h
      · obtain ⟨⟨rank, reason⟩, -, h⟩ := Option.bind_eq_some_iff.mp h
        cases h
        rfl

/-- An opening decision comes from the opening half. -/
theorem evaluate_opening
    (h : (evaluateAutomaticStrategy config opportunities positions pnl blocked now).decision = some d)
    (hopen : d.action = .opening) :
    (evaluateOpening config now opportunities (positions.filter (·.inScope config)) pnl
      blocked).decision = some d := by
  unfold evaluateAutomaticStrategy at h
  dsimp only at h
  split at h
  · next first rest hsort =>
      cases h
      have hmem : first ∈ ((positions.filter (·.inScope config)).filterMap
          (closeCandidate config now (opportunities.filter (·.exchange ∈ config.enabledExchanges)))) :=
        (List.mem_insertionSort _).mp (hsort ▸ List.mem_cons_self)
      obtain ⟨p, -, hp⟩ := List.mem_filterMap.mp hmem
      rw [closeCandidate_action hp] at hopen
      cases hopen
  · exact h

/-- An opening decision is for a candidate that satisfies the rules, at its
bounded notional, with fewer active positions than the strategy allows. -/
theorem evaluate_open
    (h : (evaluateAutomaticStrategy config opportunities positions pnl blocked now).decision = some d)
    (hopen : d.action = .opening) :
    satisfiesRules config now (positions.filter (·.inScope config)) blocked d.opportunity
      ∧ d.opportunity ∈ opportunities
      ∧ d.notionalUsdt
        = some (boundedNotional config (positions.filter (·.inScope config)) d.opportunity)
      ∧ config.minimumTwoLegNotional
        ≤ boundedNotional config (positions.filter (·.inScope config)) d.opportunity
      ∧ ((positions.filter (·.inScope config)).filter (·.isActive)).length
        < config.maxConcurrentPositions := by
  have h := evaluate_opening h hopen
  unfold evaluateOpening openingPortfolioBlock at h
  split at h
  · cases h
  · next hblock =>
      split at h
      · cases h
      · next o ho =>
          cases h
          -- Fewer positions than allowed: else the portfolio block stops the opening.
          have hcount : ((positions.filter (·.inScope config)).filter (·.isActive)).length
              < config.maxConcurrentPositions := by
            by_contra hle
            split at hblock
            · cases hblock
            · rw [if_pos (not_lt.mp hle)] at hblock
              cases hblock
          -- The candidate is in the sorted list, so it satisfies the rules.
          have hmem := List.mem_of_find?_eq_some ho
          unfold openingRuleCandidates at hmem
          obtain ⟨hin, hrules⟩ := List.mem_filter.mp ((List.mem_insertionSort _).mp hmem)
          -- Positions in scope are filtered twice.
          have hscope : (positions.filter (·.inScope config)).filter (·.inScope config)
              = positions.filter (·.inScope config) := by
            rw [List.filter_filter]
            simp
          rw [hscope] at hrules
          have hmin := List.find?_some ho
          exact ⟨of_decide_eq_true hrules, hin, rfl, of_decide_eq_true hmin, hcount⟩

end BasisHawk.Automation
