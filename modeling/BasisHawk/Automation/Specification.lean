/-
  BasisHawk.Automation.Specification
  ──────────────────────────────────
  What `evaluate_automatic_strategy` decides, said of the positions and the
  opportunities themselves (`automation.py`).

  A position is due if a closing rule fires for it, and of those that are due
  the first by rule, estimated PnL and age is closed.  Otherwise the feasible
  opportunity of the highest net return is opened, current APR, exchange and
  asset settling ties.  A net return of zero is the exception: it is sorted
  behind the negative ones.

  Main results:
    • `evaluation_meets_iff` — the evaluation is as specified exactly unless a
      zero return is passed over for a negative one,
    • `evaluation_passes_zero` — two opportunities where it is.
-/
import BasisHawk.Automation.Limits
import BasisHawk.Lib.Ranking
import Mathlib.Data.Prod.Lex
import Mathlib.Data.String.Basic
import Mathlib.Order.WithBot

namespace BasisHawk.Automation

open Domain Lib
open Paired (PositionStatus)

/-! ## §1. Orders. -/

/-- The order in which close candidates are tried is the lexicographic one on
rank, unrealized result and age. -/
theorem CloseCandidate.before_iff {a b : CloseCandidate} : a.before b
    ↔ toLex (a.rank, toLex (a.pnl, a.openedAt)) ≤ toLex (b.rank, toLex (b.pnl, b.openedAt)) := by
  unfold before
  rw [Prod.Lex.toLex_le_toLex, Prod.Lex.toLex_le_toLex]

instance : Std.Total CloseCandidate.before where
  total := fun a b => by
    rw [CloseCandidate.before_iff, CloseCandidate.before_iff]
    exact le_total _ _

instance : IsTrans CloseCandidate CloseCandidate.before where
  trans := fun a b c => by
    rw [CloseCandidate.before_iff, CloseCandidate.before_iff, CloseCandidate.before_iff]
    exact le_trans

/-- Candidates that rank the same have one key. -/
theorem CloseCandidate.before_antisymm {a b : CloseCandidate} (h : a.before b) (h' : b.before a) :
    a.rank = b.rank ∧ a.pnl = b.pnl ∧ a.openedAt = b.openedAt := by
  rw [before_iff] at h h'
  have heq := toLex.injective (le_antisymm h h')
  have hrest := toLex.injective (Prod.mk.inj heq).2
  exact ⟨(Prod.mk.inj heq).1, (Prod.mk.inj hrest).1, (Prod.mk.inj hrest).2⟩

namespace Opportunity

/-- The rank of a return, none of which is the largest. -/
def returnKey (o : Opportunity) : WithTop ℚ :=
  match o.returnRank with
  | some r => r
  | none => ⊤

/-- The sorting key. -/
def sortKey (o : Opportunity) : WithTop ℚ ×ₗ ℚ ×ₗ String ×ₗ String :=
  toLex (o.returnKey, toLex (-o.currentApr, toLex (o.exchange.name, o.baseAsset)))

/-- The comparison of two return ranks is that of their keys: a return of zero
is falsy in the source and takes the key of a missing one. -/
theorem rankLt_iff {a b : Opportunity} : rankLt a.returnRank b.returnRank ↔ a.returnKey < b.returnKey := by
  unfold returnKey
  cases a.returnRank <;> cases b.returnRank <;> simp [rankLt]

/-- Two opportunities rank alike exactly if their keys agree. -/
theorem returnRank_eq_iff {a b : Opportunity} :
    a.returnRank = b.returnRank ↔ a.returnKey = b.returnKey := by
  unfold returnKey
  cases a.returnRank <;> cases b.returnRank <;> simp

/-- The order in which opportunities are tried is the order of their sort keys.
-/
theorem before_iff {a b : Opportunity} : a.before b ↔ a.sortKey ≤ b.sortKey := by
  unfold before sortKey
  rw [Prod.Lex.toLex_le_toLex, Prod.Lex.toLex_le_toLex, Prod.Lex.toLex_le_toLex, rankLt_iff,
    returnRank_eq_iff]
  simp only [neg_lt_neg_iff, neg_inj]

instance : Std.Total before where
  total := fun a b => by
    rw [before_iff, before_iff]
    exact le_total _ _

instance : IsTrans Opportunity before where
  trans := fun a b c => by
    rw [before_iff, before_iff, before_iff]
    exact le_trans

/-- Opportunities that rank the same are of one symbol. -/
theorem before_antisymm {a b : Opportunity} (h : a.before b) (h' : b.before a) : a.key = b.key := by
  rw [before_iff] at h h'
  have hkey := toLex.injective (le_antisymm h h')
  have hrest := toLex.injective (Prod.mk.inj hkey).2
  have hsymbol := toLex.injective (Prod.mk.inj hrest).2
  unfold key symbolKey
  rw [(Prod.mk.inj hsymbol).1, (Prod.mk.inj hsymbol).2]

/-- What current APR, exchange and asset say of two opportunities. -/
def tieBefore (a b : Opportunity) : Prop :=
  b.currentApr < a.currentApr ∨ (a.currentApr = b.currentApr
    ∧ (a.exchange.name < b.exchange.name ∨ (a.exchange.name = b.exchange.name
      ∧ a.baseAsset ≤ b.baseAsset)))

/-- The higher net return comes first. -/
def Outranks (a b : Opportunity) : Prop :=
  ∃ x ∈ a.netReturn, ∃ y ∈ b.netReturn, y < x ∨ (x = y ∧ a.tieBefore b)

end Opportunity

/-- A symbol is an exchange and an asset. -/
theorem symbolKey_inj {e e' : Exchange} {b b' : String} (h : symbolKey e b = symbolKey e' b') :
    e = e' ∧ b = b' := by
  unfold symbolKey at h
  have hlist := congrArg String.toList h
  simp only [String.toList_append] at hlist
  cases e <;> cases e' <;> simp_all [Exchange.name, String.toList_inj]

/-! ## §2. Closing rules. -/

/-- The rules that close a position, in their order. -/
inductive CloseRule where
  | liquidationBuffer | stopLoss | holdingPeriod | fundingRate | netReturn | closingBasis | takeProfit
  deriving DecidableEq, Repr

namespace CloseRule

def rank : CloseRule → Nat
  | liquidationBuffer => 0
  | stopLoss => 1
  | holdingPeriod => 2
  | fundingRate => 3
  | netReturn => 4
  | closingBasis => 5
  | takeProfit => 6

def reason : CloseRule → String
  | liquidationBuffer => "liquidation buffer is below the configured minimum"
  | stopLoss => "estimated net PnL reached the stop loss"
  | holdingPeriod => "maximum holding period was reached"
  | fundingRate => "current funding rate crossed the close threshold"
  | netReturn => "estimated net return crossed the close threshold"
  | closingBasis => "executable closing basis crossed the close threshold"
  | takeProfit => "estimated net PnL reached the take profit"

/-- The rule asks for the position to be closed at these quotes. -/
def Fires (config : AutoStrategyConfig) (now : Int) (p : AutomationPosition) (o : Opportunity) :
    CloseRule → Prop
  | liquidationBuffer => ∃ buffer ∈ p.liquidationBuffer, buffer < config.minimumLiquidationBuffer
  | stopLoss => estimatedNetPnl p o ≤ -config.stopLossUsdt
  | holdingPeriod => seconds (3600 * config.maximumHoldingHours) ≤ now - p.openedAt
  | fundingRate => o.currentFundingRate < config.closeFundingRateBelow
  | netReturn => ∃ r ∈ o.netReturn, r < config.closeNetReturnBelow
  | closingBasis => config.closeBasisAbove < (o.perpAsk - o.spotBid) / o.spotBid
  | takeProfit => config.takeProfitUsdt ≤ estimatedNetPnl p o

instance (config : AutoStrategyConfig) (now : Int) (p : AutomationPosition) (o : Opportunity) :
    (rule : CloseRule) → Decidable (rule.Fires config now p o)
  | liquidationBuffer => inferInstanceAs (Decidable (∃ buffer ∈ p.liquidationBuffer, _))
  | stopLoss => inferInstanceAs (Decidable (_ ≤ _))
  | holdingPeriod => inferInstanceAs (Decidable (_ ≤ _))
  | fundingRate => inferInstanceAs (Decidable (_ < _))
  | netReturn => inferInstanceAs (Decidable (∃ r ∈ o.netReturn, _))
  | closingBasis => inferInstanceAs (Decidable (_ < _))
  | takeProfit => inferInstanceAs (Decidable (_ ≤ _))

def all : List CloseRule :=
  [liquidationBuffer, stopLoss, holdingPeriod, fundingRate, netReturn, closingBasis, takeProfit]

theorem mem_all (rule : CloseRule) : rule ∈ all := by
  cases rule <;> decide

/-- The close rules are listed by rank, so the first rule that fires is the one
of lowest rank. -/
theorem all_pairwise : all.Pairwise fun a b => a.rank < b.rank := by decide

/-- No two rules share a rank. -/
theorem rank_injective {a b : CloseRule} (h : a.rank = b.rank) : a = b := by
  cases a <;> cases b <;> simp_all [rank]

/-- The rule fires, and none before it. -/
def IsFirst (config : AutoStrategyConfig) (now : Int) (p : AutomationPosition) (o : Opportunity)
    (rule : CloseRule) : Prop :=
  rule.Fires config now p o ∧ ∀ other : CloseRule, other.Fires config now p o → rule.rank ≤ other.rank

end CloseRule

section Trigger

variable {config : AutoStrategyConfig} {now : Int} {p : AutomationPosition} {o : Opportunity}

/-- One condition of the chain. -/
theorem find_step {c : Prop} [Decidable c] (rule : CloseRule) {rules : List CloseRule}
    {rest : Option (Nat × String)} (hc : c ↔ rule.Fires config now p o)
    (hrest : rest = (rules.find? fun rule => decide (rule.Fires config now p o)).map
      fun rule => (rule.rank, rule.reason)) :
    (if c then some (rule.rank, rule.reason) else rest)
      = ((rule :: rules).find? fun rule => decide (rule.Fires config now p o)).map
        fun rule => (rule.rank, rule.reason) := by
  rw [List.find?_cons]
  by_cases h : c
  · rw [if_pos h, decide_eq_true (hc.mp h)]
    rfl
  · rw [if_neg h, decide_eq_false (fun hfires => h (hc.mpr hfires)), hrest]

/-- The chain of conditions is a search for a rule that fires. -/
theorem closeTrigger_eq : closeTrigger config now p o
    = (CloseRule.all.find? fun rule => decide (rule.Fires config now p o)).map
      fun rule => (rule.rank, rule.reason) := by
  unfold closeTrigger
  refine find_step .liquidationBuffer Iff.rfl ?_
  refine find_step .stopLoss Iff.rfl ?_
  refine find_step .holdingPeriod Iff.rfl ?_
  refine find_step .fundingRate Iff.rfl ?_
  refine find_step .netReturn Iff.rfl ?_
  refine find_step .closingBasis Iff.rfl ?_
  refine find_step .takeProfit Iff.rfl ?_
  rfl

/-- The rule that the loop stops at is the first that fires: it fires, and none
of lower rank does. -/
theorem find_rule_iff {rule : CloseRule} :
    CloseRule.all.find? (fun rule => decide (rule.Fires config now p o)) = some rule
      ↔ rule.IsFirst config now p o := by
  constructor
  · intro h
    obtain ⟨-, hfires, hfirst⟩ := find?_of_pairwise CloseRule.all_pairwise h
    refine ⟨of_decide_eq_true hfires, fun other hother => ?_⟩
    rcases hfirst other other.mem_all (decide_eq_true hother) with heq | hlt
    · rw [heq]
    · exact hlt.le
  · rintro ⟨hfires, hfirst⟩
    cases hfind : CloseRule.all.find? fun rule => decide (rule.Fires config now p o) with
    | none =>
        have := List.find?_eq_none.mp hfind rule rule.mem_all
        simp [hfires] at this
    | some found =>
        obtain ⟨-, hfound, hleast⟩ := find?_of_pairwise CloseRule.all_pairwise hfind
        rcases hleast rule rule.mem_all (decide_eq_true hfires) with heq | hlt
        · rw [heq]
        · have := hfirst found (of_decide_eq_true hfound)
          omega

/-- A position is triggered by the first rule that fires. -/
theorem closeTrigger_eq_some {k : Nat} {reason : String} :
    closeTrigger config now p o = some (k, reason)
      ↔ ∃ rule : CloseRule, rule.IsFirst config now p o ∧ rule.rank = k ∧ rule.reason = reason := by
  rw [closeTrigger_eq, Option.map_eq_some_iff]
  simp only [find_rule_iff, Prod.mk.injEq]

end Trigger

/-! ## §3. What is due, and what is feasible. -/

section Rules

variable (config : AutoStrategyConfig) (opportunities : List Opportunity)
  (positions : List AutomationPosition) (pnl : ℚ) (blocked : List String) (now : Int)

/-- The strategy's open position can be closed at the quotes of its symbol. -/
structure Closable (p : AutomationPosition) (o : Opportunity) : Prop where
  position : p ∈ positions
  scope : p.inScope config
  opened : p.status = .opened ∧ 0 < p.quantity
  opportunity : o ∈ opportunities
  symbol : o.exchange = p.exchange ∧ o.baseAsset = p.baseAsset
  tradable : tradableQuote o now
  capacity : max (p.quantity * o.spotBid) (p.quantity * o.perpAsk) ≤ o.closeTopBookNotional

/-- It can, and the rule is the first that fires. -/
structure Due (p : AutomationPosition) (o : Opportunity) (rule : CloseRule) : Prop
    extends Closable config opportunities positions now p o where
  first : rule.IsFirst config now p o

/-- The decision to close. -/
def closeDecision (p : AutomationPosition) (o : Opportunity) (rule : CloseRule) :
    AutomaticDecision where
  action := .closing
  opportunity := o
  positionId := some p.id
  reason := rule.reason
  estimatedNetPnlUsdt := some (estimatedNetPnl p o)

/-- The rank of a position that is due. -/
def dueCandidate (p : AutomationPosition) (o : Opportunity) (rule : CloseRule) : CloseCandidate where
  rank := rule.rank
  pnl := estimatedNetPnl p o
  openedAt := p.openedAt
  decision := closeDecision p o rule

/-- The daily loss and the number of positions leave room to open. -/
structure MayOpen : Prop where
  dailyLoss : -config.dailyMaxLoss < pnl
  concurrent : ((positions.filter (·.inScope config)).filter (·.isActive)).length
    < config.maxConcurrentPositions

/-- The opportunity satisfies every opening rule, with room for two legs. -/
structure Feasible (o : Opportunity) : Prop where
  listed : o ∈ opportunities
  enabled : o.exchange ∈ config.enabledExchanges
  unblocked : o.key ∉ blocked
  unheld : ∀ p ∈ positions, p.inScope config → p.isActive → p.key ≠ o.key
  tradable : tradableQuote o now
  apr24h : ∃ apr ∈ o.apr24h, config.minimumApr24h ≤ apr
  apr7d : ∃ apr ∈ o.apr7d, config.minimumApr7d ≤ apr
  netReturn : ∃ r ∈ o.netReturn, config.minimumNetReturn ≤ r
  currentApr : config.minimumCurrentApr ≤ o.currentApr
  basis : config.minimumOpeningBasis ≤ o.executableBasis
    ∧ o.executableBasis ≤ config.maximumOpeningBasis
  reentry : ∀ p ∈ positions, p.inScope config → ¬p.isActive → p.key = o.key →
    ∀ t ∈ p.closedAt, seconds (60 * config.minimumReentryMinutes) ≤ now - t
  room : config.minimumTwoLegNotional
    ≤ boundedNotional config (positions.filter (·.inScope config)) o

/-- No two positions that are due rank the same. -/
def DistinctRanks : Prop :=
  ∀ p o rule p' o' rule', Due config opportunities positions now p o rule →
    Due config opportunities positions now p' o' rule' →
    (dueCandidate p o rule).before (dueCandidate p' o' rule') →
    (dueCandidate p' o' rule').before (dueCandidate p o rule) → p = p'

/-- The evaluation is as specified. -/
structure MeetsSpecification : Prop where
  /-- A position is closed if one can be and a rule fires for it, -/
  closes : (∃ d, (evaluateAutomaticStrategy config opportunities positions pnl blocked now).decision
      = some d ∧ d.action = .closing)
    ↔ ∃ p o, Closable config opportunities positions now p o
      ∧ ∃ rule : CloseRule, rule.Fires config now p o
  /-- and it is a first one. -/
  closesFirst : ∀ d, (evaluateAutomaticStrategy config opportunities positions pnl blocked
      now).decision = some d → d.action = .closing →
    ∃ p o rule, Due config opportunities positions now p o rule ∧ d = closeDecision p o rule
      ∧ ∀ p' o' rule', Due config opportunities positions now p' o' rule' →
        (dueCandidate p o rule).before (dueCandidate p' o' rule')
  /-- Otherwise an opportunity is opened if one is feasible, -/
  opens : (∃ d, (evaluateAutomaticStrategy config opportunities positions pnl blocked now).decision
      = some d ∧ d.action = .opening)
    ↔ (¬∃ p o rule, Due config opportunities positions now p o rule) ∧ MayOpen config positions pnl
      ∧ ∃ o, Feasible config opportunities positions blocked now o
  /-- and it is the highest-ranked one, at its bounded notional. -/
  opensHighest : ∀ d, (evaluateAutomaticStrategy config opportunities positions pnl blocked
      now).decision = some d → d.action = .opening →
    ∃ o, Feasible config opportunities positions blocked now o
      ∧ d = openDecision o (boundedNotional config (positions.filter (·.inScope config)) o)
      ∧ ∀ o', Feasible config opportunities positions blocked now o' → o.Outranks o'
  /-- The order of the inputs does not matter. -/
  order : ∀ opportunities' positions', opportunities.Perm opportunities' →
    positions.Perm positions' → DistinctRanks config opportunities positions now →
    evaluateAutomaticStrategy config opportunities positions pnl blocked now
      = evaluateAutomaticStrategy config opportunities' positions' pnl blocked now

/-- A feasible opportunity of no return is passed over for one of a loss. -/
structure PassesZero : Prop where
  noneDue : ¬∃ p o rule, Due config opportunities positions now p o rule
  mayOpen : MayOpen config positions pnl
  zero : ∃ o, Feasible config opportunities positions blocked now o ∧ o.netReturn = some 0
  loss : ∃ o, Feasible config opportunities positions blocked now o ∧ ∃ r ∈ o.netReturn, r < 0
  noGain : ∀ o, Feasible config opportunities positions blocked now o → ∀ r ∈ o.netReturn, r ≤ 0

end Rules

/-! ## §4. Candidates. -/

section Candidates

variable {config : AutoStrategyConfig} {opportunities : List Opportunity}
  {positions : List AutomationPosition} {pnl : ℚ} {blocked : List String} {now : Int}

/-- The dictionary of opportunities holds those of enabled exchanges. -/
theorem find_opportunity (hkeys : (opportunities.map (·.key)).Nodup) {p : AutomationPosition}
    {o : Opportunity} :
    (opportunities.filter (·.exchange ∈ config.enabledExchanges)).reverse.find? (·.key = p.key) = some o
      ↔ o ∈ opportunities ∧ o.exchange ∈ config.enabledExchanges ∧ o.key = p.key := by
  constructor
  · intro h
    have hmem := List.mem_filter.mp (List.mem_reverse.mp (List.mem_of_find?_eq_some h))
    have hkey := List.find?_some h
    exact ⟨hmem.1, of_decide_eq_true hmem.2, of_decide_eq_true hkey⟩
  · rintro ⟨hmem, henabled, hkey⟩
    cases hfind : (opportunities.filter (·.exchange ∈ config.enabledExchanges)).reverse.find?
        (·.key = p.key) with
    | none =>
        have := List.find?_eq_none.mp hfind o
          (List.mem_reverse.mpr (List.mem_filter.mpr ⟨hmem, decide_eq_true henabled⟩))
        simp [hkey] at this
    | some o' =>
        have hmem' := List.mem_filter.mp (List.mem_reverse.mp (List.mem_of_find?_eq_some hfind))
        have hkey' : o'.key = p.key := by simpa using List.find?_some hfind
        rw [List.inj_on_of_nodup_map hkeys hmem'.1 hmem (hkey'.trans hkey.symm)]

/-- A position in scope is a candidate exactly if it is due. -/
theorem closeCandidate_eq_some (hkeys : (opportunities.map (·.key)).Nodup) {p : AutomationPosition}
    (hp : p ∈ positions) (hscope : p.inScope config) {c : CloseCandidate} :
    closeCandidate config now (opportunities.filter (·.exchange ∈ config.enabledExchanges)) p = some c
      ↔ ∃ o rule, Due config opportunities positions now p o rule ∧ c = dueCandidate p o rule := by
  constructor
  · intro h
    -- The guards of `_close_candidate`, one after the other.
    unfold closeCandidate at h
    by_cases hopen : p.status ≠ .opened ∨ p.quantity ≤ 0
    · rw [if_pos hopen] at h
      cases h
    · rw [if_neg hopen] at h
      rw [not_or, not_not, not_le] at hopen
      obtain ⟨o, ho, h⟩ := Option.bind_eq_some_iff.mp h
      obtain ⟨hmem, -, hkey⟩ := (find_opportunity hkeys).mp ho
      by_cases htradable : tradableQuote o now
      · rw [if_neg (not_not.mpr htradable)] at h
        by_cases hcapacity : o.closeTopBookNotional < max (p.quantity * o.spotBid) (p.quantity * o.perpAsk)
        · rw [if_pos hcapacity] at h
          cases h
        · rw [if_neg hcapacity] at h
          obtain ⟨⟨k, reason⟩, htrigger, h⟩ := Option.bind_eq_some_iff.mp h
          obtain ⟨rule, hfirst, rfl, rfl⟩ := closeTrigger_eq_some.mp htrigger
          cases h
          exact ⟨o, rule, ⟨⟨hp, hscope, hopen, hmem, symbolKey_inj hkey, htradable,
            not_lt.mp hcapacity⟩, hfirst⟩, rfl⟩
      · rw [if_pos htradable] at h
        cases h
  · rintro ⟨o, rule, h, rfl⟩
    -- And back: each guard is met by what a due close is.
    have hopen : ¬(p.status ≠ .opened ∨ p.quantity ≤ 0) := by
      rw [not_or, not_not, not_le]
      exact h.opened
    have henabled : o.exchange ∈ config.enabledExchanges := by
      rw [h.symbol.1]
      exact hscope.2
    have hkey : o.key = p.key := by
      unfold Opportunity.key AutomationPosition.key
      rw [h.symbol.1, h.symbol.2]
    have htrigger : closeTrigger config now p o = some (rule.rank, rule.reason) :=
      closeTrigger_eq_some.mpr ⟨rule, h.first, rfl, rfl⟩
    unfold closeCandidate
    rw [if_neg hopen, (find_opportunity hkeys).mpr ⟨h.opportunity, henabled, hkey⟩]
    show (if ¬tradableQuote o now then none else _) = _
    rw [if_neg (not_not.mpr h.tradable), if_neg (not_lt.mpr h.capacity), htrigger]
    rfl

/-- If a rule fires, one fires first. -/
theorem exists_due_iff : (∃ p o rule, Due config opportunities positions now p o rule)
    ↔ ∃ p o, Closable config opportunities positions now p o
      ∧ ∃ rule : CloseRule, rule.Fires config now p o := by
  constructor
  · rintro ⟨p, o, rule, hdue⟩
    exact ⟨p, o, hdue.toClosable, rule, hdue.first.1⟩
  · rintro ⟨p, o, hclosable, rule, hfires⟩
    cases hfind : CloseRule.all.find? fun rule => decide (rule.Fires config now p o) with
    | none =>
        have := List.find?_eq_none.mp hfind rule rule.mem_all
        simp [hfires] at this
    | some first => exact ⟨p, o, first, hclosable, find_rule_iff.mp hfind⟩

variable (config opportunities positions now) in
/-- The candidates of a pass. -/
def closeCandidates : List CloseCandidate :=
  (positions.filter (·.inScope config)).filterMap
    (closeCandidate config now (opportunities.filter (·.exchange ∈ config.enabledExchanges)))

/-- The candidates are exactly the due closes: a position in scope, its
opportunity and the first rule that fires for them. -/
theorem mem_closeCandidates (hkeys : (opportunities.map (·.key)).Nodup) {c : CloseCandidate} :
    c ∈ closeCandidates config opportunities positions now
      ↔ ∃ p o rule, Due config opportunities positions now p o rule ∧ c = dueCandidate p o rule := by
  unfold closeCandidates
  rw [List.mem_filterMap]
  constructor
  · rintro ⟨p, hp, h⟩
    obtain ⟨hmem, hscope⟩ := List.mem_filter.mp hp
    obtain ⟨o, rule, hdue, rfl⟩ :=
      (closeCandidate_eq_some hkeys hmem (of_decide_eq_true hscope)).mp h
    exact ⟨p, o, rule, hdue, rfl⟩
  · rintro ⟨p, o, rule, hdue, rfl⟩
    exact ⟨p, List.mem_filter.mpr ⟨hdue.position, decide_eq_true hdue.scope⟩,
      (closeCandidate_eq_some hkeys hdue.position hdue.scope).mpr ⟨o, rule, hdue, rfl⟩⟩

/-- An evaluation closes the first candidate, and opens if there is none. -/
theorem evaluate_eq :
    evaluateAutomaticStrategy config opportunities positions pnl blocked now
      = match best CloseCandidate.before (fun _ => true)
          (closeCandidates config opportunities positions now) with
        | some c => { decision := some c.decision }
        | none => evaluateOpening config now opportunities (positions.filter (·.inScope config)) pnl
            blocked := by
  unfold evaluateAutomaticStrategy best closeCandidates
  dsimp only
  cases ((positions.filter (·.inScope config)).filterMap (closeCandidate config now
      (opportunities.filter (·.exchange ∈ config.enabledExchanges)))).insertionSort
      CloseCandidate.before with
  | nil => rfl
  | cons first rest => rfl

/-- The rules of an opening are satisfied by the feasible opportunities, room
apart. -/
theorem satisfiesRules_iff {o : Opportunity} :
    (o ∈ opportunities
        ∧ satisfiesRules config now (positions.filter (·.inScope config)) blocked o
        ∧ config.minimumTwoLegNotional
          ≤ boundedNotional config (positions.filter (·.inScope config)) o)
      ↔ Feasible config opportunities positions blocked now o := by
  -- The last close is long enough ago exactly if every close is.
  have hclosed : (∀ t ∈ lastClosed (positions.filter (·.inScope config)) o.key,
        seconds (60 * config.minimumReentryMinutes) ≤ now - t)
      ↔ ∀ p ∈ positions, p.inScope config → ¬p.isActive → p.key = o.key → ∀ t ∈ p.closedAt,
        seconds (60 * config.minimumReentryMinutes) ≤ now - t := by
    unfold lastClosed
    constructor
    · intro h p hp hscope hactive hkey t ht
      have hmem : t ∈ ((positions.filter (·.inScope config)).filter
          fun p => p.key = o.key ∧ ¬p.isActive).filterMap (·.closedAt) :=
        List.mem_filterMap.mpr ⟨p, List.mem_filter.mpr ⟨List.mem_filter.mpr
          ⟨hp, decide_eq_true hscope⟩, decide_eq_true ⟨hkey, hactive⟩⟩, ht⟩
      cases hmax : (((positions.filter (·.inScope config)).filter
          fun p => p.key = o.key ∧ ¬p.isActive).filterMap (·.closedAt)).max? with
      | none =>
          rw [List.max?_eq_none_iff.mp hmax] at hmem
          cases hmem
      | some last =>
          have hle := (List.max?_eq_some_iff.mp hmax).2 t hmem
          have := h last hmax
          omega
    · intro h t ht
      obtain ⟨p, hp, hclosed⟩ := List.mem_filterMap.mp (List.max?_mem ht)
      obtain ⟨hin, hsymbol⟩ := List.mem_filter.mp hp
      obtain ⟨hmem, hscope⟩ := List.mem_filter.mp hin
      obtain ⟨hkey, hactive⟩ := of_decide_eq_true hsymbol
      exact h p hmem (of_decide_eq_true hscope) hactive hkey t hclosed
  -- A filter over the positions in scope is a condition on them.
  have hheld : (∀ p ∈ positions.filter (·.inScope config), p.isActive → p.key ≠ o.key)
      ↔ ∀ p ∈ positions, p.inScope config → p.isActive → p.key ≠ o.key := by
    simp only [List.mem_filter, decide_eq_true_eq, and_imp]
  unfold satisfiesRules
  rw [hclosed, hheld]
  constructor
  · rintro ⟨hmem, ⟨h₁, h₂, h₃, h₄, h₅, h₆, h₇, h₈, h₉, h₁₀, h₁₁⟩, hroom⟩
    exact ⟨hmem, h₁, h₂, h₃, h₄, h₅, h₆, h₇, h₈, ⟨h₉, h₁₀⟩, h₁₁, hroom⟩
  · intro h
    exact ⟨h.listed, ⟨h.enabled, h.unblocked, h.unheld, h.tradable, h.apr24h, h.apr7d, h.netReturn,
      h.currentApr, h.basis.1, h.basis.2, h.reentry⟩, h.room⟩

variable (config opportunities positions blocked now) in
/-- The opportunity that is opened, if any may be. -/
def chosen : Option Opportunity :=
  best Opportunity.before
    (fun o => decide (config.minimumTwoLegNotional
      ≤ boundedNotional config (positions.filter (·.inScope config)) o))
    (opportunities.filter fun o =>
      satisfiesRules config now (positions.filter (·.inScope config)) blocked o)

/-- The chosen opportunity is feasible and comes before every other feasible
one. -/
theorem chosen_eq_some {o : Opportunity}
    (h : chosen config opportunities positions blocked now = some o) :
    Feasible config opportunities positions blocked now o
      ∧ ∀ o', Feasible config opportunities positions blocked now o' → o.before o' := by
  obtain ⟨hmem, hroom, hleast⟩ := best_eq_some h
  obtain ⟨hlisted, hrules⟩ := List.mem_filter.mp hmem
  refine ⟨satisfiesRules_iff.mp ⟨hlisted, of_decide_eq_true hrules, of_decide_eq_true hroom⟩, ?_⟩
  intro o' ho'
  obtain ⟨hlisted', hrules', hroom'⟩ := satisfiesRules_iff.mpr ho'
  exact hleast o' (List.mem_filter.mpr ⟨hlisted', decide_eq_true hrules'⟩) (decide_eq_true hroom')

/-- Nothing is chosen exactly if nothing is feasible. -/
theorem chosen_eq_none : chosen config opportunities positions blocked now = none
    ↔ ∀ o, ¬Feasible config opportunities positions blocked now o := by
  unfold chosen
  rw [best_eq_none]
  constructor
  · intro h o ho
    obtain ⟨hlisted, hrules, hroom⟩ := satisfiesRules_iff.mpr ho
    have := h o (List.mem_filter.mpr ⟨hlisted, decide_eq_true hrules⟩)
    exact of_decide_eq_false this hroom
  · intro h o ho
    obtain ⟨hlisted, hrules⟩ := List.mem_filter.mp ho
    refine decide_eq_false fun hroom => h o (satisfiesRules_iff.mp ?_)
    exact ⟨hlisted, of_decide_eq_true hrules, hroom⟩

/-- The portfolio blocks no opening exactly if every one of its limits leaves
room. -/
theorem openingPortfolioBlock_eq_none :
    openingPortfolioBlock config (positions.filter (·.inScope config)) pnl = none
      ↔ MayOpen config positions pnl := by
  unfold openingPortfolioBlock
  constructor
  · intro h
    refine ⟨?_, ?_⟩
    · by_contra hloss
      rw [if_pos (not_lt.mp hloss)] at h
      cases h
    · by_contra hcount
      split at h
      · cases h
      · rw [if_pos (not_lt.mp hcount)] at h
        cases h
  · intro h
    rw [if_neg (not_le.mpr h.dailyLoss), if_neg (not_le.mpr h.concurrent)]

/-- The opening half opens what is chosen, if it may. -/
theorem evaluateOpening_eq :
    evaluateOpening config now opportunities (positions.filter (·.inScope config)) pnl blocked
      = match openingPortfolioBlock config (positions.filter (·.inScope config)) pnl with
        | some reason => { openingBlockReason := some reason }
        | none => match chosen config opportunities positions blocked now with
          | none => { openingBlockReason := some "no opportunity satisfies every opening rule" }
          | some o => {
            decision := some (openDecision o
              (boundedNotional config (positions.filter (·.inScope config)) o)) } := by
  have hscope : (positions.filter (·.inScope config)).filter (·.inScope config)
      = positions.filter (·.inScope config) := by
    rw [List.filter_filter]
    simp
  unfold evaluateOpening openingRuleCandidates chosen best
  rw [hscope] <;> rfl

/-- The decision to open: the portfolio leaves room, and the opportunity is the
one chosen, at the bounded notional. -/
theorem evaluateOpening_decision {d : AutomaticDecision} :
    (evaluateOpening config now opportunities (positions.filter (·.inScope config)) pnl
        blocked).decision = some d
      ↔ MayOpen config positions pnl ∧ ∃ o, chosen config opportunities positions blocked now = some o
        ∧ d = openDecision o (boundedNotional config (positions.filter (·.inScope config)) o) := by
  rw [evaluateOpening_eq, ← openingPortfolioBlock_eq_none]
  cases openingPortfolioBlock config (positions.filter (·.inScope config)) pnl with
  | some reason => simp
  | none =>
      cases chosen config opportunities positions blocked now with
      | none => simp
      | some o => simp [eq_comm]

/-- An evaluation closes a candidate, or there is none and it opens. -/
theorem evaluate_cases :
    (∃ c, best CloseCandidate.before (fun _ => true)
          (closeCandidates config opportunities positions now) = some c
        ∧ evaluateAutomaticStrategy config opportunities positions pnl blocked now
          = { decision := some c.decision })
      ∨ (best CloseCandidate.before (fun _ => true)
          (closeCandidates config opportunities positions now) = none
        ∧ evaluateAutomaticStrategy config opportunities positions pnl blocked now
          = evaluateOpening config now opportunities (positions.filter (·.inScope config)) pnl
            blocked) := by
  rw [evaluate_eq]
  cases best CloseCandidate.before (fun _ => true)
      (closeCandidates config opportunities positions now) with
  | none => exact .inr ⟨rfl, rfl⟩
  | some c => exact .inl ⟨c, rfl, rfl⟩

/-- There is no best candidate exactly if nothing is due. -/
theorem none_due_iff (hkeys : (opportunities.map (·.key)).Nodup) :
    best CloseCandidate.before (fun _ => true)
        (closeCandidates config opportunities positions now) = none
      ↔ ¬∃ p o rule, Due config opportunities positions now p o rule := by
  rw [best_eq_none]
  constructor
  · rintro h ⟨p, o, rule, hdue⟩
    exact absurd (h _ ((mem_closeCandidates hkeys).mpr ⟨p, o, rule, hdue, rfl⟩)) (by decide)
  · intro h c hc
    obtain ⟨p, o, rule, hdue, -⟩ := (mem_closeCandidates hkeys).mp hc
    exact absurd ⟨p, o, rule, hdue⟩ h

end Candidates

/-! ## §5. The order of the inputs. -/

section Order

variable {config : AutoStrategyConfig} {opportunities opportunities' : List Opportunity}
  {positions positions' : List AutomationPosition} {pnl : ℚ} {blocked : List String} {now : Int}

/-- The candidate of a position does not depend on the order in which the
opportunities are listed. -/
theorem closeCandidate_perm (hkeys : (opportunities.map (·.key)).Nodup)
    (h : opportunities.Perm opportunities') (p : AutomationPosition) :
    closeCandidate config now (opportunities.filter (·.exchange ∈ config.enabledExchanges)) p
      = closeCandidate config now (opportunities'.filter (·.exchange ∈ config.enabledExchanges)) p := by
  have hkeys' : (opportunities'.map (·.key)).Nodup := (h.map _).nodup_iff.mp hkeys
  have hfind : (opportunities.filter (·.exchange ∈ config.enabledExchanges)).reverse.find?
        (·.key = p.key)
      = (opportunities'.filter (·.exchange ∈ config.enabledExchanges)).reverse.find?
        (·.key = p.key) := by
    refine Option.ext fun o => ?_
    rw [find_opportunity hkeys, find_opportunity hkeys', h.mem_iff]
  unfold closeCandidate
  rw [hfind]

/-- Positions that are due and rank apart are closed in one order. -/
theorem best_closeCandidates_perm (hkeys : (opportunities.map (·.key)).Nodup)
    (h : opportunities.Perm opportunities') (hp : positions.Perm positions')
    (hdistinct : DistinctRanks config opportunities positions now) :
    best CloseCandidate.before (fun _ => true) (closeCandidates config opportunities positions now)
      = best CloseCandidate.before (fun _ => true)
        (closeCandidates config opportunities' positions' now) := by
  have hperm : (closeCandidates config opportunities positions now).Perm
      (closeCandidates config opportunities' positions' now) := by
    unfold closeCandidates
    rw [funext (@closeCandidate_perm config _ _ now hkeys h)]
    exact (hp.filter _).filterMap _
  refine best_perm hperm fun a ha b hb _ _ hab hba => ?_
  obtain ⟨p, o, rule, hdue, rfl⟩ := (mem_closeCandidates hkeys).mp ha
  obtain ⟨p', o', rule', hdue', rfl⟩ := (mem_closeCandidates hkeys).mp hb
  obtain rfl := hdistinct p o rule p' o' rule' hdue hdue' hab hba
  have hkey : o.key = o'.key := by
    unfold Opportunity.key
    rw [hdue.symbol.1, hdue.symbol.2, hdue'.symbol.1, hdue'.symbol.2]
  obtain rfl := List.inj_on_of_nodup_map hkeys hdue.opportunity hdue'.opportunity hkey
  have hrank : rule.rank = rule'.rank :=
    le_antisymm (hdue.first.2 rule' hdue'.first.1) (hdue'.first.2 rule hdue.first.1)
  rw [CloseRule.rank_injective hrank]

/-- The bounded notional does not depend on the order of the positions. -/
theorem boundedNotional_perm (hp : positions.Perm positions') (o : Opportunity) :
    boundedNotional config (positions.filter (·.inScope config)) o
      = boundedNotional config (positions'.filter (·.inScope config)) o := by
  have hscope := hp.filter (·.inScope config)
  have hexchange : exchangeExposure (positions.filter (·.inScope config)) o.exchange
      = exchangeExposure (positions'.filter (·.inScope config)) o.exchange :=
    ((hscope.filter _).map _).sum_eq
  have hglobal : globalExposure (positions.filter (·.inScope config))
      = globalExposure (positions'.filter (·.inScope config)) :=
    ((hscope.filter _).map _).sum_eq
  unfold boundedNotional
  rw [hexchange, hglobal]

theorem Feasible.perm {o : Opportunity} (h : opportunities.Perm opportunities')
    (hp : positions.Perm positions') (ho : Feasible config opportunities positions blocked now o) :
    Feasible config opportunities' positions' blocked now o where
  listed := h.mem_iff.mp ho.listed
  enabled := ho.enabled
  unblocked := ho.unblocked
  unheld := fun p hmem => ho.unheld p (hp.mem_iff.mpr hmem)
  tradable := ho.tradable
  apr24h := ho.apr24h
  apr7d := ho.apr7d
  netReturn := ho.netReturn
  currentApr := ho.currentApr
  basis := ho.basis
  reentry := fun p hmem => ho.reentry p (hp.mem_iff.mpr hmem)
  room := by
    rw [← boundedNotional_perm hp]
    exact ho.room

/-- The choice does not depend on the order of the listings: keys are distinct,
so the first of a rank is the only one. -/
theorem chosen_perm (hkeys : (opportunities.map (·.key)).Nodup)
    (h : opportunities.Perm opportunities') (hp : positions.Perm positions') :
    chosen config opportunities positions blocked now
      = chosen config opportunities' positions' blocked now := by
  cases hchosen : chosen config opportunities positions blocked now with
  | none =>
      rw [chosen_eq_none] at hchosen
      exact (chosen_eq_none.mpr fun o ho => hchosen o (ho.perm h.symm hp.symm)).symm
  | some o =>
      obtain ⟨ho, hfirst⟩ := chosen_eq_some hchosen
      cases hchosen' : chosen config opportunities' positions' blocked now with
      | none => exact absurd (ho.perm h hp) (chosen_eq_none.mp hchosen' o)
      | some o' =>
          obtain ⟨ho', hfirst'⟩ := chosen_eq_some hchosen'
          have hback := ho'.perm h.symm hp.symm
          have hkey := Opportunity.before_antisymm (hfirst o' hback) (hfirst' o (ho.perm h hp))
          rw [List.inj_on_of_nodup_map hkeys ho.listed hback.listed hkey]

/-- The whole evaluation depends on the listings as sets, where no two due
closes rank alike. -/
theorem evaluate_perm (hkeys : (opportunities.map (·.key)).Nodup)
    (h : opportunities.Perm opportunities') (hp : positions.Perm positions')
    (hdistinct : DistinctRanks config opportunities positions now) :
    evaluateAutomaticStrategy config opportunities positions pnl blocked now
      = evaluateAutomaticStrategy config opportunities' positions' pnl blocked now := by
  have hblock : openingPortfolioBlock config (positions.filter (·.inScope config)) pnl
      = openingPortfolioBlock config (positions'.filter (·.inScope config)) pnl := by
    unfold openingPortfolioBlock
    rw [((hp.filter _).filter _).length_eq]
  rw [evaluate_eq, evaluate_eq, best_closeCandidates_perm hkeys h hp hdistinct, evaluateOpening_eq,
    evaluateOpening_eq, hblock, chosen_perm hkeys h hp]
  simp only [boundedNotional_perm hp]

end Order

/-! ## §6. The specification. -/

section Specification

variable {config : AutoStrategyConfig} {opportunities : List Opportunity}
  {positions : List AutomationPosition} {pnl : ℚ} {blocked : List String} {now : Int}

/-- A decision to close is for a first position of those that are due. -/
theorem closing_decision (hkeys : (opportunities.map (·.key)).Nodup) {d : AutomaticDecision}
    (hd : (evaluateAutomaticStrategy config opportunities positions pnl blocked now).decision = some d)
    (hact : d.action = .closing) :
    ∃ p o rule, Due config opportunities positions now p o rule ∧ d = closeDecision p o rule
      ∧ ∀ p' o' rule', Due config opportunities positions now p' o' rule' →
        (dueCandidate p o rule).before (dueCandidate p' o' rule') := by
  rcases @evaluate_cases config opportunities positions pnl blocked now with ⟨c, hbest, heq⟩ | ⟨-, heq⟩
  · rw [heq] at hd
    cases hd
    obtain ⟨hmem, -, hfirst⟩ := best_eq_some hbest
    obtain ⟨p, o, rule, hdue, rfl⟩ := (mem_closeCandidates hkeys).mp hmem
    refine ⟨p, o, rule, hdue, rfl, fun p' o' rule' hdue' => ?_⟩
    exact hfirst _ ((mem_closeCandidates hkeys).mpr ⟨p', o', rule', hdue', rfl⟩) rfl
  · rw [heq, evaluateOpening_decision] at hd
    obtain ⟨-, o, -, rfl⟩ := hd
    cases hact

/-- A decision to open is for what is chosen, with nothing due. -/
theorem opening_decision (hkeys : (opportunities.map (·.key)).Nodup) {d : AutomaticDecision} :
    ((evaluateAutomaticStrategy config opportunities positions pnl blocked now).decision = some d
        ∧ d.action = .opening)
      ↔ (¬∃ p o rule, Due config opportunities positions now p o rule) ∧ MayOpen config positions pnl
        ∧ ∃ o, chosen config opportunities positions blocked now = some o
          ∧ d = openDecision o (boundedNotional config (positions.filter (·.inScope config)) o) := by
  rcases @evaluate_cases config opportunities positions pnl blocked now with
    ⟨c, hbest, heq⟩ | ⟨hbest, heq⟩
  · rw [heq, ← none_due_iff hkeys, hbest]
    constructor
    · rintro ⟨hd, hact⟩
      cases hd
      obtain ⟨p, o, rule, -, rfl⟩ := (mem_closeCandidates hkeys).mp (best_eq_some hbest).1
      cases hact
    · rintro ⟨hnone, -⟩
      cases hnone
  · rw [heq, evaluateOpening_decision, ← none_due_iff hkeys]
    constructor
    · rintro ⟨⟨hmay, ho⟩, -⟩
      exact ⟨hbest, hmay, ho⟩
    · rintro ⟨-, hmay, o, ho, rfl⟩
      exact ⟨⟨hmay, o, ho, rfl⟩, rfl⟩

/-- A pass decides to close exactly if a close is due. -/
theorem evaluation_closes (hkeys : (opportunities.map (·.key)).Nodup) :
    (∃ d, (evaluateAutomaticStrategy config opportunities positions pnl blocked now).decision
        = some d ∧ d.action = .closing)
      ↔ ∃ p o rule, Due config opportunities positions now p o rule := by
  constructor
  · rintro ⟨d, hd, hact⟩
    obtain ⟨p, o, rule, hdue, -, -⟩ := closing_decision hkeys hd hact
    exact ⟨p, o, rule, hdue⟩
  · intro hsome
    rcases @evaluate_cases config opportunities positions pnl blocked now with
      ⟨c, hbest, heq⟩ | ⟨hbest, -⟩
    · obtain ⟨p, o, rule, -, rfl⟩ := (mem_closeCandidates hkeys).mp (best_eq_some hbest).1
      exact ⟨_, by rw [heq], rfl⟩
    · exact absurd hsome ((none_due_iff hkeys).mp hbest)

/-- A pass decides to open exactly if nothing is due, the portfolio leaves room
and something is feasible: closing has priority. -/
theorem evaluation_opens (hkeys : (opportunities.map (·.key)).Nodup) :
    (∃ d, (evaluateAutomaticStrategy config opportunities positions pnl blocked now).decision
        = some d ∧ d.action = .opening)
      ↔ (¬∃ p o rule, Due config opportunities positions now p o rule) ∧ MayOpen config positions pnl
        ∧ ∃ o, Feasible config opportunities positions blocked now o := by
  constructor
  · rintro ⟨d, hd⟩
    obtain ⟨hnone, hmay, o, ho, -⟩ := (opening_decision hkeys).mp hd
    exact ⟨hnone, hmay, o, (chosen_eq_some ho).1⟩
  · rintro ⟨hnone, hmay, o, ho⟩
    cases hchosen : chosen config opportunities positions blocked now with
    | none => exact absurd ho (chosen_eq_none.mp hchosen o)
    | some o' => exact ⟨_, (opening_decision hkeys).mpr ⟨hnone, hmay, o', hchosen, rfl⟩⟩

/-- A return other than zero ranks by its size. -/
theorem Opportunity.returnRank_some {o : Opportunity} {x : ℚ} (h : o.netReturn = some x) (hx : x ≠ 0) :
    o.returnRank = some (-x) := by
  unfold returnRank
  rw [h]
  exact if_neg hx

/-- A return of zero ranks last. -/
theorem Opportunity.returnRank_zero {o : Opportunity} (h : o.netReturn = some 0) :
    o.returnRank = none := by
  unfold returnRank
  rw [h]
  rfl

/-- The sorted order of two returns, if the first is not a loss beside a zero. -/
theorem Opportunity.before_outranks {a b : Opportunity} {x y : ℚ} (ha : a.netReturn = some x)
    (hb : b.netReturn = some y) (h : a.before b) (hloss : x < 0 → y ≠ 0) : a.Outranks b := by
  refine ⟨x, ha, y, hb, ?_⟩
  by_cases hx : x = 0
  · subst hx
    by_cases hy : y = 0
    · rcases h with hlt | ⟨-, htie⟩
      · rw [returnRank_zero ha, returnRank_zero (hy ▸ hb)] at hlt
        cases hlt
      · exact .inr ⟨hy.symm, htie⟩
    · rw [Opportunity.before, returnRank_zero ha, returnRank_some hb hy] at h
      rcases h with hlt | ⟨heq, -⟩
      · cases hlt
      · cases heq
  · by_cases hy : y = 0
    · have : ¬x < 0 := fun hneg => hloss hneg hy
      refine .inl ?_
      rw [hy]
      exact lt_of_le_of_ne (not_lt.mp this) (Ne.symm hx)
    · rw [Opportunity.before, returnRank_some ha hx, returnRank_some hb hy] at h
      rcases h with hlt | ⟨heq, htie⟩
      · exact .inl (neg_lt_neg_iff.mp hlt)
      · exact .inr ⟨neg_inj.mp (Option.some.inj heq), htie⟩

/-- What is chosen ranks highest exactly unless a zero is passed over. -/
theorem chosen_highest_iff {o : Opportunity}
    (h : chosen config opportunities positions blocked now = some o) :
    (∀ o', Feasible config opportunities positions blocked now o' → o.Outranks o')
      ↔ ¬((∃ z, Feasible config opportunities positions blocked now z ∧ z.netReturn = some 0)
        ∧ (∃ l, Feasible config opportunities positions blocked now l ∧ ∃ r ∈ l.netReturn, r < 0)
        ∧ ∀ g, Feasible config opportunities positions blocked now g → ∀ r ∈ g.netReturn, r ≤ 0) := by
  obtain ⟨ho, hfirst⟩ := chosen_eq_some h
  obtain ⟨x, hx, -⟩ := ho.netReturn
  constructor
  · rintro hhighest ⟨⟨z, hz, hzero⟩, ⟨l, hl, r, hr, hneg⟩, hnone⟩
    -- A loss is chosen before the zero.
    have hxne : x ≠ 0 := by
      rintro rfl
      have hbefore := hfirst l hl
      rw [Opportunity.before, Opportunity.returnRank_zero hx,
        Opportunity.returnRank_some hr hneg.ne] at hbefore
      rcases hbefore with hlt | ⟨heq, -⟩
      · cases hlt
      · cases heq
    have hxneg : x < 0 := lt_of_le_of_ne (hnone o ho x hx) hxne
    obtain ⟨x', hx', y, hy, hrank⟩ := hhighest z hz
    rw [hx] at hx'
    rw [hzero] at hy
    cases hx'
    cases hy
    rcases hrank with hlt | ⟨heq, -⟩
    · exact absurd hlt hxneg.le.not_gt
    · exact hxne heq
  · intro hnot o' ho'
    obtain ⟨y, hy, -⟩ := ho'.netReturn
    refine Opportunity.before_outranks hx hy (hfirst o' ho') fun hneg hyzero => hnot ?_
    refine ⟨⟨o', ho', hyzero ▸ hy⟩, ⟨o, ho, x, hx, hneg⟩, fun g hg r hr => ?_⟩
    -- A gain would have been chosen before the loss.
    by_contra hpos
    have hbefore := hfirst g hg
    rw [Opportunity.before, Opportunity.returnRank_some hx hneg.ne,
      Opportunity.returnRank_some hr (not_le.mp hpos).ne'] at hbefore
    rcases hbefore with hlt | ⟨heq, -⟩
    · have : r < x := neg_lt_neg_iff.mp hlt
      linarith
    · have : x = r := neg_inj.mp (Option.some.inj heq)
      linarith

/-- The evaluation is as specified exactly unless it passes over a zero return
for a loss. -/
theorem evaluation_meets_iff (hkeys : (opportunities.map (·.key)).Nodup) :
    MeetsSpecification config opportunities positions pnl blocked now
      ↔ ¬PassesZero config opportunities positions pnl blocked now := by
  constructor
  · intro h hpass
    obtain ⟨z, hz, -⟩ := hpass.zero
    obtain ⟨d, hd, hact⟩ := h.opens.mpr ⟨hpass.noneDue, hpass.mayOpen, z, hz⟩
    obtain ⟨-, -, o, ho, hdo⟩ := (opening_decision hkeys).mp ⟨hd, hact⟩
    obtain ⟨o', -, hdo', hhighest⟩ := h.opensHighest d hd hact
    obtain rfl : o = o' := congrArg AutomaticDecision.opportunity (hdo.symm.trans hdo')
    exact (chosen_highest_iff ho).mp hhighest ⟨hpass.zero, hpass.loss, hpass.noGain⟩
  · intro hnot
    refine ⟨(evaluation_closes hkeys).trans exists_due_iff, fun d => closing_decision hkeys,
      evaluation_opens hkeys, ?_, fun _ _ h hp hdistinct => evaluate_perm hkeys h hp hdistinct⟩
    intro d hd hact
    obtain ⟨hnone, hmay, o, ho, rfl⟩ := (opening_decision hkeys).mp ⟨hd, hact⟩
    refine ⟨o, (chosen_eq_some ho).1, rfl, (chosen_highest_iff ho).mpr ?_⟩
    rintro ⟨hzero, hloss, hgain⟩
    exact hnot ⟨hnone, hmay, hzero, hloss, hgain⟩

end Specification

namespace Sample

/-- A strategy that takes losses up to one percent. -/
def lossConfig : AutoStrategyConfig :=
  { config with minimumNetReturn := -1 / 100 }

/-- An opportunity of this net return. -/
def returning (baseAsset : String) (r : ℚ) : Opportunity :=
  { opportunity baseAsset with netReturn := some r }

/-- A position of one coin that has been open for a day. -/
def dayOld : AutomationPosition where
  id := 7
  exchange := .binance
  environment := .sandbox
  baseAsset := "AAA"
  quantity := 1
  spotEntryPrice := 100
  perpEntryPrice := 100
  remainingOpeningFeesUsdt := 0
  status := .opened
  openedAt := -seconds 86400
  closedAt := none
  liquidationBuffer := none

end Sample

/-- Without positions, the one of a loss is opened before the one of no
return. -/
theorem evaluation_passes_zero :
    ((evaluateAutomaticStrategy Sample.lossConfig
          [Sample.returning "AAA" 0, Sample.returning "BBB" (-1 / 1000)] [] 0 [] 0).decision.map
        fun d => d.opportunity.baseAsset) = some "BBB"
      ∧ ¬MeetsSpecification Sample.lossConfig
        [Sample.returning "AAA" 0, Sample.returning "BBB" (-1 / 1000)] [] 0 [] 0 := by
  have hopened : (evaluateAutomaticStrategy Sample.lossConfig
      [Sample.returning "AAA" 0, Sample.returning "BBB" (-1 / 1000)] [] 0 [] 0).decision.map
        (fun d => d.opportunity) = some (Sample.returning "BBB" (-1 / 1000)) := by decide +kernel
  have haction : (evaluateAutomaticStrategy Sample.lossConfig
      [Sample.returning "AAA" 0, Sample.returning "BBB" (-1 / 1000)] [] 0 [] 0).decision.map
        (fun d => d.action) = some .opening := by decide +kernel
  refine ⟨by decide +kernel, fun h => ?_⟩
  -- The opportunity without return is feasible too.
  have hfeasible : Feasible Sample.lossConfig
      [Sample.returning "AAA" 0, Sample.returning "BBB" (-1 / 1000)] [] [] 0
      (Sample.returning "AAA" 0) :=
    satisfiesRules_iff.mp (by decide +kernel)
  obtain ⟨d, hd, hdo⟩ := Option.map_eq_some_iff.mp hopened
  rw [hd] at haction
  obtain ⟨o, -, hdo', hhighest⟩ := h.opensHighest d hd (Option.some.inj haction)
  have ho : o = Sample.returning "BBB" (-1 / 1000) := by
    rw [← hdo, hdo']
    rfl
  -- So it would have to be ranked below a loss.
  obtain ⟨x, hx, y, hy, hrank⟩ := hhighest _ hfeasible
  rw [ho] at hx
  cases hx
  cases hy
  rcases hrank with hlt | ⟨heq, -⟩
  · revert hlt
    decide +kernel
  · revert heq
    decide +kernel

/-- A position of one coin that has been held for its full day is closed, although an
opportunity could be opened, and without a position one is opened: both as
specified. -/
theorem evaluation_meets_returns :
    ((evaluateAutomaticStrategy Sample.config [Sample.opportunity "AAA", Sample.opportunity "BBB"]
          [Sample.dayOld] 0 [] 0).decision.map fun d => (d.action, d.positionId)) = some (.closing, some 7)
      ∧ MeetsSpecification Sample.config [Sample.opportunity "AAA", Sample.opportunity "BBB"]
        [Sample.dayOld] 0 [] 0
      ∧ (MeetsSpecification Sample.config [Sample.opportunity "AAA", Sample.opportunity "BBB"] [] 0 [] 0
        ↔ ¬PassesZero Sample.config [Sample.opportunity "AAA", Sample.opportunity "BBB"] [] 0 [] 0) := by
  have hkeys : ([Sample.opportunity "AAA", Sample.opportunity "BBB"].map (·.key)).Nodup := by decide
  have hclosed : ((evaluateAutomaticStrategy Sample.config
      [Sample.opportunity "AAA", Sample.opportunity "BBB"] [Sample.dayOld] 0 [] 0).decision.map
        fun d => (d.action, d.positionId)) = some (.closing, some 7) := by decide +kernel
  refine ⟨hclosed, (evaluation_meets_iff hkeys).mpr fun hpass => ?_, evaluation_meets_iff hkeys⟩
  obtain ⟨d, hd, hact⟩ := Option.map_eq_some_iff.mp hclosed
  obtain ⟨p, o, rule, hdue, -⟩ := closing_decision hkeys hd (congrArg Prod.fst hact)
  exact hpass.noneDue ⟨p, o, rule, hdue⟩

end BasisHawk.Automation
