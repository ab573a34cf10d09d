/-
  BasisHawk.Paired.Operations
  ───────────────────────────
  The writing transactions on the two-leg tables as one operation type, and
  the ledgers any sequence of them can lead to.

  The transactions come from several services (reconciliation, live and paper
  execution, the API).  Here they come in any order, with any arguments and at
  any time; what a service does is one such sequence.

  Main results:
    • `Reachable.invariant` — induction over all sequences of transactions.
-/
import BasisHawk.Paired.Paper

namespace BasisHawk.Paired

open Domain Lib Accounts

/-! ## §1. The transactions. -/

inductive TradeOp where
  | createOpen (plan : OpenPlan)
  | createClose (plan : ClosePlan)
  | prepareSubmission (intentId : Nat) (adjusted : Option ℚ)
  | prepareCompensation (intentId : Nat) (limitPrice quantity toleranceBase : ℚ)
  | expirePlanned (intentId : Nat)
  | failMarketUnexecutable (intentId : Nat)
  | recordPreflightFailure (intentId : Nat) (exchange : Exchange) (code : FailureCode)
  | recordSubmission (legId : Nat) (s : OrderSubmission)
  | markSubmissionUnknown (legId : Nat)
  | markSubmissionRejected (legId : Nat) (failureCode : String)
  | markUnknownNotFound (legId : Nat)
  | persistFills (legId : Nat) (fills : List RemoteFill)
  | reconcileOrder (legId : Nat) (order : RemoteOrder)
  | settleOpen (intentId : Nat)
  | settleClose (intentId : Nat)
  | paperOpenFills (intentId : Nat) (spotFill perpFill : ℚ)
  | paperCompensation (intentId : Nat) (succeeds : Bool)
  | paperCloseFills (intentId : Nat) (spotFill perpFill : ℚ)
  | paperCloseCompensation (intentId : Nat) (succeeds : Bool)

/-- What a transaction returns. -/
abbrev TradeOp.Result : TradeOp → Type
  | .createOpen _ => TradeIntentRow × Bool
  | .createClose _ => TradeIntentRow × Bool
  | .prepareSubmission .. => Ledger.Prepared
  | .prepareCompensation .. => Ledger.Prepared
  | .expirePlanned _ => Bool
  | .failMarketUnexecutable _ => Bool
  | .recordPreflightFailure .. => Unit
  | .recordSubmission .. => Unit
  | .markSubmissionUnknown _ => Unit
  | .markSubmissionRejected .. => Unit
  | .markUnknownNotFound _ => Bool
  | .persistFills .. => Nat
  | .reconcileOrder .. => String
  | .settleOpen _ => Option Ledger.Settled
  | .settleClose _ => Option Ledger.Settled
  | .paperOpenFills .. => Option Ledger.Settled
  | .paperCompensation .. => Option Ledger.Settled
  | .paperCloseFills .. => Option Ledger.Settled
  | .paperCloseCompensation .. => Option Ledger.Settled

/-- The transaction of an operation. -/
def TradeOp.tx (now : Int) : (o : TradeOp) → Ledger → Except Exc (o.Result × Ledger)
  | .createOpen plan => Ledger.createTradeIntent plan now
  | .createClose plan => Ledger.createPaperCloseIntent plan now
  | .prepareSubmission intentId adjusted => Ledger.prepareLiveSubmission intentId adjusted
  | .prepareCompensation intentId limit quantity tolerance =>
      Ledger.prepareLiveCompensation intentId limit quantity tolerance
  | .expirePlanned intentId => Ledger.expirePlannedTradeIntent intentId
  | .failMarketUnexecutable intentId => Ledger.failMarketUnexecutableTradeIntent intentId
  | .recordPreflightFailure intentId exchange code =>
      Ledger.recordLivePreflightFailure intentId exchange code
  | .recordSubmission legId s => Ledger.recordOrderSubmission legId s
  | .markSubmissionUnknown legId => Ledger.markOrderSubmissionUnknown legId
  | .markSubmissionRejected legId code => Ledger.markOrderSubmissionRejected legId code
  | .markUnknownNotFound legId => Ledger.markUnknownOrderNotFound legId
  | .persistFills legId fills => Ledger.persistRemoteFills legId fills
  | .reconcileOrder legId order => Ledger.reconcileRemoteOrder legId order
  | .settleOpen intentId => Ledger.settleLiveOpen intentId now
  | .settleClose intentId => Ledger.settleLiveClose intentId now
  | .paperOpenFills intentId spot perp => Ledger.recordPaperOpenFills intentId spot perp now
  | .paperCompensation intentId succeeds =>
      Ledger.executePaperCompensation intentId succeeds now
  | .paperCloseFills intentId spot perp => Ledger.recordPaperCloseFills intentId spot perp now
  | .paperCloseCompensation intentId succeeds =>
      Ledger.executePaperCloseCompensation intentId succeeds now

/-! ## §2. Sequences of transactions. -/

/-- The ledger, with every version of a position that was ever committed: what a
preview may have read. -/
structure Books where
  ledger : Ledger
  seen : List PairedPositionRow
  deriving DecidableEq

/-- The books after a transaction. -/
def Books.after (b : Books) (l : Ledger) : Books := ⟨l, l.positions ++ b.seen⟩

/-- A closing plan is made from a position someone has read. -/
def TradeOp.isInformed (b : Books) : TradeOp → Prop
  | .createClose plan => plan.read ∈ b.seen
  | _ => True

/-- One committed transaction, or a write of the control state by another
service. -/
inductive Books.Step : Books → Books → Prop
  | tx {b : Books} {o : TradeOp} {now : Int} {r : o.Result} {l : Ledger} (hi : o.isInformed b)
      (h : o.tx now b.ledger = .ok (r, l)) : Step b (b.after l)
  | control {b : Books} (row : MultiLeg.ExecutionControlRow) :
      Step b { b with ledger := { b.ledger with control := some row } }

/-- Nothing has been planned yet. -/
structure Ledger.Initial (l : Ledger) : Prop where
  intents : l.intents = []
  legs : l.legs = []
  fills : l.fills = []
  positions : l.positions = []
  realizations : l.realizations = []

/-- The books any sequence of transactions leads to. -/
inductive Reachable : Books → Prop
  | init {l : Ledger} (h : l.Initial) : Reachable ⟨l, []⟩
  | step {b b' : Books} (hb : Reachable b) (hs : b.Step b') : Reachable b'

/-- What holds initially and survives every transaction holds of every
reachable state of the books. -/
theorem Reachable.invariant {J : Books → Prop} (hinit : ∀ l : Ledger, l.Initial → J ⟨l, []⟩)
    (htx : ∀ (b : Books) (o : TradeOp) (now : Int) (r : o.Result) (l : Ledger),
      o.isInformed b → o.tx now b.ledger = .ok (r, l) → J b → J (b.after l))
    (hcontrol : ∀ (b : Books) row, J b →
      J { b with ledger := { b.ledger with control := some row } })
    {b : Books} (hb : Reachable b) : J b := by
  induction hb with
  | init h => exact hinit _ h
  | step _ hs ih =>
      cases hs with
      | tx hi h => exact htx _ _ _ _ _ hi h ih
      | control row => exact hcontrol _ row ih

/-! ## §3. Concrete sequences. -/

instance (b : Books) (o : TradeOp) : Decidable (o.isInformed b) :=
  match o with
  | .createClose plan => inferInstanceAs (Decidable (plan.read ∈ b.seen))
  | .createOpen _ | .prepareSubmission .. | .prepareCompensation .. | .expirePlanned _
  | .failMarketUnexecutable _ | .recordPreflightFailure .. | .recordSubmission ..
  | .markSubmissionUnknown _ | .markSubmissionRejected .. | .markUnknownNotFound _
  | .persistFills .. | .reconcileOrder .. | .settleOpen _ | .settleClose _ | .paperOpenFills ..
  | .paperCompensation .. | .paperCloseFills .. | .paperCloseCompensation .. =>
      inferInstanceAs (Decidable True)

namespace Books

/-- Empty tables, trading allowed. -/
def empty : Books := ⟨⟨some ⟨.ready, ""⟩, [], [], [], [], [], 0⟩, []⟩

/-- The transactions of a list one after the other, each at its instant. -/
def play : List (TradeOp × Int) → Books → Option Books
  | [], b => some b
  | (o, now) :: rest, b =>
      if o.isInformed b then
        match o.tx now b.ledger with
        | .ok (_, l) => play rest (b.after l)
        | .error _ => none
      else none

/-- A computed sequence of operations stays reachable. -/
theorem play_reachable {ops : List (TradeOp × Int)} {b b' : Books} (hb : Reachable b)
    (h : play ops b = some b') : Reachable b' := by
  induction ops generalizing b with
  | nil =>
      cases h
      exact hb
  | cons op rest ih =>
      obtain ⟨o, now⟩ := op
      unfold play at h
      split at h
      · next hi =>
          split at h
          · next r l htx => exact ih (.step hb (.tx hi htx)) h
          · cases h
      · cases h

/-- A state with a property, reached by a list of transactions. -/
theorem exists_of_play (P : Books → Prop) [DecidablePred P] (ops : List (TradeOp × Int))
    (h : (play ops empty).any fun b => P b) : ∃ b, Reachable b ∧ P b := by
  obtain ⟨b, hb, hp⟩ := (Option.any_eq_true _ _).mp h
  exact ⟨b, play_reachable (.init ⟨rfl, rfl, rfl, rfl, rfl⟩) hb, of_decide_eq_true hp⟩

end Books

/-! ## §4. A pair on a live account. -/

namespace Sample

/-- Ten units of a base asset, spot against perpetual, at a price of 100. -/
def openPlan : OpenPlan where
  token := "0123456789abcdef0123456789abcdef"
  idempotencyKey := "open"
  exchange := .binance
  environment := .live
  baseAsset := "ABC"
  leverage := 2
  baseQuantity := 10
  spotFeeRate := 0
  perpFeeRate := 0
  spotBuyFeeInBase := false
  marketObservedAt := 0
  spotSymbol := "ABCUSDT"
  spotQuantity := 10
  spotLimit := 100
  perpSymbol := "ABCUSDT"
  perpQuantity := 10
  perpLimit := 100
  perpMultiplier := 1
  leverage_range := by decide
  spot_pos := by decide
  perp_pos := by decide
  multiplier_pos := by decide

/-- A trade of an order. -/
def fill (m : Market) (side : Side) (tradeId : String) (quantity price fee : ℚ) : RemoteFill where
  exchangeTradeId := tradeId
  exchangeOrderId := "1"
  clientOrderId := none
  market := m.name
  symbol := "ABCUSDT"
  side := side.name
  quantity := quantity
  price := price
  feeAmount := fee
  feeAsset := "ABC"
  liquidity := "taker"
  occurredAt := 0

/-- An order that is over. -/
def canceled (m : Market) (side : Side) (clientOrderId : String) (quantity : ℚ) (reduceOnly : Bool) :
    RemoteOrder where
  exchangeOrderId := "1"
  clientOrderId := some clientOrderId
  market := m.name
  symbol := "ABCUSDT"
  side := side.name
  status := "canceled"
  price := 100
  originalQuantity := quantity
  filledQuantity := 0
  reduceOnly := reduceOnly

/-- The position after `opened`. -/
def position (quantity spotEntry perpEntry fees : ℚ) (id : Nat) : PairedPositionRow where
  id := id
  openingIntentId := 0
  closingIntentId := none
  exchange := .binance
  environment := .live
  baseAsset := "ABC"
  initialQuantity := quantity
  quantity := quantity
  spotEntryPrice := spotEntry
  perpEntryPrice := perpEntry
  openingFeesUsdt := fees
  remainingOpeningFeesUsdt := fees
  closingFeesUsdt := none
  realizedPnlUsdt := none
  status := .opened
  openedAt := 0
  closedAt := none

/-- The close of a whole position. -/
def closePlan (p : PairedPositionRow) (h : 0 < p.quantity) (emergency : Bool) : ClosePlan where
  token := "fedcba9876543210fedcba9876543210"
  idempotencyKey := "close"
  read := p
  emergency := emergency
  leverage := 2
  spotFeeRate := 0
  perpFeeRate := 0
  marketObservedAt := 0
  spotSymbol := "ABCUSDT"
  spotLimit := 100
  perpSymbol := "ABCUSDT"
  perpLimit := 100
  perpMultiplier := 1
  leverage_range := by decide
  quantity_pos := h
  limits_pos := by decide
  multiplier_pos := by decide

/-- The legs 1 and 2 of the pair are bought and sold. -/
def opened : List (TradeOp × Int) :=
  [(.createOpen openPlan, 0), (.prepareSubmission 0 none, 0),
    (.persistFills 1 [fill .spot .buy "s" 10 100 0], 0),
    (.persistFills 2 [fill .perp .sell "p" 10 100 0], 0), (.settleOpen 0, 0)]

/-- The intent 6 with its legs 7 and 8 is to close the pair. -/
def closing : List (TradeOp × Int) :=
  [(.createClose (closePlan (position 10 100 100 0 5) (by decide) false), 0),
    (.prepareSubmission 6 none, 0)]

/-- Both legs of the close are over. -/
def closeCanceled : List (TradeOp × Int) :=
  [(.reconcileOrder 7 (canceled .spot .sell "bh-fedcba9876543210fedcba98-s" 10 false), 0),
    (.reconcileOrder 8 (canceled .perp .buy "bh-fedcba9876543210fedcba98-p" 10 true), 0)]

end Sample

end BasisHawk.Paired
