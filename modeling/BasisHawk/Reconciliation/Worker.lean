/-
  BasisHawk.Reconciliation.Worker
  ───────────────────────────────
  The reconciliation worker among the other actors, as a `System`.

  The worker repeats `run_once`; each of its transactions is atomic.  Between
  any two of its operations the clock may move, administrators, private streams
  and the other services may write the control state, and intents may be
  planned and paper intents filled.  The outside world answers as it likes, and
  the worker may crash anywhere.

  `Pass` records how far the current pass has come and what it has read,
  `History` what has been sent to the exchanges and heard of them.  No
  operation reads them back; they are there for statements and proofs.
-/
import BasisHawk.Lib.WorkerSystem
import BasisHawk.Paired.Moves
import BasisHawk.Reconciliation.Service

namespace BasisHawk.Reconciliation

open Domain Lib Accounts Paired
open MultiLeg (ExecutionControlRow)

/-! ## §1. What a pass has read. -/

/-- How far a pass has come. -/
inductive Stage where
  /-- Before its first look at the control state. -/
  | preceding
  /-- That look found no pause; the control state is about to be overwritten. -/
  | starting
  /-- The accounts are being reconciled; `paused` is what the first look found. -/
  | checking (paused : Bool)
  /-- There is no account to reconcile, and the first look found no pause. -/
  | vacant
  /-- The accounts are reconciled, and the compensator has looked again. -/
  | finishing (paused : Bool)
  /-- No look has found a pause; the control state is about to be overwritten. -/
  | deciding
  | ended
  deriving DecidableEq, Repr

structure Pass where
  stage : Stage := .preceding
  /-- The default accounts. -/
  listed : List Account := []
  /-- The account whose legs were read last, and what it showed. -/
  account : Option Account := none
  snapshot : Option LiveSnapshot := none
  state : Option RemoteTradingState := none
  /-- The accounts whose positions were what the open pairs stand for. -/
  agreed : List Account := []
  /-- The accounts whose private streams were found ready after the last look. -/
  streaming : List Account := []

/-- What the pass has in hand. -/
structure Hand where
  /-- The client order ids that are prepared and not yet placed. -/
  prepared : List String := []
  /-- The last batch of trades was complete. -/
  complete : Bool := false
  /-- The legs of the account with a complete batch of trades stored. -/
  fetched : List Nat := []

namespace Pass

/-- The pass after an answer of the outside world. -/
def heard (p : Pass) : (o : OutOp) → Except Exc o.Answer → Pass
  -- The first operation of a pass.
  | .elsewhere .transfers, _ => {}
  | .listCredentials, .ok summaries =>
      let accounts := (summaries.filter (·.isDefault)).map (·.account)
      { p with
        listed := accounts
        stage := if accounts = [] ∧ p.stage = .checking false then .vacant else p.stage }
  | .snapshot _, .ok s =>
      match p.stage with
      | .checking _ => { p with snapshot := some s }
      | _ => p
  | .tradingState _, .ok s =>
      match p.stage with
      | .checking _ => { p with state := some s }
      | _ => p
  | .privateStreamReady a, .ok ready =>
      if p.stage = .deciding ∧ ready then { p with streaming := a :: p.streaming } else p
  | _, _ => p

/-- The positions the account shows are those of the exposures. -/
def Agrees (p : Pass) (exposures : List Ledger.PerpExposure) : Prop :=
  ∃ state ∈ p.state, ∃ snapshot ∈ p.snapshot,
    positionReasons state.positions exposures (snapshot.perpMarginMode = .isolated) = []

instance (p : Pass) (exposures : List Ledger.PerpExposure) : Decidable (p.Agrees exposures) :=
  inferInstanceAs (Decidable (∃ state ∈ p.state, ∃ snapshot ∈ p.snapshot, _))

/-- The pass after a query. -/
def looked (p : Pass) : (q : Query) → q.Answer → Pass
  | .executionControl .opening, control =>
      { stage := if Control.Paused control then .checking true else .starting }
  | .executionControl .lateCompensator, _ =>
      match p.stage with
      | .checking paused => { p with stage := .finishing paused }
      | _ => p
  | .executionControl .closing, control =>
      { p with
        stage := if p.stage = .finishing false ∧ ¬Control.Paused control then .deciding else .ended
        streaming := [] }
  | .orderLegsForReconciliation a, _ =>
      { p with account := some a, agreed := p.agreed.filter (· ≠ a) }
  | .pairedPerpExposures a, exposures =>
      if p.stage = .checking false ∧ p.Agrees exposures then { p with agreed := a :: p.agreed } else p
  | _, _ => p

/-- The pass after it has written the control state. -/
def controlled (p : Pass) : Pass :=
  { p with stage := if p.stage = .starting then .checking false else .ended }

end Pass

/-- The legs that are to be submitted now. -/
def handedOut : Ledger.Prepared → Option (List OrderLegRow)
  | some (_, legs, true) => some legs
  | _ => none

/-- A preparation hands out legs exactly where it says that it was the one to
prepare them. -/
theorem handedOut_some {r : Ledger.Prepared} {legs : List OrderLegRow} :
    handedOut r = some legs ↔ ∃ i, r = some (i, legs, true) := by
  constructor
  · intro h
    unfold handedOut at h
    split at h
    · next i legs' =>
        cases h
        exact ⟨i, rfl⟩
    · cases h
  · rintro ⟨i, rfl⟩
    rfl

/-- The legs a transaction hands out for submission. -/
def preparedLegs : (o : TradeOp) → Except Exc o.Result → Option (List OrderLegRow)
  | .prepareSubmission .., .ok r => handedOut r
  | .prepareCompensation .., .ok r => handedOut r
  | _, _ => none

namespace Hand

def heard (h : Hand) : (o : OutOp) → Except Exc o.Answer → Hand
  | .fillsForOrder .., .ok batch => { h with complete := batch.complete }
  | _, _ => h

def looked (h : Hand) : Query → Hand
  | .orderLegsForReconciliation _ => { h with fetched := [] }
  | _ => h

/-- An order is placed. -/
def placed (h : Hand) (clientOrderId : String) : Hand :=
  { h with prepared := h.prepared.filter (· ≠ clientOrderId) }

def wrote (h : Hand) : (o : TradeOp) → Except Exc o.Result → Hand
  | .reconcileOrder legId _, _ => { h with fetched := h.fetched.filter (· ≠ legId) }
  | .persistFills legId _, .ok _ =>
      { h with fetched := (if h.complete then [legId] else []) ++ h.fetched.filter (· ≠ legId) }
  | o, r =>
      match preparedLegs o r with
      | some legs => { h with prepared := legs.map (·.clientOrderId) }
      | none => h

end Hand

/-! ## §2. The system. -/

/-- What has been sent to the exchanges and heard of them. -/
structure History where
  /-- The client order ids of all orders placed, and of those that arrived. -/
  placed : List String := []
  accepted : List String := []
  /-- The filled quantity of the last remote order a leg was reconciled with. -/
  reported : Nat → Option ℚ := fun _ => none

structure World where
  books : Books
  now : Int
  pass : Pass
  hand : Hand
  history : History

/-- The control row of a world. -/
abbrev World.control (w : World) : Control := w.books.ledger.control

/-- The tables of a world. -/
abbrev World.ledger (w : World) : Ledger := w.books.ledger

/-- One transaction: an exception leaves everything as it was. -/
def transact (o : TradeOp) (now : Int) (b : Books) : Except Exc o.Result × Books :=
  match o.tx now b.ledger with
  | .ok (r, l) => (.ok r, b.after l)
  | .error e => (.error e, b)

/-- A write of the control row. -/
def writeControl (c : Control) (b : Books) : Books :=
  { b with ledger := { b.ledger with control := c } }

/-- Transactions that only other services and the API run. -/
def isForeign : TradeOp → Bool
  | .createOpen _ | .createClose _ => true
  | o => o.isPaper

/-- What the other actors do. -/
inductive Act where
  | clock (now : Int)
  | control (op : ControlOp)
  | trade (o : TradeOp)

/-- The transaction of an actor. -/
def Act.apply : Act → World → World
  | .clock now, w => { w with now := now }
  | .control op, w => { w with books := writeControl (op.apply w.control) w.books }
  | .trade o, w => { w with books := (transact o w.now w.books).2 }

/-- An actor can do this now. -/
def Act.isPossible (w : World) : Act → Prop
  | .trade o => isForeign o ∧ o.isInformed w.books
  | _ => True

/-- The quantity a transaction is told of a leg. -/
def History.wrote (h : History) : TradeOp → History
  | .reconcileOrder legId order =>
      { h with reported := Function.update h.reported legId (some order.filledQuantity) }
  | _ => h

/-- An order is placed; whether it arrives does not show in the reply. -/
def World.place (w : World) (clientOrderId : String) (arrives : Bool) : World :=
  { w with
    hand := w.hand.placed clientOrderId
    history := { w.history with
      placed := clientOrderId :: w.history.placed
      accepted := (if arrives then [clientOrderId] else []) ++ w.history.accepted } }

/-- The world after a transaction of the worker. -/
def World.traded (w : World) (o : TradeOp) : Except Exc o.Result × World :=
  let (r, books) := transact o w.now w.books
  (r, { w with
    books := books, hand := w.hand.wrote o r, history := w.history.wrote o })

/-- One operation of the worker. -/
def exec : (o : Op) → World → Rep o → World → Prop
  | .trade o, w, r, w' => w.traded o = (r, w')
  | .query q, w, r, w' => r = q.eval w.ledger
      ∧ w' = { w with pass := w.pass.looked q r, hand := w.hand.looked q }
  | .setControl state reason, w, _, w' => w' = { w with
      books := writeControl (Control.setExecutionControl state reason w.control) w.books
      pass := w.pass.controlled }
  | .out (.placeLimitIoc _ order), w, _, w' => ∃ arrives, w' = w.place order.clientOrderId arrives
  | .out o, w, r, w' => w' = { w with pass := w.pass.heard o r, hand := w.hand.heard o r }

/-- The worker and everything around it. -/
def system : System Op Rep Act World where
  exec := exec
  env := fun a w w' => a.isPossible w ∧ w' = a.apply w
  idle := fun w => { w with pass := {}, hand := {} }

/-- Nothing has been planned yet. -/
structure Initial (w : World) : Prop where
  tables : w.ledger.Initial
  seen : w.books.seen = []
  pass : w.pass = {}
  hand : w.hand = {}
  history : w.history = {}

/-- The configurations of the worker. -/
abbrev State : Type := Config Op Rep Exc Result World

/-- The configurations reached by runs whose every step is allowed. -/
abbrev Reachable (allow : World → Label Op Rep Act → Prop) : State → Prop :=
  system.Reach runOnce Initial allow

/-- From one configuration to another by allowed steps. -/
abbrev RunsTo (allow : World → Label Op Rep Act → Prop) : State → State → Prop :=
  system.Run runOnce allow

/-! ## §3. The tables are always reached by transactions. -/

/-- A transaction either commits what it computed or leaves the books. -/
theorem transact_cases {o : TradeOp} {now : Int} {b b' : Books} {r : Except Exc o.Result}
    (h : transact o now b = (r, b')) :
    (∃ a l, o.tx now b.ledger = .ok (a, l) ∧ r = .ok a ∧ b' = b.after l)
      ∨ ∃ e, o.tx now b.ledger = .error e ∧ r = .error e ∧ b' = b := by
  unfold transact at h
  split at h
  · next a l htx =>
      cases h
      exact .inl ⟨a, l, htx, rfl, rfl⟩
  · next e htx =>
      cases h
      exact .inr ⟨e, htx, rfl, rfl⟩

/-- Either way the books stay reachable. -/
theorem transact_reachable {o : TradeOp} {now : Int} {b b' : Books} {r : Except Exc o.Result}
    (h : transact o now b = (r, b')) (hb : Paired.Reachable b) (hi : o.isInformed b) :
    Paired.Reachable b' := by
  rcases transact_cases h with ⟨a, l, htx, -, rfl⟩ | ⟨e, -, -, rfl⟩
  · exact .step hb (.tx hi htx)
  · exact hb

/-- The writers of the control row never remove it. -/
theorem ControlOp.apply_eq_none {op : ControlOp} {c : Control} (h : op.apply c = none) :
    c = none := by
  cases c with
  | none => rfl
  | some row =>
      exfalso
      cases op <;>
        simp only [ControlOp.apply, Control.setExecutionControl,
          Control.requestExecutionReconciliation, Control.requestPostUpdateReconciliation,
          Control.requestSoftwareUpdate, Control.streamDisconnected,
          Control.planInternalTransfer, Control.multiLegPause] at h <;>
        first | cases h | (split at h <;> cases h)

/-- So they do when the control is written. -/
theorem writeControl_reachable {b : Books} (hb : Paired.Reachable b) {c : Control}
    (h : c = none → b.ledger.control = none) : Paired.Reachable (writeControl c b) := by
  cases c with
  | some row => exact .step hb (.control row)
  | none =>
      have hsame : writeControl none b = b := by
        unfold writeControl
        rw [← h rfl]
      rw [hsame]
      exact hb

/-- A transaction of one of the live services never needs what an API call has
read. -/
theorem isInformed_of_not_foreign {o : TradeOp} (h : isForeign o = false) (b : Books) :
    o.isInformed b := by
  cases o <;> first | exact trivial | cases h

/-! ## §4. Concrete runs. -/

/-- The answers of a pass in which the outside world says `sc`, and orders
arrive or not. -/
def answer (sc : (o : OutOp) → Except Exc o.Answer) (arrives : Bool) :
    (o : Op) → World → Rep o × World
  | .trade o, w => w.traded o
  | .query q, w => (q.eval w.ledger, { w with
      pass := w.pass.looked q (q.eval w.ledger), hand := w.hand.looked q })
  | .setControl state reason, w => ((), { w with
      books := writeControl (Control.setExecutionControl state reason w.control) w.books
      pass := w.pass.controlled })
  | .out (.placeLimitIoc a order), w =>
      (sc (.placeLimitIoc a order), w.place order.clientOrderId arrives)
  | .out o, w => (sc o, { w with pass := w.pass.heard o (sc o), hand := w.hand.heard o (sc o) })

/-- A scripted answer is an answer that the operation can get. -/
theorem exec_answer (sc : (o : OutOp) → Except Exc o.Answer) (arrives : Bool) (o : Op) (w : World) :
    system.exec o w (answer sc arrives o w).1 (answer sc arrives o w).2 := by
  cases o with
  | trade o => rfl
  | query q => exact ⟨rfl, rfl⟩
  | setControl state reason => rfl
  | out o =>
      cases o with
      | placeLimitIoc a order => exact ⟨arrives, rfl⟩
      | _ => rfl

/-- What the outside world says in a sample pass. -/
structure Outside where
  accounts : List Account := []
  snapshot : Except Exc LiveSnapshot := .error (.ofKind .runtime "no snapshot")
  state : RemoteTradingState := ⟨[], [], true, none⟩
  lookup : RemoteOrderLookup := ⟨none, true, none⟩
  fills : RemoteFillBatch := ⟨[], true, none⟩
  streams : Bool := true

namespace Sample

def empty : World := ⟨Books.empty, 0, {}, {}, {}⟩

/-- The empty world is a first one. -/
theorem empty_initial : Initial empty := ⟨⟨rfl, rfl, rfl, rfl, rfl⟩, rfl, rfl, rfl, rfl⟩

/-- Everything an outside answer does not vary. -/
def outside (v : Outside) : (o : OutOp) → Except Exc o.Answer
  | .now => .ok 0
  | .elsewhere _ => .ok ()
  | .listCredentials => .ok (v.accounts.map fun a => ⟨a, true⟩)
  | .loadSecrets _ => .ok true
  | .openClient _ => .ok ()
  | .snapshot _ => v.snapshot
  | .tradingState _ => .ok v.state
  | .latestFundingIncomeAt _ => .ok none
  | .fundingIncome .. => .ok (0, true)
  | .persistFundingIncome .. => .ok ()
  | .privateStreamReady _ => .ok v.streams
  | .cancelOrder _ order => .ok ⟨order.market, order.symbol, none, none, true⟩
  | .orderByClientId .. => .ok v.lookup
  | .fillsForOrder .. => .ok v.fills
  | .configurePerp .. => .ok ()
  | .placeLimitIoc .. => .error (.ofKind .privateRequest "request failed")
  | .close _ => .ok ()
  | .latestOpportunities _ => .ok []
  | .instrumentPairs _ => .ok []
  | .gateInstruments => .ok []
  | .gateQuote .. => .error (.ofKind .runtime "no quote")
  | .closeGateAdapter => .ok ()
  | .activeStrategy => .ok none
  | .executableLimit .. => .ok none
  | .closeGuard => .ok ()
  | .recordAccount .. => .ok ()

def account : Account := ⟨.binance, .live, ExchangeEnvironment.live_ne_paper⟩

/-- An account that may trade. -/
def snapshot : LiveSnapshot where
  spotUsdtAvailable := 1000
  perpUsdtAvailable := 1000
  sharedBalance := false
  positionMode := .oneWay
  tradePermission := some true
  perpMarginMode := .isolated
  spotBuyFeeInBase := none
  exchange := .binance
  environment := .live
  observedAt := 0
  tradeBlockReason := none

/-- One account with nothing to complain about. -/
def calm : Outside where
  accounts := [account]
  snapshot := .ok snapshot

variable {allow : World → Label Op Rep Act → Prop}

theorem reached_empty : Reachable allow ⟨empty, none⟩ := .init empty_initial

/-- Nothing is asked of the order of steps here. -/
theorem anyStep_free (w : World) :
    System.anyStep w (.start : Label Op Rep Act) ∧ System.anyStep w (.crash : Label Op Rep Act) :=
  ⟨trivial, trivial⟩

/-- The answers of a pass; every order placed arrives. -/
def answers (v : Outside) : (o : Op) → World → Rep o × World := answer (outside v) true

/-- A pass up to the first operation `stop` selects. -/
def upTo (v : Outside) (stop : Op → Bool) (w : World) : State :=
  System.play (answers v) stop runOnce w

/-- The rest of a pass, up to the first operation `stop` selects. -/
def onTo (v : Outside) (stop : Op → Bool) (s : State) : State :=
  System.resume (answers v) stop s

/-- Another actor takes a step. -/
def meanwhile (a : Act) (s : State) : State := { s with world := a.apply s.world }

/-- One act of the others is a run. -/
theorem runsTo_meanwhile {s : State} (a : Act) (hp : a.isPossible s.world)
    (ha : allow s.world (.act a)) : RunsTo allow s (meanwhile a s) :=
  System.Run.act ⟨hp, rfl⟩ ha

variable [∀ w l, Decidable (allow w l)]

/-- So is a pass up to an operation, under scripted answers. -/
theorem runsTo_upTo {w : World} (v : Outside) (stop : Op → Bool) (hstart : allow w .start)
    (hf : System.follows (answers v) stop allow runOnce w) :
    RunsTo allow ⟨w, none⟩ (upTo v stop w) :=
  System.Run.pass (exec_answer (outside v) true) hstart hf

/-- And its continuation from there. -/
theorem runsTo_onTo {s : State} (v : Outside) (stop : Op → Bool)
    (hf : System.goesOn (answers v) stop allow s) : RunsTo allow s (onTo v stop s) :=
  System.Run.resume (exec_answer (outside v) true) hf

end Sample

/-- A write of the control state. -/
def isSetControl : Op → Bool
  | .setControl .. => true
  | _ => false

end BasisHawk.Reconciliation
