/-
  BasisHawk.MultiLeg.PaperTask
  ────────────────────────────
  Tasks in the paper environment (`multi_leg_execution.py` and its two
  transactions in `storage.py`).

  A paper task is quoted and filled in one pass: no order of it is ever open,
  and no exchange is asked.  It shares the tables, the claiming of a run and
  `fail_execution_task_run` with the live tasks.

  Main results:
    • `claimPaperExecutionTask_ok`, `completePaperExecutionTask_ok` — what the
      two transactions have checked and what they have written,
    • `WellFormed.paperTx` — they keep the tables well formed.
-/
import BasisHawk.MultiLeg.Invariants

namespace BasisHawk.MultiLeg

open Domain Lib Accounts Database

/-! ## §1. Transactions. -/

namespace Database

/-- What `claim_paper_execution_task` returns. -/
structure PaperClaimed where
  task : ExecutionTaskRow
  legs : List ExecutionTaskLegRow
  run : ExecutionRunRow

/-- The claim query: the oldest claimable paper task that nobody holds locked. -/
def paperCandidate (amb : Ambient) (db : Database) : Option ExecutionTaskRow :=
  ((db.tasks.filter fun t =>
      t.environment = .paper ∧ (t.status = .queued ∨ t.status = .running)
        ∧ t.id ∉ amb.locked).insertionSort
    (fun a b => a.createdAt ≤ b.createdAt)).head?

/-- `claim_paper_execution_task`. -/
def claimPaperExecutionTask (workerId : String) (amb : Ambient) (db : Database) :
    Except Exc (Option PaperClaimed × Database) :=
  match db.paperCandidate amb with
  | none => .ok (none, db)
  | some row =>
      let claimed := db.claimRun row.id workerId amb
      let db := { claimed.2 with tasks := Table.put claimed.2.tasks (startTask row) }
      .ok (some ⟨startTask row, db.legsOfTask row.id, claimed.1⟩, db)

/-- A fill as the paper service hands it to the database. -/
structure PaperFill where
  taskLegId : Nat
  nativeQuantity : ℚ
  baseMultiplier : ℚ
  price : ℚ
  feeUsdt : ℚ

/-- The base quantity of a fill. -/
def PaperFill.base (f : PaperFill) : ℚ := f.nativeQuantity * f.baseMultiplier

/-- `base_by_leg[leg_id]`; the last fill of a leg counts. -/
def baseByLeg (fills : List PaperFill) (legId : Nat) : Except Exc ℚ := do
  let f ← found (fills.reverse.find? (fun f => f.taskLegId = legId)) (.ofKind .key "task_leg_id")
  return f.base

/-- `±1 · base / anchor_quantity`. -/
def paperRatio (num : Numeric) (side : Side) (base anchorQuantity : ℚ) : Except Exc ℚ := do
  raiseIf (anchorQuantity = 0) (.ofKind .arithmetic "division by zero")
  return num.divide (sign side * base) anchorQuantity

/-- A leg with what its fill resolved. -/
def paperLeg (num : Numeric) (leg : ExecutionTaskLegRow) (base ratio : ℚ) : ExecutionTaskLegRow :=
  { leg with
    resolvedBaseQuantity := some (num.store base)
    signedBaseRatio := some (num.store ratio) }

/-- The loop that resolves the legs. -/
def resolvePaperLegs (num : Numeric) (fills : List PaperFill) (anchorQuantity : ℚ) :
    List ExecutionTaskLegRow → Database → Except Exc Database
  | [], db => .ok db
  | leg :: rest, db => do
      let base ← baseByLeg fills leg.id
      let ratio ← paperRatio num leg.side base anchorQuantity
      resolvePaperLegs num fills anchorQuantity rest
        { db with legs := Table.put db.legs (paperLeg num leg base ratio) }

/-- The strategy a completed paper task opens. -/
def openPaperStrategy (task : ExecutionTaskRow) (fills : List PaperFill) (amb : Ambient)
    (db : Database) : Database :=
  { db with
    strategies := db.strategies ++ [{
      id := db.nextId, name := task.name, environment := task.environment,
      baseAsset := task.baseAsset, openingTaskId := task.id,
      feesUsdt := (fills.map (·.feeUsdt)).sum, openedAt := amb.now }]
    nextId := db.nextId + 1 }

/-- The order of one fill: created and filled at once. -/
def paperOrder (runId : Nat) (leg : ExecutionTaskLegRow) (f : PaperFill) (amb : Ambient)
    (id : Nat) (h : 0 < f.nativeQuantity ∧ 0 < f.baseMultiplier) : ExecutionOrderRow where
  id := id
  runId := runId
  taskLegId := leg.id
  parentOrderId := none
  attemptNumber := 1
  chaseNumber := 0
  clientOrderId := "paper-" ++ toString id
  exchangeOrderId := some ("paper-" ++ toString id)
  orderMode := leg.orderMode
  side := leg.side
  reduceOnly := leg.reduceOnly
  purpose := .primary
  status := .filled
  quantity := f.nativeQuantity
  baseMultiplier := f.baseMultiplier
  limitPrice := some f.price
  filledQuantity := f.nativeQuantity
  averagePrice := some f.price
  submittedAt := some amb.now
  terminalAt := some amb.now
  createdAt := amb.now
  quantity_check := h
  filled_check := ⟨h.1.le, le_refl _⟩

/-- One turn of the loop over the fills: the order, its fill and, where the task
opens a strategy, the strategy's leg.  The checks are the tables' constraints. -/
def storePaperFill (runId : Nat) (strategyId : Option Nat) (legs : List ExecutionTaskLegRow)
    (f : PaperFill) (amb : Ambient) (db : Database) : Except Exc Database := do
  let leg ← found (legs.find? (fun l => l.id = f.taskLegId)) (.ofKind .key "task_leg_id")
  if h : 0 < f.nativeQuantity ∧ 0 < f.baseMultiplier then
    let order := paperOrder runId leg f amb db.nextId h
    raiseIf (∃ o ∈ db.orders, o.clientOrderId = order.clientOrderId) (.integrity "client_order_id")
    raiseIf (∃ o ∈ db.orders, o.taskLegId = leg.id ∧ o.attemptNumber = 1 ∧ o.chaseNumber = 0)
      (.integrity "uq_execution_order_attempt_chase")
    if hp : 0 < f.price then
      let fill : ExecutionFillRow := {
        id := db.nextId + 1, executionOrderId := order.id, exchangeTradeId := order.clientOrderId,
        quantity := f.nativeQuantity, price := f.price, feeAmount := f.feeUsdt, feeAsset := "USDT",
        liquidity := if leg.orderMode = .maker then "maker" else "taker", occurredAt := amb.now,
        quantity_price_check := ⟨h.1, hp⟩ }
      let strategyLegs := strategyId.toList.map fun strategyId => {
        id := db.nextId + 2, strategyId := strategyId, openingTaskLegId := leg.id,
        accountId := leg.accountId, ordinal := leg.ordinal, marketType := leg.marketType,
        side := leg.side, symbol := leg.symbol, initialBaseQuantity := f.base,
        remainingBaseQuantity := f.base, entryPrice := f.price, feesUsdt := f.feeUsdt :
          StrategyLegRow }
      return { db with
        orders := db.orders ++ [order], fills := db.fills ++ [fill],
        strategyLegs := db.strategyLegs ++ strategyLegs, nextId := db.nextId + 3 }
    else
      throw (.integrity "ck_execution_fill_quantity_price")
  else
    throw (.integrity "ck_execution_order_quantity")

/-- The loop over the fills. -/
def storePaperFills (runId : Nat) (strategyId : Option Nat) (legs : List ExecutionTaskLegRow)
    (amb : Ambient) : List PaperFill → Database → Except Exc Database
  | [], db => .ok db
  | f :: rest, db => do
      let db ← storePaperFill runId strategyId legs f amb db
      storePaperFills runId strategyId legs amb rest db

/-- The fills are for exactly the legs of the task. -/
def FillsEveryLeg (legs : List ExecutionTaskLegRow) (fills : List PaperFill) : Prop :=
  (∀ l ∈ legs, ∃ f ∈ fills, f.taskLegId = l.id) ∧ ∀ f ∈ fills, ∃ l ∈ legs, l.id = f.taskLegId

instance (legs : List ExecutionTaskLegRow) (fills : List PaperFill) :
    Decidable (FillsEveryLeg legs fills) :=
  inferInstanceAs (Decidable (_ ∧ _))

/-- `complete_paper_execution_task`. -/
def completePaperExecutionTask (num : Numeric) (taskId runId : Nat) (fills : List PaperFill)
    (workerId : String) (amb : Ambient) (db : Database) : Except Exc (Bool × Database) := do
  let (task, run) ← db.taskAndRun taskId runId "paper execution task or run was not found"
  if task.status = .completed then
    return (false, db)
  else
    raiseIf (task.status ≠ .running ∨ run.status ≠ .running)
      (.value "paper execution task is not running")
    let legs := db.legsOfTask taskId
    raiseIf (¬FillsEveryLeg legs fills)
      (.value "paper execution must fill every task leg exactly once")
    let anchor ← anchorOf legs
    let anchorQuantity ← baseByLeg fills anchor.id
    let db ← resolvePaperLegs num fills anchorQuantity legs db
    let strategyId := if task.createStrategy then some db.nextId else none
    let db := if task.createStrategy then db.openPaperStrategy task fills amb else db
    let db ← storePaperFills runId strategyId legs amb fills db
    let task := { task with status := .completed, version := task.version + 1 }
    let run := { run with
      status := .completed, workerId := some workerId, finishedAt := some amb.now }
    return (true, { db with tasks := Table.put db.tasks task, runs := Table.put db.runs run })

end Database

/-! ## §2. Operations of the paper service. -/

/-- An opportunity with its symbols. -/
structure QuotedOpportunity extends Opportunity where
  spotSymbol : String
  perpSymbol : String

/-- The taker fees of an exchange in the settings. -/
structure TakerFees where
  spotTaker : ℚ
  perpTaker : ℚ

/-- What the paper service does besides what the live service does too. -/
inductive PaperOp where
  | claim (workerId : String)
  | complete (taskId runId : Nat) (fills : List PaperFill) (workerId : String)
  | latestOpportunities (exchange : Exchange)
  | loadSettings

/-- What such an operation returns. -/
abbrev PaperOp.Result : PaperOp → Type
  | .claim _ => Option PaperClaimed
  | .complete .. => Bool
  | .latestOpportunities _ => List QuotedOpportunity
  | .loadSettings => Exchange → TakerFees

/-- Every operation may raise. -/
abbrev PaperRep (o : PaperOp) : Type := Except Exc o.Result

/-- What an operation does: the two transactions mean what §1 says, the reads
are answered from outside. -/
def PaperOp.exec (num : Numeric) : (o : PaperOp) → World → PaperRep o → World → Prop
  | .claim workerId, w, r, w' =>
      ∃ db', commit (claimPaperExecutionTask workerId w.ambient) w.db = (r, db')
        ∧ w' = { w with db := db' }
  | .complete taskId runId fills workerId, w, r, w' =>
      ∃ db', commit (completePaperExecutionTask num taskId runId fills workerId w.ambient) w.db
          = (r, db')
        ∧ w' = { w with db := db' }
  | .latestOpportunities _, w, _, w' => w' = w
  | .loadSettings, w, _, w' => w' = w

/-- The operations of the multi-leg worker, live and paper. -/
abbrev AnyOp : Type := Op ⊕ PaperOp

abbrev AnyRep : AnyOp → Type := Sum.elim Rep PaperRep

/-- A program of the paper service. -/
abbrev PaperWorker (α : Type) : Type := Prog AnyOp AnyRep Exc α

/-- One operation that the live service has too. -/
def shared (o : Op) {α : Type} (k : Rep o → Except Exc α) : PaperWorker α :=
  .call (.inl o) fun r => .done (k r)

/-- One operation of its own. -/
def paper (o : PaperOp) : PaperWorker o.Result := .call (.inr o) .done

/-! ## §3. The quotes. -/

/-- `PaperExecutionQuote`. -/
structure PaperExecutionQuote where
  price : ℚ
  nativeQuantity : ℚ
  baseMultiplier : ℚ
  feeUsdt : ℚ
  observedAt : Int

/-- The price of a leg: a maker is filled at its own side of the book. -/
def paperPrice (leg : ExecutionTaskLegRow) (o : QuotedOpportunity) : ℚ :=
  let bid := match leg.marketType with
    | .spot => o.spotBid
    | .perpetual => o.perpBid
  let ask := match leg.marketType with
    | .spot => o.spotAsk
    | .perpetual => o.perpAsk
  if leg.orderMode = .maker ∧ leg.side = .buy then bid
  else if leg.orderMode = .maker ∧ leg.side = .sell then ask
  else if leg.side = .buy then ask
  else bid

/-- The multiplier of a leg: one on the spot market, the contract size on the
perpetual one. -/
def paperMultiplier (leg : ExecutionTaskLegRow) (o : QuotedOpportunity) : PaperWorker ℚ :=
  match leg.marketType with
  | .spot => do
      if leg.symbol ≠ o.spotSymbol then
        throw (.value "paper spot symbol does not match market data")
      else return 1
  | .perpetual => do
      if leg.symbol ≠ o.perpSymbol then
        throw (.value "paper perpetual symbol does not match market data")
      else do
        let pairs ← shared (.out (.instrumentPairs leg.exchange)) id
        match pairs.find? (fun p => sameUpper p.baseAsset leg.baseAsset
            ∧ p.perpSymbol = leg.symbol) with
        | none => throw (.value "paper perpetual contract multiplier is unavailable")
        | some pair =>
            if pair.perpContractSize ≤ 0 then
              throw (.value "paper perpetual contract multiplier is unavailable")
            else return pair.perpContractSize

/-- The quote of a leg at a price. -/
def paperQuoteAt (num : Numeric) (leg : ExecutionTaskLegRow) (quantityMode : QuantityMode)
    (price multiplier : ℚ) (fees : TakerFees) (observedAt : Int) : PaperExecutionQuote :=
  let base := match quantityMode with
    | .base => leg.targetQuantity
    | .usdt => num.divide leg.targetQuantity price
  let rate := match leg.marketType with
    | .spot => fees.spotTaker
    | .perpetual => fees.perpTaker
  ⟨price, num.divide base multiplier, multiplier, base * price * rate, observedAt⟩

/-- `LatestOpportunityPaperQuoteProvider.__call__`. -/
def paperQuote (num : Numeric) (leg : ExecutionTaskLegRow) (quantityMode : QuantityMode) :
    PaperWorker PaperExecutionQuote := do
  let opportunities ← paper (.latestOpportunities leg.exchange)
  match opportunities.find? (fun o => sameUpper o.baseAsset leg.baseAsset) with
  | none => throw (.value "healthy paper quote is unavailable")
  | some opportunity =>
      if opportunity.quality ≠ .healthy then
        throw (.value "healthy paper quote is unavailable")
      else do
        let now ← shared (.out .now) id
        if now + futureTolerance < opportunity.observedAt
            ∨ maximumAge < now - opportunity.observedAt then
          throw (.value "paper quote is stale")
        else do
          let multiplier ← paperMultiplier leg opportunity
          let price := paperPrice leg opportunity
          if price ≤ 0 then throw (.value "paper quote price must be positive")
          else do
            let fees ← paper .loadSettings
            return paperQuoteAt num leg quantityMode price multiplier (fees leg.exchange)
              opportunity.observedAt

/-! ## §4. The pass. -/

/-- The quotes of the legs, in order. -/
def paperQuotes (num : Numeric) (quantityMode : QuantityMode) :
    List ExecutionTaskLegRow → PaperWorker (List PaperExecutionQuote)
  | [] => pure []
  | leg :: rest => do
      let quote ← paperQuote num leg quantityMode
      let others ← paperQuotes num quantityMode rest
      return quote :: others

/-- The fill of a leg at its quote. -/
def paperFill (leg : ExecutionTaskLegRow) (quote : PaperExecutionQuote) : PaperFill where
  taskLegId := leg.id
  nativeQuantity := quote.nativeQuantity
  baseMultiplier := quote.baseMultiplier
  price := quote.price
  feeUsdt := quote.feeUsdt

/-- The body of the `try` in `run_once`. -/
def fillPaperTask (num : Numeric) (workerId : String) (c : PaperClaimed) : PaperWorker Bool := do
  let quotes ← paperQuotes num c.task.quantityMode c.legs
  paper (.complete c.task.id c.run.id (List.zipWith paperFill c.legs quotes) workerId)

/-- `MultiLegPaperExecutionResult`. -/
structure PaperPassResult where
  examined : Nat
  completed : Nat
  failed : Nat
  deriving DecidableEq

/-- The exceptions `run_once` handles. -/
def isPaperHandled (e : Exc) : Bool :=
  match e.kind with
  | .arithmetic | .key | .value => true
  | _ => false

/-- `run_once` of the paper service. -/
def paperRunOnce (num : Numeric) (workerId : String) : PaperWorker PaperPassResult := do
  match ← paper (.claim workerId) with
  | none => return ⟨0, 0, 0⟩
  | some c =>
      (fillPaperTask num workerId c).resume fun
      | .ok _ => return ⟨1, 1, 0⟩
      | .error e =>
          if isPaperHandled e then do
            shared (.db (.failRun c.task.id c.run.id "paper_quote_unavailable" workerId false)) id
            return ⟨1, 0, 1⟩
          else throw e

/-! ## §5. What the transactions do. -/

namespace Database

variable {amb : Ambient} {db db' : Database}

/-- A claim either finds nothing and writes nothing, or takes a paper task that
is queued or running. -/
theorem claimPaperExecutionTask_ok {workerId : String} {r : Option PaperClaimed}
    (h : claimPaperExecutionTask workerId amb db = .ok (r, db')) :
    (r = none ∧ db' = db)
      ∨ ∃ row ∈ db.tasks, (row.status = .queued ∨ row.status = .running)
          ∧ db' = { (db.claimRun row.id workerId amb).2 with
              tasks := Table.put (db.claimRun row.id workerId amb).2.tasks (startTask row) }
          ∧ r = some ⟨startTask row, db'.legsOfTask row.id,
              (db.claimRun row.id workerId amb).1⟩ := by
  unfold claimPaperExecutionTask at h
  cases hf : db.paperCandidate amb with
  | none =>
      rw [hf] at h
      injection h with h
      obtain ⟨rfl, rfl⟩ := Prod.mk.inj h
      exact .inl ⟨rfl, rfl⟩
  | some row =>
      rw [hf] at h
      injection h with h
      obtain ⟨rfl, rfl⟩ := Prod.mk.inj h
      unfold paperCandidate at hf
      have hmem := List.mem_of_mem_head? hf
      rw [List.mem_insertionSort, List.mem_filter, decide_eq_true_eq] at hmem
      exact .inr ⟨row, hmem.1, hmem.2.2.1, rfl, rfl⟩

/-- On the way to a completion: well-formed tables with the tasks and the runs
as they were, and the legs those of the same tasks. -/
structure FillsIn (db db' : Database) : Prop where
  wellFormed : WellFormed db'
  tasks : db'.tasks = db.tasks
  runs : db'.runs = db.runs
  legs : ∀ l ∈ db.legs, ∃ l' ∈ db'.legs, l'.id = l.id ∧ l'.taskId = l.taskId

theorem FillsIn.refl (h : WellFormed db) : FillsIn db db :=
  ⟨h, rfl, rfl, fun l hl => ⟨l, hl, rfl, rfl⟩⟩

/-- The parts of a paper completion fill the task in, one after the other. -/
theorem FillsIn.trans {db₁ db₂ : Database} (h : FillsIn db db₁) (h' : FillsIn db₁ db₂) :
    FillsIn db db₂ := by
  refine ⟨h'.wellFormed, h'.tasks.trans h.tasks, h'.runs.trans h.runs, fun l hl => ?_⟩
  obtain ⟨l₁, hl₁, hid₁, htask₁⟩ := h.legs l hl
  obtain ⟨l₂, hl₂, hid₂, htask₂⟩ := h'.legs l₁ hl₁
  exact ⟨l₂, hl₂, hid₂.trans hid₁, htask₂.trans htask₁⟩

/-- Another version of a leg. -/
theorem FillsIn.putLeg (h : WellFormed db) {old new : ExecutionTaskLegRow} (hold : old ∈ db.legs)
    (hid : new.id = old.id) (htask : new.taskId = old.taskId) :
    FillsIn db { db with legs := Table.put db.legs new } where
  wellFormed := h.putLeg hold hid htask
  tasks := rfl
  runs := rfl
  legs := fun l hl => by
    by_cases hk : l.id = new.id
    · have hlold : l = old := h.legs_unique.eq hl hold (hk.trans hid)
      refine ⟨new, Table.mem_put.mpr (.inl ⟨rfl, old, hold, hid.symm⟩), hk.symm, ?_⟩
      rw [hlold, htask]
    · exact ⟨l, Table.mem_put.mpr (.inr ⟨hl, hk⟩), rfl, rfl⟩

/-- Resolving the legs of a paper task writes these legs only; the induction is
on the legs. -/
theorem resolvePaperLegs_ok {num : Numeric} {fills : List PaperFill} {anchorQuantity : ℚ} :
    ∀ {legs : List ExecutionTaskLegRow} {db db' : Database}, WellFormed db →
      (∀ l ∈ legs, ∃ l' ∈ db.legs, l'.id = l.id ∧ l'.taskId = l.taskId) →
      resolvePaperLegs num fills anchorQuantity legs db = .ok db' → FillsIn db db'
  | [], db, db', hwf, _, h => by
      injection h with h
      rw [← h]
      exact .refl hwf
  | leg :: rest, db, db', hwf, hlegs, h => by
      obtain ⟨base, -, h⟩ := bind_eq_ok.mp h
      obtain ⟨ratio, -, h⟩ := bind_eq_ok.mp h
      obtain ⟨old, hold, hid, htask⟩ := hlegs leg List.mem_cons_self
      have hput := FillsIn.putLeg hwf hold
        (show (paperLeg num leg base ratio).id = old.id from hid.symm) htask.symm
      refine hput.trans (resolvePaperLegs_ok hput.wellFormed (fun l hl => ?_) h)
      obtain ⟨l₁, hl₁, hid₁, htask₁⟩ := hlegs l (List.mem_cons_of_mem _ hl)
      obtain ⟨l₂, hl₂, hid₂, htask₂⟩ := hput.legs l₁ hl₁
      exact ⟨l₂, hl₂, hid₂.trans hid₁, htask₂.trans htask₁⟩

/-- Opening the strategy adds a row and touches none. -/
theorem FillsIn.openPaperStrategy (h : WellFormed db) (task : ExecutionTaskRow)
    (fills : List PaperFill) (amb : Ambient) :
    FillsIn db (db.openPaperStrategy task fills amb) where
  wellFormed := by
    have hn : db.nextId ≤ db.nextId + 1 := by omega
    exact ⟨h.tasks_unique, h.legs_unique, h.runs_unique, h.orders_unique, h.tasks_below.mono hn,
      h.legs_below.mono hn, h.runs_below.mono hn, h.orders_below.mono hn, h.client_ids,
      h.run_of_task, h.run_owner, h.started_run, h.order_owner, h.created_fresh⟩
  tasks := rfl
  runs := rfl
  legs := fun l hl => ⟨l, hl, rfl, rfl⟩

/-- One fill adds one order, of the run and of a leg of its task. -/
theorem storePaperFill_ok {run : ExecutionRunRow} {strategyId : Option Nat}
    {legs : List ExecutionTaskLegRow} {f : PaperFill} (hwf : WellFormed db) (hrun : run ∈ db.runs)
    (hlegs : ∀ l ∈ legs, ∃ l' ∈ db.legs, l'.id = l.id ∧ l'.taskId = run.taskId)
    (h : storePaperFill run.id strategyId legs f amb db = .ok db') :
    FillsIn db db' ∧ db'.legs = db.legs := by
  simp only [storePaperFill, found_bind_eq_ok] at h
  obtain ⟨leg, hleg, h⟩ := h
  obtain ⟨row, hrow, hid, htask⟩ := hlegs leg (List.mem_of_find?_eq_some hleg)
  split at h
  · next hq =>
      simp only [raiseIf_bind_eq_ok] at h
      obtain ⟨hcid, -, h⟩ := h
      split at h
      · injection h with h
        subst h
        refine ⟨⟨?_, rfl, rfl, fun l hl => ⟨l, hl, rfl, rfl⟩⟩, rfl⟩
        exact @WellFormed.appendOrder db hwf (paperOrder run.id leg f amb db.nextId hq)
          (db.nextId + 3) (le_refl _) (show db.nextId < db.nextId + 3 by omega)
          (fun o ho heq => hcid ⟨o, ho, heq⟩) ⟨run, hrun, row, hrow, rfl, hid, htask⟩
          (fun hc => by cases hc) _ _
      · cases h
  · cases h

/-- Storing the fills adds orders of the run, each for a leg of its task; the
induction is on the fills. -/
theorem storePaperFills_ok {run : ExecutionRunRow} {strategyId : Option Nat}
    {legs : List ExecutionTaskLegRow} :
    ∀ {fills : List PaperFill} {db db' : Database}, WellFormed db → run ∈ db.runs →
      (∀ l ∈ legs, ∃ l' ∈ db.legs, l'.id = l.id ∧ l'.taskId = run.taskId) →
      storePaperFills run.id strategyId legs amb fills db = .ok db' → FillsIn db db'
  | [], db, db', hwf, _, _, h => by
      injection h with h
      rw [← h]
      exact .refl hwf
  | f :: rest, db, db', hwf, hrun, hlegs, h => by
      obtain ⟨db₁, h₁, h⟩ := bind_eq_ok.mp h
      obtain ⟨hfill, hsame⟩ := storePaperFill_ok hwf hrun hlegs h₁
      refine hfill.trans (storePaperFills_ok hfill.wellFormed ?_ ?_ h)
      · rw [hfill.runs]
        exact hrun
      · rw [hsame]
        exact hlegs

/-- What a completion has checked and written: it finds the task completed already,
or resolves the legs of a running one, opens its strategy and stores the fills. -/
theorem completePaperExecutionTask_rows {num : Numeric} {taskId runId : Nat} {fills : List PaperFill}
    {workerId : String} {done : Bool}
    (h : completePaperExecutionTask num taskId runId fills workerId amb db = .ok (done, db')) :
    db' = db ∨ ∃ task run anchorQuantity db₁ db₂,
      (Table.find? db.tasks taskId = some task ∧ task.status = .running)
      ∧ (Table.find? db.runs runId = some run ∧ run.taskId = taskId)
      ∧ FillsEveryLeg (db.legsOfTask taskId) fills
      ∧ resolvePaperLegs num fills anchorQuantity (db.legsOfTask taskId) db = .ok db₁
      ∧ storePaperFills runId (if task.createStrategy then some db₁.nextId else none)
          (db.legsOfTask taskId) amb fills
          (if task.createStrategy then db₁.openPaperStrategy task fills amb else db₁) = .ok db₂
      ∧ db' = { db₂ with
          tasks := Table.put db₂.tasks { task with
            status := .completed, version := task.version + 1 }
          runs := Table.put db₂.runs { run with
            status := .completed, workerId := some workerId, finishedAt := some amb.now } } := by
  simp only [completePaperExecutionTask] at h
  obtain ⟨⟨task, run⟩, hp, h⟩ := bind_eq_ok.mp h
  obtain ⟨htask, hrun, hsame⟩ := taskAndRun_ok hp
  split at h
  · injection h with h
    exact .inl (Prod.mk.inj h).2.symm
  · simp only [raiseIf_bind_eq_ok] at h
    obtain ⟨hactive, hevery, h⟩ := h
    obtain ⟨anchor, -, h⟩ := bind_eq_ok.mp h
    obtain ⟨anchorQuantity, -, h⟩ := bind_eq_ok.mp h
    obtain ⟨db₁, hresolve, h⟩ := bind_eq_ok.mp h
    obtain ⟨db₂, hstore, h⟩ := bind_eq_ok.mp h
    injection h with h
    have hrunning : task.status = .running := not_not.mp fun hne => hactive (.inl hne)
    exact .inr ⟨task, run, anchorQuantity, db₁, db₂, ⟨htask, hrunning⟩, ⟨hrun, hsame⟩,
      not_not.mp hevery, hresolve, hstore, (Prod.mk.inj h).2.symm⟩

/-- A completion finds the task completed already, or takes a running one to its
end, with its run. -/
theorem completePaperExecutionTask_ok {num : Numeric} {taskId runId : Nat} {fills : List PaperFill}
    {workerId : String} {done : Bool} (hwf : WellFormed db)
    (h : completePaperExecutionTask num taskId runId fills workerId amb db = .ok (done, db')) :
    db' = db ∨ ∃ db₁ task run, FillsIn db db₁ ∧ Table.find? db.tasks taskId = some task
      ∧ task.status = .running ∧ Table.find? db.runs runId = some run ∧ run.taskId = taskId
      ∧ db' = { db₁ with
          tasks := Table.put db₁.tasks { task with
            status := .completed, version := task.version + 1 }
          runs := Table.put db₁.runs { run with
            status := .completed, workerId := some workerId, finishedAt := some amb.now } } := by
  rcases completePaperExecutionTask_rows h with
    rfl | ⟨task, run, _, db₁, db₂, ⟨htask, hrunning⟩, ⟨hrun, hsame⟩, -, hresolve, hstore, hdb⟩
  · exact .inl rfl
  have hlegs : ∀ l ∈ db.legsOfTask taskId, ∃ l' ∈ db.legs, l'.id = l.id ∧ l'.taskId = l.taskId :=
    fun l hl => ⟨l, (mem_legsOfTask.mp hl).1, rfl, rfl⟩
  have hfirst := resolvePaperLegs_ok hwf hlegs hresolve
  -- The strategy is opened between resolving the legs and storing the fills.
  have hsecond : FillsIn db₁ (if task.createStrategy then db₁.openPaperStrategy task fills amb
      else db₁) := by
    split
    · exact .openPaperStrategy hfirst.wellFormed task fills amb
    · exact .refl hfirst.wellFormed
  have hupTo := hfirst.trans hsecond
  obtain ⟨hrunmem, hrunid⟩ := Table.find?_some hrun
  have hstore' : FillsIn (if task.createStrategy then db₁.openPaperStrategy task fills amb
      else db₁) db₂ := by
    rw [show runId = run.id from hrunid.symm] at hstore
    refine storePaperFills_ok hupTo.wellFormed ?_ (fun l hl => ?_) hstore
    · rw [hupTo.runs]
      exact hrunmem
    · obtain ⟨hmem, hltask⟩ := mem_legsOfTask.mp hl
      obtain ⟨l', hl', hid, htask'⟩ := hupTo.legs l hmem
      exact ⟨l', hl', hid, by rw [htask', hltask, hsame]⟩
  exact .inr ⟨db₂, task, run, hupTo.trans hstore', htask, hrunning, hrun, hsame, hdb⟩

end Database

/-- The paper transactions keep the tables well formed. -/
theorem WellFormed.paperTx {num : Numeric} {o : PaperOp} {w w' : World} {r : PaperRep o}
    (h : WellFormed w.db) (he : o.exec num w r w') : WellFormed w'.db := by
  cases o with
  | claim workerId =>
      obtain ⟨db', hc, rfl⟩ := he
      -- A transaction that raises leaves the tables as they are.
      refine commit_preserves (P := WellFormed) (fun a db' hok => ?_) h hc
      rcases claimPaperExecutionTask_ok hok with ⟨-, rfl⟩ | ⟨row, hrow, hst, rfl, -⟩
      · exact h
      · refine h.claim hrow (hst.imp_right fun hr => ?_) workerId w.ambient
        rw [hr]
        rfl
  | complete taskId runId fills workerId =>
      obtain ⟨db', hc, rfl⟩ := he
      refine commit_preserves (P := WellFormed) (fun a db' hok => ?_) h hc
      rcases completePaperExecutionTask_ok h hok with
        rfl | ⟨db₁, task, run, hfill, htask, -, hrun, hsame, rfl⟩
      · exact h
      · -- The fills keep the tables well formed, and the task and its run end together after them.
        rw [← hfill.tasks] at htask
        rw [← hfill.runs] at hrun
        refine hfill.wellFormed.movesRun
          (show MovesRun taskId runId db₁ _ task .completed .completed from
            ⟨htask, ⟨run, _, _, rfl, rfl, hrun, hsame, rfl, rfl, rfl, rfl, rfl⟩, rfl, rfl, rfl,
              le_refl _⟩) rfl ⟨fun hc => ?_, fun hc => ?_⟩
        · cases hc
        · cases hc
  | latestOpportunities exchange =>
      rw [show w' = w from he]
      exact h
  | loadSettings =>
      rw [show w' = w from he]
      exact h

end BasisHawk.MultiLeg
