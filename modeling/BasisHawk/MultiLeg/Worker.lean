/-
  BasisHawk.MultiLeg.Worker
  ─────────────────────────
  The multi-leg worker among the other actors, as a `System`.

  The worker repeats `run_once`; each of its transactions is atomic.  Between
  any two of its operations the clock may move, administrators and other
  services may write the control state, and the API may plan, preflight, queue
  and cancel tasks.  The outside world answers as it likes.

  `Pass` records what the worker has read in its current pass; no operation
  reads it back, so it is there for statements and proofs only.
-/
import BasisHawk.Lib.WorkerSystem
import BasisHawk.MultiLeg.Service

namespace BasisHawk.MultiLeg

open Domain Lib Accounts Database

/-! ## §1. What the worker has read in its current pass. -/

/-- How far a pass has come. -/
inductive Pass where
  /-- Nothing is claimed, or the pass has nothing left to decide. -/
  | idle
  /-- A task is claimed and none of its orders is active. -/
  | advancing (c : Claimed)
  /-- An active order is being looked up. -/
  | examining (c : Claimed) (o : ExecutionOrderRow)
  /-- The exchange does not know the order; it is to be submitted. -/
  | submitting (c : Claimed) (o : ExecutionOrderRow)
  /-- The order's fills are being fetched; `none` when the exchange no longer
  knows a cancelled order. -/
  | weighing (c : Claimed) (o : ExecutionOrderRow) (remote : Option RemoteOrder)
  /-- The order and a complete list of its fills are to be recorded. -/
  | recording (c : Claimed) (o : ExecutionOrderRow) (remote : Option RemoteOrder)
      (batch : RemoteFillBatch)

/-- The first thing a claimed task calls for. -/
def Pass.ofClaim (c : Claimed) : Pass :=
  match c.orders.find? (fun o => o.status.isActive) with
  | some o => .examining c o
  | none => .advancing c

/-- What a lookup means for the order it is about. -/
def Pass.afterLookup (c : Claimed) (o : ExecutionOrderRow) (lookup : RemoteOrderLookup) : Pass :=
  if !lookup.complete then .idle
  else match lookup.order with
    | some remote => .weighing c o (some remote)
    | none =>
        if o.status = .cancelPending then .weighing c o none
        else if o.status = .created ∨ o.status = .unknown then .submitting c o
        else .idle

/-- The pass after an answer of the outside world. -/
def Pass.heard (p : Pass) : (o : OutOp) → Except Exc o.Answer → Pass
  | .orderByClientId .., .ok lookup =>
      match p with
      | .examining c o => .afterLookup c o lookup
      | _ => p
  | .orderByClientId .., .error _ => .idle
  | .fillsForOrder .., .ok batch =>
      match p with
      | .weighing c o remote => if batch.complete then .recording c o remote batch else .idle
      | _ => p
  | .fillsForOrder .., .error _ => .idle
  | .placeOrder .., _ => .idle
  | _, _ => p

/-- The pass after a transaction. -/
def Pass.wrote (p : Pass) : (o : DbOp) → Except Exc o.Result → Pass
  | .claim _, .ok (some c) => .ofClaim c
  | .setPhase .., _ => p
  | .resolveLeg .., _ => p
  | _, _ => .idle

/-! ## §2. The system. -/

structure World where
  db : Database
  ambient : Ambient
  pass : Pass

/-- What the other actors do. -/
inductive Act where
  | ambient (amb : Ambient)
  | control (row : ExecutionControlRow)
  | createTask (plan : TaskPlan)
  | preflightReady (taskId expectedVersion : Nat) (expiresAt : Int)
  | queue (taskId expectedVersion : Nat)
  | cancel (taskId expectedVersion : Nat)

/-- The transaction of an actor. -/
def Act.apply : Act → World → World
  | .ambient amb, w => { w with ambient := amb }
  | .control row, w => { w with db := { w.db with control := some row } }
  | .createTask plan, w => { w with db := (commit (createExecutionTask plan w.ambient) w.db).2 }
  | .preflightReady id version expiresAt, w =>
      { w with db := (commit (markExecutionTaskPreflightReady id version expiresAt) w.db).2 }
  | .queue id version, w =>
      { w with db := (commit (queueExecutionTask id version w.ambient) w.db).2 }
  | .cancel id version, w => { w with db := (commit (cancelExecutionTask id version) w.db).2 }

/-- One operation of the worker. -/
def exec (num : Numeric) : (o : Op) → World → Rep o → World → Prop
  | .db o, w, r, w' =>
      ∃ db', commit (o.tx num w.ambient) w.db = (r, db')
        ∧ w' = { w with db := db', pass := w.pass.wrote o r }
  | .out o, w, r, w' => w' = { w with pass := w.pass.heard o r }

/-- The worker and everything around it. -/
def system (num : Numeric) : System Op Rep Act World where
  exec := exec num
  env := fun a w w' => w' = a.apply w
  idle := fun w => { w with pass := .idle }

/-- No task has been planned yet. -/
structure Initial (w : World) : Prop where
  tasks : w.db.tasks = []
  legs : w.db.legs = []
  runs : w.db.runs = []
  orders : w.db.orders = []
  fills : w.db.fills = []
  pass : w.pass = .idle

/-- The configurations of the worker. -/
abbrev State : Type := Config Op Rep Exc PassResult World

/-- The configurations reached by runs whose every step is allowed. -/
abbrev Reachable (num : Numeric) (workerId : String)
    (allow : World → Label Op Rep Act → Prop) : State → Prop :=
  (system num).Reach (runOnce num workerId) Initial allow

/-- The worker is about to submit the request to the exchange. -/
def Submits (s : State) (request : PrivateOrderRequest) : Prop :=
  ∃ client k, s.pass = some (.call (.out (.placeOrder client request)) k)

/-- The worker is about to create the order. -/
def Creates (s : State) (a : OrderAttempt) : Prop :=
  ∃ k, s.pass = some (.call (.db (.createOrder a)) k)

/-- The client order id whose lookup came back complete and empty. -/
def absentOrder : Label Op Rep Act → Option String
  | .call (.out (.orderByClientId _ _ _ cid)) (.ok lookup) =>
      if lookup.complete ∧ lookup.order = none then some cid else none
  | _ => none

/-! ## §3. Concrete runs. -/

/-- The answers of a pass in which the outside world says `sc`. -/
def answer (num : Numeric) (sc : (o : OutOp) → Except Exc o.Answer) :
    (o : Op) → World → Rep o × World
  | .db o, w =>
      let r := commit (o.tx num w.ambient) w.db
      (r.1, { w with db := r.2, pass := w.pass.wrote o r.1 })
  | .out o, w => (sc o, { w with pass := w.pass.heard o (sc o) })

/-- What the sample answers, the world can answer. -/
theorem exec_answer (num : Numeric) (sc : (o : OutOp) → Except Exc o.Answer) (o : Op) (w : World) :
    (system num).exec o w (answer num sc o w).1 (answer num sc o w).2 := by
  cases o with
  | db o => exact ⟨_, rfl, rfl⟩
  | out o => rfl

/-- What the outside world says in a sample pass. -/
structure Outside where
  uuid : String
  lookup : RemoteOrderLookup
  fills : RemoteFillBatch
  placed : Except Exc OrderSubmission
  quoted : Bool := true
  tradePermission : Option Bool := some true

namespace Sample

/-- Exact arithmetic. -/
def numeric : Numeric := ⟨fun a b => a / b, fun q => q, fun _ h => h⟩

def task : ExecutionTaskRow where
  id := 0
  name := "sample"
  environment := .sandbox
  baseAsset := "BTC"
  quantityMode := .base
  createStrategy := true
  hedgeTrigger := .realtime
  hedgeThreshold := none
  maximumBaseExposure := 10
  maximumNotionalExposureUsdt := 10000
  maximumRetries := 3
  status := .draft
  failureCode := none
  preflightExpiresAt := none
  version := 1
  createdAt := 0
  threshold_check := .inl ⟨rfl, rfl⟩
  exposure_check := by decide
  retries_check := by decide

/-- A spot buy of four units as the anchor. -/
def anchor : ExecutionTaskLegRow where
  id := 0
  taskId := 0
  accountId := some 7
  exchange := .binance
  ordinal := 0
  role := .anchor
  marketType := .spot
  side := .buy
  baseAsset := "BTC"
  symbol := "BTCUSDT"
  targetQuantity := 4
  resolvedBaseQuantity := none
  signedBaseRatio := none
  perOrderQuantity := 0
  orderMode := .protectedIoc
  maximumSlippage := 1 / 100
  makerBookLevel := none
  makerMaximumChases := none
  makerFallbackMode := none
  marginMode := none
  leverage := 1
  reduceOnly := false
  target_check := by decide
  child_check := by decide +kernel
  slippage_check := by decide +kernel
  maker_check := .inr ⟨by decide, rfl, rfl, rfl⟩
  fallback_check := by decide
  margin_check := .inl ⟨rfl, rfl, rfl, rfl⟩

/-- A perpetual sell of four units as its hedge. -/
def hedge : ExecutionTaskLegRow :=
  { anchor with
    role := .hedge, marketType := .perpetual, side := .sell, marginMode := some .isolated
    margin_check := .inr ⟨rfl, rfl, by decide, by decide⟩ }

def plan : TaskPlan where
  task := task
  legs := [anchor, hedge]
  leg_count := ⟨by decide, by decide⟩
  one_anchor := by decide

def pair : InstrumentPair where
  exchange := .binance
  baseAsset := "BTC"
  spotSymbol := "BTCUSDT"
  perpSymbol := "BTCUSDT"
  spotPriceIncrement := 1
  spotQuantityIncrement := 1
  spotMinQuantity := 0
  spotMinNotional := 0
  perpPriceIncrement := 1
  perpQuantityIncrement := 1
  perpMinQuantity := 0
  perpMinNotional := 0
  perpContractSize := 1

def opportunity : Opportunity := ⟨.binance, "BTC", 0, 100, 100, 100, 100, .healthy⟩

def snapshot : AccountSnapshot where
  spotUsdtAvailable := 1000
  perpUsdtAvailable := 1000
  sharedBalance := false
  positionMode := .oneWay
  tradePermission := some true
  perpMarginMode := .isolated
  spotBuyFeeInBase := none

/-- Everything an outside answer does not vary. -/
def outside (v : Outside) : (o : OutOp) → Except Exc o.Answer
  | .now => .ok 0
  | .uuid => .ok v.uuid
  | .latestOpportunities _ => .ok (if v.quoted then [opportunity] else [])
  | .instrumentPairs _ => .ok [pair]
  | .fetchBook .. => .ok ⟨[99], [101], 0⟩
  | .accountSummary _ => .ok (some ⟨.binance, .sandbox⟩)
  | .hasSecrets _ => .ok true
  | .openClient _ => .ok ()
  | .orderByClientId .. => .ok v.lookup
  | .fillsForOrder .. => .ok v.fills
  | .cancelOrder .. => .ok ()
  | .snapshot _ => .ok { snapshot with tradePermission := v.tradePermission }
  | .spotAssetAvailable .. => .ok 100
  | .configurePerp _ symbol leverage mode _ => .ok ⟨symbol, leverage, true, mode⟩
  | .placeOrder .. => v.placed
  | .close _ => .ok ()

/-- A complete lookup of an unknown order, no fills, an accepted submission. -/
def absent (token : String) : Outside where
  uuid := token
  lookup := ⟨none, true, none⟩
  fills := ⟨[], true, none⟩
  placed := .ok ⟨.spot, "BTCUSDT", "bh-1", some "1"⟩

/-- A complete lookup of an order in the given state, its trades of the given
total, a submission whose outcome stays open. -/
def known (token status : String) (reported traded : ℚ) : Outside where
  uuid := token
  lookup := ⟨some ⟨"1", some "bh-1", "spot", "BTCUSDT", "buy", status, 100, 4, reported, false⟩,
    true, none⟩
  fills := ⟨if traded = 0 then [] else
    [⟨"t", "1", some "bh-1", "spot", "BTCUSDT", "buy", traded, 100, 0, "USDT", "taker", 0⟩], true,
    none⟩
  placed := .error (.ofKind .privateRequest "request failed")

/-- The answers of a pass. -/
def answers (v : Outside) : (o : Op) → World → Rep o × World := answer numeric (outside v)

/-- A pass up to the first operation `stop` selects. -/
def upTo (v : Outside) (stop : Op → Bool) (w : World) : State :=
  System.play (answers v) stop (runOnce numeric "worker") w

/-- One whole pass. -/
def pass (v : Outside) (w : World) : World :=
  { (upTo v (fun _ => false) w).world with pass := .idle }

def empty : World where
  db := ⟨some ⟨.ready, ""⟩, [], [], [], [], [], [], [], 0⟩
  ambient := ⟨0, []⟩
  pass := .idle

/-- The task is planned, preflighted and queued. -/
def queued : World :=
  Act.apply (.queue 0 2) (Act.apply (.preflightReady 0 1 100) (Act.apply (.createTask plan) empty))

/-- The anchor order is created, submitted and acknowledged. -/
def acknowledged : World := pass (absent "a") (pass (absent "a") queued)

/-- It is found filled. -/
def anchored : World := pass (known "a" "filled" 4 4) acknowledged

/-- No quote can be had for the hedge; the anchor is to be undone. -/
def unquoted : World := pass { absent "b" with quoted := false } anchored

theorem empty_initial : Initial empty := ⟨rfl, rfl, rfl, rfl, rfl, rfl⟩

variable {allow : World → Label Op Rep Act → Prop}

abbrev Reached (allow : World → Label Op Rep Act → Prop) (s : State) : Prop :=
  Reachable numeric "worker" allow s

abbrev RunsTo (allow : World → Label Op Rep Act → Prop) (s s' : State) : Prop :=
  (system numeric).Run (runOnce numeric "worker") allow s s'

/-- The empty tables are reachable: every sample starts from them. -/
theorem reached_empty : Reached allow ⟨empty, none⟩ := .init empty_initial

/-- A step of another actor, where the condition allows it. -/
theorem runsTo_act {w : World} (a : Act) (ha : allow w (.act a)) :
    RunsTo allow ⟨w, none⟩ ⟨a.apply w, none⟩ :=
  .single ⟨_, .act rfl, ha⟩

/-- A task is created, checked and queued before the worker sees it. -/
theorem runsTo_queued (h : ∀ w a, allow w (.act a)) :
    RunsTo allow ⟨empty, none⟩ ⟨queued, none⟩ :=
  ((runsTo_act _ (h _ _)).trans (runsTo_act _ (h _ _))).trans (runsTo_act _ (h _ _))

/-- Without a condition a pass may start and crash at any time. -/
theorem anyStep_free (w : World) :
    System.anyStep w (.start : Label Op Rep Act) ∧ System.anyStep w (.crash : Label Op Rep Act) :=
  ⟨trivial, trivial⟩

variable [∀ w l, Decidable (allow w l)]

/-- A pass up to the operation that `stop` selects. -/
theorem runsTo_upTo {w : World} (v : Outside) (stop : Op → Bool) (hstart : allow w .start)
    (hf : System.follows (answers v) stop allow (runOnce numeric "worker") w) :
    RunsTo allow ⟨w, none⟩ (upTo v stop w) :=
  System.Run.pass (exec_answer numeric (outside v)) hstart hf

/-- A whole pass. -/
theorem runsTo_pass {w : World} (v : Outside) (hfree : ∀ w, allow w .start ∧ allow w .crash)
    (hf : System.follows (answers v) (fun _ => false) allow (runOnce numeric "worker") w) :
    RunsTo allow ⟨w, none⟩ ⟨pass v w, none⟩ :=
  (runsTo_upTo v _ (hfree w).1 hf).trans
    (System.Run.leave (System.play_isSome _ _) (hfree _).2)

end Sample

/-- The client order id of the submission the worker is about to make. -/
def submitted (s : State) : Option String :=
  match s.pass with
  | some (.call (.out (.placeOrder _ request)) _) => some request.clientOrderId
  | _ => none

/-- A worker that is about to submit under a client order id is about to place
such an order. -/
theorem submits_of_submitted {s : State} (cid : String) (h : submitted s = some cid) :
    ∃ request, Submits s request ∧ request.clientOrderId = cid := by
  unfold submitted at h
  split at h
  · next client request k hpass =>
      injection h with h
      exact ⟨request, ⟨client, k, hpass⟩, h⟩
  · cases h

/-- The worker is about to create an order. -/
def creating (s : State) : Bool :=
  match s.pass with
  | some (.call (.db (.createOrder _)) _) => true
  | _ => false

theorem creates_of_creating {s : State} (h : creating s) : ∃ a, Creates s a := by
  unfold creating at h
  split at h
  · next a k hpass => exact ⟨a, k, hpass⟩
  · cases h

/-- The order the worker is about to create. -/
def attempt (s : State) : Option OrderAttempt :=
  match s.pass with
  | some (.call (.db (.createOrder a)) _) => some a
  | _ => none

/-- A worker that is about to create an attempt creates this one. -/
theorem creates_of_attempt {s : State} {a : OrderAttempt} (h : attempt s = some a) :
    Creates s a := by
  unfold attempt at h
  split at h
  · next a' k hpass =>
      cases h
      exact ⟨k, hpass⟩
  · cases h

/-- A creation. -/
def isCreate : Op → Bool
  | .db (.createOrder _) => true
  | _ => false

/-- A submission. -/
def isPlace : Op → Bool
  | .out (.placeOrder ..) => true
  | _ => false

end BasisHawk.MultiLeg
