/-
  BasisHawk.MultiLeg.OrderLife
  ────────────────────────────
  What becomes of an order of the multi-leg executor, whoever writes.

  The live worker creates, marks and observes orders one at a time; the paper
  worker stores them filled.  Neither ever deletes one, and once an order has
  ended nothing is written to it or recorded for it any more.

  Main results:
    • `DbOp.ordersKept`, `paper_ordersKept` — what one transaction does to the
      orders and the fills,
    • `exec_ordersKept` — what one operation of the workers does,
    • `orders_kept` — every order over every run.
-/
import BasisHawk.MultiLeg.Attempts
import BasisHawk.MultiLeg.Lifecycle

namespace BasisHawk.MultiLeg

open Domain Lib Accounts Database

/-! ## §1. One order. -/

/-- An order has the time of its end exactly if it has ended. -/
def ExecutionOrderRow.Dated (o : ExecutionOrderRow) : Prop :=
  o.terminalAt.isSome = o.status.isTerminal

/-- The same order at a later time. -/
structure ExecutionOrderRow.Later (o o' : ExecutionOrderRow) : Prop where
  same : SameOrder o o'
  limitPrice : o'.limitPrice = o.limitPrice
  filled : o.filledQuantity ≤ o'.filledQuantity
  left : o.status ≠ .created → o'.status ≠ .created
  submitted : ∀ t, o.submittedAt = some t → o'.submittedAt = some t
  ended : o.status.isTerminal → o' = o
  dated : o.Dated → o'.Dated

namespace ExecutionOrderRow.Later

variable {o o' o'' : ExecutionOrderRow}

/-- An order is later than itself. -/
theorem refl (o : ExecutionOrderRow) : o.Later o where
  same := ⟨rfl, rfl, rfl, rfl, rfl, rfl, rfl, rfl, rfl, rfl, rfl, rfl, rfl, rfl⟩
  limitPrice := rfl
  filled := le_refl _
  left := fun h => h
  submitted := fun _ h => h
  ended := fun _ => rfl
  dated := fun h => h

/-- Later states compose. -/
theorem trans (h : o.Later o') (h' : o'.Later o'') : o.Later o'' where
  same :=
    { id := h'.same.id.trans h.same.id
      runId := h'.same.runId.trans h.same.runId
      taskLegId := h'.same.taskLegId.trans h.same.taskLegId
      clientOrderId := h'.same.clientOrderId.trans h.same.clientOrderId
      purpose := h'.same.purpose.trans h.same.purpose
      quantity := h'.same.quantity.trans h.same.quantity
      baseMultiplier := h'.same.baseMultiplier.trans h.same.baseMultiplier
      side := h'.same.side.trans h.same.side
      reduceOnly := h'.same.reduceOnly.trans h.same.reduceOnly
      parentOrderId := h'.same.parentOrderId.trans h.same.parentOrderId
      attemptNumber := h'.same.attemptNumber.trans h.same.attemptNumber
      chaseNumber := h'.same.chaseNumber.trans h.same.chaseNumber
      orderMode := h'.same.orderMode.trans h.same.orderMode
      createdAt := h'.same.createdAt.trans h.same.createdAt }
  limitPrice := h'.limitPrice.trans h.limitPrice
  filled := le_trans h.filled h'.filled
  left := fun hs => h'.left (h.left hs)
  submitted := fun t ht => h'.submitted t (h.submitted t ht)
  ended := fun ht => by
    have heq := h.ended ht
    subst heq
    exact h'.ended ht
  dated := fun hd => h'.dated (h.dated hd)

/-- A new version of an order that has not ended. -/
theorem of_active (hactive : o.status.isTerminal = false) (hsame : SameOrder o o')
    (hlimit : o'.limitPrice = o.limitPrice) (hfilled : o.filledQuantity ≤ o'.filledQuantity)
    (hstatus : o'.status ≠ .created)
    (hsubmitted : ∀ t, o.submittedAt = some t → o'.submittedAt = some t)
    (hdated : o.terminalAt = none → o'.Dated) : o.Later o' where
  same := hsame
  limitPrice := hlimit
  filled := hfilled
  left := fun _ => hstatus
  submitted := hsubmitted
  ended := fun h => by
    rw [hactive] at h
    cases h
  dated := fun hd => by
    have hnone : o.terminalAt.isSome = false := hd.trans hactive
    exact hdated (Option.isSome_eq_false_iff.mp hnone |> Option.isNone_iff_eq_none.mp)

end ExecutionOrderRow.Later

open ExecutionOrderRow (Later Dated)

/-! ## §2. The tables. -/

/-- The fills recorded for an order. -/
def fillsOf (db : Database) (orderId : Nat) : List ExecutionFillRow :=
  db.fills.filter (·.executionOrderId = orderId)

/-- The leg is one of a task that is started. -/
def Trading (db : Database) (legId : Nat) : Prop :=
  ∃ l t, Table.find? db.legs legId = some l ∧ Table.find? db.tasks l.taskId = some t
    ∧ t.status.isStarted

/-- A new order is the first attempt on its leg, unless the leg has one already. -/
def InSequence (db : Database) (o : ExecutionOrderRow) : Prop :=
  (o.attemptNumber = 1 ∧ o.chaseNumber = 0) ∨ ∃ earlier ∈ db.orders, earlier.taskLegId = o.taskLegId

/-- What one step does to the orders and the fills: no order goes away, a new one
has a new key, and what is recorded is recorded on a trading leg, for a new order
or for one that has not ended. -/
structure OrdersKept (db db' : Database) : Prop where
  forth : ∀ o ∈ db.orders, ∃ o' ∈ db'.orders, o.Later o'
  back : ∀ o' ∈ db'.orders, (∃ o ∈ db.orders, o.Later o')
    ∨ (db.nextId ≤ o'.id ∧ o'.Dated ∧ InSequence db o')
  fills : ∃ added, db'.fills = db.fills ++ added
    ∧ ∀ f ∈ added, ∃ o' ∈ db'.orders, o'.id = f.executionOrderId ∧ Trading db o'.taskLegId
      ∧ (db.nextId ≤ o'.id ∨ ∃ o ∈ db.orders, o.Later o' ∧ o.status.isTerminal = false)

namespace OrdersKept

variable {db db' : Database}

/-- Orders and fills that are not touched are kept. -/
theorem same (horders : db'.orders = db.orders) (hfills : db'.fills = db.fills) :
    OrdersKept db db' where
  forth := fun o ho => ⟨o, horders ▸ ho, .refl o⟩
  back := fun o ho => .inl ⟨o, horders ▸ ho, .refl o⟩
  fills := ⟨[], by rw [hfills, List.append_nil], fun f hf => absurd hf List.not_mem_nil⟩

/-- One order is written, and fills are recorded for it. -/
theorem put (hu : Table.Unique db.orders) {old new : ExecutionOrderRow}
    {added : List ExecutionFillRow} (horders : db'.orders = Table.put db.orders new)
    (hfills : db'.fills = db.fills ++ added) (hold : old ∈ db.orders) (hlater : old.Later new)
    (hadded : ∀ f ∈ added, f.executionOrderId = old.id
      ∧ old.status.isTerminal = false ∧ Trading db old.taskLegId) : OrdersKept db db' := by
  have hid : new.id = old.id := hlater.same.id
  have hnew : new ∈ db'.orders := by
    rw [horders]
    exact Table.mem_put.mpr (.inl ⟨rfl, old, hold, hid.symm⟩)
  refine ⟨fun o ho => ?_, fun o' ho' => ?_, added, hfills, fun f hf => ?_⟩
  · by_cases hk : o.id = new.id
    · have heq : o = old := hu.eq ho hold (hk.trans hid)
      exact ⟨new, hnew, heq ▸ hlater⟩
    · exact ⟨o, by rw [horders]; exact Table.mem_put.mpr (.inr ⟨ho, hk⟩), .refl o⟩
  · rw [horders] at ho'
    rcases Table.mem_put.mp ho' with ⟨rfl, -⟩ | ⟨ho, -⟩
    · exact .inl ⟨old, hold, hlater⟩
    · exact .inl ⟨o', ho, .refl o'⟩
  · obtain ⟨howner, hactive, htrading⟩ := hadded f hf
    refine ⟨new, hnew, hid.trans howner.symm, ?_, .inr ⟨old, hold, hlater, hactive⟩⟩
    rw [hlater.same.taskLegId]
    exact htrading

/-- One order is written. -/
theorem mark (hu : Table.Unique db.orders) {old new : ExecutionOrderRow}
    (horders : db'.orders = Table.put db.orders new) (hfills : db'.fills = db.fills)
    (hold : old ∈ db.orders) (hlater : old.Later new) : OrdersKept db db' :=
  .put hu horders (by rw [hfills, List.append_nil]) hold hlater fun _ hf => absurd hf List.not_mem_nil

/-- New orders come with the fills of theirs. -/
theorem append {orders : List ExecutionOrderRow} {added : List ExecutionFillRow}
    (horders : db'.orders = db.orders ++ orders) (hfills : db'.fills = db.fills ++ added)
    (hnew : ∀ o ∈ orders, db.nextId ≤ o.id ∧ o.Dated ∧ InSequence db o)
    (howner : ∀ f ∈ added, ∃ o ∈ orders, o.id = f.executionOrderId ∧ Trading db o.taskLegId) :
    OrdersKept db db' where
  forth := fun o ho => ⟨o, by rw [horders]; exact List.mem_append.mpr (.inl ho), .refl o⟩
  back := fun o ho => by
    rw [horders] at ho
    rcases List.mem_append.mp ho with ho | ho
    · exact .inl ⟨o, ho, .refl o⟩
    · exact .inr (hnew o ho)
  fills := ⟨added, hfills, fun f hf => by
    obtain ⟨o, ho, hid, htrading⟩ := howner f hf
    refine ⟨o, ?_, hid, htrading, .inl (hnew o ho).1⟩
    rw [horders]
    exact List.mem_append.mpr (.inr ho)⟩

end OrdersKept

/-! ## §3. The transactions of the live worker. -/

/-- A claim writes to the runs and the tasks alone. -/
theorem claim_frame (amb : Ambient) (db : Database) (taskId : Nat) (workerId : String) :
    ∃ runs n, db.nextId ≤ n
      ∧ (db.claimRun taskId workerId amb).2 = { db with runs := runs, nextId := n } := by
  rcases claimRun_cases amb db taskId workerId with ⟨-, -, -, -, -, -, heq⟩ | ⟨-, -, -, -, heq⟩
  · exact ⟨_, db.nextId, le_refl _, heq⟩
  · exact ⟨_, _, Nat.le_succ _, heq⟩

/-- A transaction that writes to no order and records no fill. -/
def DbOp.sparesOrders : DbOp → Prop
  | .createOrder _ | .markUnknown _ | .markSubmitted .. | .markCancelPending _ | .observe _ => False
  | _ => True

/-- The operations on tasks and legs leave orders and fills alone. -/
theorem DbOp.sparesOrders_tx {num : Numeric} {amb : Ambient} {o : DbOp} {r : o.Result}
    {db db' : Database} (hok : o.tx num amb db = .ok (r, db')) (ho : o.sparesOrders) :
    db'.orders = db.orders ∧ db'.fills = db.fills := by
  refine ⟨?_, DbOp.fills_tx hok fun ob h => by rw [h] at ho; exact ho⟩
  cases o with
  | claim workerId =>
      -- A claim, whether it takes up an old run or makes one.
      rcases claimLiveExecutionTask_ok hok with ⟨-, rfl⟩ | ⟨row, -, -, -, rfl, -⟩
      · rfl
      · obtain ⟨runs, n, -, heq⟩ := claim_frame amb db row.id workerId
        rw [heq]
  | ordersForRun runId =>
      injection hok with hok
      rw [(Prod.mk.inj hok).2]
  | executionTask taskId =>
      injection hok with hok
      rw [(Prod.mk.inj hok).2]
  | setPhase taskId status =>
      obtain ⟨row, -, -, -, ⟨-, rfl⟩ | ⟨row', rfl, -⟩⟩ := setExecutionTaskPhase_ok hok <;> rfl
  | resolveLeg legId base ratio =>
      obtain ⟨row, -, ⟨-, rfl, -⟩ | ⟨-, -, rfl⟩⟩ := resolveExecutionTaskLegQuantity_ok hok <;> rfl
  | beginCompensation taskId runId code worker =>
      obtain ⟨⟨task, -, hm⟩, -⟩ := beginExecutionTaskCompensation_ok hok
      exact hm.orders
  | failRun taskId runId code worker manualReview =>
      obtain ⟨⟨task, hm⟩, -⟩ := failExecutionTaskRun_ok hok
      exact hm.orders
  | complete taskId runId worker =>
      obtain ⟨⟨task, ⟨-, hm⟩ | rfl⟩, -⟩ := completeLiveExecutionTask_ok hok
      · exact hm.orders
      · rfl
  | createOrder | markUnknown | markSubmitted | markCancelPending | observe => cases ho

/-- A new order has not ended. -/
theorem createExecutionOrderAttempt_terminalAt {a : OrderAttempt} {amb : Ambient}
    {row : ExecutionOrderRow} {db db' : Database}
    (h : createExecutionOrderAttempt a amb db = .ok (row, db')) : row.terminalAt = none := by
  simp only [createExecutionOrderAttempt, found_bind_eq_ok, raiseIf_bind_eq_ok] at h
  obtain ⟨run, -, leg, -, -, -, h⟩ := h
  obtain ⟨⟨attempt, chase⟩, -, h⟩ := bind_eq_ok.mp h
  simp only [raiseIf_bind_eq_ok] at h
  obtain ⟨-, -, h⟩ := h
  split at h
  · injection h with h
    obtain ⟨rfl, -⟩ := Prod.mk.inj h
    rfl
  · cases h

/-- The numbers of a new order. -/
theorem createExecutionOrderAttempt_inSequence {a : OrderAttempt} {amb : Ambient}
    {row : ExecutionOrderRow} {db db' : Database}
    (h : createExecutionOrderAttempt a amb db = .ok (row, db')) : InSequence db row := by
  obtain ⟨hnumbers, -, -, -, -, hleg, -, -, -⟩ := createExecutionOrderAttempt_numbers h
  unfold attemptNumbers at hnumbers
  split at hnumbers
  · -- A chase follows its parent.
    obtain ⟨parent, hparent, -⟩ := found_bind_eq_ok.mp hnumbers
    have hfits := List.find?_some hparent
    rw [decide_eq_true_eq] at hfits
    exact .inr ⟨parent, List.mem_of_find?_eq_some hparent, hfits.2.2.trans hleg.symm⟩
  · injection hnumbers with hnumbers
    obtain ⟨hattempt, hchase⟩ := Prod.mk.inj hnumbers
    cases hs : db.orders.filter fun o => o.runId = a.runId ∧ o.taskLegId = a.taskLegId with
    | nil =>
        rw [hs] at hattempt
        exact .inl ⟨hattempt.symm, hchase.symm⟩
    | cons earlier rest =>
        have hmem : earlier ∈ db.orders.filter fun o => o.runId = a.runId ∧ o.taskLegId = a.taskLegId :=
          hs ▸ List.mem_cons_self
        obtain ⟨hmem, hfits⟩ := List.mem_filter.mp hmem
        rw [decide_eq_true_eq] at hfits
        exact .inr ⟨earlier, hmem, hfits.2.trans hleg.symm⟩

/-- An observation of an order that has not ended. -/
theorem observe_later {ob : Observation} {amb : Ambient} {row' : ExecutionOrderRow}
    {db db' : Database} (h : applyExecutionOrderObservation ob amb db = .ok (row', db')) :
    ∃ row added n, Table.find? db.orders ob.orderId = some row
      ∧ (row.status.isTerminal = false → row.Later row') ∧ db.nextId ≤ n
      ∧ db' = { db with
          orders := Table.put db.orders row', fills := db.fills ++ added, nextId := n }
      ∧ ∀ f ∈ added, f.executionOrderId = ob.orderId := by
  obtain ⟨row, db₁, hrow, ⟨hcreated, -⟩, ⟨hback, -⟩, h₁, hsame, hsub, hlimit, hst, hfilled, hend, rfl⟩ :=
    applyExecutionOrderObservation_rows h
  obtain ⟨added, n, hn, rfl, hadded⟩ := persistFills_ok h₁
  refine ⟨row, added, n, hrow, fun hactive => ?_, hn, rfl, hadded⟩
  refine .of_active hactive hsame hlimit (by rw [hfilled]; exact hback)
    (fun hc => hcreated (hst.symm.trans hc)) (fun _ ht => hsub.trans ht) fun hnone => ?_
  unfold ExecutionOrderRow.Dated
  rw [hend, hst, hnone]
  cases ob.status.isTerminal <;> rfl

/-- A transaction of the live worker, where what it observes has not ended and
belongs to a trading leg. -/
theorem DbOp.ordersKept {num : Numeric} {amb : Ambient} {o : DbOp} {r : o.Result}
    {db db' : Database} (hu : Table.Unique db.orders)
    (hguard : ∀ ob, o = .observe ob → ∀ row ∈ db.orders, row.id = ob.orderId →
      row.status.isTerminal = false ∧ Trading db row.taskLegId)
    (hok : o.tx num amb db = .ok (r, db')) : OrdersKept db db' := by
  have hspare : o.sparesOrders → OrdersKept db db' := fun ho =>
    .same (DbOp.sparesOrders_tx hok ho).1 (DbOp.sparesOrders_tx hok ho).2
  cases o with
  | createOrder a =>
      obtain ⟨-, -, hid, -, -, -, -, hst, -, -, -, -, -, -, hdb⟩ := createExecutionOrderAttempt_ok hok
      have horders : db'.orders = db.orders ++ [r] := by rw [hdb]
      have hfills : db'.fills = db.fills ++ [] := by rw [hdb, List.append_nil]
      refine .append horders hfills ?_ fun f hf => absurd hf List.not_mem_nil
      intro row hrow
      rw [List.mem_singleton.mp hrow]
      refine ⟨hid.ge, ?_, createExecutionOrderAttempt_inSequence hok⟩
      unfold ExecutionOrderRow.Dated
      rw [hst, createExecutionOrderAttempt_terminalAt hok]
      rfl
  | markUnknown id =>
      obtain ⟨row, hrow, ⟨-, rfl⟩ | ⟨hst, hnew, rfl⟩⟩ := markExecutionOrderUnknown_ok hok
      · exact .same rfl rfl
      · refine .mark hu rfl rfl (Table.find?_some hrow).1 ?_
        rw [hnew]
        refine .of_active (by rcases hst with h | h | h <;> rw [h] <;> rfl)
          ⟨rfl, rfl, rfl, rfl, rfl, rfl, rfl, rfl, rfl, rfl, rfl, rfl, rfl, rfl⟩ rfl (le_refl _)
          (fun hc => (by cases hc)) (fun _ ht => ht) fun hnone => ?_
        show row.terminalAt.isSome = false
        rw [hnone]
        rfl
  | markSubmitted id ex =>
      obtain ⟨row, hrow, ⟨-, rfl, -⟩ | ⟨hst, hnew, rfl⟩⟩ := markExecutionOrderSubmitted_ok hok
      · exact .same rfl rfl
      · refine .mark hu rfl rfl (Table.find?_some hrow).1 ?_
        rw [hnew]
        refine .of_active (by rcases hst with h | h <;> rw [h] <;> rfl)
          ⟨rfl, rfl, rfl, rfl, rfl, rfl, rfl, rfl, rfl, rfl, rfl, rfl, rfl, rfl⟩ rfl (le_refl _)
          (fun hc => (by cases hc)) (fun t ht => ?_) fun hnone => ?_
        · show some (row.submittedAt.getD amb.now) = some t
          rw [ht]
          rfl
        · show row.terminalAt.isSome = false
          rw [hnone]
          rfl
  | markCancelPending id =>
      obtain ⟨row, hrow, ⟨-, rfl⟩ | ⟨hst, hnew, rfl⟩⟩ := markExecutionOrderCancelPending_ok hok
      · exact .same rfl rfl
      · refine .mark hu rfl rfl (Table.find?_some hrow).1 ?_
        rw [hnew]
        refine .of_active hst
          ⟨rfl, rfl, rfl, rfl, rfl, rfl, rfl, rfl, rfl, rfl, rfl, rfl, rfl, rfl⟩ rfl (le_refl _)
          (fun hc => (by cases hc)) (fun _ ht => ht) fun hnone => ?_
        show row.terminalAt.isSome = false
        rw [hnone]
        rfl
  -- The guard: an order that has ended is not observed again.
  | observe ob =>
      obtain ⟨row, added, n, hrow, hlater, -, hdb, hadded⟩ := observe_later hok
      obtain ⟨hmem, hid⟩ := Table.find?_some hrow
      obtain ⟨hactive, htrading⟩ := hguard ob rfl row hmem hid
      refine .put hu (by rw [hdb]) (by rw [hdb]) hmem (hlater hactive) fun f hf => ?_
      exact ⟨(hadded f hf).trans hid.symm, hactive, htrading⟩
  -- These write to tasks, runs and legs.
  | claim | ordersForRun | executionTask | setPhase | resolveLeg | beginCompensation | failRun
    | complete => exact hspare trivial

/-! ## §4. The transactions of the paper worker. -/

/-- Resolving the legs writes to the legs alone. -/
theorem resolvePaperLegs_frame {num : Numeric} {fills : List PaperFill} {anchorQuantity : ℚ} :
    ∀ {legs : List ExecutionTaskLegRow} {db db' : Database},
      resolvePaperLegs num fills anchorQuantity legs db = .ok db' →
        ∃ legs', db' = { db with legs := legs' }
  | [], db, db', h => by
      injection h with h
      exact ⟨db.legs, h.symm⟩
  | leg :: rest, db, db', h => by
      obtain ⟨base, -, h⟩ := bind_eq_ok.mp h
      obtain ⟨ratio, -, h⟩ := bind_eq_ok.mp h
      obtain ⟨legs', rfl⟩ := resolvePaperLegs_frame h
      exact ⟨legs', rfl⟩

/-- The strategy leg of one fill. -/
def paperStrategyLeg (leg : ExecutionTaskLegRow) (f : PaperFill) (id strategyId : Nat) :
    StrategyLegRow where
  id := id
  strategyId := strategyId
  openingTaskLegId := leg.id
  accountId := leg.accountId
  ordinal := leg.ordinal
  marketType := leg.marketType
  side := leg.side
  symbol := leg.symbol
  initialBaseQuantity := f.base
  remainingBaseQuantity := f.base
  entryPrice := f.price
  feesUsdt := f.feeUsdt

/-- One fill adds one order, which has ended, with its fill and its strategy leg. -/
theorem storePaperFill_rows {runId : Nat} {strategyId : Option Nat}
    {legs : List ExecutionTaskLegRow} {f : PaperFill} {amb : Ambient} {db db' : Database}
    (h : storePaperFill runId strategyId legs f amb db = .ok db') :
    ∃ leg hq fill, legs.find? (fun l => l.id = f.taskLegId) = some leg
      ∧ fill.executionOrderId = db.nextId ∧ fill.quantity = f.nativeQuantity
      ∧ fill.price = f.price ∧ fill.feeAmount = f.feeUsdt ∧ fill.feeAsset = "USDT"
      ∧ (∀ o ∈ db.orders, o.taskLegId = leg.id → ¬(o.attemptNumber = 1 ∧ o.chaseNumber = 0))
      ∧ db' = { db with
          orders := db.orders ++ [paperOrder runId leg f amb db.nextId hq]
          fills := db.fills ++ [fill]
          strategyLegs := db.strategyLegs
            ++ strategyId.toList.map (paperStrategyLeg leg f (db.nextId + 2))
          nextId := db.nextId + 3 } := by
  simp only [storePaperFill, found_bind_eq_ok] at h
  obtain ⟨leg, hleg, h⟩ := h
  split at h
  · next hq =>
      simp only [raiseIf_bind_eq_ok] at h
      obtain ⟨-, hattempt, h⟩ := h
      split at h
      · injection h with h
        refine ⟨leg, hq, _, hleg, rfl, rfl, rfl, rfl, rfl, fun o ho hid hn => ?_, h.symm⟩
        exact hattempt ⟨o, ho, hid, hn.1, hn.2⟩
      · cases h
  · cases h

/-- The loop over the fills only appends, new orders that have ended. -/
theorem storePaperFills_appends {runId : Nat} {strategyId : Option Nat}
    {legs : List ExecutionTaskLegRow} {amb : Ambient} :
    ∀ {fills : List PaperFill} {db db' : Database},
      storePaperFills runId strategyId legs amb fills db = .ok db' →
        ∃ orders added strategyLegs n, db.nextId ≤ n
          ∧ db' = { db with
              orders := db.orders ++ orders, fills := db.fills ++ added
              strategyLegs := db.strategyLegs ++ strategyLegs, nextId := n }
          ∧ (∀ o ∈ orders, db.nextId ≤ o.id
            ∧ (o.Dated ∧ o.attemptNumber = 1 ∧ o.chaseNumber = 0) ∧ ∃ l ∈ legs, l.id = o.taskLegId)
          ∧ ∀ f ∈ added, ∃ o ∈ orders, o.id = f.executionOrderId
  | [], db, db', h => by
      injection h with h
      refine ⟨[], [], [], db.nextId, le_refl _, ?_, fun o ho => absurd ho List.not_mem_nil,
        fun f hf => absurd hf List.not_mem_nil⟩
      simp only [List.append_nil]
      exact h.symm
  | f :: rest, db, db', h => by
      obtain ⟨db₁, h₁, h⟩ := bind_eq_ok.mp h
      -- One fill: an order, its fill and its row of the strategy, under the next three identifiers.
      obtain ⟨leg, hq, fill, hleg, howner, -, -, -, -, -, rfl⟩ := storePaperFill_rows h₁
      obtain ⟨orders, added, strategyLegs, n, hn, rfl, horders, hadded⟩ := storePaperFills_appends h
      have hbelow : db.nextId + 3 ≤ n := hn
      refine ⟨[paperOrder runId leg f amb db.nextId hq] ++ orders, [fill] ++ added,
        strategyId.toList.map (paperStrategyLeg leg f (db.nextId + 2)) ++ strategyLegs, n, by omega, ?_,
        ?_, ?_⟩
      · simp only [List.append_assoc]
      · refine List.forall_mem_cons.mpr
          ⟨⟨le_refl _, ⟨rfl, rfl, rfl⟩, leg, List.mem_of_find?_eq_some hleg, rfl⟩, fun o ho => ?_⟩
        -- The later ones come under larger identifiers still.
        obtain ⟨hid, hrest⟩ := horders o ho
        have hid : db.nextId + 3 ≤ o.id := hid
        exact ⟨by omega, hrest⟩
      · refine List.forall_mem_cons.mpr ⟨⟨_, List.mem_cons_self, howner.symm⟩, fun x hx => ?_⟩
        obtain ⟨o, ho, hid⟩ := hadded x hx
        exact ⟨o, List.mem_cons_of_mem _ ho, hid⟩

/-- With or without a strategy, nothing has been stored of the orders before their
loop. -/
theorem startPaperStrategy_frame (task : ExecutionTaskRow) (fills : List PaperFill) (amb : Ambient)
    (db : Database) (createStrategy : Bool) :
    let db' := if createStrategy then db.openPaperStrategy task fills amb else db
    db'.orders = db.orders ∧ db'.fills = db.fills ∧ db.nextId ≤ db'.nextId := by
  cases createStrategy with
  | false => exact ⟨rfl, rfl, le_refl _⟩
  | true => exact ⟨rfl, rfl, Nat.le_succ _⟩

/-- A completion of a paper task adds its orders and their fills. -/
theorem completePaperExecutionTask_ordersKept {num : Numeric} {taskId runId : Nat}
    {fills : List PaperFill} {workerId : String} {amb : Ambient} {done : Bool} {db db' : Database}
    (hu : Table.Unique db.legs)
    (h : completePaperExecutionTask num taskId runId fills workerId amb db = .ok (done, db')) :
    OrdersKept db db' := by
  rcases completePaperExecutionTask_rows h with
    rfl | ⟨task, run, _, db₁, db₂, ⟨hfound, hrunning⟩, -, -, hresolve, hstore, rfl⟩
  · exact .same rfl rfl
  obtain ⟨legs', rfl⟩ := resolvePaperLegs_frame hresolve
  -- The task is running, and the orders are for its legs.
  have htrading : ∀ legId, (∃ l ∈ db.legsOfTask taskId, l.id = legId) → Trading db legId := by
    rintro legId ⟨l, hl, hid⟩
    obtain ⟨hmem, htask⟩ := mem_legsOfTask.mp hl
    refine ⟨l, task, (Table.find?_eq_some_iff hu).mpr ⟨hmem, hid⟩, ?_, ?_⟩
    · rw [htask]
      exact hfound
    · rw [hrunning]
      rfl
  have howner : ∀ {orders : List ExecutionOrderRow} {added : List ExecutionFillRow} {n : Nat},
      (∀ o ∈ orders, n ≤ o.id ∧ (o.Dated ∧ o.attemptNumber = 1 ∧ o.chaseNumber = 0)
        ∧ ∃ l ∈ db.legsOfTask taskId, l.id = o.taskLegId) →
      (∀ f ∈ added, ∃ o ∈ orders, o.id = f.executionOrderId) →
      ∀ f ∈ added, ∃ o ∈ orders, o.id = f.executionOrderId ∧ Trading db o.taskLegId := by
    intro orders added n horders hadded f hf
    obtain ⟨o, ho, hid⟩ := hadded f hf
    exact ⟨o, ho, hid, htrading o.taskLegId (horders o ho).2.2⟩
  obtain ⟨horders₃, hfills₃, hnext₃⟩ := startPaperStrategy_frame task fills amb
    { db with legs := legs' } task.createStrategy
  generalize (if task.createStrategy then _ else _ : Database) = db₃ at hstore horders₃ hfills₃ hnext₃
  obtain ⟨orders, added, _, n, -, rfl, horders, hadded⟩ := storePaperFills_appends hstore
  refine .append (congrArg (· ++ orders) horders₃) (congrArg (· ++ added) hfills₃) (fun o ho => ?_)
    (howner horders hadded)
  obtain ⟨hid, ⟨hdated, hfirst⟩, -⟩ := horders o ho
  exact ⟨hnext₃.trans hid, hdated, .inl hfirst⟩

/-- An operation of the paper service. -/
theorem paper_ordersKept {num : Numeric} {o : PaperOp} {w w' : World} {r : PaperRep o}
    (hwf : WellFormed w.db) (he : o.exec num w r w') : OrdersKept w.db w'.db := by
  cases o with
  | claim workerId =>
      obtain ⟨db', hc, rfl⟩ := he
      refine commit_preserves (P := OrdersKept w.db) (fun a db' hok => ?_) (.same rfl rfl) hc
      rcases claimPaperExecutionTask_ok hok with ⟨-, rfl⟩ | ⟨row, -, -, rfl, -⟩
      · exact .same rfl rfl
      · obtain ⟨runs, n, -, heq⟩ := claim_frame w.ambient w.db row.id workerId
        exact .same (by rw [heq]) (by rw [heq])
  | complete taskId runId fills workerId =>
      obtain ⟨db', hc, rfl⟩ := he
      exact commit_preserves (P := OrdersKept w.db)
        (fun a db' hok => completePaperExecutionTask_ordersKept hwf.legs_unique hok) (.same rfl rfl) hc
  | latestOpportunities | loadSettings =>
      rw [show w' = w from he]
      exact .same rfl rfl

/-! ## §5. The workers. -/

/-- The guard of an observation, among the operations of both workers. -/
def OrderGuard : AnyOp → World → Prop
  | .inl (.db (.observe ob)), w => ObserveGuard ob w
  | _, _ => True

theorem pre_orderGuard {o : Op} {w : World} (h : Pre o w) : OrderGuard (.inl o) w := by
  cases o with
  | out o => trivial
  | db o =>
      cases o with
      | observe ob => exact h
      | _ => trivial

/-- What is observed has not ended, and its leg trades. -/
theorem ObserveGuard.trading {ob : Observation} {w : World} (h : ObserveGuard ob w)
    (hwf : WellFormed w.db) : ∀ row ∈ w.db.orders, row.id = ob.orderId →
      row.status.isTerminal = false ∧ Trading w.db row.taskLegId := by
  obtain ⟨c, o, remote, batch, -, hcurrent, ho, hactive, -, rfl⟩ := h
  intro row hrow hid
  have ho : o ∈ w.db.ordersOfRun c.run.id := by
    rw [hcurrent.orders]
    exact ho
  obtain ⟨ho, hrun⟩ := mem_ordersOfRun.mp ho
  have hrowid : row.id = o.id := by
    rw [hid]
    cases remote <;> rfl
  have heq : row = o := hwf.orders_unique.eq hrow ho hrowid
  subst heq
  rw [OrderStatus.isActive_eq_not_isTerminal] at hactive
  obtain ⟨t, ht, hstarted, -⟩ := hcurrent.task
  obtain ⟨r, hr, htask⟩ := hcurrent.run
  obtain ⟨hrmem, hrid⟩ := Table.find?_some hr
  obtain ⟨r', hr', l, hl, hrid', hlid, hsame⟩ := hwf.order_owner row ho
  have hreq : r' = r := hwf.runs_unique.eq hr' hrmem (hrid'.trans (hrun.trans hrid.symm))
  refine ⟨by simpa using hactive, l, t, (Table.find?_eq_some_iff hwf.legs_unique).mpr ⟨hl, hlid⟩, ?_,
    hstarted⟩
  rw [hsame, hreq, htask]
  exact ht

/-- What one operation does to the orders. -/
theorem exec_ordersKept {num : Numeric} {o : AnyOp} {w w' : World} {r : AnyRep o}
    (hwf : WellFormed w.db) (hguard : OrderGuard o w) (he : (anySystem num).exec o w r w') :
    OrdersKept w.db w'.db := by
  cases o with
  | inr o => exact paper_ordersKept hwf he
  | inl o =>
      cases o with
      | out o =>
          rw [show w' = { w with pass := w.pass.heard o r } from he]
          exact .same rfl rfl
      | db o =>
          obtain ⟨db', hc, rfl⟩ := he
          refine commit_preserves (P := OrdersKept w.db) (fun a db' hok => ?_) (.same rfl rfl) hc
          refine DbOp.ordersKept hwf.orders_unique (fun ob ho => ?_) hok
          subst ho
          exact ObserveGuard.trading hguard hwf

/-- The tables stay well formed, whatever guards are asked for. -/
theorem anySystem_wellFormed (num : Numeric) (Pre : AnyOp → World → Prop) :
    (anySystem num).Preserves (fun w => WellFormed w.db) Pre where
  act := (anySystem_preserves num).act
  call := fun o w r w' he _ h => by
    cases o with
    | inr o => exact h.paperTx he
    | inl o => exact (wellFormed_preserved num (fun _ _ => True)).call o w r w' he trivial h
  idle := fun _ h => h

variable {num : Numeric}

/-- A paper pass observes nothing. -/
def AnyOp.isBlind (o : AnyOp) : Prop := ∀ ob, o ≠ .inl (.db (.observe ob))

theorem blind_of_read {o : AnyOp} (h : o.isRead) : o.isBlind := by
  rintro ob rfl
  exact h

/-- The paper service looks at no order of the live worker. -/
theorem paperRunOnce_blind (num : Numeric) (workerId : String) :
    (paperRunOnce num workerId).Ensures AnyOp.isBlind fun _ => True := by
  have hblind : ∀ o : PaperOp, AnyOp.isBlind (.inr o) := fun o ob h => (by cases h)
  have hfill : ∀ c : PaperClaimed,
      (fillPaperTask num workerId c).Ensures AnyOp.isBlind fun _ => True := by
    intro c
    refine Prog.Ensures.bind ((paperQuotes_reads num c.task.quantityMode c.legs).mono
      (fun o ho => blind_of_read ho) fun _ _ => trivial) (fun quotes _ => ?_) fun _ _ => trivial
    exact ⟨hblind _, fun r => trivial⟩
  refine Prog.Ensures.bind (R := fun _ => True) ⟨hblind _, fun r => trivial⟩ (fun claimed _ => ?_)
    fun _ _ => trivial
  cases claimed with
  | none => exact trivial
  | some c =>
      refine (hfill c).resume fun r _ => ?_
      cases r with
      | ok done => exact trivial
      | error e =>
          dsimp only
          split
          · refine Prog.Ensures.bind (R := fun _ => True) ⟨fun ob h => ?_, fun r => trivial⟩
              (fun _ _ => trivial) fun _ _ => trivial
            cases h
          · exact trivial

/-- Every observation of a pass meets its guard. -/
theorem anyPass_observes (paperWorker liveWorker : String) (w : World) :
    (anySystem num).wp (fun w => WellFormed w.db) OrderGuard (anyPass num paperWorker liveWorker)
      (fun _ _ => True) w := by
  have hpaper : (anySystem num).wp (fun w => WellFormed w.db) OrderGuard
      (paperRunOnce num paperWorker) (fun _ _ => True) w := by
    refine System.wp_mono _ (fun _ _ _ => trivial) w (System.wp_of_ensures (P := fun _ => True)
      (fun _ _ _ _ _ => trivial) (fun o w ho _ _ => ?_) (fun _ _ _ _ _ _ _ _ => trivial) _ w trivial
      (paperRunOnce_blind num paperWorker))
    unfold OrderGuard
    split
    · exact absurd rfl (ho _)
    · trivial
  refine System.wp_bind _ _ _ (System.wp_mono _ (fun r w _ => ?_) w hpaper)
  cases r with
  | error e => exact trivial
  | ok result =>
      refine System.wp_inl (S := anySystem num) _ _ w ?_
      exact System.wp_guards (fun o w h => pre_orderGuard h) _ _ w (runOnce_guarded liveWorker w)

/-! ## §6. Every run. -/

/-- What a run does to the orders and the fills: nothing goes away, and what has
ended stays as it is, with what was recorded for it. -/
structure OrdersLater (db db' : Database) : Prop where
  orders : ∀ o ∈ db.orders, ∃ o' ∈ db'.orders, o.Later o'
  recorded : db.fills <+: db'.fills
  ended : ∀ o ∈ db.orders, o.status.isTerminal → fillsOf db' o.id = fillsOf db o.id

theorem OrdersLater.refl (db : Database) : OrdersLater db db :=
  ⟨fun o ho => ⟨o, ho, .refl o⟩, List.prefix_refl _, fun _ _ _ => rfl⟩

/-- The relation over a run is put together from its steps. -/
theorem OrdersLater.trans {db db' db'' : Database} (h : OrdersLater db db')
    (h' : OrdersLater db' db'') : OrdersLater db db'' := by
  refine ⟨fun o ho => ?_, h.recorded.trans h'.recorded, fun o ho hover => ?_⟩
  · obtain ⟨o', ho', hlater⟩ := h.orders o ho
    obtain ⟨o'', ho'', hlater'⟩ := h'.orders o' ho'
    exact ⟨o'', ho'', hlater.trans hlater'⟩
  · obtain ⟨o', ho', hlater⟩ := h.orders o ho
    have heq : o' = o := hlater.ended hover
    subst heq
    exact (h'.ended o' ho' hover).trans (h.ended o' ho hover)

/-- What a step records goes to no order that had ended. -/
theorem OrdersKept.later {db db' : Database} (hwf : WellFormed db) (h : OrdersKept db db') :
    OrdersLater db db' := by
  obtain ⟨added, hfills, hadded⟩ := h.fills
  refine ⟨h.forth, ⟨added, hfills.symm⟩, fun o ho hover => ?_⟩
  have hnone : added.filter (fun f => f.executionOrderId = o.id) = [] := by
    refine List.filter_eq_nil_iff.mpr fun f hf hown => ?_
    have hown : f.executionOrderId = o.id := of_decide_eq_true hown
    obtain ⟨o', -, hid, -, hfresh | ⟨old, hold, hlater, hactive⟩⟩ := hadded f hf
    · have hbelow : o.id < db.nextId := hwf.orders_below o ho
      omega
    · have hsame : old.id = o.id := by
        rw [← hlater.same.id, hid, hown]
      have heq : old = o := hwf.orders_unique.eq hold ho hsame
      rw [heq, hover] at hactive
      cases hactive
  unfold fillsOf
  rw [hfills, List.filter_append, hnone, List.append_nil]

/-- The orders have the times of their ends, every fill has its order, and every
leg with an order has a first attempt. -/
structure OrdersSound (db : Database) : Prop where
  dated : ∀ o ∈ db.orders, o.Dated
  owner : ∀ f ∈ db.fills, ∃ o ∈ db.orders, o.id = f.executionOrderId
  first : ∀ o ∈ db.orders, ∃ first ∈ db.orders, first.taskLegId = o.taskLegId
    ∧ first.attemptNumber = 1 ∧ first.chaseNumber = 0

/-- What is sound about the orders stays sound under every step. -/
theorem OrdersSound.kept {db db' : Database} (hd : OrdersSound db) (h : OrdersKept db db') :
    OrdersSound db' := by
  have hfirst : ∀ o ∈ db.orders, ∃ first ∈ db'.orders, first.taskLegId = o.taskLegId
      ∧ first.attemptNumber = 1 ∧ first.chaseNumber = 0 := by
    intro o ho
    obtain ⟨first, hmem, hleg, hattempt, hchase⟩ := hd.first o ho
    obtain ⟨first', hmem', hlater⟩ := h.forth first hmem
    exact ⟨first', hmem', hlater.same.taskLegId.trans hleg, hlater.same.attemptNumber.trans hattempt,
      hlater.same.chaseNumber.trans hchase⟩
  refine ⟨fun o' ho' => ?_, fun f hf => ?_, fun o' ho' => ?_⟩
  · rcases h.back o' ho' with ⟨o, ho, hlater⟩ | ⟨-, hdated, -⟩
    · exact hlater.dated (hd.dated o ho)
    · exact hdated
  · obtain ⟨added, hfills, hadded⟩ := h.fills
    rw [hfills] at hf
    rcases List.mem_append.mp hf with hf | hf
    · obtain ⟨o, ho, hid⟩ := hd.owner f hf
      obtain ⟨o', ho', hlater⟩ := h.forth o ho
      exact ⟨o', ho', hlater.same.id.trans hid⟩
    · obtain ⟨o', ho', hid, -⟩ := hadded f hf
      exact ⟨o', ho', hid⟩
  · rcases h.back o' ho' with ⟨o, ho, hlater⟩ | ⟨-, -, hnumbers | ⟨earlier, hmem, hleg⟩⟩
    · rw [hlater.same.taskLegId]
      exact hfirst o ho
    · exact ⟨o', ho', rfl, hnumbers⟩
    · rw [← hleg]
      exact hfirst earlier hmem

section Runs

variable {paperWorker liveWorker : String} {s s' : AnyState}

/-- A step of anybody. -/
theorem step_ordersKept {l : Label AnyOp AnyRep Act}
    (hs : AnyReachable num paperWorker liveWorker s)
    (h : AnyStep num paperWorker liveWorker s l s') : OrdersKept s.world.db s'.world.db := by
  have hwf := hs.wellFormed
  cases h with
  | act h =>
      rw [show _ = Act.apply _ _ from h]
      exact .same (act_frame _ _).2.1 (act_frame _ _).2.2.1
  | start | finish | crash => exact .same rfl rfl
  | call h =>
      have hguard := System.Reach.pre (anySystem_wellFormed num OrderGuard)
        (fun _ h => wellFormed_initial h) (fun w _ => anyPass_observes paperWorker liveWorker w) hs
      exact exec_ordersKept hwf hguard h

theorem AnyReachable.ordersSound (hs : AnyReachable num paperWorker liveWorker s) :
    OrdersSound s.world.db := by
  induction hs with
  | init hw =>
      refine ⟨fun o ho => ?_, fun f hf => ?_, fun o ho => ?_⟩
      · rw [hw.orders] at ho
        cases ho
      · rw [hw.fills] at hf
        cases hf
      · rw [hw.orders] at ho
        cases ho
  | step hc hstep _ ih => exact ih.kept (step_ordersKept hc hstep)

/-- The orders of the multi-leg executor over every run of the API and both
workers: in every state an order has the time of its end exactly if it has ended,
every fill belongs to an order and every leg with an order has a first attempt;
and from any state on, no order disappears or becomes another, what it has filled
never decreases, and an order that has ended stays as it is, with the fills
recorded for it. -/
theorem orders_kept (num : Numeric) (paperWorker liveWorker : String) {s s' : AnyState}
    (hs : AnyReachable num paperWorker liveWorker s)
    (hr : AnyRuns num paperWorker liveWorker s s') :
    OrdersSound s.world.db ∧ OrdersLater s.world.db s'.world.db := by
  refine ⟨hs.ordersSound, ?_⟩
  induction hr with
  | refl => exact .refl _
  | tail hr hstep ih =>
      obtain ⟨l, hstep, -⟩ := hstep
      have hs₁ := hs.run hr
      exact ih.trans ((step_ordersKept hs₁ hstep).later (AnyReachable.wellFormed hs₁))

end Runs

namespace Sample

def quoted : QuotedOpportunity := ⟨opportunity, "BTCUSDT", "BTCUSDT"⟩

/-- The answers of a turn of both workers. -/
def anyAnswers (v : Outside) : (o : AnyOp) → World → AnyRep o × World
  | .inl o, w => answers v o w
  | .inr (.claim workerId), w =>
      let r := commit (claimPaperExecutionTask workerId w.ambient) w.db
      (r.1, { w with db := r.2 })
  | .inr (.complete taskId runId fills workerId), w =>
      let r := commit (completePaperExecutionTask numeric taskId runId fills workerId w.ambient) w.db
      (r.1, { w with db := r.2 })
  | .inr (.latestOpportunities _), w => (.ok [quoted], w)
  | .inr .loadSettings, w => (.ok fun _ => ⟨1 / 1000, 1 / 1000⟩, w)

theorem exec_anyAnswers (v : Outside) (o : AnyOp) (w : World) :
    (anySystem numeric).exec o w (anyAnswers v o w).1 (anyAnswers v o w).2 := by
  cases o with
  | inl o => exact exec_answer numeric (outside v) o w
  | inr o =>
      cases o with
      | claim => exact ⟨_, rfl, rfl⟩
      | complete => exact ⟨_, rfl, rfl⟩
      | latestOpportunities | loadSettings => rfl

/-- One whole turn. -/
def turn (v : Outside) (w : World) : World :=
  { (System.play (anyAnswers v) (fun _ => false) (anyPass numeric "paper" "live") w).world with
    pass := .idle }

/-- One turn of the paper service is a run. -/
theorem runs_turn (v : Outside) (w : World) :
    AnyRuns numeric "paper" "live" ⟨w, none⟩ ⟨turn v w, none⟩ :=
  (System.Run.pass (exec_anyAnswers v) trivial (System.follows_anyStep _ w)).trans
    (System.Run.leave (System.play_isSome _ _) trivial)

theorem reached_queued_any : AnyReachable numeric "paper" "live" ⟨queued, none⟩ :=
  .step (.step (.step (.init empty_initial) (.act rfl) trivial) (.act rfl) trivial) (.act rfl)
    trivial

/-- The anchor order is created and submitted. -/
def standing : World := turn (absent "a") (turn (absent "a") queued)

/-- It is found filled. -/
def ended : World := turn (known "a" "filled" 4 4) standing

theorem reached_standing : AnyReachable numeric "paper" "live" ⟨standing, none⟩ :=
  (reached_queued_any.run (runs_turn _ _)).run (runs_turn _ _)

end Sample

/-- An order that is found filled after its submission. -/
theorem orders_kept_filled : Sample.standing.db.orders.map (·.status) = [.submitted]
    ∧ Sample.ended.db.orders.map (·.status) = [.filled]
    ∧ OrdersSound Sample.standing.db ∧ OrdersLater Sample.standing.db Sample.ended.db := by
  have hr : AnyRuns Sample.numeric "paper" "live" ⟨Sample.standing, none⟩ ⟨Sample.ended, none⟩ :=
    Sample.runs_turn _ _
  have hkept := orders_kept Sample.numeric "paper" "live" Sample.reached_standing hr
  exact ⟨by decide +kernel, by decide +kernel, hkept⟩

end BasisHawk.MultiLeg
