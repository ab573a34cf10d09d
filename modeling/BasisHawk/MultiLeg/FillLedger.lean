/-
  BasisHawk.MultiLeg.FillLedger
  ─────────────────────────────
  The total of an order beside the trades recorded for it.

  The total is taken from the latest batch as it stands; a trade is recorded
  once, under its id.  Sizing reads the totals, completion the trades.  The
  two agree as long as no batch leaves out more of the recorded trades than it
  repeats of its own.

  Main results:
    • `totals_agree_iff` — in runs of such batches every order's total is what
      its trades come to, what sizing counts is what completion counts, and
      the next batch keeps it so exactly if it is balanced,
    • `totals_disagree` — one batch that says a trade twice.
-/
import BasisHawk.Lib.Ledger
import BasisHawk.MultiLeg.Compensation
import BasisHawk.MultiLeg.Completion

namespace BasisHawk.MultiLeg

open Domain Lib Accounts Database

variable {num : Numeric} {workerId : String}

/-! ## §1. The condition. -/

/-- The trades recorded for an order, under their ids. -/
def tradesOf (db : Database) (orderId : Nat) : List (String × ℚ) :=
  (db.fills.filter fun f => f.executionOrderId = orderId).map fun f =>
    (f.exchangeTradeId, f.quantity)

/-- The trades of a batch, under their ids. -/
def reportedTrades (items : List FillItem) : List (String × ℚ) :=
  items.map fun i => (i.exchangeTradeId, i.quantity)

/-- What the trades recorded for an order come to. -/
def recordedOf (db : Database) (orderId : Nat) : ℚ :=
  ((db.fills.filter fun f => f.executionOrderId = orderId).map (·.quantity)).sum

/-- What a batch leaves out of the trades recorded for its order is as much as
it says more than once. -/
def Balanced (db : Database) (ob : Observation) : Prop :=
  Records.omitted id (tradesOf db ob.orderId) (reportedTrades ob.fills)
    = Records.repeated id (reportedTrades ob.fills)

instance (db : Database) (ob : Observation) : Decidable (Balanced db ob) :=
  inferInstanceAs (Decidable (_ = (_ : ℚ)))

/-- The observation a step records. -/
def observation : Label Op Rep Act → Option Observation
  | .call (.db (.observe ob)) (.ok _) => some ob
  | _ => none

/-- Every batch that is recorded is balanced. -/
def BalancedBatches (w : World) (l : Label Op Rep Act) : Prop :=
  ∀ ob ∈ observation l, Balanced w.db ob

instance (w : World) (l : Label Op Rep Act) : Decidable (BalancedBatches w l) :=
  inferInstanceAs (Decidable (∀ ob ∈ observation l, _))

/-- The condition speaks only of observations. -/
theorem balancedBatches_of_none {w : World} {l : Label Op Rep Act} (h : observation l = none) :
    BalancedBatches w l := by
  intro ob hob
  rw [h] at hob
  cases hob

/-! ## §2. Recording a batch. -/

/-- The trades of every order have different ids, and belong to an order that
is there. -/
structure TradesKeyed (db : Database) : Prop where
  trades : ∀ orderId, ((tradesOf db orderId).map Prod.fst).Nodup
  owner : ∀ f ∈ db.fills, ∃ o ∈ db.orders, o.id = f.executionOrderId

/-- Every order's total is what its recorded trades come to. -/
def TotalsRecorded (db : Database) : Prop :=
  ∀ o ∈ db.orders, o.filledQuantity = recordedOf db o.id

/-- What is recorded on an order is the total of its trades, each counted once.
-/
theorem recordedOf_eq_total (db : Database) (orderId : Nat) :
    recordedOf db orderId = Records.total id (tradesOf db orderId) := by
  unfold recordedOf Records.total tradesOf
  rw [List.map_map]
  rfl

/-- One pass of the fill loop, on the trades of its order and on the others. -/
theorem persistFill_records {orderId : Nat} {item : FillItem} {db db' : Database}
    (h : db.persistFill orderId item = .ok db') :
    Records (tradesOf db orderId) [(item.exchangeTradeId, item.quantity)] (tradesOf db' orderId)
      ∧ (∀ other, other ≠ orderId → tradesOf db' other = tradesOf db other)
      ∧ db'.orders = db.orders ∧ ∀ f ∈ db'.fills, f ∈ db.fills ∨ f.executionOrderId = orderId := by
  rcases persistFill_ok h with ⟨rfl, f, hf, hown, hid, hq⟩ | ⟨hnew, row, hown, hid, hq, rfl⟩
  · -- The trade is stored already, with this quantity.
    refine ⟨.known ?_ .nil, fun _ _ => rfl, rfl, fun f hf => .inl hf⟩
    exact List.mem_map.mpr
      ⟨f, List.mem_filter.mpr ⟨hf, decide_eq_true hown⟩, Prod.ext hid hq⟩
  · -- It is new, and no stored fill of the order has its id.
    refine ⟨?_, fun other hne => ?_, rfl, fun f hf => ?_⟩
    · have happend : tradesOf { db with fills := db.fills ++ [row], nextId := db.nextId + 1 } orderId
          = tradesOf db orderId ++ [(row.exchangeTradeId, row.quantity)] := by
        have hself : [row].filter (fun f => f.executionOrderId = orderId) = [row] :=
          List.filter_eq_self.mpr fun f hf => by rw [List.mem_singleton.mp hf]; simpa using hown
        unfold tradesOf
        rw [List.filter_append, List.map_append, hself]
        rfl
      rw [happend, hid, hq]
      refine .fresh (fun hmem => ?_) .nil
      obtain ⟨p, hp, hpid⟩ := List.mem_map.mp hmem
      obtain ⟨f, hf, rfl⟩ := List.mem_map.mp hp
      obtain ⟨hf, hfown⟩ := List.mem_filter.mp hf
      exact hnew f hf ⟨of_decide_eq_true hfown, hpid⟩
    · unfold tradesOf
      rw [List.filter_append, List.filter_cons_of_neg, List.filter_nil, List.append_nil]
      rw [decide_eq_true_eq, hown]
      exact fun h => hne h.symm
    · rcases List.mem_append.mp hf with hf | hf
      · exact .inl hf
      · rw [List.mem_singleton.mp hf]
        exact .inr hown

/-- The fill loop records its batch. -/
theorem persistFills_records {orderId : Nat} :
    ∀ {items : List FillItem} {db db' : Database}, db.persistFills orderId items = .ok db' →
      Records (tradesOf db orderId) (reportedTrades items) (tradesOf db' orderId)
        ∧ (∀ other, other ≠ orderId → tradesOf db' other = tradesOf db other)
        ∧ db'.orders = db.orders ∧ ∀ f ∈ db'.fills, f ∈ db.fills ∨ f.executionOrderId = orderId
  | [], db, db', h => by
      injection h with h
      subst h
      exact ⟨.nil, fun _ _ => rfl, rfl, fun f hf => .inl hf⟩
  | item :: rest, db, db', h => by
      obtain ⟨db₁, h₁, h⟩ := bind_eq_ok.mp h
      obtain ⟨hfirst, hothers, horders, hfills⟩ := persistFill_records h₁
      obtain ⟨hrest, hothers', horders', hfills'⟩ := persistFills_records h
      refine ⟨hfirst.append hrest, fun other hne => ?_, horders'.trans horders, fun f hf => ?_⟩
      · rw [hothers' other hne, hothers other hne]
      · rcases hfills' f hf with hf | hf
        · exact hfills f hf
        · exact .inr hf

/-- An accepted observation records its batch and takes its total as it is. -/
theorem observe_records {ob : Observation} {row : ExecutionOrderRow} {amb : Ambient}
    {db db' : Database} (h : applyExecutionOrderObservation ob amb db = .ok (row, db')) :
    Records (tradesOf db ob.orderId) (reportedTrades ob.fills) (tradesOf db' ob.orderId)
      ∧ (∀ other, other ≠ ob.orderId → tradesOf db' other = tradesOf db other)
      ∧ (∀ f ∈ db'.fills, f ∈ db.fills ∨ f.executionOrderId = ob.orderId)
      ∧ (∃ old ∈ db.orders, old.id = ob.orderId ∧ row.id = ob.orderId)
      ∧ row.filledQuantity = ob.filledQuantity ∧ db'.orders = Table.put db.orders row := by
  obtain ⟨old, db₁, hold, -, -, h₁, hsame, -, -, -, hfilled, -, rfl⟩ :=
    applyExecutionOrderObservation_rows h
  obtain ⟨hmem, hid⟩ := Table.find?_some hold
  obtain ⟨hrecords, hothers, horders, hfills⟩ := persistFills_records h₁
  refine ⟨hrecords, hothers, hfills, ⟨old, hmem, hid, hsame.id.trans hid⟩, hfilled, ?_⟩
  rw [← horders]

/-- What the worker is about to record has the total of its batch. -/
theorem observed_total {ob : Observation} {w : World} (h : ObserveGuard ob w) :
    ob.filledQuantity = Records.total id (reportedTrades ob.fills) := by
  obtain ⟨c, o, remote, batch, -, -, -, -, -, rfl⟩ := h
  have hsum : ∀ fills : List RemoteFill, (fills.map (·.quantity)).sum
      = Records.total id (reportedTrades (fills.map fillItem)) := by
    intro fills
    unfold Records.total reportedTrades
    rw [List.map_map, List.map_map]
    rfl
  cases remote with
  | none => exact hsum batch.fills
  | some remote => exact hsum batch.fills

/-! ## §3. What every step keeps. -/

/-- An observation stores a trade under its key once. -/
theorem TradesKeyed.observe {ob : Observation} {row : ExecutionOrderRow} {amb : Ambient}
    {db db' : Database} (hk : TradesKeyed db)
    (h : applyExecutionOrderObservation ob amb db = .ok (row, db')) : TradesKeyed db' := by
  obtain ⟨hrecords, hothers, hfills, ⟨old, hold, holdid, hid⟩, -, horders⟩ := observe_records h
  have hput : ∀ {o}, o ∈ db.orders → ∃ o' ∈ db'.orders, o'.id = o.id := by
    intro o ho
    have hkey : key o ∈ db'.orders.map key := by
      rw [horders, Table.map_key_put]
      exact List.mem_map_of_mem ho
    obtain ⟨o', ho', hid'⟩ := List.mem_map.mp hkey
    exact ⟨o', ho', hid'⟩
  refine ⟨fun orderId => ?_, fun f hf => ?_⟩
  · by_cases heq : orderId = ob.orderId
    · rw [heq]
      exact hrecords.keys_nodup (hk.trades ob.orderId)
    · rw [hothers orderId heq]
      exact hk.trades orderId
  · rcases hfills f hf with hf | hf
    · obtain ⟨o, ho, hoid⟩ := hk.owner f hf
      obtain ⟨o', ho', hid'⟩ := hput ho
      exact ⟨o', ho', hid'.trans hoid⟩
    · obtain ⟨o', ho', hid'⟩ := hput hold
      exact ⟨o', ho', by rw [hid', holdid, hf]⟩

/-- A table of orders whose keys are still there and the same fills. -/
theorem TradesKeyed.same {db db' : Database} (hk : TradesKeyed db) (hfills : db'.fills = db.fills)
    (horders : ∀ o ∈ db.orders, ∃ o' ∈ db'.orders, o'.id = o.id) : TradesKeyed db' := by
  refine ⟨fun orderId => ?_, fun f hf => ?_⟩
  · unfold tradesOf
    rw [hfills]
    exact hk.trades orderId
  · rw [hfills] at hf
    obtain ⟨o, ho, hid⟩ := hk.owner f hf
    obtain ⟨o', ho', hid'⟩ := horders o ho
    exact ⟨o', ho', hid'.trans hid⟩

/-- No transaction takes an order away. -/
theorem OrdersEffect.kept {o : DbOp} {db db' : Database} (h : OrdersEffect o db db') :
    ∀ x ∈ db.orders, ∃ x' ∈ db'.orders, x'.id = x.id := by
  intro x hx
  have hput : ∀ new, db'.orders = Table.put db.orders new → ∃ x' ∈ db'.orders, x'.id = x.id := by
    intro new heq
    have hkey : key x ∈ db'.orders.map key := by
      rw [heq, Table.map_key_put]
      exact List.mem_map_of_mem hx
    exact List.mem_map.mp hkey
  cases h with
  | same heq => exact ⟨x, heq ▸ hx, rfl⟩
  | created heq => exact ⟨x, by rw [heq]; exact List.mem_append_left _ hx, rfl⟩
  | marked heq => exact hput _ heq
  | observed heq => exact hput _ heq

/-- So the trades stay keyed in every transaction. -/
theorem TradesKeyed.tx {o : DbOp} {amb : Ambient} {r : o.Result} {db db' : Database} (hk : TradesKeyed db)
    (hok : o.tx num amb db = .ok (r, db')) : TradesKeyed db' := by
  by_cases hob : ∃ ob, o = .observe ob
  · obtain ⟨ob, rfl⟩ := hob
    exact hk.observe hok
  · exact hk.same (DbOp.fills_tx hok fun ob h => hob ⟨ob, h⟩) (DbOp.ordersEffect hok).kept

/-- An order's total after an accepted observation of it. -/
theorem observe_total_iff {ob : Observation} {row : ExecutionOrderRow} {amb : Ambient}
    {db db' : Database} (hk : TradesKeyed db)
    (h : applyExecutionOrderObservation ob amb db = .ok (row, db'))
    (htotal : ob.filledQuantity = Records.total id (reportedTrades ob.fills)) :
    row.filledQuantity = recordedOf db' ob.orderId ↔ Balanced db ob := by
  obtain ⟨hrecords, -, -, -, hfilled, -⟩ := observe_records h
  rw [hfilled, htotal, recordedOf_eq_total, eq_comm]
  exact hrecords.total_eq_iff id (hk.trades ob.orderId)

/-- The totals after an accepted observation: all is as recorded exactly if the
batch is balanced. -/
theorem TotalsRecorded.observe_iff {ob : Observation} {row : ExecutionOrderRow} {amb : Ambient}
    {db db' : Database} (hwf : WellFormed db) (hk : TradesKeyed db) (ht : TotalsRecorded db)
    (h : applyExecutionOrderObservation ob amb db = .ok (row, db'))
    (htotal : ob.filledQuantity = Records.total id (reportedTrades ob.fills)) :
    TotalsRecorded db' ↔ Balanced db ob := by
  obtain ⟨-, hothers, -, ⟨old, hold, holdid, hid⟩, -, horders⟩ := observe_records h
  have hmem := fun o => Table.mem_put_of_unique (r := o) hwf.orders_unique hold
    (show old.id = row.id from holdid.trans hid.symm)
  rw [← observe_total_iff hk h htotal]
  constructor
  · intro hall
    rw [← hid]
    refine hall row ?_
    rw [horders, hmem]
    exact .inl rfl
  · intro hrow o ho
    rw [horders, hmem] at ho
    rcases ho with rfl | ⟨ho, hne⟩
    · rw [hid]
      exact hrow
    · have hother : o.id ≠ ob.orderId := fun heq =>
        hne (hwf.orders_unique.eq ho hold (show o.id = old.id from heq.trans holdid.symm))
      rw [ht o ho, recordedOf_eq_total, recordedOf_eq_total, hothers o.id hother]

/-- A transaction that records no batch. -/
theorem TotalsRecorded.tx {o : DbOp} {amb : Ambient} {r : o.Result} {db db' : Database}
    (hwf : WellFormed db) (hk : TradesKeyed db) (ht : TotalsRecorded db)
    (hok : o.tx num amb db = .ok (r, db')) (hne : ∀ ob, o ≠ .observe ob) : TotalsRecorded db' := by
  have hsame : ∀ id, recordedOf db' id = recordedOf db id := fun id => by
    unfold recordedOf
    rw [DbOp.fills_tx hok hne]
  have hput : ∀ old new : ExecutionOrderRow, old ∈ db.orders → new.id = old.id →
      new.filledQuantity = old.filledQuantity → db'.orders = Table.put db.orders new →
        TotalsRecorded db' := by
    intro old new hold hid hfilled heq x hx
    rw [heq] at hx
    rw [hsame]
    rcases Table.mem_put.mp hx with ⟨rfl, -⟩ | ⟨hx, -⟩
    · rw [hfilled, ht old hold, hid]
    · exact ht x hx
  intro x hx
  cases DbOp.ordersEffect hok with
  | same heq =>
      rw [heq] at hx
      rw [hsame]
      exact ht x hx
  | created heq _ _ _ _ _ _ _ hzero =>
      -- The new order's id is fresh, so no trade is recorded for it yet.
      rw [heq] at hx
      rw [hsame]
      rcases List.mem_append.mp hx with hx | hx
      · exact ht x hx
      · have hid : x.id = db.nextId := by
          obtain ⟨-, -, hid, -, -, -, -, -, -, -, -, -, -, -, heq'⟩ :=
            createExecutionOrderAttempt_ok hok
          rw [List.mem_singleton.mp hx]
          rw [heq'] at heq
          have := List.append_cancel_left heq
          rw [← (List.cons.inj this).1, hid]
        have hnone : db.fills.filter (fun f => f.executionOrderId = x.id) = [] := by
          refine List.filter_eq_nil_iff.mpr fun f hf hown => ?_
          obtain ⟨y, hy, hyid⟩ := hk.owner f hf
          have hbelow : y.id < db.nextId := hwf.orders_below y hy
          rw [decide_eq_true_eq] at hown
          omega
        unfold recordedOf
        rw [hnone, List.mem_singleton.mp hx, hzero]
        rfl
  | marked heq hold hs _ _ hfilled => exact hput _ _ hold hs.id hfilled heq x hx
  | observed => exact absurd rfl (hne _)

/-- The ledger stays keyed, and the totals recorded as long as every batch is
balanced. -/
theorem totalsRecorded_kept :
    Kept num BalancedBatches fun w => TradesKeyed w.db ∧ TotalsRecorded w.db where
  act := fun a w _ _ ⟨hk, ht⟩ => by
    obtain ⟨-, horders, hfills, -⟩ := act_frame a w
    refine ⟨hk.same hfills fun o ho => ⟨o, horders ▸ ho, rfl⟩, fun o ho => ?_⟩
    rw [horders] at ho
    unfold recordedOf
    rw [hfills]
    exact ht o ho
  db := fun o w r db' hc ha hpre hwf ⟨hk, ht⟩ => by
    rcases commit_cases hc with ⟨a, rfl, hok⟩ | ⟨e, -, -, rfl⟩
    · refine ⟨hk.tx hok, ?_⟩
      by_cases hob : ∃ ob, o = .observe ob
      · obtain ⟨ob, rfl⟩ := hob
        exact (ht.observe_iff hwf hk hok (observed_total hpre)).mpr (ha ob rfl)
      · exact ht.tx hwf hk hok fun ob h => hob ⟨ob, h⟩
    · exact ⟨hk, ht⟩
  out := fun _ _ _ _ _ _ h => h
  idle := fun _ h => h

/-! ## §4. A task that trades has placed primary orders only. -/

/-- The task is where `complete_live_execution_task` takes it up. -/
def TaskStatus.isTrading : TaskStatus → Bool
  | .running | .hedging => true
  | _ => false

theorem TaskStatus.not_unstarted_of_trading {s : TaskStatus} (h : s.isTrading) :
    s.isUnstarted = false := by
  cases s <;> first | rfl | cases h

/-- Every order of a trading task is a primary order. -/
def PrimaryOnly (db : Database) : Prop :=
  ∀ t ∈ db.tasks, t.status.isTrading → ∀ o ∈ db.orders, OfTask db o t.id → o.purpose = .primary

/-- An order that was there before belongs to a run that was there before. -/
theorem OfTask.before {o : DbOp} {amb : Ambient} {r : o.Result} {db db' : Database}
    (hwf : WellFormed db) (hok : o.tx num amb db = .ok (r, db')) {x x' : ExecutionOrderRow}
    (hx : x ∈ db.orders) (hrun : x'.runId = x.runId) {taskId : Nat} (hof : OfTask db' x' taskId) :
    OfTask db x taskId := by
  obtain ⟨run, hrunmem, hid, htask⟩ := hof
  rcases DbOp.runsEffect hok run hrunmem with ⟨run₀, hmem₀, hid₀, htask₀⟩ | hfresh
  · exact ⟨run₀, hmem₀, by rw [hid₀, hid, hrun], htask₀.trans htask⟩
  · obtain ⟨run₀, hmem₀, -, -, hid₀, -⟩ := hwf.order_owner x hx
    have hbelow : run₀.id < db.nextId := hwf.runs_below run₀ hmem₀
    omega

/-- A task trades after a transaction if it did before, or has just been taken
from the queue. -/
theorem trading_origin {o : DbOp} {w : World} (hpre : Pre (.db o) w) (hwf : WellFormed w.db)
    {old new : ExecutionTaskRow} (hold : old ∈ w.db.tasks)
    (hmove : new.status = old.status ∨ o.MovesTask old new) (hnew : new.status.isTrading) :
    old.status.isTrading ∨ ((∃ workerId, o = .claim workerId) ∧ old.status = .queued) := by
  rcases hmove with hmove | hmove
  · exact .inl (hmove ▸ hnew)
  · cases o with
    | claim workerId => exact .inr ⟨⟨workerId, rfl⟩, hmove.1⟩
    | setPhase taskId status =>
        obtain ⟨-, t, ht, hst⟩ := hpre
        obtain ⟨htmem, htid⟩ := Table.find?_some ht
        have hsame : t = old :=
          hwf.tasks_unique.eq htmem hold (show key t = old.id from htid.trans hmove.1.symm)
        subst hsame
        rcases hst with hst | hst <;> rw [hst] <;> exact .inl rfl
    | beginCompensation taskId runId code worker => rw [hmove.2.2] at hnew; cases hnew
    | failRun taskId runId code worker manualReview =>
        obtain ⟨-, hst | hst⟩ := hmove <;> rw [hst] at hnew <;> cases hnew
    | complete taskId runId worker => rw [hmove.2.2] at hnew; cases hnew
    | _ => cases hmove

/-- Before a compensation begins, all orders of a run are primary ones, and no
transaction changes that. -/
theorem PrimaryOnly.tx {o : DbOp} {w : World} {r : o.Result} {db' : Database}
    (hok : o.tx num w.ambient w.db = .ok (r, db')) (hpre : Pre (.db o) w) (hwf : WellFormed w.db)
    (h : PrimaryOnly w.db) : PrimaryOnly db' := by
  intro t' ht' htrading x' hx' hof
  obtain ⟨-, hmoved⟩ := DbOp.tasksEffect hok
  obtain ⟨t, ht, htid, hmove⟩ := hmoved t' ht'
  have hbefore : ∀ x ∈ w.db.orders, x'.runId = x.runId → OfTask w.db x t.id := by
    intro x hx hrun
    rw [htid]
    exact hof.before hwf hok hx hrun
  rcases trading_origin hpre hwf ht hmove htrading with hwas | ⟨⟨workerId, rfl⟩, hqueued⟩
  · have hprimary : ∀ x ∈ w.db.orders, x'.runId = x.runId → x.purpose = .primary :=
      fun x hx hrun => h t ht hwas x hx (hbefore x hx hrun)
    have hput : ∀ old new : ExecutionOrderRow, old ∈ w.db.orders → SameOrder old new →
        db'.orders = Table.put w.db.orders new → x'.purpose = .primary := by
      intro old new hold hs heq
      rw [heq] at hx'
      rcases Table.mem_put.mp hx' with ⟨rfl, -⟩ | ⟨hx', -⟩
      · exact hs.purpose.trans (hprimary old hold hs.runId)
      · exact hprimary x' hx' rfl
    cases DbOp.ordersEffect hok with
    | same heq => exact hprimary x' (heq ▸ hx') rfl
    | created heq hrun _ _ hp =>
        rw [heq] at hx'
        rcases List.mem_append.mp hx' with hx' | hx'
        · exact hprimary x' hx' rfl
        · -- A compensation order is created for a compensating task only.
          obtain rfl := List.mem_singleton.mp hx'
          obtain ⟨⟨c, leg, -, hcur, hcrun, -, -, -, -, hguard⟩, -⟩ := hpre
          obtain ⟨run, hrunmem, hrunid, hruntask⟩ := hof
          have hrun₀ : run ∈ w.db.runs := by
            rw [← (DbOp.sparesTask_tx hok trivial).2]
            exact hrunmem
          obtain ⟨-, hiff⟩ := hcur.toOwns.task_eq hwf ht hrun₀ (by rw [hrunid, hrun, hcrun])
            (hruntask.trans htid.symm)
          rw [hp]
          split at hguard
          · next hpurpose => exact hpurpose
          · rw [hiff.mpr hguard.1] at hwas
            cases hwas
    | marked heq hold hs => exact hput _ _ hold hs heq
    | observed heq hold _ hs => exact hput _ _ hold hs heq
  · -- A queued task has no run yet.
    have horders : db'.orders = w.db.orders := by
      rcases claimLiveExecutionTask_ok hok with ⟨-, rfl⟩ | ⟨row, -, -, -, rfl, -⟩
      · rfl
      · rcases claimRun_cases w.ambient w.db row.id workerId with
          ⟨_, _, _, _, _, _, heq⟩ | ⟨_, _, _, _, heq⟩ <;> rw [heq]
    have hx : x' ∈ w.db.orders := horders ▸ hx'
    obtain ⟨run, hrunmem, -, hruntask⟩ := hbefore x' hx rfl
    have huns := (hwf.owner_eq hrunmem ht hruntask.symm).1
    rw [hqueued] at huns
    cases huns

/-- The step lemma for a whole run. -/
theorem primaryOnly_kept {allow : World → Label Op Rep Act → Prop} :
    Kept num allow fun w => PrimaryOnly w.db where
  act := fun a w _ _ h t ht htrading o ho hof => by
    obtain ⟨hruns, horders, -⟩ := act_frame a w
    rcases act_tasks a t ht with ht | ht
    · unfold OfTask at hof
      rw [hruns] at hof
      rw [horders] at ho
      exact h t ht htrading o ho hof
    · rw [TaskStatus.not_unstarted_of_trading htrading] at ht
      cases ht
  db := fun o w r db' hc _ hpre hwf h => by
    rcases commit_cases hc with ⟨a, rfl, hok⟩ | ⟨e, -, -, rfl⟩
    · exact h.tx hok hpre hwf
    · exact h
  out := fun _ _ _ _ _ _ h => h
  idle := fun _ h => h

/-! ## §5. What sizing and completion count. -/

/-- The one row a lookup finds, as a sum over the rows it selects. -/
theorem sum_lookup (orders : List ExecutionOrderRow) (hu : Table.Unique orders)
    (p : ExecutionOrderRow → Prop)
    [DecidablePred p] (orderId : Nat) (g : ExecutionOrderRow → ℚ) :
    ((orders.filter p).map fun o => if orderId = o.id then g o else 0).sum
      = ((orders.find? fun o => o.id = orderId ∧ p o).map g).getD 0 := by
  induction orders with
  | nil => rfl
  | cons o rest ih =>
      have hu' : Table.Unique rest := (List.nodup_cons.mp hu).2
      have ih := ih hu'
      by_cases hp : p o
      · rw [List.filter_cons_of_pos (by simpa using hp), List.map_cons, List.sum_cons]
        by_cases hid : o.id = orderId
        · -- No other order has this id.
          have hrest : ((rest.filter p).map fun o => if orderId = o.id then g o else 0).sum = 0 := by
            refine List.sum_eq_zero fun q hq => ?_
            obtain ⟨x, hx, rfl⟩ := List.mem_map.mp hq
            refine if_neg fun heq => (List.nodup_cons.mp hu).1 (List.mem_map.mpr ⟨x, ?_, ?_⟩)
            · exact List.mem_of_mem_filter hx
            · show x.id = o.id
              rw [← heq, hid]
          rw [List.find?_cons_of_pos (by simp [hid, hp]), hrest, if_pos hid.symm, add_zero]
          rfl
        · rw [List.find?_cons_of_neg (by simp [hid]), if_neg fun h => hid h.symm, zero_add, ih]
      · rw [List.filter_cons_of_neg (by simpa using hp), List.find?_cons_of_neg (by simp [hp]), ih]

/-- The trades completion counts for a leg, order by order. -/
theorem recordedBase_eq {db : Database} (hu : Table.Unique db.orders) (runId legId : Nat) :
    recordedBase db runId legId
      = ((db.orders.filter fun o => o.runId = runId ∧ o.taskLegId = legId).map fun o =>
          recordedOf db o.id * o.baseMultiplier).sum := by
  unfold recordedBase fillsOfLeg recordedOf
  -- By induction on the stored fills.
  induction db.fills with
  | nil =>
      refine (List.sum_eq_zero fun q hq => ?_).symm
      obtain ⟨o, -, rfl⟩ := List.mem_map.mp hq
      exact zero_mul _
  | cons f rest ih =>
      have hfirst := sum_lookup db.orders hu (fun o => o.runId = runId ∧ o.taskLegId = legId)
        f.executionOrderId fun o => f.quantity * o.baseMultiplier
      -- A fill counts for the one order that it belongs to.
      have hsplit : ∀ o : ExecutionOrderRow,
          (((f :: rest).filter fun f => f.executionOrderId = o.id).map (·.quantity)).sum
              * o.baseMultiplier
            = (if f.executionOrderId = o.id then f.quantity * o.baseMultiplier else 0)
              + ((rest.filter fun f => f.executionOrderId = o.id).map (·.quantity)).sum
                * o.baseMultiplier := by
        intro o
        by_cases h : f.executionOrderId = o.id
        · rw [List.filter_cons_of_pos (by simpa using h), if_pos h, List.map_cons, List.sum_cons,
            add_mul]
        · rw [List.filter_cons_of_neg (by simpa using h), if_neg h, zero_add]
      rw [List.map_congr_left fun o _ => hsplit o, List.sum_map_add, hfirst, ← ih,
        List.filterMap_cons]
      -- That order may be one of another run or leg.
      cases db.orders.find? fun o =>
          o.id = f.executionOrderId ∧ o.runId = runId ∧ o.taskLegId = legId with
      | none => exact (zero_add _).symm
      | some o => rfl

/-- What completion counts for a leg is what sizing counts. -/
theorem recordedBase_eq_filledBaseOf {db : Database} (hu : Table.Unique db.orders)
    (ht : TotalsRecorded db) (hp : PrimaryOnly db) {t : ExecutionTaskRow} (htask : t ∈ db.tasks)
    (htrading : t.status.isTrading) {r : ExecutionRunRow} (hr : r ∈ db.runs)
    (hrt : r.taskId = t.id) (legId : Nat) :
    recordedBase db r.id legId = filledBaseOf (db.ordersOfRun r.id) legId .primary := by
  rw [recordedBase_eq hu, filledBaseOf_ordersOfRun]
  unfold filledBaseOf
  rw [List.filter_filter]
  refine congrArg List.sum ?_
  have hsame : db.orders.filter (fun o => o.runId = r.id ∧ o.taskLegId = legId)
      = db.orders.filter fun o => decide (o.taskLegId = legId ∧ o.purpose = .primary)
        && decide (o.runId = r.id) := by
    refine List.filter_congr fun o ho => ?_
    by_cases hrun : o.runId = r.id
    · have hprimary := hp t htask htrading o ho ⟨r, hr, hrun.symm, hrt⟩
      simp [hrun, hprimary]
    · simp [hrun]
  rw [← hsame]
  refine List.map_congr_left fun o ho => ?_
  show _ = o.filledQuantity * o.baseMultiplier
  rw [ht o (List.mem_of_mem_filter ho)]

/-! ## §6. The result. -/

/-- In runs in which every recorded batch is balanced, every order's total is
what its trades come to, sizing and completion count the same for every leg of
a trading task, and the observation the worker is about to make keeps the
totals exactly if its batch is balanced. -/
theorem totals_agree_iff {s : State} (hs : Reachable num workerId BalancedBatches s) :
    (∀ o ∈ s.world.db.orders, o.filledQuantity = recordedOf s.world.db o.id)
      ∧ (∀ t ∈ s.world.db.tasks, t.status.isTrading → ∀ r ∈ s.world.db.runs, r.taskId = t.id →
          ∀ legId, recordedBase s.world.db r.id legId
            = filledBaseOf (s.world.db.ordersOfRun r.id) legId .primary)
      ∧ ∀ ob k, s.pass = some (.call (.db (.observe ob)) k) → ∀ row db',
          applyExecutionOrderObservation ob s.world.ambient s.world.db = .ok (row, db') →
            ((∀ o ∈ db'.orders, o.filledQuantity = recordedOf db' o.id)
              ↔ Balanced s.world.db ob) := by
  obtain ⟨hk, ht⟩ := totalsRecorded_kept.reachable (fun w hw => by
    refine ⟨⟨fun orderId => ?_, fun f hf => ?_⟩, fun o ho => ?_⟩
    · unfold tradesOf
      rw [hw.fills]
      exact List.nodup_nil
    · rw [hw.fills] at hf
      cases hf
    · rw [hw.orders] at ho
      cases ho) hs
  have hp : PrimaryOnly s.world.db :=
    primaryOnly_kept.reachable (fun w hw t htask => by rw [hw.tasks] at htask; cases htask) hs
  refine ⟨ht, ?_, ?_⟩
  · intro t htask htrading r hr hrt legId
    exact recordedBase_eq_filledBaseOf hs.wellFormed.orders_unique ht hp htask htrading hr hrt legId
  · intro ob k hpass row db' hok
    obtain ⟨w, p⟩ := s
    obtain rfl : p = _ := hpass
    exact ht.observe_iff hs.wellFormed hk hok (observed_total hs.pre)

/-! ## §7. Concrete runs. -/

/-- The observation the worker is about to record. -/
def observing (s : State) : Option Observation :=
  match s.pass with
  | some (.call (.db (.observe ob)) _) => some ob
  | _ => none

/-- A worker that observes is about to apply its observation. -/
theorem pass_of_observing {s : State} {ob : Observation} (h : observing s = some ob) :
    ∃ k, s.pass = some (.call (.db (.observe ob)) k) := by
  unfold observing at h
  split at h
  · next ob' k hpass =>
      cases h
      exact ⟨k, hpass⟩
  · cases h

/-- A recording. -/
def isObserve : Op → Bool
  | .db (.observe _) => true
  | _ => false

namespace Sample

/-- The anchor's trade is about to be recorded. -/
def weighed : State := upTo (known "a" "filled" 4 4) isObserve acknowledged

/-- A batch that says a trade of two units twice. -/
def saidTwice : Outside :=
  let trade : RemoteFill :=
    ⟨"t", "1", some "bh-1", "spot", "BTCUSDT", "buy", 2, 100, 0, "USDT", "taker", 0⟩
  { known "a" "filled" 4 4 with fills := ⟨[trade, trade], true, none⟩ }

theorem balancedBatches_free (w : World) :
    BalancedBatches w .start ∧ BalancedBatches w .crash :=
  ⟨balancedBatches_of_none rfl, balancedBatches_of_none rfl⟩

theorem reached_weighed : Reached BalancedBatches weighed := by
  have h₀ : RunsTo BalancedBatches ⟨empty, none⟩ ⟨queued, none⟩ :=
    runsTo_queued fun _ _ => balancedBatches_of_none rfl
  have h₁ : RunsTo BalancedBatches ⟨queued, none⟩ ⟨pass (absent "a") queued, none⟩ :=
    runsTo_pass _ balancedBatches_free (by decide +kernel)
  have h₂ := h₁.trans (runsTo_pass (absent "a") balancedBatches_free (by decide +kernel))
  exact System.Reach.run reached_empty ((h₀.trans h₂).trans
    (runsTo_upTo _ _ (balancedBatches_of_none rfl) (by decide +kernel)))

end Sample

/-- The anchor's batch is balanced, and its total is recorded as its trade. -/
theorem totals_agree_weighed :
    ∃ s ob k row db', Sample.Reached BalancedBatches s
      ∧ s.pass = some (.call (.db (.observe ob)) k)
      ∧ applyExecutionOrderObservation ob s.world.ambient s.world.db = .ok (row, db')
      ∧ Balanced s.world.db ob ∧ (∀ o ∈ db'.orders, o.filledQuantity = recordedOf db' o.id)
      ∧ ∃ t ∈ s.world.db.tasks, t.status.isTrading ∧ ∃ r ∈ s.world.db.runs, r.taskId = t.id
        ∧ recordedBase s.world.db r.id 1 = filledBaseOf (s.world.db.ordersOfRun r.id) 1 .primary := by
  have hs := Sample.reached_weighed
  obtain ⟨ob, hob, hbalanced, hok⟩ := (by decide +kernel :
    ∃ ob ∈ observing Sample.weighed, Balanced Sample.weighed.world.db ob
      ∧ (applyExecutionOrderObservation ob Sample.weighed.world.ambient
          Sample.weighed.world.db).toOption.isSome)
  obtain ⟨k, hpass⟩ := pass_of_observing hob
  obtain ⟨⟨row, db'⟩, hrow⟩ := Option.isSome_iff_exists.mp hok
  have hrow := toOption_some.mp hrow
  obtain ⟨t, ht, htrading, r, hr, hrt⟩ := (by decide +kernel :
    ∃ t ∈ Sample.weighed.world.db.tasks, t.status.isTrading
      ∧ ∃ r ∈ Sample.weighed.world.db.runs, r.taskId = t.id)
  obtain ⟨-, hsame, hnext⟩ := totals_agree_iff hs
  exact ⟨_, ob, k, row, db', hs, hpass, hrow, hbalanced,
    (hnext ob k hpass row db' hrow).mpr hbalanced, t, ht, htrading, r, hr, hrt,
    hsame t ht htrading r hr hrt 1⟩

/-- A batch that says a trade twice: the order is full, its trades are half. -/
theorem totals_disagree :
    ¬∀ s, Sample.Reached System.anyStep s →
      ∀ o ∈ s.world.db.orders, o.filledQuantity = recordedOf s.world.db o.id := by
  intro h
  have hs : Sample.Reached System.anyStep ⟨Sample.pass Sample.saidTwice Sample.acknowledged, none⟩ :=
    System.Reach.run Sample.reached_empty (((Sample.runsTo_queued fun _ _ => trivial).trans
      ((Sample.runsTo_pass (Sample.absent "a") Sample.anyStep_free (by decide +kernel)).trans
        (Sample.runsTo_pass (Sample.absent "a") Sample.anyStep_free (by decide +kernel)))).trans
      (Sample.runsTo_pass _ Sample.anyStep_free (by decide +kernel)))
  obtain ⟨o, ho, hfilled, hrecorded⟩ := (by decide +kernel :
    ∃ o ∈ (Sample.pass Sample.saidTwice Sample.acknowledged).db.orders, o.filledQuantity = 4
      ∧ recordedOf (Sample.pass Sample.saidTwice Sample.acknowledged).db o.id = 2)
  have := h _ hs o ho
  rw [hfilled, show recordedOf _ o.id = 2 from hrecorded] at this
  exact absurd this (by decide)

end BasisHawk.MultiLeg
