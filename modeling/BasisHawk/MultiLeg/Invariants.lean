/-
  BasisHawk.MultiLeg.Invariants
  ─────────────────────────────
  The well-formedness of the tables, kept by every transaction.

  Main results:
    • `WellFormed.tx` — every transaction of the worker keeps the tables well
      formed,
    • `WellFormed.act` — so does every other actor,
    • `wellFormed_preserved` — hence it holds throughout every run.
-/
import BasisHawk.MultiLeg.Effects
import BasisHawk.MultiLeg.Worker

namespace BasisHawk.MultiLeg

open Domain Lib Accounts Database

/-- A task that no worker has taken up. -/
def TaskStatus.isUnstarted : TaskStatus → Bool
  | .draft | .preflightReady | .queued | .emergencyStopped => true
  | _ => false

theorem TaskStatus.not_unstarted_of_started {s : TaskStatus} (h : s.isStarted) :
    s.isUnstarted = false := by
  cases s <;> first | rfl | cases h

/-- Keys are unique and below the supply of fresh ones; a task has at most one
run, and the run is running exactly while the task is started; an order belongs
to a run and a leg of one task; a created order was never submitted. -/
structure WellFormed (db : Database) : Prop where
  tasks_unique : Table.Unique db.tasks
  legs_unique : Table.Unique db.legs
  runs_unique : Table.Unique db.runs
  orders_unique : Table.Unique db.orders
  tasks_below : Table.KeysBelow db.tasks db.nextId
  legs_below : Table.KeysBelow db.legs db.nextId
  runs_below : Table.KeysBelow db.runs db.nextId
  orders_below : Table.KeysBelow db.orders db.nextId
  client_ids : (db.orders.map (·.clientOrderId)).Nodup
  run_of_task : ∀ r ∈ db.runs, ∀ r' ∈ db.runs, r.taskId = r'.taskId → r = r'
  run_owner : ∀ r ∈ db.runs, ∃ t ∈ db.tasks, t.id = r.taskId ∧ t.status.isUnstarted = false
    ∧ (r.status = .running ↔ t.status.isStarted)
  started_run : ∀ t ∈ db.tasks, t.status.isStarted → ∃ r ∈ db.runs, r.taskId = t.id
  order_owner : ∀ o ∈ db.orders, ∃ r ∈ db.runs, ∃ l ∈ db.legs,
    r.id = o.runId ∧ l.id = o.taskLegId ∧ l.taskId = r.taskId
  created_fresh : ∀ o ∈ db.orders, o.status = .created → o.submittedAt = none

namespace WellFormed

variable {db : Database}

/-- The task of a run is the only one with its id. -/
theorem owner_eq (h : WellFormed db) {r : ExecutionRunRow} (hr : r ∈ db.runs)
    {t : ExecutionTaskRow} (ht : t ∈ db.tasks) (hid : t.id = r.taskId) :
    t.status.isUnstarted = false ∧ (r.status = .running ↔ t.status.isStarted) := by
  obtain ⟨t', ht', hid', hs⟩ := h.run_owner r hr
  rw [h.tasks_unique.eq ht ht' (hid.trans hid'.symm)]
  exact hs

/-- A leg that is not there yet has no orders. -/
theorem leg_of_order_ne (h : WellFormed db) {legId : Nat} (hfresh : db.nextId ≤ legId) :
    ∀ o ∈ db.orders, o.taskLegId ≠ legId := by
  intro o ho heq
  obtain ⟨r, -, l, hl, -, hid, -⟩ := h.order_owner o ho
  have hbelow : l.id < db.nextId := h.legs_below l hl
  omega

/-! ## §1. Updates of one table. -/

/-- Another version of an order row. -/
theorem putOrder (h : WellFormed db) {old new : ExecutionOrderRow} (hold : old ∈ db.orders)
    (hid : new.id = old.id) (hrun : new.runId = old.runId) (hleg : new.taskLegId = old.taskLegId)
    (hcid : new.clientOrderId = old.clientOrderId)
    (hfresh : new.status = .created → new.submittedAt = none)
    (fills : List ExecutionFillRow) {n : Nat} (hn : db.nextId ≤ n) :
    WellFormed { db with orders := Table.put db.orders new, fills := fills, nextId := n } where
  tasks_unique := h.tasks_unique
  legs_unique := h.legs_unique
  runs_unique := h.runs_unique
  orders_unique := h.orders_unique.put new
  tasks_below := h.tasks_below.mono hn
  legs_below := h.legs_below.mono hn
  runs_below := h.runs_below.mono hn
  orders_below := (h.orders_below.put new).mono hn
  client_ids := by
    show ((Table.put db.orders new).map (·.clientOrderId)).Nodup
    rw [Table.map_put fun o ho hk => ?_]
    · exact h.client_ids
    · rw [h.orders_unique.eq ho hold (hk.trans hid), hcid]
  run_of_task := h.run_of_task
  run_owner := h.run_owner
  started_run := h.started_run
  order_owner := Table.forall_put h.order_owner (by
    rw [hrun, hleg]
    exact h.order_owner old hold)
  created_fresh := Table.forall_put h.created_fresh hfresh

/-- An order row marked with another status. -/
theorem marked (h : WellFormed db) {old new : ExecutionOrderRow} (hold : old ∈ db.orders)
    (hid : new.id = old.id) (hrun : new.runId = old.runId) (hleg : new.taskLegId = old.taskLegId)
    (hcid : new.clientOrderId = old.clientOrderId) (hne : new.status ≠ .created) :
    WellFormed { db with orders := Table.put db.orders new } :=
  h.putOrder hold hid hrun hleg hcid (fun hc => absurd hc hne) db.fills (le_refl _)

/-- Another version of a leg row. -/
theorem putLeg (h : WellFormed db) {old new : ExecutionTaskLegRow} (hold : old ∈ db.legs)
    (hid : new.id = old.id) (htask : new.taskId = old.taskId) :
    WellFormed { db with legs := Table.put db.legs new } where
  tasks_unique := h.tasks_unique
  legs_unique := h.legs_unique.put new
  runs_unique := h.runs_unique
  orders_unique := h.orders_unique
  tasks_below := h.tasks_below
  legs_below := h.legs_below.put new
  runs_below := h.runs_below
  orders_below := h.orders_below
  client_ids := h.client_ids
  run_of_task := h.run_of_task
  run_owner := h.run_owner
  started_run := h.started_run
  order_owner := fun o ho => by
    obtain ⟨r, hr, l, hl, hrun, hleg, hsame⟩ := h.order_owner o ho
    by_cases hk : l.id = new.id
    · have hlold : l = old := h.legs_unique.eq hl hold (hk.trans hid)
      refine ⟨r, hr, new, Table.mem_put.mpr (.inl ⟨rfl, old, hold, hid.symm⟩), hrun, ?_, ?_⟩
      · rw [← hleg, ← hk]
      · rw [htask, ← hlold, hsame]
    · exact ⟨r, hr, l, Table.mem_put.mpr (.inr ⟨hl, hk⟩), hrun, hleg, hsame⟩
  created_fresh := h.created_fresh

/-- Another version of a task row, on the same side of being started. -/
theorem putTask (h : WellFormed db) {old new : ExecutionTaskRow} (hold : old ∈ db.tasks)
    (hid : new.id = old.id) (hstarted : new.status.isStarted = old.status.isStarted)
    (hunstarted : new.status.isUnstarted = old.status.isUnstarted) :
    WellFormed { db with tasks := Table.put db.tasks new } where
  tasks_unique := h.tasks_unique.put new
  legs_unique := h.legs_unique
  runs_unique := h.runs_unique
  orders_unique := h.orders_unique
  tasks_below := h.tasks_below.put new
  legs_below := h.legs_below
  runs_below := h.runs_below
  orders_below := h.orders_below
  client_ids := h.client_ids
  run_of_task := h.run_of_task
  run_owner := fun r hr => by
    obtain ⟨t, ht, htask, hs⟩ := h.run_owner r hr
    by_cases hk : t.id = new.id
    · have htold : t = old := h.tasks_unique.eq ht hold (hk.trans hid)
      refine ⟨new, Table.mem_put.mpr (.inl ⟨rfl, old, hold, hid.symm⟩), hk.symm.trans htask, ?_⟩
      rw [hstarted, hunstarted, ← htold]
      exact hs
    · exact ⟨t, Table.mem_put.mpr (.inr ⟨ht, hk⟩), htask, hs⟩
  started_run := Table.forall_put h.started_run (by
    rw [hstarted, hid]
    exact h.started_run old hold)
  order_owner := h.order_owner
  created_fresh := h.created_fresh

/-- A task and its run move together. -/
theorem movesRun (h : WellFormed db) {db' : Database} {taskId runId : Nat}
    {task : ExecutionTaskRow} {ts : TaskStatus} {rs : RunStatus}
    (hm : MovesRun taskId runId db db' task ts rs) (hts : ts.isUnstarted = false)
    (hrs : rs = .running ↔ ts.isStarted) : WellFormed db' := by
  obtain ⟨ht, ⟨run, task', run', htasks, hruns, hr, hsame, hid, hst, hrid, hrtask, hrst⟩, hlegs,
    horders, -, hnext⟩ := hm
  obtain ⟨ht, htid⟩ := Table.find?_some ht
  obtain ⟨hr, -⟩ := Table.find?_some hr
  have hmem' : task' ∈ db'.tasks := by
    rw [htasks]
    exact Table.mem_put.mpr (.inl ⟨rfl, task, ht, hid.symm⟩)
  have hrmem' : run' ∈ db'.runs := by
    rw [hruns]
    exact Table.mem_put.mpr (.inl ⟨rfl, run, hr, hrid.symm⟩)
  have hruns' : ∀ r, r ∈ db'.runs ↔ r = run' ∨ (r ∈ db.runs ∧ r ≠ run) := by
    intro r
    rw [hruns]
    exact Table.mem_put_of_unique h.runs_unique hr hrid.symm
  have htasks' : ∀ t, t ∈ db'.tasks ↔ t = task' ∨ (t ∈ db.tasks ∧ t ≠ task) := by
    intro t
    rw [htasks]
    exact Table.mem_put_of_unique h.tasks_unique ht hid.symm
  have htid' : task.id = run.taskId := htid.trans hsame.symm
  refine ⟨?_, ?_, ?_, ?_, ?_, ?_, ?_, ?_, ?_, ?_, ?_, ?_, ?_, ?_⟩
  · rw [htasks]
    exact h.tasks_unique.put task'
  · rw [hlegs]
    exact h.legs_unique
  · rw [hruns]
    exact h.runs_unique.put run'
  · rw [horders]
    exact h.orders_unique
  · rw [htasks]
    exact (h.tasks_below.put task').mono hnext
  · rw [hlegs]
    exact h.legs_below.mono hnext
  · rw [hruns]
    exact (h.runs_below.put run').mono hnext
  · rw [horders]
    exact h.orders_below.mono hnext
  · rw [horders]
    exact h.client_ids
  · -- The run that moved keeps its task, so it is still the only one.
    intro r hr₁ r' hr₂ htask
    rcases (hruns' r).mp hr₁ with rfl | ⟨hr₁, hne₁⟩
    · rcases (hruns' r').mp hr₂ with rfl | ⟨hr₂, hne₂⟩
      · rfl
      · exact absurd (h.run_of_task r' hr₂ run hr (by rw [← htask, hrtask])) hne₂
    · rcases (hruns' r').mp hr₂ with rfl | ⟨hr₂, -⟩
      · exact absurd (h.run_of_task r hr₁ run hr (by rw [htask, hrtask])) hne₁
      · exact h.run_of_task r hr₁ r' hr₂ htask
  · intro r hr₁
    rcases (hruns' r).mp hr₁ with rfl | ⟨hr₁, hne⟩
    · refine ⟨task', hmem', by rw [hid, hrtask, htid'], by rw [hst, hts], ?_⟩
      rw [hrst, hst]
      exact hrs
    · obtain ⟨t, ht₁, htask, hs⟩ := h.run_owner r hr₁
      have hne' : t ≠ task := by
        rintro rfl
        exact hne (h.run_of_task r hr₁ run hr (htask.symm.trans htid'))
      exact ⟨t, (htasks' t).mpr (.inr ⟨ht₁, hne'⟩), htask, hs⟩
  · intro t ht₁ hs
    rcases (htasks' t).mp ht₁ with rfl | ⟨ht₁, hne⟩
    · exact ⟨run', hrmem', by rw [hrtask, hid, htid']⟩
    · obtain ⟨r, hr₁, htask⟩ := h.started_run t ht₁ hs
      have hne' : r ≠ run := by
        rintro rfl
        exact hne (h.tasks_unique.eq ht₁ ht (htask.symm.trans htid'.symm))
      exact ⟨r, (hruns' r).mpr (.inr ⟨hr₁, hne'⟩), htask⟩
  · rw [horders, hlegs]
    intro o ho
    obtain ⟨r, hr₁, l, hl, hrun, hleg, hsame'⟩ := h.order_owner o ho
    by_cases hk : r = run
    · exact ⟨run', hrmem', l, hl, by rw [hrid, ← hk, hrun], hleg, by rw [hrtask, ← hk, hsame']⟩
    · exact ⟨r, (hruns' r).mpr (.inr ⟨hr₁, hk⟩), l, hl, hrun, hleg, hsame'⟩
  · rw [horders]
    exact h.created_fresh

/-! ## §2. Transactions of the worker. -/

/-- A claimed task has exactly one running run. -/
theorem claim (h : WellFormed db) {row : ExecutionTaskRow} (hrow : row ∈ db.tasks)
    (hstatus : row.status = .queued ∨ row.status.isStarted) (workerId : String) (amb : Ambient) :
    WellFormed { (db.claimRun row.id workerId amb).2 with
      tasks := Table.put (db.claimRun row.id workerId amb).2.tasks (startTask row) } := by
  have hstart : (startTask row).status.isStarted ∧ (startTask row).status.isUnstarted = false := by
    unfold startTask
    split
    · exact ⟨rfl, rfl⟩
    · next hq =>
        have hs := hstatus.resolve_left hq
        exact ⟨hs, TaskStatus.not_unstarted_of_started hs⟩
  rcases claimRun_cases amb _ row.id workerId with
    ⟨old, hold, htask, hid, htask', hst, heq⟩ | ⟨hnone, hid, htask', hst, heq⟩
  · rw [heq]
    have hm : MovesRun row.id old.id db { db with
        runs := Table.put db.runs (db.claimRun row.id workerId amb).1
        tasks := Table.put db.tasks (startTask row) } row (startTask row).status .running :=
      ⟨(Table.find?_eq_some_iff h.tasks_unique).mpr ⟨hrow, rfl⟩,
        ⟨old, startTask row, (db.claimRun row.id workerId amb).1, rfl, rfl,
          (Table.find?_eq_some_iff h.runs_unique).mpr ⟨hold, rfl⟩, htask, startTask_id row, rfl, hid,
          htask'.trans htask.symm, hst⟩, rfl, rfl, rfl, le_refl _⟩
    exact h.movesRun hm hstart.2 ⟨fun _ => hstart.1, fun _ => rfl⟩
  · -- No run of the task is running, so the task is queued and has no run at all.
    generalize (db.claimRun row.id workerId amb).1 = run at hid htask' hst heq
    have hno : ∀ r ∈ db.runs, r.taskId ≠ row.id := by
      intro r hr htask
      obtain ⟨huns, hiff⟩ := h.owner_eq hr hrow htask.symm
      rcases hstatus with hq | hs
      · rw [hq] at huns
        cases huns
      · exact openRun?_none hnone hr htask (hiff.mpr hs)
    rw [heq]
    have hmem := fun t => Table.mem_put_of_unique (r := t) h.tasks_unique hrow
      (show row.id = (startTask row).id from (startTask_id row).symm)
    refine ⟨h.tasks_unique.put _, h.legs_unique, h.runs_unique.append h.runs_below (hid ▸ le_refl _),
      h.orders_unique, (h.tasks_below.put _).mono (Nat.le_succ _), h.legs_below.mono (Nat.le_succ _),
      h.runs_below.append (Nat.le_succ _) (show run.id < _ by rw [hid]; exact Nat.lt_succ_self _),
      h.orders_below.mono (Nat.le_succ _), h.client_ids, ?_, ?_, ?_, ?_, h.created_fresh⟩
    · intro r hr r' hr' htask
      rcases List.mem_append.mp hr with hr | hr
      · rcases List.mem_append.mp hr' with hr' | hr'
        · exact h.run_of_task r hr r' hr' htask
        · rw [List.mem_singleton.mp hr', htask'] at htask
          exact absurd htask (hno r hr)
      · rcases List.mem_append.mp hr' with hr' | hr'
        · rw [List.mem_singleton.mp hr, htask'] at htask
          exact absurd htask.symm (hno r' hr')
        · rw [List.mem_singleton.mp hr, List.mem_singleton.mp hr']
    · intro r hr
      rcases List.mem_append.mp hr with hold | hr
      · obtain ⟨t, ht, htask, hs⟩ := h.run_owner r hold
        have hne : t ≠ row := fun heq => hno r hold (htask.symm.trans (congrArg _ heq))
        exact ⟨t, (hmem t).mpr (.inr ⟨ht, hne⟩), htask, hs⟩
      · rw [List.mem_singleton.mp hr]
        refine ⟨startTask row, (hmem _).mpr (.inl rfl), ?_, hstart.2, ?_⟩
        · rw [startTask_id, htask']
        · exact ⟨fun _ => hstart.1, fun _ => hst⟩
    · intro t ht hs
      rcases (hmem t).mp ht with rfl | ⟨ht, -⟩
      · exact ⟨run, List.mem_append.mpr (.inr (List.mem_singleton.mpr rfl)), by
          rw [startTask_id, htask']⟩
      · obtain ⟨r, hr, htask⟩ := h.started_run t ht hs
        exact ⟨r, List.mem_append.mpr (.inl hr), htask⟩
    · intro o ho
      obtain ⟨r, hr, rest⟩ := h.order_owner o ho
      exact ⟨r, List.mem_append.mpr (.inl hr), rest⟩

/-- A new order row of a run and a leg of one task. -/
theorem appendOrder (h : WellFormed db) {row : ExecutionOrderRow} {n : Nat}
    (hfrom : db.nextId ≤ row.id) (hto : row.id < n)
    (hcid : ∀ o ∈ db.orders, o.clientOrderId ≠ row.clientOrderId)
    (howner : ∃ r ∈ db.runs, ∃ l ∈ db.legs,
      r.id = row.runId ∧ l.id = row.taskLegId ∧ l.taskId = r.taskId)
    (hfresh : row.status = .created → row.submittedAt = none)
    (fills : List ExecutionFillRow) (strategyLegs : List StrategyLegRow) :
    WellFormed { db with
      orders := db.orders ++ [row], fills := fills, strategyLegs := strategyLegs, nextId := n } := by
  have hn : db.nextId ≤ n := by omega
  -- Only the client order ids, the owners and the untouched orders need an argument.
  refine ⟨h.tasks_unique, h.legs_unique, h.runs_unique,
    h.orders_unique.append h.orders_below hfrom, h.tasks_below.mono hn, h.legs_below.mono hn,
    h.runs_below.mono hn, h.orders_below.append hn hto, ?_, h.run_of_task, h.run_owner,
    h.started_run, ?_, ?_⟩
  · show ((db.orders ++ [row]).map (·.clientOrderId)).Nodup
    rw [List.map_append, List.nodup_append]
    refine ⟨h.client_ids, List.nodup_singleton _, ?_⟩
    intro c hc c' hc' heq
    obtain ⟨o, ho, rfl⟩ := List.mem_map.mp hc
    rw [List.map_singleton, List.mem_singleton] at hc'
    exact hcid o ho (heq.trans hc')
  · intro o ho
    rcases List.mem_append.mp ho with ho | ho
    · exact h.order_owner o ho
    · rw [List.mem_singleton.mp ho]
      exact howner
  · intro o ho hc
    rcases List.mem_append.mp ho with ho | ho
    · exact h.created_fresh o ho hc
    · rw [List.mem_singleton.mp ho] at hc ⊢
      exact hfresh hc

/-- A new order. -/
theorem createOrder (h : WellFormed db) {a : OrderAttempt} {amb : Ambient} {db' : Database}
    {row : ExecutionOrderRow} (hok : createExecutionOrderAttempt a amb db = .ok (row, db')) :
    WellFormed db' := by
  obtain ⟨⟨run, leg, hrun, hleg, hsame⟩, hcid, hid, hrunId, hlegId, hrowcid, -, hst, -, -, -, hsub, -,
    -, rfl⟩ := createExecutionOrderAttempt_ok hok
  obtain ⟨hrun, hrunid⟩ := Table.find?_some hrun
  obtain ⟨hleg, hlegid⟩ := Table.find?_some hleg
  refine h.appendOrder (le_of_eq hid.symm) (by omega) (fun o ho heq => ?_)
    ⟨run, hrun, leg, hleg, hrunid.trans hrunId.symm, hlegid.trans hlegId.symm, hsame⟩
    (fun _ => hsub) db.fills db.strategyLegs
  exact hcid o ho (heq.trans hrowcid)

/-- Every transaction of the worker keeps the tables well formed. -/
theorem tx (h : WellFormed db) {num : Numeric} {amb : Ambient} {o : DbOp} {r : o.Result}
    {db' : Database} (hok : o.tx num amb db = .ok (r, db')) : WellFormed db' := by
  cases o with
  | claim workerId =>
      rcases claimLiveExecutionTask_ok hok with ⟨-, rfl⟩ | ⟨row, hrow, hst, -, rfl, -⟩
      · exact h
      · exact h.claim hrow hst workerId amb
  | ordersForRun runId =>
      injection hok with hok
      exact (Prod.mk.inj hok).2 ▸ h
  | executionTask taskId =>
      injection hok with hok
      exact (Prod.mk.inj hok).2 ▸ h
  | setPhase taskId status =>
      obtain ⟨row, hrow, hst, hrst, ⟨-, rfl⟩ | ⟨row', rfl, hid, hst', -⟩⟩ :=
        setExecutionTaskPhase_ok hok
      · exact h
      · refine h.putTask (Table.find?_some hrow).1 hid ?_ ?_
        · rw [hst', hst, hrst]
        · rw [hst', TaskStatus.not_unstarted_of_started hst,
            TaskStatus.not_unstarted_of_started hrst]
  | resolveLeg legId base ratio =>
      obtain ⟨row, hrow, ⟨-, rfl, -⟩ | ⟨-, rfl, rfl⟩⟩ := resolveExecutionTaskLegQuantity_ok hok
      · exact h
      · exact h.putLeg (Table.find?_some hrow).1 rfl rfl
  | createOrder a => exact h.createOrder hok
  | markUnknown id =>
      obtain ⟨row, hrow, ⟨-, rfl⟩ | ⟨-, hnew, rfl⟩⟩ := markExecutionOrderUnknown_ok hok
      · exact h
      · exact h.marked (Table.find?_some hrow).1 (by rw [hnew]) (by rw [hnew]) (by rw [hnew])
          (by rw [hnew]) (by simp [hnew])
  | markSubmitted id ex =>
      obtain ⟨row, hrow, ⟨-, rfl, -⟩ | ⟨-, hnew, rfl⟩⟩ := markExecutionOrderSubmitted_ok hok
      · exact h
      · exact h.marked (Table.find?_some hrow).1 (by rw [hnew]) (by rw [hnew]) (by rw [hnew])
          (by rw [hnew]) (by simp [hnew])
  | markCancelPending id =>
      obtain ⟨row, hrow, ⟨-, rfl⟩ | ⟨-, hnew, rfl⟩⟩ := markExecutionOrderCancelPending_ok hok
      · exact h
      · exact h.marked (Table.find?_some hrow).1 (by rw [hnew]) (by rw [hnew]) (by rw [hnew])
          (by rw [hnew]) (by simp [hnew])
  -- An observation never takes an order back to `created`.
  | observe ob =>
      obtain ⟨row, fills, n, hrow, hne, -, -, -, hsame, -, hst, -, hn, rfl⟩ :=
        applyExecutionOrderObservation_ok hok
      exact h.putOrder (Table.find?_some hrow).1 hsame.id hsame.runId hsame.taskLegId
        hsame.clientOrderId
        (fun hc => absurd (hst.symm.trans hc) hne) fills hn
  | beginCompensation taskId runId code worker =>
      obtain ⟨⟨task, -, hm⟩, -⟩ := beginExecutionTaskCompensation_ok hok
      exact h.movesRun hm rfl ⟨fun _ => rfl, fun _ => rfl⟩
  -- The task and its run end together.
  | failRun taskId runId code worker manualReview =>
      obtain ⟨⟨task, hm⟩, -⟩ := failExecutionTaskRun_ok hok
      refine h.movesRun hm ?_ ?_
      · cases manualReview <;> rfl
      · cases manualReview <;> exact ⟨fun hc => (by cases hc), fun hc => (by cases hc)⟩
  | complete taskId runId worker =>
      obtain ⟨⟨task, ⟨-, hm⟩ | rfl⟩, -⟩ := completeLiveExecutionTask_ok hok
      · exact h.movesRun hm rfl ⟨fun hc => (by cases hc), fun hc => (by cases hc)⟩
      · exact h

/-! ## §3. The other actors. -/

theorem movesUnstarted (h : WellFormed db) {db' : Database} (hm : MovesUnstarted db db') :
    WellFormed db' := by
  obtain ⟨row, row', rfl, hrow, hid, hst, hst'⟩ := hm
  refine h.putTask (Table.find?_some hrow).1 hid ?_ ?_
  · rcases hst with hst | hst | hst <;> rcases hst' with hst' | hst' | hst' <;> rw [hst, hst'] <;> rfl
  · rcases hst with hst | hst | hst <;> rcases hst' with hst' | hst' | hst' <;> rw [hst, hst'] <;> rfl

theorem createTask (h : WellFormed db) {plan : TaskPlan} {amb : Ambient} {db' : Database}
    {task : ExecutionTaskRow} (hok : createExecutionTask plan amb db = .ok (task, db')) :
    WellFormed db' := by
  injection hok with hok
  obtain ⟨rfl, rfl⟩ := Prod.mk.inj hok
  have hlt : ∀ k, db.nextId ≤ db.nextId + 1 + k := fun k => by omega
  -- The task and its legs take the next identifiers in a row.
  refine ⟨h.tasks_unique.append h.tasks_below (le_refl _), ?_, h.runs_unique, h.orders_unique,
    h.tasks_below.append (hlt _) (show db.nextId < _ by omega), ?_, h.runs_below.mono (hlt _),
    h.orders_below.mono (hlt _), h.client_ids, h.run_of_task, ?_, ?_, ?_, h.created_fresh⟩
  · refine h.legs_unique.appendAll h.legs_below
      (Table.unique_mapIdx (n := db.nextId + 1) plan.legs fun i a => rfl) ?_
    intro leg hleg
    obtain ⟨i, hi, rfl⟩ := List.mem_mapIdx.mp hleg
    exact hlt i
  · refine h.legs_below.appendAll (hlt _) ?_
    intro leg hleg
    obtain ⟨i, hi, rfl⟩ := List.mem_mapIdx.mp hleg
    show db.nextId + 1 + i < db.nextId + 1 + (plan.legs.mapIdx _).length
    rw [List.length_mapIdx]
    omega
  · intro r hr
    obtain ⟨t, ht, hs⟩ := h.run_owner r hr
    exact ⟨t, List.mem_append.mpr (.inl ht), hs⟩
  · intro t ht hs
    rcases List.mem_append.mp ht with ht | ht
    · exact h.started_run t ht hs
    · -- A new task is not started, so it needs no run.
      rw [List.mem_singleton.mp ht] at hs
      cases hs
  · intro o ho
    obtain ⟨r, hr, l, hl, rest⟩ := h.order_owner o ho
    exact ⟨r, hr, l, List.mem_append.mpr (.inl hl), rest⟩

end WellFormed

/-- What another actor can do, by cases: preflight, queueing and cancelling all
move one unstarted task, or raise and change nothing. -/
theorem Act.rec_apply {P : World → Prop} {w : World} (a : Act)
    (ambient : ∀ amb, P { w with ambient := amb })
    (control : ∀ row, a = .control row → P { w with db := { w.db with control := some row } })
    (createTask : ∀ plan, P (Act.apply (.createTask plan) w)) (same : P w)
    (moved : ∀ db', MovesUnstarted w.db db' → P { w with db := db' }) : P (a.apply w) := by
  have hcommit : ∀ {tx : Database → Except Exc (ExecutionTaskRow × Database)},
      (∀ row db', tx w.db = .ok (row, db') → MovesUnstarted w.db db') →
        P { w with db := (commit tx w.db).2 } :=
    fun htx => commit_preserves (P := fun db => P { w with db := db })
      (fun row db' hok => moved db' (htx row db' hok)) same rfl
  cases a with
  | ambient amb => exact ambient amb
  | control row => exact control row rfl
  | createTask plan => exact createTask plan
  | preflightReady id version t =>
      exact hcommit fun _ _ hok => markExecutionTaskPreflightReady_ok hok
  | queue id version => exact hcommit fun _ _ hok => queueExecutionTask_ok hok
  | cancel id version => exact hcommit fun _ _ hok => cancelExecutionTask_ok hok

/-- Every other actor keeps the tables well formed. -/
theorem WellFormed.act {w : World} (h : WellFormed w.db) (a : Act) : WellFormed (a.apply w).db := by
  refine a.rec_apply (P := fun w => WellFormed w.db) (fun amb => h) (fun row _ => ?_) (fun plan => ?_)
    h (fun db' hmoves => h.movesUnstarted hmoves)
  · exact ⟨h.tasks_unique, h.legs_unique, h.runs_unique, h.orders_unique, h.tasks_below,
      h.legs_below, h.runs_below, h.orders_below, h.client_ids, h.run_of_task, h.run_owner,
      h.started_run, h.order_owner, h.created_fresh⟩
  · exact commit_preserves (fun _ _ hok => h.createTask hok) h rfl

/-- Well-formedness holds initially and is kept by every step. -/
theorem wellFormed_initial {w : World} (h : Initial w) : WellFormed w.db where
  tasks_unique := by rw [h.tasks]; exact List.nodup_nil
  legs_unique := by rw [h.legs]; exact List.nodup_nil
  runs_unique := by rw [h.runs]; exact List.nodup_nil
  orders_unique := by rw [h.orders]; exact List.nodup_nil
  tasks_below := by rw [h.tasks]; exact fun r hr => absurd hr List.not_mem_nil
  legs_below := by rw [h.legs]; exact fun r hr => absurd hr List.not_mem_nil
  runs_below := by rw [h.runs]; exact fun r hr => absurd hr List.not_mem_nil
  orders_below := by rw [h.orders]; exact fun r hr => absurd hr List.not_mem_nil
  client_ids := by rw [h.orders]; exact List.nodup_nil
  run_of_task := by rw [h.runs]; exact fun r hr => absurd hr List.not_mem_nil
  run_owner := by rw [h.runs]; exact fun r hr => absurd hr List.not_mem_nil
  started_run := by rw [h.tasks]; exact fun t ht => absurd ht List.not_mem_nil
  order_owner := by rw [h.orders]; exact fun o ho => absurd ho List.not_mem_nil
  created_fresh := by rw [h.orders]; exact fun o ho => absurd ho List.not_mem_nil

theorem wellFormed_preserved (num : Numeric) (Pre : Op → World → Prop) :
    (system num).Preserves (fun w => WellFormed w.db) Pre where
  act := fun a w w' hw h => by
    rw [show w' = a.apply w from hw]
    exact h.act a
  call := fun o w r w' he _ h => by
    cases o with
    | db o =>
        obtain ⟨db', hc, rfl⟩ := he
        exact commit_preserves (fun _ _ hok => h.tx hok) h hc
    | out o =>
        rw [show w' = { w with pass := w.pass.heard o r } from he]
        exact h
  idle := fun _ h => h

end BasisHawk.MultiLeg
