/-
  BasisHawk.MultiLeg.Effects
  ──────────────────────────
  What a committed transaction has checked and what it has written.

  One inversion lemma for each transaction of the worker; later proofs cite
  these and never unfold a transaction.
-/
import BasisHawk.MultiLeg.Operations

namespace BasisHawk.MultiLeg

open Domain Lib

/-- The fields of an order that no transaction changes. -/
structure SameOrder (old new : ExecutionOrderRow) : Prop where
  id : new.id = old.id
  runId : new.runId = old.runId
  taskLegId : new.taskLegId = old.taskLegId
  clientOrderId : new.clientOrderId = old.clientOrderId
  purpose : new.purpose = old.purpose
  quantity : new.quantity = old.quantity
  baseMultiplier : new.baseMultiplier = old.baseMultiplier
  side : new.side = old.side
  reduceOnly : new.reduceOnly = old.reduceOnly
  parentOrderId : new.parentOrderId = old.parentOrderId
  attemptNumber : new.attemptNumber = old.attemptNumber
  chaseNumber : new.chaseNumber = old.chaseNumber
  orderMode : new.orderMode = old.orderMode
  createdAt : new.createdAt = old.createdAt

namespace Database

variable {amb : Ambient} {db db' : Database}

/-! ## §1. Tasks before they start. -/

/-- Preflight, queueing and cancelling move one unstarted task to another
unstarted status. -/
def MovesUnstarted (db db' : Database) : Prop :=
  ∃ row row', db' = { db with tasks := Table.put db.tasks row' }
    ∧ Table.find? db.tasks row.id = some row ∧ row'.id = row.id
    ∧ (row.status = .draft ∨ row.status = .preflightReady ∨ row.status = .queued)
    ∧ (row'.status = .preflightReady ∨ row'.status = .queued ∨ row'.status = .emergencyStopped)

/-- The preflight moves a task that has not started. -/
theorem markExecutionTaskPreflightReady_ok {id version : Nat} {t : Int} {row : ExecutionTaskRow}
    (h : markExecutionTaskPreflightReady id version t db = .ok (row, db')) :
    MovesUnstarted db db' := by
  simp only [markExecutionTaskPreflightReady, found_bind_eq_ok, raiseIf_bind_eq_ok] at h
  obtain ⟨old, hold, -, hstatus, h⟩ := h
  injection h with h
  obtain ⟨rfl, rfl⟩ := Prod.mk.inj h
  have hid : old.id = id := (Table.find?_some hold).2
  refine ⟨old, _, rfl, hid ▸ hold, rfl, ?_, .inl rfl⟩
  by_cases hd : old.status = .draft
  · exact .inl hd
  · exact .inr (.inl (not_not.mp fun hp => hstatus ⟨hd, hp⟩))

/-- So does queueing it. -/
theorem queueExecutionTask_ok {id version : Nat} {row : ExecutionTaskRow}
    (h : queueExecutionTask id version amb db = .ok (row, db')) : MovesUnstarted db db' := by
  simp only [queueExecutionTask, found_bind_eq_ok, raiseIf_bind_eq_ok] at h
  obtain ⟨old, hold, -, hstatus, -, -, h⟩ := h
  injection h with h
  obtain ⟨rfl, rfl⟩ := Prod.mk.inj h
  have hid : old.id = id := (Table.find?_some hold).2
  exact ⟨old, _, rfl, hid ▸ hold, rfl, .inr (.inl (not_not.mp hstatus)), .inr (.inl rfl)⟩

/-- And cancelling it: a task that has started cannot be cancelled. -/
theorem cancelExecutionTask_ok {id version : Nat} {row : ExecutionTaskRow}
    (h : cancelExecutionTask id version db = .ok (row, db')) : MovesUnstarted db db' := by
  simp only [cancelExecutionTask, found_bind_eq_ok, raiseIf_bind_eq_ok] at h
  obtain ⟨old, hold, -, hstatus, h⟩ := h
  injection h with h
  obtain ⟨rfl, rfl⟩ := Prod.mk.inj h
  have hid : old.id = id := (Table.find?_some hold).2
  refine ⟨old, _, rfl, hid ▸ hold, rfl, ?_, .inr (.inr rfl)⟩
  by_cases hd : old.status = .draft
  · exact .inl hd
  by_cases hp : old.status = .preflightReady
  · exact .inr (.inl hp)
  · exact .inr (.inr (not_not.mp fun hq => hstatus ⟨hd, hp, hq⟩))

/-! ## §2. Claiming. -/

theorem startTask_id (row : ExecutionTaskRow) : (startTask row).id = row.id := by
  unfold startTask
  split <;> rfl

/-- The open run of a task is one of its runs. -/
theorem openRun?_some {taskId : Nat} {run : ExecutionRunRow} (h : db.openRun? taskId = some run) :
    run ∈ db.runs ∧ run.taskId = taskId := by
  unfold openRun? at h
  have hmem := List.mem_of_mem_head? h
  rw [List.mem_insertionSort, List.mem_filter, decide_eq_true_eq] at hmem
  exact ⟨hmem.1, hmem.2.1⟩

/-- Where no run is open, none is running. -/
theorem openRun?_none {taskId : Nat} (h : db.openRun? taskId = none) {run : ExecutionRunRow}
    (hr : run ∈ db.runs) (ht : run.taskId = taskId) : run.status ≠ .running := by
  intro hs
  unfold openRun? at h
  rw [List.head?_eq_none_iff] at h
  have hmem : run ∈ (db.runs.filter fun r =>
      r.taskId = taskId ∧ (r.status = .queued ∨ r.status = .running)).insertionSort
        (fun a b => b.runNumber ≤ a.runNumber) := by
    rw [List.mem_insertionSort, List.mem_filter, decide_eq_true_eq]
    exact ⟨hr, ht, .inr hs⟩
  rw [h] at hmem
  exact absurd hmem List.not_mem_nil

/-- The run table after a claim: one run of the task is running. -/
theorem claimRun_cases (amb : Ambient) (db : Database) (taskId : Nat) (workerId : String) :
    (∃ old ∈ db.runs, old.taskId = taskId ∧ (db.claimRun taskId workerId amb).1.id = old.id
        ∧ (db.claimRun taskId workerId amb).1.taskId = taskId
        ∧ (db.claimRun taskId workerId amb).1.status = .running
        ∧ (db.claimRun taskId workerId amb).2
            = { db with runs := Table.put db.runs (db.claimRun taskId workerId amb).1 })
      ∨ (db.openRun? taskId = none ∧ (db.claimRun taskId workerId amb).1.id = db.nextId
        ∧ (db.claimRun taskId workerId amb).1.taskId = taskId
        ∧ (db.claimRun taskId workerId amb).1.status = .running
        ∧ (db.claimRun taskId workerId amb).2
            = { db with
                runs := db.runs ++ [(db.claimRun taskId workerId amb).1]
                nextId := db.nextId + 1 }) := by
  unfold claimRun
  cases h : db.openRun? taskId with
  | none => exact .inr ⟨rfl, rfl, rfl, rfl, rfl⟩
  | some old =>
      obtain ⟨hmem, ht⟩ := openRun?_some h
      exact .inl ⟨old, hmem, ht, rfl, ht, rfl, rfl⟩

/-- A claim either finds nothing and writes nothing, or takes a task that is
queued (and then the control state is ready) or started. -/
theorem claimLiveExecutionTask_ok {workerId : String} {r : Option Claimed}
    (h : claimLiveExecutionTask workerId amb db = .ok (r, db')) :
    (r = none ∧ db' = db)
      ∨ ∃ row ∈ db.tasks, (row.status = .queued ∨ row.status.isStarted)
          ∧ (row.status = .queued → ∃ c ∈ db.control, c.state = .ready)
          ∧ db' = { (db.claimRun row.id workerId amb).2 with
              tasks := Table.put (db.claimRun row.id workerId amb).2.tasks (startTask row) }
          ∧ r = some ⟨startTask row, db'.legsOfTask row.id, (db.claimRun row.id workerId amb).1,
              db'.ordersOfRun (db.claimRun row.id workerId amb).1.id⟩ := by
  unfold claimLiveExecutionTask at h
  cases hf : (db.claimCandidates amb).find? db.mayClaim with
  | none =>
      rw [hf] at h
      injection h with h
      obtain ⟨rfl, rfl⟩ := Prod.mk.inj h
      exact .inl ⟨rfl, rfl⟩
  -- The first candidate that may be claimed: it is queued or started, as the query asks.
  | some row =>
      rw [hf] at h
      injection h with h
      obtain ⟨rfl, rfl⟩ := Prod.mk.inj h
      have hmem := List.mem_of_find?_eq_some hf
      have hmay := List.find?_some hf
      unfold claimCandidates at hmem
      have hmem := List.mem_of_mem_take hmem
      rw [List.mem_insertionSort, List.mem_filter, decide_eq_true_eq] at hmem
      refine .inr ⟨row, hmem.1, hmem.2.2.1, fun hq => ?_, rfl, ?_⟩
      · -- A queued task is claimed under a ready control only.
        rw [mayClaim, hq] at hmay
        cases hc : db.control with
        | none => simp [hc] at hmay
        | some c => exact ⟨c, rfl, by simpa [hc] using hmay⟩
      · rfl

/-! ## §3. Orders. -/

/-- What the creation of an order guarantees: run and leg belong together, the
client order id is new, no order of the leg is active and the row is appended as
it was asked for. -/
theorem createExecutionOrderAttempt_ok {a : OrderAttempt} {row : ExecutionOrderRow}
    (h : createExecutionOrderAttempt a amb db = .ok (row, db')) :
    (∃ run leg, Table.find? db.runs a.runId = some run
        ∧ Table.find? db.legs a.taskLegId = some leg ∧ leg.taskId = run.taskId)
      ∧ (∀ o ∈ db.orders, o.clientOrderId ≠ a.clientOrderId)
      ∧ row.id = db.nextId ∧ row.runId = a.runId ∧ row.taskLegId = a.taskLegId
      ∧ row.clientOrderId = a.clientOrderId ∧ row.purpose = a.purpose ∧ row.status = .created
      ∧ row.quantity = a.quantity ∧ row.baseMultiplier = a.baseMultiplier
      ∧ row.filledQuantity = 0 ∧ row.submittedAt = none
      ∧ row.side = a.side ∧ row.reduceOnly = a.reduceOnly
      ∧ db' = { db with orders := db.orders ++ [row], nextId := db.nextId + 1 } := by
  simp only [createExecutionOrderAttempt, found_bind_eq_ok, raiseIf_bind_eq_ok] at h
  obtain ⟨run, hrun, leg, hleg, htask, -, h⟩ := h
  obtain ⟨⟨attempt, chase⟩, -, h⟩ := bind_eq_ok.mp h
  simp only [raiseIf_bind_eq_ok] at h
  obtain ⟨hcid, -, h⟩ := h
  split at h
  · injection h with h
    obtain ⟨rfl, rfl⟩ := Prod.mk.inj h
    refine ⟨⟨run, leg, hrun, hleg, not_not.mp htask⟩, fun o ho hc => hcid ⟨o, ho, hc⟩, ?_⟩
    exact ⟨rfl, rfl, rfl, rfl, rfl, rfl, rfl, rfl, rfl, rfl, rfl, rfl, rfl⟩
  · cases h

/-- A marking leaves an order as it is, or gives it the status the marking is
for; `mark_execution_order_submitted` alone stamps it. -/
theorem markExecutionOrderSubmitted_ok {id : Nat} {ex : Option String} {row' : ExecutionOrderRow}
    (h : markExecutionOrderSubmitted id ex amb db = .ok (row', db')) :
    ∃ row, Table.find? db.orders id = some row
      ∧ ((row' = row ∧ db' = db ∧ row.status ≠ .created ∧ row.status ≠ .unknown)
        ∨ ((row.status = .created ∨ row.status = .unknown)
          ∧ row' = { row with
              exchangeOrderId := ex, status := .submitted
              submittedAt := some (row.submittedAt.getD amb.now) }
          ∧ db' = { db with orders := Table.put db.orders row' })) := by
  simp only [markExecutionOrderSubmitted, found_bind_eq_ok] at h
  obtain ⟨row, hrow, h⟩ := h
  refine ⟨row, hrow, ?_⟩
  split at h
  · next hs =>
      injection h with h
      obtain ⟨rfl, rfl⟩ := Prod.mk.inj h
      exact .inl ⟨rfl, rfl, hs.1, hs.2⟩
  · next hs =>
      injection h with h
      obtain ⟨rfl, rfl⟩ := Prod.mk.inj h
      refine .inr ⟨?_, rfl, rfl⟩
      by_cases hc : row.status = .created
      · exact .inl hc
      · exact .inr (not_not.mp fun hu => hs ⟨hc, hu⟩)

/-- An order becomes unknown from `created`, `submitted` or `unknown`, and
nothing else of it changes; otherwise the call does nothing. -/
theorem markExecutionOrderUnknown_ok {id : Nat} {row' : ExecutionOrderRow}
    (h : markExecutionOrderUnknown id db = .ok (row', db')) :
    ∃ row, Table.find? db.orders id = some row
      ∧ ((row' = row ∧ db' = db)
        ∨ ((row.status = .created ∨ row.status = .submitted ∨ row.status = .unknown)
          ∧ row' = { row with status := .unknown }
          ∧ db' = { db with orders := Table.put db.orders row' })) := by
  simp only [markExecutionOrderUnknown, found_bind_eq_ok] at h
  obtain ⟨row, hrow, h⟩ := h
  refine ⟨row, hrow, ?_⟩
  split at h
  · injection h with h
    obtain ⟨rfl, rfl⟩ := Prod.mk.inj h
    exact .inl ⟨rfl, rfl⟩
  · next hs =>
      injection h with h
      obtain ⟨rfl, rfl⟩ := Prod.mk.inj h
      refine .inr ⟨?_, rfl, rfl⟩
      by_cases hc : row.status = .created
      · exact .inl hc
      by_cases hb : row.status = .submitted
      · exact .inr (.inl hb)
      · exact .inr (.inr (not_not.mp fun hu => hs ⟨hc, hb, hu⟩))

/-- A cancellation is noted on an order that has not ended; otherwise the call
does nothing. -/
theorem markExecutionOrderCancelPending_ok {id : Nat} {row' : ExecutionOrderRow}
    (h : markExecutionOrderCancelPending id db = .ok (row', db')) :
    ∃ row, Table.find? db.orders id = some row
      ∧ ((row' = row ∧ db' = db)
        ∨ (row.status.isTerminal = false
          ∧ row' = { row with status := .cancelPending }
          ∧ db' = { db with orders := Table.put db.orders row' })) := by
  simp only [markExecutionOrderCancelPending, found_bind_eq_ok] at h
  obtain ⟨row, hrow, h⟩ := h
  refine ⟨row, hrow, ?_⟩
  split at h
  · injection h with h
    obtain ⟨rfl, rfl⟩ := Prod.mk.inj h
    exact .inl ⟨rfl, rfl⟩
  · next hs =>
      injection h with h
      obtain ⟨rfl, rfl⟩ := Prod.mk.inj h
      exact .inr ⟨by simpa using hs, rfl, rfl⟩

/-- What storing one fill has found: the trade is known, with the same quantity, or
it is new and appended. -/
theorem persistFill_ok {orderId : Nat} {item : FillItem} (h : db.persistFill orderId item = .ok db') :
    (db' = db ∧ ∃ f ∈ db.fills, f.executionOrderId = orderId
        ∧ f.exchangeTradeId = item.exchangeTradeId ∧ f.quantity = item.quantity)
      ∨ (∀ f ∈ db.fills,
          ¬(f.executionOrderId = orderId ∧ f.exchangeTradeId = item.exchangeTradeId))
        ∧ ∃ row : ExecutionFillRow, row.executionOrderId = orderId
          ∧ row.exchangeTradeId = item.exchangeTradeId ∧ row.quantity = item.quantity
          ∧ db' = { db with fills := db.fills ++ [row], nextId := db.nextId + 1 } := by
  unfold persistFill at h
  split at h
  · next existing hfind =>
      simp only [raiseIf_bind_eq_ok, not_or, not_not] at h
      obtain ⟨⟨hq, -⟩, h⟩ := h
      injection h with h
      have hmatch := List.find?_some hfind
      rw [decide_eq_true_eq] at hmatch
      exact .inl ⟨h.symm, existing, List.mem_of_find?_eq_some hfind, hmatch.1, hmatch.2, hq⟩
  · next hnone =>
      split at h
      · injection h with h
        refine .inr ⟨fun f hf hmatch => ?_, _, rfl, rfl, rfl, h.symm⟩
        exact List.find?_eq_none.mp hnone f hf (decide_eq_true hmatch)
      · cases h

/-- The fill loop only appends, for its order, and touches no other table. -/
theorem persistFills_ok {orderId : Nat} :
    ∀ {items : List FillItem} {db db' : Database}, db.persistFills orderId items = .ok db' →
      ∃ added n, db.nextId ≤ n ∧ db' = { db with fills := db.fills ++ added, nextId := n }
        ∧ ∀ f ∈ added, f.executionOrderId = orderId
  | [], db, db', h => by
      injection h with h
      refine ⟨[], db.nextId, le_refl _, ?_, fun f hf => absurd hf List.not_mem_nil⟩
      rw [List.append_nil, h]
  | item :: rest, db, db', h => by
      obtain ⟨db₁, h₁, h⟩ := bind_eq_ok.mp h
      obtain ⟨added, n, hn, rfl, hadded⟩ := persistFills_ok h
      rcases persistFill_ok h₁ with ⟨rfl, -⟩ | ⟨-, row, hrow, -, -, rfl⟩
      · exact ⟨added, n, hn, rfl, hadded⟩
      · refine ⟨[row] ++ added, n, Nat.le_of_succ_le hn, by rw [← List.append_assoc], ?_⟩
        exact List.forall_mem_cons.mpr ⟨hrow, hadded⟩

/-- What a committed `apply_execution_order_observation` has checked and written,
with the table of fills as its loop leaves it. -/
theorem applyExecutionOrderObservation_rows {ob : Observation} {row' : ExecutionOrderRow}
    (h : applyExecutionOrderObservation ob amb db = .ok (row', db')) :
    ∃ row db₁, Table.find? db.orders ob.orderId = some row
      ∧ (ob.status ≠ .created ∧ ob.status ≠ .submitted)
      ∧ (row.filledQuantity ≤ ob.filledQuantity ∧ ob.filledQuantity ≤ row.quantity)
      ∧ db.persistFills ob.orderId ob.fills = .ok db₁
      ∧ SameOrder row row' ∧ row'.submittedAt = row.submittedAt ∧ row'.limitPrice = row.limitPrice
      ∧ row'.status = ob.status ∧ row'.filledQuantity = ob.filledQuantity
      ∧ row'.terminalAt = (if ob.status.isTerminal then some amb.now else row.terminalAt)
      ∧ db' = { db₁ with orders := Table.put db₁.orders row' } := by
  simp only [applyExecutionOrderObservation, raiseIf_bind_eq_ok, found_bind_eq_ok] at h
  obtain ⟨hstatus, row, hrow, h⟩ := h
  split at h
  · cases h
  next hback =>
  split at h
  · cases h
  next hover =>
  obtain ⟨db₁, h₁, h⟩ := bind_eq_ok.mp h
  injection h with h
  obtain ⟨rfl, rfl⟩ := Prod.mk.inj h
  exact ⟨row, db₁, hrow, not_or.mp hstatus, ⟨not_lt.mp hback, not_lt.mp hover⟩, h₁,
    ⟨rfl, rfl, rfl, rfl, rfl, rfl, rfl, rfl, rfl, rfl, rfl, rfl, rfl, rfl⟩, rfl, rfl, rfl, rfl, rfl,
    rfl⟩

/-- What an observation may do to an order: fills are added, the filled quantity
grows, and an order that has ended keeps its status. -/
theorem applyExecutionOrderObservation_ok {ob : Observation} {row' : ExecutionOrderRow}
    (h : applyExecutionOrderObservation ob amb db = .ok (row', db')) :
    ∃ row fills n, Table.find? db.orders ob.orderId = some row
      ∧ ob.status ≠ .created ∧ ob.status ≠ .submitted
      ∧ row.filledQuantity ≤ ob.filledQuantity ∧ ob.filledQuantity ≤ row.quantity
      ∧ SameOrder row row' ∧ row'.submittedAt = row.submittedAt
      ∧ row'.status = ob.status ∧ row'.filledQuantity = ob.filledQuantity
      ∧ db.nextId ≤ n
      ∧ db' = { db with
          orders := Table.put db.orders row', fills := fills, nextId := n } := by
  obtain ⟨row, db₁, hrow, ⟨hcreated, hsubmitted⟩, ⟨hback, hover⟩, h₁, hsame, hsub, -, hst, hfilled, -,
    rfl⟩ := applyExecutionOrderObservation_rows h
  obtain ⟨added, n, hn, rfl, -⟩ := persistFills_ok h₁
  exact ⟨row, db.fills ++ added, n, hrow, hcreated, hsubmitted, hback, hover, hsame, hsub, hst,
    hfilled, hn, rfl⟩

/-! ## §4. Phases and outcomes. -/

/-- A phase is set on a started task only, and only to a phase of a started
task. -/
theorem setExecutionTaskPhase_ok {id : Nat} {status : TaskStatus} {u : Unit}
    (h : setExecutionTaskPhase id status db = .ok (u, db')) :
    ∃ row, Table.find? db.tasks id = some row ∧ status.isStarted ∧ row.status.isStarted
      ∧ ((row.status = status ∧ db' = db)
        ∨ ∃ row', db' = { db with tasks := Table.put db.tasks row' } ∧ row'.id = row.id
            ∧ row'.status = status ∧ row'.hedgeThreshold = row.hedgeThreshold) := by
  simp only [setExecutionTaskPhase, raiseIf_bind_eq_ok, found_bind_eq_ok] at h
  obtain ⟨hstatus, row, hrow, hstarted, h⟩ := h
  refine ⟨row, hrow, not_not.mp hstatus, not_not.mp hstarted, ?_⟩
  split at h
  · next hs =>
      injection h with h
      exact .inl ⟨hs, (Prod.mk.inj h).2.symm⟩
  · injection h with h
    exact .inr ⟨_, (Prod.mk.inj h).2.symm, rfl, rfl, rfl⟩

/-- A leg is resolved once: where it has been, the call reads it back, and
otherwise it stores the quantity and the ratio. -/
theorem resolveExecutionTaskLegQuantity_ok {num : Numeric} {id : Nat} {base ratio : ℚ}
    {row' : ExecutionTaskLegRow}
    (h : resolveExecutionTaskLegQuantity num id base ratio db = .ok (row', db')) :
    ∃ row, Table.find? db.legs id = some row
      ∧ ((row' = row ∧ db' = db ∧ row.resolvedBaseQuantity.isSome)
        ∨ (row.resolvedBaseQuantity = none
          ∧ row' = { row with
              resolvedBaseQuantity := some (num.store base)
              signedBaseRatio := some (num.store ratio) }
          ∧ db' = { db with legs := Table.put db.legs row' })) := by
  simp only [resolveExecutionTaskLegQuantity, raiseIf_bind_eq_ok, found_bind_eq_ok] at h
  obtain ⟨-, row, hrow, h⟩ := h
  refine ⟨row, hrow, ?_⟩
  split at h
  · next q hq =>
      simp only [raiseIf_bind_eq_ok] at h
      injection h.2 with h
      obtain ⟨rfl, rfl⟩ := Prod.mk.inj h
      exact .inl ⟨rfl, rfl, by rw [hq]; rfl⟩
  · next hq =>
      injection h with h
      obtain ⟨rfl, rfl⟩ := Prod.mk.inj h
      exact .inr ⟨hq, rfl, rfl⟩

/-- A resolved quantity is positive. -/
theorem resolveExecutionTaskLegQuantity_pos {num : Numeric} {id : Nat} {base ratio : ℚ}
    {row' : ExecutionTaskLegRow}
    (h : resolveExecutionTaskLegQuantity num id base ratio db = .ok (row', db')) : 0 < base := by
  simp only [resolveExecutionTaskLegQuantity, raiseIf_bind_eq_ok] at h
  exact not_le.mp h.1

/-- Task and run of a call belong together. -/
theorem taskAndRun_ok {taskId runId : Nat} {missing : String}
    {p : ExecutionTaskRow × ExecutionRunRow} (h : db.taskAndRun taskId runId missing = .ok p) :
    Table.find? db.tasks taskId = some p.1 ∧ Table.find? db.runs runId = some p.2
      ∧ p.2.taskId = taskId := by
  simp only [taskAndRun, found_bind_eq_ok, raiseIf_bind_eq_ok] at h
  obtain ⟨task, htask, run, hrun, hsame, h⟩ := h
  injection h with h
  subst h
  exact ⟨htask, hrun, not_not.mp hsame⟩

/-- A transaction that moves a task and its run together to a common phase. -/
structure MovesRun (taskId runId : Nat) (db db' : Database) (task : ExecutionTaskRow)
    (taskStatus : TaskStatus) (runStatus : RunStatus) : Prop where
  found_task : Table.find? db.tasks taskId = some task
  moved : ∃ run task' run', db'.tasks = Table.put db.tasks task'
    ∧ db'.runs = Table.put db.runs run' ∧ Table.find? db.runs runId = some run
    ∧ run.taskId = taskId ∧ task'.id = task.id ∧ task'.status = taskStatus
    ∧ run'.id = run.id ∧ run'.taskId = run.taskId ∧ run'.status = runStatus
  legs : db'.legs = db.legs
  orders : db'.orders = db.orders
  fills : db'.fills = db.fills
  nextId : db.nextId ≤ db'.nextId

/-- A run that is failed takes its task with it; the control is paused where a
review is asked for. -/
theorem failExecutionTaskRun_ok {taskId runId : Nat} {code worker : String} {manualReview : Bool}
    {u : Unit} (h : failExecutionTaskRun taskId runId code worker manualReview amb db = .ok (u, db')) :
    (∃ task, MovesRun taskId runId db db' task (if manualReview then .manualReview else .failed)
        (if manualReview then .manualReview else .failed))
      ∧ db'.control = if manualReview then db.control.map fun _ => ⟨.paused, code⟩ else db.control := by
  simp only [failExecutionTaskRun] at h
  obtain ⟨p, hp, h⟩ := bind_eq_ok.mp h
  obtain ⟨htask, hrun, hsame⟩ := taskAndRun_ok hp
  injection h with h
  obtain ⟨-, rfl⟩ := Prod.mk.inj h
  cases manualReview <;>
    exact ⟨⟨p.1, htask, ⟨p.2, _, _, rfl, rfl, hrun, hsame, rfl, rfl, rfl, rfl, rfl⟩, rfl, rfl,
      rfl, le_refl _⟩, rfl⟩

/-- A compensation begins on a started task, leaves its run running and pauses
the control. -/
theorem beginExecutionTaskCompensation_ok {taskId runId : Nat} {code worker : String} {u : Unit}
    (h : beginExecutionTaskCompensation taskId runId code worker db = .ok (u, db')) :
    (∃ task, task.status.isStarted ∧ MovesRun taskId runId db db' task .compensating .running)
      ∧ db'.control = db.control.map fun _ => ⟨.paused, code⟩ := by
  simp only [beginExecutionTaskCompensation] at h
  obtain ⟨p, hp, h⟩ := bind_eq_ok.mp h
  obtain ⟨htask, hrun, hsame⟩ := taskAndRun_ok hp
  simp only [raiseIf_bind_eq_ok] at h
  obtain ⟨hstarted, h⟩ := h
  injection h with h
  obtain ⟨-, rfl⟩ := Prod.mk.inj h
  exact ⟨⟨p.1, not_not.mp hstarted, htask, ⟨p.2, _, _, rfl, rfl, hrun, hsame, rfl, rfl, rfl, rfl,
    rfl⟩, rfl, rfl, rfl, le_refl _⟩, rfl⟩

/-- A completion ends a task that is running or hedging, together with its run,
or finds it completed already; the control stays as it is. -/
theorem completeLiveExecutionTask_ok {num : Numeric} {taskId runId : Nat} {worker : String} {done : Bool}
    (h : completeLiveExecutionTask num taskId runId worker amb db = .ok (done, db')) :
    (∃ task, ((task.status = .running ∨ task.status = .hedging)
          ∧ MovesRun taskId runId db db' task .completed .completed)
        ∨ db' = db)
      ∧ db'.control = db.control := by
  simp only [completeLiveExecutionTask] at h
  obtain ⟨p, hp, h⟩ := bind_eq_ok.mp h
  obtain ⟨htask, hrun, hsame⟩ := taskAndRun_ok hp
  -- Completed before: the source returns `False` and writes nothing.
  split at h
  · injection h with h
    obtain ⟨-, rfl⟩ := Prod.mk.inj h
    exact ⟨⟨p.1, .inr rfl⟩, rfl⟩
  · simp only [raiseIf_bind_eq_ok] at h
    obtain ⟨hstatus, h⟩ := h
    obtain ⟨aggregates, -, h⟩ := bind_eq_ok.mp h
    injection h with h
    obtain ⟨-, rfl⟩ := Prod.mk.inj h
    have hactive : p.1.status = .running ∨ p.1.status = .hedging := by
      by_cases hr : p.1.status = .running
      · exact .inl hr
      · exact .inr (not_not.mp fun hh => hstatus ⟨hr, hh⟩)
    -- With or without a strategy: its rows come on top and touch no task.
    cases hc : p.1.createStrategy with
    | false =>
        exact ⟨⟨p.1, .inl ⟨hactive, htask, ⟨p.2, _, _, rfl, rfl, hrun, hsame, rfl, rfl, rfl, rfl,
          rfl⟩, rfl, rfl, rfl, le_refl _⟩⟩, rfl⟩
    | true =>
        refine ⟨⟨p.1, .inl ⟨hactive, htask, ⟨p.2, _, _, rfl, rfl, hrun, hsame, rfl, rfl, rfl, rfl,
          rfl⟩, rfl, rfl, rfl, ?_⟩⟩, rfl⟩
        show db.nextId ≤ db.nextId + 1 + _
        omega

end Database

open Database

/-! ## §5. What a transaction does to the orders. -/

/-- The effect of a transaction on the order table. -/
inductive OrdersEffect : DbOp → Database → Database → Prop where
  | same {o db db'} (h : db'.orders = db.orders) : OrdersEffect o db db'
  | created {a db db' row} (h : db'.orders = db.orders ++ [row]) (runId : row.runId = a.runId)
      (taskLegId : row.taskLegId = a.taskLegId) (clientOrderId : row.clientOrderId = a.clientOrderId)
      (purpose : row.purpose = a.purpose) (status : row.status = .created)
      (quantity : row.quantity = a.quantity) (baseMultiplier : row.baseMultiplier = a.baseMultiplier)
      (filled : row.filledQuantity = 0) (submitted : row.submittedAt = none)
      (side : row.side = a.side) (reduceOnly : row.reduceOnly = a.reduceOnly) :
      OrdersEffect (.createOrder a) db db'
  | marked {o db db' old new} (h : db'.orders = Table.put db.orders new) (mem : old ∈ db.orders)
      (same : SameOrder old new) (active : old.status.isTerminal = false)
      (status : new.status = .submitted ∨ new.status = .unknown ∨ new.status = .cancelPending)
      (filled : new.filledQuantity = old.filledQuantity)
      (submitted : old.submittedAt.isSome → new.submittedAt.isSome) : OrdersEffect o db db'
  | observed {ob db db' old new} (h : db'.orders = Table.put db.orders new) (mem : old ∈ db.orders)
      (orderId : old.id = ob.orderId) (same : SameOrder old new) (status : new.status = ob.status)
      (fresh : ob.status ≠ .created ∧ ob.status ≠ .submitted)
      (filled : new.filledQuantity = ob.filledQuantity)
      (bounds : old.filledQuantity ≤ ob.filledQuantity ∧ ob.filledQuantity ≤ old.quantity)
      (submitted : new.submittedAt = old.submittedAt) : OrdersEffect (.observe ob) db db'

/-- The only transactions that write to orders are a creation, a marking of an
order that has not ended, and an observation. -/
theorem DbOp.ordersEffect {num : Numeric} {amb : Ambient} {o : DbOp} {r : o.Result}
    {db db' : Database} (hok : o.tx num amb db = .ok (r, db')) : OrdersEffect o db db' := by
  cases o with
  | claim workerId =>
      rcases claimLiveExecutionTask_ok hok with ⟨-, rfl⟩ | ⟨row, -, -, -, rfl, -⟩
      · exact .same rfl
      · refine .same ?_
        rcases claimRun_cases amb db row.id workerId with
          ⟨_, _, _, _, _, _, heq⟩ | ⟨_, _, _, _, heq⟩ <;> rw [heq]
  | ordersForRun runId =>
      injection hok with hok
      exact .same (by rw [(Prod.mk.inj hok).2])
  | executionTask taskId =>
      injection hok with hok
      exact .same (by rw [(Prod.mk.inj hok).2])
  | setPhase taskId status =>
      obtain ⟨row, -, -, -, ⟨-, rfl⟩ | ⟨row', rfl, -⟩⟩ := setExecutionTaskPhase_ok hok <;>
        exact .same rfl
  | resolveLeg legId base ratio =>
      obtain ⟨row, -, ⟨-, rfl, -⟩ | ⟨-, -, rfl⟩⟩ := resolveExecutionTaskLegQuantity_ok hok <;>
        exact .same rfl
  -- An order is appended; the marks put one in its place if its status permits it.
  | createOrder a =>
      obtain ⟨-, -, -, hrun, hleg, hcid, hpurpose, hst, hq, hm, hf, hsub, hside, hreduce, rfl⟩ :=
        createExecutionOrderAttempt_ok hok
      exact .created rfl hrun hleg hcid hpurpose hst hq hm hf hsub hside hreduce
  | markUnknown id =>
      obtain ⟨row, hrow, ⟨-, rfl⟩ | ⟨hst, rfl, rfl⟩⟩ := markExecutionOrderUnknown_ok hok
      · exact .same rfl
      · refine .marked rfl (Table.find?_some hrow).1
          ⟨rfl, rfl, rfl, rfl, rfl, rfl, rfl, rfl, rfl, rfl, rfl, rfl, rfl, rfl⟩ ?_
          (.inr (.inl rfl)) rfl (fun h => h)
        rcases hst with hst | hst | hst <;> rw [hst] <;> rfl
  | markSubmitted id ex =>
      obtain ⟨row, hrow, ⟨-, rfl, -⟩ | ⟨hst, rfl, rfl⟩⟩ := markExecutionOrderSubmitted_ok hok
      · exact .same rfl
      · refine .marked rfl (Table.find?_some hrow).1
          ⟨rfl, rfl, rfl, rfl, rfl, rfl, rfl, rfl, rfl, rfl, rfl, rfl, rfl, rfl⟩ ?_
          (.inl rfl) rfl (fun _ => rfl)
        rcases hst with hst | hst <;> rw [hst] <;> rfl
  | markCancelPending id =>
      obtain ⟨row, hrow, ⟨-, rfl⟩ | ⟨hst, rfl, rfl⟩⟩ := markExecutionOrderCancelPending_ok hok
      · exact .same rfl
      · exact .marked rfl (Table.find?_some hrow).1
          ⟨rfl, rfl, rfl, rfl, rfl, rfl, rfl, rfl, rfl, rfl, rfl, rfl, rfl, rfl⟩ hst
          (.inr (.inr rfl)) rfl (fun h => h)
  | observe ob =>
      obtain ⟨row, fills, n, hrow, hne, hne', hlo, hhi, hsame, hsub, hst, hf, -, rfl⟩ :=
        applyExecutionOrderObservation_ok hok
      obtain ⟨hmem, hrid⟩ := Table.find?_some hrow
      exact .observed rfl hmem hrid hsame hst ⟨hne, hne'⟩ hf
        ⟨hlo, hhi⟩ hsub
  -- These move the task and its run.
  | beginCompensation taskId runId code worker =>
      obtain ⟨⟨task, -, hm⟩, -⟩ := beginExecutionTaskCompensation_ok hok
      exact .same hm.orders
  | failRun taskId runId code worker manualReview =>
      obtain ⟨⟨task, hm⟩, -⟩ := failExecutionTaskRun_ok hok
      exact .same hm.orders
  | complete taskId runId worker =>
      obtain ⟨⟨task, ⟨-, hm⟩ | rfl⟩, -⟩ := completeLiveExecutionTask_ok hok
      · exact .same hm.orders
      · exact .same rfl

/-! ## §6. What a transaction does to the tasks and the runs. -/

/-- A transaction that writes to no task and no run. -/
def DbOp.sparesTask : DbOp → Prop
  | .claim _ | .setPhase .. | .beginCompensation .. | .failRun .. | .complete .. => False
  | _ => True

/-- The operations on orders and legs leave tasks and runs alone. -/
theorem DbOp.sparesTask_tx {num : Numeric} {o : DbOp} {amb : Ambient}
    {db db' : Database} {r : o.Result} (h : o.tx num amb db = .ok (r, db')) (ho : o.sparesTask) :
    db'.tasks = db.tasks ∧ db'.runs = db.runs := by
  cases o with
  | ordersForRun runId =>
      injection h with h
      rw [(Prod.mk.inj h).2]
      exact ⟨rfl, rfl⟩
  | executionTask taskId =>
      injection h with h
      rw [(Prod.mk.inj h).2]
      exact ⟨rfl, rfl⟩
  | resolveLeg legId base ratio =>
      obtain ⟨row, -, ⟨-, rfl, -⟩ | ⟨-, -, rfl⟩⟩ := resolveExecutionTaskLegQuantity_ok h <;>
        exact ⟨rfl, rfl⟩
  | createOrder a =>
      obtain ⟨-, -, -, -, -, -, -, -, -, -, -, -, -, -, rfl⟩ := createExecutionOrderAttempt_ok h
      exact ⟨rfl, rfl⟩
  | markUnknown id =>
      obtain ⟨row, -, ⟨-, rfl⟩ | ⟨-, -, rfl⟩⟩ := markExecutionOrderUnknown_ok h <;> exact ⟨rfl, rfl⟩
  | markSubmitted id ex =>
      obtain ⟨row, -, ⟨-, rfl, -⟩ | ⟨-, -, rfl⟩⟩ := markExecutionOrderSubmitted_ok h <;>
        exact ⟨rfl, rfl⟩
  | markCancelPending id =>
      obtain ⟨row, -, ⟨-, rfl⟩ | ⟨-, -, rfl⟩⟩ := markExecutionOrderCancelPending_ok h <;>
        exact ⟨rfl, rfl⟩
  | observe ob =>
      obtain ⟨row, fills, n, -, -, -, -, -, -, -, -, -, -, rfl⟩ :=
        applyExecutionOrderObservation_ok h
      exact ⟨rfl, rfl⟩
  | _ => cases ho

/-- How a transaction moves the status of a task that it moves at all. -/
def DbOp.MovesTask : DbOp → ExecutionTaskRow → ExecutionTaskRow → Prop
  | .claim _, old, new => old.status = .queued ∧ new.status = .running
  | .setPhase taskId status, old, new => old.id = taskId ∧ new.status = status
  | .beginCompensation taskId .., old, new =>
      old.id = taskId ∧ old.status.isStarted ∧ new.status = .compensating
  | .failRun taskId .., old, new =>
      old.id = taskId ∧ (new.status = .failed ∨ new.status = .manualReview)
  | .complete taskId .., old, new =>
      old.id = taskId ∧ (old.status = .running ∨ old.status = .hedging) ∧ new.status = .completed
  | _, _, _ => False

/-- The tasks after a transaction are those before it, some of them moved. -/
def TasksEffect (o : DbOp) (db db' : Database) : Prop :=
  db'.tasks.map key = db.tasks.map key
    ∧ ∀ new ∈ db'.tasks, ∃ old ∈ db.tasks, old.id = new.id
        ∧ (new.status = old.status ∨ o.MovesTask old new)

/-- Tasks that are not touched have moved as the operation says. -/
theorem TasksEffect.same {o : DbOp} {db db' : Database} (h : db'.tasks = db.tasks) :
    TasksEffect o db db' := by
  unfold TasksEffect
  rw [h]
  exact ⟨rfl, fun new hnew => ⟨new, hnew, rfl, .inl rfl⟩⟩

/-- So has the one task that an operation writes. -/
theorem TasksEffect.put {o : DbOp} {db db' : Database} {old new : ExecutionTaskRow}
    (h : db'.tasks = Table.put db.tasks new) (hold : old ∈ db.tasks) (hid : new.id = old.id)
    (hmove : new.status = old.status ∨ o.MovesTask old new) : TasksEffect o db db' := by
  unfold TasksEffect
  rw [h]
  refine ⟨Table.map_key_put, fun t ht => ?_⟩
  rcases Table.mem_put.mp ht with ⟨rfl, -⟩ | ⟨ht, -⟩
  · exact ⟨old, hold, hid.symm, hmove⟩
  · exact ⟨t, ht, rfl, .inl rfl⟩

/-- How each transaction of the worker moves tasks: the inversion lemma that the
task invariants are proved from. -/
theorem DbOp.tasksEffect {num : Numeric} {amb : Ambient} {o : DbOp} {r : o.Result}
    {db db' : Database} (hok : o.tx num amb db = .ok (r, db')) : TasksEffect o db db' := by
  cases o with
  | claim workerId =>
      rcases claimLiveExecutionTask_ok hok with ⟨-, rfl⟩ | ⟨row, hrow, hst, -, hdb, -⟩
      · exact .same rfl
      · -- The claim of the run leaves the tasks alone.
        have htasks : (db.claimRun row.id workerId amb).2.tasks = db.tasks := by
          rcases claimRun_cases amb db row.id workerId with
            ⟨_, _, _, _, _, _, heq⟩ | ⟨_, _, _, _, heq⟩ <;> rw [heq]
        -- A queued task starts to run, a started one stays as it is.
        refine .put (by rw [hdb, ← htasks]) hrow (startTask_id row) ?_
        unfold startTask
        by_cases hq : row.status = .queued
        · rw [if_pos hq]
          exact .inr ⟨hq, rfl⟩
        · rw [if_neg hq]
          exact .inl rfl
  | setPhase taskId status =>
      obtain ⟨row, hrow, -, -, ⟨-, rfl⟩ | ⟨row', rfl, hid, hst, -⟩⟩ := setExecutionTaskPhase_ok hok
      · exact .same rfl
      · obtain ⟨hmem, hkey⟩ := Table.find?_some hrow
        exact .put rfl hmem hid (.inr ⟨hkey, hst⟩)
  | beginCompensation taskId runId code worker =>
      obtain ⟨⟨task, hstarted, hm⟩, -⟩ := beginExecutionTaskCompensation_ok hok
      obtain ⟨run, task', run', htasks, -, -, -, hid, hst, -⟩ := hm.moved
      obtain ⟨hmem, hkey⟩ := Table.find?_some hm.found_task
      exact .put htasks hmem hid (.inr ⟨hkey, hstarted, hst⟩)
  | failRun taskId runId code worker manualReview =>
      obtain ⟨⟨task, hm⟩, -⟩ := failExecutionTaskRun_ok hok
      obtain ⟨run, task', run', htasks, -, -, -, hid, hst, -⟩ := hm.moved
      obtain ⟨hmem, hkey⟩ := Table.find?_some hm.found_task
      refine .put htasks hmem hid (.inr ⟨hkey, ?_⟩)
      -- A failed task ends in `failed` or in `manual_review`.
      rw [hst]
      cases manualReview
      · exact .inl rfl
      · exact .inr rfl
  | complete taskId runId worker =>
      obtain ⟨⟨task, ⟨hactive, hm⟩ | rfl⟩, -⟩ := completeLiveExecutionTask_ok hok
      · obtain ⟨run, task', run', htasks, -, -, -, hid, hst, -⟩ := hm.moved
        obtain ⟨hmem, hkey⟩ := Table.find?_some hm.found_task
        exact .put htasks hmem hid (.inr ⟨hkey, hactive, hst⟩)
      · exact .same rfl
  | _ => exact .same (DbOp.sparesTask_tx hok trivial).1

/-- A run is there before a transaction, for the same task, or its key is new. -/
def RunsEffect (db db' : Database) : Prop :=
  ∀ new ∈ db'.runs, (∃ old ∈ db.runs, old.id = new.id ∧ old.taskId = new.taskId)
    ∨ new.id = db.nextId

theorem RunsEffect.same {db db' : Database} (h : db'.runs = db.runs) : RunsEffect db db' := by
  unfold RunsEffect
  rw [h]
  exact fun new hnew => .inl ⟨new, hnew, rfl, rfl⟩

/-- A run that is written keeps its identifier and its task. -/
theorem RunsEffect.put {db db' : Database} {old new : ExecutionRunRow}
    (h : db'.runs = Table.put db.runs new) (hold : old ∈ db.runs) (hid : new.id = old.id)
    (htask : new.taskId = old.taskId) : RunsEffect db db' := by
  unfold RunsEffect
  rw [h]
  exact Table.forall_put (fun r hr => .inl ⟨r, hr, rfl, rfl⟩) (.inl ⟨old, hold, hid.symm, htask.symm⟩)

theorem Database.MovesRun.runsEffect {taskId runId : Nat} {db db' : Database} {task : ExecutionTaskRow}
    {taskStatus : TaskStatus} {runStatus : RunStatus}
    (h : MovesRun taskId runId db db' task taskStatus runStatus) : RunsEffect db db' := by
  obtain ⟨run, task', run', -, hruns, hrun, -, -, -, hid, htask, -⟩ := h.moved
  exact .put hruns (Table.find?_some hrun).1 hid htask

/-- What each transaction of the worker does to the runs: none loses its task,
and new ones have new identifiers. -/
theorem DbOp.runsEffect {num : Numeric} {amb : Ambient} {o : DbOp} {r : o.Result}
    {db db' : Database} (hok : o.tx num amb db = .ok (r, db')) : RunsEffect db db' := by
  cases o with
  | claim workerId =>
      rcases claimLiveExecutionTask_ok hok with ⟨-, rfl⟩ | ⟨row, -, -, -, hdb, -⟩
      · exact .same rfl
      · -- A claim takes the open run of the task up again, or makes a new one.
        rcases claimRun_cases amb db row.id workerId with
          ⟨old, hold, holdtask, hid, htask, -, heq⟩ | ⟨-, hid, -, -, heq⟩
        · exact .put (by rw [hdb, heq]) hold hid (htask.trans holdtask.symm)
        · intro new hnew
          rw [hdb, heq] at hnew
          rcases List.mem_append.mp hnew with hnew | hnew
          · exact .inl ⟨new, hnew, rfl, rfl⟩
          · rw [List.mem_singleton.mp hnew]
            exact .inr hid
  | beginCompensation taskId runId code worker =>
      obtain ⟨⟨task, -, hm⟩, -⟩ := beginExecutionTaskCompensation_ok hok
      exact hm.runsEffect
  | failRun taskId runId code worker manualReview =>
      obtain ⟨⟨task, hm⟩, -⟩ := failExecutionTaskRun_ok hok
      exact hm.runsEffect
  | complete taskId runId worker =>
      obtain ⟨⟨task, ⟨-, hm⟩ | rfl⟩, -⟩ := completeLiveExecutionTask_ok hok
      · exact hm.runsEffect
      · exact .same rfl
  | setPhase taskId status =>
      obtain ⟨row, -, -, -, ⟨-, rfl⟩ | ⟨row', rfl, -⟩⟩ := setExecutionTaskPhase_ok hok <;>
        exact .same rfl
  | _ => exact .same (DbOp.sparesTask_tx hok trivial).2

/-- A transaction leaves the legs alone, or resolves the quantity of one. -/
theorem DbOp.legs_tx {num : Numeric} {amb : Ambient} {o : DbOp} {r : o.Result}
    {db db' : Database} (hok : o.tx num amb db = .ok (r, db')) :
    db'.legs = db.legs ∨ ∃ legId base ratio old, o = .resolveLeg legId base ratio ∧ 0 < base
      ∧ Table.find? db.legs legId = some old ∧ old.resolvedBaseQuantity = none
      ∧ db' = { db with legs := Table.put db.legs { old with
          resolvedBaseQuantity := some (num.store base)
          signedBaseRatio := some (num.store ratio) } } := by
  cases o with
  | claim workerId =>
      rcases claimLiveExecutionTask_ok hok with ⟨-, rfl⟩ | ⟨row, -, -, -, rfl, -⟩
      · exact .inl rfl
      · refine .inl ?_
        rcases claimRun_cases amb db row.id workerId with
          ⟨_, _, _, _, _, _, heq⟩ | ⟨_, _, _, _, heq⟩ <;> rw [heq]
  | ordersForRun runId =>
      injection hok with hok
      exact .inl (by rw [(Prod.mk.inj hok).2])
  | executionTask taskId =>
      injection hok with hok
      exact .inl (by rw [(Prod.mk.inj hok).2])
  | setPhase taskId status =>
      obtain ⟨row, -, -, -, ⟨-, rfl⟩ | ⟨row', rfl, -⟩⟩ := setExecutionTaskPhase_ok hok <;>
        exact .inl rfl
  -- The only transaction that writes to the legs, and it writes to an unresolved one.
  | resolveLeg legId base ratio =>
      have hpos := resolveExecutionTaskLegQuantity_pos hok
      obtain ⟨row, hrow, ⟨-, rfl, -⟩ | ⟨hnone, rfl, rfl⟩⟩ := resolveExecutionTaskLegQuantity_ok hok
      · exact .inl rfl
      · exact .inr ⟨legId, base, ratio, row, rfl, hpos, hrow, hnone, rfl⟩
  | createOrder a =>
      obtain ⟨-, -, -, -, -, -, -, -, -, -, -, -, -, -, rfl⟩ := createExecutionOrderAttempt_ok hok
      exact .inl rfl
  | markUnknown id =>
      obtain ⟨row, -, ⟨-, rfl⟩ | ⟨-, -, rfl⟩⟩ := markExecutionOrderUnknown_ok hok <;>
        exact .inl rfl
  | markSubmitted id ex =>
      obtain ⟨row, -, ⟨-, rfl, -⟩ | ⟨-, -, rfl⟩⟩ := markExecutionOrderSubmitted_ok hok <;>
        exact .inl rfl
  | markCancelPending id =>
      obtain ⟨row, -, ⟨-, rfl⟩ | ⟨-, -, rfl⟩⟩ := markExecutionOrderCancelPending_ok hok <;>
        exact .inl rfl
  | observe ob =>
      obtain ⟨row, fills, n, -, -, -, -, -, -, -, -, -, -, rfl⟩ :=
        applyExecutionOrderObservation_ok hok
      exact .inl rfl
  | beginCompensation taskId runId code worker =>
      obtain ⟨⟨task, -, hm⟩, -⟩ := beginExecutionTaskCompensation_ok hok
      exact .inl hm.legs
  | failRun taskId runId code worker manualReview =>
      obtain ⟨⟨task, hm⟩, -⟩ := failExecutionTaskRun_ok hok
      exact .inl hm.legs
  | complete taskId runId worker =>
      obtain ⟨⟨task, ⟨-, hm⟩ | rfl⟩, -⟩ := completeLiveExecutionTask_ok hok
      · exact .inl hm.legs
      · exact .inl rfl

/-- Only an observation records fills. -/
theorem DbOp.fills_tx {num : Numeric} {amb : Ambient} {o : DbOp} {r : o.Result}
    {db db' : Database} (hok : o.tx num amb db = .ok (r, db')) (hne : ∀ ob, o ≠ .observe ob) :
    db'.fills = db.fills := by
  cases o with
  -- A claim, whether it takes up an old run or makes one.
  | claim workerId =>
      rcases claimLiveExecutionTask_ok hok with ⟨-, rfl⟩ | ⟨row, -, -, -, rfl, -⟩
      · rfl
      · rcases claimRun_cases amb db row.id workerId with
          ⟨_, _, _, _, _, _, heq⟩ | ⟨_, _, _, _, heq⟩ <;> rw [heq]
  | ordersForRun runId =>
      injection hok with hok
      rw [(Prod.mk.inj hok).2]
  | executionTask taskId =>
      injection hok with hok
      rw [(Prod.mk.inj hok).2]
  | setPhase taskId status =>
      obtain ⟨row, -, -, -, ⟨-, rfl⟩ | ⟨row', rfl, -⟩⟩ := setExecutionTaskPhase_ok hok <;> rfl
  | resolveLeg legId base ratio =>
      obtain ⟨row, -, ⟨-, rfl, -⟩ | ⟨-, -, rfl⟩⟩ := resolveExecutionTaskLegQuantity_ok hok <;> rfl
  | createOrder a =>
      obtain ⟨-, -, -, -, -, -, -, -, -, -, -, -, -, -, rfl⟩ := createExecutionOrderAttempt_ok hok
      rfl
  | markUnknown id =>
      obtain ⟨row, -, ⟨-, rfl⟩ | ⟨-, -, rfl⟩⟩ := markExecutionOrderUnknown_ok hok <;> rfl
  | markSubmitted id ex =>
      obtain ⟨row, -, ⟨-, rfl, -⟩ | ⟨-, -, rfl⟩⟩ := markExecutionOrderSubmitted_ok hok <;> rfl
  | markCancelPending id =>
      obtain ⟨row, -, ⟨-, rfl⟩ | ⟨-, -, rfl⟩⟩ := markExecutionOrderCancelPending_ok hok <;> rfl
  -- The one operation that stores fills is excluded.
  | observe ob => exact absurd rfl (hne ob)
  | beginCompensation taskId runId code worker =>
      obtain ⟨⟨task, -, hm⟩, -⟩ := beginExecutionTaskCompensation_ok hok
      exact hm.fills
  | failRun taskId runId code worker manualReview =>
      obtain ⟨⟨task, hm⟩, -⟩ := failExecutionTaskRun_ok hok
      exact hm.fills
  | complete taskId runId worker =>
      obtain ⟨⟨task, ⟨-, hm⟩ | rfl⟩, -⟩ := completeLiveExecutionTask_ok hok
      · exact hm.fills
      · rfl

/-- A leg after a transaction is one from before it, or one whose quantity has
just been resolved, and then the orders stay. -/
theorem DbOp.legsEffect {num : Numeric} {amb : Ambient} {o : DbOp} {r : o.Result}
    {db db' : Database} (hok : o.tx num amb db = .ok (r, db')) {new : ExecutionTaskLegRow}
    (hnew : new ∈ db'.legs) :
    new ∈ db.legs ∨ (db'.orders = db.orders ∧ ∃ old ∈ db.legs, new.planned = old.planned
      ∧ old.resolvedBaseQuantity = none
      ∧ ∃ base, 0 < base ∧ new.resolvedBaseQuantity = some (num.store base)) := by
  rcases DbOp.legs_tx hok with hsame | ⟨legId, base, ratio, old, -, hpos, hold, hnone, rfl⟩
  · exact .inl (hsame ▸ hnew)
  · rcases Table.mem_put.mp hnew with ⟨rfl, -⟩ | ⟨hmem, -⟩
    · exact .inr ⟨rfl, old, (Table.find?_some hold).1, rfl, hnone, base, hpos, rfl⟩
    · exact .inl hmem

end BasisHawk.MultiLeg
