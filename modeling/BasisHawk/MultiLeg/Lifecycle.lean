/-
  BasisHawk.MultiLeg.Lifecycle
  ────────────────────────────
  The life of an execution task among the API and the worker.

  The API writes to a task at the version it has read; the worker writes
  without one, but only to the task it has claimed.  `ApiMoves` and
  `WorkerMoves` are the two halves of the lifecycle, and every step of the
  system is shown to follow one of them.

  The worker is the loop of `reconciliation.py`: one paper pass, then one live
  pass.

  Main results:
    • `act_evolve`, `exec_evolve` — what one step does to a task,
    • `anyPass_guarded` — the worker fails only a task that is started,
    • `executionTask_lifecycle` — the lifecycle of every task in every run.
-/
import BasisHawk.Lib.Versioned
import BasisHawk.MultiLeg.GuardedPass
import BasisHawk.MultiLeg.PaperTask

namespace BasisHawk.MultiLeg

open Domain Lib Accounts Database

/-! ## §1. The lifecycle. -/

/-- A task that is over. -/
def TaskStatus.isFinal : TaskStatus → Bool
  | .completed | .failed | .manualReview | .emergencyStopped => true
  | _ => false

/-- What the API does to a task. -/
inductive ApiMoves : TaskStatus → TaskStatus → Prop
  | preflight {s} (h : s = .draft ∨ s = .preflightReady) : ApiMoves s .preflightReady
  | queue : ApiMoves .preflightReady .queued
  | cancel {s} (h : s = .draft ∨ s = .preflightReady ∨ s = .queued) : ApiMoves s .emergencyStopped

/-- What the worker does to a task. -/
inductive WorkerMoves : TaskStatus → TaskStatus → Prop
  | claim : WorkerMoves .queued .running
  | phase {s s'} (h : s.isStarted) (h' : s'.isStarted) : WorkerMoves s s'
  | complete {s} (h : s.isStarted) : WorkerMoves s .completed
  | fail {s} (h : s.isStarted) : WorkerMoves s .failed
  | review {s} (h : s.isStarted) : WorkerMoves s .manualReview

def Moves (s s' : TaskStatus) : Prop := ApiMoves s s' ∨ WorkerMoves s s'

/-- A task that has started has not ended. -/
theorem TaskStatus.not_final_of_started {s : TaskStatus} (h : s.isStarted) : s.isFinal = false := by
  cases s <;> first | rfl | cases h

/-- Nothing leaves a final status. -/
theorem not_moves_of_final {s s' : TaskStatus} (h : s.isFinal) : ¬Moves s s' := by
  rintro (hm | hm)
  · cases hm with
    | preflight hs => rcases hs with rfl | rfl <;> cases h
    | queue => cases h
    | cancel hs => rcases hs with rfl | rfl | rfl <;> cases h
  · cases hm with
    | claim => cases h
    | phase hs _ | complete hs | fail hs | review hs =>
        rw [TaskStatus.not_final_of_started hs] at h
        cases h

/-- The worker never queues a task. -/
theorem not_workerMoves_queued {s : TaskStatus} : ¬WorkerMoves s .queued := by
  intro h
  cases h with
  | phase _ h' => cases h'

/-! ## §2. What one transaction does to a task. -/

def ExecutionTaskRow.stamp (t : ExecutionTaskRow) : Versioned TaskStatus := ⟨t.status, t.version⟩

/-- A task that is there stays, and evolves by the moves; a task that is new is
a draft. -/
structure TasksEvolve (R : TaskStatus → TaskStatus → Prop) (db db' : Database) : Prop where
  old : ∀ id t, Table.find? db.tasks id = some t →
    ∃ t', Table.find? db'.tasks id = some t' ∧ Evolves R t.stamp t'.stamp
  new : ∀ id t', Table.find? db'.tasks id = some t' →
    t'.status = .draft ∨ ∃ t, Table.find? db.tasks id = some t

namespace TasksEvolve

variable {R R' : TaskStatus → TaskStatus → Prop} {db db' : Database}

/-- Tasks that are not touched evolve by no move. -/
theorem same (h : db'.tasks = db.tasks) : TasksEvolve R db db' where
  old := fun id t ht => ⟨t, by rw [h]; exact ht, .kept _⟩
  new := fun id t' ht => .inr ⟨t', by rw [← h]; exact ht⟩

/-- One task is written. -/
theorem put {old new : ExecutionTaskRow} (h : db'.tasks = Table.put db.tasks new)
    (hold : Table.find? db.tasks new.id = some old) (hmove : Evolves R old.stamp new.stamp) :
    TasksEvolve R db db' := by
  obtain ⟨hmem, hkey⟩ := Table.find?_some hold
  have hself : Table.find? (Table.put db.tasks new) new.id = some new :=
    Table.find?_put_self ⟨old, hmem, hkey⟩
  constructor
  · intro id t ht
    rw [h]
    by_cases hid : id = new.id
    · subst hid
      rw [hold] at ht
      injection ht with ht
      subst ht
      exact ⟨new, hself, hmove⟩
    · exact ⟨t, (Table.find?_put_of_ne hid).trans ht, .kept _⟩
  · intro id t' ht
    rw [h] at ht
    by_cases hid : id = new.id
    · exact .inr ⟨old, hid ▸ hold⟩
    · exact .inr ⟨t', (Table.find?_put_of_ne hid).symm.trans ht⟩

/-- More moves allow more evolutions. -/
theorem mono (h : TasksEvolve R db db') (hR : ∀ s s', R s s' → R' s s') :
    TasksEvolve R' db db' where
  old := fun id t ht => by
    obtain ⟨t', ht', he⟩ := h.old id t ht
    exact ⟨t', ht', he.mono hR⟩
  new := h.new

end TasksEvolve

/-! ### The API. -/

/-- The task and the version that an API operation names. -/
def Act.expects : Act → Option (Nat × Nat)
  | .preflightReady id version _ | .queue id version | .cancel id version => some (id, version)
  | _ => none

/-- The API operation is accepted. -/
def Act.Succeeds : Act → World → Prop
  | .preflightReady id version t, w =>
      ∃ r, markExecutionTaskPreflightReady id version t w.db = .ok r
  | .queue id version, w => ∃ r, queueExecutionTask id version w.ambient w.db = .ok r
  | .cancel id version, w => ∃ r, cancelExecutionTask id version w.db = .ok r
  | _, _ => False

/-- The row of a task, as an API operation at its version finds it and leaves it. -/
def Writes (id version : Nat) (w w' : World) (row row' : ExecutionTaskRow) : Prop :=
  Table.find? w.db.tasks id = some row ∧ row.version = version ∧ row'.id = row.id
    ∧ row'.version = row.version + 1 ∧ ApiMoves row.status row'.status
    ∧ w' = { w with db := { w.db with tasks := Table.put w.db.tasks row' } }

/-- A committed transaction that replaces the row. -/
theorem Writes.of_ok {tx : Database → Except Exc (ExecutionTaskRow × Database)} {id version : Nat}
    {w w' : World} {row row' : ExecutionTaskRow}
    (hok : tx w.db = .ok (row', { w.db with tasks := Table.put w.db.tasks row' }))
    (happly : w' = { w with db := (commit tx w.db).2 })
    (hrow : Table.find? w.db.tasks id = some row) (hversion : row.version = version)
    (hid : row'.id = row.id) (hcount : row'.version = row.version + 1)
    (hmove : ApiMoves row.status row'.status) : Writes id version w w' row row' := by
  refine ⟨hrow, hversion, hid, hcount, hmove, ?_⟩
  rw [happly]
  unfold commit
  rw [hok]

/-- An accepted preflight writes to a task that is not queued yet. -/
theorem preflightReady_writes {id version : Nat} {t : Int} {w : World}
    (h : (Act.preflightReady id version t).Succeeds w) :
    ∃ row row', Writes id version w (Act.apply (.preflightReady id version t) w) row row'
      ∧ row'.status = .preflightReady := by
  obtain ⟨⟨_, _⟩, hok⟩ := h
  have hchecks := hok
  simp only [markExecutionTaskPreflightReady, found_bind_eq_ok, raiseIf_bind_eq_ok] at hchecks
  obtain ⟨row, hrow, hversion, hstatus, heq⟩ := hchecks
  injection heq with heq
  obtain ⟨rfl, rfl⟩ := Prod.mk.inj heq
  have hst : row.status = .draft ∨ row.status = .preflightReady := by
    by_cases hd : row.status = .draft
    · exact .inl hd
    · exact .inr (not_not.mp fun hp => hstatus ⟨hd, hp⟩)
  exact ⟨row, _, .of_ok hok rfl hrow (not_not.mp hversion) rfl rfl (.preflight hst), rfl⟩

/-- An accepted start writes to a task whose preflight is accepted and has not
expired. -/
theorem queue_writes {id version : Nat} {w : World} (h : (Act.queue id version).Succeeds w) :
    ∃ row row', Writes id version w (Act.apply (.queue id version) w) row row'
      ∧ row.status = .preflightReady
      ∧ ∃ t, row.preflightExpiresAt = some t ∧ w.ambient.now < t := by
  obtain ⟨⟨_, _⟩, hok⟩ := h
  have hchecks := hok
  simp only [queueExecutionTask, found_bind_eq_ok, raiseIf_bind_eq_ok] at hchecks
  obtain ⟨row, hrow, hversion, hstatus, hexpiry, -, heq⟩ := hchecks
  injection heq with heq
  obtain ⟨rfl, rfl⟩ := Prod.mk.inj heq
  have hst : row.status = .preflightReady := not_not.mp hstatus
  have hmove : ApiMoves row.status .queued := by
    rw [hst]
    exact .queue
  exact ⟨row, _, .of_ok hok rfl hrow (not_not.mp hversion) rfl rfl hmove, hst, not_not.mp hexpiry⟩

/-- An accepted cancellation stops a task that has not started. -/
theorem cancel_writes {id version : Nat} {w : World} (h : (Act.cancel id version).Succeeds w) :
    ∃ row row', Writes id version w (Act.apply (.cancel id version) w) row row'
      ∧ row'.status = .emergencyStopped := by
  obtain ⟨⟨_, _⟩, hok⟩ := h
  have hchecks := hok
  simp only [cancelExecutionTask, found_bind_eq_ok, raiseIf_bind_eq_ok] at hchecks
  obtain ⟨row, hrow, hversion, hstatus, heq⟩ := hchecks
  injection heq with heq
  obtain ⟨rfl, rfl⟩ := Prod.mk.inj heq
  have hst : row.status = .draft ∨ row.status = .preflightReady ∨ row.status = .queued := by
    by_cases hd : row.status = .draft
    · exact .inl hd
    by_cases hp : row.status = .preflightReady
    · exact .inr (.inl hp)
    · exact .inr (.inr (not_not.mp fun hq => hstatus ⟨hd, hp, hq⟩))
  exact ⟨row, _, .of_ok hok rfl hrow (not_not.mp hversion) rfl rfl (.cancel hst), rfl⟩

/-- Whatever the API operation is, it writes to the task at the version it
names. -/
theorem Act.Succeeds.writes {a : Act} {w : World} (h : a.Succeeds w) {id version : Nat}
    (he : a.expects = some (id, version)) :
    ∃ row row', Writes id version w (a.apply w) row row' := by
  cases a with
  | preflightReady =>
      cases he
      obtain ⟨row, row', hw, -⟩ := preflightReady_writes h
      exact ⟨row, row', hw⟩
  | queue =>
      cases he
      obtain ⟨row, row', hw, -⟩ := queue_writes h
      exact ⟨row, row', hw⟩
  | cancel =>
      cases he
      obtain ⟨row, row', hw, -⟩ := cancel_writes h
      exact ⟨row, row', hw⟩
  | ambient | control | createTask => cases he

/-- An API operation that is not accepted changes nothing. -/
theorem Act.apply_of_not_succeeds {a : Act} {w : World} {p : Nat × Nat} (he : a.expects = some p)
    (h : ¬a.Succeeds w) : a.apply w = w := by
  -- All three commit a transaction, and the transaction raises.
  have hsame : ∀ {tx : Database → Except Exc (ExecutionTaskRow × Database)},
      (¬∃ r, tx w.db = .ok r) → { w with db := (commit tx w.db).2 } = w := by
    intro tx hno
    unfold commit
    cases htx : tx w.db with
    | ok r => exact absurd ⟨r, htx⟩ hno
    | error e => rfl
  cases a with
  | preflightReady | queue | cancel => exact hsame h
  | ambient | control | createTask => cases he

/-- The row that was written is found. -/
theorem Writes.find {id version : Nat} {w w' : World} {row row' : ExecutionTaskRow}
    (h : Writes id version w w' row row') : Table.find? w'.db.tasks id = some row' := by
  obtain ⟨hrow, -, hid, -, -, rfl⟩ := h
  obtain ⟨hmem, hkey⟩ := Table.find?_some hrow
  have hkey' : key row' = id := hid.trans hkey
  rw [← hkey']
  exact Table.find?_put_self ⟨row, hmem, hid.symm⟩

/-- Other tasks are found as before. -/
theorem Writes.find_of_ne {id other version : Nat} {w w' : World} {row row' : ExecutionTaskRow}
    (h : Writes id version w w' row row') (hne : other ≠ id) :
    Table.find? w'.db.tasks other = Table.find? w.db.tasks other := by
  obtain ⟨hrow, -, hid, -, -, rfl⟩ := h
  have hkey' : key row' = id := hid.trans (Table.find?_some hrow).2
  exact Table.find?_put_of_ne (by rw [hkey']; exact hne)

/-- A task that the API writes moves as the API may, and its version goes up by
one. -/
theorem Writes.evolve {id version : Nat} {w w' : World} {row row' : ExecutionTaskRow}
    (h : Writes id version w w' row row') : TasksEvolve ApiMoves w.db w'.db := by
  obtain ⟨hrow, -, hid, hversion, hmove, rfl⟩ := h
  have hkey : row.id = id := (Table.find?_some hrow).2
  refine .put rfl (by rw [hid, hkey]; exact hrow) ?_
  have hstamp : row'.stamp = ⟨row'.status, row.version + 1⟩ := by
    unfold ExecutionTaskRow.stamp
    rw [hversion]
  rw [hstamp]
  exact .moved hmove row.version

/-- What a step of another actor does to the tasks. -/
theorem act_evolve (a : Act) (w : World) : TasksEvolve ApiMoves w.db (a.apply w).db := by
  have hother : ∀ {p}, a.expects = some p → TasksEvolve ApiMoves w.db (a.apply w).db := by
    rintro ⟨id, version⟩ he
    by_cases h : a.Succeeds w
    · obtain ⟨row, row', hw⟩ := h.writes he
      exact hw.evolve
    · rw [Act.apply_of_not_succeeds he h]
      exact .same rfl
  cases a with
  | ambient | control => exact .same rfl
  | createTask plan =>
      constructor
      · exact fun id t ht => ⟨t, Table.find?_append_of_some ht, .kept _⟩
      · intro id t ht
        obtain ⟨hmem, hkey⟩ := Table.find?_some ht
        rcases List.mem_append.mp hmem with hmem | hmem
        · cases hf : Table.find? w.db.tasks id with
          | some old => exact .inr ⟨old, rfl⟩
          | none =>
              have := List.find?_eq_none.mp hf t hmem
              exact absurd (beq_iff_eq.mpr hkey) this
        · rw [List.mem_singleton.mp hmem]
          exact .inl rfl
  | preflightReady | queue | cancel => exact hother rfl

/-- A task that another actor has queued was started by an accepted request. -/
theorem act_queued {a : Act} {w : World} {id : Nat} {t t' : ExecutionTaskRow}
    (ht : Table.find? w.db.tasks id = some t) (ht' : Table.find? (a.apply w).db.tasks id = some t')
    (hne : t.status ≠ .queued) (hq : t'.status = .queued) :
    ∃ version, a = .queue id version ∧ a.Succeeds w := by
  have hsame : Table.find? (a.apply w).db.tasks id ≠ some t := by
    intro h
    rw [h] at ht'
    cases ht'
    exact hne hq
  -- A write to this task leaves it in another status, unless it is the queueing.
  have hother : ∀ {i version row row'}, Writes i version w (a.apply w) row row' →
      row'.status ≠ .queued → False := by
    intro i version row row' hw hst
    by_cases hid : id = i
    · subst hid
      rw [hw.find] at ht'
      cases ht'
      exact hst hq
    · exact hsame ((hw.find_of_ne hid).trans ht)
  by_cases h : a.Succeeds w
  · cases a with
    | ambient | control | createTask => cases h
    | preflightReady =>
        obtain ⟨row, row', hw, hst⟩ := preflightReady_writes h
        exact (hother hw (by rw [hst]; decide)).elim
    | cancel =>
        obtain ⟨row, row', hw, hst⟩ := cancel_writes h
        exact (hother hw (by rw [hst]; decide)).elim
    | queue i version =>
        obtain ⟨row, row', hw, -⟩ := queue_writes h
        by_cases hid : id = i
        · subst hid
          exact ⟨version, rfl, h⟩
        · exact absurd ((hw.find_of_ne hid).trans ht) hsame
  · refine absurd ?_ hsame
    cases a with
    | ambient | control => exact ht
    | createTask => exact Table.find?_append_of_some ht
    | preflightReady | queue | cancel =>
        rw [Act.apply_of_not_succeeds rfl h]
        exact ht

/-! ### The worker. -/

/-- The guard under which a transaction of the worker follows the lifecycle:
`fail_execution_task_run` checks no status itself. -/
def LifecycleGuard : AnyOp → World → Prop
  | .inl (.db (.failRun taskId ..)), w => ReviewGuard taskId w.db
  | _, _ => True

theorem pre_lifecycle {o : Op} {w : World} (h : Pre o w) : LifecycleGuard (.inl o) w := by
  cases o with
  | out o => trivial
  | db o =>
      cases o with
      | failRun taskId runId code workerId manualReview =>
          cases manualReview with
          | true => exact h
          | false =>
              obtain ⟨-, t, ht, hst⟩ := h
              refine ⟨t, ht, ?_⟩
              rcases hst with ⟨hr | hh, -⟩ | ⟨hc, -⟩
              · rw [hr]; rfl
              · rw [hh]; rfl
              · rw [hc]; rfl
      | _ => trivial

/-- A claimed task starts running, or stays as it is. -/
theorem startTask_evolves {row : ExecutionTaskRow} :
    Evolves WorkerMoves row.stamp (startTask row).stamp := by
  unfold startTask
  by_cases hq : row.status = .queued
  · rw [if_pos hq]
    unfold ExecutionTaskRow.stamp
    rw [hq]
    exact .moved .claim row.version
  · rw [if_neg hq]
    exact .kept _

/-- A claim of either service. -/
theorem claim_evolve {amb : Ambient} {workerId : String} {db db' : Database}
    {row : ExecutionTaskRow} (hwf : WellFormed db) (hrow : row ∈ db.tasks)
    (hdb : db' = { (db.claimRun row.id workerId amb).2 with
      tasks := Table.put (db.claimRun row.id workerId amb).2.tasks (startTask row) }) :
    TasksEvolve WorkerMoves db db' := by
  have htasks : db'.tasks = Table.put db.tasks (startTask row) := by
    rw [hdb, ← (claim_tasks workerId amb db row.id).1]
  have hfind : Table.find? db.tasks (startTask row).id = some row := by
    rw [startTask_id]
    exact (Table.find?_eq_some_iff hwf.tasks_unique).mpr ⟨hrow, rfl⟩
  exact .put htasks hfind (startTask_evolves)

/-- A transaction of the live worker, its guard given. -/
theorem tx_evolve {num : Numeric} {o : DbOp} {w : World} {db' : Database} {r : o.Result}
    (hwf : WellFormed w.db) (hguard : LifecycleGuard (.inl (.db o)) w)
    (hok : o.tx num w.ambient w.db = .ok (r, db')) : TasksEvolve WorkerMoves w.db db' := by
  cases o with
  | claim workerId =>
      rcases claimLiveExecutionTask_ok hok with ⟨-, rfl⟩ | ⟨row, hrow, -, -, hdb, -⟩
      · exact .same rfl
      · exact claim_evolve hwf hrow hdb
  | setPhase taskId status =>
      simp only [DbOp.tx, setExecutionTaskPhase, raiseIf_bind_eq_ok, found_bind_eq_ok] at hok
      obtain ⟨hstatus, row, hrow, hstarted, hok⟩ := hok
      split at hok
      · injection hok with hok
        exact .same (congrArg (·.tasks) (Prod.mk.inj hok).2.symm)
      · injection hok with hok
        obtain ⟨-, rfl⟩ := Prod.mk.inj hok
        have hkey : row.id = taskId := (Table.find?_some hrow).2
        exact .put rfl (by rw [hkey]; exact hrow)
          (.moved (.phase (not_not.mp hstarted) (not_not.mp hstatus)) row.version)
  | beginCompensation taskId runId code worker =>
      simp only [DbOp.tx, beginExecutionTaskCompensation] at hok
      obtain ⟨⟨task, run⟩, hp, hok⟩ := bind_eq_ok.mp hok
      obtain ⟨htask, -, -⟩ := taskAndRun_ok hp
      simp only [raiseIf_bind_eq_ok] at hok
      obtain ⟨hstarted, hok⟩ := hok
      injection hok with hok
      obtain ⟨-, rfl⟩ := Prod.mk.inj hok
      have hkey : task.id = taskId := (Table.find?_some htask).2
      refine .put rfl (by rw [hkey]; exact htask) ?_
      -- The version counts the entry into the compensation, not a second call.
      by_cases hc : task.status = .compensating
      · have hstamp : task.stamp = ⟨.compensating, task.version⟩ := by
          rw [← hc]
          rfl
        simp only [ExecutionTaskRow.stamp, if_pos hc] at hstamp ⊢
        rw [hstamp]
        exact .kept _
      · simp only [ExecutionTaskRow.stamp, if_neg hc]
        exact .moved (.phase (not_not.mp hstarted) rfl) task.version
  | failRun taskId runId code worker manualReview =>
      obtain ⟨t, ht, hst⟩ := hguard
      simp only [DbOp.tx, failExecutionTaskRun] at hok
      obtain ⟨⟨task, run⟩, hp, hok⟩ := bind_eq_ok.mp hok
      obtain ⟨htask, -, -⟩ := taskAndRun_ok hp
      rw [htask] at ht
      cases ht
      injection hok with hok
      obtain ⟨-, rfl⟩ := Prod.mk.inj hok
      have hkey : task.id = taskId := (Table.find?_some htask).2
      cases manualReview with
      | true => exact .put rfl (by rw [hkey]; exact htask) (.moved (.review hst) task.version)
      | false => exact .put rfl (by rw [hkey]; exact htask) (.moved (.fail hst) task.version)
  | complete taskId runId worker =>
      simp only [DbOp.tx, completeLiveExecutionTask] at hok
      obtain ⟨⟨task, run⟩, hp, hok⟩ := bind_eq_ok.mp hok
      obtain ⟨htask, -, -⟩ := taskAndRun_ok hp
      split at hok
      · injection hok with hok
        exact .same (congrArg (·.tasks) (Prod.mk.inj hok).2.symm)
      · simp only [raiseIf_bind_eq_ok] at hok
        obtain ⟨hactive, hok⟩ := hok
        obtain ⟨aggregates, -, hok⟩ := bind_eq_ok.mp hok
        injection hok with hok
        obtain ⟨-, rfl⟩ := Prod.mk.inj hok
        have hkey : task.id = taskId := (Table.find?_some htask).2
        have hstarted : task.status.isStarted := by
          by_cases hr : task.status = .running
          · rw [hr]
            rfl
          · rw [not_not.mp fun hh => hactive ⟨hr, hh⟩]
            rfl
        have htasks : ∀ c : Bool, (if c then w.db.openStrategy num task aggregates w.ambient
            else w.db).tasks = w.db.tasks := by
          intro c
          cases c <;> rfl
        refine .put (congrArg (Table.put · _) (htasks _)) (by rw [hkey]; exact htask) ?_
        exact .moved (.complete hstarted) task.version
  | _ => exact .same (DbOp.sparesTask_tx hok trivial).1

/-- An operation of the paper service. -/
theorem paper_evolve {num : Numeric} {o : PaperOp} {w w' : World} {r : PaperRep o}
    (hwf : WellFormed w.db) (he : o.exec num w r w') : TasksEvolve WorkerMoves w.db w'.db := by
  cases o with
  | claim workerId =>
      obtain ⟨db', hc, rfl⟩ := he
      refine commit_preserves (P := TasksEvolve WorkerMoves w.db) (fun a db' hok => ?_)
        (.same rfl) hc
      rcases claimPaperExecutionTask_ok hok with ⟨-, rfl⟩ | ⟨row, hrow, -, hdb, -⟩
      · exact .same rfl
      · exact claim_evolve hwf hrow hdb
  | complete taskId runId fills workerId =>
      obtain ⟨db', hc, rfl⟩ := he
      refine commit_preserves (P := TasksEvolve WorkerMoves w.db) (fun a db' hok => ?_)
        (.same rfl) hc
      rcases completePaperExecutionTask_ok hwf hok with
        rfl | ⟨db₁, task, run, hfill, htask, hst, -, -, rfl⟩
      · exact .same rfl
      · have hkey : task.id = taskId := (Table.find?_some htask).2
        refine .put (congrArg (Table.put · _) hfill.tasks) (by rw [hkey]; exact htask) ?_
        exact .moved (.complete (by rw [hst]; rfl)) task.version
  | latestOpportunities | loadSettings =>
      rw [show w' = w from he]
      exact .same rfl

/-! ## §3. The worker of both services. -/

/-- The worker and everything around it. -/
def anySystem (num : Numeric) : System AnyOp AnyRep Act World where
  exec := fun o => match o with
    | .inl o => exec num o
    | .inr o => o.exec num
  env := fun a w w' => w' = a.apply w
  idle := fun w => { w with pass := .idle }

/-- One turn of the loop: a paper pass, then a live one. -/
def anyPass (num : Numeric) (paperWorker liveWorker : String) : PaperWorker PassResult := do
  let _ ← paperRunOnce num paperWorker
  (runOnce num liveWorker).inl

/-- An operation of either worker, its guard given, moves tasks as the workers
may. -/
theorem exec_evolve {num : Numeric} {o : AnyOp} {w w' : World} {r : AnyRep o}
    (hwf : WellFormed w.db) (hguard : LifecycleGuard o w) (he : (anySystem num).exec o w r w') :
    TasksEvolve WorkerMoves w.db w'.db := by
  cases o with
  | inr o => exact paper_evolve hwf he
  | inl o =>
      cases o with
      | out o =>
          rw [show w' = { w with pass := w.pass.heard o r } from he]
          exact .same rfl
      | db o =>
          obtain ⟨db', hc, rfl⟩ := he
          exact commit_preserves (P := TasksEvolve WorkerMoves w.db)
            (fun _ _ hok => tx_evolve hwf hguard hok) (.same rfl) hc

/-- The step lemma for both workers and the API together. -/
theorem anySystem_preserves (num : Numeric) :
    (anySystem num).Preserves (fun w => WellFormed w.db) LifecycleGuard where
  act := fun a w w' hw h => by
    rw [show w' = a.apply w from hw]
    exact h.act a
  call := fun o w r w' he _ h => by
    cases o with
    | inr o => exact h.paperTx he
    | inl o => exact (wellFormed_preserved num (fun _ _ => True)).call o w r w' he trivial h
  idle := fun _ h => h

variable {num : Numeric}

/-- The weakest precondition of a program of the worker, given well-formed tables. -/
abbrev AnyWp {α : Type} (num : Numeric) (p : PaperWorker α) (Q : Except Exc α → World → Prop)
    (w : World) : Prop :=
  (anySystem num).wp (fun w => WellFormed w.db) LifecycleGuard p Q w

/-- Nobody else touches a task that is started. -/
theorem reviewGuard_stable (num : Numeric) (taskId : Nat) :
    (anySystem num).Stable fun w => ReviewGuard taskId w.db := by
  rintro a w w' rfl ⟨t, ht, hst⟩
  exact ⟨t, act_tasks_find a ht (TaskStatus.not_unstarted_of_started hst), hst⟩

/-! ### The paper pass. -/

/-- The reads of the paper service. -/
def AnyOp.isRead : AnyOp → Prop
  | .inl (.out _) | .inr (.latestOpportunities _) | .inr .loadSettings => True
  | _ => False

theorem read_guard {o : AnyOp} (h : o.isRead) (w : World) : LifecycleGuard o w := by
  cases o with
  | inl o =>
      cases o with
      | db o => cases h
      | out o => trivial
  | inr o => trivial

/-- A reading operation leaves the tables alone. -/
theorem read_exec {o : AnyOp} (h : o.isRead) {w w' : World} {r : AnyRep o}
    (he : (anySystem num).exec o w r w') : w'.db = w.db := by
  cases o with
  | inl o =>
      cases o with
      | db o => cases h
      | out o => rw [show w' = { w with pass := w.pass.heard o r } from he]
  | inr o =>
      cases o with
      | claim | complete => cases h
      | latestOpportunities | loadSettings => rw [show w' = w from he]

theorem shared_read (o : OutOp) :
    (shared (.out o) id).Yields AnyOp.isRead fun _ => True :=
  .call trivial fun _ => .done fun _ _ => trivial

theorem paper_read {o : PaperOp} (h : AnyOp.isRead (.inr o)) :
    (paper o).Yields AnyOp.isRead fun _ => True :=
  .call h fun _ => .done fun _ _ => trivial

theorem paperMultiplier_reads (leg : ExecutionTaskLegRow) (o : QuotedOpportunity) :
    (paperMultiplier leg o).Yields AnyOp.isRead fun _ => True := by
  unfold paperMultiplier
  split
  · split
    · exact .raise
    · exact .value trivial
  · split
    · exact .raise
    · refine (shared_read (.instrumentPairs leg.exchange)).bind fun pairs _ => ?_
      split
      · exact .raise
      · split
        · exact .raise
        · exact .value trivial

/-- The paper quote of a leg is computed from answers alone. -/
theorem paperQuote_reads (num : Numeric) (leg : ExecutionTaskLegRow) (mode : QuantityMode) :
    (paperQuote num leg mode).Yields AnyOp.isRead fun _ => True := by
  have hread : AnyOp.isRead (.inr (.latestOpportunities leg.exchange)) := trivial
  refine (paper_read hread).bind fun opportunities _ => ?_
  split
  · exact .raise
  · split
    · exact .raise
    · refine (shared_read .now).bind fun now _ => ?_
      split
      · exact .raise
      · refine (paperMultiplier_reads leg _).bind fun multiplier _ => ?_
        dsimp only
        split
        · exact .raise
        · exact (paper_read (o := .loadSettings) trivial).bind fun fees _ => .value trivial

/-- So are the quotes of all legs. -/
theorem paperQuotes_reads (num : Numeric) (mode : QuantityMode) :
    ∀ legs : List ExecutionTaskLegRow,
      (paperQuotes num mode legs).Yields AnyOp.isRead fun _ => True
  | [] => .value trivial
  | leg :: rest =>
      (paperQuote_reads num leg mode).bind fun _ _ =>
        (paperQuotes_reads num mode rest).bind fun _ _ => .value trivial

/-- Where filling a paper task raises, the task is still started. -/
theorem wp_fillPaperTask {workerId : String} {c : PaperClaimed} {w : World}
    (hw : ReviewGuard c.task.id w.db) :
    AnyWp num (fillPaperTask num workerId c)
      (fun r w => ∀ e, r = .error e → ReviewGuard c.task.id w.db) w := by
  have hstable := reviewGuard_stable num c.task.id
  refine System.wp_bind _ _ _ (System.wp_mono _ (fun r w hr => ?_) w
    (System.wp_of_ensures hstable (fun o w ho _ _ => read_guard ho w)
      (fun o w r w' ho _ hw he => by rw [read_exec ho he]; exact hw) _ w hw
      (paperQuotes_reads num c.task.quantityMode c.legs)))
  cases r with
  | error e => exact fun _ _ => hr.1
  | ok quotes =>
      refine System.wp_call_of_stable hstable hr.1 (fun _ _ _ => trivial) ?_
      rintro w r w' _ hw ⟨db', hc, rfl⟩ _ e he
      rcases commit_cases hc with ⟨a, rfl, -⟩ | ⟨_, -, -, rfl⟩
      · cases he
      · exact hw

/-- A paper pass fails only the task it has claimed. -/
theorem wp_paperRunOnce {workerId : String} (w : World) :
    AnyWp num (paperRunOnce num workerId) (fun _ _ => True) w := by
  refine System.wp_bind _ _ _ (System.wp_call_of_stable (P := fun _ => True)
    (fun _ _ _ _ _ => trivial) trivial (fun _ _ _ => trivial) ?_)
  -- The claim: the task is started, which is what a later failure has to find.
  rintro w r w' hwf - ⟨db', hc, rfl⟩ -
  rcases commit_cases hc with ⟨claimed, rfl, hok⟩ | ⟨e, rfl, -⟩
  · cases claimed with
    | none => exact trivial
    | some c =>
        have hstarted : ReviewGuard c.task.id db' := by
          rcases claimPaperExecutionTask_ok hok with ⟨hnone, -⟩ | ⟨row, hrow, hst, hdb, hclaimed⟩
          · cases hnone
          · injection hclaimed with hclaimed
            subst hclaimed
            refine ⟨startTask row, ?_, ?_⟩
            · rw [hdb]
              show Table.find? (Table.put (w.db.claimRun row.id workerId w.ambient).2.tasks
                (startTask row)) (key (startTask row)) = _
              rw [(claim_tasks workerId w.ambient w.db row.id).1]
              exact Table.find?_put_self ⟨row, hrow, (startTask_id row).symm⟩
            · show (startTask row).status.isStarted
              unfold startTask
              split
              · rfl
              · next hq =>
                  rw [hst.resolve_left hq]
                  rfl
        refine System.wp_resume _ _ _ _ (System.wp_mono _ (fun r w hr => ?_) _
          (wp_fillPaperTask hstarted))
        -- An exception of the fills fails the task that was claimed.
        cases r with
        | ok done => exact trivial
        | error e =>
            dsimp only
            split
            · refine System.wp_bind _ _ _ (System.wp_call_of_stable
                (reviewGuard_stable num c.task.id) (hr e rfl) (fun _ _ hw => hw) ?_)
              intro w r w' _ _ _ _
              cases r <;> exact trivial
            · exact trivial
  · exact trivial

/-- The worker fails only a task that is started. -/
theorem anyPass_guarded (paperWorker liveWorker : String) (w : World) :
    AnyWp num (anyPass num paperWorker liveWorker) (fun _ _ => True) w := by
  refine System.wp_bind _ _ _ (System.wp_mono _ (fun r w _ => ?_) w (wp_paperRunOnce w))
  cases r with
  | error e => exact trivial
  | ok result =>
      refine System.wp_inl (S := anySystem num) _ _ w ?_
      exact System.wp_guards (fun o w h => pre_lifecycle h) _ _ w (runOnce_guarded liveWorker w)

/-! ## §4. Every run. -/

abbrev AnyState : Type := Config AnyOp AnyRep Exc PassResult World

section Runs

variable {paperWorker liveWorker : String} {s s' : AnyState}

/-- The configurations the API and the worker can bring about. -/
abbrev AnyReachable (num : Numeric) (paperWorker liveWorker : String) : AnyState → Prop :=
  (anySystem num).Reach (anyPass num paperWorker liveWorker) Initial System.anyStep

/-- One step of the API or the worker. -/
abbrev AnyStep (num : Numeric) (paperWorker liveWorker : String) :
    AnyState → Label AnyOp AnyRep Act → AnyState → Prop :=
  (anySystem num).Step (anyPass num paperWorker liveWorker)

/-- From one configuration to another in any number of steps. -/
abbrev AnyRuns (num : Numeric) (paperWorker liveWorker : String) : AnyState → AnyState → Prop :=
  (anySystem num).Run (anyPass num paperWorker liveWorker) System.anyStep

theorem AnyReachable.wellFormed (hs : AnyReachable num paperWorker liveWorker s) :
    WellFormed s.world.db :=
  (hs.guarded (anySystem_preserves num) (fun _ h => wellFormed_initial h)
    fun w _ => anyPass_guarded paperWorker liveWorker w).1

/-- A step that the worker takes moves tasks as the worker does, and every other
step as the API does. -/
theorem step_evolve {l : Label AnyOp AnyRep Act} (hs : AnyReachable num paperWorker liveWorker s)
    (h : AnyStep num paperWorker liveWorker s l s') :
    (∃ a, l = .act a ∧ s'.world = a.apply s.world)
      ∨ TasksEvolve WorkerMoves s.world.db s'.world.db := by
  have hwf := hs.wellFormed
  cases h with
  | act h => exact .inl ⟨_, rfl, h⟩
  | start | finish | crash => exact .inr (.same rfl)
  | call h =>
      have hguard := System.Reach.pre (anySystem_preserves num) (fun _ h => wellFormed_initial h)
        (fun w _ => anyPass_guarded paperWorker liveWorker w) hs
      exact .inr (exec_evolve hwf hguard h)

/-- Every step of anybody moves every task along an edge of the life cycle, or
leaves it. -/
theorem step_moves {l : Label AnyOp AnyRep Act} (hs : AnyReachable num paperWorker liveWorker s)
    (h : AnyStep num paperWorker liveWorker s l s') :
    TasksEvolve Moves s.world.db s'.world.db := by
  rcases step_evolve hs h with ⟨a, -, hw⟩ | hworker
  · rw [hw]
    exact (act_evolve a s.world).mono fun _ _ => Or.inl
  · exact hworker.mono fun _ _ => Or.inr

/-- Along a run a task only descends. -/
theorem run_descends (hs : AnyReachable num paperWorker liveWorker s)
    (hr : AnyRuns num paperWorker liveWorker s s') {id : Nat} {t : ExecutionTaskRow}
    (ht : Table.find? s.world.db.tasks id = some t) :
    ∃ t', Table.find? s'.world.db.tasks id = some t' ∧ Descends Moves t.stamp t'.stamp := by
  induction hr with
  | refl => exact ⟨t, ht, .refl⟩
  | tail hr hstep ih =>
      obtain ⟨t₁, ht₁, hd⟩ := ih
      obtain ⟨l, hstep, -⟩ := hstep
      obtain ⟨t₂, ht₂, he⟩ := (step_moves (hs.run hr) hstep).old id t₁ ht₁
      exact ⟨t₂, ht₂, hd.tail he⟩

/-- The API has started the task while its preflight was accepted and had not
expired. -/
def StartsUnexpired (id version : Nat) (w : World) : Prop :=
  (Act.queue id version).Succeeds w
    ∧ ∃ row t, Table.find? w.db.tasks id = some row ∧ row.status = .preflightReady
      ∧ row.preflightExpiresAt = some t ∧ w.ambient.now < t

/-- Such a start lies behind the configuration. -/
def StartedBefore (num : Numeric) (paperWorker liveWorker : String) (id : Nat) (s : AnyState) :
    Prop :=
  ∃ s₀ s₁ version, AnyReachable num paperWorker liveWorker s₀ ∧ StartsUnexpired id version s₀.world
    ∧ AnyStep num paperWorker liveWorker s₀ (.act (.queue id version)) s₁
    ∧ AnyRuns num paperWorker liveWorker s₁ s

/-- Behind a queued task lies its start. -/
theorem queued_started (hs : AnyReachable num paperWorker liveWorker s) {id : Nat}
    {t : ExecutionTaskRow} (ht : Table.find? s.world.db.tasks id = some t)
    (hq : t.status = .queued) : StartedBefore num paperWorker liveWorker id s := by
  induction hs generalizing t with
  | init hw =>
      rw [hw.tasks] at ht
      cases ht
  | step hc hstep _ ih =>
      -- Before the step the task was there already: a new one is a draft.
      obtain ⟨t₀, ht₀⟩ := ((step_moves hc hstep).new id t ht).resolve_left (by rw [hq]; decide)
      by_cases hq₀ : t₀.status = .queued
      · obtain ⟨s₀, s₁, version, hs₀, hstart, h₀, hr⟩ := ih ht₀ hq₀
        exact ⟨s₀, s₁, version, hs₀, hstart, h₀, hr.tail ⟨_, hstep, trivial⟩⟩
      · rcases step_evolve hc hstep with ⟨a, rfl, hw⟩ | hworker
        · rw [hw] at ht
          obtain ⟨version, rfl, hok⟩ := act_queued ht₀ ht hq₀ hq
          obtain ⟨row, row', hwrites, hready, expiry, hexpiry, hnow⟩ := queue_writes hok
          have hstart : StartsUnexpired id version _ :=
            ⟨hok, row, expiry, hwrites.1, hready, hexpiry, hnow⟩
          exact ⟨_, _, version, hc, hstart, hstep, .refl⟩
        · obtain ⟨t', ht', he⟩ := hworker.old id t₀ ht₀
          rw [ht] at ht'
          cases ht'
          have hne : t.stamp.status ≠ t₀.stamp.status := fun h => hq₀ (h.symm.trans hq)
          have hmove : WorkerMoves t₀.status t.status := he.moves_of_ne hne
          rw [hq] at hmove
          exact absurd hmove not_workerMoves_queued

/-! ## §5. The lifecycle of every task. -/

def statusOf (db : Database) (id : Nat) : Option TaskStatus :=
  (Table.find? db.tasks id).map (·.status)

def versionOf (db : Database) (id : Nat) : Option Nat :=
  (Table.find? db.tasks id).map (·.version)

theorem statusOf_eq_some {db : Database} {id : Nat} {st : TaskStatus} :
    statusOf db id = some st ↔ ∃ t, Table.find? db.tasks id = some t ∧ t.status = st := by
  unfold statusOf
  rw [Option.map_eq_some_iff]

/-- The task has no run, and no order is for one of its legs. -/
def Untouched (db : Database) (id : Nat) : Prop :=
  (∀ r ∈ db.runs, r.taskId ≠ id)
    ∧ ∀ o ∈ db.orders, ∀ l ∈ db.legs, l.id = o.taskLegId → l.taskId ≠ id

/-- A stopped task has neither. -/
theorem untouched_of_stopped {db : Database} (hwf : WellFormed db) {id : Nat}
    (h : statusOf db id = some .emergencyStopped) : Untouched db id := by
  obtain ⟨t, ht, hst⟩ := statusOf_eq_some.mp h
  obtain ⟨hmem, hkey⟩ := Table.find?_some ht
  have hruns : ∀ r ∈ db.runs, r.taskId ≠ id := by
    intro r hr htask
    have hown := (hwf.owner_eq hr hmem (hkey.trans htask.symm)).1
    rw [hst] at hown
    cases hown
  refine ⟨hruns, fun o ho l hl hleg htask => ?_⟩
  obtain ⟨r, hr, l', hl', -, hid, hsame⟩ := hwf.order_owner o ho
  have hll : l = l' := hwf.legs_unique.eq hl hl' (hleg.trans hid.symm)
  subst hll
  exact hruns r hr (hsame.symm.trans htask)

/-- A task that has ended stays as it ended. -/
theorem final_stays (hs : AnyReachable num paperWorker liveWorker s)
    (hr : AnyRuns num paperWorker liveWorker s s') {id : Nat} {st : TaskStatus}
    (h : statusOf s.world.db id = some st) (hfinal : st.isFinal) :
    statusOf s'.world.db id = some st := by
  obtain ⟨t, ht, rfl⟩ := statusOf_eq_some.mp h
  obtain ⟨t', ht', hd⟩ := run_descends hs hr ht
  have hsame : t'.stamp = t.stamp := hd.absorbed fun _ => not_moves_of_final hfinal
  exact statusOf_eq_some.mpr ⟨t', ht', congrArg (·.status) hsame⟩

/-- An accepted API operation uses its version up. -/
theorem version_used (hs : AnyReachable num paperWorker liveWorker s) {a b : Act} {s₁ s₂ : AnyState}
    {id version : Nat} (ha : a.expects = some (id, version)) (hok : a.Succeeds s.world)
    (hstep : AnyStep num paperWorker liveWorker s (.act a) s₁)
    (hr : AnyRuns num paperWorker liveWorker s₁ s₂) (hb : b.expects = some (id, version)) :
    ¬b.Succeeds s₂.world := by
  intro hagain
  obtain ⟨row, row', hfirst⟩ := hok.writes ha
  obtain ⟨row₂, row₂', hsecond⟩ := hagain.writes hb
  have hs₁ : AnyReachable num paperWorker liveWorker s₁ := .step hs hstep trivial
  cases hstep with
  | act hw =>
      have hfind : Table.find? _ id = some row' := hfirst.find
      rw [← show _ = a.apply _ from hw] at hfind
      obtain ⟨t, ht, hd⟩ := run_descends hs₁ hr hfind
      rw [hsecond.1] at ht
      cases ht
      refine hd.version_ne ?_ hsecond.2.1
      have hcount := hfirst.2.2.2.1
      have hversion := hfirst.2.1
      show version < row'.version
      omega

/-- The lifecycle of an execution task, in every interleaving of the API and the
worker: a final status stays; a change of status counts the version up by one;
an expected version serves one operation; a cancelled task never has a run or an
order; and a task runs only after an unexpired preflight was accepted. -/
theorem executionTask_lifecycle (num : Numeric) (paperWorker liveWorker : String) {s : AnyState}
    (hs : AnyReachable num paperWorker liveWorker s) :
    (∀ s' id st, AnyRuns num paperWorker liveWorker s s' → statusOf s.world.db id = some st →
        st.isFinal → statusOf s'.world.db id = some st)
      ∧ (∀ l s' id st st', AnyStep num paperWorker liveWorker s l s' →
          statusOf s.world.db id = some st → statusOf s'.world.db id = some st' → st' ≠ st →
          ∃ n, versionOf s.world.db id = some n ∧ versionOf s'.world.db id = some (n + 1))
      ∧ (∀ (a b : Act) s₁ s₂ id version, a.expects = some (id, version) → a.Succeeds s.world →
          AnyStep num paperWorker liveWorker s (.act a) s₁ →
          AnyRuns num paperWorker liveWorker s₁ s₂ → b.expects = some (id, version) →
          ¬b.Succeeds s₂.world)
      ∧ (∀ s₁ s₂ id version, (Act.cancel id version).Succeeds s.world →
          AnyStep num paperWorker liveWorker s (.act (.cancel id version)) s₁ →
          AnyRuns num paperWorker liveWorker s₁ s₂ → Untouched s₂.world.db id)
      ∧ (∀ l s' id, AnyStep num paperWorker liveWorker s l s' →
          statusOf s.world.db id = some .queued → statusOf s'.world.db id = some .running →
          StartedBefore num paperWorker liveWorker id s) := by
  refine ⟨fun s' id st hr h hfinal => final_stays hs hr h hfinal, ?_, ?_, ?_, ?_⟩
  · intro l s' id st st' hstep h h' hne
    obtain ⟨t, ht, rfl⟩ := statusOf_eq_some.mp h
    obtain ⟨t', ht', rfl⟩ := statusOf_eq_some.mp h'
    obtain ⟨t₁, ht₁, he⟩ := (step_moves hs hstep).old id t ht
    rw [ht'] at ht₁
    cases ht₁
    -- A status changes together with the version, by one.
    have hcount : t'.version = t.version + 1 := he.version_of_ne hne
    refine ⟨t.version, ?_, ?_⟩
    · unfold versionOf
      rw [ht]
      rfl
    · unfold versionOf
      rw [ht', ← hcount]
      rfl
  · exact fun a b s₁ s₂ id version ha hok hstep hr hb => version_used hs ha hok hstep hr hb
  · intro s₁ s₂ id version hok hstep hr
    have hs₁ : AnyReachable num paperWorker liveWorker s₁ := .step hs hstep trivial
    -- The cancel has stopped the task.
    have hstopped : statusOf s₁.world.db id = some .emergencyStopped := by
      obtain ⟨row, row', hw, hst⟩ := cancel_writes hok
      cases hstep with
      | act h =>
          refine statusOf_eq_some.mpr ⟨row', ?_, hst⟩
          rw [show _ = Act.apply (.cancel id version) _ from h]
          exact hw.find
    have hwf : WellFormed s₂.world.db := AnyReachable.wellFormed (hs₁.run hr)
    exact untouched_of_stopped hwf (final_stays hs₁ hr hstopped rfl)
  · intro l s' id hstep hq _
    obtain ⟨t, ht, hst⟩ := statusOf_eq_some.mp hq
    exact queued_started hs ht hst

end Runs

namespace Sample

/-- The task of the sample plan, on paper. -/
def paperPlan : TaskPlan where
  task := { task with environment := .paper }
  legs := [anchor, hedge]
  leg_count := plan.leg_count
  one_anchor := plan.one_anchor

/-- It is planned and preflighted. -/
def paperReady : World :=
  Act.apply (.preflightReady 0 1 100) (Act.apply (.createTask paperPlan) empty)

def paperQueued : World := Act.apply (.queue 0 2) paperReady

def paperStopped : World := Act.apply (.cancel 0 2) paperReady

/-- The worker has claimed it. -/
def paperClaimed : World :=
  { paperQueued with
    db := (commit (claimPaperExecutionTask "paper" paperQueued.ambient) paperQueued.db).2 }

theorem reached_paperReady : AnyReachable numeric "paper" "live" ⟨paperReady, none⟩ :=
  .step (.step (.init empty_initial) (.act rfl) trivial) (.act rfl) trivial

theorem reached_paperQueued : AnyReachable numeric "paper" "live" ⟨paperQueued, none⟩ :=
  .step reached_paperReady (.act rfl) trivial

theorem queue_succeeds : (Act.queue 0 2).Succeeds paperReady := ⟨_, rfl⟩

theorem cancel_succeeds : (Act.cancel 0 2).Succeeds paperReady := ⟨_, rfl⟩

end Sample

/-- The lifecycle at a preflighted task: once it is queued, a cancellation with
the same version fails; once it is cancelled, it stays untouched; and behind the
worker's claim lies the start. -/
theorem executionTask_lifecycle_ready :
    ¬(Act.cancel 0 2).Succeeds Sample.paperQueued ∧ Untouched Sample.paperStopped.db 0
      ∧ StartedBefore Sample.numeric "paper" "live" 0
          ⟨Sample.paperQueued, some (anyPass Sample.numeric "paper" "live")⟩ := by
  obtain ⟨-, -, hversion, hcancel, -⟩ :=
    executionTask_lifecycle Sample.numeric "paper" "live" Sample.reached_paperReady
  refine ⟨?_, ?_, ?_⟩
  · exact hversion (.queue 0 2) (.cancel 0 2) ⟨Sample.paperQueued, none⟩
      ⟨Sample.paperQueued, none⟩ 0 2 rfl Sample.queue_succeeds (.act rfl) .refl rfl
  · exact hcancel ⟨Sample.paperStopped, none⟩ ⟨Sample.paperStopped, none⟩ 0 2 Sample.cancel_succeeds
      (.act rfl) .refl
  · have hclaiming : AnyReachable Sample.numeric "paper" "live"
        ⟨Sample.paperQueued, some (anyPass Sample.numeric "paper" "live")⟩ :=
      .step Sample.reached_paperQueued .start trivial
    obtain ⟨-, -, -, -, hstart⟩ := executionTask_lifecycle Sample.numeric "paper" "live" hclaiming
    have hclaim : ∃ p, AnyStep Sample.numeric "paper" "live"
        ⟨Sample.paperQueued, some (anyPass Sample.numeric "paper" "live")⟩
        (.call (.inr (.claim "paper"))
          (commit (claimPaperExecutionTask "paper" Sample.paperQueued.ambient)
            Sample.paperQueued.db).1)
        ⟨Sample.paperClaimed, p⟩ := ⟨_, .call ⟨_, rfl, rfl⟩⟩
    obtain ⟨p, hclaim⟩ := hclaim
    have hrunning : statusOf Sample.paperClaimed.db 0 = some .running := by decide
    exact hstart _ ⟨Sample.paperClaimed, p⟩ 0 hclaim (by decide) hrunning

end BasisHawk.MultiLeg
