/-
  BasisHawk.MultiLeg.Compensation
  ───────────────────────────────
  A compensating task places no primary order any more — as long as every
  compensation begins with all primary orders decided.

  `run_once` asks for an uncertain order before it begins a compensation, and
  `created` is not among the uncertain statuses.  A primary order left behind
  in `created` is active, and an active order comes before the phase: the next
  pass looks it up and submits it.

  Main results:
    • `compensating_submits_no_primary` — the law, for runs in which no
      compensation leaves a created primary order behind,
    • `compensating_submits_primary` — one that is left behind is submitted.
-/
import BasisHawk.MultiLeg.GuardedPass

namespace BasisHawk.MultiLeg

open Domain Lib Accounts Database

variable {num : Numeric} {workerId : String}

/-! ## §1. The condition. -/

/-- The run whose compensation begins. -/
def compensatedRun : Label Op Rep Act → Option Nat
  | .call (.db (.beginCompensation _ runId _ _)) _ => some runId
  | _ => none

/-- No compensation begins while a primary order of its run is `created`. -/
def NoneLeftBehind (w : World) (l : Label Op Rep Act) : Prop :=
  ∀ o ∈ w.db.orders, compensatedRun l = some o.runId → o.purpose = .primary → o.status ≠ .created

instance (w : World) (l : Label Op Rep Act) : Decidable (NoneLeftBehind w l) :=
  inferInstanceAs (Decidable (∀ o ∈ w.db.orders, _))

/-- The condition speaks only of the step that begins a compensation. -/
theorem noneLeftBehind_of_none {w : World} {l : Label Op Rep Act} (h : compensatedRun l = none) :
    NoneLeftBehind w l := by
  intro o _ hrun
  rw [h] at hrun
  cases hrun

/-! ## §2. While a task compensates its primary orders have ended. -/

/-- The order belongs to a run of the task. -/
def OfTask (db : Database) (o : ExecutionOrderRow) (taskId : Nat) : Prop :=
  ∃ r ∈ db.runs, r.id = o.runId ∧ r.taskId = taskId

/-- Every primary order of a compensating task has ended. -/
def Decided (db : Database) : Prop :=
  ∀ t ∈ db.tasks, t.status = .compensating → ∀ o ∈ db.orders, o.purpose = .primary →
    OfTask db o t.id → o.status.isTerminal

/-- The claimed run is the only one of the claimed task. -/
theorem Owns.task_eq {c : Claimed} {db : Database} (hwf : WellFormed db) (h : Owns c db)
    {t : ExecutionTaskRow} (ht : t ∈ db.tasks) {r : ExecutionRunRow} (hr : r ∈ db.runs)
    (hid : r.id = c.run.id) (htask : r.taskId = t.id) :
    t.status.isStarted ∧ (t.status = .compensating ↔ c.task.status = .compensating) := by
  obtain ⟨t', hfind, hstarted, hiff⟩ := h.task
  obtain ⟨r', hfind', htask'⟩ := h.run
  obtain ⟨ht', hid'⟩ := Table.find?_some hfind
  obtain ⟨hr', hrid'⟩ := Table.find?_some hfind'
  have hrun : r = r' := hwf.runs_unique.eq hr hr' (hid.trans hrid'.symm)
  have hsame : t' = t := by
    refine hwf.tasks_unique.eq ht' ht ?_
    show t'.id = t.id
    rw [← htask, hrun, htask']
    exact hid'
  rw [← hsame]
  exact ⟨hstarted, hiff⟩

/-- A task is compensating after a transaction only if it was so before or its
compensation has just begun. -/
theorem compensating_origin {o : DbOp} {w : World} (hpre : Pre (.db o) w)
    {old new : ExecutionTaskRow} (hmove : new.status = old.status ∨ o.MovesTask old new)
    (hnew : new.status = .compensating) :
    old.status = .compensating ∨ ∃ runId code worker, o = .beginCompensation old.id runId code worker := by
  rcases hmove with hmove | hmove
  · exact .inl (hmove ▸ hnew)
  · cases o with
    | claim workerId => rw [hmove.2] at hnew; cases hnew
    | setPhase taskId status =>
        rw [hmove.2] at hnew
        obtain ⟨hphase | hphase, -⟩ := hpre <;> rw [hphase] at hnew <;> cases hnew
    | beginCompensation taskId runId code worker =>
        obtain ⟨rfl, -⟩ := hmove
        exact .inr ⟨runId, code, worker, rfl⟩
    | failRun taskId runId code worker manualReview =>
        obtain ⟨-, hst | hst⟩ := hmove <;> rw [hst] at hnew <;> cases hnew
    | complete taskId runId worker => rw [hmove.2.2] at hnew; cases hnew
    | _ => cases hmove

/-- The transactions of the worker keep a compensating task's primary orders
ended. -/
theorem Decided.tx {o : DbOp} {w : World} {r : o.Result} {db' : Database}
    (hok : o.tx num w.ambient w.db = .ok (r, db')) (ha : NoneLeftBehind w (.call (.db o) (.ok r)))
    (hpre : Pre (.db o) w) (hwf : WellFormed w.db) (h : Decided w.db) : Decided db' := by
  intro t' ht' hcomp x' hx' hpurpose hof
  obtain ⟨r', hr', hrid, hrtask⟩ := hof
  obtain ⟨-, hmoved⟩ := DbOp.tasksEffect hok
  obtain ⟨t, ht, htid, hmove⟩ := hmoved t' ht'
  -- An order that was there before belongs to a run that was there before.
  have hold : ∀ x ∈ w.db.orders, x.runId = x'.runId → OfTask w.db x t.id := by
    intro x hx hxrun
    rcases DbOp.runsEffect hok r' hr' with ⟨r₀, hr₀, hid₀, htask₀⟩ | hfresh
    · exact ⟨r₀, hr₀, by rw [hid₀, hrid, hxrun], by rw [htask₀, hrtask, htid]⟩
    · obtain ⟨r₀, hr₀, -, -, hid₀, -⟩ := hwf.order_owner x hx
      have hbelow : r₀.id < w.db.nextId := hwf.runs_below r₀ hr₀
      rw [hid₀, hxrun, ← hrid, hfresh] at hbelow
      omega
  rcases compensating_origin hpre hmove hcomp with hwas | ⟨runId, code, worker, rfl⟩
  · -- An order that has not ended is not a primary order of this task.
    have hlive : ∀ x ∈ w.db.orders, x.runId = x'.runId → x.purpose = .primary →
        x.status.isTerminal = true :=
      fun x hx hxrun hxp => h t ht hwas x hx hxp (hold x hx hxrun)
    cases DbOp.ordersEffect hok with
    | same heq =>
        rw [heq] at hx'
        exact hlive x' hx' rfl hpurpose
    | created heq hrun _ _ hp =>
        rw [heq] at hx'
        rcases List.mem_append.mp hx' with hx' | hx'
        · exact hlive x' hx' rfl hpurpose
        · obtain rfl := List.mem_singleton.mp hx'
          obtain ⟨⟨c, leg, -, hcur, hcrun, -, -, -, -, hguard⟩, -⟩ := hpre
          rw [← hp, hpurpose] at hguard
          have hr₀ : r' ∈ w.db.runs := by
            rw [← (DbOp.sparesTask_tx hok trivial).2]
            exact hr'
          obtain ⟨-, hiff⟩ := hcur.toOwns.task_eq hwf ht hr₀ (by rw [hrid, hrun, hcrun])
            (hrtask.trans htid.symm)
          exact absurd (hiff.mp hwas) hguard.1.1
    | marked heq hmem hsame hactive _ _ _ =>
        rw [heq] at hx'
        rcases Table.mem_put.mp hx' with ⟨rfl, -⟩ | ⟨hx', -⟩
        · have := hlive _ hmem hsame.runId.symm (hsame.purpose.symm.trans hpurpose)
          rw [hactive] at this
          cases this
        · exact hlive x' hx' rfl hpurpose
    | observed heq hmem hid hsame _ _ _ _ _ =>
        rw [heq] at hx'
        rcases Table.mem_put.mp hx' with ⟨rfl, -⟩ | ⟨hx', -⟩
        · have hterm := hlive _ hmem hsame.runId.symm (hsame.purpose.symm.trans hpurpose)
          have hactive := observed_active hwf hpre hmem hid
          rw [OrderStatus.isActive_eq_not_isTerminal, hterm] at hactive
          cases hactive
        · exact hlive x' hx' rfl hpurpose
  · -- The compensation begins: nothing is uncertain, and nothing was left created.
    obtain ⟨-, ⟨run, hrun, hruntask⟩, -, hcertain⟩ := hpre
    obtain ⟨⟨task, -, hm⟩, -⟩ := beginExecutionTaskCompensation_ok hok
    rw [hm.orders] at hx'
    obtain ⟨hrunmem, hrunid⟩ := Table.find?_some hrun
    obtain ⟨r₀, hr₀, hid₀, htask₀⟩ := hold x' hx' rfl
    have hsame : r₀ = run := hwf.run_of_task r₀ hr₀ run hrunmem (htask₀.trans hruntask.symm)
    have hxrun : x'.runId = runId := by
      rw [← hid₀, hsame]
      exact hrunid
    by_contra hterm
    have hactive : x'.status.isActive := by
      rw [OrderStatus.isActive_eq_not_isTerminal]
      simpa using hterm
    rcases (OrderStatus.isActive_iff _).mp hactive with huncertain | hcreated
    · exact hcertain x' hx' hxrun huncertain
    · exact ha x' hx' (by rw [hxrun]; rfl) hpurpose hcreated

/-- The step lemma: a task that is compensating has no order that is still
undecided. -/
theorem decided_kept : Kept num NoneLeftBehind fun w => Decided w.db where
  act := fun a w _ _ h t ht hcomp o ho hpurpose hof => by
    obtain ⟨hruns, horders, -⟩ := act_frame a w
    rcases act_tasks a t ht with ht | ht
    · unfold OfTask at hof
      rw [hruns] at hof
      rw [horders] at ho
      exact h t ht hcomp o ho hpurpose hof
    · rw [hcomp] at ht
      cases ht
  db := fun o w r db' hc ha hpre hwf h => by
    rcases commit_cases hc with ⟨a, rfl, hok⟩ | ⟨e, -, -, rfl⟩
    · exact h.tx hok ha hpre hwf
    · exact h
  out := fun _ _ _ _ _ _ h => h
  idle := fun _ h => h

/-! ## §3. A task that has left trading never comes back. -/

/-- The statuses after trading. -/
def TaskStatus.isPast : TaskStatus → Bool
  | .compensating | .completed | .failed | .manualReview => true
  | _ => false

theorem TaskStatus.compensating_of_started_past {s : TaskStatus} (hstarted : s.isStarted)
    (hpast : s.isPast) : s = .compensating := by
  cases s <;> simp [isStarted, isPast] at *

/-- The task has left trading. -/
def PastTrading (taskId : Nat) (db : Database) : Prop :=
  ∃ t, Table.find? db.tasks taskId = some t ∧ t.status.isPast

/-- A task that is past trading stays past it: no transaction leads back. -/
theorem PastTrading.tx {taskId : Nat} {o : DbOp} {w : World} {r : o.Result} {db' : Database}
    (hok : o.tx num w.ambient w.db = .ok (r, db')) (hpre : Pre (.db o) w) (hwf : WellFormed w.db)
    (hwf' : WellFormed db') (h : PastTrading taskId w.db) : PastTrading taskId db' := by
  obtain ⟨t, hfind, hpast⟩ := h
  obtain ⟨ht, hid⟩ := Table.find?_some hfind
  obtain ⟨hkeys, hmoved⟩ := DbOp.tasksEffect hok
  have hkey : key t ∈ db'.tasks.map key := by
    rw [hkeys]
    exact List.mem_map_of_mem ht
  obtain ⟨t', ht', hid'⟩ := List.mem_map.mp hkey
  refine ⟨t', (Table.find?_eq_some_iff hwf'.tasks_unique).mpr ⟨ht', hid'.trans hid⟩, ?_⟩
  obtain ⟨old, hold, holdid, hmove⟩ := hmoved t' ht'
  obtain rfl : old = t := hwf.tasks_unique.eq hold ht (holdid.trans hid')
  rcases hmove with hmove | hmove
  · rw [hmove]
    exact hpast
  · cases o with
    | claim workerId =>
        rw [hmove.1] at hpast
        cases hpast
    | setPhase id status =>
        -- Only a running or hedging task changes its phase.
        obtain ⟨-, u, hu, hust⟩ := hpre
        obtain ⟨humem, huid⟩ := Table.find?_some hu
        obtain rfl : u = old := hwf.tasks_unique.eq humem ht (huid.trans hmove.1.symm)
        rcases hust with hust | hust <;> rw [hust] at hpast <;> cases hpast
    | beginCompensation id runId code worker => rw [hmove.2.2]; rfl
    | failRun id runId code worker manualReview =>
        obtain ⟨-, hst | hst⟩ := hmove <;> rw [hst] <;> rfl
    | complete id runId worker => rw [hmove.2.2]; rfl
    | _ => cases hmove

/-- The step lemma for a whole run. -/
theorem pastTrading_kept (taskId : Nat) {allow : World → Label Op Rep Act → Prop} :
    Kept num allow fun w => WellFormed w.db ∧ PastTrading taskId w.db where
  act := fun a w _ hwf h => by
    obtain ⟨-, t, hfind, hpast⟩ := h
    refine ⟨hwf.act a, t, act_tasks_find a hfind ?_, hpast⟩
    cases hst : t.status <;> rw [hst] at hpast <;> first | rfl | cases hpast
  db := fun o w r db' hc _ hpre hwf h => by
    rcases commit_cases hc with ⟨a, rfl, hok⟩ | ⟨e, -, -, rfl⟩
    · have hwf' := hwf.tx hok
      exact ⟨hwf', h.2.tx hok hpre hwf hwf'⟩
    · exact h
  out := fun _ _ _ _ _ _ h => h
  idle := fun _ h => h

/-! ## §4. No primary order is submitted any more. -/

/-- Once a task is compensating, none of its primary orders is submitted any
more, in runs in which no compensation leaves a created one behind. -/
theorem compensating_submits_no_primary {s s' : State}
    (hs : Reachable num workerId NoneLeftBehind s) (hr : Runs num workerId NoneLeftBehind s s')
    {t : ExecutionTaskRow} (ht : t ∈ s.world.db.tasks) (hcomp : t.status = .compensating)
    {request : PrivateOrderRequest} (hsub : Submits s' request) {o : ExecutionOrderRow}
    (ho : o ∈ s'.world.db.orders) (hcid : o.clientOrderId = request.clientOrderId)
    (hof : OfTask s'.world.db o t.id) : o.purpose = .compensation := by
  have hs' : Reachable num workerId NoneLeftBehind s' := System.Reach.run hs hr
  have hdecided : Decided s'.world.db :=
    decided_kept.reachable (fun w hw t ht => by rw [hw.tasks] at ht; cases ht) hs'
  have hfind := (Table.find?_eq_some_iff hs.wellFormed.tasks_unique).mpr ⟨ht, rfl⟩
  -- In the later state the task is compensating still, or past it.
  obtain ⟨hwf, t', hfind', hpast⟩ := (pastTrading_kept t.id).runs hs hr
    ⟨hs.wellFormed, t, hfind, by rw [hcomp]; rfl⟩
  obtain ⟨ht', hid'⟩ := Table.find?_some hfind'
  obtain ⟨w', p'⟩ := s'
  obtain ⟨client, k, rfl⟩ := hsub
  -- The guard of a submission: the order is one of the claimed run, created or unknown.
  obtain ⟨c, x, leg, snapshot, -, hcur, hx, hst, -, -, rfl⟩ := hs'.pre
  rw [← hcur.orders] at hx
  obtain ⟨hxmem, hxrun⟩ := mem_ordersOfRun.mp hx
  have hsame : o = x := List.inj_on_of_nodup_map hwf.client_ids ho hxmem hcid
  subst hsame
  obtain ⟨r, hr, hrid, hrtask⟩ := hof
  -- The task of the run is the same one, and started.
  have hstarted := (hcur.toOwns.task_eq hwf ht' hr (hrid.trans hxrun) (hrtask.trans hid'.symm)).1
  have hcomp' : t'.status = .compensating :=
    TaskStatus.compensating_of_started_past hstarted hpast
  cases hp : o.purpose with
  | compensation => rfl
  | primary =>
      -- A primary order of it would be terminal, which the order in hand is not.
      have hterm := hdecided t' ht' hcomp' o hxmem hp ⟨r, hr, hrid, hrtask.trans hid'.symm⟩
      rcases hst with hst | hst <;> rw [hst] at hterm <;> cases hterm

/-! ## §5. Concrete runs. -/

namespace Sample

theorem noneLeftBehind_free (w : World) : NoneLeftBehind w .start ∧ NoneLeftBehind w .crash :=
  ⟨noneLeftBehind_of_none rfl, noneLeftBehind_of_none rfl⟩

/-- The anchor of the sample is filled before the compensation begins. -/
theorem runsTo_anchored : RunsTo NoneLeftBehind ⟨empty, none⟩ ⟨anchored, none⟩ := by
  have h₀ : RunsTo NoneLeftBehind ⟨empty, none⟩ ⟨queued, none⟩ :=
    runsTo_queued fun _ _ => noneLeftBehind_of_none rfl
  have h₁ : RunsTo NoneLeftBehind ⟨queued, none⟩ ⟨pass (absent "a") queued, none⟩ :=
    runsTo_pass _ noneLeftBehind_free (by decide +kernel)
  have h₂ := h₁.trans (runsTo_pass (absent "a") noneLeftBehind_free (by decide +kernel))
  exact (h₀.trans h₂).trans (runsTo_pass _ noneLeftBehind_free (by decide +kernel))

/-- The order that undoes the anchor is about to be submitted. -/
def undoing : State := upTo (absent "d") isPlace (pass (absent "c") unquoted)

/-- The hedge was created; then the account may not trade. -/
def leftBehind : World :=
  pass { absent "b" with tradePermission := some false } (pass (absent "b") anchored)

/-- The next pass takes the hedge order up again. -/
def takenUp : State := upTo (absent "c") isPlace leftBehind

end Sample

/-- The order submitted while compensating is the one that undoes the anchor. -/
theorem compensating_submits_no_primary_unquoted :
    ∃ s s' t request o, Sample.Reached NoneLeftBehind s ∧ Sample.RunsTo NoneLeftBehind s s'
      ∧ t ∈ s.world.db.tasks ∧ t.status = .compensating ∧ Submits s' request
      ∧ o ∈ s'.world.db.orders ∧ o.clientOrderId = request.clientOrderId
      ∧ OfTask s'.world.db o t.id ∧ o.purpose = .compensation := by
  have hs : Sample.Reached NoneLeftBehind ⟨Sample.unquoted, none⟩ :=
    System.Reach.run Sample.reached_empty (Sample.runsTo_anchored.trans
      (Sample.runsTo_pass _ Sample.noneLeftBehind_free (by decide +kernel)))
  have hr : Sample.RunsTo NoneLeftBehind ⟨Sample.unquoted, none⟩ Sample.undoing :=
    (Sample.runsTo_pass _ Sample.noneLeftBehind_free (by decide +kernel)).trans
      (Sample.runsTo_upTo _ _ (noneLeftBehind_of_none rfl) (by decide +kernel))
  obtain ⟨t, ht, hcomp, hid⟩ := (by decide +kernel :
    ∃ t ∈ Sample.unquoted.db.tasks, t.status = .compensating ∧ t.id = 0)
  obtain ⟨request, hsub, hcid⟩ := submits_of_submitted "bh-c" (by decide +kernel :
    submitted Sample.undoing = some "bh-c")
  obtain ⟨o, ho, hoc, r, hr', hrun, htask⟩ := (by decide +kernel :
    ∃ o ∈ Sample.undoing.world.db.orders, o.clientOrderId = "bh-c"
      ∧ ∃ r ∈ Sample.undoing.world.db.runs, r.id = o.runId ∧ r.taskId = 0)
  have hof := (⟨r, hr', hrun, htask.trans hid.symm⟩ : OfTask _ o t.id)
  exact ⟨_, _, t, request, o, hs, hr, ht, hcomp, hsub, ho, hoc.trans hcid.symm, hof,
    compensating_submits_no_primary hs hr ht hcomp hsub ho (hoc.trans hcid.symm) hof⟩

/-- A hedge order left behind in `created` is submitted while compensating. -/
theorem compensating_submits_primary :
    ¬∀ s s', Sample.Reached System.anyStep s → Sample.RunsTo System.anyStep s s' →
      ∀ t ∈ s.world.db.tasks, t.status = .compensating → ∀ request, Submits s' request →
        ∀ o ∈ s'.world.db.orders, o.clientOrderId = request.clientOrderId →
          OfTask s'.world.db o t.id → o.purpose = .compensation := by
  intro h
  have hanchored : Sample.Reached System.anyStep ⟨Sample.anchored, none⟩ :=
    System.Reach.mono (fun _ _ _ => trivial)
      (System.Reach.run Sample.reached_empty Sample.runsTo_anchored)
  have hs : Sample.Reached System.anyStep ⟨Sample.leftBehind, none⟩ :=
    System.Reach.run hanchored
      ((Sample.runsTo_pass _ Sample.anyStep_free (by decide +kernel)).trans
        (Sample.runsTo_pass _ Sample.anyStep_free (by decide +kernel)))
  have hr : Sample.RunsTo System.anyStep ⟨Sample.leftBehind, none⟩ Sample.takenUp :=
    Sample.runsTo_upTo _ _ trivial (by decide +kernel)
  obtain ⟨t, ht, hcomp, hid⟩ := (by decide +kernel :
    ∃ t ∈ Sample.leftBehind.db.tasks, t.status = .compensating ∧ t.id = 0)
  obtain ⟨request, hsub, hcid⟩ := submits_of_submitted "bh-b" (by decide +kernel :
    submitted Sample.takenUp = some "bh-b")
  obtain ⟨o, ho, hoc, hpurpose, r, hr', hrun, htask⟩ := (by decide +kernel :
    ∃ o ∈ Sample.takenUp.world.db.orders, o.clientOrderId = "bh-b"
      ∧ o.purpose = .primary ∧ ∃ r ∈ Sample.takenUp.world.db.runs, r.id = o.runId ∧ r.taskId = 0)
  have := h _ _ hs hr t ht hcomp request hsub o ho (hoc.trans hcid.symm)
    ⟨r, hr', hrun, htask.trans hid.symm⟩
  rw [hpurpose] at this
  cases this

end BasisHawk.MultiLeg
