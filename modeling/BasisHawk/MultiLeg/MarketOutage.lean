/-
  BasisHawk.MultiLeg.MarketOutage
  ───────────────────────────────
  A resting maker order while the market cannot be read.

  The exchange holds the order and answers; what is missing is the market data
  that a pass reads around it.  Before the order is looked up the pass reads
  the markets of all legs, and after it has been observed it quotes its book
  level.  Only an order book that is unavailable is handled where it occurs;
  every other failure reaches the handler of the pass.

  Main results:
    • `allResolved_kept` — a task with an order has all its legs resolved,
    • `outage_weathered_iff` — the pass leaves the task, its run and the order
      as they are exactly if nothing but the order book is missing,
    • `outage_reviewed` — without an opportunity the task goes to a human.
-/
import BasisHawk.MultiLeg.FillLedger
import BasisHawk.MultiLeg.HedgeShare
import BasisHawk.MultiLeg.StoredRatio

namespace BasisHawk.MultiLeg

open Domain Lib Accounts Database

variable {num : Numeric} {workerId : String}

/-! ## §1. The legs of a task with orders. -/

/-- A task with an order has all its legs resolved. -/
def AllResolved (db : Database) : Prop :=
  ∀ o ∈ db.orders, ∀ l ∈ db.legs, OfTask db o l.taskId → l.resolvedBaseQuantity ≠ none

/-- Where something has been filled, there is an order. -/
theorem exists_of_filledBaseOf_pos {orders : List ExecutionOrderRow} {legId : Nat}
    {purpose : Purpose} (h : 0 < filledBaseOf orders legId purpose) : ∃ o, o ∈ orders := by
  cases orders with
  | nil => exact absurd h (lt_irrefl 0)
  | cons o rest => exact ⟨o, .head _⟩

/-- An order is created only once every leg of its task is resolved, and no leg
loses its quantity. -/
theorem AllResolved.tx {o : DbOp} {w : World} {r : o.Result} {db' : Database}
    (hok : o.tx num w.ambient w.db = .ok (r, db')) (hpre : Pre (.db o) w) (hwf : WellFormed w.db)
    (h : AllResolved w.db) : AllResolved db' := by
  intro x' hx' l hl hof
  rcases DbOp.legsEffect hok hl with hl | ⟨-, -, -, -, -, base, -, hsome⟩
  · have hold : ∀ x ∈ w.db.orders, x'.runId = x.runId → l.resolvedBaseQuantity ≠ none :=
      fun x hx hrun => h x hx l hl (hof.before hwf hok hx hrun)
    have hput : ∀ old new : ExecutionOrderRow, old ∈ w.db.orders → SameOrder old new →
        db'.orders = Table.put w.db.orders new → l.resolvedBaseQuantity ≠ none := by
      intro old new hmem hs heq
      rw [heq] at hx'
      rcases Table.mem_put.mp hx' with ⟨rfl, -⟩ | ⟨hx', -⟩
      · exact hold old hmem hs.runId
      · exact hold x' hx' rfl
    cases DbOp.ordersEffect hok with
    | same heq => exact hold x' (heq ▸ hx') rfl
    | marked heq hmem hs => exact hput _ _ hmem hs heq
    | observed heq hmem _ hs => exact hput _ _ hmem hs heq
    | created heq hrun _ _ _ _ hquantity hmultiplier =>
        rw [heq] at hx'
        rcases List.mem_append.mp hx' with hx' | hx'
        · exact hold x' hx' rfl
        · obtain rfl := List.mem_singleton.mp hx'
          obtain ⟨⟨c, leg, hpass, hcur, hcrun, -, -, -, -, hguard⟩, hchoice⟩ := hpre
          have htask : l.taskId = c.task.id := by
            obtain ⟨run, hrunmem, hrunid, hruntask⟩ := hof
            obtain ⟨run₀, hrun₀, htask₀⟩ := hcur.run
            obtain ⟨hmem₀, hid₀⟩ := Table.find?_some hrun₀
            rw [(DbOp.sparesTask_tx hok trivial).2] at hrunmem
            have hsame : run = run₀ := by
              refine hwf.runs_unique.eq hrunmem hmem₀ ?_
              show run.id = key run₀
              rw [hid₀, hrunid, hrun, hcrun]
            rw [← hruntask, hsame, htask₀]
          obtain ⟨c', legs, leg', base, pair, hpass', hcarries, -, -, -, -, -, -, hchoice⟩ := hchoice
          obtain rfl : c = c' := by
            rw [hpass] at hpass'
            injection hpass'
          split at hguard
          · next hpurpose =>
              -- A primary order is created from legs that are all resolved.
              rw [hpurpose] at hchoice
              obtain ⟨-, -, -, phase, deficit, -, -, hresolved⟩ := hchoice
              obtain ⟨leg₁, hleg₁, hid₁⟩ := hcarries.covers l hl htask
              obtain ⟨⟨row, hrow, hplanned, -, hres⟩, -⟩ := hcarries.tracks leg₁ hleg₁
              obtain rfl : row = l := by
                refine hwf.legs_unique.eq hrow hl ?_
                show row.id = l.id
                rw [planned_id hplanned, hid₁]
              rw [hres.resolve_left (hresolved leg₁ hleg₁)]
              exact hresolved leg₁ hleg₁
          · -- A compensation order follows a primary one.
            have hfilled : 0 < filledBaseOf c.orders leg.id .primary := by
              have hpos := mul_pos x'.quantity_check.1 x'.quantity_check.2
              have hnonneg := filledBaseOf_nonneg c.orders leg.id .compensation
              rw [hquantity, hmultiplier] at hpos
              linarith [hguard.2]
            obtain ⟨o, ho⟩ := exists_of_filledBaseOf_pos hfilled
            rw [← hcur.orders] at ho
            obtain ⟨ho, horun⟩ := mem_ordersOfRun.mp ho
            exact hold o ho (by rw [hrun, hcrun, horun])
  · rw [hsome]
    exact Option.some_ne_none _

/-- The step lemma for a whole run. -/
theorem allResolved_kept {allow : World → Label Op Rep Act → Prop} :
    Kept num allow fun w => AllResolved w.db where
  act := fun a w _ hwf h o ho l hl hof => by
    obtain ⟨hruns, horders, -⟩ := act_frame a w
    unfold OfTask at hof
    rw [hruns] at hof
    rw [horders] at ho
    rcases (act_legs_task a).2 l hl with hl | hnew
    · exact h o ho l hl hof
    · -- The legs of a new task belong to no run.
      obtain ⟨r, hr, -, htask⟩ := hof
      obtain ⟨t, ht, hid, -⟩ := hwf.run_owner r hr
      have hbelow : t.id < w.db.nextId := hwf.tasks_below t ht
      rw [hid, htask, hnew] at hbelow
      exact absurd hbelow (lt_irrefl _)
  db := fun o w r db' hc _ hpre hwf h => by
    rcases commit_cases hc with ⟨a, rfl, hok⟩ | ⟨e, -, -, rfl⟩
    · exact h.tx hok hpre hwf
    · exact h
  out := fun _ _ _ _ _ _ h => h
  idle := fun _ h => h

/-! ## §2. What a pass hears. -/

/-- The answer to an operation that comes after `n` others. -/
def heardAt (sc : PassScript) (n : Nat) (o : OutOp) : Except Exc o.Answer := (sc.get n).choice o

/-- The answers that are left when the pass turns to its order: the first turn
is the claim, and a compensating task does without the markets of its legs. -/
def orderScript (sc : PassScript) (c : Claimed) : PassScript :=
  if c.task.status = .compensating then sc.tail else afterMarkets sc.tail c

/-- The exchange answers completely: the account is there, the order is found
and open, and its trades go on from those that are stored. -/
structure AnsweredOpen (sc : PassScript) (c : Claimed) (leg : ExecutionTaskLegRow)
    (o : ExecutionOrderRow) (client : Client) (remote : RemoteOrder) (batch : RemoteFillBatch)
    (db : Database) : Prop where
  account : leg.accountId = some client.accountId
  scope : client.exchange = leg.exchange ∧ client.environment = c.task.environment
  summary : heardAt sc 0 (.accountSummary client.accountId)
    = .ok (some ⟨client.exchange, client.environment⟩)
  secrets : heardAt sc 1 (.hasSecrets client.accountId) = .ok true
  opened : heardAt sc 2 (.openClient client) = .ok ()
  lookup : heardAt sc 3 (.orderByClientId client leg.marketType.market leg.symbol o.clientOrderId)
    = .ok ⟨some remote, true, none⟩
  fills : heardAt sc 4 (.fillsForOrder client ⟨leg.marketType.market, leg.symbol,
    some remote.exchangeOrderId, o.clientOrderId⟩ o.createdAt) = .ok batch
  complete : batch.complete
  still_open : remoteStatus remote.status batch.total o.quantity = .acknowledged
    ∨ remoteStatus remote.status batch.total o.quantity = .partiallyFilled
  forward : o.filledQuantity ≤ batch.total
  recorded : ∃ db', db.persistFills o.id (batch.fills.map fillItem) = .ok db'
  closed : ∀ n, heardAt sc n (.close client) = .ok ()

/-- The markets of the legs, where the pass reads them, can be read and stand. -/
def MarketsPass (num : Numeric) (sc : PassScript) (c : Claimed) : Prop :=
  c.task.status = .compensating
    ∨ ∃ markets, heardMarkets sc.tail c = .ok markets ∧ MarketsStand num c.task markets

/-- The quote of the order's book level, after the order has been observed. -/
def heardQuote (sc : PassScript) (c : Claimed) (leg : ExecutionTaskLegRow) (o : ExecutionOrderRow)
    (batch : RemoteFillBatch) : Except Exc LiveOrderQuote :=
  ((quoteOrder leg ((o.quantity - batch.total) * o.baseMultiplier) .maker c.task.environment
    leg.side).run (Script.hear reply) ((orderScript sc c).drop 6)).1

/-- What reading the market raises: at the markets of the legs, or else at the
quote of the book level. -/
def Raises (num : Numeric) (sc : PassScript) (c : Claimed) (leg : ExecutionTaskLegRow)
    (o : ExecutionOrderRow) (batch : RemoteFillBatch) (e : Exc) : Prop :=
  (c.task.status ≠ .compensating ∧ heardMarkets sc.tail c = .error e)
    ∨ (MarketsPass num sc c ∧ heardQuote sc c leg o batch = .error e)

/-- All that is missing is the order book. -/
def BookMissing (num : Numeric) (sc : PassScript) (c : Claimed) (leg : ExecutionTaskLegRow)
    (o : ExecutionOrderRow) (batch : RemoteFillBatch) : Prop :=
  MarketsPass num sc c
    ∧ ∃ e, heardQuote sc c leg o batch = .error e ∧ e.kind = .orderBookUnavailable

/-- The task and its run have the status they had, and the order has not ended. -/
structure Undisturbed (c : Claimed) (o : ExecutionOrderRow) (db db' : Database) : Prop where
  task : ∀ t, Table.find? db.tasks c.task.id = some t →
    ∃ t', Table.find? db'.tasks c.task.id = some t' ∧ t'.status = t.status
  run : ∀ r, Table.find? db.runs c.run.id = some r →
    ∃ r', Table.find? db'.runs c.run.id = some r' ∧ r'.status = r.status
  order : ∃ o', Table.find? db'.orders o.id = some o' ∧ o'.status.isTerminal = false

/-! ## §3. Reading. -/

/-- Under its script a program that only reads comes to a result, and leaves
the rest of the script. -/
structure Reads {α : Type} (num : Numeric) (p : Worker α) (s : World × PassScript)
    (r : Except Exc α) (rest : PassScript) (s' : World × PassScript) : Prop where
  run : p.run (serve num) s = (r, s')
  script : s'.2 = rest
  keeps : ∀ A : Database → Prop, DbStable A → A s.1.db → A s'.1.db

namespace Reads

variable {α β : Type} {s s' s'' : World × PassScript} {sc rest rest' : PassScript}

/-- The script answers one question after the other. -/
theorem ask (num : Numeric) (o : OutOp) {n : Nat} (hs : s.2 = sc.drop n) :
    ∃ s', Reads num (ask o) s (heardAt sc n o) (sc.drop (n + 1)) s' := by
  have hanswer : s.2.head.choice o = heardAt sc n o := by
    rw [hs, Stream'.head_drop]
    rfl
  refine ⟨_, Prod.ext hanswer rfl, ?_, fun A hA h => ?_⟩
  · show s.2.tail = _
    rw [hs, Stream'.tail_drop']
  · have henv : ∀ a w, A w.db → A (Act.apply a w).db := fun a w hw => hA a w hw
    exact Script.serve_stable (o := Op.out o) henv h

/-- Market data. -/
theorem quote (num : Numeric) {m : Worker α} {P : α → Prop} (hm : m.Yields Op.isQuote P)
    (hs : s.2 = rest) : ∃ s', Reads num m s (m.run (Script.hear reply) rest).1
      (m.run (Script.hear reply) rest).2 s' := by
  subst hs
  obtain ⟨hresult, -, hkeep⟩ := run_quote num hm s
  exact ⟨_, Prod.ext hresult rfl, run_quote_script num hm s, hkeep⟩

/-- Reading on from where the first part has stopped. -/
theorem bind {p : Worker α} {f : α → Worker β} {a : α} {r : Except Exc β}
    (h : Reads num p s (.ok a) rest s') (h' : Reads num (f a) s' r rest' s'') :
    Reads num (p >>= f) s r rest' s'' := by
  refine ⟨?_, h'.script, fun A hA hs => h'.keeps A hA (h.keeps A hA hs)⟩
  rw [Prog.run_bind, h.run]
  exact h'.run

/-- The same where the second part handles an error of the first. -/
theorem resume {p : Worker α} {f : Except Exc α → Worker β} {q : Except Exc α} {r : Except Exc β}
    (h : Reads num p s q rest s') (h' : Reads num (f q) s' r rest' s'') :
    Reads num (p.resume f) s r rest' s'' := by
  refine ⟨?_, h'.script, fun A hA hs => h'.keeps A hA (h.keeps A hA hs)⟩
  rw [Prog.run_resume, h.run]
  exact h'.run

theorem done (num : Numeric) (r : Except Exc α) (hs : s.2 = rest) :
    Reads num (.done r) s r rest s := ⟨rfl, hs, fun _ _ h => h⟩

end Reads

section Order

variable {sc : PassScript} {c : Claimed} {leg : ExecutionTaskLegRow} {o : ExecutionOrderRow}
  {client : Client} {remote : RemoteOrder} {batch : RemoteFillBatch} {db : Database}

/-- The client of the order's account. -/
theorem AnsweredOpen.reads_openClient (h : AnsweredOpen sc c leg o client remote batch db)
    (num : Numeric) {s : World × PassScript} (hs : s.2 = sc) :
    ∃ s', Reads num (openClient c.task leg) s (.ok client) (sc.drop 3) s' := by
  have hscope : ¬(client.exchange ≠ leg.exchange ∨ client.environment ≠ c.task.environment) := by
    rintro (he | he)
    · exact he h.scope.1
    · exact he h.scope.2
  obtain ⟨s₁, h₁⟩ := Reads.ask num (.accountSummary client.accountId) (n := 0) hs
  obtain ⟨s₂, h₂⟩ := Reads.ask num (.hasSecrets client.accountId) h₁.script
  obtain ⟨s₃, h₃⟩ := Reads.ask num (.openClient client) h₂.script
  rw [h.summary] at h₁
  rw [h.secrets] at h₂
  rw [h.opened] at h₃
  refine ⟨s₃, ?_⟩
  unfold openClient
  rw [h.account]
  refine h₁.bind (h₂.bind ?_)
  dsimp only
  rw [if_neg (by simp), if_neg hscope]
  exact h₃.bind (Reads.done num _ h₃.script)

end Order

/-! ## §4. The tables while the order rests. -/

/-- The claimed task has the status it was claimed with, its run is running, and
the order is open. -/
structure Resting (c : Claimed) (o : ExecutionOrderRow) (db : Database) : Prop where
  task : ∃ t, Table.find? db.tasks c.task.id = some t ∧ t.status = c.task.status
    ∧ t.status.isStarted
  run : ∃ r, Table.find? db.runs c.run.id = some r ∧ r.taskId = c.task.id ∧ r.status = .running
  order : ∃ o', Table.find? db.orders o.id = some o' ∧ o'.runId = c.run.id
    ∧ (o'.status = .acknowledged ∨ o'.status = .partiallyFilled)

/-- Nobody else touches the order that rests. -/
theorem Resting.stable (c : Claimed) (o : ExecutionOrderRow) : DbStable (Resting c o) := by
  rintro a w ⟨⟨t, ht, hst, hstarted⟩, hrun, horder⟩
  obtain ⟨hruns, horders, -⟩ := act_frame a w
  refine ⟨⟨t, act_tasks_find a ht (TaskStatus.not_unstarted_of_started hstarted), hst, hstarted⟩,
    ?_, ?_⟩
  · rw [hruns]
    exact hrun
  · rw [horders]
    exact horder

/-- What a claim finds and leaves, where the task has an order at rest. -/
theorem Resting.claim {amb : Ambient} {db db' : Database} {c : Claimed} {o : ExecutionOrderRow}
    (hwf : WellFormed db) (hok : claimLiveExecutionTask workerId amb db = .ok (some c, db'))
    (ho : o ∈ c.orders) (hst : o.status = .acknowledged ∨ o.status = .partiallyFilled) :
    Resting c o db' ∧ Resting c o db := by
  have hfrozen := Frozen.claim hwf hok
  obtain ⟨hmem, hrunid⟩ := mem_ordersOfRun.mp (hfrozen.current ▸ ho)
  have hmem₀ : o ∈ db.orders := hfrozen.orders ▸ hmem
  have horder : ∃ o', Table.find? db.orders o.id = some o' ∧ o'.runId = c.run.id
      ∧ (o'.status = .acknowledged ∨ o'.status = .partiallyFilled) :=
    ⟨o, (Table.find?_eq_some_iff hwf.orders_unique).mpr ⟨hmem₀, rfl⟩, hrunid, hst⟩
  rcases claimLiveExecutionTask_ok hok with ⟨hnone, -⟩ | ⟨row, hrow, hstatus, -, hdb, hclaimed⟩
  · cases hnone
  have hwf' : WellFormed db' := hdb ▸ hwf.claim hrow hstatus workerId amb
  injection hclaimed with hclaimed
  obtain ⟨r', hr', hr'task⟩ := hfrozen.run
  have hrunning : r'.status = .running :=
    (hwf'.owner_eq (Table.find?_some hr').1 (Table.find?_some hfrozen.task).1 hr'task.symm).2.mpr
      hfrozen.started
  -- The run of the order was there before the claim, and so the task was started.
  obtain ⟨r, hr, l, -, hrid, -⟩ := hwf.order_owner o hmem₀
  have hrid : r.id = c.run.id := hrid.trans hrunid
  have hid : c.task.id = row.id := by
    rw [hclaimed]
    exact startTask_id row
  have hrtask : r.taskId = row.id := by
    rcases claimRun_cases amb db row.id workerId with
      ⟨old, hold, htask, hidrun, -, -, -⟩ | ⟨-, hidrun, -, -, -⟩
    · rw [← hwf.runs_unique.eq hold hr ?_, htask]
      show old.id = r.id
      rw [hrid, hclaimed]
      exact hidrun.symm
    · have hbelow : r.id < db.nextId := hwf.runs_below r hr
      rw [hrid, hclaimed] at hbelow
      exact absurd (hidrun ▸ hbelow : db.nextId < db.nextId) (lt_irrefl _)
  obtain ⟨hnot, hiff⟩ := hwf.owner_eq hr hrow hrtask.symm
  have hstarted : row.status.isStarted := by
    rcases hstatus with hq | hs
    · rw [hq] at hnot
      cases hnot
    · exact hs
  have hsame : c.task = row := by
    rw [hclaimed]
    show startTask row = row
    unfold startTask
    split
    · next hq =>
        rw [hq] at hnot
        cases hnot
    · rfl
  refine ⟨⟨⟨c.task, hfrozen.task, rfl, hfrozen.started⟩, ⟨r', hr', hr'task, hrunning⟩, ?_⟩,
    ⟨⟨row, ?_, ?_, hstarted⟩, ⟨r, ?_, ?_, hiff.mpr hstarted⟩, horder⟩⟩
  · rw [hfrozen.orders]
    exact horder
  · exact (Table.find?_eq_some_iff hwf.tasks_unique).mpr ⟨hrow, hid.symm⟩
  · rw [hsame]
  · exact (Table.find?_eq_some_iff hwf.runs_unique).mpr ⟨hr, hrid⟩
  · rw [hrtask, hid]

/-- A resting order leaves everything as it was. -/
theorem Resting.undisturbed {c : Claimed} {o : ExecutionOrderRow} {db db' : Database}
    (h : Resting c o db) (h' : Resting c o db') : Undisturbed c o db db' := by
  obtain ⟨⟨t, ht, hst, -⟩, ⟨r, hr, -, hrst⟩, -⟩ := h
  obtain ⟨⟨t', ht', hst', -⟩, ⟨r', hr', -, hrst'⟩, o', ho', -, host'⟩ := h'
  refine ⟨fun t₁ ht₁ => ⟨t', ht', ?_⟩, fun r₁ hr₁ => ⟨r', hr', ?_⟩, o', ho', ?_⟩
  · rw [ht] at ht₁
    injection ht₁ with ht₁
    rw [← ht₁, hst, hst']
  · rw [hr] at hr₁
    injection hr₁ with hr₁
    rw [← hr₁, hrst, hrst']
  · rcases host' with hs | hs <;> rw [hs] <;> rfl

/-- The task has been handed to a human. -/
def Reviewed (taskId : Nat) (db : Database) : Prop :=
  ∃ t, Table.find? db.tasks taskId = some t ∧ t.status = .manualReview

/-- A task under review stays under review. -/
theorem Reviewed.stable (taskId : Nat) : DbStable (Reviewed taskId) := by
  rintro a w ⟨t, ht, hst⟩
  exact ⟨t, act_tasks_find a ht (by rw [hst]; rfl), hst⟩

/-- A review disturbs the order: the task is not left as it was. -/
theorem Resting.disturbed {c : Claimed} {o : ExecutionOrderRow} {db db' : Database}
    (h : Resting c o db) (h' : Reviewed c.task.id db') : ¬Undisturbed c o db db' := by
  obtain ⟨⟨t, ht, -, hstarted⟩, -, -⟩ := h
  obtain ⟨t₁, ht₁, hst₁⟩ := h'
  intro hsame
  obtain ⟨t', ht', hst'⟩ := hsame.task t ht
  rw [ht₁] at ht'
  injection ht' with ht'
  rw [← hst', ← ht', hst₁] at hstarted
  cases hstarted

/-- The handler of a failed pass hands a task with a resting order to a human. -/
theorem Resting.afterFailure {c : Claimed} {o : ExecutionOrderRow} {s : World × PassScript}
    (h : Resting c o s.1.db) :
    Reviewed c.task.id ((MultiLeg.afterFailure workerId c).run (serve num) s).2.1.db := by
  have huncertain : (s.1.db.ordersOfRun c.run.id).any fun x => x.status.isUncertain := by
    obtain ⟨-, -, o', ho', hrun, hst⟩ := h
    refine List.any_eq_true.mpr ⟨o', mem_ordersOfRun.mpr ⟨(Table.find?_some ho').1, hrun⟩, ?_⟩
    rcases hst with hs | hs <;> rw [hs] <;> rfl
  unfold MultiLeg.afterFailure
  rw [Prog.run_bind]
  obtain ⟨db₁, hc₁, hkeep⟩ := run_perform num (.ordersForRun c.run.id) s
  generalize (perform (.ordersForRun c.run.id)).run (serve num) s = out at hc₁ hkeep ⊢
  obtain ⟨r, s₁⟩ := out
  cases hc₁
  have h₁ : Resting c o s₁.1.db := hkeep _ (Resting.stable c o) h
  dsimp only
  rw [if_neg fun hcond => hcond.2.2 huncertain, Prog.run_bind]
  have hreview : decide (c.task.status = .compensating
      ∨ ((s.1.db.ordersOfRun c.run.id).any fun x => x.purpose = .primary ∧ 0 < x.filledQuantity) = true
      ∨ ((s.1.db.ordersOfRun c.run.id).any fun x => x.status.isUncertain) = true) = true :=
    decide_eq_true (.inr (.inr huncertain))
  rw [hreview]
  obtain ⟨db₂, hc₂, hkeep₂⟩ :=
    run_perform num (.failRun c.task.id c.run.id "multi_leg_execution_failed" workerId true) s₁
  -- The task and its run are there, so the transaction commits.
  have hreviewed : Reviewed c.task.id db₂ := by
    rcases commit_cases hc₂ with ⟨u, -, hok⟩ | ⟨e, -, herr, -⟩
    · obtain ⟨⟨task, hmoves⟩, -⟩ := failExecutionTaskRun_ok hok
      exact hmoves.find
    · obtain ⟨⟨t, ht, -⟩, ⟨r, hr, hrtask, -⟩, -⟩ := h₁
      have hpair : s₁.1.db.taskAndRun c.task.id c.run.id "execution task or run was not found"
          = .ok (t, r) := by
        simp only [taskAndRun, found_bind_eq_ok, raiseIf_bind_eq_ok]
        exact ⟨t, ht, r, hr, not_not.mpr hrtask, rfl⟩
      simp only [DbOp.tx, failExecutionTaskRun, hpair] at herr
      cases herr
  have hdb := hkeep₂ _ (Reviewed.stable c.task.id) hreviewed
  generalize (perform (.failRun c.task.id c.run.id "multi_leg_execution_failed" workerId true)).run
    (serve num) s₁ = out at hdb ⊢
  obtain ⟨r, s₂⟩ := out
  cases r <;> exact hdb

/-! ## §5. The order's part of the pass. -/

/-- What storing a batch compares of the trades that are there. -/
def comparedOf (f : ExecutionFillRow) : (Nat × String) × ℚ × ℚ × ℚ × String :=
  ((f.executionOrderId, f.exchangeTradeId), f.quantity, f.price, f.feeAmount, f.feeAsset)

theorem find?_comparedOf (fills : List ExecutionFillRow) (orderId : Nat) (tradeId : String) :
    (fills.find? fun f => f.executionOrderId = orderId ∧ f.exchangeTradeId = tradeId).map comparedOf
      = (fills.map comparedOf).find? fun q => q.1.1 = orderId ∧ q.1.2 = tradeId := by
  rw [List.find?_map]
  rfl

/-- Storing a fill depends on what fills are compared by, and so does what it
leaves. -/
theorem persistFill_congr {orderId : Nat} {item : FillItem} {db₁ db₂ db₁' : Database}
    (h : db₁.fills.map comparedOf = db₂.fills.map comparedOf)
    (hok : db₁.persistFill orderId item = .ok db₁') :
    ∃ db₂', db₂.persistFill orderId item = .ok db₂'
      ∧ db₁'.fills.map comparedOf = db₂'.fills.map comparedOf := by
  have hfound := find?_comparedOf db₁.fills orderId item.exchangeTradeId
  rw [h, ← find?_comparedOf db₂.fills] at hfound
  unfold persistFill at hok ⊢
  -- The two stores find the same trade, or neither finds one.
  generalize (db₁.fills.find? fun f =>
    f.executionOrderId = orderId ∧ f.exchangeTradeId = item.exchangeTradeId) = x at hok hfound
  generalize (db₂.fills.find? fun f =>
    f.executionOrderId = orderId ∧ f.exchangeTradeId = item.exchangeTradeId) = y at hfound ⊢
  cases x with
  -- A trade that is known: it has to agree, and nothing is stored.
  | some f =>
      cases y with
      | none => cases hfound
      | some g =>
          injection hfound with hfound
          obtain ⟨-, hq⟩ := Prod.mk.inj hfound
          obtain ⟨hquantity, hq⟩ := Prod.mk.inj hq
          obtain ⟨hprice, hq⟩ := Prod.mk.inj hq
          obtain ⟨hfee, hasset⟩ := Prod.mk.inj hq
          obtain ⟨hsame, hok⟩ := raiseIf_bind_eq_ok.mp hok
          injection hok with hok
          rw [hquantity, hprice, hfee, hasset] at hsame
          exact ⟨db₂, raiseIf_bind_eq_ok.mpr ⟨hsame, rfl⟩, hok ▸ h⟩
  -- A new trade: it is appended in both.
  | none =>
      cases y with
      | some g => cases hfound
      | none =>
          dsimp only at hok ⊢
          split at hok
          · next hq =>
              rw [dif_pos hq]
              injection hok with hok
              refine ⟨_, rfl, ?_⟩
              rw [← hok, List.map_append, List.map_append, h]
              rfl
          · cases hok

/-- Whether a batch is taken is a matter of the trades that are there. -/
theorem persistFills_congr {orderId : Nat} :
    ∀ {items : List FillItem} {db₁ db₂ db₁' : Database},
      db₁.fills.map comparedOf = db₂.fills.map comparedOf →
      db₁.persistFills orderId items = .ok db₁' → ∃ db₂', db₂.persistFills orderId items = .ok db₂'
  | [], _, db₂, _, _, _ => ⟨db₂, rfl⟩
  | item :: rest, db₁, db₂, db₁', h, hok => by
      obtain ⟨first, hfirst, hok⟩ := bind_eq_ok.mp hok
      obtain ⟨first', hfirst', h⟩ := persistFill_congr h hfirst
      obtain ⟨db₂', hrest⟩ := persistFills_congr h hok
      exact ⟨db₂', bind_eq_ok.mpr ⟨first', hfirst', hrest⟩⟩

section Order

variable {sc : PassScript} {c : Claimed} {leg : ExecutionTaskLegRow} {o : ExecutionOrderRow}
  {client : Client} {remote : RemoteOrder} {batch : RemoteFillBatch} {db₀ db : Database}

/-- The observation is recorded, and the order rests. -/
theorem AnsweredOpen.observed (h : AnsweredOpen sc c leg o client remote batch db₀)
    (hst : o.status = .acknowledged ∨ o.status = .partiallyFilled) (hrest : Resting c o db)
    (hfrozen : Frozen c db₀ db) (hrow : Table.find? db₀.orders o.id = some o) (amb : Ambient) :
    ∃ row db', applyExecutionOrderObservation (remoteObservation o remote batch) amb db
        = .ok (row, db')
      ∧ Resting c o db' ∧ SameOrder o row ∧ row.filledQuantity = batch.total
      ∧ (row.status = .acknowledged ∨ row.status = .partiallyFilled) := by
  have hstatus : (remoteObservation o remote batch).status
      = remoteStatus remote.status batch.total o.quantity := by
    refine if_neg fun hpending => ?_
    rcases hst with hs | hs <;> rw [hs] at hpending <;> cases hpending.1
  have hopen := h.still_open
  rw [← hstatus] at hopen
  -- More fills than were asked for would make the order `filled`.
  have hbelow : batch.total ≤ o.quantity := by
    by_contra hover
    have hfull : remoteStatus remote.status batch.total o.quantity = .filled :=
      if_pos (not_le.mp hover).le
    rw [hstatus, hfull] at hopen
    rcases hopen with hs | hs <;> cases hs
  have hfound : Table.find? db.orders o.id = some o := by
    rw [hfrozen.orders]
    exact hrow
  obtain ⟨db₁, h₁⟩ := h.recorded
  obtain ⟨db₂, h₂⟩ := persistFills_congr (congrArg _ hfrozen.fills.symm) h₁
  -- None of the checks of the observation raises.
  have hok : ∃ p, applyExecutionOrderObservation (remoteObservation o remote batch) amb db
      = .ok p := by
    have hsupported : ¬((remoteObservation o remote batch).status = .created
        ∨ (remoteObservation o remote batch).status = .submitted) := by
      rintro (hs | hs) <;> rw [hs] at hopen <;> rcases hopen with h | h <;> cases h
    have hraise : raiseIf ((remoteObservation o remote batch).status = .created
        ∨ (remoteObservation o remote batch).status = .submitted)
          (Exc.value "unsupported execution order status") = .ok () := if_neg hsupported
    have hrow : found (Table.find? db.orders (remoteObservation o remote batch).orderId)
        (Exc.value "execution order was not found") = .ok o := by
      show found (Table.find? db.orders o.id) _ = _
      rw [hfound]
      rfl
    have hforward : ¬(remoteObservation o remote batch).filledQuantity < o.filledQuantity :=
      not_lt.mpr h.forward
    have hwithin : ¬o.quantity < (remoteObservation o remote batch).filledQuantity :=
      not_lt.mpr hbelow
    have hfills : db.persistFills (remoteObservation o remote batch).orderId
        (remoteObservation o remote batch).fills = .ok db₂ := h₂
    unfold applyExecutionOrderObservation
    dsimp only [bind, Except.bind]
    rw [hraise]
    dsimp only
    rw [hrow]
    dsimp only
    rw [dif_neg hforward, dif_neg hwithin, hfills]
    exact ⟨_, rfl⟩
  obtain ⟨⟨row, db'⟩, hok⟩ := hok
  obtain ⟨old, fills, n, hold, -, -, -, -, hsame, -, hs, hfilled, -, hdb⟩ :=
    applyExecutionOrderObservation_ok hok
  obtain rfl : o = old := Option.some.inj (hfound.symm.trans hold)
  refine ⟨row, db', hok, ⟨?_, ?_, ?_⟩, hsame, hfilled, hs ▸ hopen⟩
  · rw [hdb]
    exact hrest.task
  · rw [hdb]
    exact hrest.run
  · obtain ⟨-, -, o', ho', hrun, -⟩ := hrest
    obtain rfl : o = o' := Option.some.inj (hfound.symm.trans ho')
    refine ⟨row, ?_, hsame.runId.trans hrun, hs ▸ hopen⟩
    rw [hdb, ← show key row = o.id from hsame.id]
    exact Table.find?_put_self ⟨o, (Table.find?_some hfound).1, hsame.id.symm⟩

/-- The pass over an order at rest whose book level cannot be quoted: only a
missing order book goes no further. -/
theorem AnsweredOpen.run_progressOrder (h : AnsweredOpen sc c leg o client remote batch db₀)
    (hmaker : o.orderMode = .maker)
    (hst : o.status = .acknowledged ∨ o.status = .partiallyFilled)
    (hrow : Table.find? db₀.orders o.id = some o) {e : Exc}
    (hquote : ((quoteOrder leg ((o.quantity - batch.total) * o.baseMultiplier) .maker
      c.task.environment leg.side).run (Script.hear reply) (sc.drop 6)).1 = .error e)
    {s : World × PassScript} (hs : s.2 = sc) (hrest : Resting c o s.1.db)
    (hfrozen : Frozen c db₀ s.1.db) :
    ∃ s', (progressOrder c.task leg o).run (serve num) s
        = (if e.kind = .orderBookUnavailable then .ok () else .error e, s')
      ∧ Resting c o s'.1.db := by
  have hpending : o.status ≠ .cancelPending := by
    rcases hst with hs | hs <;> rw [hs] <;> decide
  -- The answers in the order they are read: client, lookup, fills.
  obtain ⟨s₁, h₁⟩ := h.reads_openClient num hs
  obtain ⟨s₂, h₂⟩ := Reads.ask num
    (.orderByClientId client leg.marketType.market leg.symbol o.clientOrderId) h₁.script
  obtain ⟨s₃, h₃⟩ := Reads.ask num (.fillsForOrder client ⟨leg.marketType.market, leg.symbol,
    some remote.exchangeOrderId, o.clientOrderId⟩ o.createdAt) h₂.script
  rw [h.lookup] at h₂
  rw [h.fills] at h₃
  have hkeep : ∀ A : Database → Prop, DbStable A → A s.1.db → A s₃.1.db :=
    fun A hA hs => h₃.keeps A hA (h₂.keeps A hA (h₁.keeps A hA hs))
  obtain ⟨row, db', hok, hrest', hsame, hfilled, hopen⟩ := h.observed hst
    (hkeep _ (Resting.stable c o) hrest) (hkeep _ (Frozen.stable c db₀) hfrozen) hrow s₃.1.ambient
  have hobserve : ∃ s₄, (perform (.observe (remoteObservation o remote batch))).run (serve num) s₃
      = (.ok row, s₄) ∧ s₄.2 = sc.drop 6 ∧ Resting c o s₄.1.db := by
    obtain ⟨db₁, hc, hstay⟩ := run_perform num (.observe (remoteObservation o remote batch)) s₃
    have hcommit : commit (DbOp.tx num s₃.1.ambient (.observe (remoteObservation o remote batch)))
        s₃.1.db = (.ok row, db') := by
      unfold commit
      rw [show DbOp.tx num s₃.1.ambient (.observe (remoteObservation o remote batch)) s₃.1.db
        = .ok (row, db') from hok]
    rw [hcommit] at hc
    obtain ⟨hrow, rfl⟩ := Prod.mk.inj hc
    refine ⟨_, Prod.ext hrow.symm rfl, ?_, hstay _ (Resting.stable c o) hrest'⟩
    show s₃.2.tail = _
    rw [h₃.script, Stream'.tail_drop']
  obtain ⟨s₄, h₄, hscript, hrest₄⟩ := hobserve
  -- After the observation comes the quote for a chase, which raises.
  obtain ⟨s₅, h₅⟩ := Reads.quote num
    (quoteOrder_yields leg ((o.quantity - batch.total) * o.baseMultiplier) .maker
      c.task.environment leg.side) hscript
  have hlater : ∃ n, ((quoteOrder leg ((o.quantity - batch.total) * o.baseMultiplier) .maker
      c.task.environment leg.side).run (Script.hear reply) (sc.drop 6)).2 = (sc.drop 6).drop n :=
    Script.run_hear_drop _ _
  obtain ⟨n, hn⟩ := hlater
  obtain ⟨s₆, h₆⟩ := Reads.ask num (.close client)
    ((h₅.script.trans hn).trans (Stream'.drop_drop n 6 sc))
  rw [hquote] at h₅
  rw [h.closed] at h₆
  -- The steps put together; only a missing book is swallowed.
  have hlookup : (lookupOrder client c.task leg o).run (serve num) s₁
      = (if e.kind = .orderBookUnavailable then .ok () else .error e, s₅) := by
    unfold lookupOrder
    rw [Prog.run_bind, h₂.run]
    dsimp only
    rw [if_neg (by simp)]
    unfold orderFound
    rw [Prog.run_bind, h₃.run]
    dsimp only
    rw [if_neg (by simpa using h.complete), Prog.run_bind, h₄]
    dsimp only
    rw [if_pos ⟨hsame.orderMode.trans hmaker, hopen, hpending⟩]
    unfold chaseMaker
    rw [hsame.quantity, hfilled, hsame.baseMultiplier, Prog.run_bind, Prog.run_resume, h₅.run]
    dsimp only
    by_cases hkind : e.kind = .orderBookUnavailable
    · rw [if_pos hkind, if_pos hkind]
      rfl
    · rw [if_neg hkind, if_neg hkind]
      rfl
  refine ⟨s₆, ?_, ?_⟩
  · unfold progressOrder
    rw [Prog.run_bind, h₁.run]
    dsimp only
    unfold Prog.finally'
    rw [Prog.run_resume, hlookup, Prog.run_resume, h₆.run]
    rfl
  · exact h₆.keeps _ (Resting.stable c o) (h₅.keeps _ (Resting.stable c o) hrest₄)

end Order

/-! ## §6. The result. -/

/-- The open order of a run is the one the pass takes up. -/
theorem find?_isActive {orders : List ExecutionOrderRow} {o : ExecutionOrderRow} (ho : o ∈ orders)
    (hactive : o.status.isActive)
    (hone : ∀ x ∈ orders, x.status.isTerminal = false → o = x) :
    orders.find? (fun o => o.status.isActive) = some o := by
  cases hfind : orders.find? (fun o => o.status.isActive) with
  | none => exact absurd hactive (List.find?_eq_none.mp hfind o ho)
  | some x =>
      have hx := List.find?_some hfind
      rw [OrderStatus.isActive_eq_not_isTerminal] at hx
      rw [hone x (List.mem_of_find?_eq_some hfind) (by simpa using hx)]

/-- The leg of an order is the one the pass finds. -/
theorem find?_leg {legs : List ExecutionTaskLegRow} {leg : ExecutionTaskLegRow} {id : Nat}
    (hleg : leg ∈ legs) (hid : leg.id = id) (hone : ∀ l ∈ legs, l.id = leg.id → l = leg) :
    legs.find? (fun l => l.id = id) = some leg := by
  cases hfind : legs.find? (fun l => l.id = id) with
  | none => exact absurd (decide_eq_true hid) (List.find?_eq_none.mp hfind leg hleg)
  | some l =>
      have hl : l.id = id := by simpa using List.find?_some hfind
      rw [hone l (List.mem_of_find?_eq_some hfind) (hl.trans hid.symm)]

/-- The handler disturbs a resting order with every exception it takes for a
failure. -/
theorem Resting.handled {c : Claimed} {o : ExecutionOrderRow} {db₀ : Database} {e : Exc}
    {s : World × PassScript} (h₀ : Resting c o db₀) (h : Resting c o s.1.db) :
    Undisturbed c o db₀ (((if isHandled e then MultiLeg.afterFailure workerId c else throw e :
        Worker PassResult).run (serve num) s).2.1.db)
      ↔ isHandled e = false := by
  by_cases he : isHandled e = true
  · rw [if_pos he]
    refine iff_of_false (h₀.disturbed h.afterFailure) ?_
    rw [he]
    decide
  · rw [if_neg he]
    exact iff_of_true (h₀.undisturbed h) (Bool.eq_false_iff.mpr he)

/-- A step resolves the legs first, unless the task is compensating: this is
where a missing market raises before the order is looked at. -/
theorem progress_eq (num : Numeric) (workerId : String) (c : Claimed) :
    progress num workerId c = (if c.task.status = .compensating then pure c.legs
      else resolveLegs num c.task c.legs) >>= progressResolved workerId c := by
  unfold progress
  split <;> rfl

/-- The pass from its claim on, at what the claim left. -/
theorem undisturbed_iff_of_claim {sc : PassScript} {c : Claimed} {leg : ExecutionTaskLegRow}
    {o : ExecutionOrderRow} {client : Client} {remote : RemoteOrder} {batch : RemoteFillBatch}
    {db₀ : Database} (h : AnsweredOpen (orderScript sc c) c leg o client remote batch db₀)
    (hmaker : o.orderMode = .maker)
    (hst : o.status = .acknowledged ∨ o.status = .partiallyFilled)
    (hstored : ∀ l ∈ c.legs, ∃ t, l.resolvedBaseQuantity = some t)
    (hactive : c.orders.find? (fun o => o.status.isActive) = some o)
    (hleg : c.legs.find? (fun l => l.id = o.taskLegId) = some leg)
    (hrow : Table.find? db₀.orders o.id = some o) (hrest₀ : Resting c o db₀) {e : Exc}
    (he : Raises num sc c leg o batch e) {s : World × PassScript} (hs : s.2 = sc.tail)
    (hrest : Resting c o s.1.db) (hfrozen : Frozen c db₀ s.1.db) :
    Undisturbed c o db₀ (((progress num workerId c).resume fun
        | .ok () => afterProgress c
        | .error e => if isHandled e then MultiLeg.afterFailure workerId c else throw e :
          Worker PassResult).run (serve num) s).2.1.db
      ↔ BookMissing num sc c leg o batch ∨ isHandled e = false := by
  rw [Prog.run_resume, progress_eq, Prog.run_bind]
  rcases he with ⟨hne, hmarkets⟩ | ⟨hpass, hquote⟩
  · -- The markets of the legs raise, before the order is looked at.
    obtain ⟨s₁, h₁⟩ := Reads.quote num (resolveMarkets_stored c.task.quantityMode c.legs) hs
    have herror : ((resolveMarkets c.task.quantityMode c.legs).run (Script.hear reply) sc.tail).1
        = .error e := hmarkets
    rw [herror] at h₁
    have hlegs : (if c.task.status = .compensating then pure c.legs
        else resolveLegs num c.task c.legs : Worker _).run (serve num) s = (.error e, s₁) := by
      rw [if_neg hne]
      unfold resolveLegs
      rw [Prog.run_bind, h₁.run]
    rw [hlegs]
    have hbook : ¬BookMissing num sc c leg o batch := by
      rintro ⟨hcomp | ⟨ms, hms, -⟩, -⟩
      · exact hne hcomp
      · rw [hmarkets] at hms
        cases hms
    rw [or_iff_right hbook]
    exact hrest₀.handled (h₁.keeps _ (Resting.stable c o) hrest)
  · -- The legs are as they were, and the pass turns to the order.
    have hlegs : ∃ s₁, (if c.task.status = .compensating then pure c.legs
          else resolveLegs num c.task c.legs : Worker _).run (serve num) s = (.ok c.legs, s₁)
        ∧ s₁.2 = orderScript sc c ∧ Resting c o s₁.1.db ∧ Frozen c db₀ s₁.1.db := by
      unfold orderScript
      by_cases hcomp : c.task.status = .compensating
      · rw [if_pos hcomp, if_pos hcomp]
        exact ⟨s, rfl, hs, hrest, hfrozen⟩
      · rw [if_neg hcomp, if_neg hcomp]
        obtain ⟨hkeep, hscript, hresolve⟩ := run_resolveLegs num hstored s
        rw [hs] at hscript hresolve
        rcases hresolve with ⟨-, hok⟩ | ⟨hnot, -⟩
        · exact ⟨_, Prod.ext hok rfl, hscript, hkeep _ (Resting.stable c o) hrest,
            hkeep _ (Frozen.stable c db₀) hfrozen⟩
        · exact absurd (hpass.resolve_left hcomp) hnot
    obtain ⟨s₁, hrun, hscript, hrest₁, hfrozen₁⟩ := hlegs
    rw [hrun]
    dsimp only
    have hprogress : progressResolved workerId c c.legs = progressOrder c.task leg o := by
      unfold progressResolved
      rw [hactive]
      dsimp only
      rw [hleg]
      rfl
    obtain ⟨s₂, h₂, hrest₂⟩ := h.run_progressOrder hmaker hst hrow hquote hscript hrest₁ hfrozen₁
    rw [hprogress, h₂]
    by_cases hkind : e.kind = .orderBookUnavailable
    · rw [if_pos hkind]
      refine iff_of_true (hrest₀.undisturbed ?_) (.inl ⟨hpass, e, hquote, hkind⟩)
      refine run_last (Resting.stable c o) hrest₂ (fun r db' hok => ?_) _
      cases hok
      exact hrest₂
    · rw [if_neg hkind]
      have hbook : ¬BookMissing num sc c leg o batch := by
        rintro ⟨-, e', he', hkind'⟩
        rw [hquote] at he'
        injection he' with he'
        exact hkind (he' ▸ hkind')
      rw [or_iff_right hbook]
      exact hrest₀.handled hrest₂

variable {allow : World → Label Op Rep Act → Prop}

theorem Reachable.allResolved {s : State} (hs : Reachable num workerId allow s) :
    AllResolved s.world.db := by
  refine allResolved_kept.reachable (fun w hw o ho => ?_) hs
  rw [hw.orders] at ho
  cases ho

/-- A maker order rests, the exchange answers completely and the order is open
still, but the market cannot be read.  The pass leaves the task, its run and the
order as they are exactly if nothing but the order book is missing, or what the
reading raises is not an exception that the worker handles. -/
theorem outage_weathered_iff {w : World} {p : Option (Worker PassResult)}
    (hs : Reachable num workerId allow ⟨w, p⟩) {c : Claimed} {db' : Database}
    (hclaim : claimLiveExecutionTask workerId w.ambient w.db = .ok (some c, db'))
    {o : ExecutionOrderRow} (ho : o ∈ c.orders) (hmaker : o.orderMode = .maker)
    (hst : o.status = .acknowledged ∨ o.status = .partiallyFilled) {leg : ExecutionTaskLegRow}
    (hleg : leg ∈ c.legs) (hid : leg.id = o.taskLegId) {client : Client} {remote : RemoteOrder}
    {batch : RemoteFillBatch} (sc : PassScript)
    (h : AnsweredOpen (orderScript sc c) c leg o client remote batch w.db) {e : Exc}
    (he : Raises num sc c leg o batch e) :
    Undisturbed c o w.db (passUnder num workerId sc w).db
      ↔ BookMissing num sc c leg o batch ∨ isHandled e = false := by
  have hwf : WellFormed w.db := hs.wellFormed
  have hfrozen : Frozen c w.db db' := Frozen.claim hwf hclaim
  obtain ⟨hrest, hrest₀⟩ := Resting.claim hwf hclaim ho hst
  have hlegs : ∀ l ∈ c.legs, l ∈ w.db.legs ∧ l.taskId = c.task.id := by
    intro l hl
    rw [← hfrozen.legs] at hl
    obtain ⟨hl, htask⟩ := mem_legsOfTask.mp hl
    have hok : DbOp.tx num w.ambient (.claim workerId) w.db = .ok (some c, db') := hclaim
    rcases DbOp.legs_tx hok with hsame | ⟨_, _, _, _, hop, -⟩
    · exact ⟨hsame ▸ hl, htask⟩
    · cases hop
  have hcurrent := hfrozen.current ▸ ho
  obtain ⟨hmem, horun⟩ := mem_ordersOfRun.mp hcurrent
  have hmem : o ∈ w.db.orders := hfrozen.orders ▸ hmem
  have hopen : o.status.isTerminal = false := by
    rcases hst with hs | hs <;> rw [hs] <;> rfl
  -- The order shows that the legs were resolved before.
  have hstored : ∀ l ∈ c.legs, ∃ t, l.resolvedBaseQuantity = some t := by
    intro l hl
    obtain ⟨hl, htask⟩ := hlegs l hl
    obtain ⟨r, hr, hrtask, -⟩ := hrest₀.run
    obtain ⟨hrmem, hrid⟩ := Table.find?_some hr
    have hof : OfTask w.db o l.taskId :=
      ⟨r, hrmem, (show r.id = c.run.id from hrid).trans horun.symm, hrtask.trans htask.symm⟩
    exact Option.ne_none_iff_exists'.mp (hs.allResolved o hmem l hl hof)
  -- It is the only open order of its run.
  have hactive : c.orders.find? (fun o => o.status.isActive) = some o := by
    refine find?_isActive ho (by rw [OrderStatus.isActive_eq_not_isTerminal, hopen]; rfl) ?_
    intro x hx hterminal
    rw [← hfrozen.current] at hx
    obtain ⟨hx, hxrun⟩ := mem_ordersOfRun.mp hx
    exact hs.hedged.one_open o hmem x (hfrozen.orders ▸ hx) (horun.trans hxrun.symm) hopen hterminal
  have hfind : c.legs.find? (fun l => l.id = o.taskLegId) = some leg :=
    find?_leg hleg hid fun l hl heq => hwf.legs_unique.eq (hlegs l hl).1 (hlegs leg hleg).1 heq
  have hrow : Table.find? w.db.orders o.id = some o :=
    (Table.find?_eq_some_iff hwf.orders_unique).mpr ⟨hmem, rfl⟩
  obtain ⟨s, hscript, hkeep, hpassed⟩ := passUnder_claimed hclaim sc
  rw [hpassed]
  exact undisturbed_iff_of_claim h hmaker hst hstored hactive hfind hrow hrest₀ he hscript
    (hkeep _ (Resting.stable c o) hrest) (hkeep _ (Frozen.stable c w.db) hfrozen)

/-! ## §7. Concrete runs. -/

namespace Sample

/-- The anchor as a maker order at the best price of its side. -/
def makerAnchor : ExecutionTaskLegRow :=
  { anchor with
    orderMode := .maker, makerBookLevel := some 1, makerMaximumChases := some 3
    maker_check := .inl ⟨rfl, ⟨1, rfl, by decide, by decide⟩, 3, rfl, by decide⟩ }

def makerPlan : TaskPlan :=
  { plan with
    legs := [makerAnchor, hedge]
    leg_count := ⟨by decide, by decide⟩
    one_anchor := by decide }

def makerQueued : World :=
  Act.apply (.queue 0 2)
    (Act.apply (.preflightReady 0 1 100) (Act.apply (.createTask makerPlan) empty))

/-- The maker order is created and submitted, and is found open. -/
def resting : World :=
  pass (known "a" "new" 0 0) (pass (absent "a") (pass (absent "a") makerQueued))

/-- The order of the sample rests at the exchange. -/
theorem reached_resting : Reached System.anyStep ⟨resting, none⟩ := by
  have h₀ : RunsTo System.anyStep ⟨empty, none⟩ ⟨makerQueued, none⟩ :=
    ((runsTo_act _ trivial).trans (runsTo_act _ trivial)).trans (runsTo_act _ trivial)
  have h₁ : Reached System.anyStep ⟨pass (absent "a") (pass (absent "a") makerQueued), none⟩ :=
    System.Reach.run reached_empty ((h₀.trans
      (runsTo_pass _ anyStep_free (by decide +kernel))).trans
        (runsTo_pass _ anyStep_free (by decide +kernel)))
  exact System.Reach.run h₁ (runsTo_pass _ anyStep_free (by decide +kernel))

/-- The exchange knows the open order; the market answers as given. -/
def answering (quoted : Bool) (book : Except Exc OrderBookSnapshot) : Answers := fun o =>
  match o with
  | .fetchBook .. => book
  | o => outside { known "a" "new" 0 0 with quoted := quoted } o

/-- A pass in which nothing else happens. -/
def unmoved (quoted : Bool) (book : Except Exc OrderBookSnapshot) : PassScript :=
  Stream'.const ⟨answering quoted book, []⟩

def noBook : Except Exc OrderBookSnapshot :=
  .error (.ofKind .orderBookUnavailable "order-book payload is incomplete")

def openRemote : RemoteOrder := ⟨"1", some "bh-1", "spot", "BTCUSDT", "buy", "new", 100, 4, 0, false⟩

def client : Client := ⟨7, .binance, .sandbox⟩

theorem orderScript_unmoved (quoted : Bool) (book : Except Exc OrderBookSnapshot) (c : Claimed) :
    orderScript (unmoved quoted book) c = unmoved quoted book := by
  unfold orderScript
  split
  · rfl
  · have hlater : ∃ n, afterMarkets (unmoved quoted book).tail c
        = (unmoved quoted book).tail.drop n := Script.run_hear_drop _ _
    obtain ⟨n, hn⟩ := hlater
    exact hn

theorem answeredOpen {c : Claimed} {leg : ExecutionTaskLegRow} {o : ExecutionOrderRow}
    {db : Database} (quoted : Bool) (book : Except Exc OrderBookSnapshot)
    (haccount : leg.accountId = some 7) (hexchange : leg.exchange = .binance)
    (hclaimed : c.task.environment = .sandbox) (hfilled : o.filledQuantity = 0) :
    AnsweredOpen (orderScript (unmoved quoted book) c) c leg o client openRemote ⟨[], true, none⟩
      db := by
  rw [orderScript_unmoved]
  refine ⟨haccount, ⟨hexchange.symm, hclaimed.symm⟩, rfl, rfl, rfl, rfl, rfl, rfl, .inl ?_,
    hfilled.le, ⟨db, rfl⟩, fun _ => rfl⟩
  show remoteStatus "new" 0 o.quantity = _
  unfold remoteStatus
  rw [if_neg (not_le.mpr o.quantity_check.1)]
  decide

/-- What the sample pass takes up. -/
theorem exists_resting :
    ∃ c ∈ claimed resting, ∃ o ∈ c.orders, o.orderMode = .maker ∧ o.status = .acknowledged
      ∧ o.filledQuantity = 0 ∧ c.task.environment = .sandbox ∧ c.task.status ≠ .compensating
      ∧ ∃ leg ∈ c.legs, leg.id = o.taskLegId ∧ leg.accountId = some 7 ∧ leg.exchange = .binance
        ∧ (∃ ms ∈ (heardMarkets (unmoved true noBook).tail c).toOption,
            (∃ q ∈ (anchorQuantity ms).toOption, ∀ m ∈ ms,
              m.1.signedBaseRatio = some (numeric.divide (sign m.1.side * m.2.baseQuantity) q))
            ∧ (checkExposure c.task ms).toOption.isSome)
        ∧ raised (heardQuote (unmoved true noBook) c leg o ⟨[], true, none⟩)
            = some (.ofKind .orderBookUnavailable "order-book payload is incomplete")
        ∧ raised (heardMarkets (unmoved false noBook).tail c)
            = some (.value "healthy live quote is unavailable")
        ∧ HasStatus c.task.id .manualReview (passUnder numeric "worker" (unmoved false noBook) resting).db := by
  decide +kernel

end Sample

/-- Without an order book the order goes on resting. -/
theorem outage_weathered_bookless :
    ∃ w c db' o leg sc e, Sample.Reached System.anyStep ⟨w, none⟩
      ∧ claimLiveExecutionTask "worker" w.ambient w.db = .ok (some c, db') ∧ o ∈ c.orders
      ∧ o.orderMode = .maker ∧ leg ∈ c.legs ∧ leg.id = o.taskLegId
      ∧ AnsweredOpen (orderScript sc c) c leg o Sample.client Sample.openRemote ⟨[], true, none⟩ w.db
      ∧ Raises Sample.numeric sc c leg o ⟨[], true, none⟩ e
      ∧ BookMissing Sample.numeric sc c leg o ⟨[], true, none⟩
      ∧ Undisturbed c o w.db (passUnder Sample.numeric "worker" sc w).db := by
  obtain ⟨c, hc, o, ho, hmaker, hst, hfilled, henv, -, leg, hleg, hid, haccount, hexchange,
    ⟨ms, hms, ⟨q, hq, hratios⟩, hexposure⟩, hquote, -, -⟩ := Sample.exists_resting
  obtain ⟨db', hclaim⟩ := Sample.exists_claim hc
  obtain ⟨u, hu⟩ := Option.isSome_iff_exists.mp hexposure
  have hopen : AnsweredOpen (orderScript (Sample.unmoved true Sample.noBook) c) c leg o Sample.client
      Sample.openRemote ⟨[], true, none⟩ Sample.resting.db :=
    Sample.answeredOpen true Sample.noBook haccount hexchange henv hfilled
  have hpass : MarketsPass Sample.numeric (Sample.unmoved true Sample.noBook) c :=
    .inr ⟨ms, toOption_some.mp hms, ⟨q, toOption_some.mp hq, hratios⟩, toOption_some.mp hu⟩
  have hquote := Sample.raised_eq_some.mp hquote
  have hbook : BookMissing Sample.numeric (Sample.unmoved true Sample.noBook) c leg o
      ⟨[], true, none⟩ := ⟨hpass, _, hquote, rfl⟩
  exact ⟨_, c, db', o, leg, _, _, Sample.reached_resting, hclaim, ho, hmaker, hleg, hid, hopen,
    .inr ⟨hpass, hquote⟩, hbook,
    (outage_weathered_iff Sample.reached_resting hclaim ho hmaker (.inl hst) hleg hid _ hopen
      (.inr ⟨hpass, hquote⟩)).mpr (.inl hbook)⟩

/-- One missing opportunity: the task of an order that rests at the exchange is
handed to a human. -/
theorem outage_reviewed :
    ¬∀ w c db' o leg client remote batch sc e, Sample.Reached System.anyStep ⟨w, none⟩ →
      claimLiveExecutionTask "worker" w.ambient w.db = .ok (some c, db') → o ∈ c.orders →
        o.orderMode = .maker → (o.status = .acknowledged ∨ o.status = .partiallyFilled) →
          leg ∈ c.legs → leg.id = o.taskLegId →
            AnsweredOpen (orderScript sc c) c leg o client remote batch w.db →
              Raises Sample.numeric sc c leg o batch e →
                Undisturbed c o w.db (passUnder Sample.numeric "worker" sc w).db := by
  intro h
  obtain ⟨c, hc, o, ho, hmaker, hst, hfilled, henv, hne, leg, hleg, hid, haccount, hexchange, -, -,
    hmarkets, hreviewed⟩ := Sample.exists_resting
  obtain ⟨db', hclaim⟩ := Sample.exists_claim hc
  obtain ⟨t, ht, hreview⟩ := hreviewed
  have hrest := (Resting.claim Sample.reached_resting.wellFormed hclaim ho (.inl hst)).2
  exact hrest.disturbed ⟨t, ht, hreview⟩
    (h _ c db' o leg _ _ _ _ _ Sample.reached_resting hclaim ho hmaker (.inl hst) hleg hid
      (Sample.answeredOpen false Sample.noBook haccount hexchange henv hfilled)
      (.inl ⟨hne, Sample.raised_eq_some.mp hmarkets⟩))

end BasisHawk.MultiLeg
