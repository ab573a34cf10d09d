/-
  BasisHawk.MultiLeg.Completion
  ─────────────────────────────
  What becomes of a task whose legs have all reached their targets.

  The pass that is to complete it reads the markets of its legs once more and
  values the fees of every recorded trade.  An exception on the way falls into
  the handler for failed passes, which unwinds the task.

  Main results:
    • `reached_completes_iff` — the pass completes the task exactly if the
      markets still stand and every trade can be booked,
    • `reached_unwound` — a fee in a third asset unwinds a hedged task.
-/
import BasisHawk.Lib.Script
import BasisHawk.MultiLeg.GuardedPass

namespace BasisHawk.MultiLeg

open Domain Lib Accounts Database

variable {num : Numeric} {workerId : String}

/-! ## §1. A pass under a script. -/

/-- What the outside world answers. -/
abbrev Answers : Type := (o : OutOp) → Except Exc o.Answer

instance : Inhabited Answers := ⟨fun _ => .error (.ofKind .privateRequest "request failed")⟩

/-- What one pass hears, and what the other actors do in the meantime. -/
abbrev PassScript : Type := Script Answers Act

/-- The operations of a pass under a script. -/
abbrev serve (num : Numeric) : (o : Op) → World × PassScript → Rep o × (World × PassScript) :=
  Script.serve (answer num) Act.apply

/-- The world one pass leaves. -/
def passUnder (num : Numeric) (workerId : String) (sc : PassScript) (w : World) : World :=
  ((runOnce num workerId).run (serve num) (w, sc)).2.1

/-- The answers alone. -/
def reply (a : Answers) : (o : Op) → Rep o
  | .db _ => .error (.ofKind .runtime "no transaction is expected here")
  | .out o => a o

/-- Every pass that comes to its end is the pass under some script. -/
theorem exists_passUnder {w w' : World} {r : Except Exc PassResult}
    (h : (system num).Run (runOnce num workerId) Script.Within ⟨w, some (runOnce num workerId)⟩
      ⟨w', some (.done r)⟩) :
    ∃ w₀ sc, (system num).Drift w w₀ ∧ passUnder num workerId sc w₀ = w' := by
  classical
  have hanswer : ∀ o w r w', (system num).exec o w r w' → ∃ a, answer num a o w = (r, w') := by
    intro o w r w' he
    cases o with
    | db o =>
        obtain ⟨db', hc, rfl⟩ := he
        refine ⟨default, ?_⟩
        show ((commit _ _).1, _) = _
        rw [hc]
    | out o =>
        let a : Answers := @Function.update _ (fun o => Except Exc o.Answer) _ default o r
        have ha : a o = r := @Function.update_self _ (fun o => Except Exc o.Answer) _ o r default
        refine ⟨a, ?_⟩
        rw [show w' = { w with pass := w.pass.heard o r } from he]
        show (a o, { w with pass := w.pass.heard o (a o) }) = _
        rw [ha]
  have henv : ∀ a w w', (system num).env a w w' → w' = Act.apply a w := fun _ _ _ ha => ha
  obtain ⟨w₀, sc, hd, -, hw⟩ := Script.exists_of_run hanswer henv h
  exact ⟨w₀, sc, hd, hw⟩

/-- A transaction under a script, and what the other actors leave of it. -/
theorem run_perform (num : Numeric) (o : DbOp) (s : World × PassScript) :
    ∃ db', commit (o.tx num s.1.ambient) s.1.db = (((perform o).run (serve num) s).1, db')
      ∧ ∀ A : Database → Prop, DbStable A → A db' →
          A ((perform o).run (serve num) s).2.1.db := by
  refine ⟨(commit (o.tx num s.1.ambient) s.1.db).2, rfl, fun A hA hdb => ?_⟩
  have henv : ∀ a w, A w.db → A (Act.apply a w).db := fun a w hw => hA a w hw
  exact Script.serve_stable henv hdb

/-- A last transaction that keeps an assertion. -/
theorem run_last {β : Type} {A : Database → Prop} (hA : DbStable A) {o : DbOp}
    {s : World × PassScript} (h : A s.1.db)
    (hok : ∀ r db', o.tx num s.1.ambient s.1.db = .ok (r, db') → A db') (f : o.Result → β) :
    A (((perform o >>= fun r => pure (f r) : Worker β).run (serve num) s).2.1.db) := by
  obtain ⟨db', hc, hkeep⟩ := run_perform num o s
  have hdb' : A db' := commit_preserves hok h hc
  rw [Prog.run_bind]
  generalize (perform o).run (serve num) s = out at hkeep ⊢
  obtain ⟨r, s'⟩ := out
  cases r <;> exact hkeep A hA hdb'

/-- A program that only reads market data. -/
theorem run_quote (num : Numeric) {α : Type} {m : Worker α} {P : α → Prop} (hm : m.Yields Op.isQuote P)
    (s : World × PassScript) :
    (m.run (serve num) s).1 = (m.run (Script.hear reply) s.2).1
      ∧ (∀ a, (m.run (serve num) s).1 = .ok a → P a)
      ∧ ∀ A : Database → Prop, DbStable A → A s.1.db → A (m.run (serve num) s).2.1.db := by
  refine ⟨Script.run_hear ?_ hm s, hm.run_fst s, fun A hA hs => ?_⟩
  · intro c o w ho
    cases o with
    | db o => cases ho
    | out o => rfl
  · have henv : ∀ a w, A w.db → A (Act.apply a w).db := fun a w hw => hA a w hw
    refine Script.run_stable henv ?_ hm s hs
    intro c o w ho hw
    cases o with
    | db o => cases ho
    | out o => exact hw

/-- It takes the answers one by one. -/
theorem run_quote_script (num : Numeric) {α : Type} {m : Worker α} {P : α → Prop}
    (hm : m.Yields Op.isQuote P) (s : World × PassScript) :
    (m.run (serve num) s).2.2 = (m.run (Script.hear reply) s.2).2 := by
  refine Script.run_hear_script ?_ hm s
  intro c o w ho
  cases o with
  | db o => cases ho
  | out o => rfl

/-- A pass that claims a task goes on with it: the claim has taken the first
answers of the script, and left what the other actors leave of its tables. -/
theorem passUnder_claimed {workerId : String} {w : World} {c : Claimed} {db' : Database}
    (hclaim : claimLiveExecutionTask workerId w.ambient w.db = .ok (some c, db')) (sc : PassScript) :
    ∃ s : World × PassScript, s.2 = sc.tail
      ∧ (∀ A : Database → Prop, DbStable A → A db' → A s.1.db)
      ∧ passUnder num workerId sc w = (((progress num workerId c).resume fun
          | .ok () => afterProgress c
          | .error e => if isHandled e then afterFailure workerId c else throw e :
            Worker PassResult).run (serve num) s).2.1 := by
  obtain ⟨db₁, hcommit, hkeep⟩ := run_perform num (.claim workerId) (w, sc)
  have hscript : ((perform (.claim workerId)).run (serve num) (w, sc)).2.2 = sc.tail := rfl
  unfold passUnder runOnce
  rw [Prog.run_bind]
  generalize (perform (.claim workerId)).run (serve num) (w, sc) = out at hcommit hkeep hscript ⊢
  obtain ⟨r, s⟩ := out
  have hr : commit (DbOp.tx num w.ambient (.claim workerId)) w.db = (.ok (some c), db') := by
    unfold commit
    rw [show DbOp.tx num w.ambient (.claim workerId) w.db = .ok (some c, db') from hclaim]
  rw [hr] at hcommit
  cases hcommit
  exact ⟨s, hscript, hkeep, rfl⟩

/-! ## §2. The condition. -/

/-- The claimed task is running or hedging, its orders have all ended, and what
each leg's primary orders have filled has reached its target. -/
structure TargetsReached (c : Claimed) : Prop where
  phase : c.task.status = .running ∨ c.task.status = .hedging
  ended : ∀ o ∈ c.orders, o.status.isTerminal
  reached : ∀ l ∈ c.legs, ∃ t, l.resolvedBaseQuantity = some t
    ∧ t ≤ filledBaseOf c.orders l.id .primary

/-- The markets of the legs, as the answers from `sc` on give them. -/
def heardMarkets (sc : PassScript) (c : Claimed) :
    Except Exc (List (ExecutionTaskLegRow × ResolvedLegMarket)) :=
  ((resolveMarkets c.task.quantityMode c.legs).run (Script.hear reply) sc).1

/-- The answers that are left when they have been read. -/
def afterMarkets (sc : PassScript) (c : Claimed) : PassScript :=
  ((resolveMarkets c.task.quantityMode c.legs).run (Script.hear reply) sc).2

/-- The markets agree with the stored ratios and stay within the limits of the
task. -/
def MarketsStand (num : Numeric) (task : ExecutionTaskRow)
    (markets : List (ExecutionTaskLegRow × ResolvedLegMarket)) : Prop :=
  (∃ q, anchorQuantity markets = .ok q ∧ ∀ m ∈ markets,
      m.1.signedBaseRatio = some (num.divide (sign m.1.side * m.2.baseQuantity) q))
    ∧ checkExposure task markets = .ok ()

/-- The fee of a trade can be valued in USDT. -/
def FeeValued (baseAsset : String) (fill : ExecutionFillRow) : Prop :=
  sameUpper fill.feeAsset "USDT" ∨ sameUpper fill.feeAsset "USD"
    ∨ sameUpper fill.feeAsset baseAsset

/-- The base quantity of the trades recorded for a leg. -/
def recordedBase (db : Database) (runId legId : Nat) : ℚ :=
  ((db.fillsOfLeg runId legId).map fun v => v.2.quantity * v.1.baseMultiplier).sum

/-- The trades recorded for a leg can be booked: they come to its target, and
every fee can be valued. -/
structure Bookable (db : Database) (baseAsset : String) (runId : Nat) (leg : ExecutionTaskLegRow) :
    Prop where
  full : (leg.resolvedBaseQuantity.filter (· ≠ 0)).getD leg.targetQuantity
    ≤ recordedBase db runId leg.id
  traded : recordedBase db runId leg.id ≠ 0
  valued : ∀ v ∈ db.fillsOfLeg runId leg.id, FeeValued baseAsset v.2

/-- Nothing stands in the way of completing the task. -/
def GoesThrough (num : Numeric) (sc : PassScript) (c : Claimed) (db : Database) : Prop :=
  (∃ markets, heardMarkets sc c = .ok markets ∧ MarketsStand num c.task markets)
    ∧ ∀ l ∈ c.legs, Bookable db c.task.baseAsset c.run.id l

/-- The fees of a leg can be summed up exactly if every fill pays in an asset
that can be valued. -/
theorem feesUsdt_ok_iff (baseAsset : String) :
    ∀ fills : List ExecutionFillRow, (∃ fee, feesUsdt baseAsset fills = .ok fee)
      ↔ ∀ fill ∈ fills, FeeValued baseAsset fill
  | [] => ⟨fun _ _ h => (by cases h), fun _ => ⟨0, rfl⟩⟩
  | fill :: rest => by
      have ih := feesUsdt_ok_iff baseAsset rest
      have hfirst : (∃ fee, fillFeeUsdt baseAsset fill = .ok fee) ↔ FeeValued baseAsset fill := by
        unfold fillFeeUsdt FeeValued
        split
        · next h => exact ⟨fun _ => h.imp id .inl, fun _ => ⟨_, rfl⟩⟩
        · next h =>
            split
            · next hb => exact ⟨fun _ => .inr (.inr hb), fun _ => ⟨_, rfl⟩⟩
            · next hb =>
                refine ⟨fun ⟨fee, hfee⟩ => (by cases hfee), fun hv => ?_⟩
                rcases hv with hv | hv | hv
                · exact absurd (.inl hv) h
                · exact absurd (.inr hv) h
                · exact absurd hv hb
      rw [List.forall_mem_cons, ← hfirst, ← ih]
      constructor
      · rintro ⟨fee, hfee⟩
        obtain ⟨first, hf, hfee⟩ := bind_eq_ok.mp hfee
        obtain ⟨others, ho, -⟩ := bind_eq_ok.mp hfee
        exact ⟨⟨first, hf⟩, others, ho⟩
      · rintro ⟨⟨first, hf⟩, others, ho⟩
        exact ⟨first + others, bind_eq_ok.mpr ⟨first, hf, bind_eq_ok.mpr ⟨others, ho, rfl⟩⟩⟩

/-- A leg can be aggregated exactly if it is filled, has traded and every fee of
it can be valued. -/
theorem aggregateLeg_ok_iff (num : Numeric) (db : Database) (baseAsset : String) (runId : Nat)
    (leg : ExecutionTaskLegRow) :
    (∃ a, db.aggregateLeg num baseAsset runId leg = .ok a) ↔ Bookable db baseAsset runId leg := by
  have hfees : (∃ fee, feesUsdt baseAsset ((db.fillsOfLeg runId leg.id).map (·.2)) = .ok fee)
      ↔ ∀ v ∈ db.fillsOfLeg runId leg.id, FeeValued baseAsset v.2 := by
    rw [feesUsdt_ok_iff, List.forall_mem_map]
  constructor
  · rintro ⟨a, ha⟩
    simp only [aggregateLeg, raiseIf_bind_eq_ok] at ha
    obtain ⟨hfull, ha⟩ := ha
    obtain ⟨fee, hfee, ha⟩ := bind_eq_ok.mp ha
    simp only [raiseIf_bind_eq_ok] at ha
    exact ⟨not_lt.mp hfull, ha.1, hfees.mp ⟨fee, hfee⟩⟩
  · rintro ⟨hfull, htraded, hvalued⟩
    obtain ⟨fee, hfee⟩ := hfees.mpr hvalued
    refine ⟨⟨leg, recordedBase db runId leg.id, num.divide ((db.fillsOfLeg runId leg.id).map
      fun v => v.2.quantity * v.1.baseMultiplier * v.2.price).sum (recordedBase db runId leg.id),
      fee⟩, ?_⟩
    simp only [aggregateLeg, raiseIf_bind_eq_ok]
    refine ⟨not_lt.mpr hfull, bind_eq_ok.mpr ⟨fee, hfee, ?_⟩⟩
    simp only [raiseIf_bind_eq_ok]
    exact ⟨htraded, rfl⟩

/-- The legs of a task can be aggregated exactly if each of them can. -/
theorem aggregateLegs_ok_iff (num : Numeric) (db : Database) (baseAsset : String) (runId : Nat) :
    ∀ legs : List ExecutionTaskLegRow, (∃ as, db.aggregateLegs num baseAsset runId legs = .ok as)
      ↔ ∀ l ∈ legs, Bookable db baseAsset runId l
  | [] => ⟨fun _ _ h => (by cases h), fun _ => ⟨[], rfl⟩⟩
  | leg :: rest => by
      rw [List.forall_mem_cons, ← aggregateLeg_ok_iff num,
        ← aggregateLegs_ok_iff num db baseAsset runId rest]
      constructor
      · rintro ⟨as, has⟩
        obtain ⟨first, hf, has⟩ := bind_eq_ok.mp has
        obtain ⟨others, ho, -⟩ := bind_eq_ok.mp has
        exact ⟨⟨first, hf⟩, others, ho⟩
      · rintro ⟨⟨first, hf⟩, others, ho⟩
        exact ⟨first :: others, bind_eq_ok.mpr ⟨first, hf, bind_eq_ok.mpr ⟨others, ho, rfl⟩⟩⟩

/-- The aggregates speak of the orders and fills only. -/
theorem Bookable.congr {db db' : Database} (horders : db'.orders = db.orders)
    (hfills : db'.fills = db.fills) {baseAsset : String} {runId : Nat} {leg : ExecutionTaskLegRow} :
    Bookable db' baseAsset runId leg ↔ Bookable db baseAsset runId leg := by
  have heq : db'.fillsOfLeg runId leg.id = db.fillsOfLeg runId leg.id := by
    unfold fillsOfLeg
    rw [horders, hfills]
  constructor
  · rintro ⟨hfull, htraded, hvalued⟩
    unfold recordedBase at hfull htraded
    rw [heq] at hfull htraded hvalued
    exact ⟨hfull, htraded, hvalued⟩
  · rintro ⟨hfull, htraded, hvalued⟩
    unfold recordedBase at hfull htraded
    rw [← heq] at hfull htraded hvalued
    exact ⟨hfull, htraded, hvalued⟩

/-! ## §3. The tables during the pass. -/

/-- Until the pass decides, the tables say of the claimed task what they said
when it was claimed. -/
structure Frozen (c : Claimed) (db₀ db : Database) : Prop where
  task : Table.find? db.tasks c.task.id = some c.task
  started : c.task.status.isStarted
  run : ∃ r, Table.find? db.runs c.run.id = some r ∧ r.taskId = c.task.id
  legs : db.legsOfTask c.task.id = c.legs
  current : db.ordersOfRun c.run.id = c.orders
  orders : db.orders = db₀.orders
  fills : db.fills = db₀.fills
  below : c.task.id < db.nextId

theorem legsOfTask_append (db : Database) {legs : List ExecutionTaskLegRow} {taskId : Nat}
    (h : ∀ l ∈ legs, l.taskId ≠ taskId) :
    { db with legs := db.legs ++ legs }.legsOfTask taskId = db.legsOfTask taskId := by
  have hnew : legs.filter (fun l => l.taskId = taskId) = [] :=
    List.filter_eq_nil_iff.mpr fun l hl => by simpa using h l hl
  unfold legsOfTask
  rw [List.filter_append, hnew, List.append_nil]

/-- Nothing but the pass itself changes what it has claimed. -/
theorem Frozen.stable (c : Claimed) (db₀ : Database) : DbStable (Frozen c db₀) := by
  intro a w h
  refine a.rec_apply (P := fun w => Frozen c db₀ w.db) (fun _ => h) (fun _ _ => ?_) (fun plan => ?_)
    h ?_
  · exact ⟨h.task, h.started, h.run, h.legs, h.current, h.orders, h.fills, h.below⟩
  · -- A new task is numbered from the supply, and so are its legs.
    have hbelow : c.task.id < w.db.nextId := h.below
    refine ⟨Table.find?_append_of_some h.task, h.started, h.run, ?_, h.current, h.orders, h.fills,
      ?_⟩
    · refine (legsOfTask_append w.db fun l hl => ?_).trans h.legs
      obtain ⟨i, hi, rfl⟩ := List.mem_mapIdx.mp hl
      show w.db.nextId ≠ c.task.id
      omega
    · show c.task.id < w.db.nextId + 1 + _
      omega
  · rintro db' ⟨row, row', rfl, hrow, hid, hst, -⟩
    refine ⟨?_, h.started, h.run, h.legs, h.current, h.orders, h.fills, h.below⟩
    refine (Table.find?_put_of_ne fun heq => ?_).trans h.task
    have hfound := h.task
    rw [heq, show key row' = row.id from hid, hrow] at hfound
    injection hfound with hfound
    have hstarted := TaskStatus.not_unstarted_of_started h.started
    rw [← hfound] at hstarted
    rcases hst with hst | hst | hst <;> rw [hst] at hstarted <;> cases hstarted

/-- What a claim leaves in the tables. -/
theorem Frozen.claim {amb : Ambient} {db db' : Database} {c : Claimed} (hwf : WellFormed db)
    (hok : claimLiveExecutionTask workerId amb db = .ok (some c, db')) : Frozen c db db' := by
  have hcarries := claim_carries hwf hok
  rcases claimLiveExecutionTask_ok hok with ⟨hnone, -⟩ | ⟨row, hrow, hst, -, hdb, hclaimed⟩
  · cases hnone
  have hwf' : WellFormed db' := hdb ▸ hwf.claim hrow hst workerId amb
  injection hclaimed with hclaimed
  have hid : c.task.id = row.id := by
    rw [hclaimed]
    exact startTask_id row
  have hframe : (db.claimRun row.id workerId amb).2.orders = db.orders
      ∧ (db.claimRun row.id workerId amb).2.fills = db.fills := by
    rcases claimRun_cases amb db row.id workerId with
      ⟨-, -, -, -, -, -, heq⟩ | ⟨-, -, -, -, heq⟩ <;> rw [heq] <;> exact ⟨rfl, rfl⟩
  obtain ⟨htask, hstarted⟩ := claim_task hok
  refine ⟨htask, hstarted, hcarries.run, ?_, hcarries.orders, ?_, ?_, ?_⟩
  · rw [hid, hclaimed]
  · rw [hdb]
    exact hframe.1
  · rw [hdb]
    exact hframe.2
  · exact hwf'.tasks_below c.task (Table.find?_some htask).1

/-- The task has left no doubt that it was not settled. -/
def Unsettled (taskId : Nat) (db : Database) : Prop :=
  ∃ t, Table.find? db.tasks taskId = some t ∧ t.status.isUnstarted = false
    ∧ t.status ≠ .completed ∧ t.status ≠ .manualReview

/-- The task has ended, completed or handed to a human. -/
def Settled (taskId : Nat) (db : Database) : Prop :=
  ∃ t, Table.find? db.tasks taskId = some t ∧ (t.status = .completed ∨ t.status = .manualReview)

/-- Nor does anything else settle a task that is being worked on. -/
theorem Unsettled.stable (taskId : Nat) : DbStable (Unsettled taskId) := by
  rintro a w ⟨t, ht, hs, hrest⟩
  exact ⟨t, act_tasks_find a ht hs, hs, hrest⟩

/-- A task that has been settled stays settled. -/
theorem Settled.stable (taskId : Nat) : DbStable (Settled taskId) := by
  rintro a w ⟨t, ht, hst⟩
  refine ⟨t, act_tasks_find a ht ?_, hst⟩
  rcases hst with hst | hst <;> rw [hst] <;> rfl

theorem Unsettled.not_settled {taskId : Nat} {db : Database} (h : Unsettled taskId db) :
    ¬Settled taskId db := by
  obtain ⟨t, ht, -, hc, hm⟩ := h
  rintro ⟨t', ht', hst⟩
  rw [ht] at ht'
  injection ht' with ht'
  subst ht'
  exact hst.elim hc hm

theorem Frozen.unsettled {c : Claimed} {db₀ db : Database} (h : Frozen c db₀ db)
    (hphase : c.task.status = .running ∨ c.task.status = .hedging) : Unsettled c.task.id db := by
  refine ⟨c.task, h.task, TaskStatus.not_unstarted_of_started h.started, ?_⟩
  rcases hphase with hp | hp <;> rw [hp] <;> exact ⟨by decide, by decide⟩

/-- A task that has been moved has its new status. -/
theorem Database.MovesRun.find {taskId runId : Nat} {db db' : Database} {task : ExecutionTaskRow}
    {taskStatus : TaskStatus} {runStatus : RunStatus}
    (h : MovesRun taskId runId db db' task taskStatus runStatus) :
    ∃ t, Table.find? db'.tasks taskId = some t ∧ t.status = taskStatus := by
  obtain ⟨run, task', run', htasks, -, -, -, hid, hst, -⟩ := h.moved
  obtain ⟨hmem, hkey⟩ := Table.find?_some h.found_task
  refine ⟨task', ?_, hst⟩
  rw [htasks, ← show key task' = taskId from hid.trans hkey]
  exact Table.find?_put_self ⟨task, hmem, hid.symm⟩

/-! ## §4. The pass, part by part. -/

/-- A stored quantity takes the place of the one just read. -/
theorem resolveMarkets_stored (quantityMode : QuantityMode) :
    ∀ legs : List ExecutionTaskLegRow, (resolveMarkets quantityMode legs).Yields Op.isQuote
      fun ms => ms.map (·.1) = legs
        ∧ ∀ m ∈ ms, ∀ q, m.1.resolvedBaseQuantity = some q → m.2.baseQuantity = q
  | [] => .value ⟨rfl, fun _ h => by cases h⟩
  | leg :: rest => by
      refine (resolveLeg_yields leg quantityMode).bind fun market _ => ?_
      refine (resolveMarkets_stored quantityMode rest).bind fun others ⟨hlegs, hothers⟩ => ?_
      refine .value ⟨by rw [List.map_cons, hlegs], fun m hm q hq => ?_⟩
      rcases List.mem_cons.mp hm with rfl | hm
      · show leg.resolvedBaseQuantity.getD market.baseQuantity = q
        rw [show leg.resolvedBaseQuantity = some q from hq]
        rfl
      · exact hothers m hm q hq

/-- With everything stored, the second loop only compares. -/
theorem storeResolved_stored (num : Numeric) (anchor : ℚ) :
    ∀ ms : List (ExecutionTaskLegRow × ResolvedLegMarket),
      (∀ m ∈ ms, m.1.resolvedBaseQuantity = some m.2.baseQuantity) →
      ((∀ m ∈ ms, m.1.signedBaseRatio = some (num.divide (sign m.1.side * m.2.baseQuantity) anchor))
          ∧ storeResolved num anchor ms = .done (.ok (ms.map (·.1))))
        ∨ (¬(∀ m ∈ ms, m.1.signedBaseRatio
              = some (num.divide (sign m.1.side * m.2.baseQuantity) anchor))
          ∧ storeResolved num anchor ms
              = .done (.error (.value "resolved live task quantity changed")))
  | [], _ => .inl ⟨fun _ h => (by cases h), rfl⟩
  | (leg, market) :: rest, h => by
      obtain ⟨hfirst, hrest⟩ := List.forall_mem_cons.mp h
      rw [List.forall_mem_cons]
      unfold storeResolved
      rw [show leg.resolvedBaseQuantity = some market.baseQuantity from hfirst]
      dsimp only
      split
      · next hne =>
          refine .inr ⟨fun hall => ?_, rfl⟩
          exact hne.elim (fun hq => hq rfl) fun hr => hr hall.1
      · next heq =>
          have hratio := not_not.mp fun hr => heq (.inr hr)
          rcases storeResolved_stored num anchor rest hrest with ⟨hall, hdone⟩ | ⟨hnot, hdone⟩
          · rw [hdone]
            exact .inl ⟨⟨hratio, hall⟩, rfl⟩
          · rw [hdone]
            exact .inr ⟨fun hall => hnot hall.2, rfl⟩

/-- What `_resolve_legs` does with markets whose quantities are all stored: it
passes them exactly if they stand. -/
theorem compare_stored (num : Numeric) (task : ExecutionTaskRow)
    {ms : List (ExecutionTaskLegRow × ResolvedLegMarket)}
    (hall : ∀ m ∈ ms, m.1.resolvedBaseQuantity = some m.2.baseQuantity) {p : Worker _}
    (hp : p = do
      let anchor ← pyEval (anchorQuantity ms)
      let legs ← storeResolved num anchor ms
      pyEval (checkExposure task ms)
      return legs) :
    (MarketsStand num task ms ∧ p = .done (.ok (ms.map (·.1))))
      ∨ (¬MarketsStand num task ms ∧ ∃ e, p = .done (.error e)) := by
  subst hp
  unfold MarketsStand pyEval
  cases anchorQuantity ms with
  | error e => exact .inr ⟨fun ⟨⟨q, hq, _⟩, _⟩ => (by cases hq), e, rfl⟩
  | ok q =>
      rw [Prog.ok_bind]
      rcases storeResolved_stored num q ms hall with ⟨hratios, hdone⟩ | ⟨hnot, hdone⟩
      · rw [hdone, Prog.ok_bind]
        cases checkExposure task ms with
        | error e => exact .inr ⟨fun ⟨_, hok⟩ => (by cases hok), e, rfl⟩
        | ok _ => exact .inl ⟨⟨⟨q, rfl, hratios⟩, rfl⟩, rfl⟩
      · rw [hdone]
        refine .inr ⟨fun ⟨⟨q', hq', hratios⟩, _⟩ => hnot ?_, _, rfl⟩
        injection hq' with hq'
        rw [hq']
        exact hratios

/-- `_resolve_legs` on legs that are all resolved: it succeeds exactly if the
markets it hears stand, and writes nothing. -/
theorem run_resolveLegs (num : Numeric) {c : Claimed}
    (hstored : ∀ l ∈ c.legs, ∃ t, l.resolvedBaseQuantity = some t)
    (s : World × PassScript) :
    (∀ A : Database → Prop, DbStable A → A s.1.db →
        A ((resolveLegs num c.task c.legs).run (serve num) s).2.1.db)
      ∧ ((resolveLegs num c.task c.legs).run (serve num) s).2.2 = afterMarkets s.2 c
      ∧ (((∃ ms, heardMarkets s.2 c = .ok ms ∧ MarketsStand num c.task ms)
            ∧ ((resolveLegs num c.task c.legs).run (serve num) s).1 = .ok c.legs)
          ∨ (¬(∃ ms, heardMarkets s.2 c = .ok ms ∧ MarketsStand num c.task ms)
            ∧ ∃ e, ((resolveLegs num c.task c.legs).run (serve num) s).1 = .error e)) := by
  -- The questions about the markets are a script of their own.
  have hquote := run_quote num (resolveMarkets_stored c.task.quantityMode c.legs) s
  have hscript := run_quote_script num (resolveMarkets_stored c.task.quantityMode c.legs) s
  unfold resolveLegs
  rw [Prog.run_bind]
  generalize (resolveMarkets c.task.quantityMode c.legs).run (serve num) s = out
    at hquote hscript ⊢
  obtain ⟨r, s'⟩ := out
  have hscript : s'.2 = afterMarkets s.2 c := hscript
  obtain ⟨hheard, hyields, hkeep⟩ := hquote
  have hheard : heardMarkets s.2 c = r := hheard.symm
  -- A market that is not heard ends the pass with its exception.
  rcases r with e | ms
  · refine ⟨hkeep, hscript, .inr ⟨fun ⟨ms, hms, _⟩ => ?_, e, rfl⟩⟩
    rw [hms] at hheard
    cases hheard
  · -- Every leg has its quantity, so the source compares and writes nothing.
    have honly : ∀ ms', heardMarkets s.2 c = .ok ms' → ms' = ms := by
      intro ms' hms
      rw [hheard] at hms
      injection hms with hms
      exact hms.symm
    obtain ⟨hlegs, hvalues⟩ := hyields ms rfl
    have hall : ∀ m ∈ ms, m.1.resolvedBaseQuantity = some m.2.baseQuantity := by
      intro m hm
      obtain ⟨t, ht⟩ := hstored m.1 (hlegs ▸ List.mem_map_of_mem hm)
      rw [ht, hvalues m hm t ht]
    rcases compare_stored num c.task hall rfl with ⟨hstand, hdone⟩ | ⟨hnot, e, hdone⟩
    · dsimp only
      rw [hdone, ← hlegs]
      exact ⟨hkeep, hscript, .inl ⟨⟨ms, hheard, hstand⟩, rfl⟩⟩
    · dsimp only
      rw [hdone]
      exact ⟨hkeep, hscript, .inr ⟨fun ⟨ms', hms, hstand⟩ => hnot (honly ms' hms ▸ hstand), e, rfl⟩⟩

/-- A leg whose stored target is what it has filled. -/
abbrev Reached (filled : Nat → ℚ) (l : ExecutionTaskLegRow) : Prop :=
  ∃ t, l.resolvedBaseQuantity = some t ∧ t ≤ filled l.id

theorem target_stored {l : ExecutionTaskLegRow} {t : ℚ} (h : l.resolvedBaseQuantity = some t) :
    target l = .ok t := by
  unfold target found
  rw [h]

/-- No leg that has its whole target is short of anything. -/
theorem not_short {filled : Nat → ℚ} {legs : List ExecutionTaskLegRow}
    (h : ∀ l ∈ legs, Reached filled l) {leg : ExecutionTaskLegRow} {deficit : ℚ} :
    ¬Short filled legs leg deficit := by
  rintro ⟨hmem, hpos, t, ht, hle⟩
  obtain ⟨t', ht', hreached⟩ := h leg hmem
  rw [ht] at ht'
  injection ht' with ht'
  subst ht'
  linarith

/-- The hedge that is due can be computed where every leg has a target and the
anchor's target is not zero. -/
theorem nextHedge_total (task : ExecutionTaskRow) {filled : Nat → ℚ} {anchorTarget : ℚ}
    (anchorFilled : ℚ) (hanchor : anchorTarget ≠ 0) :
    ∀ {legs : List ExecutionTaskLegRow}, (∀ l ∈ legs, Reached filled l) →
        ∃ r, nextHedge task filled anchorTarget anchorFilled legs = .ok r
  | [], _ => ⟨none, rfl⟩
  | leg :: rest, h => by
      obtain ⟨⟨t, ht, -⟩, hrest⟩ := List.forall_mem_cons.mp h
      obtain ⟨r, hr⟩ := nextHedge_total task anchorFilled hanchor hrest
      have hraise : raiseIf (anchorTarget = 0) (Exc.ofKind .arithmetic "division by zero")
          = .ok () := if_neg hanchor
      unfold nextHedge
      rw [target_stored ht, hr]
      dsimp only [bind, Except.bind]
      rw [hraise]
      dsimp only
      split
      · split
        · exact ⟨_, rfl⟩
        · exact ⟨r, rfl⟩
      · split
        · exact ⟨_, rfl⟩
        · exact ⟨r, rfl⟩

/-- The leg that is short can be computed where every leg has a target. -/
theorem nextShort_total {filled : Nat → ℚ} :
    ∀ {legs : List ExecutionTaskLegRow}, (∀ l ∈ legs, Reached filled l) →
        ∃ r, nextShort filled legs = .ok r
  | [], _ => ⟨none, rfl⟩
  | leg :: rest, h => by
      obtain ⟨⟨t, ht, -⟩, hrest⟩ := List.forall_mem_cons.mp h
      obtain ⟨r, hr⟩ := nextShort_total hrest
      unfold nextShort
      rw [target_stored ht, hr]
      dsimp only [bind, Except.bind]
      split
      · exact ⟨_, rfl⟩
      · exact ⟨r, rfl⟩

/-- When every leg has its target, there is nothing left to order. -/
theorem nextDeficit_reached {task : ExecutionTaskRow} {legs : List ExecutionTaskLegRow}
    {orders : List ExecutionOrderRow}
    (h : ∀ l ∈ legs, Reached (fun id => filledBaseOf orders id .primary) l)
    {anchor : ExecutionTaskLegRow} (hanchor : anchorOf legs = .ok anchor)
    (hzero : anchor.resolvedBaseQuantity ≠ some 0) :
    nextDeficit task legs orders = .ok none := by
  have hhedges : ∀ l ∈ legs.filter (fun l => l.role = .hedge),
      Reached (fun id => filledBaseOf orders id .primary) l :=
    fun l hl => h l (List.mem_of_mem_filter hl)
  -- The search ends without an exception, as every quantity it divides by is there and not zero.
  have htotal : ∃ r, nextDeficit task legs orders = .ok r := by
    obtain ⟨t, ht, -⟩ := h anchor (anchorOf_mem hanchor)
    have hne : t ≠ 0 := fun h0 => hzero (h0 ▸ ht)
    obtain ⟨r, hr⟩ := nextHedge_total task (filledBaseOf orders anchor.id .primary) hne hhedges
    obtain ⟨r', hr'⟩ := nextShort_total hhedges
    unfold nextDeficit
    dsimp only [bind, Except.bind]
    rw [hanchor]
    dsimp only
    rw [target_stored ht]
    dsimp only
    rw [hr]
    cases r with
    | some p => exact ⟨_, rfl⟩
    | none =>
        dsimp only
        split
        · exact ⟨_, rfl⟩
        · rw [hr']
          cases r' <;> exact ⟨_, rfl⟩
  obtain ⟨r, hr⟩ := htotal
  cases r with
  -- A leg that is returned is short of its target, which no leg is.
  | none => exact hr
  | some p => exact absurd (nextDeficit_short hr).2 (not_short h)

/-- `complete_live_execution_task` on a task that the tables show as claimed:
it commits exactly if every leg can be booked. -/
theorem complete_frozen {c : Claimed} {db₀ db db' : Database} {amb : Ambient}
    {r : Except Exc Bool} (hphase : c.task.status = .running ∨ c.task.status = .hedging)
    (h : Frozen c db₀ db)
    (hc : commit (completeLiveExecutionTask num c.task.id c.run.id workerId amb) db = (r, db')) :
    ((∀ l ∈ c.legs, Bookable db₀ c.task.baseAsset c.run.id l) ∧ r = .ok true
        ∧ Settled c.task.id db')
      ∨ (¬(∀ l ∈ c.legs, Bookable db₀ c.task.baseAsset c.run.id l) ∧ (∃ e, r = .error e)
        ∧ db' = db) := by
  obtain ⟨run, hrun, hown⟩ := h.run
  have hpair : db.taskAndRun c.task.id c.run.id "live execution task or run was not found"
      = .ok (c.task, run) := by
    simp only [taskAndRun, found_bind_eq_ok, raiseIf_bind_eq_ok]
    exact ⟨c.task, h.task, run, hrun, not_not.mpr hown, rfl⟩
  -- Whether the aggregation succeeds depends on rows that have not changed since the claim.
  have hbook : (∃ as, db.aggregateLegs num c.task.baseAsset c.run.id (db.legsOfTask c.task.id) = .ok as)
      ↔ ∀ l ∈ c.legs, Bookable db₀ c.task.baseAsset c.run.id l := by
    rw [aggregateLegs_ok_iff, h.legs]
    exact forall₂_congr fun l _ => Bookable.congr h.orders h.fills
  have hne : c.task.status ≠ .completed := by
    rcases hphase with hp | hp <;> rw [hp] <;> decide
  have hactive : ¬(c.task.status ≠ .running ∧ c.task.status ≠ .hedging) :=
    fun hn => hphase.elim hn.1 hn.2
  rcases commit_cases hc with ⟨done, rfl, hok⟩ | ⟨e, rfl, herr, rfl⟩
  · left
    simp only [completeLiveExecutionTask, hpair] at hok
    obtain ⟨p, hp, hok⟩ := bind_eq_ok.mp hok
    cases hp
    rw [if_neg hne] at hok
    simp only [raiseIf_bind_eq_ok] at hok
    obtain ⟨as, has, hok⟩ := bind_eq_ok.mp hok.2
    injection hok with hok
    obtain ⟨rfl, rfl⟩ := Prod.mk.inj hok
    refine ⟨hbook.mp ⟨as, has⟩, rfl,
      { c.task with status := .completed, version := c.task.version + 1 }, ?_, .inl rfl⟩
    obtain ⟨hmem, -⟩ := Table.find?_some h.task
    have htables : (if c.task.createStrategy then db.openStrategy num c.task as amb else db).tasks
        = db.tasks := by
      split <;> rfl
    show Table.find? (Table.put (ite _ _ _ : Database).tasks _) _ = _
    rw [htables]
    exact Table.find?_put_self ⟨c.task, hmem, rfl⟩
  · -- An error can only come from the aggregation.
    right
    refine ⟨fun hall => ?_, ⟨e, rfl⟩, rfl⟩
    obtain ⟨as, has⟩ := hbook.mpr hall
    have hraise : raiseIf (c.task.status ≠ .running ∧ c.task.status ≠ .hedging)
        (Exc.value "live execution task is not active") = .ok () := if_neg hactive
    simp only [completeLiveExecutionTask, hpair] at herr
    dsimp only [bind, Except.bind] at herr
    rw [if_neg hne, hraise] at herr
    dsimp only at herr
    rw [has] at herr
    cases herr

/-- The handler of a failed pass leaves a task without undecided orders to be
unwound, or failed. -/
theorem afterFailure_unsettled {c : Claimed} (hc : TargetsReached c) {db₀ : Database}
    {s : World × PassScript} (h : Frozen c db₀ s.1.db) :
    Unsettled c.task.id ((afterFailure workerId c).run (serve num) s).2.1.db := by
  have hstable := Frozen.stable c db₀
  have hne : c.task.status ≠ .compensating := by
    rcases hc.phase with hp | hp <;> rw [hp] <;> decide
  unfold afterFailure
  rw [Prog.run_bind]
  obtain ⟨db₁, hc₁, hkeep⟩ := run_perform num (.ordersForRun c.run.id) s
  generalize (perform (.ordersForRun c.run.id)).run (serve num) s = out at hc₁ hkeep ⊢
  obtain ⟨r, s₁⟩ := out
  cases hc₁
  have h₁ : Frozen c db₀ s₁.1.db := hkeep _ hstable h
  dsimp only
  rw [h.current]
  have hcertain : ¬(c.orders.any fun o => o.status.isUncertain) := by
    intro hany
    obtain ⟨o, ho, hunc⟩ := List.any_eq_true.mp hany
    have hactive := (OrderStatus.isActive_iff o.status).mpr (.inl hunc)
    rw [OrderStatus.isActive_eq_not_isTerminal, hc.ended o ho] at hactive
    cases hactive
  have hun : Unsettled c.task.id s₁.1.db := h₁.unsettled hc.phase
  split
  · refine run_last (Unsettled.stable _) hun (fun r db' hok => ?_) _
    obtain ⟨⟨task, -, hmoves⟩, -⟩ := beginExecutionTaskCompensation_ok hok
    obtain ⟨t, ht, hst⟩ := hmoves.find
    refine ⟨t, ht, ?_⟩
    rw [hst]
    exact ⟨rfl, by decide, by decide⟩
  · next hcond =>
      -- Nothing was filled, so nothing is left to a human.
      refine run_last (Unsettled.stable _) hun (fun r db' hok => ?_) _
      obtain ⟨⟨task, hmoves⟩, -⟩ := failExecutionTaskRun_ok hok
      obtain ⟨t, ht, hst⟩ := hmoves.find
      have hreview : decide (c.task.status = .compensating
          ∨ (c.orders.any fun o => o.purpose = .primary ∧ 0 < o.filledQuantity) = true
          ∨ (c.orders.any fun o => o.status.isUncertain) = true) = false := by
        rw [decide_eq_false_iff_not]
        rintro (hcomp | hexposed | hunc)
        · exact hne hcomp
        · exact hcond ⟨hne, hexposed, hcertain⟩
        · exact hcertain hunc
      refine ⟨t, ht, ?_⟩
      rw [hst, hreview]
      exact ⟨rfl, by decide, by decide⟩

/-- Markets that stand have an anchor to trade. -/
theorem anchorOf_of_stand {ms : List (ExecutionTaskLegRow × ResolvedLegMarket)}
    (hall : ∀ m ∈ ms, m.1.resolvedBaseQuantity = some m.2.baseQuantity) {q : ℚ}
    (h : anchorQuantity ms = .ok q) :
    ∃ anchor, anchorOf (ms.map (·.1)) = .ok anchor ∧ anchor.resolvedBaseQuantity ≠ some 0 := by
  simp only [anchorQuantity, found_bind_eq_ok, raiseIf_bind_eq_ok] at h
  obtain ⟨m, hm, hne, -⟩ := h
  refine ⟨m.1, ?_, ?_⟩
  · unfold anchorOf found
    have hfind : (ms.map (·.1)).find? (fun l => l.role = .anchor) = some m.1 := by
      rw [List.find?_map]
      exact congrArg (Option.map (·.1)) hm
    rw [hfind]
  · rw [hall m (List.mem_of_find?_eq_some hm)]
    intro heq
    injection heq with heq
    exact hne heq

/-- The pass from its claim on, at what the claim left. -/
theorem settled_iff_of_claim {c : Claimed} (hc : TargetsReached c) {db₀ : Database}
    {s : World × PassScript} (h : Frozen c db₀ s.1.db) :
    Settled c.task.id (((progress num workerId c).resume fun
        | .ok () => afterProgress c
        | .error e => if isHandled e then afterFailure workerId c else throw e :
          Worker PassResult).run (serve num) s).2.1.db
      ↔ GoesThrough num s.2 c db₀ := by
  have hstable := Frozen.stable c db₀
  have hne : c.task.status ≠ .compensating := by
    rcases hc.phase with hp | hp <;> rw [hp] <;> decide
  -- Whatever raises, the task is not settled.
  have hfail : ∀ (e : Exc) (s : World × PassScript), Frozen c db₀ s.1.db →
      ¬Settled c.task.id (((if isHandled e then afterFailure workerId c else throw e :
          Worker PassResult).run (serve num) s).2.1.db) := by
    intro e s hs
    split
    · exact (afterFailure_unsettled hc hs).not_settled
    · exact (hs.unsettled hc.phase).not_settled
  obtain ⟨hkeep, -, hresolve⟩ := run_resolveLegs num
    (fun l hl => (hc.reached l hl).imp fun _ ht => ht.1) s
  rw [Prog.run_resume]
  unfold progress
  rw [if_neg hne, Prog.run_bind]
  generalize (resolveLegs num c.task c.legs).run (serve num) s = out at hkeep hresolve ⊢
  obtain ⟨r, s₁⟩ := out
  have h₁ : Frozen c db₀ s₁.1.db := hkeep _ hstable h
  rcases hresolve with ⟨⟨ms, hms, hstand⟩, hr⟩ | ⟨hnot, e, hr⟩
  · obtain rfl : r = .ok c.legs := hr
    have hheard : ∀ ms, heardMarkets s.2 c = .ok ms → ms.map (·.1) = c.legs
        ∧ ∀ m ∈ ms, ∀ q, m.1.resolvedBaseQuantity = some q → m.2.baseQuantity = q :=
      (resolveMarkets_stored c.task.quantityMode c.legs).run_fst s.2
    obtain ⟨hlegs, hvalues⟩ := hheard ms hms
    have hall : ∀ m ∈ ms, m.1.resolvedBaseQuantity = some m.2.baseQuantity := by
      intro m hm
      obtain ⟨t, ht, -⟩ := hc.reached m.1 (hlegs ▸ List.mem_map_of_mem hm)
      rw [ht, hvalues m hm t ht]
    obtain ⟨q, hq, -⟩ := hstand.1
    obtain ⟨anchor, hanchor, hzero⟩ := anchorOf_of_stand hall hq
    rw [hlegs] at hanchor
    have hnone : c.orders.find? (fun o => o.status.isActive) = none := by
      refine List.find?_eq_none.mpr fun o ho hactive => ?_
      rw [OrderStatus.isActive_eq_not_isTerminal, hc.ended o ho] at hactive
      cases hactive
    have hprogress : progressResolved workerId c c.legs
        = (perform (.complete c.task.id c.run.id workerId) >>= fun _ => pure ()) := by
      unfold progressResolved
      rw [hnone]
      dsimp only
      rw [if_neg hne, nextDeficit_reached hc.reached hanchor hzero]
      rfl
    dsimp only
    rw [hprogress, Prog.run_bind]
    obtain ⟨db', hcommit, hkept⟩ :=
      run_perform num (.complete c.task.id c.run.id workerId) s₁
    generalize (perform (.complete c.task.id c.run.id workerId)).run (serve num) s₁ = out
      at hcommit hkept ⊢
    obtain ⟨r, s₂⟩ := out
    rcases complete_frozen hc.phase h₁ hcommit with ⟨hbook, hr, hsettled⟩ | ⟨hnot, ⟨e, hr⟩, rfl⟩
    · obtain rfl : r = .ok true := hr
      refine ⟨fun _ => ⟨⟨ms, hms, hstand⟩, hbook⟩, fun _ => ?_⟩
      refine run_last (Settled.stable _) (hkept _ (Settled.stable _) hsettled) (fun r db' hok => ?_) _
      cases hok
      exact hkept _ (Settled.stable _) hsettled
    · obtain rfl : r = .error e := hr
      exact ⟨fun hs => absurd hs (hfail e s₂ (hkept _ hstable h₁)), fun hg => absurd hg.2 hnot⟩
  · obtain rfl : r = .error e := hr
    exact ⟨fun hs => absurd hs (hfail e s₁ h₁), fun hg => absurd hg.1 hnot⟩

/-! ## §5. The result. -/

variable {allow : World → Label Op Rep Act → Prop}

/-- A task whose legs have all reached their targets is settled by the next
pass that claims it exactly if the markets the pass hears still stand and every
recorded trade can be booked. -/
theorem reached_completes_iff {w : World} {p : Option (Worker PassResult)}
    (hs : Reachable num workerId allow ⟨w, p⟩) {c : Claimed} {db' : Database}
    (hclaim : claimLiveExecutionTask workerId w.ambient w.db = .ok (some c, db'))
    (hc : TargetsReached c) (sc : PassScript) :
    Settled c.task.id (passUnder num workerId sc w).db ↔ GoesThrough num sc.tail c w.db := by
  have hfrozen : Frozen c w.db db' := Frozen.claim hs.wellFormed hclaim
  obtain ⟨s, hscript, hkeep, hpass⟩ := passUnder_claimed hclaim sc
  rw [hpass, ← hscript]
  exact settled_iff_of_claim hc (hkeep _ (Frozen.stable c w.db) hfrozen)

/-! ## §6. Concrete runs. -/

instance (c : Claimed) : Decidable (TargetsReached c) :=
  decidable_of_iff ((c.task.status = .running ∨ c.task.status = .hedging)
      ∧ (∀ o ∈ c.orders, o.status.isTerminal)
      ∧ ∀ l ∈ c.legs, ∃ t ∈ l.resolvedBaseQuantity, t ≤ filledBaseOf c.orders l.id .primary)
    ⟨fun ⟨h₁, h₂, h₃⟩ => ⟨h₁, h₂, h₃⟩, fun ⟨h₁, h₂, h₃⟩ => ⟨h₁, h₂, h₃⟩⟩

/-- The task has the given status. -/
def HasStatus (taskId : Nat) (status : TaskStatus) (db : Database) : Prop :=
  ∃ t ∈ Table.find? db.tasks taskId, t.status = status

instance (taskId : Nat) (status : TaskStatus) (db : Database) :
    Decidable (HasStatus taskId status db) :=
  inferInstanceAs (Decidable (∃ t ∈ Table.find? db.tasks taskId, _))

namespace Sample

/-- A complete lookup of the hedge order, its trade with a fee in the given
asset. -/
def hedgeFilled (feeAsset : String) : Outside :=
  { known "b" "filled" 4 4 with
    fills := ⟨[⟨"t", "1", some "bh-1", "perp", "BTCUSDT", "sell", 4, 100, 1, feeAsset, "taker", 0⟩],
      true, none⟩ }

/-- The hedge is filled as well, its fee in the given asset. -/
def bothFilled (feeAsset : String) : World :=
  pass (hedgeFilled feeAsset) (pass (absent "b") (pass (absent "b") anchored))

/-- The answers of a pass that hears the same market throughout. -/
def steady : PassScript := Stream'.const ⟨outside (absent "c"), []⟩

/-- The task the next pass claims. -/
def claimed (w : World) : Option Claimed :=
  (claimLiveExecutionTask "worker" w.ambient w.db).toOption.bind (·.1)

theorem exists_claim {w : World} {c : Claimed} (h : c ∈ claimed w) :
    ∃ db', claimLiveExecutionTask "worker" w.ambient w.db = .ok (some c, db') := by
  obtain ⟨⟨c', db'⟩, hok, hc⟩ := Option.bind_eq_some_iff.mp h
  rw [toOption_some.mp hok, show c' = some c from hc]
  exact ⟨db', rfl⟩

/-- Six passes take the queued task to its two filled orders. -/
theorem reached_bothFilled (feeAsset : String)
    (h : System.follows (answers (hedgeFilled feeAsset)) (fun _ => false)
      (fun (_ : World) (_ : Label Op Rep Act) => True) (runOnce numeric "worker")
      (pass (absent "b") (pass (absent "b") anchored))) :
    Reached System.anyStep ⟨bothFilled feeAsset, none⟩ := by
  have h₀ : Reached System.anyStep ⟨queued, none⟩ :=
    System.Reach.run reached_empty (runsTo_queued fun _ _ => trivial)
  have h₁ : Reached System.anyStep ⟨acknowledged, none⟩ :=
    System.Reach.run h₀ ((runsTo_pass _ anyStep_free (by decide +kernel)).trans
      (runsTo_pass _ anyStep_free (by decide +kernel)))
  have h₂ : Reached System.anyStep ⟨anchored, none⟩ :=
    System.Reach.run h₁ (runsTo_pass _ anyStep_free (by decide +kernel))
  have h₃ : Reached System.anyStep ⟨pass (absent "b") (pass (absent "b") anchored), none⟩ :=
    System.Reach.run h₂ ((runsTo_pass _ anyStep_free (by decide +kernel)).trans
      (runsTo_pass _ anyStep_free (by decide +kernel)))
  exact System.Reach.run h₃ (runsTo_pass _ anyStep_free h)

end Sample

/-- A hedged pair with fees in USDT is completed, and nothing stood in the way. -/
theorem reached_completes_sample :
    ∃ w c db', Sample.Reached System.anyStep ⟨w, none⟩
      ∧ claimLiveExecutionTask "worker" w.ambient w.db = .ok (some c, db') ∧ TargetsReached c
      ∧ HasStatus c.task.id .completed (passUnder Sample.numeric "worker" Sample.steady w).db
      ∧ GoesThrough Sample.numeric Sample.steady.tail c w.db := by
  have hs := Sample.reached_bothFilled "USDT" (by decide +kernel)
  obtain ⟨c, hc, hreached, hst⟩ := (by decide +kernel :
    ∃ c ∈ Sample.claimed (Sample.bothFilled "USDT"), TargetsReached c
      ∧ HasStatus c.task.id .completed
        (passUnder Sample.numeric "worker" Sample.steady (Sample.bothFilled "USDT")).db)
  obtain ⟨db', hclaim⟩ := Sample.exists_claim hc
  obtain ⟨t, ht, hcompleted⟩ := hst
  exact ⟨_, c, db', hs, hclaim, hreached, ⟨t, ht, hcompleted⟩,
    (reached_completes_iff hs hclaim hreached _).mp ⟨t, ht, .inl hcompleted⟩⟩

/-- A fee in a third asset: the perfectly hedged pair is unwound. -/
theorem reached_unwound :
    ¬∀ w c db', Sample.Reached System.anyStep ⟨w, none⟩ →
      claimLiveExecutionTask "worker" w.ambient w.db = .ok (some c, db') → TargetsReached c →
        ∀ sc, Settled c.task.id (passUnder Sample.numeric "worker" sc w).db
          ∧ ¬HasStatus c.task.id .compensating (passUnder Sample.numeric "worker" sc w).db := by
  intro h
  have hs := Sample.reached_bothFilled "BNB" (by decide +kernel)
  obtain ⟨c, hc, hreached, hst⟩ := (by decide +kernel :
    ∃ c ∈ Sample.claimed (Sample.bothFilled "BNB"), TargetsReached c
      ∧ HasStatus c.task.id .compensating
        (passUnder Sample.numeric "worker" Sample.steady (Sample.bothFilled "BNB")).db)
  obtain ⟨db', hclaim⟩ := Sample.exists_claim hc
  exact (h _ c db' hs hclaim hreached Sample.steady).2 hst

end BasisHawk.MultiLeg
