/-
  BasisHawk.MultiLeg.OrderBudget
  ──────────────────────────────
  How many orders a leg can be given before any of them fills something.

  A maker order that is left unfilled is chased at most as often as the leg
  allows and then falls back once; an order outside the book that fails is
  tried again at most as often as the task allows.  An order that ends
  `filled` without a fill is neither, and the leg starts over each time.

  Main results:
    • `orders_bounded` — the bound between two fills, for runs in which no
      order outside the book ends `filled` without a fill,
    • `orders_unbounded` — orders that are reported closed without a fill.
-/
import Mathlib.Algebra.Order.BigOperators.Group.List
import Mathlib.Data.Finset.Prod
import Mathlib.Order.Interval.Finset.Nat
import BasisHawk.MultiLeg.Attempts
import BasisHawk.MultiLeg.FillLedger

namespace BasisHawk.MultiLeg

open Domain Lib Accounts Database

variable {num : Numeric} {workerId : String}

/-! ## §1. What was planned never changes. -/

/-- A task row with its progress forgotten. -/
def ExecutionTaskRow.planned (t : ExecutionTaskRow) : ExecutionTaskRow :=
  { t with
    status := .draft, failureCode := none, preflightExpiresAt := none, version := 0 }

/-- A task that is moved keeps what was planned for it, so the budgets read off
the plan stay. -/
theorem planned_put {db : Database} (hwf : WellFormed db) {id : Nat} {old new : ExecutionTaskRow}
    (hold : Table.find? db.tasks id = some old) (hp : new.planned = old.planned) :
    (Table.put db.tasks new).map (·.planned) = db.tasks.map (·.planned) := by
  obtain ⟨hmem, -⟩ := Table.find?_some hold
  have hid : new.id = old.id := show new.planned.id = old.planned.id from congrArg _ hp
  refine Table.map_put fun t ht hk => ?_
  rw [hwf.tasks_unique.eq ht hmem (hk.trans hid), hp]

/-- No transaction of the worker changes what was planned for a task. -/
theorem DbOp.tasks_planned {o : DbOp} {amb : Ambient} {r : o.Result} {db db' : Database}
    (hwf : WellFormed db) (hok : o.tx num amb db = .ok (r, db')) :
    db'.tasks.map (·.planned) = db.tasks.map (·.planned) := by
  cases o with
  | claim workerId =>
      rcases claimLiveExecutionTask_ok hok with ⟨-, rfl⟩ | ⟨row, hrow, -, -, rfl, -⟩
      · rfl
      · have hfind := (Table.find?_eq_some_iff hwf.tasks_unique).mpr ⟨hrow, rfl⟩
        show (Table.put (db.claimRun row.id workerId amb).2.tasks (startTask row)).map _ = _
        rw [(claim_tasks workerId amb db row.id).1]
        refine planned_put hwf hfind ?_
        unfold startTask
        split <;> rfl
  | setPhase taskId status =>
      simp only [DbOp.tx, setExecutionTaskPhase, raiseIf_bind_eq_ok, found_bind_eq_ok] at hok
      obtain ⟨-, row, hrow, -, hok⟩ := hok
      split at hok
      · injection hok with hok
        rw [(Prod.mk.inj hok).2]
      · injection hok with hok
        rw [← (Prod.mk.inj hok).2]
        exact planned_put hwf hrow rfl
  | beginCompensation taskId runId code worker =>
      simp only [DbOp.tx, beginExecutionTaskCompensation] at hok
      obtain ⟨p, hp, hok⟩ := bind_eq_ok.mp hok
      simp only [raiseIf_bind_eq_ok] at hok
      injection hok.2 with hok
      rw [← (Prod.mk.inj hok).2]
      exact planned_put hwf (taskAndRun_ok hp).1 rfl
  | failRun taskId runId code worker manualReview =>
      simp only [DbOp.tx, failExecutionTaskRun] at hok
      obtain ⟨p, hp, hok⟩ := bind_eq_ok.mp hok
      injection hok with hok
      rw [← (Prod.mk.inj hok).2]
      cases manualReview <;> exact planned_put hwf (taskAndRun_ok hp).1 rfl
  | complete taskId runId worker =>
      simp only [DbOp.tx, completeLiveExecutionTask] at hok
      obtain ⟨p, hp, hok⟩ := bind_eq_ok.mp hok
      split at hok
      · injection hok with hok
        rw [(Prod.mk.inj hok).2]
      · simp only [raiseIf_bind_eq_ok] at hok
        obtain ⟨aggregates, -, hok⟩ := bind_eq_ok.mp hok.2
        injection hok with hok
        rw [← (Prod.mk.inj hok).2]
        have htasks : (if p.1.createStrategy then db.openStrategy num p.1 aggregates amb else db).tasks
            = db.tasks := by
          split <;> rfl
        show (Table.put (ite _ _ _ : Database).tasks _).map _ = _
        rw [htasks]
        exact planned_put hwf (taskAndRun_ok hp).1 rfl
  -- The others do not touch the tasks.
  | _ => rw [(DbOp.sparesTask_tx hok trivial).1]

/-- Nor does another actor, who may add tasks. -/
theorem act_tasks_planned (a : Act) {w : World} (hwf : WellFormed w.db) :
    ∀ p ∈ w.db.tasks.map (·.planned), p ∈ (a.apply w).db.tasks.map (·.planned) := by
  -- A transaction on one task keeps what is planned of every task.
  have hput : ∀ {tx : Database → Except Exc (ExecutionTaskRow × Database)},
      (∀ row db', tx w.db = .ok (row, db') →
        db'.tasks.map (·.planned) = w.db.tasks.map (·.planned)) →
      (commit tx w.db).2.tasks.map (·.planned) = w.db.tasks.map (·.planned) :=
    fun htx => commit_preserves (P := fun db : Database => db.tasks.map (·.planned)
      = w.db.tasks.map (·.planned)) htx rfl rfl
  intro p hp
  cases a with
  | ambient amb => exact hp
  | control row => exact hp
  -- A new task joins the others.
  | createTask plan =>
      show p ∈ (w.db.tasks ++ _).map _
      rw [List.map_append]
      exact List.mem_append_left _ hp
  | preflightReady id version t =>
      refine (hput fun row db' hok => ?_).symm ▸ hp
      simp only [markExecutionTaskPreflightReady, found_bind_eq_ok, raiseIf_bind_eq_ok] at hok
      obtain ⟨old, hold, -, -, hok⟩ := hok
      injection hok with hok
      rw [← (Prod.mk.inj hok).2]
      exact planned_put hwf hold rfl
  | queue id version =>
      refine (hput fun row db' hok => ?_).symm ▸ hp
      simp only [queueExecutionTask, found_bind_eq_ok, raiseIf_bind_eq_ok] at hok
      obtain ⟨old, hold, -, -, -, -, hok⟩ := hok
      injection hok with hok
      rw [← (Prod.mk.inj hok).2]
      exact planned_put hwf hold rfl
  | cancel id version =>
      refine (hput fun row db' hok => ?_).symm ▸ hp
      simp only [cancelExecutionTask, found_bind_eq_ok, raiseIf_bind_eq_ok] at hok
      obtain ⟨old, hold, -, -, hok⟩ := hok
      injection hok with hok
      rw [← (Prod.mk.inj hok).2]
      exact planned_put hwf hold rfl

/-- Nor does a transaction change what was planned for a leg. -/
theorem DbOp.legs_planned {o : DbOp} {amb : Ambient} {r : o.Result} {db db' : Database}
    (hwf : WellFormed db) (hok : o.tx num amb db = .ok (r, db')) :
    db'.legs.map (·.planned) = db.legs.map (·.planned) := by
  rcases DbOp.legs_tx hok with hsame | ⟨legId, base, ratio, old, -, -, hold, -, rfl⟩
  · rw [hsame]
  · obtain ⟨hmem, -⟩ := Table.find?_some hold
    refine Table.map_put fun l hl hk => ?_
    rw [hwf.legs_unique.eq hl hmem hk]
    rfl

/-! ## §2. The next order of a leg. -/

/-- The primary orders of a leg, as they were created. -/
def primaryOf (orders : List ExecutionOrderRow) (legId : Nat) : List ExecutionOrderRow :=
  orders.filter fun o => o.taskLegId = legId ∧ o.purpose = .primary

/-- How often a maker order of the leg is chased. -/
def chasesOf (leg : ExecutionTaskLegRow) : Nat := leg.makerMaximumChases.getD 0

/-- No order comes after this one in the query order. -/
def IsLatest (orders : List ExecutionOrderRow) (latest : ExecutionOrderRow) : Prop :=
  latest ∈ orders ∧ ∀ o ∈ orders, o.sortKey ≤ latest.sortKey

/-- A maker order with a remainder. -/
def Unfilled (o : ExecutionOrderRow) : Prop := o.orderMode = .maker ∧ o.filledQuantity < o.quantity

/-- How an order follows the leg's earlier ones: it opens an attempt, after a
failure only while retries are left; or it chases a maker order, as a maker
order only while chases are left. -/
inductive Follows (retries chases : Nat) (orders : List ExecutionOrderRow)
    (row : ExecutionOrderRow) : Prop where
  | opens (attempt : row.attemptNumber = maxAttempt orders + 1) (chase : row.chaseNumber = 0)
      (h : orders = [] ∨ ∃ latest, IsLatest orders latest ∧ ¬Unfilled latest
        ∧ (latest.status = .filled ∨ maxAttempt orders ≤ retries))
  | chases (latest : ExecutionOrderRow) (isLatest : IsLatest orders latest)
      (unfilled : Unfilled latest) (attempt : row.attemptNumber = latest.attemptNumber)
      (chase : row.chaseNumber = latest.chaseNumber + 1)
      (mode : row.orderMode = .maker → latest.chaseNumber < chases)

/-- The two ways `_create_next_order` goes on. -/
theorem nextAttempt_ok {task : ExecutionTaskRow} {leg : ExecutionTaskLegRow}
    {orders : List ExecutionOrderRow} {mode : OrderMode} {parentId : Option Nat}
    (h : nextAttempt task leg orders = .ok (mode, parentId)) :
    (orders.getLast? = none ∧ parentId = none)
      ∨ ∃ latest, orders.getLast? = some latest
        ∧ ((Unfilled latest ∧ parentId = some latest.id
            ∧ (mode = .maker → latest.chaseNumber < chasesOf leg))
          ∨ (parentId = none ∧ (latest.status.isTerminal → ¬Unfilled latest)
            ∧ (latest.status = .canceled ∨ latest.status = .rejected ∨ latest.status = .failed →
              maxAttempt orders ≤ task.maximumRetries))) := by
  unfold nextAttempt at h
  cases hlast : orders.getLast? with
  | none =>
      rw [hlast] at h
      injection h with h
      exact .inl ⟨rfl, (Prod.mk.inj h).2.symm⟩
  | some latest =>
      rw [hlast] at h
      refine .inr ⟨latest, rfl, ?_⟩
      dsimp only at h
      split at h
      · next hchase =>
          left
          split at h
          · -- The fallback is never a maker order.
            next hover =>
              split at h
              · cases h
              · next fallback hfallback =>
                  injection h with h
                  obtain ⟨rfl, rfl⟩ := Prod.mk.inj h
                  refine ⟨⟨hchase.1, hchase.2.2⟩, rfl, fun hm => ?_⟩
                  exact absurd (hm ▸ hfallback) leg.fallback_check
          · next hunder =>
              injection h with h
              obtain ⟨rfl, rfl⟩ := Prod.mk.inj h
              exact ⟨⟨hchase.1, hchase.2.2⟩, rfl, fun _ => not_le.mp hunder⟩
      · next hnot =>
          right
          have hunfilled : latest.status.isTerminal → ¬Unfilled latest :=
            fun hterm hu => hnot ⟨hu.1, hterm, hu.2⟩
          split at h
          · simp only [raiseIf_bind_eq_ok] at h
            injection h.2 with hpair
            exact ⟨(Prod.mk.inj hpair).2.symm, hunfilled, fun _ => not_lt.mp h.1⟩
          · next hst =>
              injection h with h
              exact ⟨(Prod.mk.inj h).2.symm, hunfilled, fun hf => absurd hf hst⟩

/-- The last order of the query is the latest. -/
theorem isLatest_getLast {db : Database} {runId legId : Nat} {latest : ExecutionOrderRow}
    (h : (legOrders db runId legId).getLast? = some latest) :
    IsLatest (legOrders db runId legId) latest := by
  have hsorted : (legOrders db runId legId).Pairwise fun a b => a.sortKey ≤ b.sortKey :=
    (List.pairwise_insertionSort (fun a b : ExecutionOrderRow => a.sortKey ≤ b.sortKey) _).filter _
  obtain ⟨earlier, heq⟩ := List.getLast?_eq_some_iff.mp h
  rw [heq] at hsorted ⊢
  refine ⟨List.mem_append_right _ (List.mem_singleton_self _), fun o ho => ?_⟩
  rcases List.mem_append.mp ho with ho | ho
  · exact (List.pairwise_append.mp hsorted).2.2 o ho latest (List.mem_singleton_self _)
  · rw [List.mem_singleton.mp ho]

theorem chasesOf_planned {l l' : ExecutionTaskLegRow} (h : l.planned = l'.planned) :
    chasesOf l = chasesOf l' :=
  show chasesOf l.planned = chasesOf l'.planned from congrArg _ h

/-- While a task trades, the orders of one of its legs are the primary ones,
and all of its run. -/
theorem primaryOf_eq {c : Claimed} {db : Database} (hwf : WellFormed db) (hp : PrimaryOnly db)
    (hcur : Current c db) (hphase : c.task.status ≠ .compensating) {leg : ExecutionTaskLegRow}
    (hleg : leg ∈ db.legs) (htask : leg.taskId = c.task.id) :
    ordersFor db c.run.id leg.id = primaryOf db.orders leg.id := by
  obtain ⟨t, hfind, hstarted, hiff⟩ := hcur.task
  obtain ⟨htmem, htid⟩ := Table.find?_some hfind
  obtain ⟨r, hrfind, hrtask⟩ := hcur.run
  obtain ⟨hrmem, hrid⟩ := Table.find?_some hrfind
  have htrading : t.status.isTrading := by
    have hne : t.status ≠ .compensating := fun h => hphase (hiff.mp h)
    cases hst : t.status <;> rw [hst] at hstarted hne <;>
      first | rfl | exact absurd rfl hne | cases hstarted
  unfold ordersFor primaryOf
  refine List.filter_congr fun o ho => ?_
  by_cases hol : o.taskLegId = leg.id
  · -- The order's run is the claimed one.
    obtain ⟨r', hr', l, hl, hrid', hlid, hsame⟩ := hwf.order_owner o ho
    have hll : l = leg := hwf.legs_unique.eq hl hleg (hlid.trans hol)
    rw [hll, htask] at hsame
    have hrr : r' = r := hwf.run_of_task r' hr' r hrmem (hsame.symm.trans hrtask.symm)
    have hrun : o.runId = c.run.id := by
      rw [← hrid', hrr]
      exact hrid
    have hprimary : o.purpose = .primary :=
      hp t htmem htrading o ho ⟨r', hr', hrid', hsame.symm.trans (show c.task.id = t.id from htid.symm)⟩
    simp [hol, hrun, hprimary]
  · simp [hol]

/-- A primary order follows the leg's earlier ones. -/
theorem created_follows {w : World} {a : OrderAttempt} (hwf : WellFormed w.db)
    (hp : PrimaryOnly w.db) (hpre : CreateGuard a w ∧ ChoiceGuard a w)
    (hpurpose : a.purpose = .primary) {row : ExecutionOrderRow} {db' : Database}
    (hok : createExecutionOrderAttempt a w.ambient w.db = .ok (row, db'))
    {leg : ExecutionTaskLegRow} (hleg : leg ∈ w.db.legs) (hid : leg.id = a.taskLegId) :
    ∃ c, w.pass = .advancing c ∧ c.task.id = leg.taskId
      ∧ Follows c.task.maximumRetries (chasesOf leg) (primaryOf w.db.orders leg.id) row := by
  obtain ⟨⟨c, leg₀, hpass, hcur, hrun, hleg₀, hid₀, htask₀, -, hguard⟩, hchoice⟩ := hpre
  obtain ⟨c', legs, leg₁, base, pair, hpass', hcarries, hmem, -, hid₁, -, -, -, hchoice⟩ := hchoice
  obtain rfl : c = c' := by
    rw [hpass] at hpass'
    injection hpass'
  rw [hpurpose] at hguard hchoice
  obtain ⟨-, -, hnext, -⟩ := hchoice
  obtain rfl : leg₀ = leg := hwf.legs_unique.eq hleg₀ hleg (hid₀.trans hid.symm)
  obtain ⟨⟨row₁, hrow₁, hplanned, -, -⟩, -⟩ := hcarries.tracks leg₁ hmem
  obtain rfl : row₁ = leg₀ := by
    refine hwf.legs_unique.eq hrow₁ hleg ?_
    show row₁.id = leg₀.id
    rw [planned_id hplanned, hid, hid₁]
  -- The worker reads the orders of its claim; these are the primary orders stored for the leg.
  have hquery : (c.orders.filter fun o => o.taskLegId = leg₁.id) = legOrders w.db c.run.id row₁.id := by
    unfold legOrders
    rw [hcur.orders, planned_id hplanned]
  have hperm : (legOrders w.db c.run.id row₁.id).Perm (primaryOf w.db.orders row₁.id) := by
    rw [← primaryOf_eq hwf hp hcur hguard.1.1 hleg htask₀]
    exact ordersOfRun_filter_perm w.db c.run.id row₁.id
  have hmax := maxAttempt_perm hperm
  have hchases : chasesOf leg₁ = chasesOf row₁ := chasesOf_planned hplanned.symm
  obtain ⟨hnumbers, -, hmode, -, -, -, hactive, -, -⟩ := createExecutionOrderAttempt_numbers hok
  have hfilter : (w.db.orders.filter fun o => o.runId = a.runId ∧ o.taskLegId = a.taskLegId)
      = primaryOf w.db.orders row₁.id := by
    rw [← primaryOf_eq hwf hp hcur hguard.1.1 hleg htask₀, hrun, ← hid]
    rfl
  rw [hquery] at hnext
  refine ⟨c, hpass, htask₀.symm, ?_⟩
  -- An attempt without a parent opens a new number.
  have hopens : a.parentOrderId = none → row.attemptNumber = maxAttempt (primaryOf w.db.orders row₁.id) + 1
      ∧ row.chaseNumber = 0 := by
    intro hparent
    unfold attemptNumbers at hnumbers
    rw [hparent] at hnumbers
    dsimp only at hnumbers
    rw [hfilter] at hnumbers
    injection hnumbers with hnumbers
    obtain ⟨h₁, h₂⟩ := Prod.mk.inj hnumbers
    exact ⟨h₁.symm, h₂.symm⟩
  rcases nextAttempt_ok hnext with ⟨hnone, hparent⟩ | ⟨latest, hlast, hcases⟩
  · obtain ⟨hattempt, hchase⟩ := hopens hparent
    refine .opens hattempt hchase (.inl ?_)
    rw [List.getLast?_eq_none_iff] at hnone
    rw [hnone] at hperm
    exact hperm.symm.eq_nil
  · -- The latest order has ended: the table admits one active order of a leg.
    have hlatest : IsLatest (primaryOf w.db.orders row₁.id) latest := by
      obtain ⟨hl, hall⟩ := isLatest_getLast hlast
      exact ⟨hperm.mem_iff.mp hl, fun o ho => hall o (hperm.mem_iff.mpr ho)⟩
    have hlmem : latest ∈ w.db.orders.filter fun o => o.runId = a.runId ∧ o.taskLegId = a.taskLegId := by
      rw [hfilter]
      exact hlatest.1
    obtain ⟨hlo, hlown⟩ := List.mem_filter.mp hlmem
    rw [decide_eq_true_eq] at hlown
    have hterm : latest.status.isTerminal := by
      have := hactive latest hlo hlown.1 hlown.2
      rw [OrderStatus.isActive_eq_not_isTerminal] at this
      simpa using this
    rcases hcases with ⟨hu, hparent, hm⟩ | ⟨hparent, hnot, hretry⟩
    · -- A chase keeps the number of its parent and counts on from it.
      unfold attemptNumbers at hnumbers
      rw [hparent] at hnumbers
      simp only [found_bind_eq_ok, raiseIf_bind_eq_ok] at hnumbers
      obtain ⟨parent, hfind, -, hnumbers⟩ := hnumbers
      injection hnumbers with hnumbers
      have hpar := List.find?_some hfind
      rw [decide_eq_true_eq] at hpar
      obtain rfl : parent = latest :=
        hwf.orders_unique.eq (List.mem_of_find?_eq_some hfind) hlo hpar.1
      obtain ⟨h₁, h₂⟩ := Prod.mk.inj hnumbers
      refine .chases parent hlatest hu h₁.symm h₂.symm fun hmaker => ?_
      rw [← hchases]
      exact hm (hmode ▸ hmaker)
    · obtain ⟨hattempt, hchase⟩ := hopens hparent
      refine .opens hattempt hchase (.inr ⟨latest, hlatest, hnot hterm, ?_⟩)
      by_cases hfailed : latest.status = .canceled ∨ latest.status = .rejected
          ∨ latest.status = .failed
      · rw [← hmax]
        exact .inr (hretry hfailed)
      · left
        cases hst : latest.status <;> rw [hst] at hterm hfailed <;>
          first | rfl | exact absurd (by decide) hfailed | cases hterm

/-! ## §3. Attempts and chases number the orders. -/

/-- What the creation of an order fixes. -/
structure Stamp where
  attempt : Nat
  chase : Nat
  mode : OrderMode
  createdAt : Int

def ExecutionOrderRow.stamp (o : ExecutionOrderRow) : Stamp :=
  ⟨o.attemptNumber, o.chaseNumber, o.orderMode, o.createdAt⟩

def Stamp.sortKey (s : Stamp) : Int ×ₗ Nat ×ₗ Nat :=
  toLex (s.createdAt, toLex (s.attempt, s.chase))

/-- The orders of a leg that may be chased `chases` times: attempts are counted
from one, an attempt has at most as many chases and one fallback, and every
order comes after the earlier ones. -/
structure Numbered (chases : Nat) (stamps : List Stamp) : Prop where
  first : ∀ s ∈ stamps, 1 ≤ s.attempt
  chase : ∀ s ∈ stamps, s.chase ≤ chases + 1 ∧ (s.mode = .maker → s.chase ≤ chases)
  unique : (stamps.map fun s => (s.attempt, s.chase)).Nodup
  ordered : stamps.Pairwise fun s s' => s.sortKey < s'.sortKey

theorem Numbered.nil (chases : Nat) : Numbered chases [] :=
  ⟨fun _ h => (by cases h), fun _ h => (by cases h), List.nodup_nil, .nil⟩

/-- An order of a later attempt, or of a later chase in the same one, comes
later in the list that the worker sorts. -/
theorem sortKey_lt {o row : ExecutionOrderRow} (htime : o.createdAt ≤ row.createdAt)
    (h : o.attemptNumber < row.attemptNumber
      ∨ (o.attemptNumber = row.attemptNumber ∧ o.chaseNumber < row.chaseNumber)) :
    o.sortKey < row.sortKey := by
  unfold ExecutionOrderRow.sortKey
  rw [Prod.Lex.toLex_lt_toLex]
  rcases lt_or_eq_of_le htime with hlt | heq
  · exact .inl hlt
  · refine .inr ⟨heq, ?_⟩
    rw [Prod.Lex.toLex_lt_toLex]
    exact h

/-- An order that follows the others, at a clock that has not gone back, keeps
the numbering. -/
theorem Numbered.follows {retries chases : Nat} {orders : List ExecutionOrderRow}
    {row : ExecutionOrderRow} (h : Numbered chases (orders.map (·.stamp)))
    (hf : Follows retries chases orders row)
    (hunique : ∀ o ∈ orders, o.attemptNumber = row.attemptNumber → o.chaseNumber ≠ row.chaseNumber)
    (htime : ∀ o ∈ orders, o.createdAt ≤ row.createdAt) :
    Numbered chases ((orders ++ [row]).map (·.stamp)) := by
  have hof : ∀ o ∈ orders, o.stamp ∈ orders.map (·.stamp) := fun o ho => List.mem_map_of_mem ho
  -- The new order comes last: a higher attempt, or a further chase of the latest one.
  have hlast : 1 ≤ row.attemptNumber ∧ row.chaseNumber ≤ chases + 1
      ∧ (row.orderMode = .maker → row.chaseNumber ≤ chases)
      ∧ ∀ o ∈ orders, o.sortKey < row.sortKey := by
    cases hf with
    | opens attempt chase _ =>
        refine ⟨by omega, by omega, fun _ => by omega, fun o ho => sortKey_lt (htime o ho) (.inl ?_)⟩
        have := le_maxAttempt ho
        omega
    | chases latest isLatest unfilled attempt chase mode =>
        have hfirst : 1 ≤ latest.attemptNumber := h.first _ (hof _ isLatest.1)
        have hmaker : latest.chaseNumber ≤ chases := (h.chase _ (hof _ isLatest.1)).2 unfilled.1
        refine ⟨by omega, by omega, fun hm => ?_, fun o ho => ?_⟩
        · have := mode hm
          omega
        · refine lt_of_le_of_lt (isLatest.2 o ho) (sortKey_lt (htime _ isLatest.1) (.inr ?_))
          exact ⟨attempt.symm, by omega⟩
  obtain ⟨hfirst, hchase, hmaker, hkey⟩ := hlast
  rw [List.map_append, List.map_singleton]
  refine ⟨fun s hs => ?_, fun s hs => ?_, ?_, ?_⟩
  · rcases List.mem_append.mp hs with hs | hs
    · exact h.first s hs
    · rw [List.mem_singleton.mp hs]
      exact hfirst
  · rcases List.mem_append.mp hs with hs | hs
    · exact h.chase s hs
    · rw [List.mem_singleton.mp hs]
      exact ⟨hchase, hmaker⟩
  · rw [List.map_append, List.nodup_append]
    refine ⟨h.unique, List.nodup_singleton _, fun p hp p' hp' heq => ?_⟩
    obtain ⟨s, hs, rfl⟩ := List.mem_map.mp hp
    obtain ⟨o, ho, rfl⟩ := List.mem_map.mp hs
    rw [List.map_singleton, List.mem_singleton] at hp'
    obtain ⟨h₁, h₂⟩ := Prod.mk.inj (heq.trans hp')
    exact hunique o ho h₁ h₂
  · refine List.pairwise_append.mpr ⟨h.ordered, List.pairwise_singleton _ _, fun s hs s' hs' => ?_⟩
    obtain ⟨o, ho, rfl⟩ := List.mem_map.mp hs
    rw [List.mem_singleton.mp hs']
    exact hkey o ho

/-- A later part of the orders is numbered too. -/
theorem Numbered.right {chases : Nat} {earlier later : List Stamp}
    (h : Numbered chases (earlier ++ later)) : Numbered chases later := by
  refine ⟨fun s hs => h.first s (List.mem_append_right _ hs),
    fun s hs => h.chase s (List.mem_append_right _ hs), ?_,
    (List.pairwise_append.mp h.ordered).2.1⟩
  have hunique := h.unique
  rw [List.map_append] at hunique
  exact (List.nodup_append.mp hunique).2.1

/-- The attempts are all the same, or within the retries. -/
def Spent (retries : Nat) (attempts : List Nat) : Prop :=
  (∃ a, ∀ x ∈ attempts, x = a) ∨ ∀ x ∈ attempts, x ≤ retries + 1

/-- Orders so numbered, all of one attempt or within the retries, are few. -/
theorem Numbered.length_le {retries chases : Nat} {stamps : List Stamp}
    (h : Numbered chases stamps) (hs : Spent retries (stamps.map (·.attempt))) :
    stamps.length ≤ (retries + 1) * (chases + 2) := by
  obtain ⟨A, hA, hmem⟩ : ∃ A : Finset Nat, A.card ≤ retries + 1 ∧ ∀ s ∈ stamps, s.attempt ∈ A := by
    rcases hs with ⟨a, ha⟩ | hle
    · refine ⟨{a}, by rw [Finset.card_singleton]; omega, fun s hs => ?_⟩
      rw [Finset.mem_singleton]
      exact ha _ (List.mem_map_of_mem hs)
    · refine ⟨Finset.Icc 1 (retries + 1), by rw [Nat.card_Icc]; omega, fun s hs => ?_⟩
      rw [Finset.mem_Icc]
      exact ⟨h.first s hs, hle _ (List.mem_map_of_mem hs)⟩
  calc stamps.length
      = (stamps.map fun s => (s.attempt, s.chase)).toFinset.card := by
        rw [List.toFinset_card_of_nodup h.unique, List.length_map]
    _ ≤ (A ×ˢ Finset.range (chases + 2)).card := by
        refine Finset.card_le_card fun p hp => ?_
        obtain ⟨s, hs, rfl⟩ := List.mem_map.mp (List.mem_toFinset.mp hp)
        refine Finset.mem_product.mpr ⟨hmem s hs, Finset.mem_range.mpr ?_⟩
        have := (h.chase s hs).1
        show s.chase < chases + 2
        omega
    _ = A.card * (chases + 2) := by rw [Finset.card_product, Finset.card_range]
    _ ≤ (retries + 1) * (chases + 2) := Nat.mul_le_mul_right _ hA

/-! ## §4. The condition. -/

/-- The order a step creates. -/
def creation : Label Op Rep Act → Option OrderAttempt
  | .call (.db (.createOrder a)) (.ok _) => some a
  | _ => none

/-- No primary order of the leg outside the book is recorded as filled without a
fill. -/
def FilledByTrades (legId : Nat) (w : World) (l : Label Op Rep Act) : Prop :=
  ∀ ob ∈ observation l, ∀ o ∈ primaryOf w.db.orders legId, o.id = ob.orderId →
    o.orderMode ≠ .maker → ob.status = .filled → 0 < ob.filledQuantity

/-- No primary order of the leg is created at an earlier time than one before
it. -/
def OnTime (legId : Nat) (w : World) (l : Label Op Rep Act) : Prop :=
  ∀ a ∈ creation l, a.taskLegId = legId → a.purpose = .primary →
    ∀ o ∈ primaryOf w.db.orders legId, o.createdAt ≤ w.ambient.now

/-- The steps of a leg whose primary orders outside the book are filled by trades
only, under a clock that does not go back. -/
def Works (legId : Nat) (w : World) (l : Label Op Rep Act) : Prop :=
  FilledByTrades legId w l ∧ OnTime legId w l

instance (legId : Nat) (w : World) (l : Label Op Rep Act) : Decidable (FilledByTrades legId w l) :=
  inferInstanceAs (Decidable (∀ ob ∈ observation l, ∀ o ∈ primaryOf w.db.orders legId, _))

instance (legId : Nat) (w : World) (l : Label Op Rep Act) : Decidable (OnTime legId w l) :=
  inferInstanceAs (Decidable (∀ a ∈ creation l, _))

instance (legId : Nat) (w : World) (l : Label Op Rep Act) : Decidable (Works legId w l) :=
  inferInstanceAs (Decidable (_ ∧ _))

/-- The condition speaks only of observations and of new orders. -/
theorem works_of_none {legId : Nat} {w : World} {l : Label Op Rep Act} (hob : observation l = none)
    (hcr : creation l = none) : Works legId w l := by
  refine ⟨fun ob h => ?_, fun a h => ?_⟩
  · rw [hob] at h
    cases h
  · rw [hcr] at h
    cases h

/-! ## §5. What every step keeps. -/

/-- The orders of a leg are numbered, and those outside the book that are filled
have filled something. -/
structure Steady (legId : Nat) (db : Database) : Prop where
  primary : PrimaryOnly db
  numbered : ∀ leg ∈ db.legs, leg.id = legId →
    Numbered (chasesOf leg) ((primaryOf db.orders legId).map (·.stamp))
  worked : ∀ o ∈ primaryOf db.orders legId, o.orderMode ≠ .maker → o.status = .filled →
    0 < o.filledQuantity

theorem stamp_eq {old new : ExecutionOrderRow} (hs : SameOrder old new) : new.stamp = old.stamp := by
  unfold ExecutionOrderRow.stamp
  rw [hs.attemptNumber, hs.chaseNumber, hs.orderMode, hs.createdAt]

/-- Another version of an order is filed where the old one was. -/
theorem primaryOf_put {β : Type} {g : ExecutionOrderRow → β} {orders : List ExecutionOrderRow}
    {new : ExecutionOrderRow} (h : ∀ o ∈ orders, key o = key new → SameOrder o new ∧ g new = g o)
    (legId : Nat) :
    (primaryOf (Table.put orders new) legId).map g = (primaryOf orders legId).map g := by
  unfold primaryOf
  refine Table.map_filter_put fun o ho hk => ?_
  obtain ⟨hs, hg⟩ := h o ho hk
  rw [hs.taskLegId, hs.purpose]
  exact ⟨Iff.rfl, hg⟩

/-- The only row with the key of another version is the old one. -/
theorem same_of_key {orders : List ExecutionOrderRow} (hu : Table.Unique orders)
    {old new : ExecutionOrderRow} (hold : old ∈ orders) (hs : SameOrder old new) :
    ∀ o ∈ orders, key o = key new → o = old :=
  fun _ ho hk => hu.eq ho hold (hk.trans hs.id)

/-- An order that is written keeps its number, so the count of the leg stays. -/
theorem Steady.put {legId : Nat} {db db' : Database} (hu : Table.Unique db.orders)
    (h : Steady legId db) (hp : PrimaryOnly db')
    (hlegs : ∀ l' ∈ db'.legs, ∃ l ∈ db.legs, l'.planned = l.planned) {old new : ExecutionOrderRow}
    (hold : old ∈ db.orders) (hs : SameOrder old new)
    (hworked : old ∈ primaryOf db.orders legId → new.orderMode ≠ .maker → new.status = .filled →
      0 < new.filledQuantity)
    (heq : db'.orders = Table.put db.orders new) : Steady legId db' := by
  refine ⟨hp, fun leg hleg hid => ?_, fun o ho hm hst => ?_⟩
  · obtain ⟨l, hl, hplanned⟩ := hlegs leg hleg
    rw [heq, primaryOf_put fun o ho hk => ?_, chasesOf_planned hplanned]
    · exact h.numbered l hl ((planned_id hplanned).symm.trans hid)
    · rw [same_of_key hu hold hs o ho hk]
      exact ⟨hs, stamp_eq hs⟩
  · unfold primaryOf at ho
    rw [heq, List.mem_filter, decide_eq_true_eq] at ho
    obtain ⟨ho, hleg, hpurpose⟩ := ho
    rcases Table.mem_put.mp ho with ⟨rfl, -⟩ | ⟨ho, -⟩
    · refine hworked (List.mem_filter.mpr ⟨hold, decide_eq_true ?_⟩) hm hst
      exact ⟨hs.taskLegId.symm.trans hleg, hs.purpose.symm.trans hpurpose⟩
    · exact h.worked o (List.mem_filter.mpr ⟨ho, decide_eq_true ⟨hleg, hpurpose⟩⟩) hm hst

/-- The primary orders of a leg, after one order was added. -/
theorem primaryOf_append (orders : List ExecutionOrderRow) (row : ExecutionOrderRow) (legId : Nat) :
    primaryOf (orders ++ [row]) legId = primaryOf orders legId
      ++ if row.taskLegId = legId ∧ row.purpose = .primary then [row] else [] := by
  unfold primaryOf
  rw [List.filter_append, List.filter_singleton]
  by_cases h : row.taskLegId = legId ∧ row.purpose = .primary
  · rw [if_pos h, decide_eq_true h, cond_true]
  · rw [if_neg h, decide_eq_false h, cond_false]

/-- A transaction that works on the leg keeps its orders numbered: the next
number follows the highest one. -/
theorem Steady.tx {legId : Nat} {o : DbOp} {w : World} {r : o.Result} {db' : Database}
    (h : Steady legId w.db) (hwf : WellFormed w.db) (hpre : Pre (.db o) w)
    (ha : Works legId w (.call (.db o) (.ok r))) (hok : o.tx num w.ambient w.db = .ok (r, db')) :
    Steady legId db' := by
  have hp : PrimaryOnly db' := h.primary.tx hok hpre hwf
  -- What is planned for a leg, its chases among it, never changes.
  have hlegs : ∀ l' ∈ db'.legs, ∃ l ∈ w.db.legs, l'.planned = l.planned := by
    intro l' hl'
    have hmem : l'.planned ∈ w.db.legs.map (·.planned) := by
      rw [← DbOp.legs_planned hwf hok]
      exact List.mem_map_of_mem hl'
    obtain ⟨l, hl, heq⟩ := List.mem_map.mp hmem
    exact ⟨l, hl, heq.symm⟩
  cases hoe : DbOp.ordersEffect hok with
  | same heq =>
      refine ⟨hp, fun leg hleg hid => ?_, ?_⟩
      · obtain ⟨l, hl, hplanned⟩ := hlegs leg hleg
        rw [heq, chasesOf_planned hplanned]
        exact h.numbered l hl ((planned_id hplanned).symm.trans hid)
      · rw [heq]
        exact h.worked
  -- A new order counts if it is a primary one of this leg.
  | @created a _ _ row heq hrun hleg _ hpurpose hst =>
      have hsame : db'.legs = w.db.legs := by
        rcases DbOp.legs_tx hok with hsame | ⟨_, _, _, _, hne, -⟩
        · exact hsame
        · cases hne
      obtain ⟨-, -, -, htime, -, -, -, hunique, heq'⟩ := createExecutionOrderAttempt_numbers hok
      have hrow : row = r := by
        rw [heq'] at heq
        exact (List.cons.inj (List.append_cancel_left heq)).1.symm
      subst hrow
      refine ⟨hp, fun leg hl hid => ?_, fun o ho => ?_⟩
      · rw [hsame] at hl
        rw [heq, primaryOf_append]
        by_cases hmine : row.taskLegId = legId ∧ row.purpose = .primary
        · rw [if_pos hmine]
          have hlid : leg.id = a.taskLegId := by rw [hid, ← hleg, hmine.1]
          obtain ⟨c, -, -, hf⟩ := created_follows hwf h.primary hpre
            (hpurpose.symm.trans hmine.2) hok hl hlid
          have hin : ∀ o ∈ primaryOf w.db.orders legId, o ∈ w.db.orders ∧ o.taskLegId = legId :=
            fun o ho => by
              obtain ⟨ho, hown⟩ := List.mem_filter.mp ho
              exact ⟨ho, (of_decide_eq_true hown).1⟩
          rw [hid] at hf
          refine (h.numbered leg hl hid).follows hf (fun o ho => ?_) (fun o ho => ?_)
          · exact hunique o (hin o ho).1 ((hin o ho).2.trans (hid.symm.trans hlid))
          · rw [htime]
            exact ha.2 a rfl (hlid.symm.trans hid) (hpurpose.symm.trans hmine.2) o ho
        · rw [if_neg hmine, List.append_nil]
          exact h.numbered leg hl hid
      · rw [heq, primaryOf_append] at ho
        rcases List.mem_append.mp ho with ho | ho
        · exact h.worked o ho
        · split at ho
          · rw [List.mem_singleton.mp ho]
            intro _ hfilled
            rw [hst] at hfilled
            cases hfilled
          · cases ho
  -- A mark does not make an order `filled`.
  | marked heq hold hs _ hst =>
      refine h.put hwf.orders_unique hp hlegs hold hs (fun _ _ hfilled => ?_) heq
      rcases hst with hst | hst | hst <;> rw [hst] at hfilled <;> cases hfilled
  | @observed ob _ _ old new heq hold hid hs hst _ hfilled =>
      refine h.put hwf.orders_unique hp hlegs hold hs (fun hleg hm hf => ?_) heq
      rw [hfilled]
      exact ha.1 ob rfl old hleg hid (hs.orderMode ▸ hm) (hst ▸ hf)

/-- The step lemma for a whole run. -/
theorem steady_kept (legId : Nat) : Kept num (Works legId) fun w => Steady legId w.db where
  act := fun a w ha hwf h => by
    obtain ⟨-, horders, -, hlegs, -⟩ := act_frame a w
    have hprimary : Kept num (Works legId) fun w => PrimaryOnly w.db := primaryOnly_kept
    refine ⟨hprimary.act a w ha hwf h.primary, fun leg hleg hid => ?_, ?_⟩
    · rw [horders]
      rcases act_legs a leg hleg with hleg | ⟨hfresh, -⟩
      · exact h.numbered leg hleg hid
      · -- A new leg has no orders.
        have hnone : primaryOf w.db.orders legId = [] := by
          refine List.filter_eq_nil_iff.mpr fun o ho hown => ?_
          exact hwf.leg_of_order_ne (hid ▸ hfresh) o ho (of_decide_eq_true hown).1
        rw [hnone]
        exact .nil _
    · rw [horders]
      exact h.worked
  db := fun o w r db' hc ha hpre hwf h => by
    rcases commit_cases hc with ⟨a, rfl, hok⟩ | ⟨e, -, -, rfl⟩
    · exact h.tx hwf hpre ha hok
    · exact h
  out := fun _ _ _ _ _ _ h => h
  idle := fun _ h => h

/-! ## §6. Between two fills. -/

theorem filledBaseOf_append (xs ys : List ExecutionOrderRow) (legId : Nat) (purpose : Purpose) :
    filledBaseOf (xs ++ ys) legId purpose
      = filledBaseOf xs legId purpose + filledBaseOf ys legId purpose := by
  unfold filledBaseOf
  rw [List.filter_append, List.map_append, List.sum_append]

/-- Fills only grow. -/
theorem filledBaseOf_put_le {orders : List ExecutionOrderRow} {new : ExecutionOrderRow}
    (h : ∀ o ∈ orders, key o = key new → SameOrder o new ∧ o.filledQuantity ≤ new.filledQuantity)
    (legId : Nat) (purpose : Purpose) :
    filledBaseOf orders legId purpose ≤ filledBaseOf (Table.put orders new) legId purpose := by
  unfold filledBaseOf
  rw [Table.sum_filter, Table.sum_filter]
  unfold Table.put
  rw [List.map_map]
  refine List.sum_le_sum fun o ho => ?_
  show _ ≤ (fun r : ExecutionOrderRow =>
    if decide (r.taskLegId = legId ∧ r.purpose = purpose) then r.filledBase else 0)
      (if key o = key new then new else o)
  by_cases hk : key o = key new
  · obtain ⟨hs, hle⟩ := h o ho hk
    rw [if_pos hk]
    dsimp only
    rw [hs.taskLegId, hs.purpose]
    split
    · unfold ExecutionOrderRow.filledBase
      rw [hs.baseMultiplier]
      exact mul_le_mul_of_nonneg_right hle o.quantity_check.2.le
    · exact le_refl _
  · rw [if_neg hk]

/-- Orders of a leg that have filled nothing together have each filled nothing. -/
theorem unfilled_of_sum {orders : List ExecutionOrderRow} {legId : Nat}
    (h : filledBaseOf orders legId .primary ≤ 0) :
    ∀ o ∈ primaryOf orders legId, o.filledQuantity = 0 := by
  intro o ho
  have hle : o.filledBase ≤ filledBaseOf orders legId .primary :=
    List.single_le_sum (fun x hx => by
      obtain ⟨y, -, rfl⟩ := List.mem_map.mp hx
      exact y.filledBase_nonneg) _ (List.mem_map_of_mem ho)
  have hzero : o.filledQuantity * o.baseMultiplier = 0 :=
    le_antisymm (le_trans hle h) o.filledBase_nonneg
  rcases mul_eq_zero.mp hzero with hz | hz
  · exact hz
  · exact absurd hz (ne_of_gt o.quantity_check.2)

/-- A pass that is to advance a task has it as it was planned. -/
def Claims (w : World) : Prop :=
  ∀ c, w.pass = .advancing c → c.task.planned ∈ w.db.tasks.map (·.planned)

/-- The first `n` orders, `m` of them the leg's, have filled at least `base` for
it, and while that is all it has filled the orders created since are within the
retries. -/
structure Stretch (retries legId n m : Nat) (base : ℚ) (orders : List ExecutionOrderRow) :
    Prop where
  length : n ≤ orders.length
  count : (primaryOf (orders.take n) legId).length = m
  old : base ≤ filledBaseOf (orders.take n) legId .primary
  spent : filledBaseOf orders legId .primary = base →
    Spent retries ((primaryOf (orders.drop n) legId).map (·.attemptNumber))

/-- A stretch of a run of the task and the leg as they were planned. -/
structure Window (task : ExecutionTaskRow) (leg : ExecutionTaskLegRow) (n m : Nat) (base : ℚ)
    (w : World) : Prop where
  steady : Steady leg.id w.db
  claims : Claims w
  planned_task : task.planned ∈ w.db.tasks.map (·.planned)
  planned_leg : leg.planned ∈ w.db.legs.map (·.planned)
  orders : Stretch task.maximumRetries leg.id n m base w.db.orders

theorem task_planned_id {t t' : ExecutionTaskRow} (h : t.planned = t'.planned) : t.id = t'.id :=
  show t.planned.id = t'.planned.id from congrArg _ h

theorem task_planned_retries {t t' : ExecutionTaskRow} (h : t.planned = t'.planned) :
    t.maximumRetries = t'.maximumRetries :=
  show t.planned.maximumRetries = t'.planned.maximumRetries from congrArg _ h

/-- While the leg has filled no more, none of the orders created since has. -/
theorem Stretch.unfilled {retries legId n m : Nat} {base : ℚ} {orders : List ExecutionOrderRow}
    (h : Stretch retries legId n m base orders)
    (hbase : filledBaseOf orders legId .primary = base) :
    ∀ o ∈ primaryOf (orders.drop n) legId, o.filledQuantity = 0 := by
  refine unfilled_of_sum ?_
  have hsplit := filledBaseOf_append (orders.take n) (orders.drop n) legId .primary
  rw [List.take_append_drop, hbase] at hsplit
  have hold := h.old
  linarith

/-- The latest order is one of those created since, where there are any. -/
theorem latest_mem_drop {orders : List ExecutionOrderRow} {legId chases n : Nat}
    (h : Numbered chases ((primaryOf orders legId).map (·.stamp))) {latest o : ExecutionOrderRow}
    (hlatest : IsLatest (primaryOf orders legId) latest) (ho : o ∈ primaryOf (orders.drop n) legId) :
    latest ∈ primaryOf (orders.drop n) legId := by
  have hsplit : primaryOf orders legId
      = primaryOf (orders.take n) legId ++ primaryOf (orders.drop n) legId := by
    unfold primaryOf
    rw [← List.filter_append, List.take_append_drop]
  have hmem := hlatest.1
  rw [hsplit] at hmem
  rcases List.mem_append.mp hmem with hold | hnew
  · -- An older order comes before every newer one.
    have hordered := h.ordered
    rw [hsplit, List.map_append, List.pairwise_append] at hordered
    have hlt : latest.sortKey < o.sortKey :=
      hordered.2.2 _ (List.mem_map_of_mem hold) _ (List.mem_map_of_mem ho)
    have hle : o.sortKey ≤ latest.sortKey := by
      refine hlatest.2 o ?_
      rw [hsplit]
      exact List.mem_append_right _ ho
    exact absurd hle (not_le.mpr hlt)
  · exact hnew

/-- One more order stays within the retries. -/
theorem Spent.follows {retries chases n legId : Nat} {orders : List ExecutionOrderRow}
    {row : ExecutionOrderRow}
    (hs : Spent retries ((primaryOf (orders.drop n) legId).map (·.attemptNumber)))
    (hnum : Numbered chases ((primaryOf orders legId).map (·.stamp)))
    (hworked : ∀ o ∈ primaryOf orders legId, o.orderMode ≠ .maker → o.status = .filled →
      0 < o.filledQuantity)
    (hzero : ∀ o ∈ primaryOf (orders.drop n) legId, o.filledQuantity = 0)
    (hf : Follows retries chases (primaryOf orders legId) row) :
    Spent retries ((primaryOf (orders.drop n) legId ++ [row]).map (·.attemptNumber)) := by
  rw [List.map_append, List.map_singleton]
  by_cases hany : ∃ o, o ∈ primaryOf (orders.drop n) legId
  · obtain ⟨o, ho⟩ := hany
    cases hf with
    | opens attempt chase hcase =>
        -- An order that opens an attempt here follows a failure.
        have hmax : maxAttempt (primaryOf orders legId) ≤ retries := by
          have hsub : ∀ x ∈ primaryOf (orders.drop n) legId, x ∈ primaryOf orders legId := by
            intro x hx
            obtain ⟨hx, hown⟩ := List.mem_filter.mp hx
            exact List.mem_filter.mpr ⟨List.mem_of_mem_drop hx, hown⟩
          rcases hcase with hnil | ⟨latest, hlatest, hnot, hst | hmax⟩
          · have := hsub o ho
            rw [hnil] at this
            cases this
          · have hnew := latest_mem_drop hnum hlatest ho
            have hz := hzero latest hnew
            have hm : latest.orderMode ≠ .maker := fun hm =>
              hnot ⟨hm, by rw [hz]; exact latest.quantity_check.1⟩
            have hpos := hworked latest hlatest.1 hm hst
            rw [hz] at hpos
            exact absurd hpos (lt_irrefl 0)
          · exact hmax
        right
        intro x hx
        rcases List.mem_append.mp hx with hx | hx
        · obtain ⟨y, hy, rfl⟩ := List.mem_map.mp hx
          obtain ⟨hy, hown⟩ := List.mem_filter.mp hy
          have hle : y.attemptNumber ≤ maxAttempt (primaryOf orders legId) :=
            le_maxAttempt (List.mem_filter.mpr ⟨List.mem_of_mem_drop hy, hown⟩)
          omega
        · rw [List.mem_singleton.mp hx]
          omega
    | chases latest isLatest unfilled attempt chase mode =>
        have hnew := List.mem_map_of_mem (f := (·.attemptNumber)) (latest_mem_drop hnum isLatest ho)
        rcases hs with ⟨a, ha⟩ | hle
        · refine .inl ⟨a, fun x hx => ?_⟩
          rcases List.mem_append.mp hx with hx | hx
          · exact ha x hx
          · rw [List.mem_singleton.mp hx, attempt]
            exact ha _ hnew
        · refine .inr fun x hx => ?_
          rcases List.mem_append.mp hx with hx | hx
          · exact hle x hx
          · rw [List.mem_singleton.mp hx, attempt]
            exact hle _ hnew
  · refine .inl ⟨row.attemptNumber, fun x hx => ?_⟩
    rcases List.mem_append.mp hx with hx | hx
    · obtain ⟨y, hy, -⟩ := List.mem_map.mp hx
      exact absurd ⟨y, hy⟩ hany
    · exact List.mem_singleton.mp hx

/-- A pass that has claimed a task has it as the tables have it. -/
theorem advancing_wrote {o : DbOp} {w : World} {r : Except Exc o.Result} {db' : Database}
    {c : Claimed} (hc : commit (o.tx num w.ambient) w.db = (r, db'))
    (h : w.pass.wrote o r = .advancing c) :
    w.pass = .advancing c ∨ Table.find? db'.tasks c.task.id = some c.task := by
  cases o with
  | claim workerId =>
      rcases commit_cases hc with ⟨a, rfl, hok⟩ | ⟨e, rfl, -, -⟩
      · cases a with
        | none => cases h
        | some c' =>
            obtain rfl : c' = c := Pass.ofClaim_advancing h
            exact .inr (claim_task hok).1
      · cases h
  | setPhase taskId status => exact .inl h
  | resolveLeg legId base ratio => exact .inl h
  | _ => cases h

/-- What a pass has claimed is stored as it was claimed. -/
theorem claims_kept {allow : World → Label Op Rep Act → Prop} : Kept num allow Claims where
  act := fun a w _ hwf h c hpass => by
    rw [(act_frame a w).2.2.2.2] at hpass
    exact act_tasks_planned a hwf _ (h c hpass)
  db := fun o w r db' hc _ _ hwf h c hpass => by
    rcases advancing_wrote hc hpass with hpass | hfind
    · have hmem := h c hpass
      rcases commit_cases hc with ⟨a, rfl, hok⟩ | ⟨e, -, -, rfl⟩
      · show c.task.planned ∈ db'.tasks.map (·.planned)
        rw [DbOp.tasks_planned hwf hok]
        exact hmem
      · exact hmem
    · exact List.mem_map_of_mem (Table.find?_some hfind).1
  out := fun _ _ _ _ _ _ h c hpass => h c (heard_advancing hpass)
  idle := fun _ _ _ hpass => (by cases hpass)

section Step

variable {task : ExecutionTaskRow} {leg : ExecutionTaskLegRow} {n m : Nat} {base : ℚ}

/-- The claimed task allows as many retries as the task it is. -/
theorem Window.retries {w : World} (hwf : WellFormed w.db) (h : Window task leg n m base w)
    {c : Claimed} (hpass : w.pass = .advancing c) (hid : c.task.id = task.id) :
    c.task.maximumRetries = task.maximumRetries := by
  obtain ⟨t, ht, hplan⟩ := List.mem_map.mp (h.claims c hpass)
  obtain ⟨t', ht', hplan'⟩ := List.mem_map.mp h.planned_task
  have hsame : t = t' := by
    refine hwf.tasks_unique.eq ht ht' ?_
    show t.id = t'.id
    rw [task_planned_id hplan, task_planned_id hplan', hid]
  rw [← task_planned_retries hplan, ← task_planned_retries hplan', hsame]

/-- Another version of an order that has filled no less. -/
theorem Stretch.put {retries legId : Nat} {orders : List ExecutionOrderRow}
    (h : Stretch retries legId n m base orders) (hu : Table.Unique orders)
    {old new : ExecutionOrderRow} (hold : old ∈ orders) (hs : SameOrder old new)
    (hle : old.filledQuantity ≤ new.filledQuantity) :
    Stretch retries legId n m base (Table.put orders new) := by
  have hkey : ∀ o ∈ orders, key o = key new → SameOrder o new
      ∧ o.filledQuantity ≤ new.filledQuantity ∧ new.attemptNumber = o.attemptNumber := by
    intro o ho hk
    rw [same_of_key hu hold hs o ho hk]
    exact ⟨hs, hle, hs.attemptNumber⟩
  -- The orders before the window and those in it are both updated by key.
  have htake : (Table.put orders new).take n = Table.put (orders.take n) new := List.map_take.symm
  have hdrop : (Table.put orders new).drop n = Table.put (orders.drop n) new := List.map_drop.symm
  -- What is filled of the leg grows, or stays.
  have hgrown : filledBaseOf orders legId .primary
      ≤ filledBaseOf (Table.put orders new) legId .primary :=
    filledBaseOf_put_le (fun o ho hk => ⟨(hkey o ho hk).1, (hkey o ho hk).2.1⟩) _ _
  refine ⟨?_, ?_, ?_, fun hbase => ?_⟩
  · unfold Table.put
    rw [List.length_map]
    exact h.length
  · have hattempts : (primaryOf (Table.put (orders.take n) new) legId).map (·.attemptNumber)
        = (primaryOf (orders.take n) legId).map (·.attemptNumber) := by
      refine primaryOf_put (fun o ho hk => ?_) legId
      have hsame := hkey o (List.mem_of_mem_take ho) hk
      exact ⟨hsame.1, hsame.2.2⟩
    have hlength := congrArg List.length hattempts
    rw [List.length_map, List.length_map] at hlength
    rw [htake, hlength]
    exact h.count
  · rw [htake]
    refine le_trans h.old (filledBaseOf_put_le (fun o ho hk => ?_) _ _)
    have hsame := hkey o (List.mem_of_mem_take ho) hk
    exact ⟨hsame.1, hsame.2.1⟩
  · -- The orders in the window are spent only while nothing more is filled.
    rw [hdrop, primaryOf_put fun o ho hk => ?_]
    · refine h.spent (le_antisymm (hbase ▸ hgrown) (le_trans h.old ?_))
      have hsplit := filledBaseOf_append (orders.take n) (orders.drop n) legId .primary
      rw [List.take_append_drop] at hsplit
      have hnonneg := filledBaseOf_nonneg (orders.drop n) legId .primary
      linarith
    · have hsame := hkey o (List.mem_of_mem_drop ho) hk
      exact ⟨hsame.1, hsame.2.2⟩

/-- A new order, which has filled nothing yet. -/
theorem Stretch.append {retries legId : Nat} {orders : List ExecutionOrderRow}
    (h : Stretch retries legId n m base orders) {row : ExecutionOrderRow}
    (hzero : row.filledQuantity = 0)
    (hspent : filledBaseOf orders legId .primary = base → row.taskLegId = legId →
      row.purpose = .primary →
        Spent retries ((primaryOf (orders.drop n) legId ++ [row]).map (·.attemptNumber))) :
    Stretch retries legId n m base (orders ++ [row]) := by
  have hnone : filledBaseOf [row] legId .primary = 0 := by
    unfold filledBaseOf
    rw [List.filter_singleton]
    cases decide (row.taskLegId = legId ∧ row.purpose = .primary)
    · rfl
    · show row.filledQuantity * row.baseMultiplier + 0 = 0
      rw [hzero, zero_mul, add_zero]
  refine ⟨?_, ?_, ?_, fun hbase => ?_⟩
  · rw [List.length_append]
    exact Nat.le_add_right_of_le h.length
  · rw [List.take_append_of_le_length h.length]
    exact h.count
  · rw [List.take_append_of_le_length h.length]
    exact h.old
  · rw [filledBaseOf_append, hnone, add_zero] at hbase
    rw [List.drop_append_of_le_length h.length, primaryOf_append]
    split
    · next hmine => exact hspent hbase hmine.1 hmine.2
    · rw [List.append_nil]
      exact h.spent hbase

/-- Within one window of the leg's fills, a transaction adds at most one order,
and the orders stay within the budget. -/
theorem Window.tx {o : DbOp} {w : World} {r : o.Result} {db' : Database}
    (htask : leg.taskId = task.id) (h : Window task leg n m base w) (hwf : WellFormed w.db)
    (hpre : Pre (.db o) w) (hok : o.tx num w.ambient w.db = .ok (r, db')) :
    Stretch task.maximumRetries leg.id n m base db'.orders := by
  cases DbOp.ordersEffect hok with
  | same heq =>
      rw [heq]
      exact h.orders
  -- A new order: it follows the window's orders, as the pass counted attempts from them.
  | @created a _ _ row heq hrun hleg _ hpurpose hst _ _ hzero =>
      have hrow : row = r := by
        obtain ⟨-, -, -, -, -, -, -, -, heq'⟩ := createExecutionOrderAttempt_numbers hok
        rw [heq'] at heq
        exact (List.cons.inj (List.append_cancel_left heq)).1.symm
      subst hrow
      rw [heq]
      refine h.orders.append hzero fun hbase hmine hprimary => ?_
      obtain ⟨l, hl, hplan⟩ := List.mem_map.mp h.planned_leg
      have hlid : l.id = leg.id := planned_id hplan
      have hltask : l.taskId = leg.taskId :=
        show l.planned.taskId = leg.planned.taskId from congrArg _ hplan
      obtain ⟨c, hpass, hctask, hf⟩ := created_follows hwf h.steady.primary hpre
        (hpurpose.symm.trans hprimary) hok hl (hlid.trans (hmine.symm.trans hleg))
      rw [hlid, h.retries hwf hpass (hctask.trans (hltask.trans htask))] at hf
      exact (h.orders.spent hbase).follows (h.steady.numbered l hl hlid) h.steady.worked
        (h.orders.unfilled hbase) hf
  -- A mark of the order changes no fill.
  | marked heq hold hs _ _ hfilled =>
      rw [heq]
      exact h.orders.put hwf.orders_unique hold hs (le_of_eq hfilled.symm)
  -- An observation fills the order, or leaves its fills.
  | observed heq hold _ hs _ _ hfilled hbounds =>
      rw [heq]
      exact h.orders.put hwf.orders_unique hold hs (by rw [hfilled]; exact hbounds.1)

/-- The step lemma for the window. -/
theorem window_kept (htask : leg.taskId = task.id) :
    Kept num (Works leg.id) (Window task leg n m base) := by
  have hsteady : Kept num (Works leg.id) fun w => Steady leg.id w.db := steady_kept leg.id
  have hclaims : Kept num (Works leg.id) Claims := claims_kept
  constructor
  · -- Others change no order and may add legs.
    intro a w ha hwf h
    obtain ⟨-, horders, -, hlegs, -⟩ := act_frame a w
    refine ⟨hsteady.act a w ha hwf h.steady, hclaims.act a w ha hwf h.claims,
      act_tasks_planned a hwf _ h.planned_task, ?_, ?_⟩
    · obtain ⟨l, hl, hplan⟩ := List.mem_map.mp h.planned_leg
      exact List.mem_map.mpr ⟨l, hlegs l hl, hplan⟩
    · rw [horders]
      exact h.orders
  · -- A transaction of the worker.
    intro o w r db' hc ha hpre hwf h
    have hs := hsteady.db o w r db' hc ha hpre hwf h.steady
    have hcl := hclaims.db o w r db' hc ha hpre hwf h.claims
    rcases commit_cases hc with ⟨a, rfl, hok⟩ | ⟨e, -, -, rfl⟩
    · refine ⟨hs, hcl, ?_, ?_, h.tx htask hwf hpre hok⟩
      · show task.planned ∈ db'.tasks.map (·.planned)
        rw [DbOp.tasks_planned hwf hok]
        exact h.planned_task
      · show leg.planned ∈ db'.legs.map (·.planned)
        rw [DbOp.legs_planned hwf hok]
        exact h.planned_leg
    · exact ⟨hs, hcl, h.planned_task, h.planned_leg, h.orders⟩
  · -- A question, which changes what the pass has in hand.
    intro o w r ha hpre hwf h
    exact ⟨h.steady, hclaims.out o w r ha hpre hwf h.claims, h.planned_task, h.planned_leg, h.orders⟩
  · intro w h
    exact ⟨h.steady, hclaims.idle w h.claims, h.planned_task, h.planned_leg, h.orders⟩

end Step

/-! ## §7. The result. -/

/-- From any reachable state on: as long as the leg's recorded fill stays what it
is, at most `(maximum_retries + 1) * (maker_maximum_chases + 2)` primary orders
are created for the leg. -/
theorem orders_bounded {s s' : State} {task : ExecutionTaskRow} {leg : ExecutionTaskLegRow}
    (hs : Reachable num workerId (Works leg.id) s) (hr : Runs num workerId (Works leg.id) s s')
    (ht : task ∈ s.world.db.tasks) (hl : leg ∈ s.world.db.legs) (htask : leg.taskId = task.id)
    (hfill : filledBaseOf s'.world.db.orders leg.id .primary
      = filledBaseOf s.world.db.orders leg.id .primary) :
    (primaryOf s'.world.db.orders leg.id).length
      ≤ (primaryOf s.world.db.orders leg.id).length
        + (task.maximumRetries + 1) * (chasesOf leg + 2) := by
  have hsteady : Steady leg.id s.world.db := (steady_kept leg.id).reachable (fun w hw => by
    refine ⟨fun t ht => ?_, fun l hl => ?_, fun o ho => ?_⟩
    · rw [hw.tasks] at ht
      cases ht
    · rw [hw.legs] at hl
      cases hl
    · unfold primaryOf at ho
      rw [hw.orders] at ho
      cases ho) hs
  have hclaims : Claims s.world := claims_kept.reachable (fun w hw c hpass => by
    rw [hw.pass] at hpass
    cases hpass) hs
  -- The orders of the run are those behind the ones stored at its start.
  have hdrop : s.world.db.orders.drop s.world.db.orders.length = [] := List.drop_length
  have htake : s.world.db.orders.take s.world.db.orders.length = s.world.db.orders :=
    List.take_length
  have hstart : Stretch task.maximumRetries leg.id s.world.db.orders.length
      (primaryOf s.world.db.orders leg.id).length
      (filledBaseOf s.world.db.orders leg.id .primary) s.world.db.orders := by
    refine ⟨le_refl _, by rw [htake], by rw [htake], fun _ => .inl ⟨0, fun x hx => ?_⟩⟩
    rw [hdrop] at hx
    cases hx
  have hend := (window_kept htask).runs hs hr
    ⟨hsteady, hclaims, List.mem_map_of_mem ht, List.mem_map_of_mem hl, hstart⟩
  -- Without a new fill every attempt of the stretch counts against the retries.
  have hspent := hend.orders.spent hfill
  obtain ⟨l, hl', hplan⟩ := List.mem_map.mp hend.planned_leg
  have hnumbered := hend.steady.numbered l hl' (planned_id hplan)
  rw [chasesOf_planned hplan] at hnumbered
  have hsplit : primaryOf s'.world.db.orders leg.id
      = primaryOf (s'.world.db.orders.take s.world.db.orders.length) leg.id
        ++ primaryOf (s'.world.db.orders.drop s.world.db.orders.length) leg.id := by
    unfold primaryOf
    rw [← List.filter_append, List.take_append_drop]
  rw [hsplit, List.map_append] at hnumbered
  have hfew := hnumbered.right.length_le (by rw [List.map_map]; exact hspent)
  rw [List.length_map] at hfew
  rw [hsplit, List.length_append, hend.orders.count]
  omega

/-! ## §8. Concrete runs. -/

namespace Sample

/-- A pass that starts or crashes works on nothing. -/
theorem works_free (legId : Nat) (w : World) :
    Works legId w .start ∧ Works legId w .crash :=
  ⟨works_of_none rfl rfl, works_of_none rfl rfl⟩

def unretriedPlan : TaskPlan :=
  { plan with task := { task with maximumRetries := 0, retries_check := by decide } }

/-- A task without retries is queued. -/
def unretried : World :=
  Act.apply (.queue 0 2) (Act.apply (.preflightReady 0 1 100)
    (Act.apply (.createTask unretriedPlan) empty))

/-- Two orders of its anchor are reported closed without a fill, and a third is
created. -/
def closedTwice : World :=
  pass (absent "c") (ordered "b" "closed" 0 (ordered "a" "closed" 0 unretried))

/-- The sample's order is filled without a trade, and the attempt stays where it
was. -/
theorem reached_unretried : Reached System.anyStep ⟨unretried, none⟩ :=
  System.Reach.run reached_empty (((runsTo_act _ trivial).trans (runsTo_act _ trivial)).trans
    (runsTo_act _ trivial))

theorem runsTo_closedTwice : RunsTo System.anyStep ⟨unretried, none⟩ ⟨closedTwice, none⟩ :=
  ((runsTo_ordered "a" "closed" 0 anyStep_free (by decide +kernel) (by decide +kernel)
    (by decide +kernel)).trans (runsTo_ordered "b" "closed" 0 anyStep_free (by decide +kernel)
      (by decide +kernel) (by decide +kernel))).trans
    (runsTo_pass _ anyStep_free (by decide +kernel))

end Sample

/-- Two cancelled orders of the anchor, of the four its plan allows. -/
theorem orders_bounded_canceled :
    ∃ s s' task leg, Sample.Reached (Works leg.id) s ∧ Sample.RunsTo (Works leg.id) s s'
      ∧ task ∈ s.world.db.tasks ∧ leg ∈ s.world.db.legs ∧ leg.taskId = task.id
      ∧ filledBaseOf s'.world.db.orders leg.id .primary
        = filledBaseOf s.world.db.orders leg.id .primary
      ∧ (primaryOf s'.world.db.orders leg.id).length = 2
      ∧ (primaryOf s'.world.db.orders leg.id).length
        ≤ (primaryOf s.world.db.orders leg.id).length
          + (task.maximumRetries + 1) * (chasesOf leg + 2) := by
  obtain ⟨task, htask, leg, hleg, hown, hid, hfill, htwo⟩ := (by decide +kernel :
    ∃ task ∈ Sample.chunked.db.tasks, ∃ leg ∈ Sample.chunked.db.legs, leg.taskId = task.id
      ∧ leg.id = 1
      ∧ filledBaseOf Sample.twiceCanceled.db.orders leg.id .primary
        = filledBaseOf Sample.chunked.db.orders leg.id .primary
      ∧ (primaryOf Sample.twiceCanceled.db.orders leg.id).length = 2)
  have hs : Sample.Reached (Works leg.id) ⟨Sample.chunked, none⟩ :=
    System.Reach.run Sample.reached_empty
      (Sample.runsTo_chunked fun _ _ => works_of_none rfl rfl)
  have hr : Sample.RunsTo (Works leg.id) ⟨Sample.chunked, none⟩ ⟨Sample.twiceCanceled, none⟩ := by
    rw [hid]
    exact (Sample.runsTo_ordered "a" "canceled" 0 (Sample.works_free 1) (by decide +kernel)
      (by decide +kernel) (by decide +kernel)).trans
      (Sample.runsTo_ordered "b" "canceled" 0 (Sample.works_free 1) (by decide +kernel)
        (by decide +kernel) (by decide +kernel))
  exact ⟨_, _, task, leg, hs, hr, htask, hleg, hown, hfill, htwo,
    orders_bounded hs hr htask hleg hown hfill⟩

/-- Orders that are reported closed without a fill are replaced again and
again: a third, where two are allowed. -/
theorem orders_unbounded :
    ¬∀ s s', Sample.Reached System.anyStep s → Sample.RunsTo System.anyStep s s' →
      ∀ task ∈ s.world.db.tasks, ∀ leg ∈ s.world.db.legs, leg.taskId = task.id →
        filledBaseOf s'.world.db.orders leg.id .primary
            = filledBaseOf s.world.db.orders leg.id .primary →
          (primaryOf s'.world.db.orders leg.id).length
            ≤ (primaryOf s.world.db.orders leg.id).length
              + (task.maximumRetries + 1) * (chasesOf leg + 2) := by
  intro h
  obtain ⟨task, htask, leg, hleg, hown, hfill, hmany⟩ := (by decide +kernel :
    ∃ task ∈ Sample.unretried.db.tasks, ∃ leg ∈ Sample.unretried.db.legs, leg.taskId = task.id
      ∧ filledBaseOf Sample.closedTwice.db.orders leg.id .primary
        = filledBaseOf Sample.unretried.db.orders leg.id .primary
      ∧ ¬(primaryOf Sample.closedTwice.db.orders leg.id).length
        ≤ (primaryOf Sample.unretried.db.orders leg.id).length
          + (task.maximumRetries + 1) * (chasesOf leg + 2))
  exact hmany (h _ _ Sample.reached_unretried Sample.runsTo_closedTwice task htask leg hleg hown hfill)

end BasisHawk.MultiLeg
