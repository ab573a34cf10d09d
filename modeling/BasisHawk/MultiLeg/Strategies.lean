/-
  BasisHawk.MultiLeg.Strategies
  ─────────────────────────────
  The strategies that completed tasks open.

  A completion books, leg by leg, what the recorded fills come to.  Nothing is
  recorded on the legs of a task that has been completed, so the books go on
  to agree with the fills.

  Main results:
    • `Grows`, `Grows.booked` — what every step leaves of a strategy that is
      booked,
    • `complete_booked`, `completePaper_booked` — what the two completions book,
    • `strategies_booked` — every strategy and every completed task, in every
      run.
-/
import BasisHawk.MultiLeg.OrderLife

namespace BasisHawk.MultiLeg

open Domain Lib Accounts Database

variable {num : Numeric}

/-! ## §1. What a leg has executed. -/

/-- The fills recorded on a leg, each with the multiplier of its order. -/
def executions (db : Database) (legId : Nat) : List (ℚ × ExecutionFillRow) :=
  db.fills.filterMap fun f =>
    (db.orders.find? fun o => o.id = f.executionOrderId ∧ o.taskLegId = legId).map
      (·.baseMultiplier, f)

/-- The base quantity of fills. -/
def baseOf (fills : List (ℚ × ExecutionFillRow)) : ℚ := (fills.map fun v => v.2.quantity * v.1).sum

/-- What they were executed for. -/
def notionalOf (fills : List (ℚ × ExecutionFillRow)) : ℚ :=
  (fills.map fun v => v.2.quantity * v.1 * v.2.price).sum

/-- The order of a fill on a leg. -/
theorem find?_owner {orders : List ExecutionOrderRow} (hu : Table.Unique orders)
    {o : ExecutionOrderRow} (ho : o ∈ orders) (legId : Nat) :
    (orders.find? fun x => x.id = o.id ∧ x.taskLegId = legId)
      = if o.taskLegId = legId then some o else none := by
  by_cases hleg : o.taskLegId = legId
  · rw [if_pos hleg]
    cases hf : orders.find? fun x => x.id = o.id ∧ x.taskLegId = legId with
    | none =>
        have hno := List.find?_eq_none.mp hf o ho
        exact absurd (decide_eq_true ⟨rfl, hleg⟩) hno
    | some x =>
        have hx := List.find?_some hf
        rw [decide_eq_true_eq] at hx
        rw [hu.eq (List.mem_of_find?_eq_some hf) ho hx.1]
  · rw [if_neg hleg, List.find?_eq_none]
    intro x hx hfits
    rw [decide_eq_true_eq] at hfits
    rw [hu.eq hx ho hfits.1] at hfits
    exact hleg hfits.2

/-- Nothing is recorded on a leg that does not trade. -/
theorem executions_kept {db db' : Database} (hwf : WellFormed db) (hwf' : WellFormed db')
    (hsound : OrdersSound db) (h : OrdersKept db db') {legId : Nat} (hnot : ¬Trading db legId) :
    executions db' legId = executions db legId := by
  obtain ⟨added, hfills, hadded⟩ := h.fills
  unfold executions
  rw [hfills, List.filterMap_append]
  have hnone : added.filterMap (fun f => (db'.orders.find? fun o =>
      o.id = f.executionOrderId ∧ o.taskLegId = legId).map (·.baseMultiplier, f)) = [] := by
    refine List.filterMap_eq_nil_iff.mpr fun f hf => ?_
    obtain ⟨o', ho', hid, htrading, -⟩ := hadded f hf
    have hne : o'.taskLegId ≠ legId := fun heq => hnot (heq ▸ htrading)
    rw [← hid, find?_owner hwf'.orders_unique ho', if_neg hne]
    rfl
  rw [hnone, List.append_nil]
  refine List.filterMap_congr fun f hf => ?_
  obtain ⟨o, ho, hid⟩ := hsound.owner f hf
  obtain ⟨o', ho', hlater⟩ := h.forth o ho
  have hid' : o'.id = f.executionOrderId := hlater.same.id.trans hid
  have hafter := find?_owner hwf'.orders_unique ho' legId
  have hbefore := find?_owner hwf.orders_unique ho legId
  rw [hid'] at hafter
  rw [hid] at hbefore
  rw [hafter, hbefore, hlater.same.taskLegId]
  by_cases hleg : o.taskLegId = legId
  · rw [if_pos hleg, if_pos hleg, Option.map_some, Option.map_some, hlater.same.baseMultiplier]
  · rw [if_neg hleg, if_neg hleg]

/-! ## §2. Books. -/

/-- The entry price that is booked for fills: the price of the one fill of a
paper leg, or what the fills were executed for by what they come to, divided and
stored as decimals are. -/
def EntryPrice (num : Numeric) (fills : List (ℚ × ExecutionFillRow)) (price : ℚ) : Prop :=
  (∃ v, fills = [v] ∧ price = v.2.price)
    ∨ price = num.store (num.divide (notionalOf fills) (baseOf fills))

/-- A strategy leg books what was executed on its leg. -/
structure LegBooked (num : Numeric) (db : Database) (baseAsset : String) (leg : ExecutionTaskLegRow)
    (b : StrategyLegRow) : Prop where
  openingTaskLegId : b.openingTaskLegId = leg.id
  accountId : b.accountId = leg.accountId
  ordinal : b.ordinal = leg.ordinal
  marketType : b.marketType = leg.marketType
  side : b.side = leg.side
  symbol : b.symbol = leg.symbol
  quantity : b.initialBaseQuantity = baseOf (executions db leg.id)
  positive : 0 < b.initialBaseQuantity
  remaining : b.remainingBaseQuantity = b.initialBaseQuantity
  cost : EntryPrice num (executions db leg.id) b.entryPrice
  fees : feesUsdt baseAsset ((executions db leg.id).map (·.2)) = .ok b.feesUsdt

/-- The legs of a strategy. -/
def strategyLegsOf (db : Database) (strategyId : Nat) : List StrategyLegRow :=
  db.strategyLegs.filter (·.strategyId = strategyId)

/-- A strategy books its task: one leg for each leg of the task and no other. -/
structure StrategyBooked (num : Numeric) (db : Database) (s : ArbitrageStrategyRow)
    (t : ExecutionTaskRow) : Prop where
  task : s.openingTaskId = t.id
  name : s.name = t.name
  environment : s.environment = t.environment
  baseAsset : s.baseAsset = t.baseAsset
  legs : ∀ l ∈ db.legs, l.taskId = t.id →
    ∃ b ∈ strategyLegsOf db s.id, LegBooked num db t.baseAsset l b
  only : ∀ b ∈ strategyLegsOf db s.id, ∃ l ∈ db.legs, l.taskId = t.id ∧ l.id = b.openingTaskLegId
  once : ((strategyLegsOf db s.id).map (·.openingTaskLegId)).Nodup
  fees : s.feesUsdt = ((strategyLegsOf db s.id).map (·.feesUsdt)).sum

/-- The completed tasks that are to open a strategy, and the strategies. -/
structure Booked (num : Numeric) (db : Database) : Prop where
  opened : ∀ s ∈ db.strategies, ∃ t ∈ db.tasks, t.status = .completed ∧ t.createStrategy
    ∧ StrategyBooked num db s t
  every : ∀ t ∈ db.tasks, t.status = .completed → t.createStrategy →
    ∃ s ∈ db.strategies, s.openingTaskId = t.id
  once : (db.strategies.map (·.openingTaskId)).Nodup
  below : ∀ s ∈ db.strategies, s.id < db.nextId
  legs_below : ∀ b ∈ db.strategyLegs, b.strategyId < db.nextId

namespace LegBooked

variable {db db' : Database} {baseAsset : String} {leg leg' : ExecutionTaskLegRow} {b : StrategyLegRow}

/-- A leg stays booked where nothing more is recorded on it. -/
theorem executed (h : LegBooked num db baseAsset leg b)
    (hsame : executions db' leg.id = executions db leg.id) : LegBooked num db' baseAsset leg b :=
  ⟨h.openingTaskLegId, h.accountId, h.ordinal, h.marketType, h.side, h.symbol, hsame ▸ h.quantity,
    h.positive, h.remaining, hsame ▸ h.cost, hsame ▸ h.fees⟩

/-- A leg stays booked when its quantity is resolved. -/
theorem planned (h : LegBooked num db baseAsset leg b) (hplanned : leg'.planned = leg.planned) :
    LegBooked num db baseAsset leg' b := by
  have hid : leg'.id = leg.id := planned_id hplanned
  have hfield : ∀ {α : Type} (g : ExecutionTaskLegRow → α), g leg'.planned = g leg.planned :=
    fun g => congrArg g hplanned
  exact
    { openingTaskLegId := h.openingTaskLegId.trans hid.symm
      accountId := h.accountId.trans (hfield (·.accountId)).symm
      ordinal := h.ordinal.trans (hfield (·.ordinal)).symm
      marketType := h.marketType.trans (hfield (·.marketType)).symm
      side := h.side.trans (hfield (·.side)).symm
      symbol := h.symbol.trans (hfield (·.symbol)).symm
      quantity := by rw [hid]; exact h.quantity
      positive := h.positive
      remaining := h.remaining
      cost := by rw [hid]; exact h.cost
      fees := by rw [hid]; exact h.fees }

/-- Where decimals divide and are stored without rounding, the entry price times
the quantity is what the fills were executed for. -/
theorem cost_exact (h : LegBooked num db baseAsset leg b)
    (hexact : ∀ a c, num.store (num.divide a c) = a / c) :
    b.entryPrice * b.initialBaseQuantity = notionalOf (executions db leg.id) := by
  have hpositive := h.positive
  rcases h.cost with ⟨v, hv, hprice⟩ | hprice
  · have hquantity : b.initialBaseQuantity = v.2.quantity * v.1 := by
      rw [h.quantity, hv]
      exact add_zero _
    rw [hprice, hquantity, hv]
    show v.2.price * (v.2.quantity * v.1) = v.2.quantity * v.1 * v.2.price + 0
    ring
  · rw [hprice, hexact, ← h.quantity]
    exact div_mul_cancel₀ _ hpositive.ne'

end LegBooked

/-! ## §3. What every step keeps. -/

/-- No leg goes away or changes but for its resolution; a new one belongs to a new
task. -/
structure LegsKept (db db' : Database) : Prop where
  forth : ∀ l ∈ db.legs, ∃ l' ∈ db'.legs, l'.planned = l.planned
  back : ∀ l' ∈ db'.legs, (∃ l ∈ db.legs, l'.planned = l.planned) ∨ db.nextId ≤ l'.taskId

theorem LegsKept.same {db db' : Database} (h : db'.legs = db.legs) : LegsKept db db' where
  forth := fun l hl => ⟨l, h ▸ hl, rfl⟩
  back := fun l hl => .inl ⟨l, h ▸ hl, rfl⟩

theorem LegsKept.put {db db' : Database} (hu : Table.Unique db.legs)
    {old new : ExecutionTaskLegRow} (h : db'.legs = Table.put db.legs new) (hold : old ∈ db.legs)
    (hplanned : new.planned = old.planned) : LegsKept db db' := by
  have hid : new.id = old.id := planned_id hplanned
  constructor
  · intro l hl
    rw [h]
    by_cases hk : l.id = new.id
    · have heq : l = old := hu.eq hl hold (hk.trans hid)
      exact ⟨new, Table.mem_put.mpr (.inl ⟨rfl, old, hold, hid.symm⟩), by rw [hplanned, heq]⟩
    · exact ⟨l, Table.mem_put.mpr (.inr ⟨hl, hk⟩), rfl⟩
  · intro l' hl'
    rw [h] at hl'
    rcases Table.mem_put.mp hl' with ⟨rfl, -⟩ | ⟨hl', -⟩
    · exact .inl ⟨old, hold, hplanned⟩
    · exact .inl ⟨l', hl', rfl⟩

/-- A leg that has gone through a step where no task is new. -/
theorem LegsKept.trans {db db₁ db' : Database} (h : LegsKept db db₁) (h' : LegsKept db₁ db')
    (hn : db.nextId ≤ db₁.nextId) : LegsKept db db' := by
  constructor
  · intro l hl
    obtain ⟨l₁, hl₁, hplanned⟩ := h.forth l hl
    obtain ⟨l', hl', hplanned'⟩ := h'.forth l₁ hl₁
    exact ⟨l', hl', hplanned'.trans hplanned⟩
  · intro l' hl'
    rcases h'.back l' hl' with ⟨l₁, hl₁, hplanned⟩ | hnew
    · rcases h.back l₁ hl₁ with ⟨l, hl, hplanned'⟩ | hnew
      · exact .inl ⟨l, hl, hplanned.trans hplanned'⟩
      · rw [show l'.taskId = l₁.taskId from congrArg (·.taskId) hplanned]
        exact .inr hnew
    · exact .inr (hn.trans hnew)

/-- What every step does to the tables the books speak of. -/
structure Grows (db db' : Database) : Prop where
  orders : OrdersKept db db'
  legs : LegsKept db db'
  completed : ∀ t ∈ db.tasks, t.status = .completed → t ∈ db'.tasks
  nextId : db.nextId ≤ db'.nextId
  strategyLegs : ∃ added, db'.strategyLegs = db.strategyLegs ++ added
    ∧ ∀ b ∈ added, db.nextId ≤ b.strategyId ∧ b.strategyId < db'.nextId

/-- The leg of a completed task does not trade. -/
theorem not_trading {db : Database} (hwf : WellFormed db) {t : ExecutionTaskRow} (ht : t ∈ db.tasks)
    (hst : t.status = .completed) {l : ExecutionTaskLegRow} (hl : l ∈ db.legs)
    (htask : l.taskId = t.id) : ¬Trading db l.id := by
  rintro ⟨l', t', hl', ht', hstarted⟩
  obtain ⟨hl', hid⟩ := Table.find?_some hl'
  obtain ⟨ht', hkey⟩ := Table.find?_some ht'
  have hleg : l' = l := hwf.legs_unique.eq hl' hl hid
  have htask' : t' = t := hwf.tasks_unique.eq ht' ht (by
    show t'.id = t.id
    rw [← htask, ← hleg]
    exact hkey)
  rw [htask', hst] at hstarted
  cases hstarted

namespace Grows

variable {db db' : Database}

theorem refl (db : Database) : Grows db db :=
  ⟨.same rfl rfl, .same rfl, fun _ ht _ => ht, le_refl _, [], (List.append_nil _).symm,
    fun _ hb => absurd hb List.not_mem_nil⟩

/-- The legs of a strategy that was there stay its legs. -/
theorem strategyLegsOf_eq (h : Grows db db') {strategyId : Nat} (hbelow : strategyId < db.nextId) :
    strategyLegsOf db' strategyId = strategyLegsOf db strategyId := by
  obtain ⟨added, heq, hadded⟩ := h.strategyLegs
  have hnone : added.filter (fun b => b.strategyId = strategyId) = [] := by
    refine List.filter_eq_nil_iff.mpr fun b hb hid => ?_
    have hid : b.strategyId = strategyId := of_decide_eq_true hid
    have hfresh := (hadded b hb).1
    omega
  unfold strategyLegsOf
  rw [heq, List.filter_append, hnone, List.append_nil]

/-- A strategy that is booked stays booked. -/
theorem booked (h : Grows db db') (hwf : WellFormed db) (hwf' : WellFormed db')
    (hsound : OrdersSound db) {s : ArbitrageStrategyRow} {t : ExecutionTaskRow}
    (hbelow : s.id < db.nextId) (ht : t ∈ db.tasks) (hst : t.status = .completed)
    (hb : StrategyBooked num db s t) : StrategyBooked num db' s t := by
  have hlegs := h.strategyLegsOf_eq hbelow
  refine ⟨hb.task, hb.name, hb.environment, hb.baseAsset, fun l' hl' htask' => ?_, fun b hbmem => ?_,
    by rw [hlegs]; exact hb.once, by rw [hlegs]; exact hb.fees⟩
  · rcases h.legs.back l' hl' with ⟨l, hl, hplanned⟩ | hfresh
    · have hid : l'.id = l.id := planned_id hplanned
      have htask : l'.taskId = l.taskId := show l'.planned.taskId = l.planned.taskId from by rw [hplanned]
      obtain ⟨b, hbmem, hbooked⟩ := hb.legs l hl (htask.symm.trans htask')
      have hsame := executions_kept hwf hwf' hsound h.orders
        (not_trading hwf ht hst hl (htask.symm.trans htask'))
      exact ⟨b, by rw [hlegs]; exact hbmem, (hbooked.executed hsame).planned hplanned⟩
    · -- A new leg belongs to a new task.
      have hold : t.id < db.nextId := hwf.tasks_below t ht
      omega
  · rw [hlegs] at hbmem
    obtain ⟨l, hl, htask, hid⟩ := hb.only b hbmem
    obtain ⟨l', hl', hplanned⟩ := h.legs.forth l hl
    have htask' : l'.taskId = l.taskId := show l'.planned.taskId = l.planned.taskId from by rw [hplanned]
    exact ⟨l', hl', htask'.trans htask, (planned_id hplanned).trans hid⟩

end Grows

/-- A step that completes no task opens no strategy. -/
theorem Booked.same {db db' : Database} (hb : Booked num db) (h : Grows db db')
    (hwf : WellFormed db) (hwf' : WellFormed db') (hsound : OrdersSound db)
    (hstrategies : db'.strategies = db.strategies)
    (hback : ∀ t ∈ db'.tasks, t.status = .completed → t ∈ db.tasks) : Booked num db' := by
  refine ⟨fun s hs => ?_, fun t ht hst hopens => ?_, by rw [hstrategies]; exact hb.once,
    fun s hs => ?_, fun b hbmem => ?_⟩
  · rw [hstrategies] at hs
    obtain ⟨t, ht, hst, hopens, hbooked⟩ := hb.opened s hs
    exact ⟨t, h.completed t ht hst, hst, hopens,
      h.booked hwf hwf' hsound (hb.below s hs) ht hst hbooked⟩
  · rw [hstrategies]
    exact hb.every t (hback t ht hst) hst hopens
  · rw [hstrategies] at hs
    exact lt_of_lt_of_le (hb.below s hs) h.nextId
  · obtain ⟨added, heq, hadded⟩ := h.strategyLegs
    rw [heq] at hbmem
    rcases List.mem_append.mp hbmem with hbmem | hbmem
    · exact lt_of_lt_of_le (hb.legs_below b hbmem) h.nextId
    · exact (hadded b hbmem).2

/-- A step that completes one task opens its strategy, if it is to have one. -/
theorem Booked.complete {db db' : Database} (hb : Booked num db) (h : Grows db db')
    (hwf : WellFormed db) (hwf' : WellFormed db') (hsound : OrdersSound db)
    {old new : ExecutionTaskRow}
    (htasks : db'.tasks = Table.put db.tasks new) (hold : old ∈ db.tasks) (hid : new.id = old.id)
    (hne : old.status ≠ .completed) (hst : new.status = .completed)
    (hopens : (new.createStrategy = false ∧ db'.strategies = db.strategies)
      ∨ (new.createStrategy = true ∧ ∃ s, db'.strategies = db.strategies ++ [s]
        ∧ s.id < db'.nextId ∧ StrategyBooked num db' s new)) : Booked num db' := by
  have hmem' : new ∈ db'.tasks := by
    rw [htasks]
    exact Table.mem_put.mpr (.inl ⟨rfl, old, hold, hid.symm⟩)
  have hback : ∀ t ∈ db'.tasks, t ≠ new → t.status = .completed → t ∈ db.tasks := by
    intro t ht hnew _
    rw [htasks] at ht
    rcases Table.mem_put.mp ht with ⟨rfl, -⟩ | ⟨ht, -⟩
    · exact absurd rfl hnew
    · exact ht
  -- No strategy was opened by the task before.
  have hfresh : ∀ s ∈ db.strategies, s.openingTaskId ≠ new.id := by
    intro s hs heq
    obtain ⟨t, ht, htst, -, hbooked⟩ := hb.opened s hs
    have hsame : t = old := hwf.tasks_unique.eq ht hold (hbooked.task.symm.trans (heq.trans hid))
    rw [hsame] at htst
    exact hne htst
  -- The strategies from before stay booked.
  have hopened : ∀ s ∈ db.strategies, ∃ t ∈ db'.tasks, t.status = .completed ∧ t.createStrategy
      ∧ StrategyBooked num db' s t := by
    intro s hs
    obtain ⟨t, ht, htst, htopens, hbooked⟩ := hb.opened s hs
    exact ⟨t, h.completed t ht htst, htst, htopens,
      h.booked hwf hwf' hsound (hb.below s hs) ht htst hbooked⟩
  have hlegs : ∀ b ∈ db'.strategyLegs, b.strategyId < db'.nextId := by
    intro b hbmem
    obtain ⟨added, heq, hadded⟩ := h.strategyLegs
    rw [heq] at hbmem
    rcases List.mem_append.mp hbmem with hbmem | hbmem
    · exact lt_of_lt_of_le (hb.legs_below b hbmem) h.nextId
    · exact (hadded b hbmem).2
  rcases hopens with ⟨hno, hstrategies⟩ | ⟨hyes, s, hstrategies, hbelow, hbooked⟩
  · refine ⟨by rw [hstrategies]; exact hopened, fun t ht htst htopens => ?_,
      by rw [hstrategies]; exact hb.once, fun s hs => ?_, hlegs⟩
    · have htne : t ≠ new := by
        rintro rfl
        rw [hno] at htopens
        cases htopens
      rw [hstrategies]
      exact hb.every t (hback t ht htne htst) htst htopens
    · rw [hstrategies] at hs
      exact lt_of_lt_of_le (hb.below s hs) h.nextId
  · refine ⟨fun s' hs' => ?_, fun t ht htst htopens => ?_, ?_, fun s' hs' => ?_, hlegs⟩
    · rw [hstrategies] at hs'
      rcases List.mem_append.mp hs' with hs' | hs'
      · exact hopened s' hs'
      · rw [List.mem_singleton.mp hs']
        exact ⟨new, hmem', hst, hyes, hbooked⟩
    · rw [hstrategies]
      by_cases htne : t = new
      · exact ⟨s, List.mem_append.mpr (.inr (List.mem_singleton.mpr rfl)), htne ▸ hbooked.task⟩
      · obtain ⟨s', hs', htask⟩ := hb.every t (hback t ht htne htst) htst htopens
        exact ⟨s', List.mem_append.mpr (.inl hs'), htask⟩
    · rw [hstrategies, List.map_append, List.nodup_append]
      refine ⟨hb.once, List.nodup_singleton _, fun a ha c hc heq => ?_⟩
      obtain ⟨s', hs', rfl⟩ := List.mem_map.mp ha
      rw [List.map_singleton, List.mem_singleton] at hc
      exact hfresh s' hs' (heq.trans (hc.trans hbooked.task))
    · rw [hstrategies] at hs'
      rcases List.mem_append.mp hs' with hs' | hs'
      · exact lt_of_lt_of_le (hb.below s' hs') h.nextId
      · rw [List.mem_singleton.mp hs']
        exact hbelow

/-! ## §4. The completion of a live task. -/

/-- The orders on a leg are all of the run of its task. -/
theorem fillsOfLeg_eq {db : Database} (hwf : WellFormed db) {run : ExecutionRunRow}
    (hrun : run ∈ db.runs) {leg : ExecutionTaskLegRow} (hleg : leg ∈ db.legs)
    (htask : leg.taskId = run.taskId) :
    (db.fillsOfLeg run.id leg.id).map (fun v => (v.1.baseMultiplier, v.2))
      = executions db leg.id := by
  have hsame : ∀ f : ExecutionFillRow,
      (db.orders.find? fun o =>
          o.id = f.executionOrderId ∧ o.runId = run.id ∧ o.taskLegId = leg.id)
        = db.orders.find? fun o => o.id = f.executionOrderId ∧ o.taskLegId = leg.id := by
    intro f
    rw [← List.head?_filter, ← List.head?_filter]
    refine congrArg _ (List.filter_congr fun o ho => decide_eq_decide.mpr
      ⟨fun h => ⟨h.1, h.2.2⟩, fun h => ?_⟩)
    obtain ⟨r, hr, l, hl, hrid, hlid, hown⟩ := hwf.order_owner o ho
    have hl' : l = leg := hwf.legs_unique.eq hl hleg (hlid.trans h.2)
    have hr' : r = run := hwf.run_of_task r hr run hrun (by rw [← hown, hl', htask])
    exact ⟨h.1, by rw [← hrid, hr'], h.2⟩
  unfold fillsOfLeg executions
  rw [List.map_filterMap]
  refine List.filterMap_congr fun f _ => ?_
  rw [hsame f, Option.map_map]
  rfl

/-- What an aggregate says of its leg. -/
structure Aggregates (num : Numeric) (db : Database) (baseAsset : String) (a : LegAggregate) :
    Prop where
  quantity : a.baseQuantity = baseOf (executions db a.leg.id)
  traded : a.baseQuantity ≠ 0
  price : a.averagePrice = num.divide (notionalOf (executions db a.leg.id)) a.baseQuantity
  fees : feesUsdt baseAsset ((executions db a.leg.id).map (·.2)) = .ok a.feeUsdt

theorem aggregateLeg_ok {db : Database} (hwf : WellFormed db) {baseAsset : String}
    {run : ExecutionRunRow} (hrun : run ∈ db.runs) {leg : ExecutionTaskLegRow} (hleg : leg ∈ db.legs)
    (htask : leg.taskId = run.taskId) {a : LegAggregate}
    (h : db.aggregateLeg num baseAsset run.id leg = .ok a) :
    a.leg = leg ∧ Aggregates num db baseAsset a := by
  -- The source joins fills with orders; these are the executions of the leg.
  have hfills := fillsOfLeg_eq hwf hrun hleg htask
  simp only [aggregateLeg, raiseIf_bind_eq_ok] at h
  obtain ⟨-, h⟩ := h
  obtain ⟨fee, hfee, h⟩ := bind_eq_ok.mp h
  simp only [raiseIf_bind_eq_ok] at h
  obtain ⟨hbase, h⟩ := h
  injection h with h
  subst h
  have hsum : (db.fillsOfLeg run.id leg.id).map (fun v => v.2.quantity * v.1.baseMultiplier)
      = (executions db leg.id).map fun v => v.2.quantity * v.1 := by
    rw [← hfills, List.map_map]
    rfl
  have hnotional : (db.fillsOfLeg run.id leg.id).map
      (fun v => v.2.quantity * v.1.baseMultiplier * v.2.price)
        = (executions db leg.id).map fun v => v.2.quantity * v.1 * v.2.price := by
    rw [← hfills, List.map_map]
    rfl
  have hrows : (db.fillsOfLeg run.id leg.id).map (·.2) = (executions db leg.id).map (·.2) := by
    rw [← hfills, List.map_map]
    rfl
  -- Quantity, price and fee are sums over those.
  refine ⟨rfl, ?_, hbase, ?_, ?_⟩
  · show (List.map _ _).sum = _
    rw [hsum]
    rfl
  · show num.divide (List.map _ _).sum (List.map _ _).sum = num.divide _ (List.map _ _).sum
    rw [hnotional]
    rfl
  · show feesUsdt baseAsset ((executions db leg.id).map (·.2)) = .ok fee
    rw [← hrows]
    exact hfee

theorem aggregateLegs_ok {db : Database} (hwf : WellFormed db) {baseAsset : String}
    {run : ExecutionRunRow} (hrun : run ∈ db.runs) :
    ∀ {legs : List ExecutionTaskLegRow} {as : List LegAggregate},
      (∀ l ∈ legs, l ∈ db.legs ∧ l.taskId = run.taskId) →
      db.aggregateLegs num baseAsset run.id legs = .ok as →
      as.map (·.leg) = legs ∧ ∀ a ∈ as, Aggregates num db baseAsset a
  | [], as, _, h => by
      injection h with h
      subst h
      exact ⟨rfl, fun a ha => absurd ha List.not_mem_nil⟩
  | leg :: rest, as, hlegs, h => by
      obtain ⟨first, hfirst, h⟩ := bind_eq_ok.mp h
      obtain ⟨others, hothers, h⟩ := bind_eq_ok.mp h
      injection h with h
      subst h
      obtain ⟨⟨hmem, htask⟩, hrest⟩ := List.forall_mem_cons.mp hlegs
      obtain ⟨hleg, hfits⟩ := aggregateLeg_ok hwf hrun hmem htask hfirst
      obtain ⟨hsame, hall⟩ := aggregateLegs_ok hwf hrun hrest hothers
      refine ⟨?_, List.forall_mem_cons.mpr ⟨hfits, hall⟩⟩
      rw [List.map_cons, hleg, hsame]

/-- What is filled is not negative. -/
theorem baseOf_nonneg (db : Database) (legId : Nat) : 0 ≤ baseOf (executions db legId) := by
  unfold baseOf
  refine List.sum_nonneg fun x hx => ?_
  obtain ⟨v, hv, rfl⟩ := List.mem_map.mp hx
  obtain ⟨f, -, hf⟩ := List.mem_filterMap.mp hv
  obtain ⟨o, -, rfl⟩ := Option.map_eq_some_iff.mp hf
  exact mul_nonneg f.quantity_price_check.1.le o.quantity_check.2.le

/-- The strategy leg of an aggregate. -/
def aggregateStrategyLeg (num : Numeric) (a : LegAggregate) (strategyId id : Nat) :
    StrategyLegRow where
  id := id
  strategyId := strategyId
  openingTaskLegId := a.leg.id
  accountId := a.leg.accountId
  ordinal := a.leg.ordinal
  marketType := a.leg.marketType
  side := a.leg.side
  symbol := a.leg.symbol
  initialBaseQuantity := a.baseQuantity
  remainingBaseQuantity := a.baseQuantity
  entryPrice := num.store a.averagePrice
  feesUsdt := a.feeUsdt

theorem aggregateStrategyLeg_booked {db : Database} {baseAsset : String} {a : LegAggregate}
    (h : Aggregates num db baseAsset a) (strategyId id : Nat) :
    LegBooked num db baseAsset a.leg (aggregateStrategyLeg num a strategyId id) where
  openingTaskLegId := rfl
  accountId := rfl
  ordinal := rfl
  marketType := rfl
  side := rfl
  symbol := rfl
  quantity := h.quantity
  positive := lt_of_le_of_ne (by
    show 0 ≤ a.baseQuantity
    rw [h.quantity]
    exact baseOf_nonneg db a.leg.id) h.traded.symm
  remaining := rfl
  cost := .inr (by
    show num.store a.averagePrice = _
    rw [h.price, h.quantity])
  fees := h.fees

/-- The row of a task that has been completed. -/
def ExecutionTaskRow.finished (t : ExecutionTaskRow) : ExecutionTaskRow :=
  { t with status := .completed, version := t.version + 1 }

/-- The strategy of a task. -/
def taskStrategy (task : ExecutionTaskRow) (fees : ℚ) (id : Nat) (now : Int) :
    ArbitrageStrategyRow where
  id := id
  name := task.name
  environment := task.environment
  baseAsset := task.baseAsset
  openingTaskId := task.id
  feesUsdt := fees
  openedAt := now

/-- The strategy legs of the aggregates of a task. -/
def aggregateStrategyLegs (num : Numeric) (aggregates : List LegAggregate) (nextId : Nat) :
    List StrategyLegRow :=
  aggregates.mapIdx fun i a => aggregateStrategyLeg num a nextId (nextId + 1 + i)

/-- What a completion writes. -/
theorem completeLiveExecutionTask_rows {taskId runId : Nat} {worker : String} {amb : Ambient}
    {done : Bool} {db db' : Database}
    (h : completeLiveExecutionTask num taskId runId worker amb db = .ok (done, db')) :
    db' = db ∨ ∃ task run aggregates, Table.find? db.tasks taskId = some task
      ∧ (task.status = .running ∨ task.status = .hedging)
      ∧ Table.find? db.runs runId = some run ∧ run.taskId = taskId
      ∧ db.aggregateLegs num task.baseAsset runId (db.legsOfTask taskId) = .ok aggregates
      ∧ db'.tasks = Table.put db.tasks task.finished ∧ db'.legs = db.legs
      ∧ db'.orders = db.orders ∧ db'.fills = db.fills
      ∧ ((task.createStrategy = false ∧ db'.strategies = db.strategies
          ∧ db'.strategyLegs = db.strategyLegs ∧ db'.nextId = db.nextId)
        ∨ (task.createStrategy = true
          ∧ db'.strategies = db.strategies
            ++ [taskStrategy task (aggregates.map (·.feeUsdt)).sum db.nextId amb.now]
          ∧ db'.strategyLegs = db.strategyLegs ++ aggregateStrategyLegs num aggregates db.nextId
          ∧ db'.nextId = db.nextId + 1 + (aggregateStrategyLegs num aggregates db.nextId).length)) := by
  simp only [completeLiveExecutionTask] at h
  obtain ⟨⟨task, run⟩, hp, h⟩ := bind_eq_ok.mp h
  obtain ⟨htask, hrun, hsame⟩ := taskAndRun_ok hp
  -- Completed before, so nothing is written.
  split at h
  · injection h with h
    exact .inl (Prod.mk.inj h).2.symm
  · simp only [raiseIf_bind_eq_ok] at h
    obtain ⟨hstatus, h⟩ := h
    obtain ⟨aggregates, haggregates, h⟩ := bind_eq_ok.mp h
    injection h with h
    obtain ⟨-, rfl⟩ := Prod.mk.inj h
    have hactive : task.status = .running ∨ task.status = .hedging := by
      by_cases hr : task.status = .running
      · exact .inl hr
      · exact .inr (not_not.mp fun hh => hstatus ⟨hr, hh⟩)
    refine .inr ⟨task, run, aggregates, htask, hactive, hrun, hsame, haggregates, ?_⟩
    -- The rows of the strategy come only where the task asks for them.
    by_cases hc : task.createStrategy = true
    · rw [if_pos hc]
      exact ⟨rfl, rfl, rfl, rfl, .inr ⟨hc, rfl, rfl, rfl⟩⟩
    · rw [if_neg hc]
      exact ⟨rfl, rfl, rfl, rfl, .inl ⟨Bool.eq_false_iff.mpr hc, rfl, rfl, rfl⟩⟩

/-- The legs of the tasks that a strategy opened among others has. -/
theorem strategyLegsOf_append {db db' : Database} {added : List StrategyLegRow}
    (h : db'.strategyLegs = db.strategyLegs ++ added)
    (hbelow : ∀ b ∈ db.strategyLegs, b.strategyId < db.nextId)
    (hadded : ∀ b ∈ added, b.strategyId = db.nextId) : strategyLegsOf db' db.nextId = added := by
  have hold : db.strategyLegs.filter (fun b => b.strategyId = db.nextId) = [] := by
    refine List.filter_eq_nil_iff.mpr fun b hb hid => ?_
    have hid : b.strategyId = db.nextId := of_decide_eq_true hid
    have hlt := hbelow b hb
    omega
  have hnew : added.filter (fun b => b.strategyId = db.nextId) = added :=
    List.filter_eq_self.mpr fun b hb => decide_eq_true (hadded b hb)
  unfold strategyLegsOf
  rw [h, List.filter_append, hold, hnew, List.nil_append]

/-- The keys of the legs of a task are distinct. -/
theorem legsOfTask_nodup {db : Database} (hu : Table.Unique db.legs) (taskId : Nat) :
    ((db.legsOfTask taskId).map (·.id)).Nodup := by
  have hperm := (List.perm_insertionSort (fun a b : ExecutionTaskLegRow => a.ordinal ≤ b.ordinal)
    (db.legs.filter fun l => l.taskId = taskId)).map (·.id)
  exact hperm.nodup_iff.mpr ((List.filter_sublist.map _).nodup hu)

/-- The executions are read off the orders and the fills. -/
theorem executions_same {db db' : Database} (horders : db'.orders = db.orders)
    (hfills : db'.fills = db.fills) (legId : Nat) : executions db' legId = executions db legId := by
  unfold executions
  rw [horders, hfills]

/-- A task that was completed stays where another is. -/
theorem completed_put {db : Database} (hwf : WellFormed db) {old new : ExecutionTaskRow}
    (hold : old ∈ db.tasks) (hid : new.id = old.id) (hne : old.status ≠ .completed) :
    ∀ t ∈ db.tasks, t.status = .completed → t ∈ Table.put db.tasks new := by
  intro t ht hst
  refine Table.mem_put.mpr (.inr ⟨ht, fun hk => ?_⟩)
  rw [hwf.tasks_unique.eq ht hold (hk.trans hid)] at hst
  exact hne hst

theorem not_completed {t : ExecutionTaskRow} (h : t.status = .running ∨ t.status = .hedging) :
    t.status ≠ .completed := by
  intro hc
  rw [hc] at h
  rcases h with h | h <;> cases h

/-- The completion of a live task leaves the rest as it is. -/
theorem complete_grows {taskId runId : Nat} {worker : String} {amb : Ambient} {done : Bool}
    {db db' : Database} (hwf : WellFormed db)
    (h : completeLiveExecutionTask num taskId runId worker amb db = .ok (done, db')) :
    Grows db db' := by
  rcases completeLiveExecutionTask_rows h with
    rfl | ⟨task, run, aggregates, htask, hactive, -, -, -, htasks, hlegs, horders, hfills, hopens⟩
  · exact .refl db'
  have hcompleted : ∀ t ∈ db.tasks, t.status = .completed → t ∈ db'.tasks := by
    rw [htasks]
    exact completed_put hwf (Table.find?_some htask).1 rfl (not_completed hactive)
  rcases hopens with ⟨-, -, hstrategyLegs, hnext⟩ | ⟨-, -, hstrategyLegs, hnext⟩
  · refine ⟨.same horders hfills, .same hlegs, hcompleted, hnext.ge, [], ?_,
      fun b hb => absurd hb List.not_mem_nil⟩
    rw [hstrategyLegs, List.append_nil]
  · refine ⟨.same horders hfills, .same hlegs, hcompleted, by omega, _, hstrategyLegs, fun b hb => ?_⟩
    obtain ⟨i, -, rfl⟩ := List.mem_mapIdx.mp hb
    refine ⟨le_refl _, ?_⟩
    show db.nextId < db'.nextId
    omega

/-- The completion of a live task books it. -/
theorem complete_booked {taskId runId : Nat} {worker : String} {amb : Ambient} {done : Bool}
    {db db' : Database} (hb : Booked num db) (hwf : WellFormed db) (hwf' : WellFormed db')
    (hsound : OrdersSound db)
    (h : completeLiveExecutionTask num taskId runId worker amb db = .ok (done, db')) :
    Booked num db' := by
  have hgrows := complete_grows hwf h
  rcases completeLiveExecutionTask_rows h with
    rfl | ⟨task, run, aggregates, htask, hactive, hrun, hrunTask, haggregates, htasks, hlegs, horders,
      hfills, hopens⟩
  · exact hb
  obtain ⟨htask, hid⟩ := Table.find?_some htask
  obtain ⟨hrun, hrunId⟩ := Table.find?_some hrun
  refine hb.complete hgrows hwf hwf' hsound htasks htask rfl (not_completed hactive) rfl ?_
  rcases hopens with ⟨hc, hstrategies, -⟩ | ⟨hc, hstrategies, hstrategyLegs, hnext⟩
  · exact .inl ⟨hc, hstrategies⟩
  refine .inr ⟨hc, _, hstrategies, show db.nextId < db'.nextId by omega, ?_⟩
  rw [show runId = run.id from hrunId.symm] at haggregates
  obtain ⟨hsame, hfit⟩ := aggregateLegs_ok hwf hrun (fun l hl => by
    obtain ⟨hmem, hown⟩ := mem_legsOfTask.mp hl
    exact ⟨hmem, hown.trans hrunTask.symm⟩) haggregates
  have hlegsOf := strategyLegsOf_append hstrategyLegs hb.legs_below fun b hbmem => by
    obtain ⟨i, -, rfl⟩ := List.mem_mapIdx.mp hbmem
    rfl
  -- Every column of the strategy legs is one of the aggregates, in their order.
  have hmap : ∀ {α : Type} (g : StrategyLegRow → α) (g' : LegAggregate → α),
      (∀ a strategyId id, g (aggregateStrategyLeg num a strategyId id) = g' a) →
      (strategyLegsOf db' db.nextId).map g = aggregates.map g' := by
    intro α g g' hg
    rw [hlegsOf]
    refine List.ext_getElem (by simp [aggregateStrategyLegs]) fun i hi hi' => ?_
    simp [aggregateStrategyLegs, hg]
  have htaskId : taskId = task.id := hid.symm
  rw [htaskId] at hsame
  refine ⟨rfl, rfl, rfl, rfl, fun l hl hown => ?_, fun b hbmem => ?_, ?_, ?_⟩
  · -- A leg of the task has its aggregate, and that one its strategy leg.
    rw [hlegs] at hl
    have hl : l ∈ aggregates.map (·.leg) := by
      rw [hsame]
      exact mem_legsOfTask.mpr ⟨hl, hown⟩
    obtain ⟨a, ha, rfl⟩ := List.mem_map.mp hl
    obtain ⟨i, hi, rfl⟩ := List.getElem_of_mem ha
    refine ⟨aggregateStrategyLeg num aggregates[i] db.nextId (db.nextId + 1 + i), ?_,
      (aggregateStrategyLeg_booked (hfit _ ha) _ _).executed (executions_same horders hfills _)⟩
    show _ ∈ strategyLegsOf db' db.nextId
    rw [hlegsOf]
    exact List.mem_mapIdx.mpr ⟨i, hi, rfl⟩
  · -- A strategy leg comes from the aggregate of a leg of the task.
    have hbmem : b ∈ aggregateStrategyLegs num aggregates db.nextId := by
      rw [← hlegsOf]
      exact hbmem
    obtain ⟨i, hi, rfl⟩ := List.mem_mapIdx.mp hbmem
    have hmem : aggregates[i].leg ∈ db.legsOfTask task.id := by
      rw [← hsame]
      exact List.mem_map_of_mem (List.getElem_mem hi)
    rw [hlegs]
    obtain ⟨hmem, hown⟩ := mem_legsOfTask.mp hmem
    exact ⟨_, hmem, hown, rfl⟩
  · show ((strategyLegsOf db' db.nextId).map (·.openingTaskLegId)).Nodup
    rw [hmap _ (fun a => a.leg.id) fun a _ _ => rfl]
    have hnodup := legsOfTask_nodup hwf.legs_unique task.id
    rw [← hsame, List.map_map] at hnodup
    exact hnodup
  · show _ = ((strategyLegsOf db' db.nextId).map (·.feesUsdt)).sum
    rw [hmap _ (·.feeUsdt) fun a _ _ => rfl]
    rfl

/-! ## §5. The completion of a paper task. -/

/-- A new order with its fill adds to what its leg has executed. -/
theorem executions_append {db db' : Database} {o : ExecutionOrderRow} {f : ExecutionFillRow}
    (hbelow : ∀ x ∈ db.orders, x.id < o.id)
    (howner : ∀ x ∈ db.fills, ∃ y ∈ db.orders, y.id = x.executionOrderId)
    (horders : db'.orders = db.orders ++ [o]) (hfills : db'.fills = db.fills ++ [f])
    (hid : f.executionOrderId = o.id) (legId : Nat) :
    executions db' legId
      = executions db legId ++ if o.taskLegId = legId then [(o.baseMultiplier, f)] else [] := by
  -- An old fill finds its old order.
  have hold : ∀ x ∈ db.fills, (db.orders ++ [o]).find? (fun y => y.id = x.executionOrderId
      ∧ y.taskLegId = legId)
        = db.orders.find? fun y => y.id = x.executionOrderId ∧ y.taskLegId = legId := by
    intro x hx
    obtain ⟨y, hy, hyid⟩ := howner x hx
    have hlt := hbelow y hy
    have hnot : ([o] : List ExecutionOrderRow).find? (fun y => y.id = x.executionOrderId
        ∧ y.taskLegId = legId) = none := by
      refine List.find?_eq_none.mpr fun z hz hfits => ?_
      rw [decide_eq_true_eq, List.mem_singleton.mp hz] at hfits
      omega
    rw [List.find?_append, hnot, Option.or_none]
  -- The new fill finds the new order, as no old one has its identifier.
  have hnew : (db.orders ++ [o]).find? (fun y => y.id = f.executionOrderId ∧ y.taskLegId = legId)
      = if o.taskLegId = legId then some o else none := by
    have hnot : db.orders.find? (fun y => y.id = f.executionOrderId ∧ y.taskLegId = legId) = none := by
      refine List.find?_eq_none.mpr fun y hy hfits => ?_
      rw [decide_eq_true_eq] at hfits
      have hlt := hbelow y hy
      omega
    rw [List.find?_append, hnot, Option.none_or, List.find?_singleton]
    simp [hid]
  unfold executions
  rw [horders, hfills, List.filterMap_append]
  refine congrArg₂ _ (List.filterMap_congr fun x hx => by rw [hold x hx]) ?_
  rw [List.filterMap_cons, hnew, List.filterMap_nil]
  by_cases hleg : o.taskLegId = legId
  · rw [if_pos hleg, if_pos hleg]
    rfl
  · rw [if_neg hleg, if_neg hleg]
    rfl

/-- On the way to the completion of a paper task: the fills stored so far, and
their strategy legs. -/
structure Filling (num : Numeric) (legs : List ExecutionTaskLegRow) (strategyId : Nat)
    (baseAsset : String) (stored : List PaperFill) (db : Database) : Prop where
  sound : OrdersSound db
  below : Table.KeysBelow db.orders db.nextId
  booked : ∀ f ∈ stored, ∃ leg ∈ legs, leg.id = f.taskLegId
    ∧ ∃ b ∈ strategyLegsOf db strategyId, LegBooked num db baseAsset leg b
  only : ∀ b ∈ strategyLegsOf db strategyId, ∃ leg ∈ legs, leg.id = b.openingTaskLegId
  once : ((strategyLegsOf db strategyId).map (·.openingTaskLegId)).Nodup
  traded : ∀ b ∈ strategyLegsOf db strategyId, executions db b.openingTaskLegId ≠ []
  fees : (stored.map (·.feeUsdt)).sum = ((strategyLegsOf db strategyId).map (·.feesUsdt)).sum

/-- A leg whose orders are still to come has executed nothing. -/
theorem executions_eq_nil {db : Database} {legId : Nat} (h : ∀ o ∈ db.orders, o.taskLegId ≠ legId) :
    executions db legId = [] := by
  refine List.filterMap_eq_nil_iff.mpr fun f _ => ?_
  have hnone : db.orders.find? (fun o => o.id = f.executionOrderId ∧ o.taskLegId = legId) = none :=
    List.find?_eq_none.mpr fun o ho hfits => h o ho (of_decide_eq_true hfits).2
  rw [hnone]
  rfl

/-- The strategy leg of a paper fill books its leg. -/
theorem paperStrategyLeg_booked {db : Database} {baseAsset : String} {leg : ExecutionTaskLegRow}
    {f : PaperFill} {fill : ExecutionFillRow} (hq : 0 < f.nativeQuantity ∧ 0 < f.baseMultiplier)
    (hquantity : fill.quantity = f.nativeQuantity) (hprice : fill.price = f.price)
    (hfee : fill.feeAmount = f.feeUsdt) (hasset : fill.feeAsset = "USDT")
    (h : executions db leg.id = [(f.baseMultiplier, fill)]) (strategyId id : Nat) :
    LegBooked num db baseAsset leg (paperStrategyLeg leg f id strategyId) where
  openingTaskLegId := rfl
  accountId := rfl
  ordinal := rfl
  marketType := rfl
  side := rfl
  symbol := rfl
  quantity := by
    rw [h]
    show f.nativeQuantity * f.baseMultiplier = fill.quantity * f.baseMultiplier + 0
    rw [hquantity, add_zero]
  positive := mul_pos hq.1 hq.2
  remaining := rfl
  cost := .inl ⟨_, h, hprice.symm⟩
  fees := by
    rw [h]
    have hvalued : fillFeeUsdt baseAsset fill = .ok f.feeUsdt := by
      unfold fillFeeUsdt
      rw [hasset, hfee, if_pos (.inl rfl)]
    show feesUsdt baseAsset [fill] = .ok f.feeUsdt
    unfold feesUsdt
    rw [hvalued]
    exact congrArg Except.ok (add_zero f.feeUsdt)

/-- A first order with its fill leaves the orders in order. -/
theorem OrdersSound.order {db db' : Database} (hs : OrdersSound db) {o : ExecutionOrderRow}
    {f : ExecutionFillRow} (horders : db'.orders = db.orders ++ [o])
    (hfills : db'.fills = db.fills ++ [f]) (hdated : o.Dated) (howner : o.id = f.executionOrderId)
    (hattempt : o.attemptNumber = 1) (hchase : o.chaseNumber = 0) : OrdersSound db' where
  dated := by
    intro x hx
    rw [horders] at hx
    rcases List.mem_append.mp hx with hx | hx
    · exact hs.dated x hx
    · rw [List.mem_singleton.mp hx]
      exact hdated
  owner := by
    intro x hx
    rw [hfills] at hx
    rw [horders]
    rcases List.mem_append.mp hx with hx | hx
    · obtain ⟨y, hy, hid⟩ := hs.owner x hx
      exact ⟨y, List.mem_append.mpr (.inl hy), hid⟩
    · rw [List.mem_singleton.mp hx]
      exact ⟨o, List.mem_append.mpr (.inr (List.mem_singleton.mpr rfl)), howner⟩
  first := by
    intro x hx
    rw [horders] at hx ⊢
    rcases List.mem_append.mp hx with hx | hx
    · obtain ⟨y, hy, hsame, hnumbers⟩ := hs.first x hx
      exact ⟨y, List.mem_append.mpr (.inl hy), hsame, hnumbers⟩
    · rw [List.mem_singleton.mp hx]
      exact ⟨o, List.mem_append.mpr (.inr (List.mem_singleton.mpr rfl)), rfl, hattempt, hchase⟩

/-- One fill more is stored. -/
theorem Filling.store {legs : List ExecutionTaskLegRow} {strategyId runId : Nat}
    {baseAsset : String} {stored : List PaperFill} {f : PaperFill} {amb : Ambient}
    {db db' : Database} (hfilling : Filling num legs strategyId baseAsset stored db)
    (h : storePaperFill runId (some strategyId) legs f amb db = .ok db') :
    Filling num legs strategyId baseAsset (stored ++ [f]) db' := by
  obtain ⟨leg, hq, fill, hleg, howner, hquantity, hprice, hfee, hasset, hfirst, hdb⟩ :=
    storePaperFill_rows h
  have horders : db'.orders = db.orders ++ [paperOrder runId leg f amb db.nextId hq] := by rw [hdb]
  have hfills : db'.fills = db.fills ++ [fill] := by rw [hdb]
  have hlegs : db'.strategyLegs
      = db.strategyLegs ++ [paperStrategyLeg leg f (db.nextId + 2) strategyId] := by
    rw [hdb]
    rfl
  have hnext : db'.nextId = db.nextId + 3 := by rw [hdb]
  have hmem : leg ∈ legs := List.mem_of_find?_eq_some hleg
  have hid := List.find?_some hleg
  rw [decide_eq_true_eq] at hid
  -- The first order of its leg.
  have hnone : ∀ o ∈ db.orders, o.taskLegId ≠ leg.id := by
    intro o ho heq
    obtain ⟨first, hfirstMem, hsame, hnumbers⟩ := hfilling.sound.first o ho
    exact hfirst first hfirstMem (hsame.trans heq) hnumbers
  have hexecutions := executions_append (fun x hx => hfilling.below x hx) hfilling.sound.owner horders
    hfills howner
  have hnew := hexecutions leg.id
  rw [executions_eq_nil hnone, if_pos (show (paperOrder runId leg f amb db.nextId hq).taskLegId
    = leg.id from rfl), List.nil_append] at hnew
  have hbooked :
      LegBooked num db' baseAsset leg (paperStrategyLeg leg f (db.nextId + 2) strategyId) :=
    paperStrategyLeg_booked hq hquantity hprice hfee hasset hnew _ _
  -- The legs that are booked already are others.
  have hother : ∀ b ∈ strategyLegsOf db strategyId, b.openingTaskLegId ≠ leg.id := by
    intro b hb heq
    refine hfilling.traded b hb ?_
    rw [heq]
    exact executions_eq_nil hnone
  have hkept : ∀ b ∈ strategyLegsOf db strategyId,
      executions db' b.openingTaskLegId = executions db b.openingTaskLegId := by
    intro b hb
    rw [hexecutions, if_neg fun heq => hother b hb heq.symm, List.append_nil]
  have hlegsOf : strategyLegsOf db' strategyId
      = strategyLegsOf db strategyId ++ [paperStrategyLeg leg f (db.nextId + 2) strategyId] := by
    have hself : [paperStrategyLeg leg f (db.nextId + 2) strategyId].filter
        (fun b => b.strategyId = strategyId) = [paperStrategyLeg leg f (db.nextId + 2) strategyId] :=
      List.filter_eq_self.mpr fun b hb => decide_eq_true (by rw [List.mem_singleton.mp hb]; rfl)
    unfold strategyLegsOf
    rw [hlegs, List.filter_append, hself]
  refine ⟨hfilling.sound.order horders hfills rfl howner.symm rfl rfl, fun o ho => ?_,
    fun g hg => ?_, fun b hb => ?_, ?_, fun b hb => ?_, ?_⟩
  · rw [horders] at ho
    rw [hnext]
    rcases List.mem_append.mp ho with ho | ho
    · have hlt := hfilling.below o ho
      omega
    · rw [List.mem_singleton.mp ho]
      show db.nextId < db.nextId + 3
      omega
  · rcases List.mem_append.mp hg with hg | hg
    · obtain ⟨l, hl, hlid, b, hb, hbooks⟩ := hfilling.booked g hg
      refine ⟨l, hl, hlid, b, by rw [hlegsOf]; exact List.mem_append.mpr (.inl hb), ?_⟩
      exact hbooks.executed (hbooks.openingTaskLegId ▸ hkept b hb)
    · rw [List.mem_singleton.mp hg]
      exact ⟨leg, hmem, hid, _, by
        rw [hlegsOf]
        exact List.mem_append.mpr (.inr (List.mem_singleton.mpr rfl)), hbooked⟩
  · rw [hlegsOf] at hb
    rcases List.mem_append.mp hb with hb | hb
    · exact hfilling.only b hb
    · rw [List.mem_singleton.mp hb]
      exact ⟨leg, hmem, rfl⟩
  · rw [hlegsOf, List.map_append, List.nodup_append]
    refine ⟨hfilling.once, List.nodup_singleton _, fun x hx y hy heq => ?_⟩
    obtain ⟨b, hb, rfl⟩ := List.mem_map.mp hx
    rw [List.map_singleton, List.mem_singleton] at hy
    exact hother b hb (heq.trans hy)
  · rw [hlegsOf] at hb
    rcases List.mem_append.mp hb with hb | hb
    · rw [hkept b hb]
      exact hfilling.traded b hb
    · rw [List.mem_singleton.mp hb]
      show executions db' leg.id ≠ []
      rw [hnew]
      exact List.cons_ne_nil _ _
  · rw [hlegsOf, List.map_append, List.map_append, List.sum_append, List.sum_append, hfilling.fees]
    rfl

/-- All fills are stored. -/
theorem Filling.storeAll {legs : List ExecutionTaskLegRow} {strategyId runId : Nat}
    {baseAsset : String} {amb : Ambient} : ∀ {fills stored : List PaperFill} {db db' : Database},
      Filling num legs strategyId baseAsset stored db →
      storePaperFills runId (some strategyId) legs amb fills db = .ok db' →
      Filling num legs strategyId baseAsset (stored ++ fills) db'
  | [], stored, db, db', hfilling, h => by
      injection h with h
      rw [List.append_nil, ← h]
      exact hfilling
  | f :: rest, stored, db, db', hfilling, h => by
      obtain ⟨db₁, h₁, h⟩ := bind_eq_ok.mp h
      have hall := (hfilling.store h₁).storeAll h
      rw [List.append_assoc] at hall
      exact hall

/-- Resolving the legs keeps what was planned for them. -/
theorem resolvePaperLegs_kept {fills : List PaperFill} {anchorQuantity : ℚ} :
    ∀ {legs : List ExecutionTaskLegRow} {db db' : Database}, Table.Unique db.legs →
      (∀ l ∈ legs, ∃ row ∈ db.legs, row.planned = l.planned) →
      resolvePaperLegs num fills anchorQuantity legs db = .ok db' → LegsKept db db'
  | [], db, db', _, _, h => by
      injection h with h
      exact .same (by rw [h])
  | leg :: rest, db, db', hu, hlegs, h => by
      obtain ⟨base, -, h⟩ := bind_eq_ok.mp h
      obtain ⟨ratio, -, h⟩ := bind_eq_ok.mp h
      obtain ⟨⟨row, hrow, hplanned⟩, hrest⟩ := List.forall_mem_cons.mp hlegs
      have hfirst : LegsKept db { db with legs := Table.put db.legs (paperLeg num leg base ratio) } :=
        .put hu rfl hrow hplanned.symm
      refine hfirst.trans (resolvePaperLegs_kept (hu.put _) (fun l hl => ?_) h) (le_refl _)
      obtain ⟨row, hrow, hplanned⟩ := hrest l hl
      obtain ⟨row', hrow', hplanned'⟩ := hfirst.forth row hrow
      exact ⟨row', hrow', hplanned'.trans hplanned⟩

/-- The strategy legs of the fills are those of the strategy. -/
theorem storePaperFills_strategyLegs {runId : Nat} {strategyId : Option Nat}
    {legs : List ExecutionTaskLegRow} {amb : Ambient} :
    ∀ {fills : List PaperFill} {db db' : Database},
      storePaperFills runId strategyId legs amb fills db = .ok db' →
      ∃ added, db'.strategyLegs = db.strategyLegs ++ added
        ∧ ∀ b ∈ added, strategyId = some b.strategyId
  | [], db, db', h => by
      injection h with h
      refine ⟨[], ?_, fun b hb => absurd hb List.not_mem_nil⟩
      rw [List.append_nil, h]
  | f :: rest, db, db', h => by
      obtain ⟨db₁, h₁, h⟩ := bind_eq_ok.mp h
      obtain ⟨leg, hq, fill, -, -, -, -, -, -, -, rfl⟩ := storePaperFill_rows h₁
      obtain ⟨added, heq, hadded⟩ := storePaperFills_strategyLegs h
      refine ⟨_, by rw [heq, List.append_assoc], fun b hb => ?_⟩
      rcases List.mem_append.mp hb with hb | hb
      · obtain ⟨id, hid, rfl⟩ := List.mem_map.mp hb
        exact Option.mem_toList.mp hid
      · exact hadded b hb

/-- A strategy that has just been opened has no legs, and no fill is stored for it. -/
theorem Filling.start {db : Database} (hb : Booked num db) (hwf : WellFormed db)
    (hsound : OrdersSound db) {legs : List ExecutionTaskLegRow} {task : ExecutionTaskRow}
    {fills : List PaperFill} {amb : Ambient}
    {legs' : List ExecutionTaskLegRow} : Filling num legs db.nextId task.baseAsset []
      (openPaperStrategy task fills amb { db with legs := legs' }) := by
  -- Strategy legs name strategies from before, and this one is new.
  have hempty : strategyLegsOf db db.nextId = [] := by
    refine List.filter_eq_nil_iff.mpr fun b hbmem hmine => ?_
    have hmine : b.strategyId = db.nextId := of_decide_eq_true hmine
    have hlt := hb.legs_below b hbmem
    omega
  have hnoLegs : strategyLegsOf (openPaperStrategy task fills amb { db with legs := legs' })
      db.nextId = [] := hempty
  refine ⟨⟨hsound.dated, hsound.owner, hsound.first⟩, hwf.orders_below.mono (Nat.le_succ _),
    fun f hf => absurd hf List.not_mem_nil, ?_, ?_, ?_, ?_⟩ <;> rw [hnoLegs]
  · exact fun b hbmem => absurd hbmem List.not_mem_nil
  · exact List.nodup_nil
  · exact fun b hbmem => absurd hbmem List.not_mem_nil
  · rfl

/-- Once every leg of a task has its fill, the strategy that is opened for the task
books it. -/
theorem Filling.strategyBooked {db db₂ db' : Database} {task : ExecutionTaskRow}
    {fills : List PaperFill}
    (hall : Filling num (db.legsOfTask task.id) db.nextId task.baseAsset fills db₂)
    (hwf : WellFormed db) (htask : task ∈ db.tasks)
    (hevery : FillsEveryLeg (db.legsOfTask task.id) fills) (hkept : LegsKept db db')
    (horders : db'.orders = db₂.orders) (hfills : db'.fills = db₂.fills)
    (hstrategyLegs : db'.strategyLegs = db₂.strategyLegs) (now : Int) :
    StrategyBooked num db' (taskStrategy task (fills.map (·.feeUsdt)).sum db.nextId now)
      task.finished := by
  have hlegsOf : strategyLegsOf db' db.nextId = strategyLegsOf db₂ db.nextId := by
    unfold strategyLegsOf
    rw [hstrategyLegs]
  have hplannedTask : ∀ {l l' : ExecutionTaskLegRow}, l'.planned = l.planned →
      l'.taskId = l.taskId := fun h => show _ = _ from congrArg (·.taskId) h
  refine ⟨rfl, rfl, rfl, rfl, fun l' hl' hmine => ?_, fun b hb => ?_, ?_, ?_⟩
  · -- A leg of the task as it was before its quantity was resolved.
    rcases hkept.back l' hl' with ⟨l, hl, hplanned⟩ | hnew
    · have hl := mem_legsOfTask.mpr ⟨hl, (hplannedTask hplanned).symm.trans hmine⟩
      obtain ⟨f, hf, hfor⟩ := hevery.1 l hl
      obtain ⟨leg, hleg, hlegId, b, hb, hbooked⟩ := hall.booked f hf
      have heq : leg = l := hwf.legs_unique.eq (mem_legsOfTask.mp hleg).1 (mem_legsOfTask.mp hl).1
        (hlegId.trans hfor)
      subst heq
      refine ⟨b, ?_, (hbooked.executed (executions_same horders hfills _)).planned hplanned⟩
      show b ∈ strategyLegsOf db' db.nextId
      rw [hlegsOf]
      exact hb
    · have hlt : task.id < db.nextId := hwf.tasks_below task htask
      have hmine : l'.taskId = task.id := hmine
      omega
  · -- A strategy leg is of a leg of the task, whose quantity has been resolved since.
    have hb : b ∈ strategyLegsOf db' db.nextId := hb
    rw [hlegsOf] at hb
    obtain ⟨l, hl, hlid⟩ := hall.only b hb
    obtain ⟨hl, hmine⟩ := mem_legsOfTask.mp hl
    obtain ⟨l', hl', hplanned⟩ := hkept.forth l hl
    exact ⟨l', hl', (hplannedTask hplanned).trans hmine, (planned_id hplanned).trans hlid⟩
  · show ((strategyLegsOf db' db.nextId).map (·.openingTaskLegId)).Nodup
    rw [hlegsOf]
    exact hall.once
  · show _ = ((strategyLegsOf db' db.nextId).map (·.feesUsdt)).sum
    rw [hlegsOf]
    exact hall.fees

/-- The completion of a paper task leaves the rest as it is, and books the task. -/
theorem completePaper_booked {taskId runId : Nat} {fills : List PaperFill}
    {workerId : String} {amb : Ambient} {done : Bool} {db db' : Database} (hb : Booked num db)
    (hwf : WellFormed db) (hwf' : WellFormed db') (hsound : OrdersSound db)
    (h : completePaperExecutionTask num taskId runId fills workerId amb db = .ok (done, db')) :
    Booked num db' := by
  have horders := completePaperExecutionTask_ordersKept hwf.legs_unique h
  rcases completePaperExecutionTask_rows h with
    rfl | ⟨task, run, anchorQuantity, db₁, db₂, ⟨htask, hrunning⟩, -, hevery, hresolve, hstore, hdb⟩
  · exact hb
  obtain ⟨htask, hid⟩ := Table.find?_some htask
  have hid : taskId = task.id := hid.symm
  rw [hid] at hevery hresolve hstore
  have hne : task.status ≠ .completed := by
    rw [hrunning]
    exact fun hc => (by cases hc)
  have hlegs := resolvePaperLegs_kept hwf.legs_unique
    (fun l hl => ⟨l, (mem_legsOfTask.mp hl).1, rfl⟩) hresolve
  obtain ⟨legs', rfl⟩ := resolvePaperLegs_frame hresolve
  obtain ⟨added, hadded, hown⟩ := storePaperFills_strategyLegs hstore
  have hframe := storePaperFills_appends hstore
  cases hc : task.createStrategy with
  | false =>
      rw [hc] at hstore hadded hown hframe
      obtain ⟨orders, fills', strategyLegs, n, hn, rfl, -⟩ := hframe
      have hnone : strategyLegs = [] := by
        have hsame : strategyLegs = added := List.append_cancel_left hadded
        rw [hsame]
        refine List.eq_nil_iff_forall_not_mem.mpr fun b hbmem => ?_
        cases hown b hbmem
      have hgrows : Grows db db' := by
        rw [hdb] at horders ⊢
        refine ⟨horders, ⟨hlegs.forth, hlegs.back⟩, completed_put hwf htask rfl hne, hn, [], ?_,
          fun b hbmem => absurd hbmem List.not_mem_nil⟩
        show db.strategyLegs ++ strategyLegs = _
        rw [hnone]
      have htasks : db'.tasks = Table.put db.tasks task.finished := by rw [hdb]; rfl
      refine hb.complete hgrows hwf hwf' hsound htasks htask rfl hne rfl (.inl ⟨hc, ?_⟩)
      rw [hdb]
      rfl
  | true =>
      rw [hc] at hstore hadded hown hframe
      obtain ⟨orders, fills', strategyLegs, n, hn, hrows, -⟩ := hframe
      have hn : db.nextId + 1 ≤ n := hn
      have hgrows : Grows db db' := by
        rw [hdb, hrows] at horders ⊢
        refine ⟨horders, ⟨hlegs.forth, hlegs.back⟩, completed_put hwf htask rfl hne,
          Nat.le_of_succ_le hn, strategyLegs, rfl, fun b hbmem => ?_⟩
        rw [hrows] at hadded
        have hsame : strategyLegs = added := List.append_cancel_left hadded
        have heq := Option.some.inj (hown b (hsame ▸ hbmem))
        rw [← heq]
        exact ⟨le_refl _, hn⟩
      have htasks : db'.tasks = Table.put db.tasks task.finished := by rw [hdb, hrows]; rfl
      have hstrategies : db'.strategies = db.strategies
          ++ [taskStrategy task (fills.map (·.feeUsdt)).sum db.nextId amb.now] := by
        rw [hdb, hrows]
        rfl
      have hnext : db.nextId < db'.nextId := by
        rw [hdb, hrows]
        exact hn
      refine hb.complete hgrows hwf hwf' hsound htasks htask rfl hne rfl
        (.inr ⟨hc, _, hstrategies, hnext, ?_⟩)
      have hstart : Filling num (db.legsOfTask task.id) db.nextId task.baseAsset []
          (openPaperStrategy task fills amb { db with legs := legs' }) :=
        .start hb hwf hsound
      have hall := hstart.storeAll hstore
      rw [List.nil_append] at hall
      have hkept : LegsKept db db' := by
        rw [hdb, hrows]
        exact ⟨hlegs.forth, hlegs.back⟩
      -- What is written after the last fill leaves orders, fills and strategy legs.
      exact hall.strategyBooked hwf htask hevery hkept (by rw [hdb]) (by rw [hdb]) (by rw [hdb]) amb.now

/-! ## §6. The other transactions. -/

/-- A step that completes no task and opens no strategy. -/
structure Idles (db db' : Database) : Prop where
  grows : Grows db db'
  strategies : db'.strategies = db.strategies
  back : ∀ t ∈ db'.tasks, t.status = .completed → t ∈ db.tasks

theorem Booked.idle {db db' : Database} (hb : Booked num db) (h : Idles db db')
    (hwf : WellFormed db) (hwf' : WellFormed db') (hsound : OrdersSound db) : Booked num db' :=
  hb.same h.grows hwf hwf' hsound h.strategies h.back

/-- A transaction leaves the tasks alone, or moves one that is not and will not be
completed. -/
def MovesUncompleted (db db' : Database) : Prop :=
  db'.tasks = db.tasks ∨ ∃ old new, db'.tasks = Table.put db.tasks new ∧ old ∈ db.tasks
    ∧ new.id = old.id ∧ old.status ≠ .completed ∧ new.status ≠ .completed

theorem MovesUncompleted.forth {db db' : Database} (h : MovesUncompleted db db')
    (hwf : WellFormed db) : ∀ t ∈ db.tasks, t.status = .completed → t ∈ db'.tasks := by
  rcases h with h | ⟨old, new, h, hold, hid, hne, -⟩
  · rw [h]
    exact fun t ht _ => ht
  · rw [h]
    exact completed_put hwf hold hid hne

theorem MovesUncompleted.back {db db' : Database} (h : MovesUncompleted db db') :
    ∀ t ∈ db'.tasks, t.status = .completed → t ∈ db.tasks := by
  rcases h with h | ⟨old, new, h, -, -, -, hne⟩
  · rw [h]
    exact fun t ht _ => ht
  · intro t ht hst
    rw [h] at ht
    rcases Table.mem_put.mp ht with ⟨rfl, -⟩ | ⟨ht, -⟩
    · exact absurd hst hne
    · exact ht

theorem TaskStatus.not_completed_of_started {s : TaskStatus} (h : s.isStarted) : s ≠ .completed := by
  rintro rfl
  cases h

/-- A claim of either worker. -/
theorem claim_uncompleted {row : ExecutionTaskRow} (h : row.status = .queued ∨ row.status.isStarted) :
    row.status ≠ .completed ∧ (startTask row).status ≠ .completed := by
  have hrow : row.status ≠ .completed := by
    rcases h with h | h
    · rw [h]
      exact fun hc => (by cases hc)
    · exact TaskStatus.not_completed_of_started h
  refine ⟨hrow, ?_⟩
  unfold startTask
  split
  · exact fun hc => (by cases hc)
  · exact hrow

/-- A transaction of the live worker other than a completion. -/
theorem DbOp.uncompleted {o : DbOp} {r : o.Result} {w : World} {db' : Database}
    (hguard : LifecycleGuard (.inl (.db o)) w)
    (hok : o.tx num w.ambient w.db = .ok (r, db')) (hne : ∀ taskId runId worker,
      o ≠ .complete taskId runId worker) :
    MovesUncompleted w.db db' ∧ db'.strategies = w.db.strategies
      ∧ db'.strategyLegs = w.db.strategyLegs ∧ w.db.nextId ≤ db'.nextId := by
  cases o with
  | claim workerId =>
      rcases claimLiveExecutionTask_ok hok with ⟨-, rfl⟩ | ⟨row, hrow, hst, -, hdb, -⟩
      · exact ⟨.inl rfl, rfl, rfl, le_refl _⟩
      · obtain ⟨runs, n, hn, heq⟩ := claim_frame w.ambient w.db row.id workerId
        obtain ⟨hold, hnew⟩ := claim_uncompleted hst
        rw [hdb, heq]
        exact ⟨.inr ⟨row, startTask row, rfl, hrow, startTask_id row, hold, hnew⟩, rfl, rfl, hn⟩
  | ordersForRun runId =>
      injection hok with hok
      rw [(Prod.mk.inj hok).2]
      exact ⟨.inl rfl, rfl, rfl, le_refl _⟩
  | executionTask taskId =>
      injection hok with hok
      rw [(Prod.mk.inj hok).2]
      exact ⟨.inl rfl, rfl, rfl, le_refl _⟩
  | setPhase taskId status =>
      obtain ⟨row, hrow, hstarted, hold, ⟨-, rfl⟩ | ⟨row', rfl, hid, hst, -⟩⟩ :=
        setExecutionTaskPhase_ok hok
      · exact ⟨.inl rfl, rfl, rfl, le_refl _⟩
      · refine ⟨.inr ⟨row, row', rfl, (Table.find?_some hrow).1, hid,
          TaskStatus.not_completed_of_started hold, ?_⟩, rfl, rfl, le_refl _⟩
        rw [hst]
        exact TaskStatus.not_completed_of_started hstarted
  | resolveLeg legId base ratio =>
      obtain ⟨row, -, ⟨-, rfl, -⟩ | ⟨-, -, rfl⟩⟩ := resolveExecutionTaskLegQuantity_ok hok <;>
        exact ⟨.inl rfl, rfl, rfl, le_refl _⟩
  | createOrder a =>
      obtain ⟨-, -, -, -, -, -, -, -, -, -, -, -, -, -, rfl⟩ := createExecutionOrderAttempt_ok hok
      exact ⟨.inl rfl, rfl, rfl, Nat.le_succ _⟩
  | markUnknown id =>
      obtain ⟨row, -, ⟨-, rfl⟩ | ⟨-, -, rfl⟩⟩ := markExecutionOrderUnknown_ok hok <;>
        exact ⟨.inl rfl, rfl, rfl, le_refl _⟩
  | markSubmitted id ex =>
      obtain ⟨row, -, ⟨-, rfl, -⟩ | ⟨-, -, rfl⟩⟩ := markExecutionOrderSubmitted_ok hok <;>
        exact ⟨.inl rfl, rfl, rfl, le_refl _⟩
  | markCancelPending id =>
      obtain ⟨row, -, ⟨-, rfl⟩ | ⟨-, -, rfl⟩⟩ := markExecutionOrderCancelPending_ok hok <;>
        exact ⟨.inl rfl, rfl, rfl, le_refl _⟩
  | observe ob =>
      obtain ⟨row, added, n, -, -, hn, rfl, -⟩ := observe_later hok
      exact ⟨.inl rfl, rfl, rfl, hn⟩
  | beginCompensation taskId runId code worker =>
      simp only [DbOp.tx, beginExecutionTaskCompensation] at hok
      obtain ⟨⟨task, run⟩, hp, hok⟩ := bind_eq_ok.mp hok
      obtain ⟨htask, -⟩ := taskAndRun_ok hp
      simp only [raiseIf_bind_eq_ok] at hok
      obtain ⟨hstarted, hok⟩ := hok
      injection hok with hok
      rw [← (Prod.mk.inj hok).2]
      exact ⟨.inr ⟨task, _, rfl, (Table.find?_some htask).1, rfl,
        TaskStatus.not_completed_of_started (not_not.mp hstarted), fun hc => (by cases hc)⟩, rfl, rfl,
        le_refl _⟩
  -- The lifecycle guard: a run fails only while its task is started.
  | failRun taskId runId code worker manualReview =>
      obtain ⟨t, ht, hst⟩ := hguard
      simp only [DbOp.tx, failExecutionTaskRun] at hok
      obtain ⟨⟨task, run⟩, hp, hok⟩ := bind_eq_ok.mp hok
      obtain ⟨htask, -⟩ := taskAndRun_ok hp
      rw [htask] at ht
      injection ht with ht
      subst ht
      injection hok with hok
      rw [← (Prod.mk.inj hok).2]
      cases manualReview with
      | true =>
          exact ⟨.inr ⟨task, _, rfl, (Table.find?_some htask).1, rfl,
            TaskStatus.not_completed_of_started hst, fun hc => (by cases hc)⟩, rfl, rfl, le_refl _⟩
      | false =>
          exact ⟨.inr ⟨task, _, rfl, (Table.find?_some htask).1, rfl,
            TaskStatus.not_completed_of_started hst, fun hc => (by cases hc)⟩, rfl, rfl, le_refl _⟩
  | complete taskId runId worker => exact absurd rfl (hne taskId runId worker)

/-- What such a transaction does to the legs. -/
theorem DbOp.legsKept {amb : Ambient} {o : DbOp} {r : o.Result} {db db' : Database}
    (hwf : WellFormed db) (hok : o.tx num amb db = .ok (r, db')) : LegsKept db db' := by
  rcases DbOp.legs_tx hok with hsame | ⟨legId, base, ratio, old, -, -, hold, -, rfl⟩
  · exact .same hsame
  · exact .put hwf.legs_unique rfl (Table.find?_some hold).1 rfl

/-- A transaction of the live worker, its guards given. -/
theorem DbOp.booked {o : DbOp} {r : o.Result} {w : World} {db' : Database}
    (hb : Booked num w.db) (hwf : WellFormed w.db) (hwf' : WellFormed db')
    (hsound : OrdersSound w.db)
    (hkept : OrdersKept w.db db') (hguard : LifecycleGuard (.inl (.db o)) w)
    (hok : o.tx num w.ambient w.db = .ok (r, db')) : Booked num db' := by
  by_cases hc : ∃ taskId runId worker, o = .complete taskId runId worker
  · obtain ⟨taskId, runId, worker, rfl⟩ := hc
    exact complete_booked hb hwf hwf' hsound hok
  · obtain ⟨hmoves, hstrategies, hstrategyLegs, hnext⟩ :=
      DbOp.uncompleted hguard hok fun taskId runId worker heq => hc ⟨taskId, runId, worker, heq⟩
    refine hb.idle ⟨⟨hkept, DbOp.legsKept hwf hok, hmoves.forth hwf, hnext, [], ?_,
      fun b hbmem => absurd hbmem List.not_mem_nil⟩, hstrategies, hmoves.back⟩ hwf hwf' hsound
    rw [hstrategyLegs, List.append_nil]

/-- An operation of the paper service. -/
theorem paper_booked {o : PaperOp} {w w' : World} {r : PaperRep o}
    (hb : Booked num w.db) (hwf : WellFormed w.db) (hsound : OrdersSound w.db)
    (he : o.exec num w r w') : Booked num w'.db := by
  have hwf' := hwf.paperTx he
  have hkept := paper_ordersKept hwf he
  cases o with
  | claim workerId =>
      obtain ⟨db', hc, rfl⟩ := he
      -- A claim moves the task, which is not completed by that.
      rcases commit_cases hc with ⟨claimed, -, hok⟩ | ⟨-, -, -, rfl⟩
      · rcases claimPaperExecutionTask_ok hok with ⟨-, rfl⟩ | ⟨row, hrow, hst, hdb, -⟩
        · exact hb
        · obtain ⟨runs, n, hn, heq⟩ := claim_frame w.ambient w.db row.id workerId
          obtain ⟨hold, hnew⟩ := claim_uncompleted (hst.imp_right fun hr => by
            rw [hr]
            rfl)
          rw [heq] at hdb
          have hmoves : MovesUncompleted w.db db' :=
            .inr ⟨row, startTask row, by rw [hdb], hrow, startTask_id row, hold, hnew⟩
          refine hb.idle ⟨⟨hkept, .same (by rw [hdb]), hmoves.forth hwf, by rw [hdb]; exact hn, [], ?_,
            fun b hbmem => absurd hbmem List.not_mem_nil⟩, by rw [hdb], hmoves.back⟩ hwf hwf' hsound
          rw [hdb, List.append_nil]
      · exact hb
  | complete taskId runId fills workerId =>
      obtain ⟨db', hc, rfl⟩ := he
      -- The completion books all rows of the strategy in one transaction.
      rcases commit_cases hc with ⟨done, -, hok⟩ | ⟨-, -, -, rfl⟩
      · exact completePaper_booked hb hwf hwf' hsound hok
      · exact hb
  | latestOpportunities | loadSettings =>
      rw [show w' = w from he]
      exact hb

/-- The other actors complete nothing. -/
theorem act_idles (a : Act) {w : World} (hwf : WellFormed w.db) : Idles w.db (a.apply w).db := by
  have hframe : (a.apply w).db.strategies = w.db.strategies
      ∧ (a.apply w).db.strategyLegs = w.db.strategyLegs := by
    refine a.rec_apply (P := fun w' => w'.db.strategies = w.db.strategies
      ∧ w'.db.strategyLegs = w.db.strategyLegs) (fun _ => ⟨rfl, rfl⟩) (fun _ _ => ⟨rfl, rfl⟩)
      (fun _ => ⟨rfl, rfl⟩) ⟨rfl, rfl⟩ ?_
    rintro db' ⟨row, row', rfl, -⟩
    exact ⟨rfl, rfl⟩
  obtain ⟨-, horders, hfills, hlegs, -⟩ := act_frame a w
  obtain ⟨hnext, hnew⟩ := act_legs_task (w := w) a
  refine ⟨⟨.same horders hfills, ⟨fun l hl => ⟨l, hlegs l hl, rfl⟩, fun l hl => ?_⟩, fun t ht hst => ?_,
    hnext, [], ?_, fun b hb => absurd hb List.not_mem_nil⟩, hframe.1, fun t ht hst => ?_⟩
  · rcases hnew l hl with hl | htask
    · exact .inl ⟨l, hl, rfl⟩
    · exact .inr htask.ge
  · have hfind := (Table.find?_eq_some_iff hwf.tasks_unique).mpr ⟨ht, rfl⟩
    exact (Table.find?_some (act_tasks_find a hfind (by rw [hst]; rfl))).1
  · rw [hframe.2, List.append_nil]
  · rcases act_tasks a t ht with ht | hunstarted
    · exact ht
    · rw [hst] at hunstarted
      cases hunstarted

/-! ## §7. Every run. -/

section Runs

variable {paperWorker liveWorker : String} {s s' : AnyState}

/-- No task has been completed where none is there. -/
theorem booked_initial {w : World} (h : Initial w) (hstrategies : w.db.strategies = [])
    (hlegs : w.db.strategyLegs = []) : Booked num w.db := by
  refine ⟨?_, ?_, ?_, ?_, ?_⟩
  · rw [hstrategies]
    exact fun s hs => absurd hs List.not_mem_nil
  · rw [h.tasks]
    exact fun t ht => absurd ht List.not_mem_nil
  · rw [hstrategies]
    exact List.nodup_nil
  · rw [hstrategies]
    exact fun s hs => absurd hs List.not_mem_nil
  · rw [hlegs]
    exact fun s hs => absurd hs List.not_mem_nil

/-- An operation of either worker, its guard given. -/
theorem exec_booked {o : AnyOp} {w w' : World} {r : AnyRep o} (hb : Booked num w.db)
    (hwf : WellFormed w.db) (hwf' : WellFormed w'.db) (hsound : OrdersSound w.db)
    (hkept : OrdersKept w.db w'.db) (hguard : LifecycleGuard o w)
    (he : (anySystem num).exec o w r w') : Booked num w'.db := by
  cases o with
  | inr o => exact paper_booked hb hwf hsound he
  | inl o =>
      cases o with
      | out o =>
          rw [show w' = { w with pass := w.pass.heard o r } from he]
          exact hb
      | db o =>
          obtain ⟨db', hc, rfl⟩ := he
          rcases commit_cases hc with ⟨_, -, hok⟩ | ⟨_, -, -, rfl⟩
          · exact DbOp.booked hb hwf hwf' hsound hkept hguard hok
          · exact hb

/-- A step of anybody keeps the books. -/
theorem step_booked {l : Label AnyOp AnyRep Act}
    (hs : AnyReachable num paperWorker liveWorker s)
    (h : AnyStep num paperWorker liveWorker s l s')
    (hs' : AnyReachable num paperWorker liveWorker s')
    (hb : Booked num s.world.db) : Booked num s'.world.db := by
  have hwf := hs.wellFormed
  have hwf' := hs'.wellFormed
  have hkept := step_ordersKept hs h
  cases h with
  | act h =>
      rw [show _ = Act.apply _ _ from h] at hwf' ⊢
      exact hb.idle (act_idles _ hwf) hwf hwf' hs.ordersSound
  | start | finish | crash => exact hb
  | call h =>
      have hguard := System.Reach.pre (anySystem_preserves num) (fun _ h => wellFormed_initial h)
        (fun w _ => anyPass_guarded paperWorker liveWorker w) hs
      exact exec_booked hb hwf hwf' hs.ordersSound hkept hguard h

end Runs

namespace Sample

/-- The paper task is filled in one turn. -/
def paperFilled : World := turn (absent "a") paperQueued

theorem runs_paperFilled : AnyRuns numeric "paper" "live" ⟨empty, none⟩ ⟨paperFilled, none⟩ := by
  have hqueued : AnyRuns numeric "paper" "live" ⟨empty, none⟩ ⟨paperQueued, none⟩ :=
    ((Relation.ReflTransGen.single ⟨_, .act rfl, trivial⟩).tail ⟨_, .act rfl, trivial⟩).tail
      ⟨_, .act rfl, trivial⟩
  exact hqueued.trans (runs_turn _ _)

end Sample

end BasisHawk.MultiLeg
