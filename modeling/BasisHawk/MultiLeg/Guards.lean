/-
  BasisHawk.MultiLeg.Guards
  ─────────────────────────
  What holds whenever the worker performs an operation.

  `Pre` gives each operation its guard, in terms of the tables at that moment.
  `GuardedPass` walks through `run_once` once and for all; a property of runs
  is then proved from the guards, without looking at the program again.

  Main results:
    • `act_tasks_find`, `act_tasks`, `act_legs`, `act_frame`, `act_control` —
      what the other actors leave alone,
    • `wp_perform`, `wp_ask`, `wp_yields` — the rules for the worker's programs,
    • `wp_createNextOrder` — a primary order meets its guard.
-/
import Mathlib.Tactic.Linarith
import BasisHawk.MultiLeg.Invariants

namespace BasisHawk.MultiLeg

open Domain Lib Accounts Database

/-! ## §1. The guards. -/

/-- A claimed task whose next step is a primary order: it is not compensating,
none of its orders is active, and some leg is short of its target. -/
def NeedsOrder (c : Claimed) : Prop :=
  c.task.status ≠ .compensating ∧ (∀ o ∈ c.orders, o.status.isTerminal)
    ∧ ∃ l ∈ c.legs, ∀ t, l.resolvedBaseQuantity = some t → filledBaseOf c.orders l.id .primary < t

/-- The claimed task is started still, and compensating exactly if it was so
when it was claimed; its run is there. -/
structure Owns (c : Claimed) (db : Database) : Prop where
  task : ∃ t, Table.find? db.tasks c.task.id = some t ∧ t.status.isStarted
    ∧ (t.status = .compensating ↔ c.task.status = .compensating)
  run : ∃ r, Table.find? db.runs c.run.id = some r ∧ r.taskId = c.task.id

/-- The orders of the run are those the claim returned. -/
structure Current (c : Claimed) (db : Database) : Prop extends Owns c db where
  orders : db.ordersOfRun c.run.id = c.orders

/-- A leg as the pass carries it: the row of the same leg, its resolution known
or still to be read; and as it was claimed, up to a resolution found since. -/
def Tracks (c : Claimed) (l : ExecutionTaskLegRow) (db : Database) : Prop :=
  (∃ row ∈ db.legs, row.planned = l.planned ∧ row.taskId = c.task.id
      ∧ (l.resolvedBaseQuantity = none ∨ row.resolvedBaseQuantity = l.resolvedBaseQuantity))
    ∧ ∃ l₀ ∈ c.legs, l₀.id = l.id
      ∧ (l₀.resolvedBaseQuantity = none ∨ l₀.resolvedBaseQuantity = l.resolvedBaseQuantity)

/-- The assertion of a pass that has not written to an order yet: the legs it
carries are tracked, and they are all legs of the task. -/
structure Carries (c : Claimed) (legs : List ExecutionTaskLegRow) (db : Database) : Prop
    extends Current c db where
  tracks : ∀ l ∈ legs, Tracks c l db
  below : c.task.id < db.nextId
  covers : ∀ row ∈ db.legs, row.taskId = c.task.id → ∃ l ∈ legs, l.id = row.id

/-- The guard of `create_execution_order_attempt`: no order of the run is
active, a primary order stays within its leg's target, a compensation order
within what the primary orders have filled. -/
def CreateGuard (a : OrderAttempt) (w : World) : Prop :=
  ∃ c leg, w.pass = .advancing c ∧ Current c w.db ∧ a.runId = c.run.id
    ∧ leg ∈ w.db.legs ∧ leg.id = a.taskLegId ∧ leg.taskId = c.task.id
    ∧ (∀ o ∈ c.orders, o.status.isTerminal)
    ∧ match a.purpose with
      | .primary => NeedsOrder c ∧ ∃ t, leg.resolvedBaseQuantity = some t
          ∧ filledBaseOf c.orders leg.id .primary + a.quantity * a.baseMultiplier ≤ t
      | .compensation => c.task.status = .compensating
          ∧ filledBaseOf c.orders leg.id .compensation + a.quantity * a.baseMultiplier
            ≤ filledBaseOf c.orders leg.id .primary

/-- The decision behind an attempt: what the legs the pass carries call for next,
in the size that the rules of the leg's market make of it. -/
def ChoiceGuard (a : OrderAttempt) (w : World) : Prop :=
  ∃ c legs leg base pair, w.pass = .advancing c ∧ Carries c legs w.db ∧ leg ∈ legs
    ∧ a.runId = c.run.id ∧ a.taskLegId = leg.id ∧ InstrumentPair.tradingRulesComplete pair
    ∧ nativeQuantity leg pair base = .ok a.quantity
    ∧ a.baseMultiplier = baseMultiplier leg.marketType pair
    ∧ match a.purpose with
      | .primary => a.side = leg.side ∧ a.reduceOnly = leg.reduceOnly
          ∧ nextAttempt c.task leg (c.orders.filter fun o => o.taskLegId = leg.id)
            = .ok (a.orderMode, a.parentOrderId)
          ∧ ∃ phase deficit, nextDeficit c.task legs c.orders = .ok (some (phase, leg, deficit))
            ∧ chunkOf c.task leg deficit = .ok base
            ∧ ∀ l ∈ legs, l.resolvedBaseQuantity ≠ none
      | .compensation => a.side = reverseSide leg.side
          ∧ a.reduceOnly = decide (leg.marketType = .perpetual)
          ∧ nextCompensation c.task c.orders legs = .ok (some (leg, base))

/-- The guard of a lookup: it is about an active order of the claimed run. -/
def LookupGuard (clientOrderId : String) (w : World) : Prop :=
  ∃ c o, w.pass = .examining c o ∧ Current c w.db ∧ o ∈ c.orders ∧ o.status.isActive
    ∧ clientOrderId = o.clientOrderId

/-- The guard of a submission: the request is for an order of the claimed run
that the exchange has just been found not to know. -/
def PlaceGuard (request : PrivateOrderRequest) (w : World) : Prop :=
  ∃ c o leg snapshot, w.pass = .submitting c o ∧ Current c w.db ∧ o ∈ c.orders
    ∧ (o.status = .created ∨ o.status = .unknown)
    ∧ (∃ row ∈ w.db.legs, row.planned = leg.planned ∧ row.taskId = c.task.id)
    ∧ leg.id = o.taskLegId
    ∧ request = requestFor leg o snapshot (requestedMargin leg)

/-- The guard of an observation: it records what was just read of an active
order of the claimed run. -/
def ObserveGuard (ob : Observation) (w : World) : Prop :=
  ∃ c o remote batch, w.pass = .recording c o remote batch ∧ Current c w.db ∧ o ∈ c.orders
    ∧ o.status.isActive ∧ (remote = none → o.status = .cancelPending)
    ∧ ob = match remote with
      | none => canceledObservation o batch
      | some remote => remoteObservation o remote batch

/-- The guard of `begin_execution_task_compensation`. -/
def BeginGuard (taskId runId : Nat) (db : Database) : Prop :=
  (∃ t, Table.find? db.tasks taskId = some t ∧ (t.status = .running ∨ t.status = .hedging))
    ∧ (∃ r, Table.find? db.runs runId = some r ∧ r.taskId = taskId)
    ∧ (∃ o ∈ db.orders, o.runId = runId ∧ o.purpose = .primary ∧ 0 < o.filledQuantity)
    ∧ ∀ o ∈ db.orders, o.runId = runId → ¬o.status.isUncertain

/-- The guard of `fail_execution_task_run` without a manual review: before the
compensation nothing is undecided and no primary order has filled anything; in
it every order has ended and every leg has undone what it had filled. -/
def FailGuard (taskId runId : Nat) (db : Database) : Prop :=
  (∃ r, Table.find? db.runs runId = some r ∧ r.taskId = taskId)
    ∧ ∃ t, Table.find? db.tasks taskId = some t
      ∧ (((t.status = .running ∨ t.status = .hedging)
          ∧ ∀ o ∈ db.orders, o.runId = runId →
            ¬o.status.isUncertain ∧ (o.purpose = .primary → o.filledQuantity = 0))
        ∨ (t.status = .compensating
          ∧ (∀ o ∈ db.orders, o.runId = runId → o.status.isTerminal)
          ∧ ∀ l ∈ db.legs, l.taskId = taskId → filledBaseOf (db.ordersOfRun runId) l.id .primary
              = filledBaseOf (db.ordersOfRun runId) l.id .compensation))

/-- The guard of `fail_execution_task_run` with a manual review, which checks no
status itself: the task is started. -/
def ReviewGuard (taskId : Nat) (db : Database) : Prop :=
  ∃ t, Table.find? db.tasks taskId = some t ∧ t.status.isStarted

/-- The guard of `set_execution_task_phase`. -/
def PhaseGuard (taskId : Nat) (status : TaskStatus) (db : Database) : Prop :=
  (status = .running ∨ status = .hedging)
    ∧ ∃ t, Table.find? db.tasks taskId = some t ∧ (t.status = .running ∨ t.status = .hedging)

/-- The guard of every operation. -/
def Pre : Op → World → Prop
  | .db (.createOrder a), w => CreateGuard a w ∧ ChoiceGuard a w
  | .db (.observe ob), w => ObserveGuard ob w
  | .db (.beginCompensation taskId runId _ _), w => BeginGuard taskId runId w.db
  | .db (.failRun taskId runId _ _ false), w => FailGuard taskId runId w.db
  | .db (.failRun taskId _ _ _ true), w => ReviewGuard taskId w.db
  | .db (.setPhase taskId status), w => PhaseGuard taskId status w.db
  | .out (.orderByClientId _ _ _ clientOrderId), w => LookupGuard clientOrderId w
  | .out (.placeOrder _ request), w => PlaceGuard request w
  | _, _ => True

/-! ## §2. Assertions that survive the other actors. -/

/-- The other actors never touch a task that has started. -/
theorem act_tasks_find {w : World} (a : Act) {id : Nat} {t : ExecutionTaskRow}
    (hf : Table.find? w.db.tasks id = some t) (hs : t.status.isUnstarted = false) :
    Table.find? (a.apply w).db.tasks id = some t := by
  refine a.rec_apply (P := fun w => Table.find? w.db.tasks id = some t) (fun _ => hf)
    (fun _ _ => hf) (fun plan => Table.find?_append_of_some hf) hf ?_
  rintro db' ⟨row, row', rfl, hrow, hid, hst, -⟩
  refine (Table.find?_put_of_ne fun heq => ?_).trans hf
  rw [heq, show key row' = row.id from hid, hrow] at hf
  injection hf with hf
  subst hf
  rcases hst with hst | hst | hst <;> rw [hst] at hs <;> cases hs

/-- A task the other actors have touched has not started. -/
theorem act_tasks {w : World} (a : Act) :
    ∀ t ∈ (a.apply w).db.tasks, t ∈ w.db.tasks ∨ t.status.isUnstarted := by
  refine a.rec_apply (P := fun w' => ∀ t ∈ w'.db.tasks, t ∈ w.db.tasks ∨ t.status.isUnstarted)
    (fun _ t ht => .inl ht) (fun _ _ t ht => .inl ht) (fun plan t ht => ?_) (fun t ht => .inl ht) ?_
  · rcases List.mem_append.mp ht with ht | ht
    · exact .inl ht
    · rw [List.mem_singleton.mp ht]
      exact .inr rfl
  · rintro db' ⟨row, row', rfl, -, -, -, hst⟩ t ht
    rcases Table.mem_put.mp ht with ⟨rfl, -⟩ | ⟨ht, -⟩
    · rcases hst with hst | hst | hst <;> rw [hst] <;> exact .inr rfl
    · exact .inl ht

/-- A leg the other actors have added is new and not resolved. -/
theorem act_legs {w : World} (a : Act) : ∀ l ∈ (a.apply w).db.legs,
    l ∈ w.db.legs ∨ (w.db.nextId ≤ l.id ∧ l.resolvedBaseQuantity = none) := by
  refine a.rec_apply (P := fun w' => ∀ l ∈ w'.db.legs,
    l ∈ w.db.legs ∨ (w.db.nextId ≤ l.id ∧ l.resolvedBaseQuantity = none))
    (fun _ l hl => .inl hl) (fun _ _ l hl => .inl hl) (fun plan l hl => ?_) (fun l hl => .inl hl) ?_
  · rcases List.mem_append.mp hl with hl | hl
    · exact .inl hl
    · obtain ⟨i, hi, rfl⟩ := List.mem_mapIdx.mp hl
      refine .inr ⟨?_, rfl⟩
      show w.db.nextId ≤ w.db.nextId + 1 + i
      omega
  · rintro db' ⟨row, row', rfl, -⟩ l hl
    exact .inl hl

/-- A new leg belongs to a new task. -/
theorem act_legs_task {w : World} (a : Act) : w.db.nextId ≤ (a.apply w).db.nextId
    ∧ ∀ l ∈ (a.apply w).db.legs, l ∈ w.db.legs ∨ l.taskId = w.db.nextId := by
  have hself : w.db.nextId ≤ w.db.nextId
      ∧ ∀ l ∈ w.db.legs, l ∈ w.db.legs ∨ l.taskId = w.db.nextId := ⟨le_refl _, fun l hl => .inl hl⟩
  refine a.rec_apply (P := fun w' => w.db.nextId ≤ w'.db.nextId
    ∧ ∀ l ∈ w'.db.legs, l ∈ w.db.legs ∨ l.taskId = w.db.nextId)
    (fun _ => hself) (fun _ _ => hself) (fun plan => ⟨?_, fun l hl => ?_⟩) hself ?_
  · show w.db.nextId ≤ w.db.nextId + 1 + _
    omega
  · rcases List.mem_append.mp hl with hl | hl
    · exact .inl hl
    · obtain ⟨i, hi, rfl⟩ := List.mem_mapIdx.mp hl
      exact .inr rfl
  · rintro db' ⟨row, row', rfl, -⟩
    exact hself

/-- What the other actors leave alone. -/
theorem act_frame (a : Act) (w : World) :
    (a.apply w).db.runs = w.db.runs ∧ (a.apply w).db.orders = w.db.orders
      ∧ (a.apply w).db.fills = w.db.fills ∧ (∀ l ∈ w.db.legs, l ∈ (a.apply w).db.legs)
      ∧ (a.apply w).pass = w.pass := by
  have hself : w.db.runs = w.db.runs ∧ w.db.orders = w.db.orders ∧ w.db.fills = w.db.fills
      ∧ (∀ l ∈ w.db.legs, l ∈ w.db.legs) ∧ w.pass = w.pass := ⟨rfl, rfl, rfl, fun l hl => hl, rfl⟩
  refine a.rec_apply (P := fun w' => w'.db.runs = w.db.runs ∧ w'.db.orders = w.db.orders
      ∧ w'.db.fills = w.db.fills ∧ (∀ l ∈ w.db.legs, l ∈ w'.db.legs) ∧ w'.pass = w.pass)
    (fun _ => hself) (fun _ _ => hself) (fun plan => ?_) hself ?_
  · exact ⟨rfl, rfl, rfl, fun l hl => List.mem_append.mpr (.inl hl), rfl⟩
  · rintro db' ⟨row, row', rfl, -⟩
    exact hself

/-- Only a control transition of another actor changes the control state. -/
theorem act_control {a : Act} (w : World) (h : ∀ row, a ≠ .control row) :
    (a.apply w).db.control = w.db.control := by
  refine a.rec_apply (P := fun w' => w'.db.control = w.db.control) (fun _ => rfl)
    (fun row hrow => absurd hrow (h row)) (fun _ => rfl) rfl ?_
  rintro db' ⟨row, row', rfl, -⟩
  rfl

/-- An assertion about the tables that no other actor can break. -/
def DbStable (A : Database → Prop) : Prop := ∀ (a : Act) (w : World), A w.db → A (a.apply w).db

/-- No other actor takes a claimed task away. -/
theorem Owns.stable (c : Claimed) : DbStable (Owns c) := by
  rintro a w ⟨⟨t, ht, hs, hiff⟩, r, hr, htask⟩
  refine ⟨⟨t, act_tasks_find a ht (TaskStatus.not_unstarted_of_started hs), hs, hiff⟩, r, ?_, htask⟩
  rw [(act_frame a w).1]
  exact hr

theorem Current.stable (c : Claimed) : DbStable (Current c) := by
  intro a w h
  refine ⟨Owns.stable c a w h.toOwns, ?_⟩
  unfold ordersOfRun
  rw [(act_frame a w).2.1]
  exact h.orders

/-- What two stable facts say together is stable. -/
theorem DbStable.and {A B : Database → Prop} (hA : DbStable A) (hB : DbStable B) :
    DbStable fun db => A db ∧ B db :=
  fun a w h => ⟨hA a w h.1, hB a w h.2⟩

variable {num : Numeric}

/-- An assertion about the tables and the pass. -/
def At (A : Database → Prop) (p : Pass) (w : World) : Prop := A w.db ∧ w.pass = p

/-- Where a pass stands is its own business: other actors move the tables, not
the pass. -/
theorem At.stable {A : Database → Prop} (hA : DbStable A) (p : Pass) :
    (system num).Stable (At A p) := by
  rintro a w w' rfl ⟨hw, hp⟩
  exact ⟨hA a w hw, (act_frame a w).2.2.2.2.trans hp⟩

/-! ## §3. Rules for the worker's programs. -/

/-- The weakest precondition of a worker program, given well-formed tables. -/
abbrev Wp {α : Type} (num : Numeric) (p : Worker α) (Q : Except Exc α → World → Prop) (w : World) :
    Prop :=
  (system num).wp (fun w => WellFormed w.db) Pre p Q w

/-- A call that neither depends on what the pass has read nor counts as read. -/
def Op.isNeutral : Op → Prop
  | .db _ => False
  | .out (.orderByClientId ..) | .out (.fillsForOrder ..) | .out (.placeOrder ..) => False
  | .out _ => True

theorem Op.isQuote.isNeutral {o : Op} (h : o.isQuote) : o.isNeutral := by
  cases o with
  | db o => cases h
  | out o => cases o <;> first | exact trivial | cases h

/-- A neutral operation has no guard. -/
theorem neutral_pre {o : Op} (h : o.isNeutral) (w : World) : Pre o w := by
  cases o with
  | db o => cases h
  | out o => cases o <;> first | exact trivial | cases h

/-- And it leaves the world as it is. -/
theorem neutral_exec {o : Op} (h : o.isNeutral) {w w' : World} {r : Rep o}
    (he : (system num).exec o w r w') : w' = w := by
  cases o with
  | db o => cases h
  | out o =>
      rw [show w' = { w with pass := w.pass.heard o r } from he]
      cases o <;> first | rfl | cases h

/-- A program of neutral calls keeps every stable assertion. -/
theorem wp_yields {α : Type} {A : Database → Prop} (hA : DbStable A) {p : Pass} {m : Worker α}
    {P : α → Prop} (hm : m.Yields Op.isNeutral P) {w : World} (hw : At A p w) :
    Wp num m (fun r w => At A p w ∧ ∀ a, r = .ok a → P a) w :=
  System.wp_of_ensures (At.stable hA p) (fun _ w ho _ _ => neutral_pre ho w)
    (fun _ _ _ _ ho _ hw he => neutral_exec ho he ▸ hw) m w hw hm

/-- Asking for quotes changes nothing, so what is known before is known
afterwards. -/
theorem wp_quote {α : Type} {A : Database → Prop} (hA : DbStable A) {p : Pass} {m : Worker α}
    {P : α → Prop} (hm : m.Yields Op.isQuote P) {w : World} (hw : At A p w) :
    Wp num m (fun r w => At A p w ∧ ∀ a, r = .ok a → P a) w :=
  wp_yields hA (hm.mono (fun _ ho => ho.isNeutral) fun _ hr => hr) hw

/-- One transaction, from a stable assertion. -/
theorem wp_perform {A : Database → Prop} (hA : DbStable A) {p : Pass} {o : DbOp}
    {Q : Except Exc o.Result → World → Prop} {w : World} (hw : At A p w)
    (hpre : ∀ w, At A p w → Pre (.db o) w)
    (hnext : ∀ (amb : Ambient) (db db' : Database) (r : Except Exc o.Result), WellFormed db →
      A db → commit (o.tx num amb) db = (r, db') → Q r ⟨db', amb, p.wrote o r⟩) :
    Wp num (perform o) Q w := by
  refine System.wp_call_of_stable (At.stable hA p) hw (fun w _ hw => hpre w hw) ?_
  rintro w r w' hI hw ⟨db', hc, rfl⟩ -
  have := hnext w.ambient w.db db' r hI hw.1 hc
  rw [← hw.2] at this
  exact this

/-- One call to the outside world, from a stable assertion. -/
theorem wp_ask {A : Database → Prop} (hA : DbStable A) {p : Pass} {o : OutOp}
    {Q : Except Exc o.Answer → World → Prop} {w : World} (hw : At A p w)
    (hpre : ∀ w, At A p w → Pre (.out o) w)
    (hnext : ∀ (w : World) (r : Except Exc o.Answer), At A (p.heard o r) w → Q r w) :
    Wp num (ask o) Q w := by
  refine System.wp_call_of_stable (At.stable hA p) hw (fun w _ hw => hpre w hw) ?_
  intro w r w' _ hw he _
  refine hnext w' r ?_
  rw [show w' = { w with pass := w.pass.heard o r } from he, hw.2]
  exact ⟨hw.1, rfl⟩

/-- After an exception the task is still the worker's to fail. -/
def KeptOnError {α : Type} (c : Claimed) (r : Except Exc α) (w : World) : Prop :=
  ∀ e, r = .error e → Owns c w.db

/-- Sequencing a part that keeps an assertion. -/
theorem wp_seq {α β : Type} {c : Claimed} {A : Database → Prop} {pass : Pass} {p : Worker α}
    {f : α → Worker β} {P : α → Prop} {w : World}
    (hp : Wp num p (fun r w => At A pass w ∧ ∀ a, r = .ok a → P a) w)
    (hA : ∀ db, A db → Owns c db)
    (hf : ∀ a w, At A pass w → P a → Wp num (f a) (KeptOnError c) w) :
    Wp num (p >>= f) (KeptOnError c) w := by
  refine System.wp_bind p f _ (System.wp_mono p (fun r w hr => ?_) w hp)
  cases r with
  | ok a => exact hf a w hr.1 (hr.2 a rfl)
  | error e => exact fun _ _ => hA _ hr.1.1

/-- A computation that may raise keeps everything. -/
theorem wp_pyEval {α : Type} {A : Database → Prop} {pass : Pass} {w : World} (hw : At A pass w)
    (r : Except Exc α) :
    Wp num (pyEval r) (fun r' w => At A pass w ∧ ∀ a, r' = .ok a → r = .ok a) w :=
  ⟨hw, fun _ h => h⟩

/-! ## §4. Creating an order. -/

theorem Carries.stable (c : Claimed) (legs : List ExecutionTaskLegRow) :
    DbStable (Carries c legs) := by
  intro a w h
  obtain ⟨hnext, hlegs⟩ := act_legs_task (w := w) a
  have hbelow : c.task.id < w.db.nextId := h.below
  refine ⟨Current.stable c a w h.toCurrent, fun l hl => ?_, by omega, fun row hrow htask => ?_⟩
  · obtain ⟨⟨row, hrow, hrest⟩, horigin⟩ := h.tracks l hl
    exact ⟨⟨row, (act_frame a w).2.2.2.1 row hrow, hrest⟩, horigin⟩
  · rcases hlegs row hrow with hrow | hfresh
    · exact h.covers row hrow htask
    · omega

/-- The part of a deficit one order takes is at most the deficit. -/
theorem chunkOf_le {task : ExecutionTaskRow} {leg : ExecutionTaskLegRow} {deficit chunk : ℚ}
    (h : chunkOf task leg deficit = .ok chunk) : chunk ≤ deficit := by
  unfold chunkOf at h
  split at h
  · obtain ⟨t, -, h⟩ := bind_eq_ok.mp h
    injection h with h
    exact h ▸ min_le_left _ _
  · injection h with h
    exact h ▸ le_refl _

/-- A failed transaction leaves the tables as they were. -/
theorem owns_of_commit {α : Type} {c : Claimed} {tx : Database → Except Exc (α × Database)}
    {db db' : Database} {r : Except Exc α} (h : Owns c db) (hc : commit tx db = (r, db')) {e : Exc}
    (he : r = .error e) : Owns c db' := by
  rcases commit_cases hc with ⟨a, rfl, -⟩ | ⟨_, -, -, rfl⟩
  · cases he
  · exact h

/-- Creating an order, its guard given. -/
theorem wp_createOrder {c : Claimed} {legs : List ExecutionTaskLegRow} {a : OrderAttempt}
    {w : World} (hw : At (Carries c legs) (.advancing c) w)
    (hpre : ∀ w, At (Carries c legs) (.advancing c) w → Pre (.db (.createOrder a)) w) :
    Wp num (do let _ ← perform (.createOrder a); return ()) (KeptOnError c) w := by
  refine System.wp_bind _ _ _ (wp_perform (Carries.stable c legs) hw hpre ?_)
  intro amb db db' r _ hA hc
  cases r with
  | ok row => exact fun e he => by cases he
  | error e => exact fun _ _ => owns_of_commit hA.toOwns hc rfl

/-- A neutral call yields whatever it answers. -/
theorem ask_neutral (o : OutOp) (h : Op.isNeutral (.out o)) :
    (ask o).Yields Op.isNeutral fun _ => True :=
  .call h fun _ => .done fun _ _ => trivial

/-- The order that is created next meets the guard of the creation: its leg is
short by at least what it asks for. -/
theorem wp_createNextOrder {c : Claimed} {legs : List ExecutionTaskLegRow}
    {leg : ExecutionTaskLegRow} {phase : TaskStatus} {deficit : ℚ} (hleg : leg ∈ legs)
    (hneeds : NeedsOrder c) (hdeficit : ∃ t, leg.resolvedBaseQuantity = some t
      ∧ deficit ≤ t - filledBaseOf c.orders leg.id .primary)
    (hnext : nextDeficit c.task legs c.orders = .ok (some (phase, leg, deficit)))
    (hresolved : ∀ l ∈ legs, l.resolvedBaseQuantity ≠ none) {w : World}
    (hw : At (Carries c legs) (.advancing c) w) :
    Wp num (createNextOrder c.task c.run leg deficit c.orders) (KeptOnError c) w := by
  have hstable := Carries.stable c legs
  have howns : ∀ db, Carries c legs db → Owns c db := fun db h => h.toOwns
  refine wp_seq (wp_pyEval hw _) howns fun mode w hw hmode => ?_
  refine wp_seq (wp_pyEval hw _) howns fun chunk w hw hchunk => ?_
  refine wp_seq (wp_quote hstable (quoteOrder_sized _ _ _ _ _) hw) howns fun quote w hw hquote => ?_
  refine wp_seq (wp_yields hstable (ask_neutral .uuid trivial) hw) howns fun token w hw _ => ?_
  refine wp_createOrder hw fun w hw => ⟨?_, ?_⟩
  · obtain ⟨⟨row, hrow, hplanned, htask, hres⟩, -⟩ := hw.1.tracks leg hleg
    obtain ⟨t, ht, hle⟩ := hdeficit
    refine ⟨c, row, hw.2, hw.1.toCurrent, rfl, hrow, planned_id hplanned, htask, hneeds.2.1, hneeds,
      t, ?_, ?_⟩
    · rw [hres.resolve_left (by rw [ht]; exact Option.some_ne_none t), ht]
    · -- native · multiplier ≤ chunk ≤ deficit ≤ target − filled
      have hfit := hquote.fits.2.2
      have hchunk := chunkOf_le hchunk
      rw [planned_id hplanned]
      linarith
  · obtain ⟨pair, hpair, hnative, hmult⟩ := hquote
    exact ⟨c, legs, leg, chunk, pair, hw.2, hw.1, hleg, rfl, rfl, hpair, hnative, hmult, rfl, rfl,
      hmode, phase, deficit, hnext, hchunk, hresolved⟩

end BasisHawk.MultiLeg
