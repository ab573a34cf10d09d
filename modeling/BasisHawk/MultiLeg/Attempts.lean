/-
  BasisHawk.MultiLeg.Attempts
  ───────────────────────────
  What the attempt numbers of a leg's orders count.

  An order without a parent opens an attempt and takes the next number; a
  chasing order inherits its parent's.  The largest number is therefore the
  number of attempts opened, whatever became of them: a chunk that filled
  completely counts like one that was cancelled.

  Main results:
    • `maxAttempt_eq` — in every reachable state the largest attempt number is
      the number of attempts opened,
    • `retry_limit_iff` — when the retry limit is reached by failures alone,
    • `retry_limit_by_chunk` — one cancelled order after a filled chunk.
-/
import BasisHawk.MultiLeg.GuardedPass

namespace BasisHawk.MultiLeg

open Domain Lib Accounts Database

variable {num : Numeric} {workerId : String}

/-! ## §1. What the retry check reads. -/

/-- The largest attempt number. -/
def maxAttempt (orders : List ExecutionOrderRow) : Nat :=
  (orders.map (·.attemptNumber)).foldr max 0

/-- The attempts opened: the orders that chase no other. -/
def attemptsOpened (orders : List ExecutionOrderRow) : Nat :=
  orders.countP fun o => o.parentOrderId = none

/-- The attempts outside the book that ended without being filled. -/
def failedAttempts (orders : List ExecutionOrderRow) : Nat :=
  orders.countP fun o => o.orderMode ≠ .maker
    ∧ (o.status = .canceled ∨ o.status = .rejected ∨ o.status = .failed)

/-- The latest order ended canceled, rejected or failed, and is not a maker
order to be chased. -/
def LatestFailed (orders : List ExecutionOrderRow) : Prop :=
  ∃ o ∈ orders.getLast?, (o.status = .canceled ∨ o.status = .rejected ∨ o.status = .failed)
    ∧ ¬(o.orderMode = .maker ∧ o.filledQuantity < o.quantity)

instance (orders : List ExecutionOrderRow) : Decidable (LatestFailed orders) :=
  inferInstanceAs (Decidable (∃ o ∈ orders.getLast?, _))

/-- `ValueError("execution task retry limit reached")`. -/
def retryLimit : Exc := .value "execution task retry limit reached"

theorem isTerminal_of_failed {s : OrderStatus}
    (h : s = .canceled ∨ s = .rejected ∨ s = .failed) : s.isTerminal := by
  rcases h with rfl | rfl | rfl <;> rfl

/-- The retry limit is raised exactly if the latest order has failed and the
attempts exceed what the task allows. -/
theorem nextAttempt_retryLimit {task : ExecutionTaskRow} {leg : ExecutionTaskLegRow}
    {orders : List ExecutionOrderRow} :
    nextAttempt task leg orders = .error retryLimit
      ↔ LatestFailed orders ∧ task.maximumRetries < maxAttempt orders := by
  unfold nextAttempt LatestFailed
  cases orders.getLast? with
  | none => exact ⟨fun h => (by cases h), fun ⟨⟨o, ho, _⟩, _⟩ => (by cases ho)⟩
  | some latest =>
      dsimp only
      simp only [Option.mem_some_iff, exists_eq_left']
      -- A maker order that ended partly filled is chased, so the limit is not raised.
      by_cases hchase : latest.orderMode = .maker ∧ latest.status.isTerminal
          ∧ latest.filledQuantity < latest.quantity
      · rw [if_pos hchase]
        refine ⟨fun h => ?_, fun h => absurd ⟨hchase.1, hchase.2.2⟩ h.1.2⟩
        split at h
        · split at h
          · exact absurd (Except.error.inj h) (by decide)
          · cases h
        · cases h
      · rw [if_neg hchase]
        -- An order that failed otherwise is retried while attempts are left.
        by_cases hst : latest.status = .canceled ∨ latest.status = .rejected
            ∨ latest.status = .failed
        · have hnot : ¬(latest.orderMode = .maker ∧ latest.filledQuantity < latest.quantity) :=
            fun h => hchase ⟨h.1, isTerminal_of_failed hst, h.2⟩
          rw [if_pos hst]
          by_cases hover : task.maximumRetries < maxAttempt orders
          · have hraise : raiseIf (task.maximumRetries < (orders.map (·.attemptNumber)).foldr max 0)
                (Exc.value "execution task retry limit reached") = .error retryLimit := if_pos hover
            rw [hraise]
            exact ⟨fun _ => ⟨⟨hst, hnot⟩, hover⟩, fun _ => rfl⟩
          · have hraise : raiseIf (task.maximumRetries < (orders.map (·.attemptNumber)).foldr max 0)
                (Exc.value "execution task retry limit reached") = .ok () := if_neg hover
            rw [hraise]
            exact ⟨fun h => (by cases h), fun h => absurd h.2 hover⟩
        · -- Any other latest order leads to no next attempt.
          rw [if_neg hst]
          exact ⟨fun h => (by cases h), fun h => absurd h.1.1 hst⟩

/-- Everything the worker does for a next order after the checks begins with a
question to the outside. -/
theorem quoteOrder_asks (leg : ExecutionTaskLegRow) (base : ℚ) (mode : OrderMode)
    (environment : ExchangeEnvironment) (side : Side) :
    ∃ o k, quoteOrder leg base mode environment side = .call o k := by
  cases mode <;> exact ⟨_, _, rfl⟩

/-- `_create_next_order` raises the retry limit exactly where the retry check
does. -/
theorem createNextOrder_retryLimit {task : ExecutionTaskRow} {run : ExecutionRunRow}
    {leg : ExecutionTaskLegRow} {deficit : ℚ} {orders : List ExecutionOrderRow} :
    createNextOrder task run leg deficit orders = .done (.error retryLimit)
      ↔ nextAttempt task leg (orders.filter fun o => o.taskLegId = leg.id) = .error retryLimit := by
  unfold createNextOrder pyEval
  cases nextAttempt task leg (orders.filter fun o => o.taskLegId = leg.id) with
  | error e =>
      constructor
      · intro h
        injection h with h
        injection h with h
        rw [h]
      · intro h
        injection h with h
        rw [h]
        rfl
  | ok mode =>
      refine ⟨fun h => ?_, fun h => (by cases h)⟩
      obtain ⟨mode, parentId⟩ := mode
      rw [Prog.ok_bind] at h
      dsimp only at h
      cases hchunk : chunkOf task leg deficit with
      | error e =>
          rw [hchunk] at h
          injection h with h
          injection h with h
          subst h
          -- The only exception of the chunk is that of an unresolved leg.
          unfold chunkOf target found at hchunk
          split at hchunk
          · cases hr : leg.resolvedBaseQuantity with
            | none =>
                rw [hr] at hchunk
                exact absurd (Except.error.inj hchunk) (by decide)
            | some q =>
                rw [hr] at hchunk
                cases hchunk
          · cases hchunk
      | ok chunk =>
          obtain ⟨o, k, hasks⟩ := quoteOrder_asks leg chunk mode task.environment leg.side
          rw [hchunk, Prog.ok_bind, hasks] at h
          cases h

/-! ## §2. Creating an order numbers it. -/

/-- What the creation of an order checks and numbers. -/
theorem createExecutionOrderAttempt_numbers {a : OrderAttempt} {amb : Ambient}
    {row : ExecutionOrderRow} {db db' : Database}
    (h : createExecutionOrderAttempt a amb db = .ok (row, db')) :
    db.attemptNumbers a = .ok (row.attemptNumber, row.chaseNumber)
      ∧ row.parentOrderId = a.parentOrderId ∧ row.orderMode = a.orderMode
      ∧ row.createdAt = amb.now ∧ row.runId = a.runId ∧ row.taskLegId = a.taskLegId
      ∧ (∀ o ∈ db.orders, o.runId = a.runId → o.taskLegId = a.taskLegId → o.status.isActive = false)
      ∧ (∀ o ∈ db.orders, o.taskLegId = a.taskLegId → o.attemptNumber = row.attemptNumber →
          o.chaseNumber ≠ row.chaseNumber)
      ∧ db'.orders = db.orders ++ [row] := by
  simp only [createExecutionOrderAttempt, found_bind_eq_ok, raiseIf_bind_eq_ok] at h
  obtain ⟨run, -, leg, -, -, hactive, h⟩ := h
  obtain ⟨⟨attempt, chase⟩, hnumbers, h⟩ := bind_eq_ok.mp h
  simp only [raiseIf_bind_eq_ok] at h
  obtain ⟨-, hunique, h⟩ := h
  split at h
  · injection h with h
    obtain ⟨rfl, rfl⟩ := Prod.mk.inj h
    refine ⟨hnumbers, rfl, rfl, rfl, rfl, rfl, ?_, ?_, rfl⟩
    · intro o ho hrun hleg
      rw [Bool.eq_false_iff]
      exact fun hst => hactive ⟨o, ho, hrun, hleg, hst⟩
    · exact fun o ho hleg hatt hch => hunique ⟨o, ho, hleg, hatt, hch⟩
  · cases h

/-- The orders of one run and leg in the order they were created. -/
def ordersFor (db : Database) (runId legId : Nat) : List ExecutionOrderRow :=
  db.orders.filter fun o => o.runId = runId ∧ o.taskLegId = legId

/-- The query order does not matter for what the retry check counts. -/
theorem ordersOfRun_filter_perm (db : Database) (runId legId : Nat) :
    ((db.ordersOfRun runId).filter fun o => o.taskLegId = legId).Perm (ordersFor db runId legId) := by
  unfold ordersOfRun ordersFor
  refine ((List.perm_insertionSort _ _).filter _).trans ?_
  rw [List.filter_filter]
  refine List.Perm.of_eq (List.filter_congr fun o _ => ?_)
  rw [Bool.decide_and, Bool.and_comm]

/-- The highest attempt does not depend on the order in which the rows are read.
-/
theorem maxAttempt_perm {xs ys : List ExecutionOrderRow} (h : xs.Perm ys) :
    maxAttempt xs = maxAttempt ys := by
  unfold maxAttempt
  exact List.Perm.foldr_eq (f := (max : Nat → Nat → Nat)) (h.map _) 0

/-- Every order's attempt is at most the highest one. -/
theorem le_maxAttempt {orders : List ExecutionOrderRow} {o : ExecutionOrderRow} (h : o ∈ orders) :
    o.attemptNumber ≤ maxAttempt orders := by
  unfold maxAttempt
  induction orders with
  | nil => cases h
  | cons x rest ih =>
      rw [List.map_cons, List.foldr_cons]
      rcases List.mem_cons.mp h with rfl | h
      · exact le_max_left _ _
      · exact le_trans (ih h) (le_max_right _ _)

/-- One order more raises the highest attempt to its own, at most. -/
theorem maxAttempt_append (orders : List ExecutionOrderRow) (o : ExecutionOrderRow) :
    maxAttempt (orders ++ [o]) = max (maxAttempt orders) o.attemptNumber := by
  unfold maxAttempt
  induction orders with
  | nil => rw [List.nil_append, List.map_singleton]; exact max_comm _ _
  | cons x rest ih =>
      rw [List.cons_append, List.map_cons, List.map_cons, List.foldr_cons, List.foldr_cons, ih,
        max_assoc]

/-! ## §3. The invariant. -/

/-- The numbers and parents of the orders of one run and leg. -/
def numbersFor (db : Database) (runId legId : Nat) : List (Nat × Option Nat) :=
  (ordersFor db runId legId).map fun o => (o.attemptNumber, o.parentOrderId)

/-- The largest attempt number is the number of attempts opened. -/
def AttemptsCounted (db : Database) : Prop :=
  ∀ runId legId, maxAttempt (ordersFor db runId legId)
    = attemptsOpened (ordersFor db runId legId)

/-- Another version of an order is filed where the old one was. -/
theorem ordersFor_put {β : Type} {g : ExecutionOrderRow → β} {db db' : Database}
    (hu : Table.Unique db.orders) {old new : ExecutionOrderRow} (hold : old ∈ db.orders)
    (hs : SameOrder old new) (hg : g new = g old) (heq : db'.orders = Table.put db.orders new)
    (runId legId : Nat) :
    (ordersFor db' runId legId).map g = (ordersFor db runId legId).map g := by
  unfold ordersFor
  rw [heq]
  refine Table.map_filter_put fun o ho hk => ?_
  rw [hu.eq ho hold (hk.trans hs.id), hs.runId, hs.taskLegId]
  exact ⟨Iff.rfl, hg⟩

/-- The orders of a leg, after one was added. -/
theorem ordersFor_append {db db' : Database} {row : ExecutionOrderRow}
    (heq : db'.orders = db.orders ++ [row]) (runId legId : Nat) :
    ordersFor db' runId legId = ordersFor db runId legId
      ++ if row.runId = runId ∧ row.taskLegId = legId then [row] else [] := by
  unfold ordersFor
  rw [heq, List.filter_append, List.filter_singleton]
  by_cases h : row.runId = runId ∧ row.taskLegId = legId
  · rw [if_pos h, decide_eq_true h, cond_true]
  · rw [if_neg h, decide_eq_false h, cond_false]

/-- A new order continues the count: its number is the one that the decision
before it has computed. -/
theorem AttemptsCounted.create {a : OrderAttempt} {amb : Ambient} {row : ExecutionOrderRow}
    {db db' : Database} (h : AttemptsCounted db)
    (hok : createExecutionOrderAttempt a amb db = .ok (row, db')) : AttemptsCounted db' := by
  obtain ⟨hnumbers, hparent, -, -, hrun, hleg, -, -, heq⟩ := createExecutionOrderAttempt_numbers hok
  intro runId legId
  rw [ordersFor_append heq]
  by_cases hmine : row.runId = runId ∧ row.taskLegId = legId
  · rw [if_pos hmine, maxAttempt_append]
    have hcount : attemptsOpened (ordersFor db runId legId ++ [row])
        = attemptsOpened (ordersFor db runId legId)
          + if a.parentOrderId = none then 1 else 0 := by
      unfold attemptsOpened
      rw [List.countP_append, List.countP_singleton, hparent]
      simp only [decide_eq_true_eq]
    rw [hcount, ← h runId legId]
    unfold attemptNumbers at hnumbers
    cases hp : a.parentOrderId with
    | none =>
        rw [hp] at hnumbers
        injection hnumbers with hnumbers
        have hnumber : maxAttempt (ordersFor db runId legId) + 1 = row.attemptNumber := by
          rw [← (Prod.mk.inj hnumbers).1]
          unfold maxAttempt ordersFor
          rw [← hmine.1, ← hmine.2, hrun, hleg]
        rw [if_pos rfl]
        omega
    | some parentId =>
        -- A chasing order inherits a number that is there already.
        rw [hp] at hnumbers
        simp only [found_bind_eq_ok, raiseIf_bind_eq_ok] at hnumbers
        obtain ⟨parent, hfind, -, hnumbers⟩ := hnumbers
        injection hnumbers with hnumbers
        have hparent := List.find?_some hfind
        rw [decide_eq_true_eq] at hparent
        have hle : parent.attemptNumber ≤ maxAttempt (ordersFor db runId legId) := by
          refine le_maxAttempt (List.mem_filter.mpr ⟨List.mem_of_find?_eq_some hfind, ?_⟩)
          refine decide_eq_true ⟨?_, ?_⟩
          · rw [hparent.2.1, ← hrun, hmine.1]
          · rw [hparent.2.2, ← hleg, hmine.2]
        rw [← (Prod.mk.inj hnumbers).1, if_neg (by simp), max_eq_left hle, Nat.add_zero]
  · rw [if_neg hmine, List.append_nil]
    exact h runId legId

/-- The count depends on the numbers of the orders only. -/
theorem AttemptsCounted.of_numbers {db db' : Database} (h : AttemptsCounted db)
    (heq : ∀ runId legId, numbersFor db' runId legId = numbersFor db runId legId) :
    AttemptsCounted db' := by
  have hmax : ∀ db runId legId, maxAttempt (ordersFor db runId legId)
      = ((numbersFor db runId legId).map (·.1)).foldr max 0 := by
    intro db runId legId
    unfold maxAttempt numbersFor
    rw [List.map_map]
    rfl
  have hopened : ∀ db runId legId, attemptsOpened (ordersFor db runId legId)
      = (numbersFor db runId legId).countP fun n => n.2 = none := by
    intro db runId legId
    unfold attemptsOpened numbersFor
    rw [List.countP_map]
    rfl
  intro runId legId
  rw [hmax, hopened, heq, ← hmax, ← hopened]
  exact h runId legId

/-- Every transaction keeps the count: only the creation of an order adds to it.
-/
theorem AttemptsCounted.tx {o : DbOp} {amb : Ambient} {r : o.Result} {db db' : Database}
    (h : AttemptsCounted db) (hwf : WellFormed db) (hok : o.tx num amb db = .ok (r, db')) :
    AttemptsCounted db' := by
  cases hoe : DbOp.ordersEffect hok with
  | same heq =>
      refine h.of_numbers fun runId legId => ?_
      unfold numbersFor ordersFor
      rw [heq]
  | created => exact h.create hok
  | marked heq hold hs =>
      exact h.of_numbers (ordersFor_put hwf.orders_unique hold hs
        (by rw [hs.attemptNumber, hs.parentOrderId]) heq)
  | observed heq hold _ hs =>
      exact h.of_numbers (ordersFor_put hwf.orders_unique hold hs
        (by rw [hs.attemptNumber, hs.parentOrderId]) heq)

/-- The step lemma for a whole run. -/
theorem attemptsCounted_kept {allow : World → Label Op Rep Act → Prop} :
    Kept num allow fun w => AttemptsCounted w.db where
  act := fun a w _ _ h => by
    refine h.of_numbers fun runId legId => ?_
    unfold numbersFor ordersFor
    rw [(act_frame a w).2.1]
  db := fun o w r db' hc _ _ hwf h => by
    rcases commit_cases hc with ⟨a, rfl, hok⟩ | ⟨e, -, -, rfl⟩
    · exact h.tx hwf hok
    · exact h
  out := fun _ _ _ _ _ _ h => h
  idle := fun _ h => h

variable {allow : World → Label Op Rep Act → Prop}

theorem Reachable.attemptsCounted {s : State} (hs : Reachable num workerId allow s) :
    AttemptsCounted s.world.db :=
  attemptsCounted_kept.reachable (fun w hw runId legId => by
    unfold ordersFor
    rw [hw.orders]
    rfl) hs

/-- The orders of a leg as the retry check is given them. -/
def legOrders (db : Database) (runId legId : Nat) : List ExecutionOrderRow :=
  (db.ordersOfRun runId).filter fun o => o.taskLegId = legId

/-- The largest attempt number of a leg is the number of attempts opened. -/
theorem maxAttempt_eq {s : State} (hs : Reachable num workerId allow s) (runId legId : Nat) :
    maxAttempt (legOrders s.world.db runId legId)
      = attemptsOpened (legOrders s.world.db runId legId) := by
  have hperm := ordersOfRun_filter_perm s.world.db runId legId
  unfold legOrders
  rw [maxAttempt_perm hperm, hs.attemptsCounted runId legId]
  exact (hperm.countP_eq _).symm

/-! ## §4. The result. -/

/-- With the orders of any reachable state, `_create_next_order` raises the
retry limit only after more failures than retries, except exactly where the
latest order failed, the attempts opened exceed the retries, and the failed
ones do not. -/
theorem retry_limit_iff {s : State} (hs : Reachable num workerId allow s) (task : ExecutionTaskRow)
    (run : ExecutionRunRow) (leg : ExecutionTaskLegRow) (deficit : ℚ) :
    (createNextOrder task run leg deficit (s.world.db.ordersOfRun run.id)
        = .done (.error retryLimit) →
      task.maximumRetries < failedAttempts (legOrders s.world.db run.id leg.id))
    ↔ ¬(LatestFailed (legOrders s.world.db run.id leg.id)
        ∧ failedAttempts (legOrders s.world.db run.id leg.id) ≤ task.maximumRetries
        ∧ task.maximumRetries < attemptsOpened (legOrders s.world.db run.id leg.id)) := by
  rw [createNextOrder_retryLimit, nextAttempt_retryLimit, ← maxAttempt_eq hs]
  unfold legOrders
  constructor
  · rintro h ⟨hlatest, hfew, hopened⟩
    have hmany := h ⟨hlatest, hopened⟩
    omega
  · rintro h ⟨hlatest, hopened⟩
    by_contra hfew
    exact h ⟨hlatest, not_lt.mp hfew, hopened⟩

/-! ## §5. Concrete runs. -/

namespace Sample

/-- One retry, and the anchor bought unit by unit before anything is hedged. -/
def chunkedPlan : TaskPlan where
  task := { task with
    maximumRetries := 1, hedgeTrigger := .cumulativePercent, hedgeThreshold := some 1
    threshold_check := .inr ⟨rfl, 1, rfl, by decide⟩, retries_check := by decide }
  legs := [{ anchor with perOrderQuantity := 1, child_check := by decide }, hedge]
  leg_count := ⟨by decide, by decide⟩
  one_anchor := by decide

/-- The chunked task is queued. -/
def chunked : World :=
  Act.apply (.queue 0 2) (Act.apply (.preflightReady 0 1 100)
    (Act.apply (.createTask chunkedPlan) empty))

/-- An order is created, submitted, and found in the given state. -/
def ordered (token status : String) (traded : ℚ) (w : World) : World :=
  pass (known token status traded traded) (pass (absent token) (pass (absent token) w))

variable {allow : World → Label Op Rep Act → Prop}

theorem runsTo_chunked (h : ∀ w a, allow w (.act a)) :
    RunsTo allow ⟨empty, none⟩ ⟨chunked, none⟩ :=
  ((runsTo_act _ (h _ _)).trans (runsTo_act _ (h _ _))).trans (runsTo_act _ (h _ _))

/-- The three passes of an order. -/
theorem runsTo_ordered [∀ w l, Decidable (allow w l)] {w : World} (token status : String)
    (traded : ℚ) (hfree : ∀ w, allow w .start ∧ allow w .crash)
    (h₁ : System.follows (answers (absent token)) (fun _ => false) allow
      (runOnce numeric "worker") w)
    (h₂ : System.follows (answers (absent token)) (fun _ => false) allow
      (runOnce numeric "worker") (pass (absent token) w))
    (h₃ : System.follows (answers (known token status traded traded)) (fun _ => false) allow
      (runOnce numeric "worker") (pass (absent token) (pass (absent token) w))) :
    RunsTo allow ⟨w, none⟩ ⟨ordered token status traded w, none⟩ :=
  ((runsTo_pass _ hfree h₁).trans (runsTo_pass _ hfree h₂)).trans (runsTo_pass _ hfree h₃)

/-- Two cancelled orders. -/
def twiceCanceled : World := ordered "b" "canceled" 0 (ordered "a" "canceled" 0 chunked)

/-- A filled chunk and a cancelled order. -/
def chunkThenCanceled : World := ordered "b" "canceled" 0 (ordered "a" "filled" 1 chunked)

end Sample

/-- After two cancelled orders the retry limit is reached, by failures alone. -/
theorem retry_limit_canceled :
    ∃ s task run leg deficit, Sample.Reached System.anyStep s
      ∧ createNextOrder task run leg deficit (s.world.db.ordersOfRun run.id)
          = .done (.error retryLimit)
      ∧ task.maximumRetries < failedAttempts (legOrders s.world.db run.id leg.id) := by
  have hs : Sample.Reached System.anyStep ⟨Sample.twiceCanceled, none⟩ :=
    System.Reach.run Sample.reached_empty (((Sample.runsTo_chunked fun _ _ => trivial).trans
      (Sample.runsTo_ordered "a" "canceled" 0 Sample.anyStep_free (by decide +kernel)
        (by decide +kernel) (by decide +kernel))).trans
      (Sample.runsTo_ordered "b" "canceled" 0 Sample.anyStep_free (by decide +kernel)
        (by decide +kernel) (by decide +kernel)))
  obtain ⟨task, -, run, -, leg, -, hlatest, hover, hmany⟩ := (by decide +kernel :
    ∃ task ∈ Sample.twiceCanceled.db.tasks, ∃ run ∈ Sample.twiceCanceled.db.runs,
      ∃ leg ∈ Sample.twiceCanceled.db.legs,
        LatestFailed (legOrders Sample.twiceCanceled.db run.id leg.id)
        ∧ task.maximumRetries < maxAttempt (legOrders Sample.twiceCanceled.db run.id leg.id)
        ∧ task.maximumRetries < failedAttempts (legOrders Sample.twiceCanceled.db run.id leg.id))
  have hraises : createNextOrder task run leg 4 (Sample.twiceCanceled.db.ordersOfRun run.id)
      = .done (.error retryLimit) :=
    createNextOrder_retryLimit.mpr (nextAttempt_retryLimit.mpr ⟨hlatest, hover⟩)
  exact ⟨_, task, run, leg, 4, hs, hraises, (retry_limit_iff hs task run leg 4).mpr
    (fun h => absurd h.2.1 (not_le.mpr hmany)) hraises⟩

/-- A filled chunk uses up the one retry: the first cancelled order is the
last. -/
theorem retry_limit_by_chunk :
    ¬∀ s, Sample.Reached System.anyStep s → ∀ task ∈ s.world.db.tasks, ∀ run ∈ s.world.db.runs,
      ∀ leg ∈ s.world.db.legs, run.taskId = task.id → leg.taskId = task.id → ∀ deficit,
        createNextOrder task run leg deficit (s.world.db.ordersOfRun run.id)
            = .done (.error retryLimit) →
          task.maximumRetries < failedAttempts (legOrders s.world.db run.id leg.id) := by
  intro h
  have hs : Sample.Reached System.anyStep ⟨Sample.chunkThenCanceled, none⟩ :=
    System.Reach.run Sample.reached_empty (((Sample.runsTo_chunked fun _ _ => trivial).trans
      (Sample.runsTo_ordered "a" "filled" 1 Sample.anyStep_free (by decide +kernel)
        (by decide +kernel) (by decide +kernel))).trans
      (Sample.runsTo_ordered "b" "canceled" 0 Sample.anyStep_free (by decide +kernel)
        (by decide +kernel) (by decide +kernel)))
  obtain ⟨task, htask, run, hrun, leg, hleg, hrt, hlt, hlatest, hover, hfew⟩ := (by decide +kernel :
    ∃ task ∈ Sample.chunkThenCanceled.db.tasks, ∃ run ∈ Sample.chunkThenCanceled.db.runs,
      ∃ leg ∈ Sample.chunkThenCanceled.db.legs, run.taskId = task.id ∧ leg.taskId = task.id
        ∧ LatestFailed (legOrders Sample.chunkThenCanceled.db run.id leg.id)
        ∧ task.maximumRetries < maxAttempt (legOrders Sample.chunkThenCanceled.db run.id leg.id)
        ∧ ¬task.maximumRetries
          < failedAttempts (legOrders Sample.chunkThenCanceled.db run.id leg.id))
  exact hfew (h _ hs task htask run hrun leg hleg hrt hlt 3
    (createNextOrder_retryLimit.mpr (nextAttempt_retryLimit.mpr ⟨hlatest, hover⟩)))

end BasisHawk.MultiLeg
