/-
  BasisHawk.MultiLeg.Claiming
  ───────────────────────────
  Which task a pass of the multi-leg worker takes up.

  The claim query cuts its window of ten tasks by age, and only then drops the
  queued tasks that may not start.  With ten older queued tasks in front and
  the control state not `ready`, a started task is not seen any more.

  Main results:
    • `claims_iff` — a started task is served iff the control state is `ready`
      or fewer than ten queued tasks stand before the first started one,
    • `claims_undone`, `starved` — a compensating task is served behind ten
      drafts, and not behind ten queued tasks while paused.
-/
import BasisHawk.MultiLeg.Effects
import BasisHawk.MultiLeg.Worker

namespace BasisHawk.MultiLeg

open Domain Lib Accounts Database

variable {workerId : String} {amb : Ambient} {db : Database}

/-! ## §1. The window of the claim query. -/

namespace Database

/-- The claimable tasks, oldest first. -/
def claimOrder (amb : Ambient) (db : Database) : List ExecutionTaskRow :=
  (db.tasks.filter fun t =>
      (t.environment = .sandbox ∨ t.environment = .live)
        ∧ (t.status = .queued ∨ t.status.isStarted) ∧ t.id ∉ amb.locked).insertionSort
    (fun a b => a.createdAt ≤ b.createdAt)

/-- The queued tasks that stand before the first started one. -/
def queuedAhead (amb : Ambient) (db : Database) : List ExecutionTaskRow :=
  (db.claimOrder amb).takeWhile (fun t => t.status = .queued)

/-- A started task that the claim query may see. -/
def IsServable (amb : Ambient) (t : ExecutionTaskRow) : Prop :=
  (t.environment = .sandbox ∨ t.environment = .live) ∧ t.status.isStarted ∧ t.id ∉ amb.locked

instance (amb : Ambient) : DecidablePred (IsServable amb) :=
  fun _ => inferInstanceAs (Decidable (_ ∧ _ ∧ _))

/-- `execution_control` is `ready`. -/
def Ready (db : Database) : Prop := ∃ c ∈ db.control, c.state = .ready

/-- The claim comes back with a started task, or with a queued one that may
start. -/
def Claims (workerId : String) (amb : Ambient) (db : Database) : Prop :=
  ∃ c db', claimLiveExecutionTask workerId amb db = .ok (some c, db')
    ∧ ∃ t ∈ db.tasks, c.task = startTask t
      ∧ (t.status.isStarted ∨ t.status = .queued ∧ db.Ready)

/-- The candidates are the ten oldest of the tasks in question: `limit(10)`
comes before the control state is looked at. -/
theorem claimCandidates_eq (amb : Ambient) (db : Database) :
    db.claimCandidates amb = (db.claimOrder amb).take 10 := rfl

/-- The tasks in question: not paper, queued or started, and locked by nobody
else. -/
theorem mem_claimOrder {t : ExecutionTaskRow} :
    t ∈ db.claimOrder amb ↔ t ∈ db.tasks
      ∧ (t.environment = .sandbox ∨ t.environment = .live)
        ∧ (t.status = .queued ∨ t.status.isStarted) ∧ t.id ∉ amb.locked := by
  unfold claimOrder
  rw [List.mem_insertionSort, List.mem_filter]
  simp only [decide_eq_true_eq]

/-- A queued task waits for the control state, a started one does not. -/
theorem mayClaim_iff {t : ExecutionTaskRow} :
    db.mayClaim t ↔ t.status ≠ .queued ∨ db.Ready := by
  simp [mayClaim, Ready, Option.any_eq_true]

end Database

/-- Within the first `n` items something fails `p` exactly when fewer than `n`
items come before the first such. -/
theorem exists_mem_take_iff {α : Type} {p : α → Bool} {l : List α} (h : ∃ x ∈ l, p x = false)
    (n : Nat) : (∃ x ∈ l.take n, p x = false) ↔ (l.takeWhile p).length < n := by
  induction l generalizing n with
  | nil =>
      obtain ⟨x, hx, -⟩ := h
      cases hx
  | cons y rest ih =>
      cases n with
      | zero => simp
      | succ n =>
          by_cases hy : p y
          · have hrest : ∃ x ∈ rest, p x = false := by
              obtain ⟨x, hx, hpx⟩ := h
              rcases List.mem_cons.mp hx with rfl | hx
              · rw [hy] at hpx
                cases hpx
              · exact ⟨x, hx, hpx⟩
            rw [List.takeWhile_cons_of_pos hy, List.take_succ_cons, List.length_cons,
              Nat.add_lt_add_iff_right, ← ih hrest n]
            simp [hy]
          · rw [List.takeWhile_cons_of_neg hy]
            simp [hy]

/-! ## §2. When a claim comes back with a task. -/

/-- What the claim takes is a started task, or a queued one while `ready`. -/
theorem claims_iff_find :
    Claims workerId amb db ↔ ∃ t ∈ db.claimCandidates amb, db.mayClaim t := by
  constructor
  · rintro ⟨c, db', hok, -⟩
    unfold claimLiveExecutionTask at hok
    cases hf : (db.claimCandidates amb).find? db.mayClaim with
    | none =>
        rw [hf] at hok
        cases hok
    | some t => exact ⟨t, List.mem_of_find?_eq_some hf, List.find?_some hf⟩
  · intro h
    obtain ⟨t, ht⟩ := Option.isSome_iff_exists.mp (List.find?_isSome.mpr h)
    obtain ⟨htask, -, hopen, -⟩ := mem_claimOrder.mp (List.mem_of_mem_take
      (claimCandidates_eq amb db ▸ List.mem_of_find?_eq_some ht))
    have hmay := mayClaim_iff.mp (List.find?_some ht)
    refine ⟨_, _, by unfold claimLiveExecutionTask; rw [ht], t, htask, rfl, ?_⟩
    rcases hopen with hq | hst
    · exact .inr ⟨hq, hmay.resolve_left (fun hne => hne hq)⟩
    · exact .inl hst

/-- A started task keeps the worker busy exactly while the control state is
`ready` or fewer than ten queued tasks stand before the first started one. -/
theorem claims_iff (h : ∃ t ∈ db.tasks, IsServable amb t) :
    Claims workerId amb db ↔ db.Ready ∨ (db.queuedAhead amb).length < 10 := by
  obtain ⟨t, ht, henv, hst, hfree⟩ := h
  have hmem : t ∈ db.claimOrder amb := mem_claimOrder.mpr ⟨ht, henv, .inr hst, hfree⟩
  have hnot : t.status ≠ .queued := by
    intro hq
    rw [hq] at hst
    cases hst
  have hwindow : (∃ x ∈ db.claimCandidates amb, x.status ≠ .queued)
      ↔ (db.queuedAhead amb).length < 10 := by
    rw [claimCandidates_eq, queuedAhead, ← exists_mem_take_iff ⟨t, hmem, by simpa using hnot⟩]
    simp
  rw [claims_iff_find]
  by_cases hready : db.Ready
  · refine iff_of_true ?_ (.inl hready)
    -- Any candidate may be taken, and the window is not empty.
    cases hord : db.claimOrder amb with
    | nil =>
        rw [hord] at hmem
        cases hmem
    | cons x rest =>
        refine ⟨x, ?_, mayClaim_iff.mpr (.inr hready)⟩
        rw [claimCandidates_eq, hord]
        exact List.mem_cons_self
  · rw [← hwindow]
    simp only [mayClaim_iff, hready, or_false, false_or]

/-! ## §3. A compensating task behind ten queued ones. -/

namespace Sample

/-- What the other actors do, one after the other. -/
def acting (w : World) (as : List Act) : World := as.foldl (fun w a => a.apply w) w

theorem runsTo_acting (as : List Act) :
    ∀ w, RunsTo System.anyStep ⟨w, none⟩ ⟨acting w as, none⟩ := by
  induction as with
  | nil => exact fun w => .refl
  | cons a rest ih => exact fun w => (runsTo_act a trivial).trans (ih (a.apply w))

/-- Ten drafts, and a younger task that is started. -/
def eleven : World :=
  acting empty (List.replicate 10 (.createTask plan) ++ [.ambient ⟨1, []⟩, .createTask plan,
    .preflightReady 30 1 100, .queue 30 2])

/-- Its anchor fills, and no quote can be had for its hedge. -/
def youngest : World :=
  pass { absent "b" with quoted := false }
    (pass (known "a" "filled" 4 4) (pass (absent "a") (pass (absent "a") eleven)))

/-- The older tasks are queued while the control state is `ready`, which then is
paused again. -/
def crowded : World :=
  acting youngest ([.control ⟨.ready, ""⟩]
    ++ (List.range 10).flatMap (fun i => [.preflightReady (3 * i) 1 100, .queue (3 * i) 2])
    ++ [.control ⟨.paused, ""⟩])

theorem reached_youngest : Reached System.anyStep ⟨youngest, none⟩ := by
  have h₀ : RunsTo System.anyStep ⟨empty, none⟩ ⟨eleven, none⟩ := runsTo_acting _ empty
  have h₁ : RunsTo System.anyStep ⟨eleven, none⟩
      ⟨pass (absent "a") (pass (absent "a") eleven), none⟩ :=
    (runsTo_pass _ anyStep_free (System.follows_anyStep _ _)).trans
      (runsTo_pass _ anyStep_free (System.follows_anyStep _ _))
  have h₂ : RunsTo System.anyStep ⟨pass (absent "a") (pass (absent "a") eleven), none⟩
      ⟨youngest, none⟩ :=
    (runsTo_pass _ anyStep_free (System.follows_anyStep _ _)).trans
      (runsTo_pass _ anyStep_free (System.follows_anyStep _ _))
  exact System.Reach.run reached_empty ((h₀.trans h₁).trans h₂)

/-- Ten queued tasks come before the one that is being compensated, and the
control is paused. -/
theorem reached_crowded : Reached System.anyStep ⟨crowded, none⟩ :=
  System.Reach.run reached_youngest (runsTo_acting _ youngest)

end Sample

/-- A compensating task with ten drafts before it is served. -/
theorem claims_undone :
    (∃ t ∈ Sample.youngest.db.tasks, IsServable Sample.youngest.ambient t)
      ∧ Claims "worker" Sample.youngest.ambient Sample.youngest.db := by
  have h : ∃ t ∈ Sample.youngest.db.tasks, IsServable Sample.youngest.ambient t := by
    decide +kernel
  exact ⟨h, (claims_iff h).mpr (.inr (by decide +kernel))⟩

/-- Ten queued tasks before it keep it waiting while the control state is
`paused`. -/
theorem starved :
    ∃ s, Sample.Reached System.anyStep s
      ∧ (∃ t ∈ s.world.db.tasks, t.status = .compensating ∧ IsServable s.world.ambient t)
      ∧ ¬Claims "worker" s.world.ambient s.world.db := by
  refine ⟨⟨Sample.crowded, none⟩, Sample.reached_crowded, by decide +kernel, ?_⟩
  rw [claims_iff_find]
  decide +kernel

end BasisHawk.MultiLeg
