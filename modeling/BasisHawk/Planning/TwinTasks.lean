/-
  BasisHawk.Planning.TwinTasks
  ────────────────────────────
  `create_execution_task` among its twins.

  The recovery from a violated constraint stands around the commit, but the row
  with the unique key is flushed before it.  So the creation is idempotent only
  as long as nobody flushes a task after a twin has committed.

  Main results:
    • `createExecutionTask_idempotent` — under that condition it is.
-/
import BasisHawk.Planning.Idempotency

namespace BasisHawk.Planning

open Domain Lib
open Lib.Schema (goal goal_known goal_open stable_known)
open MultiLeg (ExecutionTaskLegRow)
open Tx

variable {ι : Type}

/-! ## §1. Tasks in the tables. -/

/-- The same task with the same legs, in whatever order they are listed. -/
def SameTask (p q : PlannedTask) : Prop := p.task = q.task ∧ p.legs.Perm q.legs

/-- The tasks under a key, with their legs. -/
def storedTasks (key : String) (d : Tables) : List PlannedTask :=
  (d.tasks.filter (·.idempotencyKey = key)).map fun t =>
    ⟨t, d.taskLegs.filter (·.taskId = t.id)⟩

/-- What the creation of a task makes of the tables. -/
def taskTables (t : PlannedTask) (d : Tables) : Tables :=
  apply (.taskLegs t.legs) (apply (.task t.task) d)

variable {key : String}

/-- Where no task has the key, the lookup by key finds none. -/
theorem ask_taskByKey_none {d : Tables} (h : storedTasks key d = []) :
    ask (.taskByKey key) d = none := by
  rw [storedTasks, List.map_eq_nil_iff, List.filter_eq_nil_iff] at h
  exact List.find?_eq_none.mpr h

/-- Where one has it, the lookup finds it and its legs, in some order. -/
theorem ask_taskByKey_some {d : Tables} {p : PlannedTask} (h : storedTasks key d = [p]) :
    ask (.taskByKey key) d = some p.task ∧ (ask (.legsOfTask p.task.id) d).Perm p.legs := by
  rw [storedTasks, List.map_eq_singleton_iff] at h
  obtain ⟨t, hfilter, rfl⟩ := h
  refine ⟨?_, List.perm_insertionSort _ _⟩
  show d.tasks.find? _ = some t
  rw [← List.head?_filter, hfilter]
  rfl

/-- A key without a stored task is not in use. -/
theorem storedTasks_nil {d : Tables} (h : storedTasks key d = []) : .taskKey key ∉ keys d := by
  rw [storedTasks, List.map_eq_nil_iff, List.filter_eq_nil_iff] at h
  intro hmem
  obtain ⟨t, ht, heq⟩ := mem_keys.mp hmem
  exact h t ht (decide_eq_true heq.symm)

/-- Requests for one task: they differ in the identifiers of their rows, which are
new. -/
structure TaskTwins (d₀ : Tables) (key fingerprint : String) (t : ι → PlannedTask) : Prop where
  linked : d₀.Linked
  absent : storedTasks key d₀ = []
  key : ∀ i, (t i).task.idempotencyKey = key
  fingerprint : ∀ i, (t i).task.requestFingerprint = fingerprint
  taskId : ∀ i, .taskId (t i).task.id ∉ keys d₀
  legTasks : ∀ i, ∀ leg ∈ (t i).legs, leg.taskId = (t i).task.id
  legIds : ∀ i, ∀ leg ∈ (t i).legs, .taskLegId leg.id ∉ keys d₀
  legIds_nodup : ∀ i, ((t i).legs.map (·.id)).Nodup
  ordinals_nodup : ∀ i, ((t i).legs.map (·.ordinal)).Nodup

/-- The keys of legs with distinct identifiers and ordinals are distinct. -/
theorem taskLegKeys_nodup {legs : List ExecutionTaskLegRow} (hids : (legs.map (·.id)).Nodup)
    (hordinals : (legs.map (·.ordinal)).Nodup) : (legs.flatMap taskLegKeys).Nodup := by
  induction legs with
  | nil => exact List.nodup_nil
  | cons leg legs ih =>
      rw [List.map_cons, List.nodup_cons] at hids hordinals
      rw [List.flatMap_cons, List.nodup_append]
      refine ⟨by simp [taskLegKeys], ih hids.2 hordinals.2, ?_⟩
      intro k hk k' hk' heq
      subst heq
      obtain ⟨leg', hleg', hk'⟩ := List.mem_flatMap.mp hk'
      simp only [taskLegKeys, List.mem_cons, List.not_mem_nil, or_false] at hk hk'
      rcases hk with rfl | rfl
      · rcases hk' with heq | heq
        · injection heq with heq
          exact hids.1 (heq ▸ List.mem_map_of_mem hleg')
        · cases heq
      · rcases hk' with heq | heq
        · cases heq
        · injection heq with _ heq
          exact hordinals.1 (heq ▸ List.mem_map_of_mem hleg')

section Twins

variable {d₀ : Tables} {fingerprint : String} {t : ι → PlannedTask}

/-- The identifiers of a twin's task are new to the first tables. -/
theorem TaskTwins.taskKeys_new (h : TaskTwins d₀ key fingerprint t) (i : ι) :
    ∀ k ∈ taskKeys (t i).task, k ∉ keys d₀ := by
  intro k hk
  rcases List.mem_cons.mp hk with rfl | hk
  · exact h.taskId i
  · rw [List.mem_singleton.mp hk, h.key i]
    exact storedTasks_nil h.absent

/-- So are those of its legs. -/
theorem TaskTwins.legKeys_new (h : TaskTwins d₀ key fingerprint t) (i : ι) :
    ∀ k ∈ (t i).legs.flatMap taskLegKeys, k ∉ keys d₀ ∧ k ∉ taskKeys (t i).task := by
  intro k hk
  obtain ⟨leg, hleg, hk⟩ := List.mem_flatMap.mp hk
  simp only [taskLegKeys, List.mem_cons, List.not_mem_nil, or_false] at hk
  rcases hk with rfl | rfl
  · exact ⟨h.legIds i leg hleg, by simp [taskKeys]⟩
  · refine ⟨fun hmem => ?_, by simp [taskKeys]⟩
    obtain ⟨l, hl, hid, -⟩ := mem_keys.mp hmem
    obtain ⟨task, htask, hid'⟩ := h.linked.taskLegs l hl
    refine h.taskId i (mem_keys.mpr ⟨task, htask, ?_⟩)
    rw [hid', ← hid, h.legTasks i leg hleg]

/-- After the creation of a task it is the one under its key. -/
theorem TaskTwins.stored (h : TaskTwins d₀ key fingerprint t) (i : ι) :
    storedTasks key (taskTables (t i) d₀) = [t i] := by
  have hold : d₀.tasks.filter (·.idempotencyKey = key) = [] := List.map_eq_nil_iff.mp h.absent
  have hother : d₀.taskLegs.filter (·.taskId = (t i).task.id) = [] := by
    rw [List.filter_eq_nil_iff]
    intro leg hleg heq
    obtain ⟨task, htask, hid⟩ := h.linked.taskLegs leg hleg
    refine h.taskId i (mem_keys.mpr ⟨task, htask, ?_⟩)
    exact (of_decide_eq_true heq).symm.trans hid.symm
  have hown : (t i).legs.filter (·.taskId = (t i).task.id) = (t i).legs := by
    rw [List.filter_eq_self]
    intro leg hleg
    exact decide_eq_true (h.legTasks i leg hleg)
  show ((d₀.tasks ++ [(t i).task]).filter _).map
    (fun task => (⟨task, (d₀.taskLegs ++ (t i).legs).filter _⟩ : PlannedTask)) = _
  rw [List.filter_append, hold, List.nil_append, List.filter_singleton, h.key i, decide_eq_true rfl,
    cond_true, List.map_singleton, List.filter_append, hother, hown]
  rfl

/-- What the twins can make of the first tables: each its own task, and one key
for all. -/
theorem TaskTwins.outcomes (h : TaskTwins d₀ key fingerprint t) :
    Outcomes (storedTasks key) (fun i => some (t i)) (fun i => some (taskTables (t i) d₀)) d₀ where
  absent := h.absent
  stores := by
    intro i d hd
    injection hd with hd
    subst hd
    exact ⟨t i, rfl, h.stored i⟩

/-! ## §2. The creation. -/

/-- The statement flushes a task. -/
def flushesTask : Sql → Bool
  | .flush (.task _) => true
  | _ => false

/-- A task is flushed only before a twin has committed. -/
def taskCondition (key : String) (_ : ι) (o : Sql) (b : Base ι) : Prop :=
  flushesTask o → storedTasks key b.data = []

instance (key : String) (i : ι) (o : Sql) (b : Base ι) : Decidable (taskCondition key i o b) :=
  inferInstanceAs (Decidable (_ → _))

/-- What a request for a task may answer. -/
abbrev TaskAnswer [DecidableEq ι] (d₀ : Tables) (t : ι → PlannedTask) (i : ι) :
    Except Exc (PlannedTask × Bool) → Base ι → Prop :=
  Answer SameTask (fun i => some (t i)) (verdict (fun i => createExecutionTask (t i)) d₀) i

/-- The lookup that finds a twin's task answers with it. -/
theorem goal_sameTask [DecidableEq ι] {gates : List (RowLock ⊕ UniqueKey)}
    {allow : ι → Sql → Base ι → Prop} (h : TaskTwins d₀ key fingerprint t) {i j : ι} (hj : j ≠ i)
    {b : Base ι} (hb : b.session i = .closed ∧ b.At (some j) (taskTables (t j) d₀)) :
    goal schema d₀ (fun i => some (taskTables (t i) d₀)) gates allow i
      (sameTask (t i) (t j).task) (TaskAnswer d₀ t i) b := by
  have hsame : (t j).task.requestFingerprint = (t i).task.requestFingerprint := by
    rw [h.fingerprint j, h.fingerprint i]
  unfold sameTask
  rw [raiseIf_neg (not_not.mpr hsame)]
  refine goal_known stable_known (fun h => by cases h) hb ?_
  intro b' _ hd'
  exact ⟨j, t j, hj, hd'.1, rfl, rfl, (ask_taskByKey_some (h.stored j)).2⟩

/-- The creation of a task: its own rows are stored, or those of the twin that was
faster are found at its lookup. -/
theorem goal_createExecutionTask [DecidableEq ι] (h : TaskTwins d₀ key fingerprint t) (i : ι)
    {b : Base ι} (hb : b.session i = .closed ∧ b.author ≠ some i) :
    goal schema d₀ (fun i => some (taskTables (t i) d₀)) [.inr (.taskKey key)] (taskCondition key) i
      (createExecutionTask (t i)) (TaskAnswer d₀ t i) b := by
  have hout := h.outcomes
  refine goal_mono (goal_withSession Answer.enduring ?_) fun _ _ hr => hr.2
  unfold select
  refine goal_open (fun h => by cases h) hb ?_ ?_
  · intro _ b₁ _ _ hs₁ hd₁
    rw [show (schema.answer (.select (.taskByKey (t i).task.idempotencyKey)) (d₀, .closed)).1
      = ask (.taskByKey (t i).task.idempotencyKey) d₀ from rfl, h.key i, ask_taskByKey_none h.absent]
    have hne₁ : b₁.author ≠ some i := by
      rw [hd₁.1]
      exact fun h => by cases h
    refine goal_open (s := .closed) (fun h => by cases h) ⟨hs₁, hne₁⟩ ?_ ?_
    · -- The first to flush its task keeps everybody else away from the key.
      intro _ b₂ _ _ hs₂ hd₂
      rw [answer_flush_new (w := .task (t i).task) (s := .closed) (by simp [claims, taskKeys])
        (h.taskKeys_new i)] at hs₂ ⊢
      have hheld : ∀ ks ws, (⟨[], taskKeys (t i).task ++ ks, ws⟩ : Transaction).Holds
          (.inr (.taskKey key)) := by
        simp [Session.Holds, taskKeys, h.key i]
      refine System.wp_catching _ _ _ ?_
      refine goal_flush (s := ⟨[], taskKeys (t i).task, [.task (t i).task]⟩)
        (List.mem_singleton_self _) (hheld [] _) ⟨hs₂, hd₂⟩
        (taskLegKeys_nodup (h.legIds_nodup i) (h.ordinals_nodup i)) ?_ ?_
      · intro k hk hmem
        rcases mem_keys_apply (w := .task (t i).task) (fun _ h => by cases h) hmem with hold | hown
        · exact (h.legKeys_new i k hk).1 hold
        · exact (h.legKeys_new i k hk).2 hown
      · intro b₃ hs₃ hd₃
        refine goal_commit_rows (List.mem_singleton_self _) ?_
          (rfl : some (taskTables (t i) d₀) = _) ⟨hs₃, hd₃⟩ ?_
        · intro g hg
          rw [List.mem_singleton.mp hg]
          exact hheld _ _
        · intro b₄ hd₄
          exact ⟨hd₄, rfl⟩
    · -- A twin's task is there: the flush is not allowed.
      intro j d b₂ _ _ hmade hallowed hd _ _
      obtain ⟨p, -, hstored⟩ := hout.stores j d hmade
      rw [← hd.2, hallowed rfl] at hstored
      cases hstored
  · intro j d _ b₁ hj hmade _ _ hs₁ hd₁
    injection hmade with hmade
    subst hmade
    rw [show (schema.answer (.select (.taskByKey (t i).task.idempotencyKey))
      (taskTables (t j) d₀, .closed)).1
        = ask (.taskByKey (t i).task.idempotencyKey) (taskTables (t j) d₀) from rfl, h.key i,
      (ask_taskByKey_some (h.stored j)).1]
    exact goal_sameTask h hj ⟨hs₁, hd₁⟩

/-- Creations of one task are idempotent, as long as none flushes its task
after a twin has committed. -/
theorem createExecutionTask_idempotent [DecidableEq ι] (h : TaskTwins d₀ key fingerprint t)
    {c : Run ι PlannedTask}
    (hc : Reaches (fun i => createExecutionTask (t i)) d₀ (taskCondition key) c) :
    Idempotent (fun i => createExecutionTask (t i)) (storedTasks key) SameTask d₀ c :=
  idempotent_of_goal [.inr (.taskKey key)] h.outcomes
    (fun i => goal_createExecutionTask h i ⟨rfl, fun h => by cases h⟩) hc

end Twins

end BasisHawk.Planning
