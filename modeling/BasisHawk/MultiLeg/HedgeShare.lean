/-
  BasisHawk.MultiLeg.HedgeShare
  ─────────────────────────────
  How far the hedge legs of a task may run ahead of its anchor.

  An order commits its leg to its full size until it has ended, and to what it
  has filled afterwards.  While the anchor is short of its target, each hedge is
  committed to no more than its share of what the anchor has filled.

  Main results:
    • `hedge_share` — one open order per run, every leg within its target and
      every hedge within its share, in every reachable state; an anchor order is
      only created when no hedge has a deficit,
    • `open_order_counted_twice` — what an open order has filled is part of its
      size.
-/
import BasisHawk.MultiLeg.TradeLag

namespace BasisHawk.MultiLeg

open Domain Lib Accounts Database

variable {num : Numeric} {workerId : String}

/-! ## §1. The share of a hedge. -/

/-- The task's trigger lets the hedges follow what the anchor has filled. -/
def Triggered (task : ExecutionTaskRow) (anchorTarget anchorFilled : ℚ) : Prop :=
  ∀ t ∈ task.hedgeThreshold, t * anchorTarget ≤ anchorFilled

instance (task : ExecutionTaskRow) (anchorTarget anchorFilled : ℚ) :
    Decidable (Triggered task anchorTarget anchorFilled) :=
  inferInstanceAs (Decidable (∀ t ∈ task.hedgeThreshold, _))

/-- The share of a hedge in what the anchor has filled. -/
def hedgeShare (anchorTarget anchorFilled hedgeTarget : ℚ) : ℚ :=
  min hedgeTarget (anchorFilled * hedgeTarget / anchorTarget)

/-- What a hedge is behind its share under the task's trigger. -/
def hedgeDeficit (task : ExecutionTaskRow) (anchorTarget anchorFilled hedgeTarget hedgeFilled : ℚ) :
    ℚ :=
  (if Triggered task anchorTarget anchorFilled then
    hedgeShare anchorTarget anchorFilled hedgeTarget else 0) - hedgeFilled

/-- The hedge deficit depends on the threshold of the task and on no other
field. -/
theorem hedgeDeficit_congr {task task' : ExecutionTaskRow}
    (h : task.hedgeThreshold = task'.hedgeThreshold)
    (anchorTarget anchorFilled hedgeTarget hedgeFilled : ℚ) :
    hedgeDeficit task anchorTarget anchorFilled hedgeTarget hedgeFilled
      = hedgeDeficit task' anchorTarget anchorFilled hedgeTarget hedgeFilled := by
  have hiff : Triggered task anchorTarget anchorFilled ↔ Triggered task' anchorTarget anchorFilled := by
    unfold Triggered
    rw [h]
  exact congrArg (· - hedgeFilled) (if_congr hiff rfl rfl)

/-- The executor's reading of the trigger. -/
theorem waits_iff (task : ExecutionTaskRow) {anchorTarget : ℚ} (hpos : 0 < anchorTarget)
    (anchorFilled : ℚ) :
    (task.hedgeTrigger = .cumulativePercent ∧ anchorFilled < anchorTarget
        ∧ anchorFilled / anchorTarget < (task.hedgeThreshold.filter (· ≠ 0)).getD 1)
      ↔ ¬Triggered task anchorTarget anchorFilled := by
  unfold Triggered
  rcases task.threshold_check with ⟨htrigger, hnone⟩ | ⟨htrigger, t, ht, htpos, htle⟩
  · rw [hnone, htrigger]
    exact ⟨fun h => (by cases h.1), fun h => absurd (fun t ht => by cases ht) h⟩
  · have ht : task.hedgeThreshold = some t := ht
    have hfilter : ((some t).filter (· ≠ 0)).getD 1 = t := by
      rw [Option.filter_some, if_pos (by simpa using htpos.ne')]
      rfl
    have hiff : (∀ t' ∈ some t, t' * anchorTarget ≤ anchorFilled) ↔ t * anchorTarget ≤ anchorFilled :=
      ⟨fun h => h t rfl, fun h t' ht' => by
        injection ht' with ht'
        exact ht' ▸ h⟩
    rw [ht, hfilter, htrigger, hiff, div_lt_iff₀ hpos, not_le]
    refine ⟨fun h => h.2.2, fun h => ⟨rfl, lt_of_lt_of_le h ?_, h⟩⟩
    exact mul_le_of_le_one_left hpos.le htle

/-! ## §2. What `_progress` orders. -/

section Choice

variable {task : ExecutionTaskRow} {filled : Nat → ℚ} {anchorTarget anchorFilled : ℚ}
  {leg : ExecutionTaskLegRow} {deficit : ℚ}

/-- A hedge that is ordered stays within its share. -/
theorem nextHedge_some (hfilled : ∀ id, 0 ≤ filled id) :
    ∀ {legs : List ExecutionTaskLegRow},
      nextHedge task filled anchorTarget anchorFilled legs = .ok (some (leg, deficit)) →
        leg ∈ legs ∧ anchorTarget ≠ 0 ∧ ∃ t, leg.resolvedBaseQuantity = some t
          ∧ deficit ≤ anchorFilled * t / anchorTarget - filled leg.id
  | [], h => by cases h
  | l :: rest, h => by
      obtain ⟨t, ht, h⟩ := bind_eq_ok.mp h
      simp only [raiseIf_bind_eq_ok] at h
      obtain ⟨hne, h⟩ := h
      have hrest : nextHedge task filled anchorTarget anchorFilled rest = .ok (some (leg, deficit)) →
          leg ∈ l :: rest ∧ anchorTarget ≠ 0 ∧ ∃ t, leg.resolvedBaseQuantity = some t
            ∧ deficit ≤ anchorFilled * t / anchorTarget - filled leg.id :=
        fun h => (nextHedge_some hfilled h).imp_left (List.mem_cons_of_mem _)
      split at h
      · -- Below the threshold nothing is desired.
        split at h
        · next hpos =>
            have := hfilled l.id
            exact absurd hpos (by linarith)
        · exact hrest h
      · split at h
        · injection h with h
          injection h with h
          obtain ⟨rfl, rfl⟩ := Prod.mk.inj h
          exact ⟨List.mem_cons_self, hne, t, target_ok ht, sub_le_sub_right (min_le_right _ _) _⟩
        · exact hrest h

/-- When no hedge is ordered, none has a deficit. -/
theorem nextHedge_none (hnonneg : 0 ≤ anchorTarget) :
    ∀ {legs : List ExecutionTaskLegRow},
      nextHedge task filled anchorTarget anchorFilled legs = .ok none →
        ∀ l ∈ legs, ∃ t, l.resolvedBaseQuantity = some t
          ∧ hedgeDeficit task anchorTarget anchorFilled t (filled l.id) ≤ 0
  | [], _ => fun _ hl => by cases hl
  | l :: rest, h => by
      obtain ⟨t, ht, h⟩ := bind_eq_ok.mp h
      simp only [raiseIf_bind_eq_ok] at h
      obtain ⟨hne, h⟩ := h
      have hpos : 0 < anchorTarget := lt_of_le_of_ne hnonneg (Ne.symm hne)
      have hwaits := waits_iff task hpos anchorFilled
      have hnext : nextHedge task filled anchorTarget anchorFilled rest = .ok none
          ∧ hedgeDeficit task anchorTarget anchorFilled t (filled l.id) ≤ 0 := by
        unfold hedgeDeficit hedgeShare
        split at h
        · next hwait =>
            rw [if_neg (hwaits.mp hwait)]
            split at h
            · cases h
            · next hnot => exact ⟨h, not_lt.mp hnot⟩
        · next hgo =>
            rw [if_pos (not_not.mp fun hn => hgo (hwaits.mpr hn))]
            split at h
            · cases h
            · next hnot => exact ⟨h, not_lt.mp hnot⟩
      exact List.forall_mem_cons.mpr ⟨⟨t, target_ok ht, hnext.2⟩, nextHedge_none hnonneg hnext.1⟩

/-- The anchor of the legs is one with that role. -/
theorem anchorOf_role {legs : List ExecutionTaskLegRow} {anchor : ExecutionTaskLegRow}
    (h : anchorOf legs = .ok anchor) : anchor.role = .anchor := by
  unfold anchorOf found at h
  split at h
  · next a ha =>
      injection h with h
      rw [← h]
      simpa using List.find?_some ha
  · cases h

/-- What `_progress` orders next: a hedge within its share, the anchor when no
hedge has a deficit, or a hedge once the anchor has its target. -/
theorem nextDeficit_cases {legs : List ExecutionTaskLegRow} {orders : List ExecutionOrderRow}
    {phase : TaskStatus}
    (hpos : ∀ l ∈ legs, ∀ t, l.resolvedBaseQuantity = some t → 0 ≤ t)
    (h : nextDeficit task legs orders = .ok (some (phase, leg, deficit))) :
    ∃ anchor ∈ legs, anchor.role = .anchor ∧ ∃ t, anchor.resolvedBaseQuantity = some t
      ∧ ((leg.role = .hedge ∧ t ≠ 0 ∧ ∃ u, leg.resolvedBaseQuantity = some u
            ∧ deficit ≤ filledBaseOf orders anchor.id .primary * u / t
              - filledBaseOf orders leg.id .primary)
          ∨ (leg = anchor ∧ ∀ l ∈ legs, l.role = .hedge → ∃ u, l.resolvedBaseQuantity = some u
              ∧ hedgeDeficit task t (filledBaseOf orders anchor.id .primary) u
                (filledBaseOf orders l.id .primary) ≤ 0)
          ∨ (leg.role = .hedge ∧ t ≤ filledBaseOf orders anchor.id .primary)) := by
  have hrole : ∀ l ∈ legs.filter (fun l => l.role = .hedge), l.role = .hedge := fun l hl => by
    simpa using (List.mem_filter.mp hl).2
  obtain ⟨anchor, hanchor, h⟩ := bind_eq_ok.mp h
  obtain ⟨t, ht, h⟩ := bind_eq_ok.mp h
  have ht := target_ok ht
  have hmem := anchorOf_mem hanchor
  refine ⟨anchor, hmem, anchorOf_role hanchor, t, ht, ?_⟩
  -- The hedges come first, each within its share of the anchor's fills.
  obtain ⟨hedge, hhedge, h⟩ := bind_eq_ok.mp h
  cases hedge with
  | some p =>
      cases h
      obtain ⟨hin, hne, u, hu, hle⟩ := nextHedge_some (fun id => filledBaseOf_nonneg _ _ _) hhedge
      exact .inl ⟨hrole _ hin, hne, u, hu, hle⟩
  -- No hedge has a deficit: the anchor goes on, until it has its target.
  | none =>
      dsimp only at h
      split at h
      · cases h
        refine .inr (.inl ⟨rfl, fun l hl hr => ?_⟩)
        exact nextHedge_none (hpos _ hmem _ ht) hhedge l (List.mem_filter.mpr ⟨hl, by simpa using hr⟩)
      · -- And with the anchor done, a hedge that is short of its own target.
        next hreached =>
          obtain ⟨short, hshort, h⟩ := bind_eq_ok.mp h
          cases short with
          | none => cases h
          | some p =>
              cases h
              refine .inr (.inr ⟨hrole _ (nextShort_short hshort).1, ?_⟩)
              linarith

end Choice

/-! ## §3. The legs as planned. -/

/-- A list with one element of a kind has it at one position. -/
theorem pairwise_of_filter {α : Type} {p : α → Bool} :
    ∀ {xs : List α}, (xs.filter p).length ≤ 1 → xs.Pairwise fun a b => ¬(p a ∧ p b)
  | [], _ => .nil
  | x :: xs, h => by
      by_cases hx : p x
      · rw [List.filter_cons_of_pos hx, List.length_cons] at h
        have hnil : xs.filter p = [] := List.length_eq_zero_iff.mp (by omega)
        refine .cons (fun y hy hboth => ?_) (pairwise_of_filter (by rw [hnil]; exact Nat.zero_le 1))
        exact List.filter_eq_nil_iff.mp hnil y hy hboth.2
      · rw [List.filter_cons_of_neg hx] at h
        exact .cons (fun y _ hboth => hx hboth.1) (pairwise_of_filter h)

theorem planned_taskId {l l' : ExecutionTaskLegRow} (h : l.planned = l'.planned) :
    l.taskId = l'.taskId :=
  show l.planned.taskId = l'.planned.taskId from congrArg _ h

theorem planned_role {l l' : ExecutionTaskLegRow} (h : l.planned = l'.planned) : l.role = l'.role :=
  show l.planned.role = l'.planned.role from congrArg _ h

/-- Every leg belongs to a task, and a task has at most one anchor. -/
structure Planned (db : Database) : Prop where
  owned : ∀ l ∈ db.legs, l.taskId ∈ db.tasks.map key
  one_anchor : ∀ l ∈ db.legs, ∀ l' ∈ db.legs, l.taskId = l'.taskId → l.role = .anchor →
    l'.role = .anchor → l = l'

theorem Planned.below {db : Database} (hwf : WellFormed db) (h : Planned db)
    {l : ExecutionTaskLegRow} (hl : l ∈ db.legs) : l.taskId < db.nextId := by
  obtain ⟨t, ht, hid⟩ := List.mem_map.mp (h.owned l hl)
  rw [← hid]
  exact hwf.tasks_below t ht

/-- New tasks come with one anchor; other actors do not touch the legs of old
ones. -/
theorem Planned.act {w : World} (hwf : WellFormed w.db) (h : Planned w.db) (a : Act) :
    Planned (a.apply w).db := by
  refine a.rec_apply (P := fun w => Planned w.db) (fun _ => h) (fun _ _ => ⟨h.owned, h.one_anchor⟩)
    (fun plan => ?_) h ?_
  · have hnew : ∀ l ∈ plan.legs.mapIdx fun i leg => ({ leg with
        id := w.db.nextId + 1 + i
        taskId := w.db.nextId
        ordinal := i
        resolvedBaseQuantity := none
        signedBaseRatio := none } : ExecutionTaskLegRow), l.taskId = w.db.nextId := by
      intro l hl
      obtain ⟨i, hi, rfl⟩ := List.mem_mapIdx.mp hl
      rfl
    refine ⟨fun l hl => ?_, fun l hl l' hl' htask ha ha' => ?_⟩
    · show l.taskId ∈ (w.db.tasks ++ _).map key
      rw [List.map_append]
      rcases List.mem_append.mp hl with hl | hl
      · exact List.mem_append_left _ (h.owned l hl)
      · exact List.mem_append_right _ (by rw [hnew l hl]; exact List.mem_singleton.mpr rfl)
    · rcases List.mem_append.mp hl with hl | hl <;> rcases List.mem_append.mp hl' with hl' | hl'
      · exact h.one_anchor l hl l' hl' htask ha ha'
      · have hbelow := h.below hwf hl
        rw [htask, hnew l' hl'] at hbelow
        omega
      · have hbelow := h.below hwf hl'
        rw [← htask, hnew l hl] at hbelow
        omega
      · -- Both are legs of the new task, which has one anchor.
        obtain ⟨i, hi, rfl⟩ := List.mem_mapIdx.mp hl
        obtain ⟨j, hj, rfl⟩ := List.mem_mapIdx.mp hl'
        have hpair := List.pairwise_iff_getElem.mp (pairwise_of_filter plan.one_anchor.le)
        have hai : decide (plan.legs[i].role = .anchor) = true := decide_eq_true ha
        have haj : decide (plan.legs[j].role = .anchor) = true := decide_eq_true ha'
        rcases Nat.lt_trichotomy i j with hij | rfl | hij
        · exact absurd ⟨hai, haj⟩ (hpair i j hi hj hij)
        · rfl
        · exact absurd ⟨haj, hai⟩ (hpair j i hj hi hij)
  · rintro db' ⟨row, row', rfl, -⟩
    refine ⟨fun l hl => ?_, h.one_anchor⟩
    show l.taskId ∈ (Table.put w.db.tasks row').map key
    rw [Table.map_key_put]
    exact h.owned l hl

/-- No transaction of the worker changes the plan of a leg. -/
theorem Planned.tx {o : DbOp} {amb : Ambient} {r : o.Result} {db db' : Database}
    (hok : o.tx num amb db = .ok (r, db')) (hwf : WellFormed db) (h : Planned db) : Planned db' := by
  -- A leg stays as it was planned.
  have hlegs : ∀ l ∈ db'.legs, ∃ l₀ ∈ db.legs, l.planned = l₀.planned := by
    intro l hl
    rcases DbOp.legsEffect hok hl with hl | ⟨-, l₀, hl₀, hplanned, -⟩
    · exact ⟨l, hl, rfl⟩
    · exact ⟨l₀, hl₀, hplanned⟩
  refine ⟨fun l hl => ?_, fun l hl l' hl' htask ha ha' => ?_⟩
  · obtain ⟨l₀, hl₀, hplanned⟩ := hlegs l hl
    rw [(DbOp.tasksEffect hok).1, planned_taskId hplanned]
    exact h.owned l₀ hl₀
  · obtain ⟨l₀, hl₀, hplanned⟩ := hlegs l hl
    obtain ⟨l₁, hl₁, hplanned'⟩ := hlegs l' hl'
    have hsame : l₀ = l₁ := by
      refine h.one_anchor l₀ hl₀ l₁ hl₁ ?_ ?_ ?_
      · rw [← planned_taskId hplanned, ← planned_taskId hplanned', htask]
      · rw [← planned_role hplanned, ha]
      · rw [← planned_role hplanned', ha']
    refine (hwf.tx hok).legs_unique.eq hl hl' ?_
    show l.id = l'.id
    rw [planned_id hplanned, planned_id hplanned', hsame]

/-! ## §4. The bound. -/

/-- A leg without primary orders has committed nothing. -/
theorem committed_of_none {db : Database} {legId : Nat}
    (h : ∀ o ∈ db.orders, ¬o.isPrimaryOf legId) : committed db legId = 0 := by
  refine List.sum_eq_zero fun x hx => ?_
  obtain ⟨o, ho, rfl⟩ := List.mem_map.mp hx
  exact commitmentTo_of_ne (h o ho)

/-- A hedge is committed to at most its share of what the anchor has filled, or
the anchor has its target; before the anchor has one the hedge has no orders. -/
def WithinShare (db : Database) (anchor hedge : ExecutionTaskLegRow) : Prop :=
  match anchor.resolvedBaseQuantity with
  | none => ∀ o ∈ db.orders, ¬o.isPrimaryOf hedge.id
  | some t => ∀ u, hedge.resolvedBaseQuantity = some u →
      t ≤ filledOf db anchor.id ∨ committed db hedge.id * t ≤ filledOf db anchor.id * u

/-- No order of the run is open beside another one. -/
def OneOpen (db : Database) : Prop :=
  ∀ o ∈ db.orders, ∀ o' ∈ db.orders, o.runId = o'.runId → o.status.isTerminal = false →
    o'.status.isTerminal = false → o = o'

/-- The bounds on what the legs of a task are committed to. -/
structure Hedged (db : Database) : Prop extends Planned db where
  one_open : OneOpen db
  within : ∀ l ∈ db.legs, WithinTarget db l
  share : ∀ a ∈ db.legs, ∀ h ∈ db.legs, a.taskId = h.taskId → a.role = .anchor →
    h.role = .hedge → WithinShare db a h

/-- A hedge without orders is within its share. -/
theorem WithinShare.of_none {db : Database} {anchor hedge : ExecutionTaskLegRow}
    (h : ∀ o ∈ db.orders, ¬o.isPrimaryOf hedge.id) (htarget : WithinTarget db hedge) :
    WithinShare db anchor hedge := by
  unfold WithinShare
  split
  · exact h
  · intro u hu
    unfold WithinTarget at htarget
    rw [hu] at htarget
    have hzero := committed_of_none h
    have hu : 0 ≤ u := hzero ▸ (htarget : committed db hedge.id ≤ u)
    rw [hzero, zero_mul]
    exact .inr (mul_nonneg (filledBaseOf_nonneg _ _ _) hu)

/-- The bound speaks of the orders only. -/
theorem WithinShare.congr {db db' : Database} (h : db'.orders = db.orders)
    {anchor hedge : ExecutionTaskLegRow} :
    WithinShare db' anchor hedge ↔ WithinShare db anchor hedge := by
  unfold WithinShare filledOf committed
  rw [h]

/-- An order that fills without raising its commitment keeps every hedge within
its share. -/
theorem WithinShare.put {db db' : Database} (hwf : WellFormed db)
    {anchor hedge : ExecutionTaskLegRow} (h : WithinShare db anchor hedge)
    {old new : ExecutionOrderRow} (hold : old ∈ db.orders) (hsame : SameOrder old new)
    (hle : new.commitment ≤ old.commitment) (hfills : old.filledBase ≤ new.filledBase)
    (hpos : ∀ t, anchor.resolvedBaseQuantity = some t → 0 ≤ t)
    (hpos' : ∀ u, hedge.resolvedBaseQuantity = some u → 0 ≤ u)
    (heq : db'.orders = Table.put db.orders new) : WithinShare db' anchor hedge := by
  -- The fills of the anchor only grow.
  have hfilled : filledOf db anchor.id ≤ filledOf db' anchor.id := by
    have hsum : filledOf db' anchor.id
        = filledOf db anchor.id - old.filledTo anchor.id + new.filledTo anchor.id := by
      rw [filledOf_eq, filledOf_eq, heq]
      exact Table.sum_put _ hwf.orders_unique hold hsame.id.symm
    have hshare : old.filledTo anchor.id ≤ new.filledTo anchor.id := by
      unfold ExecutionOrderRow.filledTo
      by_cases hp : old.isPrimaryOf anchor.id
      · rw [if_pos ((hsame.isPrimaryOf_iff _).mpr hp), if_pos hp]
        exact hfills
      · rw [if_neg fun h => hp ((hsame.isPrimaryOf_iff _).mp h), if_neg hp]
    linarith
  -- The anchor is unresolved, or its hedges stay below their share of more fills.
  unfold WithinShare at h ⊢
  cases hres : anchor.resolvedBaseQuantity with
  | none =>
      rw [hres] at h
      exact noOrder_put hold hsame heq h
  | some t =>
      rw [hres] at h
      intro u hu
      rcases h u hu with hreached | hshare
      · exact .inl (hreached.trans hfilled)
      · right
        calc committed db' hedge.id * t
            ≤ committed db hedge.id * t := mul_le_mul_of_nonneg_right
              (committed_put hwf hold hsame hle heq hedge.id) (hpos t hres)
          _ ≤ filledOf db anchor.id * u := hshare
          _ ≤ filledOf db' anchor.id * u := mul_le_mul_of_nonneg_right hfilled (hpos' u hu)

/-! ## §5. The steps. -/

/-- The targets are not negative. -/
theorem WithinTarget.target_nonneg {db : Database} {l : ExecutionTaskLegRow}
    (h : WithinTarget db l) {t : ℚ} (ht : l.resolvedBaseQuantity = some t) : 0 ≤ t := by
  unfold WithinTarget at h
  rw [ht] at h
  refine le_trans ?_ (h : committed db l.id ≤ t)
  refine List.sum_nonneg fun x hx => ?_
  obtain ⟨o, -, rfl⟩ := List.mem_map.mp hx
  exact o.commitmentTo_nonneg l.id

/-- Other actors keep the hedges within their shares: they trade nothing. -/
theorem Hedged.act {w : World} (hwf : WellFormed w.db) (h : Hedged w.db) (a : Act) :
    Hedged (a.apply w).db := by
  have horders : (a.apply w).db.orders = w.db.orders := (act_frame a w).2.1
  have hwithin := WithinTarget.other hwf h.within a
  refine ⟨h.toPlanned.act hwf a, ?_, hwithin, fun x hx y hy htask hax hhy => ?_⟩
  · unfold OneOpen
    rw [horders]
    exact h.one_open
  · rcases act_legs a y hy with hy' | ⟨hfresh, -⟩
    · rcases (act_legs_task a).2 x hx with hx' | hnew
      · exact (WithinShare.congr horders).mpr (h.share x hx' y hy' htask hax hhy)
      · -- The anchor of a new task has no older hedge.
        have hbelow := h.toPlanned.below hwf hy'
        rw [← htask, hnew] at hbelow
        omega
    · refine .of_none (fun o ho hp => ?_) (hwithin y hy)
      exact hwf.leg_of_order_ne hfresh o (horders ▸ ho) hp.1

/-- A transaction that leaves the orders alone. -/
theorem Hedged.legs {o : DbOp} {amb : Ambient} {r : o.Result} {db db' : Database}
    (hok : o.tx num amb db = .ok (r, db')) (hwf : WellFormed db)
    (horders : db'.orders = db.orders) (h : Hedged db) : Hedged db' := by
  have hwithin := WithinTarget.legs hok horders h.within
  refine ⟨h.toPlanned.tx hok hwf, ?_, hwithin, fun x hx y hy htask hax hhy => ?_⟩
  · unfold OneOpen
    rw [horders]
    exact h.one_open
  · have hold : ∀ l ∈ db'.legs, ∃ l₀ ∈ db.legs, l.planned = l₀.planned
        ∧ (l = l₀ ∨ l₀.resolvedBaseQuantity = none) := by
      intro l hl
      rcases DbOp.legsEffect hok hl with hl | ⟨-, l₀, hl₀, hplanned, hnone, -⟩
      · exact ⟨l, hl, rfl, .inl rfl⟩
      · exact ⟨l₀, hl₀, hplanned, .inr hnone⟩
    obtain ⟨x₀, hx₀, hpx, hcx⟩ := hold x hx
    obtain ⟨y₀, hy₀, hpy, hcy⟩ := hold y hy
    have hshare : WithinShare db x₀ y₀ := by
      refine h.share x₀ hx₀ y₀ hy₀ ?_ ?_ ?_
      · rw [← planned_taskId hpx, ← planned_taskId hpy, htask]
      · rw [← planned_role hpx, hax]
      · rw [← planned_role hpy, hhy]
    -- Where one of the two has just been resolved, the hedge has no orders.
    have hnone : (∀ o ∈ db.orders, ¬o.isPrimaryOf y₀.id) → WithinShare db' x y := by
      intro hnone
      refine .of_none (fun o ho => ?_) (hwithin y hy)
      rw [planned_id hpy]
      exact hnone o (horders ▸ ho)
    rcases hcy with rfl | hy₀none
    · rcases hcx with rfl | hx₀none
      · exact (WithinShare.congr horders).mpr hshare
      · unfold WithinShare at hshare
        rw [hx₀none] at hshare
        exact hnone hshare
    · have hwithin₀ := h.within y₀ hy₀
      unfold WithinTarget at hwithin₀
      rw [hy₀none] at hwithin₀
      exact hnone hwithin₀

/-- An order that changes its row. -/
theorem Hedged.putOrder {o : DbOp} {amb : Ambient} {r : o.Result} {db db' : Database}
    (hok : o.tx num amb db = .ok (r, db')) (hwf : WellFormed db) (h : Hedged db)
    {old new : ExecutionOrderRow} (hold : old ∈ db.orders) (hsame : SameOrder old new)
    (hopen : old.status.isTerminal = false) (hle : new.commitment ≤ old.commitment)
    (hfills : old.filledBase ≤ new.filledBase) (heq : db'.orders = Table.put db.orders new)
    (hlegs : ∀ l ∈ db'.legs, l ∈ db.legs) : Hedged db' := by
  refine ⟨h.toPlanned.tx hok hwf, ?_, fun l hl => (h.within l (hlegs l hl)).put hwf hold hsame hle heq,
    fun x hx y hy htask hax hhy => ?_⟩
  · intro x hx y hy hrun hxo hyo
    -- The row that has changed was open before.
    have hback : ∀ z ∈ db'.orders, z.status.isTerminal = false → ∃ z₀ ∈ db.orders,
        z₀.id = z.id ∧ z₀.runId = z.runId ∧ z₀.status.isTerminal = false := by
      intro z hz hzo
      rw [heq] at hz
      rcases Table.mem_put.mp hz with ⟨rfl, -⟩ | ⟨hz, -⟩
      · exact ⟨old, hold, hsame.id.symm, hsame.runId.symm, hopen⟩
      · exact ⟨z, hz, rfl, rfl, hzo⟩
    obtain ⟨x₀, hx₀, hxid, hxrun, hxo₀⟩ := hback x hx hxo
    obtain ⟨y₀, hy₀, hyid, hyrun, hyo₀⟩ := hback y hy hyo
    have hsame₀ := h.one_open x₀ hx₀ y₀ hy₀ (by rw [hxrun, hyrun, hrun]) hxo₀ hyo₀
    refine (hwf.tx hok).orders_unique.eq hx hy ?_
    show x.id = y.id
    rw [← hxid, ← hyid, hsame₀]
  · exact (h.share x (hlegs x hx) y (hlegs y hy) htask hax hhy).put hwf hold hsame hle hfills
      (fun t => (h.within x (hlegs x hx)).target_nonneg)
      (fun u => (h.within y (hlegs y hy)).target_nonneg) heq

/-- The row of a leg the pass carries: as planned, of the task, and resolved as
the pass has it. -/
theorem Carries.row {c : Claimed} {legs : List ExecutionTaskLegRow} {db : Database}
    (h : Carries c legs db) {l : ExecutionTaskLegRow} (hl : l ∈ legs) :
    ∃ row ∈ db.legs, row.planned = l.planned ∧ row.taskId = c.task.id
      ∧ ∀ t, l.resolvedBaseQuantity = some t → row.resolvedBaseQuantity = some t := by
  obtain ⟨⟨row, hrow, hplanned, htask, hres⟩, -⟩ := h.tracks l hl
  refine ⟨row, hrow, hplanned, htask, fun t ht => ?_⟩
  rw [hres.resolve_left (by rw [ht]; exact Option.some_ne_none t), ht]

/-- A hedge is ordered within its share, or when the anchor has its target. -/
theorem ChoiceGuard.share {w : World} {a : OrderAttempt} (hwf : WellFormed w.db) (h : Hedged w.db)
    (hpre : CreateGuard a w) (hchoice : ChoiceGuard a w) (hpurpose : a.purpose = .primary)
    {x y : ExecutionTaskLegRow} (hx : x ∈ w.db.legs) (hy : y ∈ w.db.legs)
    (htask : x.taskId = y.taskId) (hax : x.role = .anchor) (hhy : y.role = .hedge)
    (hleg : y.id = a.taskLegId) :
    ∃ t, x.resolvedBaseQuantity = some t ∧ (t ≤ filledOf w.db x.id
      ∨ (0 < t ∧ ∃ u, y.resolvedBaseQuantity = some u
        ∧ committed w.db y.id + a.quantity * a.baseMultiplier ≤ filledOf w.db x.id * u / t)) := by
  obtain ⟨c, legs, leg, base, pair, hpass, hcarries, hmem, -, hlid, hpair, hnative, hmult, hchoice⟩ :=
    hchoice
  obtain ⟨c', -, hpass', -, -, -, -, -, hterm, -⟩ := hpre
  obtain rfl : c = c' := by
    rw [hpass] at hpass'
    injection hpass'
  rw [hpurpose] at hchoice
  obtain ⟨-, -, -, phase, deficit, hnext, hchunk, -⟩ := hchoice
  -- The pass's leg and anchor are the rows of the tables.
  obtain ⟨row, hrow, hplanned, hrowtask, hres⟩ := hcarries.row hmem
  obtain rfl : row = y := by
    refine hwf.legs_unique.eq hrow hy ?_
    show row.id = y.id
    rw [planned_id hplanned, hleg, hlid]
  have hnonneg : ∀ l ∈ legs, ∀ t, l.resolvedBaseQuantity = some t → 0 ≤ t := by
    intro l hl t ht
    obtain ⟨r, hr, -, -, hres⟩ := hcarries.row hl
    exact (h.within r hr).target_nonneg (hres t ht)
  obtain ⟨anchor, hanchor, hrole, t, ht, hcases⟩ := nextDeficit_cases hnonneg hnext
  obtain ⟨arow, harow, haplanned, hatask, hares⟩ := hcarries.row hanchor
  obtain rfl : arow = x := by
    refine h.one_anchor arow harow x hx ?_ ?_ hax
    · rw [hatask, htask, hrowtask]
    · rw [planned_role haplanned, hrole]
  refine ⟨t, hares t ht, ?_⟩
  have hanchorFilled : filledBaseOf c.orders anchor.id .primary = filledOf w.db arow.id := by
    rw [← planned_id haplanned]
    exact filledBaseOf_current hwf hcarries.toCurrent harow hatask .primary
  rw [hanchorFilled] at hcases
  rcases hcases with ⟨-, hne, u, hu, hle⟩ | ⟨rfl, -⟩ | ⟨-, hreached⟩
  · refine .inr ⟨lt_of_le_of_ne (hnonneg anchor hanchor t ht) (Ne.symm hne), u, hres u hu, ?_⟩
    have hfilled := committed_eq_filled hwf hcarries.toCurrent hrow hrowtask hterm
    have hsize := (nativeQuantity_ok hpair hnative).2
    have hbase := chunkOf_le hchunk
    rw [planned_id hplanned] at hfilled ⊢
    rw [hfilled, hmult]
    linarith
  · -- The hedge is not the anchor.
    rw [planned_role hplanned, hrole] at hhy
    cases hhy
  · exact .inl hreached

/-- A new order keeps every hedge within its share. -/
theorem WithinShare.create {w : World} {a : OrderAttempt} (hwf : WellFormed w.db) (h : Hedged w.db)
    (hpre : CreateGuard a w ∧ ChoiceGuard a w) {row : ExecutionOrderRow} {db' : Database}
    (heq : db'.orders = w.db.orders ++ [row]) (hleg : row.taskLegId = a.taskLegId)
    (hpurpose : row.purpose = a.purpose) (hstatus : row.status = .created)
    (hquantity : row.quantity = a.quantity) (hmultiplier : row.baseMultiplier = a.baseMultiplier)
    (hfilled : row.filledQuantity = 0) {x y : ExecutionTaskLegRow} (hx : x ∈ w.db.legs)
    (hy : y ∈ w.db.legs) (htask : x.taskId = y.taskId) (hax : x.role = .anchor)
    (hhy : y.role = .hedge) : WithinShare db' x y := by
  -- The new order has filled nothing, and commits its quantity if it is a primary one.
  have hsame : filledOf db' x.id = filledOf w.db x.id := by
    have hzero : row.filledTo x.id = 0 := by
      unfold ExecutionOrderRow.filledTo ExecutionOrderRow.filledBase
      rw [hfilled, zero_mul, ite_self]
    rw [filledOf_eq, filledOf_eq, heq, List.map_append, List.sum_append, List.map_singleton,
      List.sum_singleton, hzero, add_zero]
  have hsum : committed db' y.id = committed w.db y.id + row.commitmentTo y.id := by
    unfold committed
    rw [heq, List.map_append, List.sum_append, List.map_singleton, List.sum_singleton]
  -- The choice of its size was made for this bound.
  by_cases hp : row.isPrimaryOf y.id
  · obtain ⟨t, ht, hcases⟩ := hpre.2.share hwf h hpre.1 (hpurpose.symm.trans hp.2) hx hy htask hax hhy
      (hp.1.symm.trans hleg)
    unfold WithinShare
    rw [ht, hsame]
    intro u hu
    rcases hcases with hreached | ⟨hpos, u', hu', hle⟩
    · exact .inl hreached
    · right
      rw [hu] at hu'
      injection hu' with hu'
      have hshare : row.commitmentTo y.id = a.quantity * a.baseMultiplier := by
        unfold ExecutionOrderRow.commitmentTo ExecutionOrderRow.commitment
        rw [if_pos hp, hstatus, hquantity, hmultiplier]
        rfl
      rw [hsum, hshare, hu']
      exact (le_div_iff₀ hpos).mp hle
  · have hshare := h.share x hx y hy htask hax hhy
    unfold WithinShare at hshare ⊢
    rw [hsum, hsame, commitmentTo_of_ne hp, add_zero]
    cases hres : x.resolvedBaseQuantity with
    | none =>
        rw [hres] at hshare
        intro o ho
        rw [heq] at ho
        rcases List.mem_append.mp ho with ho | ho
        · exact hshare o ho
        · rw [List.mem_singleton.mp ho]
          exact hp
    | some t =>
        rw [hres] at hshare
        exact hshare

/-- A transaction of the worker keeps them too: an order is created within its
share, and fills stay within their orders. -/
theorem Hedged.tx {o : DbOp} {w : World} {r : o.Result} {db' : Database}
    (hok : o.tx num w.ambient w.db = .ok (r, db')) (hpre : Pre (.db o) w) (hwf : WellFormed w.db)
    (h : Hedged w.db) : Hedged db' := by
  by_cases horders : db'.orders = w.db.orders
  · exact h.legs hok hwf horders
  · -- A transaction that writes to the orders leaves the legs alone.
    have hlegs : ∀ l ∈ db'.legs, l ∈ w.db.legs := by
      intro l hl
      rcases DbOp.legsEffect hok hl with hl | ⟨heq, -⟩
      · exact hl
      · exact absurd heq horders
    cases DbOp.ordersEffect hok with
    | same heq => exact absurd heq horders
    | @created a _ _ row heq hrun hleg hcid hpurpose hst hquantity hmultiplier hfilled =>
        refine ⟨h.toPlanned.tx hok hwf, ?_, fun l hl => ?_, fun x hx y hy htask hax hhy => ?_⟩
        · -- The other orders of the run have ended.
          obtain ⟨c, leg, -, hcur, hcrun, -, -, -, hterm, -⟩ := hpre.1
          have hended : ∀ z ∈ w.db.orders, z.runId = row.runId → z.status.isTerminal := by
            intro z hz hzrun
            refine hterm z ?_
            rw [← hcur.orders]
            exact mem_ordersOfRun.mpr ⟨hz, by rw [hzrun, hrun, hcrun]⟩
          intro x hx y hy hxy hxo hyo
          rw [heq] at hx hy
          rcases List.mem_append.mp hx with hx | hx <;> rcases List.mem_append.mp hy with hy | hy
          · exact h.one_open x hx y hy hxy hxo hyo
          · rw [List.mem_singleton.mp hy] at hxy
            rw [hended x hx hxy] at hxo
            cases hxo
          · rw [List.mem_singleton.mp hx] at hxy
            rw [hended y hy hxy.symm] at hyo
            cases hyo
          · rw [List.mem_singleton.mp hx, List.mem_singleton.mp hy]
        · exact WithinTarget.create hwf hpre.1 heq hleg hpurpose hst hquantity hmultiplier
            (hlegs l hl) (h.within l (hlegs l hl))
        · exact WithinShare.create hwf h hpre heq hleg hpurpose hst hquantity hmultiplier hfilled
            (hlegs x hx) (hlegs y hy) htask hax hhy
    | @marked _ _ _ old new heq hmem hsame hactive hst hfilled _ =>
        have hnew : new.status.isTerminal = false := by
          rcases hst with hst | hst | hst <;> rw [hst] <;> rfl
        refine h.putOrder hok hwf hmem hsame hactive (commitment_marked hsame hactive hnew).le ?_ heq
          hlegs
        unfold ExecutionOrderRow.filledBase
        rw [hfilled, hsame.baseMultiplier]
    | @observed ob _ _ old new heq hmem hid hsame hst _ hfilled hbounds _ =>
        have hactive := observed_open hwf hpre hmem hid
        refine h.putOrder hok hwf hmem hsame hactive
          (commitment_observed hsame hactive (hfilled.trans_le hbounds.2)) ?_ heq hlegs
        unfold ExecutionOrderRow.filledBase
        rw [hfilled, hsame.baseMultiplier]
        exact mul_le_mul_of_nonneg_right hbounds.1 old.quantity_check.2.le

/-- The step lemma for a whole run. -/
theorem hedged_kept {allow : World → Label Op Rep Act → Prop} :
    Kept num allow fun w => Hedged w.db where
  act := fun a w _ hwf h => h.act hwf a
  db := fun o w r db' hc _ hpre hwf h => by
    rcases commit_cases hc with ⟨a, rfl, hok⟩ | ⟨e, -, -, rfl⟩
    · exact h.tx hok hpre hwf
    · exact h
  out := fun _ _ _ _ _ _ h => h
  idle := fun _ h => h

/-! ## §6. The trigger of the claimed task. -/

/-- The task the pass decides about is a row of the table, under the same trigger. -/
def Decides (w : World) : Prop :=
  ∀ c, w.pass = .advancing c → ∃ t, Table.find? w.db.tasks c.task.id = some t
    ∧ t.status.isStarted ∧ t.hedgeThreshold = c.task.hedgeThreshold

/-- A change of the phase does not change what the pass has decided. -/
theorem Decides.setPhase {w : World} {taskId : Nat} {status : TaskStatus} {u : Unit}
    {db' : Database} (hwf : WellFormed w.db)
    (hok : setExecutionTaskPhase taskId status w.db = .ok (u, db')) (h : Decides w) :
    Decides { w with db := db' } := by
  intro c hpass
  obtain ⟨t, ht, hs, hsame⟩ := h c hpass
  obtain ⟨row, hrow, hstatus, -, ⟨-, rfl⟩ | ⟨row', rfl, hid, hst, hthreshold⟩⟩ :=
    setExecutionTaskPhase_ok hok
  · exact ⟨t, ht, hs, hsame⟩
  · obtain ⟨hmem, hkey⟩ := Table.find?_some hrow
    by_cases hc : c.task.id = row.id
    · have heq : t = row := by
        obtain ⟨htmem, htkey⟩ := Table.find?_some ht
        exact hwf.tasks_unique.eq htmem hmem (htkey.trans hc)
      refine ⟨row', ?_, hst ▸ hstatus, hthreshold.trans (heq ▸ hsame)⟩
      show Table.find? (Table.put w.db.tasks row') c.task.id = some row'
      rw [hc, ← hid]
      exact Table.find?_put_self ⟨row, hmem, hid.symm⟩
    · refine ⟨t, (Table.find?_put_of_ne fun hk => hc ?_).trans ht, hs, hsame⟩
      rw [hk]
      exact hid

/-- What a pass has decided holds until it creates the order. -/
theorem decides_kept {allow : World → Label Op Rep Act → Prop} : Kept num allow Decides where
  act := fun a w _ hwf h c hpass => by
    obtain ⟨t, ht, hs, hsame⟩ := h c ((act_frame a w).2.2.2.2.symm.trans hpass)
    exact ⟨t, act_tasks_find a ht (TaskStatus.not_unstarted_of_started hs), hs, hsame⟩
  db := fun o w r db' hc _ _ hwf h => by
    -- Only a claim, a phase and a resolved leg keep what was decided.
    rcases commit_cases hc with ⟨a, rfl, hok⟩ | ⟨e, rfl, -, rfl⟩
    · cases o with
      | claim workerId =>
          intro c hpass
          cases a with
          | none => cases hpass
          | some c' =>
              obtain rfl : c' = c := Pass.ofClaim_advancing hpass
              obtain ⟨htask, hstarted⟩ := claim_task hok
              exact ⟨c'.task, htask, hstarted, rfl⟩
      | setPhase taskId status => exact h.setPhase hwf hok
      | resolveLeg legId base ratio =>
          intro c hpass
          show ∃ t, Table.find? db'.tasks c.task.id = some t ∧ _
          rw [(DbOp.sparesTask_tx hok trivial).1]
          exact h c hpass
      | _ => exact fun c hpass => by cases hpass
    · -- A transaction that raises leaves the tables, and the pass moves on.
      cases o with
      | setPhase taskId status => exact h
      | resolveLeg legId base ratio => exact h
      | _ => exact fun c hpass => by cases hpass
  out := fun o w r _ _ _ h c hpass => h c (heard_advancing hpass)
  idle := fun _ _ _ hpass => by cases hpass

/-! ## §7. The result. -/

/-- The bounds of the executor's orders. -/
structure SharesHold (db : Database) : Prop where
  one_open : ∀ o ∈ db.orders, ∀ o' ∈ db.orders, o.runId = o'.runId →
    ¬o.status.isTerminal → ¬o'.status.isTerminal → o = o'
  within : ∀ l ∈ db.legs, ∀ t, l.resolvedBaseQuantity = some t → committed db l.id ≤ t
  share : ∀ a ∈ db.legs, ∀ h ∈ db.legs, a.taskId = h.taskId → a.role = .anchor → h.role = .hedge →
    ∀ t u, a.resolvedBaseQuantity = some t → h.resolvedBaseQuantity = some u →
      filledOf db a.id < t → committed db h.id ≤ filledOf db a.id * u / t
  fills : ∀ o ∈ db.orders, o.filledQuantity ≤ o.quantity

/-- No hedge of the anchor's task has a deficit under the task's trigger. -/
def NoDeficit (db : Database) (anchor : ExecutionTaskLegRow) : Prop :=
  ∃ t, anchor.resolvedBaseQuantity = some t ∧ ∀ h ∈ db.legs, h.taskId = anchor.taskId →
    h.role = .hedge → ∃ u, h.resolvedBaseQuantity = some u ∧ ∀ task ∈ db.tasks,
      task.id = anchor.taskId → hedgeDeficit task t (filledOf db anchor.id) u (filledOf db h.id) ≤ 0

/-- The invariant gives the shares of the claim. -/
theorem Hedged.sharesHold {db : Database} (h : Hedged db) : SharesHold db where
  one_open := fun o ho o' ho' hrun hopen hopen' =>
    h.one_open o ho o' ho' hrun (by simpa using hopen) (by simpa using hopen')
  within := fun l hl t ht => by
    have hwithin := h.within l hl
    unfold WithinTarget at hwithin
    rw [ht] at hwithin
    exact hwithin
  share := fun a ha y hy htask hra hry t u ht hu hlt => by
    have hshare := h.share a ha y hy htask hra hry
    unfold WithinShare at hshare
    rw [ht] at hshare
    have hpos : 0 < t := lt_of_le_of_lt (filledBaseOf_nonneg _ _ _) hlt
    rcases hshare u hu with hreached | hle
    · exact absurd hlt (not_lt.mpr hreached)
    · exact (le_div_iff₀ hpos).mpr hle
  fills := fun o _ => o.filled_check.2

/-- An anchor is ordered only when no hedge has a deficit. -/
theorem ChoiceGuard.noDeficit {w : World} {a : OrderAttempt} (hwf : WellFormed w.db)
    (h : Hedged w.db) (hd : Decides w) (hchoice : ChoiceGuard a w) (hpurpose : a.purpose = .primary)
    {x : ExecutionTaskLegRow} (hx : x ∈ w.db.legs) (hleg : x.id = a.taskLegId)
    (hrole : x.role = .anchor) : NoDeficit w.db x := by
  -- The guard of the choice: the order is what `nextDeficit` named.
  obtain ⟨c, legs, leg, base, pair, hpass, hcarries, hmem, -, hlid, -, -, -, hchoice⟩ := hchoice
  rw [hpurpose] at hchoice
  obtain ⟨-, -, -, phase, deficit, hnext, -⟩ := hchoice
  obtain ⟨row, hrow, hplanned, hrowtask, hres⟩ := hcarries.row hmem
  obtain rfl : row = x := by
    refine hwf.legs_unique.eq hrow hx ?_
    show row.id = x.id
    rw [planned_id hplanned, hleg, hlid]
  have hnonneg : ∀ l ∈ legs, ∀ t, l.resolvedBaseQuantity = some t → 0 ≤ t := by
    intro l hl t ht
    obtain ⟨r, hr, -, -, hres⟩ := hcarries.row hl
    exact (h.within r hr).target_nonneg (hres t ht)
  -- The leg is the anchor, so neither case of a hedge applies.
  have hnot : leg.role ≠ .hedge := by
    rw [← planned_role hplanned, hrole]
    decide
  obtain ⟨anchor, hanchor, -, t, ht, ⟨hh, -⟩ | ⟨rfl, hnone⟩ | ⟨hh, -⟩⟩ :=
    nextDeficit_cases hnonneg hnext
  · exact absurd hh hnot
  · -- Every hedge of the task was among those without a deficit.
    refine ⟨t, hres t ht, fun y hy htask hhy => ?_⟩
    obtain ⟨l, hl, hlid'⟩ := hcarries.covers y hy (htask.trans hrowtask)
    obtain ⟨lrow, hlrow, hlplanned, hltask, hlres⟩ := hcarries.row hl
    obtain rfl : lrow = y := by
      refine hwf.legs_unique.eq hlrow hy ?_
      show lrow.id = y.id
      rw [planned_id hlplanned, hlid']
    obtain ⟨u, hu, hle⟩ := hnone l hl (by rw [← planned_role hlplanned, hhy])
    refine ⟨u, hlres u hu, fun task htaskmem htaskid => ?_⟩
    obtain ⟨t', ht', -, hthreshold⟩ := hd c hpass
    obtain rfl : task = t' := by
      obtain ⟨hmem', hkey⟩ := Table.find?_some ht'
      refine hwf.tasks_unique.eq htaskmem hmem' ?_
      show task.id = key t'
      rw [htaskid, hrowtask, hkey]
    -- The quantities that the pass computed are those of the tables.
    rw [← planned_id hplanned, ← planned_id hlplanned,
      filledBaseOf_current hwf hcarries.toCurrent hrow hrowtask,
      filledBaseOf_current hwf hcarries.toCurrent hlrow hltask] at hle
    rw [hedgeDeficit_congr hthreshold]
    exact hle
  · exact absurd hh hnot

variable {allow : World → Label Op Rep Act → Prop}

theorem Reachable.hedged {s : State} (hs : Reachable num workerId allow s) : Hedged s.world.db := by
  refine hedged_kept.reachable (fun w hw => ?_) hs
  have hlegs : ∀ l ∈ w.db.legs, False := by
    rw [hw.legs]
    exact fun l hl => List.not_mem_nil hl
  refine ⟨⟨fun l hl => (hlegs l hl).elim, fun l hl => (hlegs l hl).elim⟩, fun o ho => ?_,
    fun l hl => (hlegs l hl).elim, fun l hl => (hlegs l hl).elim⟩
  rw [hw.orders] at ho
  cases ho

/-- In every reachable state at most one order of a run is open, every leg is
committed within its target, every hedge within its share of what the anchor has
filled until the anchor has its target, and no order has filled more than its
quantity; and an anchor order is only created when no hedge has a deficit. -/
theorem hedge_share {s : State} (hs : Reachable num workerId allow s) :
    SharesHold s.world.db ∧ ∀ a, Creates s a → a.purpose = .primary →
      ∀ l ∈ s.world.db.legs, l.id = a.taskLegId → l.role = .anchor → NoDeficit s.world.db l := by
  refine ⟨hs.hedged.sharesHold, ?_⟩
  rintro a ⟨k, hpass⟩ hpurpose l hl hid hrole
  have hdecides : Decides s.world :=
    decides_kept.reachable (fun w hw c hp => by rw [hw.pass] at hp; cases hp) hs
  obtain ⟨w, p⟩ := s
  obtain rfl : p = _ := hpass
  have hpre : Pre (.db (.createOrder a)) w := Reachable.pre hs
  exact hpre.2.noDeficit hs.wellFormed hs.hedged hdecides hpurpose hl hid hrole

namespace Sample

/-- The anchor order ends with half of it filled, and the hedge order for that half
is open. -/
def halfHedged : World :=
  pass (absent "b") (pass (absent "b") (pass (known "a" "canceled" 2 2) acknowledged))

/-- It is filled, and the worker is about to order the rest of the anchor. -/
def reordering : State := upTo (absent "c") isCreate (pass (known "b" "filled" 2 2) halfHedged)

/-- One pass of the sample's worker is a run. -/
theorem runsTo_passed (v : Outside) (w : World) : RunsTo System.anyStep ⟨w, none⟩ ⟨pass v w, none⟩ :=
  runsTo_pass v anyStep_free (System.follows_anyStep _ w)

theorem reached_acknowledged : Reached System.anyStep ⟨acknowledged, none⟩ :=
  System.Reach.run reached_empty ((runsTo_queued fun _ _ => trivial).trans
    ((runsTo_passed (absent "a") _).trans (runsTo_passed (absent "a") _)))

/-- Half of the anchor is filled and its hedge order is open. -/
theorem reached_halfHedged : Reached System.anyStep ⟨halfHedged, none⟩ :=
  System.Reach.run reached_acknowledged ((runsTo_passed (known "a" "canceled" 2 2) _).trans
    ((runsTo_passed (absent "b") _).trans (runsTo_passed (absent "b") _)))

theorem reached_reordering : Reached System.anyStep reordering :=
  System.Reach.run reached_halfHedged ((runsTo_passed (known "b" "filled" 2 2) _).trans
    (runsTo_upTo _ _ trivial (System.follows_anyStep _ _)))

end Sample

/-- With half of the anchor filled and the hedge order for that half open the shares
hold, and before the other half is ordered the hedge is owed nothing. -/
theorem hedge_share_ordering :
    (∃ s, Sample.Reached System.anyStep s
      ∧ (∃ o ∈ s.world.db.orders, ∃ l ∈ s.world.db.legs, l.id = o.taskLegId ∧ l.role = .anchor
        ∧ o.status.isTerminal ∧ 0 < o.filledQuantity ∧ o.filledQuantity < l.targetQuantity)
      ∧ (∃ o ∈ s.world.db.orders, ∃ l ∈ s.world.db.legs, l.id = o.taskLegId ∧ l.role = .hedge
        ∧ ¬o.status.isTerminal)
      ∧ SharesHold s.world.db)
    ∧ ∃ s a l, Sample.Reached System.anyStep s ∧ Creates s a ∧ a.purpose = .primary
      ∧ l ∈ s.world.db.legs ∧ l.id = a.taskLegId ∧ l.role = .anchor
      ∧ SharesHold s.world.db ∧ NoDeficit s.world.db l := by
  constructor
  · obtain ⟨hanchor, hhedge⟩ := (by decide +kernel :
      (∃ o ∈ Sample.halfHedged.db.orders, ∃ l ∈ Sample.halfHedged.db.legs, l.id = o.taskLegId
        ∧ l.role = .anchor ∧ o.status.isTerminal ∧ 0 < o.filledQuantity
        ∧ o.filledQuantity < l.targetQuantity)
      ∧ ∃ o ∈ Sample.halfHedged.db.orders, ∃ l ∈ Sample.halfHedged.db.legs, l.id = o.taskLegId
        ∧ l.role = .hedge ∧ ¬o.status.isTerminal)
    exact ⟨_, Sample.reached_halfHedged, hanchor, hhedge, (hedge_share Sample.reached_halfHedged).1⟩
  · obtain ⟨a, ha, hpurpose, l, hl, hid, hrole⟩ := (by decide +kernel :
      ∃ a ∈ attempt Sample.reordering, a.purpose = .primary
        ∧ ∃ l ∈ Sample.reordering.world.db.legs, l.id = a.taskLegId ∧ l.role = .anchor)
    have hcreates := creates_of_attempt ha
    obtain ⟨hshares, hnone⟩ := hedge_share Sample.reached_reordering
    exact ⟨_, a, l, Sample.reached_reordering, hcreates, hpurpose, hl, hid, hrole, hshares,
      hnone a hcreates hpurpose l hl hid hrole⟩

/-- An order that is still open while half of it is filled: its fills and its
full size come to more than the target. -/
theorem open_order_counted_twice :
    ¬∀ s, Sample.Reached System.anyStep s → ∀ l ∈ s.world.db.legs, ∀ t,
      l.resolvedBaseQuantity = some t → ∀ o ∈ s.world.db.orders, o.isPrimaryOf l.id →
        ¬o.status.isTerminal → filledOf s.world.db l.id + o.quantity * o.baseMultiplier ≤ t := by
  intro h
  have hs := System.Reach.run Sample.reached_acknowledged
    (Sample.runsTo_passed (Sample.known "a" "partially_filled" 2 2) _)
  obtain ⟨l, hl, t, ht, o, ho, hp, hopen, hover⟩ := (by decide +kernel :
    ∃ l ∈ (Sample.pass (Sample.known "a" "partially_filled" 2 2) Sample.acknowledged).db.legs,
      ∃ t ∈ l.resolvedBaseQuantity,
        ∃ o ∈ (Sample.pass (Sample.known "a" "partially_filled" 2 2) Sample.acknowledged).db.orders,
          o.isPrimaryOf l.id ∧ ¬o.status.isTerminal
            ∧ t < filledOf (Sample.pass (Sample.known "a" "partially_filled" 2 2)
                Sample.acknowledged).db l.id + o.quantity * o.baseMultiplier)
  exact absurd (h _ hs l hl t ht o ho hp hopen) (not_le.mpr hover)

end BasisHawk.MultiLeg
