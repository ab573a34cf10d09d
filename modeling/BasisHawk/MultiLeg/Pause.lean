/-
  BasisHawk.MultiLeg.Pause
  ────────────────────────
  What a global pause stops in the multi-leg executor.

  The claim query asks for `ready` only when a task is still queued, and no
  later step asks at all.  A running task therefore goes on: it creates its
  next primary order, and submits one the exchange does not know.

  Main results:
    • `paused_no_exposure` — while paused only compensation orders are created
      and submitted, in runs that `PauseRespected` allows,
    • `paused_submits_primary` — a running task submits a primary order while
      paused.
-/
import BasisHawk.MultiLeg.GuardedPass

namespace BasisHawk.MultiLeg

open Domain Lib Accounts Database

variable {num : Numeric} {workerId : String}

/-! ## §1. The condition. -/

/-- `execution_control` is `paused`. -/
def Paused (db : Database) : Prop := ∃ c ∈ db.control, c.state = .paused

instance (db : Database) : Decidable (Paused db) :=
  inferInstanceAs (Decidable (∃ c ∈ db.control, c.state = .paused))

instance (c : Claimed) : Decidable (NeedsOrder c) :=
  inferInstanceAs (Decidable (_ ∧ _ ∧ ∃ l ∈ c.legs, ∀ t ∈ l.resolvedBaseQuantity,
    filledBaseOf c.orders l.id .primary < t))

/-- The pass is past its last look at the control state and about to trade. -/
def Pass.Exposes : Pass → Prop
  | .advancing c => NeedsOrder c
  | .submitting _ o => o.purpose = .primary
  | _ => False

instance : DecidablePred Pass.Exposes
  | .advancing c => inferInstanceAs (Decidable (NeedsOrder c))
  | .submitting _ o => inferInstanceAs (Decidable (o.purpose = .primary))
  | .idle | .examining .. | .weighing .. | .recording .. => inferInstanceAs (Decidable False)

/-- The task a claim came back with. -/
def claimedTask : Label Op Rep Act → Option Claimed
  | .call (.db (.claim _)) (.ok (some c)) => some c
  | _ => none

/-- The step commits a pause. -/
def commitsPause : Label Op Rep Act → Bool
  | .act (.control row) => row.state == .paused
  | _ => false

/-- While paused no task is claimed that needs an order, and no primary order
that may be missing is found absent; and no pause is committed while a pass is
about to trade. -/
def PauseRespected (w : World) (l : Label Op Rep Act) : Prop :=
  (∀ c ∈ claimedTask l, Paused w.db → ¬NeedsOrder c)
    ∧ (∀ o ∈ w.db.orders, Paused w.db → absentOrder l = some o.clientOrderId →
        o.status = .created ∨ o.status = .unknown → o.purpose = .compensation)
    ∧ (commitsPause l → ¬w.pass.Exposes)

instance (w : World) (l : Label Op Rep Act) : Decidable (PauseRespected w l) :=
  inferInstanceAs (Decidable (_ ∧ _ ∧ _))

/-- A step that neither claims, nor finds an order absent, nor commits a pause
is allowed. -/
theorem pauseRespected_of_none {w : World} {l : Label Op Rep Act} (hclaim : claimedTask l = none)
    (habsent : absentOrder l = none) (hpause : commitsPause l = false) : PauseRespected w l := by
  unfold PauseRespected
  rw [hclaim, habsent, hpause]
  refine ⟨fun c hc => ?_, fun o _ _ ho => ?_, fun h => ?_⟩
  · cases hc
  · cases ho
  · cases h

/-! ## §2. A paused worker is not about to trade. -/

/-- A pass is about to trade after a transaction only if it was so before, or
has just claimed a task that needs an order; the control state stays. -/
theorem wrote_exposes {amb : Ambient} {p : Pass} {o : DbOp} {r : Except Exc o.Result}
    {db db' : Database} (hc : commit (o.tx num amb) db = (r, db')) (h : (p.wrote o r).Exposes) :
    db'.control = db.control
      ∧ (p.Exposes ∨ ∃ c ∈ claimedTask (.call (.db o) r), NeedsOrder c) := by
  cases o with
  | claim worker =>
      refine ⟨commit_preserves (P := fun d => d.control = db.control) (fun a d hok => ?_) rfl hc, ?_⟩
      · -- A claim leaves the control alone, whatever run it takes.
        rcases claimLiveExecutionTask_ok hok with ⟨-, rfl⟩ | ⟨row, -, -, -, rfl, -⟩
        · rfl
        · rcases claimRun_cases amb db row.id worker with
            ⟨_, _, _, _, _, _, heq⟩ | ⟨_, _, _, _, heq⟩ <;> rw [heq]
      · cases r with
        | error e => cases h
        | ok claimed =>
            cases claimed with
            | none => cases h
            | some c =>
                -- A claimed task without an order in hand is one that needs an order, or it is
                -- compensating.
                refine .inr ⟨c, rfl, ?_⟩
                simp only [Pass.wrote, Pass.ofClaim] at h
                split at h
                · cases h
                · exact h
  | setPhase taskId status =>
      refine ⟨commit_preserves (P := fun d => d.control = db.control) (fun a d hok => ?_) rfl hc,
        .inl h⟩
      obtain ⟨row, -, -, -, ⟨-, rfl⟩ | ⟨row', rfl, -⟩⟩ := setExecutionTaskPhase_ok hok <;> rfl
  | resolveLeg legId base ratio =>
      refine ⟨commit_preserves (P := fun d => d.control = db.control) (fun a d hok => ?_) rfl hc,
        .inl h⟩
      obtain ⟨row, -, ⟨-, rfl, -⟩ | ⟨-, -, rfl⟩⟩ := resolveExecutionTaskLegQuantity_ok hok <;> rfl
  -- After any other transaction the pass is not about to trade.
  | _ => cases h

/-- While paused no pass is about to trade. -/
def Quiet (w : World) : Prop := Paused w.db → ¬w.pass.Exposes

/-- The step lemma: while the control is paused and the pause respected, no
order is submitted that adds exposure. -/
theorem quiet_kept : Kept num PauseRespected Quiet where
  act := fun a w ha _ h hpaused hexp => by
    rw [(act_frame a w).2.2.2.2] at hexp
    cases a with
    | control row =>
        obtain ⟨c, hc, hstate⟩ := hpaused
        cases hc
        exact ha.2.2 (by simpa [commitsPause] using hstate) hexp
    | _ =>
        unfold Paused at hpaused
        rw [act_control w (fun row heq => by cases heq)] at hpaused
        exact h hpaused hexp
  db := fun o w r db' hc ha _ _ h hpaused hexp => by
    obtain ⟨hcontrol, hexp | ⟨c, hclaimed, hneeds⟩⟩ := wrote_exposes hc hexp
    · unfold Paused at hpaused
      rw [hcontrol] at hpaused
      exact h hpaused hexp
    · unfold Paused at hpaused
      rw [hcontrol] at hpaused
      exact ha.1 c hclaimed hpaused hneeds
  out := fun o w r ha hpre _ h hpaused hexp => by
    -- An answer leads to trading only through a submission.
    cases hp : w.pass.heard o r with
    | advancing c =>
        refine h hpaused ?_
        rw [heard_advancing hp, ← hp]
        exact hexp
    | submitting c x =>
        have hprimary : x.purpose = .primary := by
          have := hexp
          simp only [hp] at this
          exact this
        rcases heard_submitting hpre hp with hpass | ⟨habsent, hcur, hx, hst⟩
        · refine h hpaused ?_
          rw [hpass]
          exact hprimary
        · rw [← hcur.orders] at hx
          have := ha.2.1 x (mem_ordersOfRun.mp hx).1 hpaused habsent hst
          rw [this] at hprimary
          cases hprimary
    | _ =>
        simp only [hp] at hexp
        cases hexp
  idle := fun w _ _ hexp => by cases hexp

/-- While `execution_control` is paused the worker creates and submits
compensation orders only. -/
theorem paused_no_exposure {s : State} (hs : Reachable num workerId PauseRespected s)
    (hpaused : Paused s.world.db) :
    (∀ a, Creates s a → a.purpose = .compensation)
      ∧ ∀ request, Submits s request → ∃ o ∈ s.world.db.orders,
          o.clientOrderId = request.clientOrderId ∧ o.purpose = .compensation := by
  have hquiet : ¬s.world.pass.Exposes :=
    quiet_kept.reachable (fun w hw _ => by rw [hw.pass]; exact id) hs hpaused
  obtain ⟨w, p⟩ := s
  refine ⟨?_, ?_⟩
  · rintro a ⟨k, rfl⟩
    obtain ⟨c, leg, hpass, -, -, -, -, -, -, hpurpose⟩ := hs.pre.1
    cases hp : a.purpose with
    | compensation => rfl
    | primary =>
        rw [hp] at hpurpose
        rw [show w.pass = .advancing c from hpass] at hquiet
        exact absurd hpurpose.1 hquiet
  · rintro request ⟨client, k, rfl⟩
    obtain ⟨c, o, leg, snapshot, hpass, hcur, ho, -, -, -, rfl⟩ := hs.pre
    rw [← hcur.orders] at ho
    refine ⟨o, (mem_ordersOfRun.mp ho).1, rfl, ?_⟩
    rw [show w.pass = .submitting c o from hpass] at hquiet
    cases hp : o.purpose with
    | compensation => rfl
    | primary => exact absurd hp hquiet

/-! ## §3. Concrete runs. -/

namespace Sample

/-- A pass that starts or crashes submits nothing. -/
theorem pauseRespected_free (w : World) : PauseRespected w .start ∧ PauseRespected w .crash :=
  ⟨pauseRespected_of_none rfl rfl rfl, pauseRespected_of_none rfl rfl rfl⟩

theorem runsTo_unquoted : RunsTo PauseRespected ⟨empty, none⟩ ⟨unquoted, none⟩ := by
  have h₀ : RunsTo PauseRespected ⟨empty, none⟩ ⟨queued, none⟩ :=
    ((runsTo_act _ (pauseRespected_of_none rfl rfl rfl)).trans
      (runsTo_act _ (pauseRespected_of_none rfl rfl rfl))).trans
      (runsTo_act _ (pauseRespected_of_none rfl rfl rfl))
  have h₁ : RunsTo PauseRespected ⟨queued, none⟩ ⟨pass (absent "a") queued, none⟩ :=
    runsTo_pass _ pauseRespected_free (by decide +kernel)
  have h₂ : RunsTo PauseRespected ⟨queued, none⟩ ⟨acknowledged, none⟩ :=
    h₁.trans (runsTo_pass _ pauseRespected_free (by decide +kernel))
  have h₃ : RunsTo PauseRespected ⟨queued, none⟩ ⟨anchored, none⟩ :=
    h₂.trans (runsTo_pass _ pauseRespected_free (by decide +kernel))
  exact (h₀.trans h₃).trans (runsTo_pass _ pauseRespected_free (by decide +kernel))

/-- The order that undoes the anchor is about to be created. -/
def reversing : State := upTo (absent "c") isCreate unquoted

/-- The anchor order is created; then the execution is paused. -/
def pausedEarly : World :=
  Act.apply (.control ⟨.paused, "requested"⟩) (pass (absent "a") queued)

/-- The next pass takes the anchor order up. -/
def goingOn : State := upTo (absent "a") isPlace pausedEarly

end Sample

/-- While paused the worker creates the compensation of a filled anchor. -/
theorem paused_no_exposure_compensating :
    ∃ s, Sample.Reached PauseRespected s ∧ Paused s.world.db
      ∧ ∃ a, Creates s a ∧ a.purpose = .compensation := by
  have hs : Sample.Reached PauseRespected Sample.reversing :=
    System.Reach.run Sample.reached_empty (Sample.runsTo_unquoted.trans
      (Sample.runsTo_upTo _ _ (Sample.pauseRespected_free _).1 (by decide +kernel)))
  obtain ⟨a, ha⟩ := creates_of_creating (by decide +kernel : creating Sample.reversing)
  have hpaused : Paused Sample.reversing.world.db := by decide +kernel
  exact ⟨_, hs, hpaused, a, ha, (paused_no_exposure hs hpaused).1 a ha⟩

/-- A pause that arrives after the anchor order was created does not stop its
submission. -/
theorem paused_submits_primary :
    ¬∀ s, Sample.Reached System.anyStep s → Paused s.world.db →
      (∀ a, Creates s a → a.purpose = .compensation)
        ∧ ∀ request, Submits s request → ∃ o ∈ s.world.db.orders,
            o.clientOrderId = request.clientOrderId ∧ o.purpose = .compensation := by
  intro h
  have hqueued : Sample.Reached System.anyStep ⟨Sample.queued, none⟩ :=
    System.Reach.run Sample.reached_empty (Sample.runsTo_queued fun _ _ => trivial)
  have hpaused : Sample.Reached System.anyStep ⟨Sample.pausedEarly, none⟩ :=
    System.Reach.run hqueued
      ((Sample.runsTo_pass _ Sample.anyStep_free (by decide +kernel)).trans
        (Sample.runsTo_act _ trivial))
  have hs : Sample.Reached System.anyStep Sample.goingOn :=
    System.Reach.run hpaused (Sample.runsTo_upTo _ _ trivial (by decide +kernel))
  obtain ⟨request, hsub, hcid⟩ := submits_of_submitted "bh-a" (by decide +kernel :
    submitted Sample.goingOn = some "bh-a")
  obtain ⟨o, ho, -, hpurpose⟩ := (h _ hs (by decide +kernel)).2 request hsub
  have hprimary : ∀ o ∈ Sample.goingOn.world.db.orders, o.purpose = .primary := by decide +kernel
  rw [hprimary o ho] at hpurpose
  cases hpurpose

end BasisHawk.MultiLeg
