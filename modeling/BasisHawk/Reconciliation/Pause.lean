/-
  BasisHawk.Reconciliation.Pause
  ──────────────────────────────
  What becomes of a pause while the reconciliation worker is at work.

  `run_once` overwrites the control state in transactions of their own, after
  a look in an earlier one.  Between the look and the write it is blind: a
  pause that another actor commits there is overwritten.

  Main results:
    • `pause_kept` — in runs without a pause in a blind stage, a pause stays
      until it is lifted,
    • `pause_lost` — a pause in between is lost.
-/
import BasisHawk.Reconciliation.GuardedPass

namespace BasisHawk.Reconciliation

open Domain Lib Accounts Paired

/-! ## §1. The condition. -/

/-- The last look found no pause, and the control state is about to be
overwritten. -/
def Stage.isBlind : Stage → Bool
  | .starting | .vacant | .deciding => true
  | _ => false

/-- The default accounts of an answer. -/
def listedAccounts : Label Op Rep Act → Option (List Account)
  | .call (.out .listCredentials) (.ok summaries) =>
      some ((summaries.filter (·.isDefault)).map (·.account))
  | _ => none

/-- No actor commits a pause while the worker is blind, and the worker does not
find itself without accounts after a pause its first look has not seen. -/
def PauseTimely (w : World) : Label Op Rep Act → Prop
  | .act a => w.pass.stage.isBlind → ¬(a.apply w).control.Paused
  | l => listedAccounts l = some [] → w.pass.stage = .checking false → ¬w.control.Paused

instance (w : World) (l : Label Op Rep Act) : Decidable (PauseTimely w l) :=
  match l with
  | .act _ => inferInstanceAs (Decidable (_ → _))
  | .start | .call .. | .finish | .crash => inferInstanceAs (Decidable (_ → _ → _))

/-- The step is an explicit end of a pause. -/
def liftsPause : Label Op Rep Act → Bool
  | .act (.control op) => op.lifts
  | _ => false

/-- The same, and nobody lifts a pause. -/
def PauseUnlifted (w : World) (l : Label Op Rep Act) : Prop :=
  PauseTimely w l ∧ liftsPause l = false

/-! ## §2. A paused worker is not blind. -/

/-- While paused the worker is not about to overwrite the control state. -/
def Seen (w : World) : Prop := w.control.Paused → w.pass.stage.isBlind = false

/-- The transactions of the worker come in stages that are not blind. -/
theorem not_blind_of_trade {o : TradeOp} {w : World} (h : Pre (.trade o) w) :
    w.pass.stage.isBlind = false := by
  rcases (pre_trade h).2 with ⟨hexec, -⟩ | ⟨a, ⟨paused, hstage⟩, -⟩
  · cases hs : w.pass.stage <;> rw [hs] at hexec <;> first | rfl | cases hexec
  · rw [hstage]
    rfl

/-- A query leads into a blind stage only if it finds no pause. -/
theorem looked_blind {p : Pass} {l : Ledger} {q : Query}
    (h : (p.looked q (q.eval l)).stage.isBlind = true) :
    p.stage.isBlind = true ∨ ¬Control.Paused l.control := by
  cases q with
  | executionControl reader =>
      -- Of the readers of the control two lead into a blind stage, both where it is not paused.
      cases reader with
      | opening =>
          refine .inr fun hpaused => ?_
          have hstage : (p.looked (.executionControl .opening) l.control).stage
              = .checking true := by
            show (if Control.Paused l.control then Stage.checking true else .starting) = _
            rw [if_pos hpaused]
          rw [show Query.eval l (.executionControl .opening) = l.control from rfl, hstage] at h
          cases h
      -- The late compensator leaves one.
      | lateCompensator =>
          simp only [Pass.looked] at h
          split at h
          · cases h
          · exact .inl h
      | closing =>
          refine .inr fun hpaused => ?_
          have hstage : (p.looked (.executionControl .closing) l.control).stage = .ended := by
            show (if p.stage = .finishing false ∧ ¬Control.Paused l.control then Stage.deciding
              else .ended) = _
            rw [if_neg fun hc => hc.2 hpaused]
          rw [show Query.eval l (.executionControl .closing) = l.control from rfl, hstage] at h
          cases h
      | executor => exact .inl h
      | compensator => exact .inl h
  -- The exposures are compared within a stage.
  | pairedPerpExposures a =>
      refine .inl ?_
      simp only [Pass.looked] at h
      split at h <;> exact h
  | _ => exact .inl h

/-- An answer leads into a blind stage only if it lists no account. -/
theorem heard_blind {p : Pass} {o : OutOp} {r : Except Exc o.Answer}
    (h : (p.heard o r).stage.isBlind = true) :
    p.stage.isBlind = true
      ∨ listedAccounts (.call (.out o) r) = some [] ∧ p.stage = .checking false := by
  unfold Pass.heard at h
  split at h
  · cases h
  · next summaries =>
      dsimp only at h
      split at h
      · next hnone => exact .inr ⟨congrArg some hnone.1, hnone.2⟩
      · exact .inl h
  · split at h <;> exact .inl h
  · split at h <;> exact .inl h
  · split at h <;> exact .inl h
  · exact .inl h

theorem seen_kept : Kept PauseTimely Seen where
  -- The condition on others is that none pauses in a blind stage.
  act := by
    intro a w _ ha _ _ hpaused
    rw [(Act.apply_pass a w).1]
    cases hb : w.pass.stage.isBlind with
    | false => rfl
    | true => exact absurd hpaused (ha hb)
  trade := by
    intro o w r w' he _ hpre _ _ _ _
    have hpass : w'.pass = w.pass := by
      cases he
      rfl
    rw [hpass]
    exact not_blind_of_trade hpre
  -- A query enters one only if it has found no pause.
  query := by
    intro q w _ _ _ h hpaused
    refine Bool.eq_false_iff.mpr fun hblind => ?_
    rcases looked_blind hblind with hblind | hfree
    · rw [h hpaused] at hblind
      cases hblind
    · exact hfree hpaused
  control := by
    intro state reason w _ _ _ _ _
    show (Pass.controlled w.pass).stage.isBlind = false
    simp only [Pass.controlled]
    split <;> rfl
  place := fun a order r w arrives _ _ _ h => h
  -- The list of accounts ends one.
  out := by
    intro o r w _ ha _ h hpaused
    refine Bool.eq_false_iff.mpr fun hblind => ?_
    rcases heard_blind hblind with hblind | ⟨hlist, hstage⟩
    · rw [h hpaused] at hblind
      cases hblind
    · exact ha hlist hstage hpaused
  idle := fun w _ _ => rfl

/-! ## §3. A pause stays. -/

theorem paused_kept : Kept PauseUnlifted fun w => Seen w ∧ w.control.Paused where
  act := by
    intro a w hp ha hs h
    refine ⟨seen_kept.act a w hp ha.1 hs h.1, ?_⟩
    cases a with
    | clock now => exact h.2
    | control op => exact ControlOp.apply_paused ha.2 h.2
    | trade o =>
        have he : Effect o w.ledger ((Act.trade o).apply w).ledger := transact_effect hs.reachable rfl
        rcases he.control with heq | hpaused
        · show Control.Paused (Ledger.control _)
          rw [heq]
          exact h.2
        · exact hpaused
  trade := by
    intro o w r w' he ha hpre hs heffect h
    refine ⟨seen_kept.trade o w r w' he ha.1 hpre hs heffect h.1, ?_⟩
    rcases heffect.control with heq | hpaused
    · show Control.Paused w'.ledger.control
      rw [heq]
      exact h.2
    · exact hpaused
  query := fun q w ha hpre hs h => ⟨seen_kept.query q w ha.1 hpre hs h.1, h.2⟩
  control := by
    -- Every write of the worker comes in a blind stage.
    intro state reason w _ hguard _ h
    have hseen := h.1 h.2
    cases state with
    | reconciling =>
        rw [show w.pass.stage = .starting from hguard] at hseen
        cases hseen
    | blocked =>
        rcases hguard with hstage | hstage <;> rw [hstage] at hseen <;> cases hseen
    | ready =>
        rw [hguard.1] at hseen
        cases hseen
    | paused => cases hguard
  place := fun a order r w arrives ha hpre hs h =>
    ⟨seen_kept.place a order r w arrives ha.1 hpre hs h.1, h.2⟩
  out := fun o r w hne ha hs h => ⟨seen_kept.out o r w hne ha.1 hs h.1, h.2⟩
  idle := fun w h => ⟨seen_kept.idle w h.1, h.2⟩

/-- Once the execution is paused, it stays paused until somebody resumes it or an
update ends, in runs in which nobody pauses it while the worker is blind. -/
theorem pause_kept {s s' : State} (hs : Reachable PauseTimely s) (hr : RunsTo PauseUnlifted s s')
    (hpaused : s.world.control.Paused) : s'.world.control.Paused := by
  have hseen : Seen s.world := seen_kept.reachable (fun w hw => by
    intro _
    rw [hw.pass]
    rfl) hs
  exact (paused_kept.runs_from hs hr ⟨hseen, hpaused⟩).2

/-! ## §4. Concrete runs. -/

namespace Sample

/-- The worker is about to overwrite the control state. -/
def blind : State := upTo {} isSetControl empty

/-- An administrator pauses the execution just then. -/
def pausedBlindly : State := meanwhile (.control (.pause "requested")) blind

/-- The pass goes on to its next write. -/
def overwritten : State := onTo {} (fun o => o matches .out .listCredentials) pausedBlindly

/-- The execution is paused before the pass begins. -/
def pausedEarly : World := (Act.control (.pause "requested")).apply empty

end Sample

/-- A pause between two passes stays throughout the second. -/
theorem pause_kept_early :
    ∃ s s', Reachable PauseTimely s ∧ RunsTo PauseUnlifted s s' ∧ s.world.control.Paused
      ∧ s'.world.control.Paused := by
  have hs : Reachable PauseTimely ⟨Sample.pausedEarly, none⟩ :=
    System.Reach.run Sample.reached_empty
      (Sample.runsTo_meanwhile (.control (.pause "requested")) trivial (by decide))
  have hr : RunsTo PauseUnlifted ⟨Sample.pausedEarly, none⟩ ⟨Sample.pausedEarly, some runOnce⟩ :=
    .single ⟨.start, .start, by decide, rfl⟩
  have hpaused : Sample.pausedEarly.control.Paused := by decide
  exact ⟨_, _, hs, hr, hpaused, pause_kept hs hr hpaused⟩

/-- A pause that comes between the first look and the write after it is lost. -/
theorem pause_lost :
    ¬∀ s s', Reachable System.anyStep s → RunsTo (fun _ l => liftsPause l = false) s s' →
      s.world.control.Paused → s'.world.control.Paused := by
  intro h
  have hblind : Reachable System.anyStep Sample.blind :=
    System.Reach.run Sample.reached_empty
      (Sample.runsTo_upTo _ _ trivial (by decide))
  have hpaused : Reachable System.anyStep Sample.pausedBlindly :=
    System.Reach.run hblind (Sample.runsTo_meanwhile _ trivial trivial)
  have hr : RunsTo (fun _ l => liftsPause l = false) Sample.pausedBlindly Sample.overwritten :=
    Sample.runsTo_onTo _ _ (by decide)
  have hlost : ¬Sample.overwritten.world.control.Paused := by decide
  exact hlost (h _ _ hpaused hr (by decide))

end BasisHawk.Reconciliation
