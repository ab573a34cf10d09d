/-
  BasisHawk.Reconciliation.ExecutorPass
  ─────────────────────────────────────
  The walk through the two executors: every operation of theirs meets its
  guard, and they leave the pass of the worker as they found it.

  An order is placed only for a leg that a transaction has handed out before,
  and once.

  Main results:
    • `Keeps` and its rules — programs that end in the assertion they start
      from,
    • `keeps_liveExecution`, `keeps_compensateFirst` — the executors.
-/
import BasisHawk.Reconciliation.Guards

namespace BasisHawk.Reconciliation

open Domain Lib Accounts Paired

/-! ## §1. Rules for the worker's programs. -/

/-- An assertion about the tables, and what the pass has in hand, that no other
actor can break. -/
def TableStable (A : Ledger → Hand → Prop) : Prop :=
  ∀ ⦃seen : List PairedPositionRow⦄ ⦃l l' : Ledger⦄ ⦃h : Hand⦄, WellFormed seen l →
    ForeignStep l l' → A l h → A l' h

/-- An assertion about the tables, the hand and the pass. -/
structure At (A : Ledger → Hand → Prop) (p : Pass) (w : World) : Prop where
  sound : Sound w
  holds : A w.ledger w.hand
  pass : w.pass = p

/-- What others do leaves the pass of the worker and what it has in hand. -/
theorem Act.apply_pass (act : Act) (w : World) :
    (act.apply w).pass = w.pass ∧ (act.apply w).hand = w.hand := by
  cases act <;> exact ⟨rfl, rfl⟩

/-- What is stable in the tables stays true while others act. -/
theorem At.stable {A : Ledger → Hand → Prop} (hA : TableStable A) (p : Pass) :
    system.Stable (At A p) := by
  rintro act w w' ⟨hp, rfl⟩ h
  refine ⟨h.sound.act hp, ?_, (act.apply_pass w).1.trans h.pass⟩
  rw [(act.apply_pass w).2]
  exact hA h.sound.wellFormed (Act.foreignStep h.sound.reachable hp) h.holds

/-- The weakest precondition of a worker program, given a sound world. -/
abbrev Wp {ε α : Type} (m : Worker ε α) (Q : Except ε α → World → Prop) (w : World) : Prop :=
  system.wp Sound Pre m Q w

/-- The program ends in the assertion it starts from, however it ends. -/
def Keeps {ε α : Type} (P : World → Prop) (m : Worker ε α) : Prop :=
  ∀ w, P w → Wp m (fun _ w => P w) w

section Keeps

variable {ε ε' α β : Type} {P : World → Prop}

theorem Keeps.done (r : Except ε α) : Keeps P (.done r : Worker ε α) := fun _ h => h

/-- A program is taken up again after another: each part keeps the property. -/
theorem Keeps.resume {m : Worker ε α} {f : Except ε α → Worker ε' β} (hm : Keeps P m)
    (hf : ∀ r, Keeps P (f r)) : Keeps P (m.resume f) := by
  intro w h
  exact System.wp_resume m f _ w (System.wp_mono m (fun r w' h' => hf r w' h') w (hm w h))

/-- A sequence keeps what its parts keep. -/
theorem Keeps.bind {m : Worker ε α} {f : α → Worker ε β} (hm : Keeps P m)
    (hf : ∀ a, Keeps P (f a)) : Keeps P (m >>= f) := by
  refine hm.resume fun r => ?_
  cases r with
  | ok a => exact hf a
  | error e => exact .done _

/-- So does a program with a handler for its exceptions. -/
theorem Keeps.catching {m : Worker ε α} {h : ε → Worker ε α} (hm : Keeps P m)
    (hh : ∀ e, Keeps P (h e)) : Keeps P (m.catching h) := by
  refine hm.resume fun r => ?_
  cases r with
  | ok a => exact .done _
  | error e => exact hh e

/-- So does a program whose exception is taken as a value. -/
theorem Keeps.attempt {m : Worker ε α} (hm : Keeps P m) : Keeps P (attempt m : Worker ε' _) :=
  hm.resume fun _ => .done _

/-- So does one whose exception is turned into a failure code. -/
theorem Keeps.orElse {m : Worker Exc α} (hm : Keeps P m) (code : FailureCode) :
    Keeps P (LiveExecution.orElse m code) := by
  refine hm.resume fun r => ?_
  cases r with
  | ok a => exact .done _
  | error e => exact .done _

/-- So does one with a last question whose exception is swallowed. -/
theorem Keeps.finallyQuietly {m : Worker ε α} (hm : Keeps P m) {o : OutOp}
    (ho : Keeps P (ask o)) : Keeps P (finallyQuietly m o) :=
  hm.resume fun _ => ho.resume fun _ => .done _

/-- So does one with a `finally`. -/
theorem Keeps.finally' {m : Worker ε α} {q : Worker ε Unit} (hm : Keeps P m) (hq : Keeps P q) :
    Keeps P (m.finally' q) := by
  refine hm.resume fun r => hq.resume fun r' => ?_
  cases r' with
  | ok u => exact .done _
  | error e => exact .done _

end Keeps

section Rules

variable {A : Ledger → Hand → Prop} {p : Pass} {w : World}

/-- One call to the outside world, from a stable assertion. -/
theorem wp_ask (hA : TableStable A) (h : At A p w) {o : OutOp}
    (ho : ∀ a order, o ≠ .placeLimitIoc a order) {Q : Except Exc o.Answer → World → Prop}
    (hnext : ∀ w, At A p w → ∀ r,
      Q r { w with pass := w.pass.heard o r, hand := w.hand.heard o r }) :
    Wp (ask o) Q w := by
  refine System.wp_call_of_stable (At.stable hA p) h (fun w _ h => ?_) ?_
  · cases o <;> first | exact trivial | exact absurd rfl (ho _ _)
  · intro w r w' _ h he _
    have hw : w' = { w with pass := w.pass.heard o r, hand := w.hand.heard o r } := by
      cases o <;> first | exact he | exact absurd rfl (ho _ _)
    rw [hw]
    exact hnext w h r

/-- One query, from a stable assertion. -/
theorem wp_look (hA : TableStable A) (h : At A p w) {q : Query}
    {Q : Except Exc q.Answer → World → Prop}
    (hnext : ∀ w, At A p w → Q (.ok (q.eval w.ledger))
      { w with pass := w.pass.looked q (q.eval w.ledger), hand := w.hand.looked q }) :
    Wp (look q) Q w := by
  refine System.wp_call_of_stable (At.stable hA p) h (fun w _ _ => trivial) ?_
  rintro w r w' - h ⟨rfl, rfl⟩ -
  exact hnext w h

/-- One transaction, from a stable assertion. -/
theorem wp_trade (hA : TableStable A) (h : At A p w) {o : TradeOp}
    {Q : Except Exc o.Result → World → Prop} (hpre : ∀ w, At A p w → Pre (.trade o) w)
    (hnext : ∀ w, At A p w → ∀ r w', w.traded o = (r, w') → Sound w' →
      Effect o w.ledger w'.ledger → Q r w') :
    Wp (perform o) Q w := by
  refine System.wp_call_of_stable (At.stable hA p) h (fun w _ h => hpre w h) ?_
  intro w r w' _ h he hsound
  refine hnext w h r w' he hsound ?_
  cases he
  exact transact_effect h.sound.reachable rfl

end Rules

/-! ## §2. The executors. -/

/-- The executors are at work, and these client order ids are prepared. -/
abbrev Executing (cids : List String) (p : Pass) : World → Prop :=
  At (fun _ h => ∀ cid ∈ cids, cid ∈ h.prepared) p

/-- What others do takes no leg out of the hand of an executor. -/
theorem executing_stable (cids : List String) (p : Pass) : system.Stable (Executing cids p) :=
  At.stable (fun _ _ _ _ _ _ h => h) p

/-- An executor with more legs in hand also has fewer. -/
theorem Executing.weaken {cids cids' : List String} {p : Pass} {w : World}
    (h : Executing cids p w) (hsub : ∀ cid ∈ cids', cid ∈ cids) : Executing cids' p w :=
  ⟨h.sound, fun cid hcid => h.holds cid (hsub cid hcid), h.pass⟩

/-- An operation of the executors that prepares and places nothing. -/
def Op.isQuiet : Op → Prop
  | .trade (.expirePlanned _) | .trade (.failMarketUnexecutable _)
  | .trade (.recordPreflightFailure ..) | .trade (.recordSubmission ..)
  | .trade (.markSubmissionUnknown _) | .trade (.markSubmissionRejected ..) => True
  | .trade _ => False
  | .query (.executionControl .executor) | .query (.executionControl .compensator) => True
  | .query (.executionControl _) | .query (.orderLegsForReconciliation _) => False
  | .query _ => True
  | .setControl .. => False
  | .out (.elsewhere .transfers) | .out .listCredentials | .out (.fillsForOrder ..)
  | .out (.placeLimitIoc ..) => False
  | .out _ => True

/-- An operation that is neither a preparation nor a placing is allowed at any
time of an execution. -/
theorem quiet_pre {o : Op} (ho : o.isQuiet) {w : World} (hs : w.pass.stage.isExecuting) :
    Pre o w := by
  cases o with
  | trade o => cases o <;> first | exact ⟨rfl, hs⟩ | cases ho
  | query q => exact trivial
  | setControl state reason => cases ho
  | out o => cases o <;> first | exact trivial | cases ho

/-- While the executors work, the accounts are not being reconciled. -/
theorem Stage.isExecuting.ne_checking {s : Stage} (h : s.isExecuting) (paused : Bool) :
    s ≠ .checking paused := by
  rintro rfl
  exact h

/-- A look of an executor is not taken down in the pass. -/
theorem quiet_looked {q : Query} (hq : Op.isQuiet (.query q)) {p : Pass}
    (hs : p.stage.isExecuting) (r : q.Answer) (h : Hand) : p.looked q r = p ∧ h.looked q = h := by
  cases q with
  | executionControl reader => cases reader <;> first | exact ⟨rfl, rfl⟩ | cases hq
  | pairedPerpExposures a =>
      refine ⟨if_neg fun hc => hs.ne_checking false hc.1, rfl⟩
  | orderLegsForReconciliation a => cases hq
  | recoverableTradeIntents => exact ⟨rfl, rfl⟩
  | tradeIntent intentId => exact ⟨rfl, rfl⟩
  | pairedPosition positionId => exact ⟨rfl, rfl⟩

/-- Nor is what it hears. -/
theorem quiet_heard {o : OutOp} (ho : Op.isQuiet (.out o)) {p : Pass} (hs : p.stage.isExecuting)
    (r : Except Exc o.Answer) (h : Hand) : p.heard o r = p ∧ h.heard o r = h := by
  cases o with
  | elsewhere s => cases s <;> first | exact ⟨rfl, rfl⟩ | cases ho
  | listCredentials => cases ho
  | fillsForOrder => cases ho
  | placeLimitIoc => cases ho
  | snapshot a =>
      refine ⟨?_, rfl⟩
      cases r with
      | error e => rfl
      | ok s =>
          simp only [Pass.heard]
          split
          · -- A snapshot is noted by a check only, and no check is under way.
            next paused hc => exact absurd hc (hs.ne_checking paused)
          · rfl
  | tradingState a =>
      refine ⟨?_, rfl⟩
      cases r with
      | error e => rfl
      | ok s =>
          -- Nor is the state of an account.
          simp only [Pass.heard]
          split
          · next paused hc => exact absurd hc (hs.ne_checking paused)
          · rfl
  | privateStreamReady a =>
      refine ⟨?_, rfl⟩
      cases r with
      | error e => rfl
      | ok ready =>
          -- Nor is a stream, outside the decision.
          refine if_neg fun hc => ?_
          rw [hc.1] at hs
          exact hs
  | _ => exact ⟨rfl, rfl⟩

/-- A quiet operation on the tables hands nothing out. -/
theorem quiet_wrote {o : TradeOp} (ho : Op.isQuiet (.trade o)) (r : Except Exc o.Result)
    (h : Hand) : h.wrote o r = h := by
  cases o <;> first | rfl | cases ho

/-- So a quiet operation leaves the executor where it is. -/
theorem quiet_exec {o : Op} (ho : o.isQuiet) {cids : List String} {p : Pass} {w w' : World}
    {r : Rep o} (hs : p.stage.isExecuting) (h : Executing cids p w) (he : exec o w r w') :
    Executing cids p w' := by
  have hstage : w.pass.stage.isExecuting := by
    rw [h.pass]
    exact hs
  have hsound := preserves.call o w r w' he (quiet_pre ho hstage) h.sound
  refine ⟨hsound, ?_, ?_⟩
  · -- The orders in hand stay.
    cases o with
    | trade o =>
        cases he
        show ∀ cid ∈ cids, cid ∈ (w.hand.wrote o _).prepared
        rw [quiet_wrote ho]
        exact h.holds
    | query q =>
        obtain ⟨-, rfl⟩ := he
        show ∀ cid ∈ cids, cid ∈ (w.hand.looked q).prepared
        rw [(quiet_looked ho hstage r w.hand).2]
        exact h.holds
    | setControl state reason => cases ho
    | out o =>
        have hw : w' = { w with pass := w.pass.heard o r, hand := w.hand.heard o r } := by
          cases o <;> first | exact he | cases ho
        rw [hw]
        show ∀ cid ∈ cids, cid ∈ (w.hand.heard o r).prepared
        rw [(quiet_heard ho hstage r w.hand).2]
        exact h.holds
  · -- And the pass stays where it is.
    cases o with
    | trade o =>
        cases he
        exact h.pass
    | query q =>
        obtain ⟨-, rfl⟩ := he
        exact (quiet_looked ho hstage r w.hand).1.trans h.pass
    | setControl state reason => cases ho
    | out o =>
        have hw : w' = { w with pass := w.pass.heard o r, hand := w.hand.heard o r } := by
          cases o <;> first | exact he | cases ho
        rw [hw]
        exact (quiet_heard ho hstage r w.hand).1.trans h.pass

/-- A quiet operation. -/
theorem keeps_quiet {o : Op} (ho : o.isQuiet) {ε α : Type} {k : Rep o → Worker ε α}
    {cids : List String} {p : Pass} (hs : p.stage.isExecuting)
    (hk : ∀ r, Keeps (Executing cids p) (k r)) : Keeps (Executing cids p) (.call o k) := by
  intro w h
  refine System.wp_call_of_stable (executing_stable cids p) h (fun w _ h => quiet_pre ho ?_) ?_
  · rw [h.pass]
    exact hs
  · exact fun w r w' _ h he _ => hk r w' (quiet_exec ho hs h he)

section Executors

variable {cids : List String} {p : Pass} (hs : p.stage.isExecuting)

include hs

/-- A quiet operation on the tables keeps the legs in hand. -/
theorem keeps_perform {o : TradeOp} (ho : Op.isQuiet (.trade o)) :
    Keeps (Executing cids p) (perform o) :=
  keeps_quiet ho hs fun _ => .done _

/-- So does a look. -/
theorem keeps_look {q : Query} (hq : Op.isQuiet (.query q)) :
    Keeps (Executing cids p) (look q) :=
  keeps_quiet hq hs fun _ => .done _

/-- So does a question. -/
theorem keeps_ask {o : OutOp} (ho : Op.isQuiet (.out o)) :
    Keeps (Executing cids p) (ask o) :=
  keeps_quiet ho hs fun _ => .done _

omit hs in
/-- So does a computation. -/
theorem keeps_pyEval {α : Type} (r : Except Exc α) : Keeps (Executing cids p) (pyEval r) :=
  .done r

/-- The price guard keeps the legs in hand, as it asks only. -/
theorem keeps_guardedPerpLimit (a : Account) (leg : OrderLegRow) (limit : ℚ) :
    Keeps (Executing cids p) (guardedPerpLimit a leg limit) :=
  (keeps_ask hs (by exact trivial)).finallyQuietly (keeps_ask hs (by exact trivial))

/-- So does the comparison of the positions. -/
theorem keeps_checkPairedPositions (a : Account) (positions : List RemotePosition)
    (isolated : Bool) : Keeps (Executing cids p) (checkPairedPositions a positions isolated) :=
  (keeps_look hs (by exact trivial)).bind fun _ => keeps_pyEval _

/-- So does the check before a close. -/
theorem keeps_validateCloseState (a : Account) (intent : TradeIntentRow) (spot perp : OrderLegRow)
    (positions : List RemotePosition) (isolated : Bool) :
    Keeps (Executing cids p) (validateCloseState a intent spot perp positions isolated) := by
  refine (keeps_pyEval _).bind fun positionId => ?_
  refine (keeps_look hs (by exact trivial)).bind fun position => ?_
  refine (keeps_pyEval _).bind fun position => ?_
  refine (keeps_pyEval _).bind fun _ => ?_
  exact keeps_checkPairedPositions hs a positions isolated

/-! ### `LiveExecutionService`. -/

/-- So does the look at the account. -/
theorem keeps_observeAccount (a : Account) :
    Keeps (Executing cids p) (LiveExecution.observeAccount a) := by
  refine ((keeps_ask hs (by exact trivial)).orElse _).bind fun snapshot => ?_
  refine ((keeps_ask hs (by exact trivial)).orElse _).bind fun remote => ?_
  refine ((keeps_ask hs (by exact trivial)).orElse _).bind fun now => ?_
  refine (Keeps.done _).bind fun _ => (Keeps.done _).bind fun _ => ?_
  refine (Keeps.done _).bind fun _ => (Keeps.done _).bind fun _ => ?_
  exact (Keeps.done _).bind fun _ => .done _

/-- So does the second read of the legs. -/
theorem keeps_currentLegs (intent : TradeIntentRow) :
    Keeps (Executing cids p) (LiveExecution.currentLegs intent) := by
  refine ((keeps_look hs (by exact trivial)).orElse _).bind fun current => ?_
  split
  · exact .done _
  · split
    · exact .done _
    · exact .done _

/-- So does the check of the account. -/
theorem keeps_checkAccount (a : Account) (intent : TradeIntentRow) (pre : LiveExecution.Preflight)
    (spot perp : OrderLegRow) :
    Keeps (Executing cids p) (LiveExecution.checkAccount a intent pre spot perp) := by
  unfold LiveExecution.checkAccount
  dsimp only
  split
  · refine (Keeps.done _).bind fun _ => ?_
    exact ((keeps_checkPairedPositions hs a _ _).orElse _).bind fun _ => (keeps_pyEval _).orElse _
  · exact (keeps_validateCloseState hs a intent spot perp _ _).orElse _

/-- So does the recording of what a placing came to. -/
theorem keeps_recordOutcome (exchange : Exchange) (leg : OrderLegRow)
    (outcome : Except Exc OrderSubmission) :
    Keeps (Executing cids p) (LiveExecution.recordOutcome exchange leg outcome) := by
  unfold LiveExecution.recordOutcome
  split
  · split
    · exact (keeps_perform hs (by exact trivial)).bind fun _ => .done _
    · exact (keeps_perform hs (by exact trivial)).bind fun _ => .done _
  · refine ((keeps_perform hs (by exact trivial)).bind fun _ => .done _).catching fun _ => ?_
    exact (keeps_perform hs (by exact trivial)).bind fun _ => .done _

/-- And of several. -/
theorem keeps_recordOutcomes (exchange : Exchange) :
    ∀ outcomes, Keeps (Executing cids p) (LiveExecution.recordOutcomes exchange outcomes)
  | [] => .done _
  | (leg, outcome) :: rest =>
      (keeps_recordOutcome hs exchange leg outcome).bind fun _ =>
        (keeps_recordOutcomes exchange rest).bind fun _ => .done _

end Executors

/-- The validators of an order change nothing. -/
theorem validate_ok {o o' : LimitIocOrder} (h : o.validate = .ok o') : o' = o := by
  simp only [LimitIocOrder.validate, raiseIf_bind_eq_ok] at h
  obtain ⟨-, -, -, -, -, -, h⟩ := h
  split at h
  · simp only [raiseIf_bind_eq_ok] at h
    cases h.2
    rfl
  · simp only [raiseIf_bind_eq_ok] at h
    cases h.2.2.2
    rfl

/-- The order of a prepared leg is placed. -/
theorem wp_submit {cids : List String} {p : Pass} {a : Account} {snapshot : LiveSnapshot}
    {leg : OrderLegRow} (hfresh : leg.clientOrderId ∉ cids) {w : World}
    (h : Executing (leg.clientOrderId :: cids) p w) :
    Wp (submit a snapshot leg) (fun _ w => Executing cids p w) w := by
  have hrest : ∀ w, Executing (leg.clientOrderId :: cids) p w → Executing cids p w :=
    fun w h => h.weaken fun cid hcid => List.mem_cons_of_mem _ hcid
  refine System.wp_bind _ _ _ ?_
  cases hv : (orderFor snapshot leg).validate with
  | error e => exact hrest w h
  | ok order =>
      have horder : order.clientOrderId = leg.clientOrderId := by
        rw [validate_ok hv]
        rfl
      refine System.wp_call_of_stable (executing_stable _ p) h (fun w _ h => ?_) ?_
      · show order.clientOrderId ∈ w.hand.prepared
        rw [horder]
        exact h.holds _ List.mem_cons_self
      · rintro w r w' - h ⟨arrives, rfl⟩ -
        refine ⟨h.sound.of_books rfl, fun cid hcid => ?_, h.pass⟩
        refine List.mem_filter.mpr ⟨h.holds cid (List.mem_cons_of_mem _ hcid), ?_⟩
        have hne : cid ≠ leg.clientOrderId := fun heq => hfresh (heq ▸ hcid)
        simpa [horder] using hne

/-- Different legs that are handed out have different client order ids. -/
theorem preparedLegs_nodup {w : World} (h : Sound w) {o : TradeOp} {r : Except Exc o.Result}
    {w' : World} (he : w.traded o = (r, w')) {legs : List OrderLegRow}
    (hlegs : preparedLegs o r = some legs) : (legs.map (·.clientOrderId)).Nodup := by
  have hids := h.reachable.client_ids
  have hcommit : transact o w.now w.books = (r, w'.books) := by
    cases he
    rfl
  rcases transact_cases hcommit with ⟨x, l, htx, rfl, -⟩ | ⟨e, -, rfl, -⟩
  · -- Only the two operations that hand out orders have legs.
    cases o with
    | prepareSubmission intentId adjusted =>
        rcases Ledger.prepareLiveSubmission_ok htx with ⟨-, hno⟩ | ⟨i, spot, perp, price, hq, -, -, -,
          -, hprimary, -, -, -, rfl⟩
        · obtain ⟨i, hr⟩ := handedOut_some.mp hlegs
          exact absurd hr (hno i legs)
        · cases hlegs
          -- Two legs of different names are two rows, which have different client order ids.
          obtain ⟨⟨hspot, -, hspot_name⟩, hperp, -, hperp_name⟩ := Ledger.primaryLegs_ok hprimary
          have hne : spot.clientOrderId ≠ perp.clientOrderId := by
            intro heq
            have hsame : spot = perp := List.inj_on_of_nodup_map hids hspot hperp heq
            rw [hsame, hperp_name] at hspot_name
            cases hspot_name
          simpa using hne
    | prepareCompensation intentId limit quantity tolerance =>
        rcases Ledger.prepareLiveCompensation_ok htx with ⟨-, hno⟩ | ⟨i, c, hq, ht, -, -, -, -, -, -,
          rfl⟩
        · obtain ⟨i, hr⟩ := handedOut_some.mp hlegs
          exact absurd hr (hno i legs)
        · cases hlegs
          exact List.nodup_singleton _
    | _ => cases hlegs
  · cases o <;> cases hlegs

/-- The transactions that may hand out legs. -/
def isPreparation : TradeOp → Bool
  | .prepareSubmission .. | .prepareCompensation .. => true
  | _ => false

/-- A preparation puts the legs that it returns in hand. -/
theorem wrote_prepared {o : TradeOp} (ho : isPreparation o) {r : Except Exc o.Result}
    {legs : List OrderLegRow} (hlegs : preparedLegs o r = some legs) (h : Hand) :
    (h.wrote o r).prepared = legs.map (·.clientOrderId) := by
  cases o with
  | prepareSubmission => simp only [Hand.wrote, hlegs]
  | prepareCompensation => simp only [Hand.wrote, hlegs]
  | _ => cases ho

/-- After a preparation the executor has exactly the prepared legs in hand, each
once. -/
theorem wp_prepare {o : TradeOp} (ho : isPreparation o) {p : Pass} (hs : p.stage.isExecuting)
    {w : World} (h : Executing [] p w) :
    Wp (perform o) (fun r w => Executing [] p w ∧ ∀ legs, preparedLegs o r = some legs →
      (legs.map (·.clientOrderId)).Nodup ∧ Executing (legs.map (·.clientOrderId)) p w) w := by
  refine System.wp_call_of_stable (executing_stable _ p) h (fun w _ h => ?_) ?_
  · rw [← h.pass] at hs
    cases o <;> first | exact ⟨rfl, hs⟩ | cases ho
  · intro w r w' hI h he hI'
    have hpass : w'.pass = p := by
      cases he
      exact h.pass
    refine ⟨⟨hI', fun cid hcid => (by cases hcid), hpass⟩, fun legs hlegs => ?_⟩
    refine ⟨preparedLegs_nodup hI he hlegs, ⟨hI', ?_, hpass⟩⟩
    cases he
    show ∀ cid ∈ _, cid ∈ (w.hand.wrote o _).prepared
    rw [wrote_prepared ho hlegs]
    exact fun cid hcid => hcid

/-! ### From the prepared legs on. -/

/-- Sequencing with what is known of the value and the world. -/
theorem wp_then {ε α β : Type} {P : World → Prop} {m : Worker ε α} {f : α → Worker ε β} {w : World}
    (hm : Wp m (fun r w => match r with
      | .ok a => Wp (f a) (fun _ w => P w) w
      | .error _ => P w) w) : Wp (m >>= f) (fun _ w => P w) w := by
  refine System.wp_bind m f _ (System.wp_mono m (fun r w' hr => ?_) w hm)
  cases r with
  | ok a => exact hr
  | error e => exact hr

section Prepared

variable {p : Pass} (hs : p.stage.isExecuting)

include hs

/-- Placing the two legs in turn uses up what is in hand. -/
theorem wp_submitInTurn {a : Account} {snapshot : LiveSnapshot} {perp spot : OrderLegRow}
    (hne : spot.clientOrderId ≠ perp.clientOrderId) {w : World}
    (h : Executing [perp.clientOrderId, spot.clientOrderId] p w) :
    Wp (LiveExecution.submitInTurn a snapshot perp spot) (fun _ w => Executing [] p w) w := by
  have hperp : perp.clientOrderId ∉ [spot.clientOrderId] := by
    simpa using fun h => hne h.symm
  refine wp_then (System.wp_resume _ _ _ _ (System.wp_mono _ (fun r w h => ?_) _ (wp_submit hperp h)))
  cases r with
  | error e =>
      refine (keeps_perform hs (by exact trivial)).bind (fun _ => .done _) w (h.weaken fun cid hcid => ?_)
      cases hcid
  | ok first =>
      refine wp_then (System.wp_resume _ _ _ _ (System.wp_mono _ (fun r w h => ?_) _
        (wp_submit (List.not_mem_nil) h)))
      exact h

omit hs in
/-- So does placing them together. -/
theorem wp_submitTogether {a : Account} {snapshot : LiveSnapshot} {spot perp : OrderLegRow}
    (hne : spot.clientOrderId ≠ perp.clientOrderId) {w : World}
    (h : Executing [spot.clientOrderId, perp.clientOrderId] p w) :
    Wp (LiveExecution.submitTogether a snapshot spot perp) (fun _ w => Executing [] p w) w := by
  have hspot : spot.clientOrderId ∉ [perp.clientOrderId] := by
    simpa using hne
  refine wp_then (System.wp_resume _ _ _ _ (System.wp_mono _ (fun r w h => ?_) _ (wp_submit hspot h)))
  refine wp_then (System.wp_resume _ _ _ _ (System.wp_mono _ (fun r w h => ?_) _
    (wp_submit (List.not_mem_nil) h)))
  exact h

omit hs in
/-- The legs found under two names have different client order ids. -/
theorem clientOrderId_ne {legs : List OrderLegRow} (hids : (legs.map (·.clientOrderId)).Nodup)
    {spot perp : OrderLegRow} (hspot : legs.find? (·.leg = .primary .spot) = some spot)
    (hperp : legs.find? (·.leg = .primary .perp) = some perp) :
    spot.clientOrderId ≠ perp.clientOrderId := by
  intro heq
  have hsame : spot = perp := List.inj_on_of_nodup_map hids (List.mem_of_find?_eq_some hspot)
    (List.mem_of_find?_eq_some hperp) heq
  have hspot_name : spot.leg = .primary .spot := by simpa using List.find?_some hspot
  have hperp_name : perp.leg = .primary .perp := by simpa using List.find?_some hperp
  rw [hsame, hperp_name] at hspot_name
  cases hspot_name

/-- So does placing whatever was prepared. -/
theorem wp_submitLegs {a : Account} {snapshot : LiveSnapshot} {intent : TradeIntentRow}
    {legs : List OrderLegRow} (hids : (legs.map (·.clientOrderId)).Nodup) {w : World}
    (h : Executing (legs.map (·.clientOrderId)) p w) :
    Wp (LiveExecution.submitPrepared a snapshot intent legs) (fun _ w => Executing [] p w) w := by
  have hnone : Executing [] p w := h.weaken fun cid hcid => (by cases hcid)
  refine wp_then ?_
  cases hspot : legs.find? (·.leg = .primary .spot) with
  | none => exact hnone
  | some spot =>
      refine wp_then ?_
      cases hperp : legs.find? (·.leg = .primary .perp) with
      | none => exact hnone
      | some perp =>
          have hne := clientOrderId_ne hids hspot hperp
          have hmem : ∀ leg ∈ legs, leg.clientOrderId ∈ legs.map (·.clientOrderId) :=
            fun leg hleg => List.mem_map_of_mem hleg
          have hs_mem := hmem _ (List.mem_of_find?_eq_some hspot)
          have hp_mem := hmem _ (List.mem_of_find?_eq_some hperp)
          -- The results are recorded, however the two orders were placed.
          have hrecord : ∀ m : Worker Exc (List (OrderLegRow × Except Exc OrderSubmission)),
              Wp m (fun _ w => Executing [] p w) w →
              Wp (m >>= fun outcomes => do
                let uncertain ← LiveExecution.recordOutcomes intent.exchange outcomes
                return (true, uncertain)) (fun _ w => Executing [] p w) w := by
            intro m hm
            refine wp_then (System.wp_mono m (fun r w h => ?_) w hm)
            cases r with
            | error e => exact h
            | ok outcomes =>
                exact (keeps_recordOutcomes hs intent.exchange outcomes).bind (fun _ => .done _) w h
          show Wp (if isGateSandbox a then _ else _) _ w
          -- The Gate sandbox takes one order after the other.
          split
          · refine hrecord _ (wp_submitInTurn hs hne (h.weaken fun cid hcid => ?_))
            rcases List.mem_cons.mp hcid with rfl | hcid
            · exact hp_mem
            · rw [List.mem_singleton.mp hcid]
              exact hs_mem
          · -- Elsewhere both are placed together.
            refine hrecord _ (wp_submitTogether hne (h.weaken fun cid hcid => ?_))
            rcases List.mem_cons.mp hcid with rfl | hcid
            · exact hs_mem
            · rw [List.mem_singleton.mp hcid]
              exact hp_mem

/-- From the preparation to the placing: nothing is in hand before or after. -/
theorem keeps_prepareAndSubmit (a : Account) (intent : TradeIntentRow)
    (pre : LiveExecution.Preflight) (perp : OrderLegRow) (adjusted : Option ℚ) :
    Keeps (Executing [] p) (LiveExecution.prepareAndSubmit a intent pre perp adjusted) := by
  unfold LiveExecution.prepareAndSubmit
  dsimp only
  split
  -- An opening configures the perpetual first; the rest is the same.
  case' isTrue => refine ((keeps_ask hs (by exact trivial)).orElse _).bind fun _ => ?_
  all_goals
    intro w h
    refine wp_then (System.wp_resume _ _ _ _ (System.wp_mono _ (fun r w h => ?_) _
      (wp_prepare rfl hs h)))
    cases r with
    | error e => exact h.1
    | ok prepared =>
        dsimp only [System.wp]
        split
        · next i legs =>
            obtain ⟨hids, hlegs⟩ := h.2 legs rfl
            refine System.wp_resume _ _ _ _ (System.wp_mono _ (fun r w h => ?_) _
              (wp_submitLegs hs hids hlegs))
            cases r <;> exact h
        · exact h.1

/-- The execution of one intent begins and ends with nothing in hand. -/
theorem keeps_executeWith (a : Account) (intent : TradeIntentRow) :
    Keeps (Executing [] p) (LiveExecution.executeWith a intent) := by
  refine (keeps_observeAccount hs a).bind fun pre => ?_
  refine (keeps_currentLegs hs intent).bind fun legs => ?_
  refine (keeps_checkAccount hs a intent pre _ _).bind fun _ => ?_
  split
  · refine (keeps_guardedPerpLimit hs a _ _).attempt.bind fun guarded => ?_
    split
    · exact .done _
    · exact ((keeps_perform hs (by exact trivial)).orElse _).bind fun _ => .done _
    · exact keeps_prepareAndSubmit hs a intent pre _ _
  · exact keeps_prepareAndSubmit hs a intent pre _ _

/-- With its client opened and closed as well. -/
theorem keeps_execute (intent : TradeIntentRow) :
    Keeps (Executing [] p) (LiveExecution.execute intent) := by
  refine ((keeps_pyEval _).orElse _).bind fun a => ?_
  refine ((keeps_ask hs (by exact trivial)).orElse _).bind fun present => ?_
  refine (Keeps.done _).bind fun _ => ?_
  refine ((keeps_ask hs (by exact trivial)).orElse _).bind fun _ => ?_
  exact (keeps_executeWith hs a intent).finallyQuietly (keeps_ask hs (by exact trivial))

/-- And one intent after the other. -/
theorem keeps_executeAll :
    ∀ items r, Keeps (Executing [] p) (LiveExecution.executeAll items r)
  | [], _ => .done _
  | item :: rest, r => by
      refine (keeps_ask hs (by exact trivial)).bind fun now => ?_
      split
      · exact (keeps_perform hs (by exact trivial)).bind fun _ => keeps_executeAll rest _
      · refine (keeps_execute hs item).attempt.bind fun outcome => ?_
        split
        · exact (keeps_perform hs (by exact trivial)).bind fun _ => .done _
        · dsimp only
          split
          · exact .done _
          · exact keeps_executeAll rest _

/-- So a pass of the executor places what it prepared, and nothing else. -/
theorem keeps_liveExecution : Keeps (Executing [] p) LiveExecution.runOnce := by
  refine (keeps_look hs (by exact trivial)).bind fun control => ?_
  split
  · exact (keeps_look hs (by exact trivial)).bind fun _ => keeps_executeAll hs _ _
  · exact .done _

/-! ### `LiveCompensationService`. -/

/-- Reading the market keeps an empty hand. -/
theorem keeps_compensationMarket (a : Account) (intent : TradeIntentRow) :
    Keeps (Executing [] p) (LiveCompensation.compensationMarket a intent) := by
  have hstored : Keeps (Executing [] p) (LiveCompensation.storedMarket a intent) := by
    refine (keeps_ask hs (by exact trivial)).bind fun opportunities =>
      (keeps_ask hs (by exact trivial)).bind fun pairs => ?_
    dsimp only
    split
    · exact .done _
    · split
      · refine Keeps.bind (Keeps.finally' ((keeps_ask hs (by exact trivial)).bind fun instruments => ?_)
          (keeps_ask hs (by exact trivial))) fun _ => .done _
        split
        · exact .done _
        · exact (keeps_ask hs (by exact trivial)).bind fun _ => .done _
      · exact .done _
  refine hstored.bind fun market => (keeps_ask hs (by exact trivial)).bind fun now => ?_
  split
  · exact (keeps_pyEval _).bind fun _ => .done _
  · exact .done _

/-- So does the computation of the terms. -/
theorem keeps_terms (a : Account) (intent : TradeIntentRow) (leg : OrderLegRow) :
    Keeps (Executing [] p) (LiveCompensation.terms a intent leg) := by
  refine (keeps_compensationMarket hs a intent).bind fun market => ?_
  dsimp only
  refine (keeps_pyEval _).bind fun quantity => ?_
  have hslippage : Keeps (Executing [] p) (LiveCompensation.maximumSlippage intent.environment) := by
    refine (keeps_ask hs (by exact trivial)).bind fun strategy => ?_
    split
    · exact .done _
    · split
      · exact .done _
      · exact (keeps_pyEval _).bind fun _ => .done _
  have hguarded : ∀ limit, Keeps (Executing [] p) (LiveCompensation.guardedLimit a leg limit) := by
    intro limit
    unfold LiveCompensation.guardedLimit
    split
    · exact (keeps_guardedPerpLimit hs a leg limit).bind fun _ => keeps_pyEval _
    · exact .done _
  refine hslippage.bind fun slippage => (keeps_pyEval _).bind fun limit => ?_
  exact (hguarded limit).bind fun _ => (keeps_pyEval _).bind fun _ => .done _

/-- The compensation of one intent begins and ends with nothing in hand. -/
theorem keeps_compensationWith (a : Account) (intent : TradeIntentRow) (t : LiveCompensation.Terms) :
    Keeps (Executing [] p) (LiveCompensation.executeWith a intent t) := by
  have hobserve : Keeps (Executing [] p) (LiveCompensation.observeAccount a) :=
    (keeps_ask hs (by exact trivial)).bind fun _ => (keeps_ask hs (by exact trivial)).bind fun _ =>
      (keeps_pyEval _).bind fun _ => .done _
  refine hobserve.bind fun snapshot => ?_
  intro w h
  refine wp_then (System.wp_mono _ (fun r w h => ?_) _ (wp_prepare rfl hs h))
  cases r with
  | error e => exact h.1
  | ok prepared =>
      dsimp only [System.wp]
      split
      · next i leg =>
          obtain ⟨-, hlegs⟩ := h.2 [leg] rfl
          have hmark : Keeps (Executing [] p) (do
              perform (.markSubmissionUnknown leg.id)
              return (true, 1) : Worker Exc (Bool × Nat)) :=
            (keeps_perform hs (by exact trivial)).bind fun _ => .done _
          refine System.wp_catching _ _ _ (System.wp_mono _ (fun r w h => ?_) w
            (show Wp _ (fun _ w => Executing [] p w) w from ?_))
          · cases r with
            | ok x => exact h
            | error e => exact hmark w h
          · refine wp_then (System.wp_mono _ (fun r w h => ?_) _ (wp_submit List.not_mem_nil hlegs))
            cases r with
            | error e => exact h
            | ok submission => exact (keeps_perform hs (by exact trivial)).bind (fun _ => .done _) w h
      · exact h.1

/-- With its client opened and closed as well. -/
theorem keeps_compensate (intent : TradeIntentRow) :
    Keeps (Executing [] p) (LiveCompensation.execute intent) := by
  refine (keeps_look hs (by exact trivial)).bind fun current => ?_
  refine (keeps_pyEval _).bind fun pair => ?_
  dsimp only
  refine (keeps_pyEval _).bind fun leg => ?_
  split
  · exact .done _
  · refine (keeps_pyEval _).bind fun a => (keeps_terms hs a intent leg).bind fun t => ?_
    refine (keeps_ask hs (by exact trivial)).bind fun present => (keeps_pyEval _).bind fun _ => ?_
    refine (keeps_ask hs (by exact trivial)).bind fun _ => ?_
    exact (keeps_compensationWith hs a intent t).finally' (keeps_ask hs (by exact trivial))

/-- What the compensator does once it has looked at the control state. -/
theorem keeps_compensateFirst (control : Control) :
    Keeps (Executing [] p) (if ¬control.Paused then pure ⟨0, 0, 0, 0⟩
      else do
        let recoverable ← look .recoverableTradeIntents
        match LiveCompensation.candidates recoverable with
        | [] => return ⟨0, 0, 0, 0⟩
        | intent :: _ =>
            match ← attempt (LiveCompensation.execute intent) with
            | .error _ => return ⟨1, 0, 0, 1⟩
            | .ok (submitted, uncertain) => return ⟨1, submitted.toNat, uncertain, 0⟩ :
      Worker Exc LiveCompensation.Result) := by
  split
  · exact .done _
  · refine (keeps_look hs (by exact trivial)).bind fun recoverable => ?_
    split
    · exact .done _
    · refine (keeps_compensate hs _).attempt.bind fun outcome => ?_
      split
      · exact .done _
      · exact .done _

/-- So a pass of the compensator places what it prepared, and nothing else. -/
theorem keeps_liveCompensation :
    Keeps (Executing [] p) (LiveCompensation.runOnce .compensator) := by
  have hlook : Keeps (Executing [] p) (look (.executionControl .compensator)) :=
    keeps_look hs (by exact trivial)
  exact hlook.bind fun control => keeps_compensateFirst hs control

end Prepared

end BasisHawk.Reconciliation
