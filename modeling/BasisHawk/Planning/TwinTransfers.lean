/-
  BasisHawk.Planning.TwinTransfers
  ────────────────────────────────
  `plan_internal_transfer` among its twins.

  The key is looked up before the limits are locked, and not again.  A request
  that comes to lock them after a twin has committed plans its transfer anew,
  on top of the twin's.  One that comes before runs as it would alone.

  The planner is given the id of the transfer, which its caller derives from the
  key.  So the rows of all twins have one id, and twins differ in nothing but the
  time at which they come.

  Main results:
    • `ends_planRest` — how a request ends that runs alone,
    • `planInternalTransfer_idempotent` — plans of one transfer are idempotent,
      as long as nobody locks or stores the limits after a twin has committed.
-/
import BasisHawk.Planning.Idempotency

namespace BasisHawk.Planning

open Domain Lib
open Lib.Schema (goal goal_open goal_alone alone Ends)
open Transfers (InternalTransferRow TransferLimitSettings transferLimitSettings PlanRequest)
open Tx

variable {ι : Type}

/-! ## §1. The planner, alone. -/

/-- The transfers under a key. -/
def storedTransfers (key : Nat) (d : Tables) : List InternalTransferRow :=
  d.transfers.filter (·.idempotencyKey = key)

/-- Where no transfer has the key, the lookup by key finds none. -/
theorem ask_transferByKey_none {d : Tables} {key : Nat} (h : storedTransfers key d = []) :
    ask (.transferByKey key) d = none := by
  rw [storedTransfers, List.filter_eq_nil_iff] at h
  exact List.find?_eq_none.mpr h

/-- Where one has it, the lookup finds it. -/
theorem ask_transferByKey_some {d : Tables} {key : Nat} {row : InternalTransferRow}
    (h : storedTransfers key d = [row]) : ask (.transferByKey key) d = some row := by
  show d.transfers.find? _ = some row
  rw [← List.head?_filter, show d.transfers.filter _ = [row] from h]
  rfl

/-- A key without a stored transfer is not in use. -/
theorem storedTransfers_nil {d : Tables} {key : Nat} (h : storedTransfers key d = []) :
    .transferKey key ∉ keys d := by
  rw [storedTransfers, List.filter_eq_nil_iff] at h
  intro hmem
  obtain ⟨t, ht, heq⟩ := mem_keys.mp hmem
  exact h t ht (decide_eq_true heq.symm)

/-- `plan_internal_transfer` under the limits in force. -/
def planRest (q : PlanRequest) (henv : q.environment ≠ .paper) (hamount : 0 < q.amount)
    (observedAt : Int) (limits : TransferLimitSettings) : Tx (InternalTransferRow × Bool) := do
  pure' (raiseIf (¬limits.enabled) (.value "internal transfers are disabled by zero limits"))
  pure' (raiseIf (q.amount > limits.perRequestLimit)
    (.value "internal transfer exceeds the per-request limit"))
  let control ← executionControl
  let used ← select (.usedOn (Transfers.dayStart observedAt))
  pure' (raiseIf (used + q.amount > limits.dailyLimit)
    (.value "internal transfer exceeds the UTC daily limit"))
  let row := Transfers.Desk.plannedRow q henv hamount observedAt
  flush (.transfer row)
  pauseForTransfer control
  commit
  return (row, true)

/-- The transaction has stored nothing but settings. -/
def SettingsOnly (s : Transaction) : Prop :=
  ∀ w ∈ s.writes, (∃ limits, w = .transferLimits limits) ∨ ∃ row, w = .control row

/-- Storing the limits or the control leaves a transaction one of settings only.
-/
theorem SettingsOnly.append {s : Transaction} (h : SettingsOnly s) {w : Write}
    (hw : (∃ limits, w = .transferLimits limits) ∨ ∃ row, w = .control row) :
    SettingsOnly (s.after w) := by
  intro w' hw'
  rcases List.mem_append.mp hw' with hold | hnew
  · exact h w' hold
  · rw [List.mem_singleton.mp hnew]
    exact hw

/-- What such a transaction makes of the tables. -/
theorem SettingsOnly.view {s : Transaction} (h : SettingsOnly s) (d : Tables) :
    (schema.view s d).transfers = d.transfers
      ∧ ∀ k ∈ keys (schema.view s d), k ∈ keys d ∨ k = .transferLimits ∨ k = .control := by
  obtain ⟨ls, ks, ws⟩ := s
  induction ws using List.reverseRecOn with
  | nil => exact ⟨rfl, fun k hk => .inl hk⟩
  | append_singleton ws w ih =>
      have hview : schema.view ⟨ls, ks, ws ++ [w]⟩ d
          = apply w (schema.view ⟨ls, ks, ws⟩ d) := by
        show (ws ++ [w]).foldl _ d = _
        rw [List.foldl_append]
        rfl
      have hw := h w (List.mem_append_right _ (List.mem_singleton_self w))
      obtain ⟨htransfers, hkeys⟩ := ih fun w' hw' => h w' (List.mem_append_left _ hw')
      rw [hview]
      constructor
      · rcases hw with ⟨limits, rfl⟩ | ⟨row, rfl⟩
        · exact htransfers
        · exact htransfers
      · intro k hk
        have hpause : ∀ reason, w ≠ .pauseControl reason := by
          rcases hw with ⟨limits, rfl⟩ | ⟨row, rfl⟩
          · exact fun _ h => by cases h
          · exact fun _ h => by cases h
        rcases mem_keys_apply hpause hk with hold | hown
        · exact hkeys k hold
        · rcases hw with ⟨limits, rfl⟩ | ⟨row, rfl⟩
          · exact .inr (.inl (List.mem_singleton.mp hown))
          · exact .inr (.inr (List.mem_singleton.mp hown))

/-- The control row is there or comes to be. -/
theorem run_executionControl {d : Tables} {s : Transaction} (hs : SettingsOnly s) :
    ∃ control s', executionControl.run schema.answer (d, s) = (.ok control, (d, s'))
      ∧ SettingsOnly s' ∧ ∀ g, s.Holds g → s'.Holds g := by
  have hkeeps : ∀ g, s.Holds g →
      Session.Holds (schema.answer (.selectForUpdate .control) (d, s)).2.2 g := fun g =>
    Schema.holds_answer (S := schema) (o := .selectForUpdate .control) trivial
  have hlocked : (schema.answer (.selectForUpdate .control) (d, s)).2.2.writes = s.writes := rfl
  unfold executionControl selectForUpdate
  rw [Prog.run_bind, Prog.run_call,
    Schema.answer_keeps (S := schema) (o := .selectForUpdate .control) trivial, Prog.run_done]
  -- Only the control row is locked by the read, and no row is written.
  generalize (schema.answer (.selectForUpdate .control) (d, s)).2.2 = s₁ at hkeeps hlocked ⊢
  have hs₁ : SettingsOnly s₁ := by
    unfold SettingsOnly
    rw [hlocked]
    exact hs
  have hview : schema.view s₁ d = schema.view s d := by
    unfold Schema.view
    rw [hlocked]
  rw [show (schema.answer (.selectForUpdate .control) (d, s)).1 = (schema.view s d).control from rfl]
  cases hcontrol : (schema.view s d).control with
  -- The row is there.
  | some control => exact ⟨control, s₁, rfl, hs₁, hkeeps⟩
  -- No such row, so the one of the start is flushed.
  | none =>
      have hflush := answer_flush_new (d := d) (s := s₁) (w := .control startupControl)
        (List.nodup_singleton _) (by
          intro k hk hmem
          rw [List.mem_singleton.mp hk, hview] at hmem
          have hsome := mem_keys.mp hmem
          rw [Stored, hcontrol] at hsome
          cases hsome)
      refine ⟨startupControl, Transaction.after s₁ (.control startupControl), ?_,
        hs₁.append (.inr ⟨_, rfl⟩), ?_⟩
      · show ((flush _ >>= _ : Tx _).run schema.answer (d, s₁)) = _
        unfold flush
        rw [Prog.run_bind, Prog.run_call, hflush]
        rfl
      · intro g hg
        have hheld := Schema.holds_answer (S := schema) (d := d)
          (o := .flush (.control startupControl)) trivial (hkeeps g hg)
        rw [hflush] at hheld
        exact hheld

/-- Reading the control keeps the transaction open, whether or not it stores the
first row. -/
theorem executionControl_keeps : executionControl.Ensures Schema.Keeps fun _ => True := by
  refine ⟨trivial, fun r => ?_⟩
  cases r with
  | some control => trivial
  | none =>
      refine ⟨trivial, fun stored => ?_⟩
      cases stored with
      | true => trivial
      | false => trivial

/-- A check that nothing has been stored for. -/
theorem ends_raiseIf {d : Tables} {s : Transaction} {α : Type} {R : Except Exc α → Prop}
    {P : Transaction → Except Exc α → Prop} {c : Prop} [Decidable c] {e : Exc} {f : Unit → Tx α}
    (herr : R (.error e)) (hok : ¬c → Ends schema d R P (f ()) s) :
    Ends schema d R P (pure' (raiseIf c e) >>= f) s := by
  by_cases hc : c
  · rw [raiseIf_pos hc]
    exact herr
  · rw [raiseIf_neg hc]
    exact hok hc

/-- The error is none of a constraint. -/
def NoIntegrity {α : Type} (r : Except Exc α) : Prop := ∃ e, r = .error e ∧ e.kind ≠ .integrity

theorem noIntegrity_value {α : Type} (text : String) :
    NoIntegrity (.error (.value text) : Except Exc α) :=
  ⟨_, rfl, fun h => by cases h⟩

/-- The request commits its transfer and nothing else but settings. -/
structure Planned (d : Tables) (s : Transaction) (row : InternalTransferRow) (s' : Transaction)
    (r : Except Exc (InternalTransferRow × Bool)) : Prop where
  result : r = .ok (row, true)
  transfers : (schema.view s' d).transfers = d.transfers ++ [row]
  key : s'.Holds (.inr (.transferKey row.idempotencyKey))
  held : ∀ g, s.Holds g → s'.Holds g

section Alone

variable {q : PlanRequest}

/-- What a transaction sees after a write is the write applied to what it saw
before. -/
theorem view_after {d : Tables} {s : Transaction} {w : Write} :
    schema.view (s.after w) d = apply w (schema.view s d) := by
  show (s.writes ++ [w]).foldl _ d = _
  rw [List.foldl_append]
  rfl

/-- Alone, a request raises or commits its transfer. -/
theorem ends_planRest (henv : q.environment ≠ .paper) (hamount : 0 < q.amount) (observedAt : Int)
    {d : Tables} {s : Transaction} (limits : TransferLimitSettings) (hs : SettingsOnly s)
    (hid : .transferId q.transferId ∉ keys d)
    (hkey : .transferKey q.idempotencyKey ∉ keys d) :
    Ends schema d NoIntegrity
      (Planned d s (Transfers.Desk.plannedRow q henv hamount observedAt))
      (planRest q henv hamount observedAt limits) s := by
  unfold planRest
  refine ends_raiseIf (noIntegrity_value _) fun _ => ends_raiseIf (noIntegrity_value _) fun _ => ?_
  refine Ends.bind executionControl_keeps ?_ ?_
  swap
  · intro e he
    obtain ⟨control, s', hrun, -⟩ := run_executionControl (d := d) hs
    rw [hrun] at he
    cases he
  intro control s₁ hrun
  obtain ⟨control', s', hrun', hs₁, hheld⟩ := run_executionControl (d := d) hs
  rw [hrun] at hrun'
  injection hrun' with hcontrol hsession
  injection hcontrol with hcontrol
  injection hsession with _ hsession
  subst hcontrol hsession
  refine ends_raiseIf (s := s₁) (noIntegrity_value _) fun _ => ?_
  obtain ⟨htransfers, hkeys⟩ := hs₁.view d
  -- Neither the id nor the idempotency key is taken, so the row can be stored.
  have hflush := answer_flush_new (d := d) (s := s₁)
    (w := .transfer (Transfers.Desk.plannedRow q henv hamount observedAt))
    (by simp [claims, transferKeys]) (by
      intro k hk hmem
      rcases hkeys k hmem with hold | rfl | rfl
      · rcases List.mem_cons.mp hk with rfl | hk
        · exact hid hold
        · rw [List.mem_singleton.mp hk] at hold
          exact hkey hold
      · simp [claims, transferKeys] at hk
      · simp [claims, transferKeys] at hk)
  have hplanned : ∀ s₂ : Transaction,
      (schema.view s₂ d).transfers = (apply (.transfer
        (Transfers.Desk.plannedRow q henv hamount observedAt)) (schema.view s₁ d)).transfers →
      (∀ g, Session.Holds (Transaction.after s₁
        (.transfer (Transfers.Desk.plannedRow q henv hamount observedAt))) g → s₂.Holds g) →
      Planned d s (Transfers.Desk.plannedRow q henv hamount observedAt) s₂
        (.ok (Transfers.Desk.plannedRow q henv hamount observedAt, true)) := by
    intro s₂ hview hmono
    refine ⟨rfl, ?_, hmono _ ?_, fun g hg => hmono g ?_⟩
    · rw [hview, ← htransfers]
      rfl
    · simp [Session.Holds, Transaction.after, claims, transferKeys]
    · have := Schema.holds_answer (S := schema) (d := d)
        (o := .flush (.transfer (Transfers.Desk.plannedRow q henv hamount observedAt))) trivial
        (hheld g hg)
      rw [hflush] at this
      exact this
  show Ends schema d _ _ (flush _ >>= _) s₁
  refine (Schema.ends_call (o := .flush (Write.transfer _)) trivial).mpr ?_
  rw [hflush]
  unfold pauseForTransfer
  -- The control row is written only if it does not pause already.
  by_cases hpaused : control.state = .paused
  · rw [if_pos hpaused]
    exact ⟨_, rfl, hplanned _ (congrArg Tables.transfers view_after) fun _ hg => hg⟩
  · rw [if_neg hpaused]
    refine (Schema.ends_call (o := .flush (Write.pauseControl _)) trivial).mpr ?_
    rw [answer_flush_new (w := .pauseControl _) List.nodup_nil (fun k hk => by cases hk)]
    refine ⟨_, rfl, hplanned _ ?_ fun g hg => ?_⟩
    · show (schema.view (Transaction.after (Transaction.after s₁ _) _) d).transfers = _
      rw [view_after, view_after]
      rfl
    · cases g with
      | inl l => exact hg
      | inr k => exact List.mem_append_left _ hg

end Alone

/-! ## §2. The limits. -/

/-- What keeps twins apart that have come to the limits: their row, or else its
key. -/
def limitsGate (d₀ : Tables) : RowLock ⊕ UniqueKey :=
  if d₀.limits.isSome then .inl .transferLimits else .inr .transferLimits

/-- The statement locks or stores the limits. -/
def takesLimits : Sql → Bool
  | .selectForUpdate .transferLimits => true
  | .flush (.transferLimits _) => true
  | _ => false

/-- The limits are locked and stored only before a twin has committed. -/
def transferCondition (key : Nat) (_ : ι) (o : Sql) (b : Base ι) : Prop :=
  takesLimits o → storedTransfers key b.data = []

instance (key : Nat) (i : ι) (o : Sql) (b : Base ι) : Decidable (transferCondition key i o b) :=
  inferInstanceAs (Decidable (_ → _))

/-- Limits that make no sense are refused with a `ValueError`. -/
theorem transferLimitSettings_raises {perRequestLimit dailyLimit : ℚ} :
    RaisesValue (transferLimitSettings perRequestLimit dailyLimit) := by
  intro e h
  unfold transferLimitSettings at h
  split at h
  · cases h
    rfl
  · split at h
    · cases h
      rfl
    · split at h
      · cases h
        rfl
      · cases h

section Limits

variable {d₀ : Tables} {q : PlanRequest}

/-- Without a row of limits a new one violates no constraint. -/
theorem answer_flush_limits (h : d₀.limits = none) (limits : TransferLimitSettings) :
    schema.answer (.flush (.transferLimits limits)) (d₀, .closed)
      = (true, (d₀, Transaction.after .closed (.transferLimits limits))) := by
  refine answer_flush_new (List.nodup_singleton _) ?_
  intro k hk hmem
  rw [List.mem_singleton.mp hk] at hmem
  have hsome := mem_keys.mp hmem
  rw [Stored, show (schema.view .closed d₀).limits = none from h] at hsome
  cases hsome

/-- The first limits are stored in the transaction that asks for them. -/
theorem run_flush_limits (h : d₀.limits = none) (limits : TransferLimitSettings) :
    (do
      flush (.transferLimits limits)
      return limits : Tx TransferLimitSettings).run schema.answer (d₀, .closed)
      = (.ok limits, (d₀, Transaction.after .closed (.transferLimits limits))) := by
  unfold flush
  rw [Prog.run_bind, Prog.run_call, answer_flush_limits h]
  rfl

/-- What a request does alone about the limits. -/
theorem run_transferLimits (d₀ : Tables) (q : PlanRequest) :
    (∃ e, e.kind ≠ .integrity
        ∧ (transferLimits q).run schema.answer (d₀, .closed) = (.error e, (d₀, .closed)))
      ∨ ∃ limits s, (transferLimits q).run schema.answer (d₀, .closed) = (.ok limits, (d₀, s))
        ∧ SettingsOnly s ∧ s.Holds (limitsGate d₀) := by
  have hlock : schema.answer (.selectForUpdate .transferLimits) (d₀, .closed)
      = (d₀.limits, (d₀, ⟨locks .transferLimits d₀, [], []⟩)) := rfl
  unfold transferLimits selectForUpdate limitsGate
  rw [Prog.run_bind, Prog.run_call, hlock, Prog.run_done, locks]
  cases hlimits : d₀.limits with
  | some limits =>
      exact .inr ⟨limits, _, rfl, fun w hw => (by cases hw), List.mem_singleton_self _⟩
  | none =>
      show (∃ e, _ ∧ (pure' (transferLimitSettings _ _) >>= _ : Tx _).run schema.answer
        (d₀, .closed) = _) ∨ ∃ limits s, (pure' (transferLimitSettings _ _) >>= _ : Tx _).run
          schema.answer (d₀, .closed) = _ ∧ _
      cases hsettings : transferLimitSettings q.defaultPerRequestLimit q.defaultDailyLimit with
      | error e =>
          refine .inl ⟨e, ?_, rfl⟩
          rw [transferLimitSettings_raises e hsettings]
          exact fun h => by cases h
      | ok limits =>
          exact .inr ⟨limits, Transaction.after .closed (.transferLimits limits),
            run_flush_limits hlimits limits,
            SettingsOnly.append (fun w hw => by cases hw) (.inl ⟨limits, rfl⟩),
            List.mem_singleton_self _⟩

variable {made : ι → Option Tables} {row : ι → Option InternalTransferRow} {key : Nat} {i : ι}
  {gates : List (RowLock ⊕ UniqueKey)}

/-- Before a twin has committed, a request comes through the limits as it would
alone. -/
theorem goal_transferLimits [DecidableEq ι] {α : Type} {f : TransferLimitSettings → Tx α}
    {Q : Except Exc α → Base ι → Prop} (h : Outcomes (storedTransfers key) row made d₀)
    (herr : ∀ e b', (transferLimits q).run schema.answer (d₀, .closed) = (.error e, (d₀, .closed)) →
      b'.At none d₀ → Q (.error e) b')
    (hok : ∀ limits s b', (transferLimits q).run schema.answer (d₀, .closed)
      = (.ok limits, (d₀, s)) → b'.session i = s → b'.At none d₀ →
        goal schema d₀ made gates (transferCondition key) i (f limits) Q b')
    {b : Base ι} (hb : b.session i = .closed ∧ b.author ≠ some i) :
    goal schema d₀ made gates (transferCondition key) i (transferLimits q >>= f) Q b := by
  -- Where a twin's transfer is stored the step is not allowed.
  have hnone : ∀ {o : Sql} {j : ι} {b : Base ι}, made j = some b.data →
      transferCondition key i o b → takesLimits o → False := by
    intro o j b hmade hallowed ho
    obtain ⟨p, -, hstored⟩ := h.stores j b.data hmade
    rw [hallowed ho] at hstored
    cases hstored
  have hlock : schema.answer (.selectForUpdate .transferLimits) (d₀, .closed)
      = (d₀.limits, (d₀, ⟨locks .transferLimits d₀, [], []⟩)) := rfl
  unfold transferLimits selectForUpdate at herr hok ⊢
  rw [Prog.run_bind, Prog.run_call, hlock, Prog.run_done] at herr hok
  refine goal_open (fun h => by cases h) hb ?_ ?_
  swap
  · intro j d b₁ b' _ hmade hallowed hd _ _
    obtain ⟨-, rfl⟩ := hd
    exact (hnone hmade hallowed rfl).elim
  intro _ b₁ _ _ hs₁ hd₁
  rw [hlock] at hs₁ ⊢
  rw [show locks .transferLimits d₀ = if d₀.limits.isSome then [.transferLimits] else [] from rfl]
    at hs₁ hok herr
  cases hlimits : d₀.limits with
  | some limits =>
      rw [hlimits] at hs₁ hok
      exact hok limits _ b₁ rfl hs₁ hd₁
  | none =>
      rw [hlimits] at hs₁ hok herr
      cases hsettings : transferLimitSettings q.defaultPerRequestLimit q.defaultDailyLimit with
      | error e =>
          rw [hsettings] at herr
          exact herr e b₁ rfl hd₁
      | ok limits =>
          rw [hsettings] at hok
          have hne₁ : b₁.author ≠ some i := by
            rw [hd₁.1]
            exact fun h => by cases h
          refine goal_open (s := .closed) (fun h => by cases h) ⟨hs₁, hne₁⟩ ?_ ?_
          · intro _ b₂ _ _ hs₂ hd₂
            rw [answer_flush_limits hlimits limits] at hs₂ ⊢
            exact hok limits _ b₂ (run_flush_limits hlimits limits) hs₂ hd₂
          · intro j d b₂ b' _ hmade hallowed hd _ _
            obtain ⟨-, rfl⟩ := hd
            exact (hnone hmade hallowed rfl).elim

end Limits

/-! ## §3. Twins. -/

/-- A session closes with what it has committed. -/
theorem run_withSession {α : Type} {p : Tx α} {d : Tables} {s : Transaction} :
    (withSession p).run schema.answer (d, s)
      = ((p.run schema.answer (d, s)).1, ((p.run schema.answer (d, s)).2.1, .closed)) := by
  unfold withSession Prog.finallyQuietly
  rw [Prog.run_resume]
  rfl

/-- A transfer that is not stored yet, nor its id. -/
structure NewTransfer (d₀ : Tables) (q : PlanRequest) : Prop where
  absent : storedTransfers q.idempotencyKey d₀ = []
  transferId : .transferId q.transferId ∉ keys d₀

/-- What a request makes of the tables alone, if it stores its transfer. -/
def transferMade (d₀ : Tables) (q : PlanRequest) (observedAt : ι → Int) (i : ι) : Option Tables :=
  match (planInternalTransfer q (observedAt i)).run schema.answer (d₀, .closed) with
  | (.ok (_, true), (d, _)) => some d
  | _ => none

/-- The transfer a request stores alone. -/
def transferRow (d₀ : Tables) (q : PlanRequest) (observedAt : ι → Int) (i : ι) :
    Option InternalTransferRow :=
  match verdict (fun i => planInternalTransfer q (observedAt i)) d₀ i with
  | .ok (row, true) => some row
  | _ => none

section Plan

variable {d₀ : Tables} {q : PlanRequest} (observedAt : ι → Int)

/-- A transfer that passes the checks of its request is one session: look for
the key, then check the control, the limits and the day, then insert. -/
theorem planInternalTransfer_eq (henv : q.environment ≠ .paper) (hamount : ¬q.amount ≤ 0)
    (observedAt : Int) :
    planInternalTransfer q observedAt = withSession (do
      match ← select (.transferByKey q.idempotencyKey) with
      | some existing => do
          pure' (raiseIf (existing.requestFingerprint ≠ q.requestFingerprint)
            (.value "internal transfer idempotency key conflicts with another request"))
          return (existing, false)
      | none => do
          let limits ← transferLimits q
          planRest q henv (lt_of_not_ge hamount) observedAt limits) := by
  unfold planInternalTransfer
  rw [dif_neg henv, dif_neg hamount]
  rfl

/-- Alone, a request comes through its lookup. -/
theorem NewTransfer.run_eq (h : NewTransfer d₀ q) (observedAt : Int)
    (henv : q.environment ≠ .paper) (hamount : ¬q.amount ≤ 0) :
    (planInternalTransfer q observedAt).run schema.answer (d₀, .closed)
      = (((transferLimits q >>= planRest q henv (lt_of_not_ge hamount) observedAt).run
            schema.answer (d₀, .closed)).1,
          (((transferLimits q >>= planRest q henv (lt_of_not_ge hamount) observedAt).run
            schema.answer (d₀, .closed)).2.1, .closed)) := by
  rw [planInternalTransfer_eq henv hamount, run_withSession]
  unfold select
  rw [Prog.run_bind, Prog.run_call,
    show schema.answer (.select (.transferByKey q.idempotencyKey)) (d₀, .closed)
      = (ask (.transferByKey q.idempotencyKey) d₀, (d₀, .closed)) from rfl,
    ask_transferByKey_none h.absent]
  rfl

/-- How a request ends that runs alone. -/
theorem NewTransfer.alone (h : NewTransfer d₀ q) (i : ι) :
    (NoIntegrity (verdict (fun i => planInternalTransfer q (observedAt i)) d₀ i)
        ∧ transferMade d₀ q observedAt i = none ∧ transferRow d₀ q observedAt i = none)
      ∨ ∃ row d, verdict (fun i => planInternalTransfer q (observedAt i)) d₀ i = .ok (row, true)
        ∧ transferMade d₀ q observedAt i = some d ∧ transferRow d₀ q observedAt i = some row
        ∧ d.transfers = d₀.transfers ++ [row] ∧ row.idempotencyKey = q.idempotencyKey
        ∧ row.requestFingerprint = q.requestFingerprint := by
  -- A request that raises makes nothing.
  have hmade : ∀ {e : Exc},
      ((planInternalTransfer q (observedAt i)).run schema.answer (d₀, .closed)).1 = .error e →
      e.kind ≠ .integrity →
      NoIntegrity (verdict (fun i => planInternalTransfer q (observedAt i)) d₀ i)
        ∧ transferMade d₀ q observedAt i = none ∧ transferRow d₀ q observedAt i = none := by
    intro e hrun he
    unfold transferMade transferRow verdict Schema.alone
    generalize (planInternalTransfer q (observedAt i)).run schema.answer (d₀, .closed) = out
      at hrun ⊢
    obtain ⟨r, d, s⟩ := out
    dsimp only at hrun
    subst hrun
    exact ⟨⟨e, rfl, he⟩, rfl, rfl⟩
  by_cases henv : q.environment = .paper
  · refine .inl (hmade (e := .value "internal transfer environment must be sandbox or live") ?_
      fun h => by cases h)
    unfold planInternalTransfer
    rw [dif_pos henv]
    rfl
  by_cases hamount : q.amount ≤ 0
  · refine .inl (hmade (e := .value "internal transfer amount must be positive") ?_
      fun h => by cases h)
    unfold planInternalTransfer
    rw [dif_neg henv, dif_pos hamount]
    rfl
  -- Both checks passed: the settings are read, and the rest is run under them.
  have hrun := h.run_eq (observedAt i) henv hamount
  rw [Prog.run_bind] at hrun
  rcases run_transferLimits d₀ q with ⟨e, he, hlimits⟩ | ⟨limits, s, hlimits, hs, -⟩
  · rw [hlimits] at hrun
    exact .inl (hmade (congrArg Prod.fst hrun) he)
  rw [hlimits] at hrun
  have hends := (ends_planRest henv (lt_of_not_ge hamount) (observedAt i) limits hs h.transferId
    (storedTransfers_nil h.absent)).run
  rcases hends with ⟨⟨e, herr, he⟩, -⟩ | ⟨s', hplanned, hdata⟩
  · exact .inl (hmade ((congrArg Prod.fst hrun).trans herr) he)
  · have hresult := hplanned.result
    refine .inr ⟨Transfers.Desk.plannedRow q henv (lt_of_not_ge hamount) (observedAt i),
      schema.view s' d₀, ?_, ?_, ?_, hplanned.transfers, rfl, rfl⟩
    · exact (congrArg Prod.fst hrun).trans hresult
    · unfold transferMade
      rw [hrun]
      dsimp only
      rw [hresult, hdata]
    · unfold transferRow
      rw [show verdict (fun i => planInternalTransfer q (observedAt i)) d₀ i = .ok (_, true) from
        (congrArg Prod.fst hrun).trans hresult]

/-- What the requests of a new transfer can make of the first tables: each its
own row under one id, as the id comes from the key. -/
theorem NewTransfer.outcomes (h : NewTransfer d₀ q) :
    Outcomes (storedTransfers q.idempotencyKey) (transferRow d₀ q observedAt)
      (transferMade d₀ q observedAt) d₀ where
  absent := h.absent
  stores := by
    intro i d hd
    rcases h.alone observedAt i with ⟨-, hnone, -⟩ | ⟨row, d', -, hmade, hrow, htransfers, hkey, -⟩
    · rw [hnone] at hd
      cases hd
    · rw [hmade] at hd
      injection hd with hd
      subst hd
      refine ⟨row, hrow, ?_⟩
      unfold storedTransfers
      rw [htransfers, List.filter_append, show d₀.transfers.filter _ = [] from h.absent,
        List.nil_append, List.filter_singleton, decide_eq_true hkey, cond_true]

/-- What a request for a transfer may answer. -/
abbrev TransferAnswer [DecidableEq ι] (d₀ : Tables) (q : PlanRequest) (observedAt : ι → Int) (i : ι) :
    Except Exc (InternalTransferRow × Bool) → Base ι → Prop :=
  Answer Eq (transferRow d₀ q observedAt)
    (verdict (fun i => planInternalTransfer q (observedAt i)) d₀) i

/-- An error that the request ends in alone is one it may end in. -/
theorem NewTransfer.answer_error [DecidableEq ι] (h : NewTransfer d₀ q) {i : ι} {e : Exc} {b : Base ι}
    (he : verdict (fun i => planInternalTransfer q (observedAt i)) d₀ i = .error e)
    (hne : b.author ≠ some i) : TransferAnswer d₀ q observedAt i (.error e) b := by
  rcases h.alone observedAt i with ⟨⟨e', he', hkind⟩, -⟩ | ⟨row, _, hok, -⟩
  · rw [he] at he'
    injection he' with he'
    exact ⟨hne, he' ▸ hkind, he⟩
  · rw [he] at hok
    cases hok

/-- The gates of a transfer: its key and the limits. -/
def transferGates (key : Nat) (d₀ : Tables) : List (RowLock ⊕ UniqueKey) :=
  [.inr (.transferKey key), limitsGate d₀]

/-- Under the limits a request answers as it may: nobody else commits, and it runs as
it would alone. -/
theorem goal_planRest [DecidableEq ι] (h : NewTransfer d₀ q) (henv : q.environment ≠ .paper)
    (hamount : ¬q.amount ≤ 0) {i : ι} {limits : TransferLimitSettings} {s : Transaction}
    (hlimits : (transferLimits q).run schema.answer (d₀, .closed) = (.ok limits, (d₀, s)))
    {allow : ι → Sql → Base ι → Prop} {b : Base ι} (hb : b.session i = s ∧ b.At none d₀) :
    goal schema d₀ (transferMade d₀ q observedAt) (transferGates q.idempotencyKey d₀) allow i
      (planRest q henv (lt_of_not_ge hamount) (observedAt i) limits)
      (TransferAnswer d₀ q observedAt i) b := by
  -- The run of the whole planner splits at the limits.
  have hrun := h.run_eq (observedAt i) henv hamount
  rw [Prog.run_bind, hlimits] at hrun
  -- They are locked from now on, so no twin gets past them.
  have hlocked : SettingsOnly s ∧ s.Holds (limitsGate d₀) := by
    rcases run_transferLimits d₀ q with ⟨e, -, herr⟩ | ⟨limits', s', hok, hs⟩
    · rw [hlimits] at herr
      cases herr
    · rw [hlimits] at hok
      injection hok with _ hsession
      injection hsession with _ hsession
      exact hsession ▸ hs
  have hends := ends_planRest henv (lt_of_not_ge hamount) (observedAt i) limits hlocked.1 h.transferId
    (storedTransfers_nil h.absent)
  refine goal_mono (goal_alone (by simp [transferGates]) hlocked.2 hends ?_ hb) ?_
  · -- What is left to commit is the transfer that the twin plans alone.
    intro s' hplanned hdata
    constructor
    · intro g hg
      rcases List.mem_cons.mp hg with rfl | hg
      · exact hplanned.key
      · rw [List.mem_singleton.mp hg]
        exact hplanned.held _ hlocked.2
    · unfold transferMade
      rw [hrun]
      dsimp only
      rw [hplanned.result, hdata]
  · rintro r b₂ ⟨hr, hleft⟩
    have hverdict : verdict (fun i => planInternalTransfer q (observedAt i)) d₀ i = r :=
      (congrArg Prod.fst hrun).trans hr.symm
    -- It raised, or it has planned.
    rcases hleft with ⟨⟨e, rfl, -⟩, hd₂⟩ | ⟨s', hplanned, hd₂⟩
    · refine h.answer_error observedAt hverdict ?_
      rw [hd₂.1]
      exact fun h => by cases h
    · rw [hplanned.result] at hverdict ⊢
      refine ⟨hd₂.1, ?_⟩
      unfold transferRow
      rw [hverdict]

/-- The planner: its own transfer is stored, or that of the twin that was faster is
found at its lookup. -/
theorem goal_planInternalTransfer [DecidableEq ι] (h : NewTransfer d₀ q) (i : ι) {b : Base ι}
    (hb : b.session i = .closed ∧ b.author ≠ some i) :
    goal schema d₀ (transferMade d₀ q observedAt) (transferGates q.idempotencyKey d₀)
      (transferCondition q.idempotencyKey) i (planInternalTransfer q (observedAt i))
      (TransferAnswer d₀ q observedAt i) b := by
  have hout := h.outcomes observedAt
  by_cases henv : q.environment = .paper
  · -- The environment is refused before the database is asked.
    have heq : planInternalTransfer q (observedAt i)
        = pure' (.error (.value "internal transfer environment must be sandbox or live")) := by
      unfold planInternalTransfer
      rw [dif_pos henv]
    have hverdict := congrArg (alone schema d₀ .closed) heq
    rw [heq]
    exact h.answer_error observedAt hverdict hb.2
  by_cases hamount : q.amount ≤ 0
  · -- So is the amount.
    have heq : planInternalTransfer q (observedAt i)
        = pure' (.error (.value "internal transfer amount must be positive")) := by
      unfold planInternalTransfer
      rw [dif_neg henv, dif_pos hamount]
    have hverdict := congrArg (alone schema d₀ .closed) heq
    rw [heq]
    exact h.answer_error observedAt hverdict hb.2
  rw [planInternalTransfer_eq henv hamount]
  refine goal_mono (goal_withSession Answer.enduring ?_) fun _ _ hr => hr.2
  unfold select
  refine goal_open (fun h => by cases h) hb ?_ ?_
  · -- The lookup finds no transfer: the limits, then the rest.
    intro _ b₁ _ _ hs₁ hd₁
    rw [show (schema.answer (.select (.transferByKey q.idempotencyKey)) (d₀, .closed)).1
      = ask (.transferByKey q.idempotencyKey) d₀ from rfl, ask_transferByKey_none h.absent]
    have hne₁ : b₁.author ≠ some i := by
      rw [hd₁.1]
      exact fun h => by cases h
    refine goal_transferLimits hout ?_ ?_ ⟨hs₁, hne₁⟩
    · intro e b' hlimits hd'
      have hrun := h.run_eq (observedAt i) henv hamount
      rw [Prog.run_bind, hlimits] at hrun
      refine h.answer_error observedAt (congrArg Prod.fst hrun) ?_
      rw [hd'.1]
      exact fun h => by cases h
    · intro limits s b' hlimits hs' hd'
      exact goal_planRest observedAt h henv hamount hlimits ⟨hs', hd'⟩
  · -- A faster twin has committed: the lookup finds its row, with the same fingerprint.
    intro j d _ b₁ hj hmade _ _ hs₁ hd₁
    obtain ⟨row, hrow, hstored⟩ := hout.stores j d hmade
    rw [show (schema.answer (.select (.transferByKey q.idempotencyKey)) (d, .closed)).1
      = ask (.transferByKey q.idempotencyKey) d from rfl, ask_transferByKey_some hstored]
    have hsame : row.requestFingerprint = q.requestFingerprint := by
      rcases h.alone observedAt j with ⟨-, -, hnone⟩ | ⟨row', _, -, -, hrow', -, -, hprint⟩
      · rw [hnone] at hrow
        cases hrow
      · rw [hrow'] at hrow
        injection hrow with hrow
        rw [← hrow, hprint]
    show goal schema d₀ _ _ _ i (pure' (raiseIf _ _) >>= _) _ b₁
    rw [raiseIf_neg (not_not.mpr hsame)]
    exact ⟨j, row, hj, hd₁.1, hrow, rfl⟩

/-- Plans of one transfer are idempotent, as long as nobody locks or stores the
limits after a twin has committed. -/
theorem planInternalTransfer_idempotent [DecidableEq ι] (h : NewTransfer d₀ q)
    {c : Run ι InternalTransferRow}
    (hc : Reaches (fun i => planInternalTransfer q (observedAt i)) d₀
      (transferCondition q.idempotencyKey) c) :
    Idempotent (fun i => planInternalTransfer q (observedAt i)) (storedTransfers q.idempotencyKey)
      Eq d₀ c :=
  idempotent_of_goal (transferGates q.idempotencyKey d₀) (h.outcomes observedAt)
    (fun i => goal_planInternalTransfer observedAt h i ⟨rfl, fun h => by cases h⟩) hc

end Plan

end BasisHawk.Planning
