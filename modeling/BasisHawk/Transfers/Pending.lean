/-
  BasisHawk.Transfers.Pending
  ───────────────────────────
  The transfers inside `ReconciliationService.run_once`, which runs a pass of
  the transfer service first and lets its exceptions through.

  A claim of a planned transfer raises unless execution is paused, and the
  pause that planning sets can be gone by then: an administrator may have asked
  to resume, or the pass under way may have overwritten it.

  Main results:
    • `transfers_return` — the transfer service returns in every run in which
      execution is paused whenever a planned transfer is claimed, and what the
      exchange and the credentials answer is usable,
    • `resumed_raises` — a resume between planning and claiming ends the worker.
-/
import BasisHawk.Transfers.Evolution

namespace BasisHawk.Transfers

open Domain Lib
open Reconciliation (Account Control LiveSnapshot Result)

/-! ## §1. The two services as one worker. -/

/-- The passes of the services that follow the transfers. -/
def otherPasses : Reconciliation.Worker Exc Unit := do
  Reconciliation.ask (.elsewhere .paper)
  Reconciliation.ask (.elsewhere .multiLegPaper)
  Reconciliation.ask (.elsewhere .multiLegLive)
  let _ ← Reconciliation.LiveExecution.runOnce
  let _ ← Reconciliation.LiveCompensation.runOnce .compensator

/-- `ReconciliationService.run_once` after the pass of the transfer service. -/
def afterTransfers : Reconciliation.Worker Exc Result := do
  otherPasses
  Reconciliation.reconcileAll

/-- Whose exception ended a pass. -/
inductive Raised where
  | transfers (e : Exc)
  | reconciliation (e : Exc)

/-- The operations of both services. -/
abbrev SiteOp : Type := Op ⊕ Reconciliation.Op

abbrev SiteRep : SiteOp → Type := Sum.elim Rep Reconciliation.Rep

/-- `ReconciliationService.run_once` with the transfer service in its place. -/
def siteRunOnce (timeout : Int) : Prog SiteOp SiteRep Raised Result :=
  ((runOnce timeout).inl.mapError .transfers : Prog SiteOp SiteRep _ _) >>= fun _ =>
    afterTransfers.inr.mapError .reconciliation

/-- The tables and everything else of the reconciliation worker, with the
transfers and their limits. -/
structure Site where
  recon : Reconciliation.World
  rows : List InternalTransferRow
  limits : Option TransferLimitSettings

/-- What the transfer service sees. -/
def Site.desk (w : Site) : Desk := ⟨w.rows, w.limits, w.recon.control⟩

def Site.withDesk (w : Site) (d : Desk) : Site where
  recon := { w.recon with books := Reconciliation.writeControl d.control w.recon.books }
  rows := d.rows
  limits := d.limits

/-- The worker and everything around it. -/
def site : System SiteOp SiteRep (Act ⊕ Reconciliation.Act) Site where
  exec := fun
    | .inl o, w, r, w' => ∃ d, serve o w.recon.now w.desk r d ∧ w' = w.withDesk d
    | .inr o, w, r, w' =>
        ∃ recon, Reconciliation.exec o w.recon r recon ∧ w' = { w with recon := recon }
  env := fun
    | .inl a, w, w' => w' = w.withDesk (a.apply w.desk)
    | .inr a, w, w' =>
        ∃ recon, Reconciliation.system.env a w.recon recon ∧ w' = { w with recon := recon }
  idle := fun w => { w with recon := Reconciliation.system.idle w.recon }

/-- Nothing has been planned yet. -/
structure SiteInitial (w : Site) : Prop where
  recon : Reconciliation.Initial w.recon
  rows : w.rows = []

abbrev SiteState : Type := Config SiteOp SiteRep Raised Result Site

abbrev SiteLabel : Type := Label SiteOp SiteRep (Act ⊕ Reconciliation.Act)

/-- The configurations reached by runs whose every step is allowed. -/
abbrev SiteReachable (timeout : Int) (allow : Site → SiteLabel → Prop) : SiteState → Prop :=
  site.Reach (siteRunOnce timeout) SiteInitial allow

/-! ## §2. What a pass relies on. -/

/-- Execution is paused when a planned transfer is claimed, and no balance is
negative; the id the exchange gives a transfer fits its column and does not
change; the credentials can be read and the client can be made. -/
def TransferTimely (w : Site) : SiteLabel → Prop
  | .call (.inl (.prepareSubmission _ _ targetBalance)) _ =>
      Control.Paused w.recon.control ∧ 0 ≤ targetBalance
  | .call (.inl (.recordRemoteId id remoteId)) _ => remoteId ≠ "" ∧ remoteId.length ≤ 100
      ∧ ∀ row ∈ w.rows, row.id = id → ∀ stored ∈ row.exchangeTransferId, stored = remoteId
  | .call (.inl (.loadSecrets _)) r => Except.isOk (r : Except Exc Bool)
  | .call (.inl (.openClient _)) r => Except.isOk (r : Except Exc Unit)
  | _ => True

namespace Desk

variable {d : Desk} {row : InternalTransferRow} {now : Int}

/-- A row that is not over can be finalized. -/
theorem finalize_succeeds (hu : Table.Unique d.rows) (hrow : row ∈ d.rows)
    (hopen : row.status.isTerminal = false) {status : TransferStatus} (hterm : status.isTerminal)
    {code : Option String} (hcode : ∀ c ∈ code, c ≠ "" ∧ c.length ≤ 80) :
    ∃ new d', finalizeInternalTransfer row.id status code now d = .ok (new, d') := by
  refine ⟨finalizedRow row status code now,
    { d with rows := Table.put d.rows (finalizedRow row status code now) }, ?_⟩
  unfold finalizeInternalTransfer
  simp only [raiseIf_bind_eq_ok, found_bind_eq_ok]
  refine ⟨by rw [hterm]; exact Bool.noConfusion, ?_, row, (Table.find?_eq_some_iff hu).mpr ⟨hrow, rfl⟩, ?_⟩
  · rintro ⟨c, hc, h⟩
    obtain ⟨hne, hlen⟩ := hcode c hc
    exact h.elim hne (by omega)
  · rw [if_neg (by rw [hopen]; exact Bool.noConfusion)]

/-- A planned row can be claimed while execution is paused. -/
theorem prepare_succeeds (hu : Table.Unique d.rows) (hrow : row ∈ d.rows)
    (hstatus : row.status = .planned) (hpaused : Control.Paused d.control) {source target : ℚ}
    (hsource : row.amount ≤ source) (htarget : 0 ≤ target) :
    prepareInternalTransferSubmission row.id source target now d
      = .ok (some (submittedRow row source target now),
          { d with rows := Table.put d.rows (submittedRow row source target now) }) := by
  have hpos : 0 ≤ source := le_trans (le_of_lt row.positive) hsource
  have hrowid : Table.find? d.rows row.id = some row :=
    (Table.find?_eq_some_iff hu).mpr ⟨hrow, rfl⟩
  have hfind : (Table.find? d.rows row.id).filter (·.status = .planned) = some row := by
    rw [hrowid]
    simp [hstatus]
  unfold prepareInternalTransferSubmission
  rw [raiseIf_bind_eq_ok]
  refine ⟨by rintro (h | h) <;> linarith, ?_⟩
  rw [hfind]
  simp only [raiseIf_bind_eq_ok]
  exact ⟨not_not.mpr hpaused, not_lt.mpr hsource, trivial⟩

/-- A usable id can be recorded for an awaited row. -/
theorem record_succeeds (hu : Table.Unique d.rows) (hrow : row ∈ d.rows)
    (hstatus : row.status.isAwaiting) {remoteId : String} (hne : remoteId ≠ "")
    (hlen : remoteId.length ≤ 100) (hsame : ∀ stored ∈ row.exchangeTransferId, stored = remoteId) :
    recordInternalTransferRemoteId row.id remoteId now d
      = .ok (recordedRow row remoteId now,
          { d with rows := Table.put d.rows (recordedRow row remoteId now) }) := by
  unfold recordInternalTransferRemoteId
  simp only [raiseIf_bind_eq_ok, found_bind_eq_ok]
  refine ⟨hne, row, (Table.find?_eq_some_iff hu).mpr ⟨hrow, rfl⟩, by rw [hstatus]; exact Bool.noConfusion, ?_,
    by omega, rfl⟩
  rintro ⟨stored, hstored, h⟩
  exact h (hsame stored hstored)

end Desk

/-! ## §3. A pass of the transfers returns. -/

/-- The keys are unique. -/
def Keys (w : Site) : Prop := Table.Unique w.rows

/-- The site, as far as it is timely, with the operations of the transfers. -/
abbrev timely : System Op Rep (Act ⊕ Reconciliation.Act) Site := (site.restrict TransferTimely).left

/-- A program of the transfer service returns. -/
def Returns {α : Type} (r : Except Exc α) : Prop := ∃ a, r = .ok a

variable {timeout : Int} {row : InternalTransferRow} {α : Type}

/-- The guarantee that a program returns, from `w` on. -/
abbrev Safely (p : Worker α) (w : Site) : Prop :=
  timely.wp Keys (fun _ _ => True) p (fun r _ => Returns r) w

/-- Every step keeps the keys unique. -/
theorem keys_preserved :
    (site.restrict TransferTimely).Preserves Keys fun _ _ => True where
  act := by
    rintro (a | a) w w' ⟨h, -⟩ hu
    · have hw : w' = w.withDesk (a.apply w.desk) := h
      rw [hw]
      exact (a.apply_evolves (d := w.desk) hu).unique
    · obtain ⟨recon, -, rfl⟩ := h
      exact hu
  call := by
    rintro (o | o) w r w' ⟨h, -⟩ - hu
    · obtain ⟨d, hserve, rfl⟩ := h
      exact (serve_evolves (d := w.desk) hu hserve).unique
    · obtain ⟨recon, -, rfl⟩ := h
      exact hu
  idle := fun _ hu => hu

/-- Only the worker touches the rows that are there. -/
theorem row_stable : timely.Stable fun w => row ∈ w.rows := by
  rintro (a | a) w w' ⟨h, -⟩ hrow
  · have hw : w' = w.withDesk (a.apply w.desk) := h
    rw [hw]
    show row ∈ (a.apply w.desk).rows
    rcases a.apply_cases w.desk with hsame | ⟨new, -, -, hrows, -⟩
    · rw [hsame]
      exact hrow
    · rw [hrows]
      exact List.mem_append_left _ hrow
  · obtain ⟨recon, -, rfl⟩ := h
    exact hrow

/-- The rule for an operation on the row in hand. -/
theorem safely_call {o : Op} {k : Rep o → Worker α} {w : Site} (hrow : row ∈ w.rows)
    (h : ∀ w r d, Keys w → row ∈ w.rows → TransferTimely w (.call (.inl o) r) →
      serve o w.recon.now w.desk r d → Safely (k r) (w.withDesk d)) : Safely (.call o k) w := by
  refine System.wp_call_of_stable row_stable hrow (fun _ _ _ => trivial) ?_
  rintro w₁ r w₂ hu hrow₁ ⟨⟨d, hserve, rfl⟩, htimely⟩ -
  exact h w₁ r d hu hrow₁ htimely hserve

/-- An operation that leaves the tables alone. -/
theorem safely_ask {o : Op} {k : Rep o → Worker α} {w : Site} (hrow : row ∈ w.rows)
    (hfree : ∀ now d r d', serve o now d r d' → d' = d)
    (h : ∀ w r, row ∈ w.rows → TransferTimely w (.call (.inl o) r) → Safely (k r) w) :
    Safely (.call o k) w := by
  refine safely_call hrow fun w₁ r d hu hrow₁ htimely hserve => ?_
  rw [hfree _ _ _ _ hserve]
  exact h w₁ r hrow₁ htimely

/-- A pass may end with the row in hand finalized. -/
theorem safely_finalize {w : Site} (hrow : row ∈ w.rows) (hopen : row.status.isTerminal = false)
    {status : TransferStatus} {code : Option String} {k : Rep (.finalize row.id status code) → Worker α}
    (hk : ∀ new, ∃ x, k (.ok new) = .done (.ok x)) (hterm : status.isTerminal)
    (hcode : ∀ c ∈ code, c ≠ "" ∧ c.length ≤ 80) :
    Safely (.call (.finalize row.id status code) k) w := by
  refine safely_call hrow fun w₁ r d hu hrow₁ _ hserve => ?_
  obtain ⟨new, d', htx⟩ := @Desk.finalize_succeeds w₁.desk _ w₁.recon.now hu hrow₁ hopen
    _ hterm _ hcode
  rcases commit_cases hserve with ⟨new, rfl, -⟩ | ⟨e, -, herr, -⟩
  · obtain ⟨x, hx⟩ := hk new
    rw [hx]
    exact ⟨x, rfl⟩
  · rw [htx] at herr
    cases herr

/-- A failure on an open row is written down without an exception. -/
theorem safely_retryOrReview {w : Site} (hrow : row ∈ w.rows) (hopen : row.status.isTerminal = false)
    (action : TransferAction) {code : String} (hcode : code ≠ "" ∧ code.length ≤ 80) :
    Safely (retryOrReview timeout row action code) w := by
  refine safely_ask hrow (fun _ _ _ _ h => h.2) fun w₁ now hrow₁ _ => ?_
  show Safely (if _ then _ else _) w₁
  split
  · exact safely_finalize hrow₁ hopen (fun _ => ⟨_, rfl⟩) rfl fun c hc => by cases hc; exact hcode
  · exact ⟨_, rfl⟩

/-- The confirmation of an arrival returns. -/
theorem safely_confirmArrival {w : Site} (hrow : row ∈ w.rows)
    (hopen : row.status.isTerminal = false) : Safely (confirmArrival timeout row) w := by
  refine safely_ask hrow (fun _ _ _ _ h => h) fun w₁ r hrow₁ _ => ?_
  rcases r with e | s
  · exact ⟨_, rfl⟩
  · show Safely (if _ then _ else _) w₁
    split
    · exact safely_finalize hrow₁ hopen (fun _ => ⟨_, rfl⟩) rfl nofun
    · exact safely_retryOrReview hrow₁ hopen _ (by decide)

/-- The id the exchange gives is recorded, and the pass goes on with the row. -/
theorem safely_record {k : InternalTransferRow → Worker α} {remoteId : String} {w : Site}
    (hrow : row ∈ w.rows) (hstatus : row.status.isAwaiting)
    (hk : ∀ w (persisted : InternalTransferRow), persisted ∈ w.rows → persisted.status.isAwaiting →
      Safely (k persisted) w) : Safely (recordRemoteId row.id remoteId >>= k) w := by
  refine safely_call hrow fun w₁ r d hu hrow₁ htimely hserve => ?_
  obtain ⟨hne, hlen, hsame⟩ := htimely
  have htx := @Desk.record_succeeds w₁.desk _ w₁.recon.now hu hrow₁ hstatus _ hne hlen
    (hsame row hrow₁ rfl)
  rcases commit_cases hserve with ⟨persisted, rfl, h⟩ | ⟨e, -, h, -⟩
  · rw [htx] at h
    cases h
    refine hk _ _ ?_ rfl
    exact Table.mem_put.mpr (.inl ⟨rfl, row, hrow₁, rfl⟩)
  · rw [htx] at h
    cases h

/-- So does the submission of a row that was claimed. -/
theorem safely_submitPrepared {w : Site} {claimed : InternalTransferRow} (hrow : claimed ∈ w.rows)
    (hid : claimed.id = row.id) (hstatus : claimed.status.isAwaiting) :
    Safely (submitPrepared timeout row) w := by
  have hopen := TransferStatus.isTerminal_of_isAwaiting hstatus
  refine safely_ask hrow (fun _ _ _ _ h => h) fun w₁ r hrow₁ _ => ?_
  rcases r with e | submission
  · show Safely (if _ then _ else _) w₁
    split
    · exact ⟨_, rfl⟩
    · rw [← hid]
      exact safely_finalize hrow₁ hopen (fun _ => ⟨_, rfl⟩) rfl fun c hc => by cases hc; decide
  · show Safely (recordRemoteId row.id submission.transferId >>= _) w₁
    rw [← hid]
    refine safely_record hrow₁ hstatus fun w₂ persisted hp hs => ?_
    show Safely (if _ then _ else _) w₂
    split
    · exact safely_confirmArrival hp (TransferStatus.isTerminal_of_isAwaiting hs)
    · exact ⟨_, rfl⟩

/-- So does the submission after a look at the account. -/
theorem safely_submitSeen {w : Site} (hrow : row ∈ w.rows) (hstatus : row.status = .planned)
    (s : LiveSnapshot) (state : Accounts.RemoteTradingState) :
    Safely (submitSeen timeout row s state) w := by
  have hopen : row.status.isTerminal = false := by rw [hstatus]; rfl
  unfold submitSeen
  split
  · exact safely_finalize hrow hopen (fun _ => ⟨_, rfl⟩) rfl fun c hc => by cases hc; decide
  split
  · exact ⟨_, rfl⟩
  split
  · exact safely_finalize hrow hopen (fun _ => ⟨_, rfl⟩) rfl fun c hc => by cases hc; decide
  next hsource =>
    refine safely_call hrow fun w₁ r d hu hrow₁ htimely hserve => ?_
    obtain ⟨hpaused, htarget⟩ := htimely
    have htx := @Desk.prepare_succeeds w₁.desk _ w₁.recon.now hu hrow₁ hstatus hpaused _ _
      (not_lt.mp hsource) htarget
    rcases commit_cases hserve with ⟨claimed, rfl, h⟩ | ⟨e, -, h, -⟩
    · rw [htx] at h
      cases h
      have hclaimed : Desk.submittedRow row (transferBalances row s).1 (transferBalances row s).2
          w₁.recon.now ∈ Table.put w₁.rows (Desk.submittedRow row (transferBalances row s).1
            (transferBalances row s).2 w₁.recon.now) :=
        Table.mem_put.mpr (.inl ⟨rfl, row, hrow₁, rfl⟩)
      exact safely_submitPrepared hclaimed rfl rfl
    · rw [htx] at h
      cases h

/-- So it does from the opening of the client on. -/
theorem safely_submitWithClient {w : Site} (hrow : row ∈ w.rows) (hstatus : row.status = .planned) :
    Safely (submitWithClient timeout row) w := by
  refine safely_ask hrow (fun _ _ _ _ h => h) fun w₁ r hrow₁ _ => ?_
  rcases r with e | s
  · exact ⟨_, rfl⟩
  refine safely_ask hrow₁ (fun _ _ _ _ h => h) fun w₂ r hrow₂ _ => ?_
  rcases r with e | state
  · exact ⟨_, rfl⟩
  · exact safely_submitSeen hrow₂ hstatus s state

/-- The confirmation returns, whatever the exchange shows. -/
theorem safely_confirmSeen {w : Site} (hrow : row ∈ w.rows) (hopen : row.status.isTerminal = false)
    (remote : RemoteInternalTransfer) : Safely (confirmSeen timeout row remote) w := by
  unfold confirmSeen
  split
  · exact safely_finalize hrow hopen (fun _ => ⟨_, rfl⟩) rfl fun c hc => by cases hc; decide
  · exact safely_confirmArrival hrow hopen
  · exact safely_retryOrReview hrow hopen _ (by decide)
  · exact safely_retryOrReview hrow hopen _ (by decide)

/-- So it does from the opening of the client on. -/
theorem safely_confirmWithClient {w : Site} (hrow : row ∈ w.rows)
    (hstatus : row.status.isAwaiting) : Safely (confirmWithClient timeout row) w := by
  have hopen := TransferStatus.isTerminal_of_isAwaiting hstatus
  unfold confirmWithClient
  dsimp only
  split
  · exact safely_finalize hrow hopen (fun _ => ⟨_, rfl⟩) rfl fun c hc => by cases hc; decide
  refine safely_ask hrow (fun _ _ _ _ h => h) fun w₁ r hrow₁ _ => ?_
  rcases r with e | remote
  · exact safely_retryOrReview hrow₁ hopen _ (by decide)
  · show Safely (if _ then _ else _) w₁
    split
    · refine safely_record hrow₁ hstatus fun w₂ persisted hp hs => ?_
      exact safely_confirmSeen hp (TransferStatus.isTerminal_of_isAwaiting hs) remote
    · exact safely_confirmSeen hrow₁ hopen remote

/-- With a client or without one. -/
theorem safely_withClient {w : Site} (hrow : row ∈ w.rows) (hopen : row.status.isTerminal = false)
    {body : Worker InternalTransferExecutionResult}
    (hbody : ∀ w, row ∈ w.rows → Safely body w) : Safely (withClient row body) w := by
  refine safely_ask hrow (fun _ _ _ _ h => h) fun w₁ r hrow₁ htimely => ?_
  rcases r with e | known
  · cases htimely
  cases known with
  | false =>
      exact safely_finalize hrow₁ hopen (fun _ => ⟨_, rfl⟩) rfl fun c hc => by cases hc; decide
  | true =>
      refine safely_ask hrow₁ (fun _ _ _ _ h => h) fun w₂ r hrow₂ htimely => ?_
      rcases r with e | ⟨⟩
      · cases htimely
      · show Safely (body.finallyQuietly _) w₂
        refine System.wp_resume _ _ _ _ (System.wp_mono _ (fun r w h => ?_) w₂ (hbody w₂ hrow₂))
        exact fun w₃ _ _ => ⟨trivial, fun _ _ _ _ => h⟩

/-- A pass of the transfer service returns in every timely run. -/
theorem safely_runOnce (w : Site) : Safely (runOnce timeout) w := by
  intro w₁ _ _
  refine ⟨trivial, ?_⟩
  rintro r w₂ ⟨⟨d, ⟨hnext, rfl⟩, rfl⟩, -⟩ -
  rcases r with _ | active
  · intro w₃ _ _
    refine ⟨trivial, ?_⟩
    rintro r w₄ ⟨⟨d, ⟨hnext, rfl⟩, rfl⟩, -⟩ -
    rcases r with _ | planned
    · exact ⟨_, rfl⟩
    · have hstatus : planned.status = .planned := List.mem_singleton.mp hnext.2.1
      have hrow : planned ∈ (w₃.withDesk w₃.desk).rows := hnext.1
      refine safely_withClient hrow (by rw [hstatus]; rfl) fun w hrow => ?_
      exact safely_submitWithClient hrow hstatus
  · have hstatus : active.status.isAwaiting := by
      have hmem := hnext.2.1
      cases hs : active.status <;> rw [hs] at hmem <;> revert hmem <;> decide
    have hrow : active ∈ (w₁.withDesk w₁.desk).rows := hnext.1
    refine safely_withClient hrow (TransferStatus.isTerminal_of_isAwaiting hstatus) fun w hrow => ?_
    exact safely_confirmWithClient hrow hstatus

/-! ## §4. All runs. -/

/-- A pass does not end in an exception of the transfers. -/
def Reaches (r : Except Raised Result) : Prop := ∀ e, r ≠ .error (.transfers e)

/-- So `run_once` gets past the transfer service; what comes after raises
exceptions of its own only. -/
theorem wp_siteRunOnce (w : Site) :
    (site.restrict TransferTimely).wp Keys (fun _ _ => True) (siteRunOnce timeout)
      (fun r _ => Reaches r) w := by
  refine System.wp_bind _ _ _ (System.wp_resume _ _ _ _ (System.wp_inl _ _ w ?_))
  refine System.wp_mono _ (fun r w' h => ?_) w (safely_runOnce w)
  obtain ⟨result, rfl⟩ := h
  -- The other passes call nothing of the transfer service.
  refine System.wp_resume _ _ _ w' (System.wp_mono _ (fun r w'' _ => ?_) w'
    (System.wp_inr_free (fun _ _ => trivial) afterTransfers w'))
  cases r with
  | error e => exact fun e' h => by cases h
  | ok result => exact fun e' h => by cases h

/-- In a first site the keys are unique. -/
theorem SiteInitial.keys {w : Site} (h : SiteInitial w) : Keys w := by
  unfold Keys
  rw [h.rows]
  exact List.nodup_nil

/-- In every run whose steps are timely, the transfer service returns, and
`run_once` goes on to the accounts. -/
theorem transfers_return {c : SiteState} (hc : SiteReachable timeout TransferTimely c) :
    ∀ e, c.pass ≠ some (.done (.error (.transfers e))) := by
  intro e hpass
  obtain ⟨w, p⟩ := c
  cases hpass
  exact System.Reach.result keys_preserved (fun _ h => h.keys) (fun w _ => wp_siteRunOnce w)
    hc.restrict e rfl

/-! ## §5. Concrete runs. -/

instance (w : Site) (l : SiteLabel) : Decidable (TransferTimely w l) :=
  match l with
  | .call (.inl (.prepareSubmission ..)) _ => inferInstanceAs (Decidable (_ ∧ _))
  | .call (.inl (.recordRemoteId ..)) _ => inferInstanceAs (Decidable (_ ∧ _ ∧ _))
  | .call (.inl (.loadSecrets _)) _ => inferInstanceAs (Decidable (_ = _))
  | .call (.inl (.openClient _)) _ => inferInstanceAs (Decidable (_ = _))
  | .call (.inl (.nextInternalTransfer _)) _ | .call (.inl (.finalize ..)) _
  | .call (.inl .now) _ | .call (.inl (.snapshot _)) _ | .call (.inl (.tradingState _)) _
  | .call (.inl (.submitInternalTransfer ..)) _ | .call (.inl (.internalTransferStatus ..)) _
  | .call (.inl (.close _)) _ | .call (.inr _) _ | .act _ | .start | .finish | .crash =>
      inferInstanceAs (Decidable True)

namespace Sample

/-- One account, with nothing to complain about. -/
def calm : Reconciliation.Outside where
  accounts := [account]
  snapshot := .ok Reconciliation.Sample.snapshot

/-- The answers of a pass. -/
def siteAnswers : (o : SiteOp) → Site → SiteRep o × Site
  | .inl o, w =>
      let r := respond (exchange 100 10) w.recon.now o w.desk
      (r.1, w.withDesk r.2)
  | .inr o, w =>
      let r := Reconciliation.Sample.answers calm o w.recon
      (r.1, { w with recon := r.2 })

/-- The sample answers are answers that the service can get. -/
theorem exec_siteAnswers (o : SiteOp) (w : Site) :
    site.exec o w (siteAnswers o w).1 (siteAnswers o w).2 := by
  cases o with
  | inl o => exact ⟨_, serve_respond _ _ o w.desk, rfl⟩
  | inr o => exact ⟨_, Reconciliation.exec_answer (Reconciliation.Sample.outside calm) true o w.recon, rfl⟩

def fresh : Site := ⟨Reconciliation.Sample.empty, [], none⟩

/-- A whole pass. -/
def pass (w : Site) : SiteState := System.play siteAnswers (fun _ => false) (siteRunOnce 0) w

/-- A pass ends, and a transfer is planned. -/
def planned (c : SiteState) : Site :=
  let w := site.idle c.world
  w.withDesk ((Act.plan request 0).apply w.desk)

/-- An administrator asks to resume. -/
def resumed (w : Site) : Site :=
  { w with recon := (Reconciliation.Act.control .resume).apply w.recon }

/-- The exception of the transfers that ended the pass. -/
def raised (c : SiteState) : Option Exc :=
  match c.pass with
  | some (.done (.error (.transfers e))) => some e
  | _ => none

theorem pass_of_raised {c : SiteState} {e : Exc} (h : raised c = some e) :
    c.pass = some (.done (.error (.transfers e))) := by
  unfold raised at h
  split at h
  · next hpass =>
      cases h
      exact hpass
  · cases h

variable {allow : Site → SiteLabel → Prop} [∀ w l, Decidable (allow w l)]

theorem reached_planned (hfree : ∀ w, allow w .start ∧ allow w .crash)
    (hf : System.follows siteAnswers (fun _ => false) allow (siteRunOnce 0) fresh)
    (hplan : ∀ w, allow w (.act (.inl (.plan request 0)))) :
    SiteReachable 0 allow ⟨planned (pass fresh), none⟩ := by
  have hfresh : SiteReachable 0 allow ⟨fresh, none⟩ :=
    .init ⟨Reconciliation.Sample.empty_initial, rfl⟩
  have hpass : SiteReachable 0 allow (pass fresh) :=
    System.Reach.run hfresh (System.Run.pass exec_siteAnswers (hfree _).1 hf)
  have hidle := System.Reach.run hpass
    (System.Run.leave (System.play_isSome _ _) (hfree _).2)
  have henv : site.env (.inl (.plan request 0)) (site.idle (pass fresh).world) (planned (pass fresh)) :=
    rfl
  exact .step hidle (.act henv) (hplan _)

end Sample

/-- A transfer that is claimed under the pause of its planning. -/
theorem transfers_return_planned : ∃ c, SiteReachable 0 TransferTimely c
    ∧ (c.world.rows.map (·.status)) = [.pending] ∧ ∀ e, c.pass ≠ some (.done (.error (.transfers e))) := by
  have hplanned : SiteReachable 0 TransferTimely ⟨Sample.planned (Sample.pass Sample.fresh), none⟩ :=
    Sample.reached_planned (fun _ => ⟨trivial, trivial⟩) (by decide) fun _ => trivial
  have hc : SiteReachable 0 TransferTimely
      (Sample.pass (Sample.planned (Sample.pass Sample.fresh))) :=
    System.Reach.run hplanned (System.Run.pass Sample.exec_siteAnswers trivial (by decide +kernel))
  exact ⟨_, hc, by decide +kernel, transfers_return hc⟩

/-- Execution was ready, a transfer was planned, an administrator asked to
resume: the next pass ends in the exception of the claim, and reconciles
nothing. -/
theorem resumed_raises :
    ¬∀ timeout c, SiteReachable timeout System.anyStep c →
      ∀ e, c.pass ≠ some (.done (.error (.transfers e))) := by
  intro h
  have hplanned : SiteReachable 0 System.anyStep ⟨Sample.planned (Sample.pass Sample.fresh), none⟩ :=
    Sample.reached_planned (fun _ => ⟨trivial, trivial⟩) (by decide) fun _ => trivial
  have hresumed : SiteReachable 0 System.anyStep
      ⟨Sample.resumed (Sample.planned (Sample.pass Sample.fresh)), none⟩ := by
    refine .step hplanned (.act (a := .inr (.control .resume)) ?_) trivial
    exact ⟨_, ⟨trivial, rfl⟩, rfl⟩
  have hc : SiteReachable 0 System.anyStep
      (Sample.pass (Sample.resumed (Sample.planned (Sample.pass Sample.fresh)))) :=
    System.Reach.run hresumed (System.Run.pass Sample.exec_siteAnswers trivial (by decide +kernel))
  have hraised : Sample.raised (Sample.pass (Sample.resumed (Sample.planned (Sample.pass Sample.fresh))))
      = some (.value "internal transfer submission requires paused execution") := by
    decide +kernel
  exact h 0 _ hc _ (Sample.pass_of_raised hraised)

end BasisHawk.Transfers
