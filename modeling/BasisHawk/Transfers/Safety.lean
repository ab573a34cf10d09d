/-
  BasisHawk.Transfers.Safety
  ──────────────────────────
  The service among planners, administrators and further workers.

  Any number of passes may run at once; each may crash between any two of its
  operations, and the exchange answers as it likes.  The history records which
  worker has claimed a row without having called the exchange for it yet, the
  calls themselves, and the balances an account showed while its transfer was
  awaited.

  Main results:
    • `Reachable.safe` — the invariant of all runs,
    • `transfer_safety` — one submission for a row at most, the limits hold at
      the moment of planning, completion only after the expected balance was
      shown, terminal statuses are absorbing.
-/
import BasisHawk.Lib.Pool
import BasisHawk.Transfers.Evolution

namespace BasisHawk.Transfers

open Domain Lib
open Reconciliation (Account LiveSnapshot)

variable {ι : Type} {timeout : Int}

/-! ## §1. The pool. -/

/-- What happened so far. -/
structure History (ι : Type) where
  /-- The worker that moved a row to `submitted` and has not called the
  exchange for it yet. -/
  claims : Nat → Option ι := fun _ => none
  /-- The ids `submit_internal_transfer` was called with. -/
  submitted : List Nat := []
  /-- The snapshots of a row's account received while the row was awaited. -/
  shown : Nat → List LiveSnapshot := fun _ => []

structure World (ι : Type) where
  desk : Desk
  now : Int
  history : History ι

/-- The account's transfer `id` may be at the exchange. -/
def Desk.Awaits (d : Desk) (a : Account) (id : Nat) : Prop :=
  ∃ row ∈ d.rows, row.id = id ∧ row.account = a ∧ row.status.isAwaiting

instance (d : Desk) (a : Account) (id : Nat) : Decidable (d.Awaits a id) :=
  inferInstanceAs (Decidable (∃ row ∈ d.rows, _))

/-- The history after an operation of worker `i`. -/
def History.after (h : History ι) (i : ι) (d : Desk) : (o : Op) → Rep o → History ι
  | .prepareSubmission id _ _, .ok (some _) =>
      { h with claims := Function.update h.claims id (some i) }
  | .submitInternalTransfer _ id _ _, _ =>
      { h with
        claims := Function.update h.claims id none
        submitted := id :: h.submitted }
  | .snapshot a, .ok s =>
      { h with shown := fun id => if d.Awaits a id then s :: h.shown id else h.shown id }
  | _, _ => h

/-- What else happens: a transfer is planned or the limits change, someone
writes the control state, or time passes. -/
inductive Happening where
  | act (a : Act)
  | control (c : Reconciliation.Control)
  | clock (now : Int)

/-- The workers and everything around them. -/
def pool (ι : Type) [DecidableEq ι] : Pool ι Op Rep Happening (World ι) where
  exec := fun i o w r w' => serve o w.now w.desk r w'.desk ∧ w'.now = w.now
    ∧ w'.history = w.history.after i w.desk o r
  env := fun
    | .act a, w, w' => w' = { w with desk := a.apply w.desk }
    | .control c, w, w' => w' = { w with desk := { w.desk with control := c } }
    | .clock now, w, w' => w' = { w with now := now }
  idle := fun i w => { w with history := { w.history with
    claims := fun id => if w.history.claims id = some i then none else w.history.claims id } }

/-- Nothing has been planned yet. -/
structure Initial (w : World ι) : Prop where
  rows : w.desk.rows = []
  history : w.history = {}

/-- What the workers and the others can bring about. -/
abbrev Reachable (ι : Type) [DecidableEq ι] (timeout : Int) :
    Pool.Config ι Op Rep Exc InternalTransferExecutionResult (World ι) → Prop :=
  (pool ι).Reach (runOnce timeout) Initial

/-- One step of the pool. -/
abbrev Steps (ι : Type) [DecidableEq ι] (timeout : Int) :
    Pool.Config ι Op Rep Exc InternalTransferExecutionResult (World ι) →
      Pool.Config ι Op Rep Exc InternalTransferExecutionResult (World ι) → Prop :=
  (pool ι).Step (runOnce timeout)

/-! ## §2. The invariant. -/

/-- A snapshot of the row's account showed the balance it waits for. -/
def World.Arrived (w : World ι) (row : InternalTransferRow) : Prop :=
  ∃ expected ∈ row.expectedTargetBalance, ∃ s ∈ w.history.shown row.id,
    expected ≤ (transferBalances row s).2

/-- A row that has left `planned`. -/
def Desk.Started (d : Desk) (id : Nat) : Prop := ∃ row ∈ d.rows, row.id = id ∧ row.status ≠ .planned

structure Safe (w : World ι) : Prop where
  unique : Table.Unique w.desk.rows
  /-- A claim is for a call that has not been made. -/
  claimed : ∀ id i, w.history.claims id = some i → id ∉ w.history.submitted ∧ w.desk.Started id
  called : ∀ id ∈ w.history.submitted, w.desk.Started id
  once : w.history.submitted.Nodup
  completed : ∀ row ∈ w.desk.rows, row.status = .completed → w.Arrived row

/-- What an operation of worker `i` needs. -/
def Guard (i : ι) : Op → World ι → Prop
  | .submitInternalTransfer _ id _ _, w => w.history.claims id = some i
  | .finalize id .completed _, w => ∃ row ∈ w.desk.rows, row.id = id
      ∧ (row.status.isTerminal ∨ w.Arrived row)
  | _, _ => True

/-- A row that has left `planned` does not come back to it. -/
theorem Desk.Started.evolves {d d' : Desk} (he : Evolves d d') {id : Nat} (h : d.Started id) :
    d'.Started id := by
  obtain ⟨row, hrow, hid, hs⟩ := h
  obtain ⟨row', hrow', hm⟩ := he.kept row hrow
  exact ⟨row', hrow', hm.id.trans hid, (hm.started hs).1⟩

/-- More snapshots, the same balance to reach. -/
theorem World.Arrived.mono {w w' : World ι} {row row' : InternalTransferRow}
    (hshown : ∀ id, w.history.shown id ⊆ w'.history.shown id) (hid : row'.id = row.id)
    (hdir : row'.direction = row.direction)
    (hexp : row'.expectedTargetBalance = row.expectedTargetBalance) (h : w.Arrived row) :
    w'.Arrived row' := by
  obtain ⟨expected, he, s, hs, hle⟩ := h
  refine ⟨expected, hexp ▸ he, s, hid ▸ hshown row.id hs, ?_⟩
  unfold transferBalances at hle ⊢
  rw [hdir]
  exact hle

/-- The snapshots a history has are never lost. -/
theorem History.shown_after (h : History ι) (i : ι) (d : Desk) (o : Op) (r : Rep o) (id : Nat) :
    h.shown id ⊆ (h.after i d o r).shown id := by
  unfold History.after
  split
  · exact List.Subset.refl _
  · exact List.Subset.refl _
  · dsimp only
    split
    · exact List.subset_cons_self _ _
    · exact List.Subset.refl _
  · exact List.Subset.refl _

/-- Only calls and claims change what is claimed and called. -/
theorem History.after_eq (h : History ι) (i : ι) (d : Desk) {o : Op} (r : Rep o)
    (hprepare : ∀ id source target, o ≠ .prepareSubmission id source target)
    (hsubmit : ∀ a id dir amount, o ≠ .submitInternalTransfer a id dir amount) :
    (h.after i d o r).claims = h.claims ∧ (h.after i d o r).submitted = h.submitted := by
  unfold History.after
  split
  · exact absurd rfl (hprepare _ _ _)
  · exact absurd rfl (hsubmit _ _ _ _)
  · exact ⟨rfl, rfl⟩
  · exact ⟨rfl, rfl⟩

/-- The table evolves, the calls and the claims stay. -/
theorem Safe.of_evolves {w w' : World ι} (h : Safe w) (he : Evolves w.desk w'.desk)
    (hclaims : w'.history.claims = w.history.claims)
    (hcalls : w'.history.submitted = w.history.submitted)
    (hdone : ∀ row ∈ w'.desk.rows, row.status = .completed → w'.Arrived row) : Safe w' := by
  refine ⟨he.unique, ?_, ?_, ?_, hdone⟩
  · intro id i hc
    rw [hclaims] at hc
    rw [hcalls]
    exact ⟨(h.claimed id i hc).1, (h.claimed id i hc).2.evolves he⟩
  · intro id hid
    rw [hcalls] at hid
    exact (h.called id hid).evolves he
  · rw [hcalls]
    exact h.once

variable [DecidableEq ι]

/-- A completed row has arrived, after any operation that meets its guard. -/
theorem Safe.completed_after {w w' : World ι} (h : Safe w) {i : ι} {o : Op} {r : Rep o}
    (hex : (pool ι).exec i o w r w') (hg : Guard i o w) :
    ∀ row ∈ w'.desk.rows, row.status = .completed → w'.Arrived row := by
  obtain ⟨hserve, -, hhist⟩ := hex
  have hshown : ∀ id, w.history.shown id ⊆ w'.history.shown id := by
    rw [hhist]
    exact History.shown_after _ _ _ _ _
  intro row' hrow' hdone
  rcases serve_completed h.unique hserve hrow' hdone with hold | ⟨row, hrow, hopen, code, rfl, rfl⟩
  · exact (h.completed row' hold hdone).mono hshown rfl rfl rfl
  · -- The guard is about the row that is completed here.
    obtain ⟨known, hknown, hid, harr⟩ := hg
    rw [h.unique.eq hknown hrow hid] at harr
    exact (harr.resolve_left (by rw [hopen]; nofun)).mono hshown rfl rfl rfl

/-- A claim of worker `i` is for a row that has left `planned`, and that no one
has claimed or called the exchange for. -/
theorem Safe.prepared {w w' : World ι} (h : Safe w) {i : ι} {id : Nat} {source target : ℚ}
    {r : Rep (.prepareSubmission id source target)}
    (hex : (pool ι).exec i (.prepareSubmission id source target) w r w') : Safe w' := by
  have hdone := h.completed_after hex trivial
  obtain ⟨hserve, -, hhist⟩ := hex
  have he := serve_evolves h.unique hserve
  rcases commit_cases hserve with ⟨claimed, rfl, htx⟩ | ⟨e, rfl, -, -⟩
  · rcases Desk.prepare_ok htx with ⟨rfl, -⟩ | ⟨row, hrow, hid, hstatus, rfl, hd⟩
    · exact h.of_evolves he (by rw [hhist]; rfl) (by rw [hhist]; rfl) hdone
    · -- The row was planned: nothing is claimed or called for it.
      have hfresh : ¬w.desk.Started id := by
        rintro ⟨other, hother, hoid, hs⟩
        rw [h.unique.eq hother hrow (hoid.trans hid.symm)] at hs
        exact hs hstatus
      refine ⟨he.unique, ?_, ?_, ?_, hdone⟩
      · intro id' j hc
        rw [hhist] at hc ⊢
        by_cases hid' : id' = id
        · subst hid'
          refine ⟨fun hmem => hfresh (h.called _ hmem), Desk.submittedRow row source target w.now, ?_⟩
          rw [hd]
          exact ⟨Table.mem_put.mpr (.inl ⟨rfl, row, hrow, rfl⟩), hid, nofun⟩
        · change Function.update w.history.claims id (some i) id' = some j at hc
          rw [Function.update_of_ne hid'] at hc
          exact ⟨(h.claimed id' j hc).1, (h.claimed id' j hc).2.evolves he⟩
      · intro id' hmem
        rw [hhist] at hmem
        exact (h.called id' hmem).evolves he
      · rw [hhist]
        exact h.once
  · exact h.of_evolves he (by rw [hhist]; rfl) (by rw [hhist]; rfl) hdone

/-- A worker with a claim calls the exchange. -/
theorem Safe.called_once {w w' : World ι} (h : Safe w) {i : ι} {a : Account} {id : Nat}
    {dir : InternalTransferDirection} {amount : ℚ} {r : Rep (.submitInternalTransfer a id dir amount)}
    (hex : (pool ι).exec i (.submitInternalTransfer a id dir amount) w r w')
    (hg : w.history.claims id = some i) : Safe w' := by
  have hdone := h.completed_after hex hg
  obtain ⟨hserve, -, hhist⟩ := hex
  have he := serve_evolves h.unique hserve
  obtain ⟨hnew, hstarted⟩ := h.claimed id i hg
  refine ⟨he.unique, ?_, ?_, ?_, hdone⟩
  · intro id' j hc
    rw [hhist] at hc ⊢
    change Function.update w.history.claims id none id' = some j at hc
    by_cases hid' : id' = id
    · subst hid'
      rw [Function.update_self] at hc
      cases hc
    · rw [Function.update_of_ne hid'] at hc
      obtain ⟨hnot, hs⟩ := h.claimed id' j hc
      exact ⟨fun hmem => (List.mem_cons.mp hmem).elim hid' hnot, hs.evolves he⟩
  · intro id' hmem
    rw [hhist] at hmem
    rcases List.mem_cons.mp hmem with rfl | hmem
    · exact hstarted.evolves he
    · exact (h.called id' hmem).evolves he
  · rw [hhist]
    exact List.nodup_cons.mpr ⟨hnew, h.once⟩

/-- Every step keeps the invariant. -/
theorem safe_preserved : (pool ι).Preserves Safe Guard where
  -- Others plan transfers, change limits, or let time pass.
  act := by
    rintro (a | c | now) w w' rfl h
    · refine h.of_evolves (a.apply_evolves h.unique) rfl rfl fun row hrow hdone => ?_
      change row ∈ (a.apply w.desk).rows at hrow
      rcases a.apply_cases w.desk with hsame | ⟨new, hplanned, -, hrows, -⟩
      · rw [hsame] at hrow
        exact h.completed row hrow hdone
      · -- A new row is planned, so it is not completed.
        rw [hrows] at hrow
        rcases List.mem_append.mp hrow with hold | hlast
        · exact h.completed row hold hdone
        · rw [List.mem_singleton.mp hlast, hplanned] at hdone
          cases hdone
    · exact h.of_evolves (.of_rows_eq h.unique rfl) rfl rfl h.completed
    · exact h.of_evolves (.of_rows_eq h.unique rfl) rfl rfl h.completed
  -- A worker prepares, submits, or does something that calls nobody.
  call := by
    intro i o w r w' hex hg h
    cases o with
    | prepareSubmission id source target => exact h.prepared hex
    | submitInternalTransfer a id dir amount => exact h.called_once hex hg
    | _ =>
        have he := serve_evolves h.unique hex.1
        have hsame := History.after_eq w.history i w.desk r nofun nofun
        exact h.of_evolves he (hex.2.2 ▸ hsame.1) (hex.2.2 ▸ hsame.2) (h.completed_after hex hg)
  -- A worker that gives up its row keeps the history.
  idle := by
    intro i w h
    refine ⟨h.unique, fun id j hc => ?_, h.called, h.once, h.completed⟩
    change (if w.history.claims id = some i then none else w.history.claims id) = some j at hc
    split at hc
    · cases hc
    · exact h.claimed id j hc

/-! ## §3. A pass meets its guards. -/

/-- The system worker `i` sees. -/
abbrev view (i : ι) : System Op Rep Unit (World ι) := (pool ι).member Safe Guard i

/-- The row in hand is one of the table, as it was at some time. -/
def Known (row : InternalTransferRow) (w : World ι) : Prop := ∃ row' ∈ w.desk.rows, Moves row row'

/-- The row in hand was submitted, and it is over with it or the snapshot was
received since. -/
def Seen (row : InternalTransferRow) (s : LiveSnapshot) (w : World ι) : Prop :=
  ∃ row' ∈ w.desk.rows, Moves row row'
    ∧ (row'.status.isTerminal ∨ s ∈ w.history.shown row.id)

variable {i : ι} {row : InternalTransferRow}

omit [DecidableEq ι] in
/-- A row in hand stays one of the table, as it was at some time. -/
theorem Known.evolves {w w' : World ι} (he : Evolves w.desk w'.desk) (h : Known row w) :
    Known row w' := by
  obtain ⟨row', hrow', hm⟩ := h
  obtain ⟨row'', hrow'', hm'⟩ := he.kept row' hrow'
  exact ⟨row'', hrow'', hm.trans hm'⟩

/-- What the others do to the table and the history of worker `i`. -/
theorem other_evolves {w w' : World ι} (h : (pool ι).Other Safe Guard i w w') :
    Evolves w.desk w'.desk ∧ (∀ id, w.history.shown id ⊆ w'.history.shown id)
      ∧ ∀ id, w.history.claims id = some i → w'.history.claims id = some i := by
  cases h with
  | act hI h =>
      rename_i a
      rcases a with a | c | now <;> cases h
      · exact ⟨a.apply_evolves hI.unique, fun _ => List.Subset.refl _, fun _ h => h⟩
      · exact ⟨.of_rows_eq hI.unique rfl, fun _ => List.Subset.refl _, fun _ h => h⟩
      · exact ⟨.of_rows_eq hI.unique rfl, fun _ => List.Subset.refl _, fun _ h => h⟩
  | call hI hj hpre h =>
      rename_i j o r
      obtain ⟨hserve, -, hhist⟩ := h
      refine ⟨serve_evolves hI.unique hserve, fun id => ?_, fun id hc => ?_⟩
      · rw [hhist]
        exact History.shown_after _ _ _ _ _ id
      · rw [hhist]
        cases o with
        | prepareSubmission id' source target =>
            rcases commit_cases hserve with ⟨claimed, rfl, htx⟩ | ⟨e, rfl, -, -⟩
            · rcases Desk.prepare_ok htx with ⟨rfl, -⟩ | ⟨old, hold, hid, hstatus, rfl, -⟩
              · exact hc
              · -- What `i` has claimed is not planned any more.
                have hne : id ≠ id' := by
                  rintro rfl
                  obtain ⟨other, hother, hoid, hs⟩ := (hI.claimed id i hc).2
                  rw [hI.unique.eq hother hold (hoid.trans hid.symm)] at hs
                  exact hs hstatus
                show Function.update w.history.claims id' (some j) id = some i
                rw [Function.update_of_ne hne]
                exact hc
            · exact hc
        | submitInternalTransfer a id' dir amount =>
            have hne : id ≠ id' := by
              rintro rfl
              have hown : w.history.claims id = some j := hpre
              rw [hc] at hown
              exact hj (Option.some.inj hown).symm
            show Function.update w.history.claims id' none id = some i
            rw [Function.update_of_ne hne]
            exact hc
        | _ => exact (History.after_eq w.history j w.desk r nofun nofun).1 ▸ hc
  | idle hI hj =>
      rename_i j
      refine ⟨.of_rows_eq hI.unique rfl, fun _ => List.Subset.refl _, fun id hc => ?_⟩
      show (if w.history.claims id = some j then none else w.history.claims id) = some i
      rw [if_neg (by rw [hc]; exact fun h => hj (Option.some.inj h).symm)]
      exact hc

/-- Whatever the other workers do. -/
theorem known_stable : (view i).Stable (Known row) :=
  fun _ _ _ h hk => hk.evolves (other_evolves h).1

omit [DecidableEq ι] in
/-- What was shown after the submission stays shown. -/
theorem seen_evolves {s : LiveSnapshot} {w w' : World ι} (he : Evolves w.desk w'.desk)
    (hshown : ∀ id, w.history.shown id ⊆ w'.history.shown id) (h : Seen row s w) :
    Seen row s w' := by
  obtain ⟨row', hrow', hm, hs⟩ := h
  obtain ⟨row'', hrow'', hm'⟩ := he.kept row' hrow'
  refine ⟨row'', hrow'', hm.trans hm', hs.imp (fun ht => ?_) fun hs => hshown _ hs⟩
  rw [hm'.terminal ht]
  exact ht

/-- Whatever the other workers do. -/
theorem seen_stable {s : LiveSnapshot} : (view i).Stable (Seen row s) := by
  intro _ w w' h hs
  obtain ⟨he, hshown, -⟩ := other_evolves h
  exact seen_evolves he hshown hs

/-- The one who has claimed a row has claimed it for good. -/
theorem claim_stable {id : Nat} : (view i).Stable fun w => w.history.claims id = some i :=
  fun _ _ _ h hc => (other_evolves h).2.2 id hc

/-- An operation that needs nothing. -/
def isFree : Op → Prop
  | .submitInternalTransfer .. => False
  | .finalize _ status _ => status ≠ .completed
  | _ => True

omit [DecidableEq ι] in
/-- A free operation has no guard. -/
theorem guard_of_isFree {o : Op} (h : isFree o) (w : World ι) : Guard i o w := by
  unfold Guard
  split
  · cases h
  · exact absurd rfl h
  · trivial

variable {α : Type}

/-- The rest of a pass that needs nothing. -/
theorem wp_free {p : Worker α} {R : Except Exc α → Prop} (hp : p.Ensures isFree R) (w : World ι)
    (hk : Known row w) : (view i).wp Safe (Guard i) p (fun r w => Known row w ∧ R r) w :=
  System.wp_of_ensures known_stable (fun _ w ho _ _ => guard_of_isFree ho w)
    (fun _ _ _ _ _ hI hk hex => hk.evolves (serve_evolves hI.unique hex.1)) p w hk hp

/-- So a program of free operations keeps the pool safe. -/
theorem wp_free_end {p : Worker α} (hp : p.Ensures isFree fun _ => True) (w : World ι) :
    (view i).wp Safe (Guard i) p (fun _ _ => True) w := by
  refine System.wp_mono p (fun _ _ _ => trivial) w
    (System.wp_of_ensures (P := fun _ => True) (fun _ _ _ _ _ => trivial)
      (fun _ w ho _ _ => guard_of_isFree ho w) (fun _ _ _ _ _ _ _ _ => trivial) p w trivial hp)

/-- The end of a pass that does not complete the row. -/
theorem finalize_free {id : Nat} {status : TransferStatus} (h : status ≠ .completed)
    (code : Option String) (x : α) :
    (do let _ ← finalize id status code; return x : Worker α).Ensures isFree fun _ => True :=
  ⟨h, fun r => by cases r <;> exact trivial⟩

/-- Writing a failure down is free. -/
theorem retryOrReview_free (action : TransferAction) (code : String) :
    (retryOrReview timeout row action code).Ensures isFree fun _ => True := by
  refine ⟨trivial, fun now => ?_⟩
  show Prog.Ensures _ _ (if _ then _ else _)
  split
  · exact finalize_free (by decide) _ _
  · exact trivial

/-- So is opening the client. -/
theorem client_free : (client row).Ensures isFree fun _ => True := by
  refine ⟨trivial, fun r => ?_⟩
  rcases r with e | known
  · exact trivial
  · show Prog.Ensures _ _ (if _ then _ else _)
    split
    · exact ⟨trivial, fun r => by cases r <;> exact trivial⟩
    · exact finalize_free (by decide) _ _

/-- The balance is looked at after the submission, and completes the row only
if it has arrived. -/
theorem wp_confirmArrival (w : World ι) (hk : Known row w) (hstarted : row.status ≠ .planned) :
    (view i).wp Safe (Guard i) (confirmArrival timeout row) (fun _ _ => True) w := by
  refine System.wp_call_of_stable known_stable hk (fun _ _ _ => trivial) ?_
  rintro w₁ (e | s) w₂ hI₁ ⟨row', hrow', hm⟩ hex -
  · exact trivial
  · -- The row is over, or the account is awaited: then the snapshot counts.
    have hseen : Seen row s w₂ := by
      obtain ⟨hserve, -, hhist⟩ := hex
      obtain ⟨row'', hrow'', hm''⟩ := (serve_evolves hI₁.unique hserve).kept row' hrow'
      have hrows : w₂.desk = w₁.desk := hserve
      refine ⟨row'', hrow'', hm.trans hm'', ?_⟩
      by_cases ht : row''.status.isTerminal
      · exact .inl ht
      · right
        rw [hrows] at hrow''
        have hmm := hm.trans hm''
        have hawaits : w₁.desk.Awaits row.account row.id := by
          refine ⟨row'', hrow'', hmm.id, hmm.account, ?_⟩
          have hnot := (hmm.started hstarted).1
          cases hs : row''.status <;> rw [hs] at ht hnot <;>
            first | rfl | exact absurd rfl hnot | exact absurd rfl ht
        rw [hhist]
        show s ∈ if w₁.desk.Awaits row.account row.id then _ else _
        rw [if_pos hawaits]
        exact List.mem_cons_self
    show (view i).wp Safe (Guard i) (if _ then _ else _) _ w₂
    split
    · next hle =>
        refine System.wp_call_of_stable seen_stable hseen ?_ fun _ r _ _ _ _ _ => ?_
        · intro w _ ⟨row', hrow', hm, hs⟩
          refine ⟨row', hrow', hm.id, hs.imp id fun hs => ?_⟩
          obtain ⟨expected, he, hle⟩ := hle
          refine ⟨expected, (hm.started hstarted).2 ▸ he, s, hm.id ▸ hs, ?_⟩
          unfold transferBalances at hle ⊢
          rw [hm.direction]
          exact hle
        · cases r <;> exact trivial
    · exact wp_free_end (retryOrReview_free _ _) w₂

/-- The persisted row is in the table, and it was submitted. -/
theorem record_known {w w' : World ι} {id : Nat} {remoteId : String}
    {r : Except Exc InternalTransferRow} (hex : (pool ι).exec i (.recordRemoteId id remoteId) w r w')
    {persisted : InternalTransferRow} (hr : r = .ok persisted) :
    Known persisted w' ∧ persisted.status ≠ .planned := by
  subst hr
  rcases commit_cases hex.1 with ⟨_, hr, htx⟩ | ⟨e, hr, -, -⟩ <;> cases hr
  obtain ⟨old, hold, -, -, rfl, hd⟩ := Desk.record_ok htx
  refine ⟨⟨_, ?_, .refl _⟩, nofun⟩
  rw [hd]
  exact Table.mem_put.mpr (.inl ⟨rfl, old, hold, rfl⟩)

/-- A worker that has claimed a row calls the exchange once. -/
theorem wp_submitPrepared (w : World ι) (hc : w.history.claims row.id = some i) :
    (view i).wp Safe (Guard i) (submitPrepared timeout row) (fun _ _ => True) w := by
  refine System.wp_call_of_stable claim_stable hc (fun _ _ h => h) ?_
  rintro w₁ (e | submission) w₂ - - - -
  · refine wp_free_end ?_ w₂
    show Prog.Ensures _ _ (if _ then _ else _)
    split
    · exact trivial
    · exact finalize_free (by decide) _ _
  · intro w₃ _ _
    refine ⟨trivial, fun r w₄ hex _ => ?_⟩
    cases r with
    | error e => exact trivial
    | ok persisted =>
        obtain ⟨hk, hs⟩ := record_known hex rfl
        show (view i).wp Safe (Guard i) (if _ then _ else _) _ w₄
        split
        · exact wp_confirmArrival w₄ hk hs
        · exact trivial

/-- A claim that comes back with the row is the worker's own. -/
theorem wp_submitSeen (w : World ι) (s : LiveSnapshot) (state : Accounts.RemoteTradingState) :
    (view i).wp Safe (Guard i) (submitSeen timeout row s state) (fun _ _ => True) w := by
  unfold submitSeen
  split
  · exact wp_free_end (finalize_free (by decide) _ _) w
  split
  · exact trivial
  split
  · exact wp_free_end (finalize_free (by decide) _ _) w
  intro w₁ _ _
  refine ⟨trivial, fun r w₂ hex _ => ?_⟩
  rcases r with e | (_ | claimed)
  · exact trivial
  · exact trivial
  · refine wp_submitPrepared w₂ ?_
    rw [hex.2.2]
    exact Function.update_self ..

/-- The submission keeps the pool safe: the worker asks the exchange only for
the row it has claimed. -/
theorem wp_submitWithClient (w : World ι) :
    (view i).wp Safe (Guard i) (submitWithClient timeout row) (fun _ _ => True) w := by
  intro w₁ _ _
  refine ⟨trivial, fun r w₂ _ _ => ?_⟩
  rcases r with e | s
  · exact trivial
  intro w₃ _ _
  refine ⟨trivial, fun r w₄ _ _ => ?_⟩
  rcases r with e | state
  · exact trivial
  · exact wp_submitSeen w₄ s state

/-- So does the confirmation: a row is completed only after a snapshot with the
expected balance. -/
theorem wp_confirmWithClient (w : World ι) (hk : Known row w) (hstarted : row.status ≠ .planned) :
    (view i).wp Safe (Guard i) (confirmWithClient timeout row) (fun _ _ => True) w := by
  -- From a remote status on: failed, arrived, or to be asked for again.
  have hseen : ∀ (row : InternalTransferRow) (remote : RemoteInternalTransfer) (w : World ι),
      Known row w → row.status ≠ .planned →
        (view i).wp Safe (Guard i) (confirmSeen timeout row remote) (fun _ _ => True) w := by
    intro row remote w hk hs
    unfold confirmSeen
    split
    · exact wp_free_end (finalize_free (by decide) _ _) w
    · exact wp_confirmArrival w hk hs
    · exact wp_free_end (retryOrReview_free _ _) w
    · exact wp_free_end (retryOrReview_free _ _) w
  unfold confirmWithClient
  dsimp only
  -- Never acknowledged, and not to be found without a remote id: left for review.
  split
  · exact wp_free_end (finalize_free (by decide) _ _) w
  refine System.wp_call_of_stable known_stable hk (fun _ _ _ => trivial) ?_
  rintro w₁ (e | remote) w₂ hI hk₁ hex -
  · exact wp_free_end (retryOrReview_free _ _) w₂
  · have hk₂ : Known row w₂ := hk₁.evolves (serve_evolves hI.unique hex.1)
    -- The remote id is stored first if it is new.
    show (view i).wp Safe (Guard i) (if _ then _ else _) _ w₂
    split
    · intro w₃ _ _
      refine ⟨trivial, fun r w₄ hex _ => ?_⟩
      cases r with
      | error e => exact trivial
      | ok persisted =>
          obtain ⟨hk, hs⟩ := record_known hex rfl
          exact hseen persisted remote w₄ hk hs
    · exact hseen row remote w₂ hk₂ hstarted

/-- The client around a pass needs nothing itself. -/
theorem wp_withClient (w : World ι) (hk : Known row w)
    {body : Worker InternalTransferExecutionResult}
    (hbody : ∀ w, Known row w → (view i).wp Safe (Guard i) body (fun _ _ => True) w) :
    (view i).wp Safe (Guard i) (withClient row body) (fun _ _ => True) w := by
  refine System.wp_bind _ _ _ (System.wp_mono _ (fun r w' h => ?_) w (wp_free client_free w hk))
  cases r with
  | error e => exact trivial
  | ok known =>
      show (view i).wp Safe (Guard i) (if _ then _ else _) _ w'
      split
      · refine System.wp_resume _ _ _ _ (System.wp_mono _ (fun _ w _ => ?_) w' (hbody w' h.1))
        refine wp_free_end ?_ w
        exact ⟨trivial, fun _ => trivial⟩
      · exact trivial

/-- So does a pass of any worker. -/
theorem wp_runOnce (w : World ι) :
    (view i).wp Safe (Guard i) (runOnce timeout) (fun _ _ => True) w := by
  intro w₁ _ _
  refine ⟨trivial, fun r w₂ hex _ => ?_⟩
  rcases r with _ | active
  · intro w₃ _ _
    refine ⟨trivial, fun r w₄ hex _ => ?_⟩
    rcases r with _ | planned
    · exact trivial
    · have hk : Known planned w₄ := ⟨planned, hex.1.2 ▸ hex.1.1.1, .refl _⟩
      exact wp_withClient w₄ hk fun w _ => wp_submitWithClient w
  · have hk : Known active w₂ := ⟨active, hex.1.2 ▸ hex.1.1.1, .refl _⟩
    have hstarted : active.status ≠ .planned := by
      intro h
      have hmem := hex.1.1.2.1
      rw [h] at hmem
      revert hmem
      decide
    exact wp_withClient w₂ hk fun w hk => wp_confirmWithClient w hk hstarted

/-! ## §4. All runs. -/

variable {c c' : Pool.Config ι Op Rep Exc InternalTransferExecutionResult (World ι)}

omit [DecidableEq ι] in
/-- And a first pool is safe. -/
theorem Initial.safe {w : World ι} (h : Initial w) : Safe w := by
  have hrows := h.rows
  have hhist := h.history
  refine ⟨?_, fun id i hc => ?_, fun id hid => ?_, ?_, fun row hrow => ?_⟩
  · rw [hrows]
    exact List.nodup_nil
  · rw [hhist] at hc
    cases hc
  · rw [hhist] at hid
    cases hid
  · rw [hhist]
    exact List.nodup_nil
  · rw [hrows] at hrow
    cases hrow

/-- The invariant of all runs. -/
theorem Reachable.safe (hc : Reachable ι timeout c) : Safe c.world :=
  (hc.guarded safe_preserved (fun _ h => h.safe) fun _ w _ => wp_runOnce w).1

/-- A step leads from rows to what can become of them, and stores no row but
one that fits the limits in force. -/
theorem Reachable.step (hc : Reachable ι timeout c) (hs : Steps ι timeout c c') :
    Evolves c.world.desk c'.world.desk
      ∧ ∀ row ∈ c'.world.desk.rows, (∀ old ∈ c.world.desk.rows, old.id ≠ row.id) →
        ∃ limits ∈ c'.world.desk.limits, (∀ stored ∈ c.world.desk.limits, limits = stored)
          ∧ row.amount ≤ limits.perRequestLimit
          ∧ usedOn (dayStart row.createdAt) c'.world.desk.rows ≤ limits.dailyLimit := by
  have hI := hc.safe
  -- Four kinds of steps; only others plan new rows.
  rcases hc.step_cases safe_preserved (fun _ h => h.safe) (fun _ w _ => wp_runOnce w) hs with
    hw | ⟨a | c | now, h⟩ | ⟨i, o, r, hex, -⟩ | ⟨i, h⟩
  · rw [hw]
    exact ⟨.of_rows_eq hI.unique rfl, fun row hrow hnew => absurd rfl (hnew row hrow)⟩
  · rw [h]
    -- The new row was planned under the limits in force.
    refine ⟨a.apply_evolves hI.unique, fun row hrow hnew => ?_⟩
    change row ∈ (a.apply c.world.desk).rows at hrow
    rcases a.apply_cases c.world.desk with hsame | ⟨new, -, -, hrows, hlimits⟩
    · rw [hsame] at hrow
      exact absurd rfl (hnew row hrow)
    · rw [hrows] at hrow
      rcases List.mem_append.mp hrow with hold | hlast
      · exact absurd rfl (hnew row hold)
      · rw [List.mem_singleton.mp hlast]
        exact hlimits
  · rw [h]
    exact ⟨.of_rows_eq hI.unique rfl, fun row hrow hnew => absurd rfl (hnew row hrow)⟩
  · rw [h]
    exact ⟨.of_rows_eq hI.unique rfl, fun row hrow hnew => absurd rfl (hnew row hrow)⟩
  · -- A worker's operation adds no row.
    refine ⟨serve_evolves hI.unique hex.1, fun row hrow hnew => ?_⟩
    obtain ⟨old, hold, hid⟩ := serve_old hI.unique hex.1 hrow
    exact absurd hid (hnew old hold)
  · rw [h]
    exact ⟨.of_rows_eq hI.unique rfl, fun row hrow hnew => absurd rfl (hnew row hrow)⟩

/-- In every run, with any number of workers: no row is submitted twice; a
row fits the limits in force when it is planned, and so does its day; a row is
completed only after a snapshot, received while it was awaited, showed the
balance it expects; and a row in a terminal status never changes. -/
theorem transfer_safety (hc : Reachable ι timeout c) :
    c.world.history.submitted.Nodup
      ∧ (∀ row ∈ c.world.desk.rows, row.status = .completed → c.world.Arrived row)
      ∧ ∀ c', Steps ι timeout c c' →
        (∀ row ∈ c'.world.desk.rows, (∀ old ∈ c.world.desk.rows, old.id ≠ row.id) →
          ∃ limits ∈ c'.world.desk.limits, (∀ stored ∈ c.world.desk.limits, limits = stored)
            ∧ row.amount ≤ limits.perRequestLimit
            ∧ usedOn (dayStart row.createdAt) c'.world.desk.rows ≤ limits.dailyLimit)
        ∧ ∀ row ∈ c.world.desk.rows, row.status.isTerminal → row ∈ c'.world.desk.rows := by
  refine ⟨hc.safe.once, hc.safe.completed, fun c' hs => ?_⟩
  obtain ⟨he, hlimits⟩ := hc.step hs
  refine ⟨hlimits, fun row hrow hterm => ?_⟩
  obtain ⟨row', hrow', hm⟩ := he.kept row hrow
  exact hm.terminal hterm ▸ hrow'

/-! ## §5. A concrete run. -/

namespace Sample

/-- The answers to a worker that is alone. -/
def poolAnswers (spot perp : ℚ) (o : Op) (w : World Unit) : Rep o × World Unit :=
  let r := respond (exchange spot perp) w.now o w.desk
  (r.1, ⟨r.2, w.now, w.history.after () w.desk o r.1⟩)

/-- The sample answers are answers that a worker can get. -/
theorem exec_poolAnswers (spot perp : ℚ) (o : Op) (w : World Unit) :
    ((pool Unit).solo ()).exec o w (poolAnswers spot perp o w).1 (poolAnswers spot perp o w).2 :=
  ⟨serve_respond _ _ o w.desk, rfl, rfl⟩

def initial : World Unit := ⟨⟨[], none, none⟩, 0, {}⟩

/-- A transfer is planned. -/
def requested : World Unit := { initial with desk := (Act.plan request 0).apply initial.desk }

/-- A pass, with these balances. -/
def poolPass (spot perp : ℚ) (w : World Unit) :
    Config Op Rep Exc InternalTransferExecutionResult (World Unit) :=
  System.play (poolAnswers spot perp) (fun _ => false) (runOnce 0) w

/-- The transfer has been submitted. -/
def handedOver : World Unit := ((pool Unit).solo ()).idle (poolPass 100 10 requested).world

/-- The run in which the transfer arrives. -/
def arrived : Config Op Rep Exc InternalTransferExecutionResult (World Unit) :=
  poolPass 50 60 handedOver

/-- A worker alone. -/
abbrev Solo :
    Config Op Rep Exc InternalTransferExecutionResult (World Unit) →
      Config Op Rep Exc InternalTransferExecutionResult (World Unit) → Prop :=
  ((pool Unit).solo ()).Run (runOnce 0) System.anyStep

theorem runsTo_arrived : Solo ⟨initial, none⟩ arrived := by
  have henv : ((pool Unit).solo ()).env (.act (.plan request 0)) initial requested := rfl
  have hplan : Solo ⟨initial, none⟩ ⟨requested, none⟩ := .single ⟨_, .act henv, trivial⟩
  have hsubmit : Solo ⟨requested, none⟩ (poolPass 100 10 requested) :=
    System.Run.pass (exec_poolAnswers 100 10) trivial (by decide +kernel)
  have hend : Solo (poolPass 100 10 requested) ⟨handedOver, none⟩ :=
    System.Run.leave (System.play_isSome _ _) trivial
  have hconfirm : Solo ⟨handedOver, none⟩ (poolPass 50 60 handedOver) :=
    System.Run.pass (exec_poolAnswers 50 60) trivial (by decide +kernel)
  exact ((hplan.trans hsubmit).trans hend).trans hconfirm

end Sample

/-- A transfer that is planned, submitted and seen to arrive. -/
theorem transfer_safety_arrived : ∃ c, Reachable Unit 0 c
    ∧ c.world.desk.rows.map (·.status) = [.completed] ∧ c.world.history.submitted = [7]
    ∧ c.world.history.submitted.Nodup
    ∧ ∀ row ∈ c.world.desk.rows, row.status = .completed → c.world.Arrived row := by
  have hinit : Reachable Unit 0 ⟨Sample.initial, Function.update (fun _ => none) () none⟩ := by
    rw [Function.update_eq_self]
    exact .init ⟨rfl, rfl⟩
  have hc := hinit.of_run Sample.runsTo_arrived
  exact ⟨_, hc, by decide +kernel, by decide +kernel, (transfer_safety hc).1,
    (transfer_safety hc).2.1⟩

end BasisHawk.Transfers
