/-
  BasisHawk.Transfers.Storage
  ───────────────────────────
  Internal transfers between the spot and the perpetual balance of one account
  (`storage.py`): the table `internal_transfers`, the limits in `settings`,
  and the transactions on them.

  The asset is always USDT.  A row of the table has a positive amount and an
  environment that is not paper, which the checks of
  `plan_internal_transfer` and the constraints of the table make sure of.

  Main results:
    • `planInternalTransfer_ok` — what a plan stores and has checked,
    • `prepare_ok`, `record_ok`, `finalize_ok` — the move each of the worker's
      transactions makes.
-/
import BasisHawk.Reconciliation.Operations

namespace BasisHawk.Transfers

open Domain Lib
open Reconciliation (Account Control LiveSnapshot)

/-! ## §1. Rows and limits. -/

inductive InternalTransferDirection where
  | spotToPerp | perpToSpot
  deriving DecidableEq, Repr

inductive TransferStatus where
  | planned | submitted | pending | completed | failed | manualReview
  deriving DecidableEq, Repr

namespace TransferStatus

/-- The statuses `finalize_internal_transfer` gives. -/
def isTerminal : TransferStatus → Bool
  | .completed | .failed | .manualReview => true
  | _ => false

/-- The exchange may have the transfer, and the worker still follows it. -/
def isAwaiting : TransferStatus → Bool
  | .submitted | .pending => true
  | _ => false

/-- A row that awaits something is not at its end. -/
theorem isTerminal_of_isAwaiting {s : TransferStatus} (h : s.isAwaiting) : s.isTerminal = false := by
  cases s <;> first | rfl | cases h

end TransferStatus

/-- `InternalTransferRow`. -/
structure InternalTransferRow where
  id : Nat
  idempotencyKey : Nat
  requestFingerprint : String
  exchange : Exchange
  environment : ExchangeEnvironment
  backed : environment ≠ .paper
  direction : InternalTransferDirection
  amount : ℚ
  positive : 0 < amount
  status : TransferStatus
  exchangeTransferId : Option String
  sourceBalanceBefore : Option ℚ
  targetBalanceBefore : Option ℚ
  expectedTargetBalance : Option ℚ
  errorCode : Option String
  createdAt : Int
  updatedAt : Int
  submittedAt : Option Int
  completedAt : Option Int

/-- Rows are compared column by column. -/
instance : DecidableEq InternalTransferRow := fun a b =>
  decidable_of_iff
    (a.id = b.id ∧ a.idempotencyKey = b.idempotencyKey
      ∧ a.requestFingerprint = b.requestFingerprint ∧ a.exchange = b.exchange
      ∧ a.environment = b.environment ∧ a.direction = b.direction ∧ a.amount = b.amount
      ∧ a.status = b.status ∧ a.exchangeTransferId = b.exchangeTransferId
      ∧ a.sourceBalanceBefore = b.sourceBalanceBefore
      ∧ a.targetBalanceBefore = b.targetBalanceBefore
      ∧ a.expectedTargetBalance = b.expectedTargetBalance ∧ a.errorCode = b.errorCode
      ∧ a.createdAt = b.createdAt ∧ a.updatedAt = b.updatedAt ∧ a.submittedAt = b.submittedAt
      ∧ a.completedAt = b.completedAt)
    (by cases a; cases b; simp)

instance : Keyed InternalTransferRow := ⟨(·.id)⟩

/-- The account whose balances the transfer moves. -/
def InternalTransferRow.account (row : InternalTransferRow) : Account :=
  ⟨row.exchange, row.environment, row.backed⟩

/-- `TransferLimitSettings`: either both limits are zero, or both are positive
and one request may not exceed the day. -/
structure TransferLimitSettings where
  perRequestLimit : ℚ
  dailyLimit : ℚ
  nonneg : 0 ≤ perRequestLimit ∧ 0 ≤ dailyLimit
  together : perRequestLimit = 0 ↔ dailyLimit = 0
  ordered : perRequestLimit ≤ dailyLimit
  deriving DecidableEq

/-- `_transfer_limit_settings`, with `_validate_transfer_limits`. -/
def transferLimitSettings (perRequestLimit dailyLimit : ℚ) : Except Exc TransferLimitSettings :=
  if hneg : perRequestLimit < 0 ∨ dailyLimit < 0 then
    .error (.value "internal transfer limits cannot be negative")
  else if hzero : ¬(perRequestLimit = 0 ↔ dailyLimit = 0) then
    .error (.value "internal transfer limits must both be zero or both be positive")
  else if hord : perRequestLimit > dailyLimit then
    .error (.value "per-request transfer limit cannot exceed daily limit")
  else .ok {
    perRequestLimit, dailyLimit
    nonneg := ⟨le_of_not_gt fun h => hneg (.inl h), le_of_not_gt fun h => hneg (.inr h)⟩
    together := Decidable.not_not.mp hzero
    ordered := le_of_not_gt hord }

/-- `TransferLimitSettings.enabled`. -/
def TransferLimitSettings.enabled (l : TransferLimitSettings) : Prop :=
  0 < l.perRequestLimit ∧ 0 < l.dailyLimit

instance (l : TransferLimitSettings) : Decidable l.enabled := inferInstanceAs (Decidable (_ ∧ _))

/-- The tables the transactions work on: the transfers, the row
`transfer_limits` of `settings`, and `execution_control`. -/
structure Desk where
  rows : List InternalTransferRow
  limits : Option TransferLimitSettings
  control : Control

/-! ## §2. Planning. -/

/-- The length of a day in microseconds. -/
def day : Int := 86400000000

/-- `observed_at.replace(hour=0, minute=0, second=0, microsecond=0)`. -/
def dayStart (t : Int) : Int := t - t % day

/-- The row counts against the limit of the day. -/
def InternalTransferRow.countsOn (dayStart : Int) (row : InternalTransferRow) : Prop :=
  dayStart ≤ row.createdAt ∧ row.createdAt < dayStart + day ∧ row.status ≠ .failed

instance (start : Int) (row : InternalTransferRow) : Decidable (row.countsOn start) :=
  inferInstanceAs (Decidable (_ ∧ _ ∧ _))

/-- The sum of the transfers of a day that have not failed. -/
def usedOn (dayStart : Int) (rows : List InternalTransferRow) : ℚ :=
  ((rows.filter (·.countsOn dayStart)).map (·.amount)).sum

/-- What `plan_internal_transfer` is asked for. -/
structure PlanRequest where
  transferId : Nat
  idempotencyKey : Nat
  requestFingerprint : String
  exchange : Exchange
  environment : ExchangeEnvironment
  direction : InternalTransferDirection
  amount : ℚ
  defaultPerRequestLimit : ℚ
  defaultDailyLimit : ℚ

/-- An amount that is not refused is positive. -/
theorem PlanRequest.amount_pos (q : PlanRequest) (h : ¬q.amount ≤ 0) : 0 < q.amount :=
  lt_of_not_ge h

namespace Desk

/-- The limits in force; without a stored row, the defaults are stored. -/
def limitsFor (q : PlanRequest) (d : Desk) : Except Exc TransferLimitSettings :=
  match d.limits with
  | some limits => .ok limits
  | none => transferLimitSettings q.defaultPerRequestLimit q.defaultDailyLimit

/-- The row of a new transfer. -/
def plannedRow (q : PlanRequest) (henv : q.environment ≠ .paper) (hamount : 0 < q.amount)
    (observedAt : Int) : InternalTransferRow where
  id := q.transferId
  idempotencyKey := q.idempotencyKey
  requestFingerprint := q.requestFingerprint
  exchange := q.exchange
  environment := q.environment
  backed := henv
  direction := q.direction
  amount := q.amount
  positive := hamount
  status := .planned
  exchangeTransferId := none
  sourceBalanceBefore := none
  targetBalanceBefore := none
  expectedTargetBalance := none
  errorCode := none
  createdAt := observedAt
  updatedAt := observedAt
  submittedAt := none
  completedAt := none

/-- `plan_internal_transfer`. -/
def planInternalTransfer (q : PlanRequest) (observedAt : Int) (d : Desk) :
    Except Exc ((InternalTransferRow × Bool) × Desk) :=
  if henv : q.environment = .paper then
    .error (.value "internal transfer environment must be sandbox or live")
  else if hamount : q.amount ≤ 0 then
    .error (.value "internal transfer amount must be positive")
  else match d.rows.find? (·.idempotencyKey = q.idempotencyKey) with
    | some existing => do
        raiseIf (existing.requestFingerprint ≠ q.requestFingerprint)
          (.value "internal transfer idempotency key conflicts with another request")
        .ok ((existing, false), d)
    | none => do
        let limits ← d.limitsFor q
        raiseIf (¬limits.enabled) (.value "internal transfers are disabled by zero limits")
        raiseIf (q.amount > limits.perRequestLimit)
          (.value "internal transfer exceeds the per-request limit")
        raiseIf (usedOn (dayStart observedAt) d.rows + q.amount > limits.dailyLimit)
          (.value "internal transfer exceeds the UTC daily limit")
        raiseIf (∃ row ∈ d.rows, row.id = q.transferId) (.integrity "internal_transfers_pkey")
        let row := plannedRow q henv (q.amount_pos hamount) observedAt
        .ok ((row, true), {
          rows := d.rows ++ [row]
          limits := some limits
          control := Control.planInternalTransfer d.control })

/-- `save_transfer_limits`. -/
def saveTransferLimits (perRequestLimit dailyLimit : ℚ) (d : Desk) :
    Except Exc (TransferLimitSettings × Desk) := do
  let value ← transferLimitSettings perRequestLimit dailyLimit
  .ok (value, { d with limits := some value })

/-! ## §3. The transactions of the worker. -/

/-- `next_internal_transfer`: one of the oldest rows in these statuses, if
there is any. -/
def IsNext (statuses : List TransferStatus) (rows : List InternalTransferRow) :
    Option InternalTransferRow → Prop
  | none => ∀ row ∈ rows, row.status ∉ statuses
  | some row => row ∈ rows ∧ row.status ∈ statuses
      ∧ ∀ other ∈ rows, other.status ∈ statuses → row.createdAt ≤ other.createdAt

/-- The row as `prepare_internal_transfer_submission` leaves it. -/
def submittedRow (row : InternalTransferRow) (sourceBalance targetBalance : ℚ) (observedAt : Int) :
    InternalTransferRow :=
  { row with
    sourceBalanceBefore := some sourceBalance
    targetBalanceBefore := some targetBalance
    expectedTargetBalance := some (targetBalance + row.amount)
    status := .submitted
    submittedAt := some observedAt
    updatedAt := observedAt }

/-- `prepare_internal_transfer_submission`. -/
def prepareInternalTransferSubmission (transferId : Nat) (sourceBalance targetBalance : ℚ)
    (observedAt : Int) (d : Desk) : Except Exc (Option InternalTransferRow × Desk) := do
  raiseIf (sourceBalance < 0 ∨ targetBalance < 0)
    (.value "internal transfer balances cannot be negative")
  match (Table.find? d.rows transferId).filter (·.status = .planned) with
  | none => .ok (none, d)
  | some row => do
      raiseIf (¬Control.Paused d.control)
        (.value "internal transfer submission requires paused execution")
      raiseIf (sourceBalance < row.amount)
        (.value "internal transfer source balance is insufficient")
      let row := submittedRow row sourceBalance targetBalance observedAt
      .ok (some row, { d with rows := Table.put d.rows row })

/-- The row as `record_internal_transfer_remote_id` leaves it. -/
def recordedRow (row : InternalTransferRow) (exchangeTransferId : String) (observedAt : Int) :
    InternalTransferRow :=
  { row with
    exchangeTransferId := some exchangeTransferId
    status := .pending
    errorCode := none
    updatedAt := observedAt }

/-- `record_internal_transfer_remote_id`.  The column takes 100 characters. -/
def recordInternalTransferRemoteId (transferId : Nat) (exchangeTransferId : String)
    (observedAt : Int) (d : Desk) : Except Exc (InternalTransferRow × Desk) := do
  raiseIf (exchangeTransferId = "") (.value "exchange transfer ID is required")
  let row ← found (Table.find? d.rows transferId) (.value "internal transfer does not exist")
  raiseIf (row.status.isAwaiting = false)
    (.value "internal transfer is not awaiting remote confirmation")
  raiseIf (∃ stored ∈ row.exchangeTransferId, stored ≠ exchangeTransferId)
    (.value "exchange transfer ID conflicts with persisted value")
  raiseIf (100 < exchangeTransferId.length)
    (.value "value too long for type character varying(100)")
  let row := recordedRow row exchangeTransferId observedAt
  .ok (row, { d with rows := Table.put d.rows row })

/-- The row as `finalize_internal_transfer` leaves it. -/
def finalizedRow (row : InternalTransferRow) (status : TransferStatus) (errorCode : Option String)
    (observedAt : Int) : InternalTransferRow :=
  { row with
    status := status
    errorCode := errorCode
    updatedAt := observedAt
    completedAt := if status = .completed then some observedAt else row.completedAt }

/-- `finalize_internal_transfer`. -/
def finalizeInternalTransfer (transferId : Nat) (status : TransferStatus) (errorCode : Option String)
    (observedAt : Int) (d : Desk) : Except Exc (InternalTransferRow × Desk) := do
  raiseIf (status.isTerminal = false) (.value "unsupported internal transfer terminal status")
  raiseIf (∃ code ∈ errorCode, code = "" ∨ 80 < code.length)
    (.value "invalid internal transfer error code")
  let row ← found (Table.find? d.rows transferId) (.value "internal transfer does not exist")
  if row.status.isTerminal then do
    raiseIf (row.status ≠ status) (.value "internal transfer already has another terminal status")
    .ok (row, d)
  else
    let row := finalizedRow row status errorCode observedAt
    .ok (row, { d with rows := Table.put d.rows row })

/-! ## §4. What the transactions do. -/

/-- A plan either hands back the stored row or stores a new one, which fits the
limits of the request and of the day. -/
theorem planInternalTransfer_ok {q : PlanRequest} {observedAt : Int} {d d' : Desk}
    {row : InternalTransferRow} {created : Bool}
    (h : planInternalTransfer q observedAt d = .ok ((row, created), d')) :
    (created = false ∧ row ∈ d.rows ∧ d' = d)
      ∨ (created = true ∧ row.status = .planned ∧ row.createdAt = observedAt
        ∧ row.exchangeTransferId = none ∧ (∀ old ∈ d.rows, old.id ≠ row.id)
        ∧ ∃ limits, d' = ⟨d.rows ++ [row], some limits, Control.planInternalTransfer d.control⟩
          ∧ (∀ stored ∈ d.limits, limits = stored)
          ∧ row.amount ≤ limits.perRequestLimit
          ∧ usedOn (dayStart observedAt) d.rows + row.amount ≤ limits.dailyLimit) := by
  unfold planInternalTransfer at h
  split at h
  · cases h
  · split at h
    · cases h
    · split at h
      · next existing hfind =>
          simp only [raiseIf_bind_eq_ok, Except.ok.injEq, Prod.mk.injEq] at h
          obtain ⟨-, ⟨rfl, rfl⟩, rfl⟩ := h
          exact .inl ⟨rfl, List.mem_of_find?_eq_some hfind, rfl⟩
      · simp only [bind_eq_ok, raiseIf_eq_ok, Except.ok.injEq, Prod.mk.injEq, exists_const,
          not_not, not_lt, gt_iff_lt, not_exists, not_and] at h
        obtain ⟨limits, hlimits, -, hper, hday, hnew, ⟨rfl, rfl⟩, rfl⟩ := h
        refine .inr ⟨rfl, rfl, rfl, rfl, fun old hold => hnew old hold, limits, rfl, ?_, hper, hday⟩
        intro stored hstored
        unfold limitsFor at hlimits
        rw [Option.mem_def.mp hstored] at hlimits
        cases hlimits
        rfl

/-- Saving the limits changes the limits alone. -/
theorem saveTransferLimits_ok {p q : ℚ} {d d' : Desk} {value : TransferLimitSettings}
    (h : saveTransferLimits p q d = .ok (value, d')) : d' = { d with limits := some value } := by
  unfold saveTransferLimits at h
  simp only [bind_eq_ok, Except.ok.injEq, Prod.mk.injEq] at h
  obtain ⟨_, -, rfl, rfl⟩ := h
  rfl

/-- A claim either takes nothing up or moves one planned row to `submitted`,
while execution is paused. -/
theorem prepare_ok {transferId : Nat} {source target : ℚ} {now : Int} {d d' : Desk}
    {r : Option InternalTransferRow}
    (h : prepareInternalTransferSubmission transferId source target now d = .ok (r, d')) :
    (r = none ∧ d' = d)
      ∨ ∃ row ∈ d.rows, row.id = transferId ∧ row.status = .planned
        ∧ r = some (submittedRow row source target now)
        ∧ d' = { d with rows := Table.put d.rows (submittedRow row source target now) } := by
  unfold prepareInternalTransferSubmission at h
  rw [raiseIf_bind_eq_ok] at h
  obtain ⟨-, h⟩ := h
  split at h
  · cases h
    exact .inl ⟨rfl, rfl⟩
  · next row hrow =>
      simp only [raiseIf_bind_eq_ok, Except.ok.injEq, Prod.mk.injEq] at h
      obtain ⟨-, -, rfl, rfl⟩ := h
      obtain ⟨hfind, hstatus⟩ := Option.filter_eq_some_iff.mp hrow
      obtain ⟨hmem, hid⟩ := Table.find?_some hfind
      exact .inr ⟨row, hmem, hid, of_decide_eq_true hstatus, rfl, rfl⟩

/-- The identifier of the exchange is recorded on an awaiting row and nowhere
else. -/
theorem record_ok {transferId : Nat} {remoteId : String} {now : Int} {d d' : Desk}
    {r : InternalTransferRow}
    (h : recordInternalTransferRemoteId transferId remoteId now d = .ok (r, d')) :
    ∃ row ∈ d.rows, row.id = transferId ∧ row.status.isAwaiting
      ∧ r = recordedRow row remoteId now ∧ d' = { d with rows := Table.put d.rows r } := by
  unfold recordInternalTransferRemoteId at h
  simp only [raiseIf_bind_eq_ok, found_bind_eq_ok, Except.ok.injEq, Prod.mk.injEq,
    Bool.not_eq_false] at h
  obtain ⟨-, row, hfind, hstatus, -, -, rfl, rfl⟩ := h
  obtain ⟨hmem, hid⟩ := Table.find?_some hfind
  exact ⟨row, hmem, hid, hstatus, rfl, rfl⟩

/-- A terminal row stays as it is; any other one takes the terminal status. -/
theorem finalize_ok {transferId : Nat} {status : TransferStatus} {code : Option String} {now : Int}
    {d d' : Desk} {r : InternalTransferRow}
    (h : finalizeInternalTransfer transferId status code now d = .ok (r, d')) :
    status.isTerminal ∧ ∃ row ∈ d.rows, row.id = transferId
      ∧ ((row.status = status ∧ r = row ∧ d' = d)
        ∨ (row.status.isTerminal = false ∧ r = finalizedRow row status code now
          ∧ d' = { d with rows := Table.put d.rows r })) := by
  unfold finalizeInternalTransfer at h
  simp only [raiseIf_bind_eq_ok, found_bind_eq_ok, Bool.not_eq_false] at h
  obtain ⟨hterm, -, row, hfind, h⟩ := h
  obtain ⟨hmem, hid⟩ := Table.find?_some hfind
  refine ⟨hterm, row, hmem, hid, ?_⟩
  split at h
  · simp only [raiseIf_bind_eq_ok, Except.ok.injEq, Prod.mk.injEq, not_not] at h
    obtain ⟨hsame, rfl, rfl⟩ := h
    exact .inl ⟨hsame, rfl, rfl⟩
  · next hopen =>
      cases h
      exact .inr ⟨Bool.not_eq_true _ ▸ hopen, rfl, rfl⟩

end Desk

end BasisHawk.Transfers
