/-
  BasisHawk.Notifications.Storage
  ───────────────────────────────
  The notification outbox: the table `notification_outbox` with its
  transactions (`storage.py`).

  A worker claims the rows that are due, which counts as an attempt, and later
  reports a result under the row's id alone.  A row whose result is missing
  for five minutes can be claimed again.

  Main results:
    • `insertPending_spec` — what an enqueued notification adds to the table,
    • `claimNotifications_ok` — a claim takes rows that are due, and counts,
    • `markNotificationSent_cases`, `markNotificationFailed_cases` — a report
      settles a row that is `sending`, or does nothing.
-/
import Mathlib.Data.List.Sort
import BasisHawk.Domain.Basic
import BasisHawk.Lib.Table
import BasisHawk.Lib.Transaction

namespace BasisHawk.Notifications

open Domain Lib

/-! ## §1. Rows. -/

inductive Channel where
  | telegram | email
  deriving DecidableEq, Repr

inductive Severity where
  | info | warning | critical
  deriving DecidableEq, Repr

inductive Status where
  | pending | sending | retry | sent | dead
  deriving DecidableEq, Repr

/-- No transaction takes a row out of these. -/
def Status.terminal : Status → Bool
  | .sent | .dead => true
  | .pending | .sending | .retry => false

/-- `NotificationOutboxRow`. -/
structure NotificationOutboxRow where
  id : Nat
  dedupeKey : String
  eventType : String
  severity : Severity
  channel : Channel
  subject : String
  body : String
  status : Status
  attempts : Nat
  nextAttemptAt : Int
  lastErrorCode : Option String
  createdAt : Int
  updatedAt : Int
  sentAt : Option Int
  deriving DecidableEq

/-- `NotificationOutboxItem` has the columns of the row. -/
abbrev NotificationOutboxItem := NotificationOutboxRow

instance : Keyed NotificationOutboxRow := ⟨(·.id)⟩

/-- One second in microseconds. -/
def second : Int := 1000000

/-- `stale_after` of `claim_notifications`. -/
def staleAfter : Int := 300 * second

/-- `max_attempts` of `mark_notification_failed`. -/
def maxAttempts : Nat := 8

/-! ## §2. Transactions. -/

/-- The arguments of `enqueue_notification`. -/
structure EnqueueRequest where
  dedupeKey : String
  eventType : String
  severity : Severity
  channels : List Channel
  subject : String
  body : String

/-- A row as it enters the table. -/
def pendingRow (req : EnqueueRequest) (channel : Channel) (id : Nat) (now : Int) :
    NotificationOutboxRow where
  id
  dedupeKey := req.dedupeKey
  eventType := req.eventType
  severity := req.severity
  channel
  subject := req.subject
  body := req.body
  status := .pending
  attempts := 0
  nextAttemptAt := now
  lastErrorCode := none
  createdAt := now
  updatedAt := now
  sentAt := none

/-- A row per channel, unless the pair of key and channel is there already. -/
def insertPending (req : EnqueueRequest) (now : Int) :
    List Channel → Nat → List NotificationOutboxRow → List NotificationOutboxRow × Nat
  | [], nextId, rows => (rows, nextId)
  | channel :: rest, nextId, rows =>
      if ∃ r ∈ rows, r.dedupeKey = req.dedupeKey ∧ r.channel = channel then
        insertPending req now rest nextId rows
      else insertPending req now rest (nextId + 1) (rows ++ [pendingRow req channel nextId now])

/-- `sorted(channels)`. -/
def sortedChannels (channels : List Channel) : List Channel :=
  [Channel.email, Channel.telegram].filter (· ∈ channels)

/-- `ORDER BY next_attempt_at, created_at`. -/
def dueBefore (r r' : NotificationOutboxRow) : Prop :=
  r.nextAttemptAt < r'.nextAttemptAt
    ∨ (r.nextAttemptAt = r'.nextAttemptAt ∧ r.createdAt ≤ r'.createdAt)

instance (r r' : NotificationOutboxRow) : Decidable (dueBefore r r') :=
  inferInstanceAs (Decidable (_ ∨ (_ ∧ _)))

namespace NotificationOutboxRow

/-- The row can be claimed: its time has come, or its result is overdue. -/
def due (now : Int) (r : NotificationOutboxRow) : Prop :=
  ((r.status = .pending ∨ r.status = .retry) ∧ r.nextAttemptAt ≤ now)
    ∨ (r.status = .sending ∧ r.updatedAt ≤ now - staleAfter)

instance (now : Int) (r : NotificationOutboxRow) : Decidable (r.due now) :=
  inferInstanceAs (Decidable ((_ ∧ _) ∨ (_ ∧ _)))

/-- The row with one more attempt under way. -/
def claimed (now : Int) (r : NotificationOutboxRow) : NotificationOutboxRow :=
  { r with
    status := .sending
    attempts := r.attempts + 1
    updatedAt := now
    lastErrorCode := none }

/-- What a claim of the rows of `ids` leaves of a row. -/
def afterClaim (ids : List Nat) (now : Int) (r : NotificationOutboxRow) : NotificationOutboxRow :=
  if r.id ∈ ids then r.claimed now else r

/-- The row that was delivered. -/
def delivered (now : Int) (r : NotificationOutboxRow) : NotificationOutboxRow :=
  { r with
    status := .sent
    updatedAt := now
    sentAt := some now
    lastErrorCode := none }

/-- The row whose delivery failed. -/
def failed (errorCode : String) (now : Int) (r : NotificationOutboxRow) : NotificationOutboxRow :=
  if maxAttempts ≤ r.attempts then { r with
    status := .dead
    nextAttemptAt := now
    lastErrorCode := some errorCode
    updatedAt := now }
  else { r with
    status := .retry
    nextAttemptAt := now + min (30 * 2 ^ (r.attempts - 1)) 3600 * second
    lastErrorCode := some errorCode
    updatedAt := now }

end NotificationOutboxRow

/-- The rows a claim selects.  Those another transaction holds a lock on are
skipped. -/
def selected (limit : Nat) (now : Int) (locked : List Nat) (rows : List NotificationOutboxRow) :
    List NotificationOutboxRow :=
  ((rows.filter fun r => r.due now ∧ r.id ∉ locked).insertionSort dueBefore).take limit

/-- The characters of an error code. -/
def safeCharacters : List Char := "abcdefghijklmnopqrstuvwxyz0123456789_-".toList

/-- `enqueue_notification`.  The rows of `project_notification` enter the table
in the same way. -/
def enqueueNotification (req : EnqueueRequest) (now : Int) (nextId : Nat)
    (rows : List NotificationOutboxRow) :
    Except Exc (List NotificationOutboxItem × List NotificationOutboxRow × Nat) := do
  raiseIf (req.dedupeKey = "" ∨ 200 < req.dedupeKey.length)
    (.value "notification dedupe key must contain 1-200 characters")
  raiseIf (req.eventType = "" ∨ 100 < req.eventType.length)
    (.value "notification event type must contain 1-100 characters")
  raiseIf (req.channels = []) (.value "unsupported notification channel")
  raiseIf (req.subject = "" ∨ 200 < req.subject.length)
    (.value "notification subject must contain 1-200 characters")
  raiseIf (req.body = "") (.value "notification body is required")
  let channels := sortedChannels req.channels
  let (rows, nextId) := insertPending req now channels nextId rows
  .ok (channels.flatMap fun channel =>
    rows.filter fun r => r.dedupeKey = req.dedupeKey ∧ r.channel = channel, rows, nextId)

/-- `claim_notifications`. -/
def claimNotifications (limit : Nat) (now : Int) (locked : List Nat)
    (rows : List NotificationOutboxRow) :
    Except Exc (List NotificationOutboxItem × List NotificationOutboxRow) := do
  raiseIf (limit < 1 ∨ 100 < limit) (.value "notification claim limit must be between 1 and 100")
  let picked := selected limit now locked rows
  .ok (picked.map (·.claimed now), rows.map (·.afterClaim (picked.map (·.id)) now))

/-- `mark_notification_sent`. -/
def markNotificationSent (id : Nat) (now : Int) (rows : List NotificationOutboxRow) :
    Bool × List NotificationOutboxRow :=
  match Table.find? rows id with
  | none => (false, rows)
  | some r =>
      if r.status = .sending then (true, Table.put rows (r.delivered now)) else (false, rows)

/-- `mark_notification_failed`. -/
def markNotificationFailed (id : Nat) (errorCode : String) (now : Int)
    (rows : List NotificationOutboxRow) :
    Except Exc (Option NotificationOutboxItem × List NotificationOutboxRow) := do
  raiseIf (errorCode = "" ∨ 80 < errorCode.length ∨ errorCode.toList.any (· ∉ safeCharacters))
    (.value "notification error code must be a safe lowercase identifier")
  match Table.find? rows id with
  | none => .ok (none, rows)
  | some r =>
      if r.status ≠ .sending then .ok (none, rows)
      else .ok (some (r.failed errorCode now), Table.put rows (r.failed errorCode now))

/-- `prune_notification_history`. -/
def pruneNotificationHistory (before : Int) (rows : List NotificationOutboxRow) :
    List NotificationOutboxRow :=
  rows.filter fun r => ¬(r.status.terminal ∧ r.updatedAt < before)

/-! ## §3. What the transactions do. -/

@[simp] theorem claimed_id (now : Int) (r : NotificationOutboxRow) : (r.claimed now).id = r.id :=
  rfl

@[simp] theorem claimed_attempts (now : Int) (r : NotificationOutboxRow) :
    (r.claimed now).attempts = r.attempts + 1 := rfl

@[simp] theorem claimed_status (now : Int) (r : NotificationOutboxRow) :
    (r.claimed now).status = .sending := rfl

@[simp] theorem afterClaim_id (ids : List Nat) (now : Int) (r : NotificationOutboxRow) :
    (r.afterClaim ids now).id = r.id := by
  unfold NotificationOutboxRow.afterClaim
  split <;> rfl

theorem afterClaim_of_mem {ids : List Nat} (now : Int) {r : NotificationOutboxRow}
    (h : r.id ∈ ids) : r.afterClaim ids now = r.claimed now := if_pos h

theorem afterClaim_of_not_mem {ids : List Nat} (now : Int) {r : NotificationOutboxRow}
    (h : r.id ∉ ids) : r.afterClaim ids now = r := if_neg h

@[simp] theorem delivered_id (now : Int) (r : NotificationOutboxRow) :
    (r.delivered now).id = r.id := rfl

@[simp] theorem delivered_attempts (now : Int) (r : NotificationOutboxRow) :
    (r.delivered now).attempts = r.attempts := rfl

@[simp] theorem delivered_status (now : Int) (r : NotificationOutboxRow) :
    (r.delivered now).status = .sent := rfl

@[simp] theorem failed_id (errorCode : String) (now : Int) (r : NotificationOutboxRow) :
    (r.failed errorCode now).id = r.id := by
  unfold NotificationOutboxRow.failed
  split <;> rfl

@[simp] theorem failed_attempts (errorCode : String) (now : Int) (r : NotificationOutboxRow) :
    (r.failed errorCode now).attempts = r.attempts := by
  unfold NotificationOutboxRow.failed
  split <;> rfl

/-- A failed row is dead after its last attempt and waits before. -/
theorem failed_status (errorCode : String) (now : Int) (r : NotificationOutboxRow) :
    (r.failed errorCode now).status = .dead
      ∨ ((r.failed errorCode now).status = .retry ∧ r.attempts < maxAttempts) := by
  unfold NotificationOutboxRow.failed
  split
  · exact Or.inl rfl
  · next h => exact Or.inr ⟨rfl, Nat.lt_of_not_le h⟩

/-- A claim selects rows that are due. -/
theorem mem_selected {limit : Nat} {now : Int} {locked : List Nat}
    {rows : List NotificationOutboxRow} {r : NotificationOutboxRow}
    (h : r ∈ selected limit now locked rows) : r ∈ rows ∧ r.due now := by
  have hmem := (List.perm_insertionSort dueBefore _).subset (List.mem_of_mem_take h)
  have hfilter := List.mem_filter.mp hmem
  have hdue : r.due now ∧ r.id ∉ locked := by simpa using hfilter.2
  exact ⟨hfilter.1, hdue.1⟩

/-- A claim selects no row twice. -/
theorem selected_nodup {limit : Nat} {now : Int} {locked : List Nat}
    {rows : List NotificationOutboxRow} (hu : Table.Unique rows) :
    ((selected limit now locked rows).map (·.id)).Nodup := by
  unfold selected
  rw [List.map_take]
  refine List.Nodup.sublist (List.take_sublist _ _) ?_
  have hperm := List.perm_insertionSort dueBefore
    (rows.filter fun r => r.due now ∧ r.id ∉ locked)
  rw [(hperm.map _).nodup_iff]
  exact List.Nodup.sublist (List.Sublist.map _ List.filter_sublist) hu

/-- The rows that enter the table are new, pending, and without an attempt. -/
theorem insertPending_spec (req : EnqueueRequest) (now : Int) (channels : List Channel) :
    ∀ (nextId : Nat) (rows : List NotificationOutboxRow), ∃ new,
      (insertPending req now channels nextId rows).1 = rows ++ new
        ∧ nextId ≤ (insertPending req now channels nextId rows).2 ∧ Table.Unique new
        ∧ ∀ r ∈ new, nextId ≤ r.id ∧ r.id < (insertPending req now channels nextId rows).2
            ∧ r.status = .pending ∧ r.attempts = 0 := by
  induction channels with
  | nil =>
      intro nextId rows
      exact ⟨[], by simp [insertPending], Nat.le_refl _, List.nodup_nil, by simp⟩
  | cons channel rest ih =>
      intro nextId rows
      unfold insertPending
      by_cases hthere : ∃ r ∈ rows, r.dedupeKey = req.dedupeKey ∧ r.channel = channel
      · rw [if_pos hthere]
        exact ih nextId rows
      · rw [if_neg hthere]
        have hrest := ih (nextId + 1) (rows ++ [pendingRow req channel nextId now])
        obtain ⟨new, hrows, hle, hu, hnew⟩ := hrest
        refine ⟨pendingRow req channel nextId now :: new, ?_, by omega, ?_, ?_⟩
        · rw [hrows, List.append_assoc]
          rfl
        · -- The later ids are larger than the first one.
          refine List.nodup_cons.mpr ⟨fun hmem => ?_, hu⟩
          obtain ⟨r, hr, hid⟩ := List.mem_map.mp hmem
          have hlt : nextId + 1 ≤ r.id := (hnew r hr).1
          have heq : r.id = nextId := hid
          omega
        · intro r hr
          rcases List.mem_cons.mp hr with rfl | hr
          · exact ⟨Nat.le_refl _, hle, rfl, rfl⟩
          · have h := hnew r hr
            exact ⟨by omega, h.2⟩

/-- A row that is due is not in a terminal state. -/
theorem due_not_terminal {now : Int} {r : NotificationOutboxRow} (h : r.due now) :
    r.status.terminal = false := by
  rcases h with ⟨h | h, -⟩ | ⟨h, -⟩ <;> rw [h] <;> rfl

/-- A claim takes rows that are due, and counts. -/
theorem claimNotifications_ok {limit : Nat} {now : Int} {locked : List Nat}
    {rows rows' : List NotificationOutboxRow} {items : List NotificationOutboxItem}
    (h : claimNotifications limit now locked rows = .ok (items, rows')) :
    items = (selected limit now locked rows).map (·.claimed now)
      ∧ rows' = rows.map (·.afterClaim ((selected limit now locked rows).map (·.id)) now) := by
  obtain ⟨-, h⟩ := raiseIf_bind_eq_ok.mp h
  injection h with h
  rw [Prod.mk.injEq] at h
  exact ⟨h.1.symm, h.2.symm⟩

/-- A report of a delivery settles a row that is `sending`, or does nothing. -/
theorem markNotificationSent_cases (id : Nat) (now : Int) (rows : List NotificationOutboxRow) :
    (markNotificationSent id now rows).2 = rows
      ∨ ∃ r ∈ rows, r.id = id ∧ r.status = .sending
          ∧ (markNotificationSent id now rows).2 = Table.put rows (r.delivered now) := by
  unfold markNotificationSent
  split
  · exact Or.inl rfl
  · next r hr =>
      obtain ⟨hmem, hid⟩ := Table.find?_some hr
      by_cases hs : r.status = .sending
      · rw [if_pos hs]
        exact Or.inr ⟨r, hmem, hid, hs, rfl⟩
      · rw [if_neg hs]
        exact Or.inl rfl

/-- A report of a failure, as well. -/
theorem markNotificationFailed_cases {id : Nat} {errorCode : String} {now : Int}
    {rows rows' : List NotificationOutboxRow} {item : Option NotificationOutboxItem}
    (h : markNotificationFailed id errorCode now rows = .ok (item, rows')) :
    rows' = rows ∨ ∃ r ∈ rows, r.id = id ∧ r.status = .sending
      ∧ rows' = Table.put rows (r.failed errorCode now) := by
  obtain ⟨-, h⟩ := raiseIf_bind_eq_ok.mp h
  split at h
  · injection h with h
    rw [Prod.mk.injEq] at h
    exact Or.inl h.2.symm
  · next r hr =>
      obtain ⟨hmem, hid⟩ := Table.find?_some hr
      by_cases hs : r.status = .sending
      · rw [if_neg (fun hne => hne hs)] at h
        injection h with h
        rw [Prod.mk.injEq] at h
        exact Or.inr ⟨r, hmem, hid, hs, h.2.symm⟩
      · rw [if_pos hs] at h
        injection h with h
        rw [Prod.mk.injEq] at h
        exact Or.inl h.2.symm

end BasisHawk.Notifications
