/-
  BasisHawk.Notifications.Projection
  ──────────────────────────────────
  `project_notification` (`storage.py`) and the service that calls it
  (`NotificationProjectionService`, `notifications.py`).

  A projection compares the fingerprint of a source with the one it saw last.
  A change counts the generation of the source up, and the alert it enters in
  the outbox carries that number in its key.  So a change is told once on each
  channel, however often it is looked at and whatever happens to the rows.

  Main results:
    • `dedupeKey_inj` — the key names the source and the change,
    • `Projected` — what every order of the transactions keeps,
    • `alerts_exactly_once` — alerts and changes, over every order of them.
-/
import BasisHawk.Notifications.Storage
import Mathlib.Data.List.Induction

namespace BasisHawk.Notifications

open Domain Lib

/-! ## §1. The state of the projections. -/

/-- `NotificationProjectionStateRow`. -/
structure NotificationProjectionStateRow where
  sourceKey : String
  fingerprint : String
  generation : Nat
  updatedAt : Int
  deriving DecidableEq

/-- The arguments of `project_notification`. -/
structure ProjectionRequest where
  sourceKey : String
  fingerprint : String
  notify : Bool
  eventType : String
  severity : Severity
  channels : List Channel
  subject : String
  body : String
  deriving DecidableEq

/-- The tables of the notifications. -/
structure Store where
  states : List NotificationProjectionStateRow
  rows : List NotificationOutboxRow
  nextId : Nat

namespace Store

def empty : Store := ⟨[], [], 0⟩

/-- The state of a source. -/
def stateOf (s : Store) (source : String) : Option NotificationProjectionStateRow :=
  s.states.find? (·.sourceKey = source)

/-- The states with that of a source written. -/
def written (s : Store) (new : NotificationProjectionStateRow) : List NotificationProjectionStateRow :=
  match s.stateOf new.sourceKey with
  | none => s.states ++ [new]
  | some _ => s.states.map fun row => if row.sourceKey = new.sourceKey then new else row

end Store

/-- `f"projection:{source_key}:{generation}"`. -/
def dedupeKey (source : String) (generation : Nat) : String :=
  "projection:" ++ source ++ ":" ++ toString generation

/-- The characters of a fingerprint. -/
def hexDigits : List Char := "0123456789abcdef".toList

/-- The alert of a change. -/
def ProjectionRequest.alert (req : ProjectionRequest) (generation : Nat) : EnqueueRequest where
  dedupeKey := dedupeKey req.sourceKey generation
  eventType := req.eventType
  severity := req.severity
  channels := req.channels
  subject := req.subject
  body := req.body

/-- `session.add_all`: the table refuses a pair of key and channel that is there. -/
def insertNew (req : EnqueueRequest) (now : Int) :
    List Channel → Nat → List NotificationOutboxRow →
      Except Exc (List NotificationOutboxRow × Nat)
  | [], nextId, rows => .ok (rows, nextId)
  | channel :: rest, nextId, rows => do
      raiseIf (∃ r ∈ rows, r.dedupeKey = req.dedupeKey ∧ r.channel = channel)
        (.integrity "uq_notification_outbox_dedupe_channel")
      insertNew req now rest (nextId + 1) (rows ++ [pendingRow req channel nextId now])

/-- `project_notification`. -/
def projectNotification (req : ProjectionRequest) (now : Int) (s : Store) :
    Except Exc (Bool × Store) := do
  raiseIf (req.sourceKey = "" ∨ 150 < req.sourceKey.length)
    (.value "notification source key must contain 1-150 characters")
  raiseIf (req.fingerprint.length ≠ 64 ∨ req.fingerprint.toList.any (· ∉ hexDigits))
    (.value "notification fingerprint must be lowercase SHA-256")
  let state := s.stateOf req.sourceKey
  if state.map (·.fingerprint) = some req.fingerprint then
    return (false, s)
  else
    let generation := (state.map (·.generation)).getD 0 + 1
    let states := s.written ⟨req.sourceKey, req.fingerprint, generation, now⟩
    if req.notify then
      raiseIf (req.channels = []) (.value "unsupported notification channel")
      raiseIf (req.eventType = "" ∨ 100 < req.eventType.length)
        (.value "notification event type must contain 1-100 characters")
      raiseIf (req.subject = "" ∨ 200 < req.subject.length)
        (.value "notification subject must contain 1-200 characters")
      raiseIf (req.body = "") (.value "notification body is required")
      let (rows, nextId) ←
        insertNew (req.alert generation) now (sortedChannels req.channels) s.nextId s.rows
      return (true, ⟨states, rows, nextId⟩)
    else
      return (false, { s with states := states })

/-! ## §2. The other writers of the outbox. -/

/-- The answer to a command (`TelegramCommandService.handle_update`). -/
def commandResponse (updateId : Int) (command body : String) : EnqueueRequest where
  dedupeKey := "telegram:update:" ++ toString updateId
  eventType := "telegram.command_response"
  severity := .info
  channels := [.telegram]
  subject := "Basis Hawk " ++ (if command = "" then "command" else command)
  body

/-- The test of the channels that the API offers. -/
def deliveryTest (requestId actor createdAt : String) (channels : List Channel) : EnqueueRequest where
  dedupeKey := "notification-test:" ++ requestId
  eventType := "notification.test"
  severity := .info
  channels
  subject := "Basis Hawk notification test"
  body := "Basis Hawk notification delivery test requested by " ++ actor ++ " at " ++ createdAt ++ "."

/-- A transaction on these tables, with what it is called with. -/
inductive Event where
  | project (req : ProjectionRequest) (now : Int)
  | respond (updateId : Int) (command body : String) (now : Int)
  | test (requestId actor createdAt : String) (channels : List Channel) (now : Int)
  | claim (limit : Nat) (now : Int) (locked : List Nat)
  | sent (id : Nat) (now : Int)
  | failed (id : Nat) (errorCode : String) (now : Int)
  | prune (before : Int)

namespace Store

/-- What `enqueue_notification` leaves: a transaction that raises is rolled back. -/
def enqueued (s : Store) (req : EnqueueRequest) (now : Int) : Store :=
  match enqueueNotification req now s.nextId s.rows with
  | .ok (_, rows, nextId) => { s with rows, nextId }
  | .error _ => s

/-- As much of a transaction on the rows. -/
def settled {α : Type} (s : Store) : Except Exc (α × List NotificationOutboxRow) → Store
  | .ok (_, rows) => { s with rows }
  | .error _ => s

/-- And of `project_notification`. -/
def projected (s : Store) (req : ProjectionRequest) (now : Int) : Store :=
  match projectNotification req now s with
  | .ok (_, s') => s'
  | .error _ => s

/-- What a transaction leaves. -/
def after (s : Store) : Event → Store
  | .project req now => s.projected req now
  | .respond updateId command body now => s.enqueued (commandResponse updateId command body) now
  | .test requestId actor createdAt channels now =>
      s.enqueued (deliveryTest requestId actor createdAt channels) now
  | .claim limit now locked => s.settled (claimNotifications limit now locked s.rows)
  | .sent id now => { s with rows := (markNotificationSent id now s.rows).2 }
  | .failed id errorCode now => s.settled (markNotificationFailed id errorCode now s.rows)
  | .prune before => { s with rows := pruneNotificationHistory before s.rows }

end Store

/-- The store after transactions in this order. -/
def replay (events : List Event) : Store := events.foldl Store.after .empty

/-- The last event acts on what the ones before have left. -/
theorem replay_append (events : List Event) (e : Event) :
    replay (events ++ [e]) = (replay events).after e := by
  unfold replay
  rw [List.foldl_append]
  rfl

/-! ## §3. Keys. -/

/-- What stands before the last separator and what stands after it. -/
theorem split_last {α : Type} {c : α} {xs ys zs ws : List α} (hzs : c ∉ zs) (hws : c ∉ ws)
    (h : xs ++ c :: zs = ys ++ c :: ws) : xs = ys ∧ zs = ws := by
  have hrev : zs.reverse ++ c :: xs.reverse = ws.reverse ++ c :: ys.reverse := by
    have := congrArg List.reverse h
    simpa using this
  have hz : c ∉ zs.reverse := fun hmem => hzs (List.mem_reverse.mp hmem)
  have hw : c ∉ ws.reverse := fun hmem => hws (List.mem_reverse.mp hmem)
  rcases List.append_eq_append_iff.mp hrev with ⟨as, hws', htail⟩ | ⟨as, hzs', htail⟩
  · cases as with
    | nil =>
        rw [List.append_nil] at hws'
        injection htail with _ htail
        exact ⟨List.reverse_injective htail, (List.reverse_injective hws').symm⟩
    | cons a as =>
        injection htail with ha _
        rw [hws', ha] at hw
        exact absurd (List.mem_append.mpr (.inr List.mem_cons_self)) hw
  · cases as with
    | nil =>
        rw [List.append_nil] at hzs'
        injection htail with _ htail
        exact ⟨(List.reverse_injective htail).symm, List.reverse_injective hzs'⟩
    | cons a as =>
        injection htail with ha _
        rw [hzs', ha] at hz
        exact absurd (List.mem_append.mpr (.inr List.mem_cons_self)) hz

/-- A key names the source and the generation: the source may hold any character,
the number holds no colon. -/
theorem dedupeKey_inj {source source' : String} {n m : Nat}
    (h : dedupeKey source n = dedupeKey source' m) : source = source' ∧ n = m := by
  have hdigits : ∀ k : Nat, ':' ∉ (toString k).toList := by
    intro k hmem
    have hdigit := Nat.isDigit_of_mem_toDigits (b := 10) (n := k) (by decide) (by decide)
      (by rw [← Nat.toList_repr]; exact hmem)
    exact absurd hdigit (by decide)
  have hlist := congrArg String.toList h
  simp only [dedupeKey, String.toList_append] at hlist
  have hcut : ("projection:".toList ++ source.toList) ++ ':' :: (toString n).toList
      = ("projection:".toList ++ source'.toList) ++ ':' :: (toString m).toList := by
    simpa using hlist
  obtain ⟨hsource, hnumber⟩ := split_last (hdigits n) (hdigits m) hcut
  refine ⟨String.toList_injective (List.append_cancel_left hsource), ?_⟩
  have hn : Nat.toDigits 10 n = Nat.toDigits 10 m := by
    rw [← Nat.toList_repr, ← Nat.toList_repr]
    exact hnumber
  calc n = Nat.ofDigitChars 10 (Nat.toDigits 10 n) 0 := Nat.ofDigitChars_ten_toDigits.symm
    _ = Nat.ofDigitChars 10 (Nat.toDigits 10 m) 0 := congrArg (Nat.ofDigitChars 10 · 0) hn
    _ = m := Nat.ofDigitChars_ten_toDigits

/-- The key of an alert of a projection. -/
def IsProjection (key : String) : Prop := ∃ source generation, key = dedupeKey source generation

/-- What every key of a projection begins with. -/
theorem IsProjection.head {key : String} (h : IsProjection key) : key.toList.head? = some 'p' := by
  obtain ⟨source, n, rfl⟩ := h
  unfold dedupeKey
  simp only [String.toList_append]
  rfl

/-- The response to a command has a key of its own kind, so it never takes the
place of an alert. -/
theorem commandResponse_key (updateId : Int) (command body : String) :
    ¬IsProjection (commandResponse updateId command body).dedupeKey := by
  intro h
  have hhead : ("telegram:update:" ++ toString updateId).toList.head? = some 'p' := h.head
  rw [String.toList_append] at hhead
  injection hhead with hhead
  exact absurd hhead (by decide)

/-- Nor does a delivery test. -/
theorem deliveryTest_key (requestId actor createdAt : String) (channels : List Channel) :
    ¬IsProjection (deliveryTest requestId actor createdAt channels).dedupeKey := by
  intro h
  have hhead : ("notification-test:" ++ requestId).toList.head? = some 'p' := h.head
  rw [String.toList_append] at hhead
  injection hhead with hhead
  exact absurd hhead (by decide)

/-! ## §4. One projection. -/

namespace ProjectionRequest

/-- What is checked of every request. -/
def SourceValid (req : ProjectionRequest) : Prop :=
  (req.sourceKey ≠ "" ∧ req.sourceKey.length ≤ 150)
    ∧ req.fingerprint.length = 64 ∧ ∀ c ∈ req.fingerprint.toList, c ∈ hexDigits

/-- What is checked of a change that is to be told. -/
def ContentValid (req : ProjectionRequest) : Prop :=
  req.channels ≠ [] ∧ (req.eventType ≠ "" ∧ req.eventType.length ≤ 100)
    ∧ (req.subject ≠ "" ∧ req.subject.length ≤ 200) ∧ req.body ≠ ""

/-- The request is accepted where its fingerprint is new. -/
def Valid (req : ProjectionRequest) : Prop :=
  req.SourceValid ∧ (req.notify = true → req.ContentValid)

instance (req : ProjectionRequest) : Decidable req.SourceValid :=
  inferInstanceAs (Decidable ((_ ∧ _) ∧ _ ∧ _))

instance (req : ProjectionRequest) : Decidable req.ContentValid :=
  inferInstanceAs (Decidable (_ ∧ (_ ∧ _) ∧ (_ ∧ _) ∧ _))

instance (req : ProjectionRequest) : Decidable req.Valid :=
  inferInstanceAs (Decidable (_ ∧ (_ → _)))

end ProjectionRequest

/-- The rows of an alert. -/
def freshRows (req : EnqueueRequest) (now : Int) : List Channel → Nat → List NotificationOutboxRow
  | [], _ => []
  | channel :: rest, nextId =>
      pendingRow req channel nextId now :: freshRows req now rest (nextId + 1)

/-- A fresh row is a pending row of one of the channels under a new identifier.
-/
theorem mem_freshRows {req : EnqueueRequest} {now : Int} :
    ∀ {channels : List Channel} {nextId : Nat} {r : NotificationOutboxRow},
      r ∈ freshRows req now channels nextId →
        ∃ channel ∈ channels, ∃ id, nextId ≤ id ∧ id < nextId + channels.length
          ∧ r = pendingRow req channel id now
  | channel :: rest, nextId, r, h => by
      rcases List.mem_cons.mp h with rfl | h
      · exact ⟨channel, List.mem_cons_self, nextId, le_refl _, by simp, rfl⟩
      · obtain ⟨other, hmem, id, hge, hlt, rfl⟩ := mem_freshRows h
        refine ⟨other, List.mem_cons_of_mem _ hmem, id, Nat.le_of_succ_le hge, ?_, rfl⟩
        rw [List.length_cons]
        omega

/-- Fresh rows have distinct identifiers. -/
theorem freshRows_ids {req : EnqueueRequest} {now : Int} :
    ∀ (channels : List Channel) (nextId : Nat), Table.Unique (freshRows req now channels nextId)
  | [], _ => List.nodup_nil
  | channel :: rest, nextId => by
      refine List.nodup_cons.mpr ⟨fun hmem => ?_, freshRows_ids rest (nextId + 1)⟩
      obtain ⟨r, hr, hid⟩ := List.mem_map.mp hmem
      obtain ⟨_, -, id, hge, -, rfl⟩ := mem_freshRows hr
      have hid : id = nextId := hid
      omega

/-- And one channel each, in order. -/
theorem freshRows_channels (req : EnqueueRequest) (now : Int) :
    ∀ (channels : List Channel) (nextId : Nat),
      (freshRows req now channels nextId).map (·.channel) = channels
  | [], _ => rfl
  | channel :: rest, nextId => congrArg (channel :: ·) (freshRows_channels req now rest (nextId + 1))

/-- The rows enter the table where their key is not there yet. -/
theorem insertNew_fresh {req : EnqueueRequest} {now : Int} :
    ∀ {channels : List Channel} {nextId : Nat} {rows : List NotificationOutboxRow},
      channels.Nodup → (∀ r ∈ rows, r.dedupeKey = req.dedupeKey → r.channel ∉ channels) →
      insertNew req now channels nextId rows
        = .ok (rows ++ freshRows req now channels nextId, nextId + channels.length)
  | [], nextId, rows, _, _ => by
      unfold insertNew freshRows
      rw [List.append_nil]
      rfl
  | channel :: rest, nextId, rows, hnodup, hfree => by
      obtain ⟨hnot, hrest⟩ := List.nodup_cons.mp hnodup
      have hfirst : ¬∃ r ∈ rows, r.dedupeKey = req.dedupeKey ∧ r.channel = channel := by
        rintro ⟨r, hr, hkey, hch⟩
        exact hfree r hr hkey (hch ▸ List.mem_cons_self)
      have hothers : ∀ r ∈ rows ++ [pendingRow req channel nextId now],
          r.dedupeKey = req.dedupeKey → r.channel ∉ rest := by
        intro r hr hkey
        rcases List.mem_append.mp hr with hr | hr
        · exact fun hmem => hfree r hr hkey (List.mem_cons_of_mem _ hmem)
        · rw [List.mem_singleton.mp hr]
          exact hnot
      refine raiseIf_bind_eq_ok.mpr ⟨hfirst, (insertNew_fresh hrest hothers).trans ?_⟩
      rw [List.append_assoc, List.length_cons, Nat.add_right_comm, Nat.add_assoc]
      rfl

namespace Store

/-- How often a source has changed. -/
def generation (s : Store) (source : String) : Nat := ((s.stateOf source).map (·.generation)).getD 0

/-- The fingerprint of a source. -/
def fingerprint (s : Store) (source : String) : Option String :=
  (s.stateOf source).map (·.fingerprint)

/-- The rows that a change enters. -/
def alertRows (s : Store) (req : ProjectionRequest) (now : Int) : List NotificationOutboxRow :=
  if req.notify then
    freshRows (req.alert (s.generation req.sourceKey + 1)) now (sortedChannels req.channels) s.nextId
  else []

/-- The store after a change. -/
def changed (s : Store) (req : ProjectionRequest) (now : Int) : Store where
  states := s.written ⟨req.sourceKey, req.fingerprint, s.generation req.sourceKey + 1, now⟩
  rows := s.rows ++ s.alertRows req now
  nextId := s.nextId + (s.alertRows req now).length

theorem freshRows_length (req : EnqueueRequest) (now : Int) (channels : List Channel) (nextId : Nat) :
    (freshRows req now channels nextId).length = channels.length := by
  have h := congrArg List.length (freshRows_channels req now channels nextId)
  rw [List.length_map] at h
  exact h

/-- A channel is listed once, however often a request names it. -/
theorem sortedChannels_nodup (channels : List Channel) : (sortedChannels channels).Nodup :=
  List.Nodup.filter _ (by decide)

/-- Sorting and removing duplicates keeps the channels. -/
theorem mem_sortedChannels {channels : List Channel} {channel : Channel} :
    channel ∈ sortedChannels channels ↔ channel ∈ channels := by
  unfold sortedChannels
  rw [List.mem_filter, decide_eq_true_eq]
  refine ⟨fun h => h.2, fun h => ⟨?_, h⟩⟩
  cases channel <;> decide

variable {s : Store} {req : ProjectionRequest} {now : Int}

/-- The first two checks. -/
theorem sourceValid_iff : req.SourceValid ↔ ¬(req.sourceKey = "" ∨ 150 < req.sourceKey.length)
    ∧ ¬(req.fingerprint.length ≠ 64 ∨ req.fingerprint.toList.any (· ∉ hexDigits)) := by
  unfold ProjectionRequest.SourceValid
  simp only [not_or, not_lt, not_not, ne_eq, List.any_eq_true, decide_eq_true_eq, not_exists, not_and]

/-- The four others. -/
theorem contentValid_iff : req.ContentValid ↔ ¬req.channels = []
    ∧ ¬(req.eventType = "" ∨ 100 < req.eventType.length)
    ∧ ¬(req.subject = "" ∨ 200 < req.subject.length) ∧ ¬req.body = "" := by
  unfold ProjectionRequest.ContentValid
  simp only [not_or, not_lt, ne_eq]

/-- A source that looks as before changes nothing. -/
theorem project_repeats (hvalid : req.SourceValid)
    (hsame : s.fingerprint req.sourceKey = some req.fingerprint) :
    projectNotification req now s = .ok (false, s) := by
  obtain ⟨hsource, hfingerprint⟩ := sourceValid_iff.mp hvalid
  refine raiseIf_bind_eq_ok.mpr ⟨hsource, raiseIf_bind_eq_ok.mpr ⟨hfingerprint, ?_⟩⟩
  exact if_pos hsame

/-- A change is written and told, where its key is not taken. -/
theorem project_changes (hvalid : req.Valid)
    (hnew : s.fingerprint req.sourceKey ≠ some req.fingerprint)
    (hfree : ∀ r ∈ s.rows, r.dedupeKey ≠ dedupeKey req.sourceKey (s.generation req.sourceKey + 1)) :
    projectNotification req now s = .ok (req.notify, s.changed req now) := by
  obtain ⟨hsource, hfingerprint⟩ := sourceValid_iff.mp hvalid.1
  refine raiseIf_bind_eq_ok.mpr ⟨hsource, raiseIf_bind_eq_ok.mpr ⟨hfingerprint, ?_⟩⟩
  refine (if_neg hnew).trans ?_
  unfold changed alertRows
  cases hnotify : req.notify with
  | false =>
      rw [if_neg Bool.false_ne_true, if_neg Bool.false_ne_true, List.append_nil]
      rfl
  | true =>
      obtain ⟨hchannels, htype, hsubject, hbody⟩ := contentValid_iff.mp (hvalid.2 hnotify)
      rw [if_pos rfl, if_pos rfl]
      refine raiseIf_bind_eq_ok.mpr ⟨hchannels, raiseIf_bind_eq_ok.mpr ⟨htype,
        raiseIf_bind_eq_ok.mpr ⟨hsubject, raiseIf_bind_eq_ok.mpr ⟨hbody, ?_⟩⟩⟩⟩
      have hinsert : insertNew (req.alert (s.generation req.sourceKey + 1)) now
          (sortedChannels req.channels) s.nextId s.rows = _ :=
        insertNew_fresh (sortedChannels_nodup req.channels)
          fun r hr hkey => absurd hkey (hfree r hr)
      refine bind_eq_ok.mpr ⟨_, hinsert, ?_⟩
      rw [freshRows_length]
      rfl

/-- A request that is not valid changes nothing. -/
theorem projected_invalid (hvalid : ¬req.Valid) : s.projected req now = s := by
  unfold projected
  cases h : projectNotification req now s with
  | error e => rfl
  | ok result =>
      obtain ⟨done, s'⟩ := result
      obtain ⟨hsource, h⟩ := raiseIf_bind_eq_ok.mp h
      obtain ⟨hfingerprint, h⟩ := raiseIf_bind_eq_ok.mp h
      have hsourceValid : req.SourceValid := sourceValid_iff.mpr ⟨hsource, hfingerprint⟩
      dsimp only at h
      split at h
      · injection h with h
        exact (Prod.mk.inj h).2.symm
      · -- A change that is not told is valid, and one that is told is checked.
        cases hnotify : req.notify with
        | false => exact absurd ⟨hsourceValid, fun hn => by rw [hnotify] at hn; cases hn⟩ hvalid
        | true =>
            rw [hnotify, if_pos rfl] at h
            simp only [raiseIf_bind_eq_ok] at h
            obtain ⟨hchannels, htype, hsubject, hbody, -⟩ := h
            exact absurd ⟨hsourceValid, fun _ => contentValid_iff.mpr
              ⟨hchannels, htype, hsubject, hbody⟩⟩ hvalid

end Store

/-! ## §5. The other transactions. -/

namespace NotificationOutboxRow

/-- A row with its delivery forgotten. -/
def told (r : NotificationOutboxRow) : NotificationOutboxRow :=
  { r with
    status := .pending, attempts := 0, nextAttemptAt := 0, lastErrorCode := none, updatedAt := 0
    sentAt := none }

/-- What the table keeps distinct. -/
def tag (r : NotificationOutboxRow) : String × Channel := (r.dedupeKey, r.channel)

theorem tag_of_told {r r' : NotificationOutboxRow} (h : r'.told = r.told) : r'.tag = r.tag :=
  show r'.told.tag = r.told.tag from congrArg tag h

theorem id_of_told {r r' : NotificationOutboxRow} (h : r'.told = r.told) : r'.id = r.id :=
  show r'.told.id = r.told.id from congrArg (·.id) h

/-- Claiming a row changes what it has been through, not what it tells. -/
theorem told_afterClaim (ids : List Nat) (now : Int) (r : NotificationOutboxRow) :
    (r.afterClaim ids now).told = r.told := by
  unfold afterClaim
  split <;> rfl

/-- Nor does a failure. -/
theorem told_failed (errorCode : String) (now : Int) (r : NotificationOutboxRow) :
    (r.failed errorCode now).told = r.told := by
  unfold failed
  split <;> rfl

end NotificationOutboxRow

open NotificationOutboxRow

/-- A report writes to one row, and only how it was delivered. -/
theorem told_put {rows : List NotificationOutboxRow} (hu : Table.Unique rows)
    {r new : NotificationOutboxRow} (hr : r ∈ rows) (h : new.told = r.told) :
    (Table.put rows new).map told = rows.map told := by
  refine Table.map_put fun x hx hk => ?_
  rw [hu.eq hx hr (hk.trans (id_of_told h)), h]

/-- What an enqueueing enters: rows of one key, where it is not there yet. -/
theorem insertPending_tags (req : EnqueueRequest) (now : Int) :
    ∀ (channels : List Channel) (nextId : Nat) (rows : List NotificationOutboxRow), ∃ new,
      (insertPending req now channels nextId rows).1 = rows ++ new
        ∧ (∀ r ∈ new, r.dedupeKey = req.dedupeKey)
        ∧ ((rows.map tag).Nodup → ((rows ++ new).map tag).Nodup)
  | [], nextId, rows => by
      refine ⟨[], (List.append_nil _).symm, fun _ hr => absurd hr List.not_mem_nil, fun h => ?_⟩
      rw [List.append_nil]
      exact h
  | channel :: rest, nextId, rows => by
      unfold insertPending
      -- The channel has the key already, so nothing is entered for it.
      by_cases hthere : ∃ r ∈ rows, r.dedupeKey = req.dedupeKey ∧ r.channel = channel
      · rw [if_pos hthere]
        exact insertPending_tags req now rest nextId rows
      · rw [if_neg hthere]
        obtain ⟨new, hrows, hkeys, hnodup⟩ :=
          insertPending_tags req now rest (nextId + 1) (rows ++ [pendingRow req channel nextId now])
        refine ⟨pendingRow req channel nextId now :: new, ?_, List.forall_mem_cons.mpr ⟨rfl, hkeys⟩,
          fun h => ?_⟩
        · rw [hrows, List.append_assoc]
          rfl
        · -- A new row brings a pair of key and channel that was not there.
          have hfirst : ((rows ++ [pendingRow req channel nextId now]).map tag).Nodup := by
            rw [List.map_append, List.nodup_append]
            refine ⟨h, List.nodup_singleton _, fun a ha b hb heq => hthere ?_⟩
            obtain ⟨r, hr, rfl⟩ := List.mem_map.mp ha
            rw [List.map_singleton, List.mem_singleton] at hb
            have hboth := Prod.mk.inj (heq.trans hb)
            exact ⟨r, hr, hboth⟩
          have hall := hnodup hfirst
          rw [List.append_assoc] at hall
          exact hall

/-- The rows of the outbox are in order: distinct ids, none to come, and no pair
of key and channel twice. -/
structure Tidy (s : Store) : Prop where
  unique : Table.Unique s.rows
  below : Table.KeysBelow s.rows s.nextId
  once : (s.rows.map tag).Nodup

/-- What a transaction other than a projection does: it reports on deliveries,
prunes, or enters rows under a key that no projection has. -/
inductive Handles (s : Store) : Store → Prop where
  | delivered (rows : List NotificationOutboxRow) (h : rows.map told = s.rows.map told) :
      Handles s { s with rows := rows }
  | pruned (before : Int) : Handles s { s with rows := pruneNotificationHistory before s.rows }
  | entered (new : List NotificationOutboxRow) (n : Nat) (next : s.nextId ≤ n)
      (unique : Table.Unique new) (range : ∀ r ∈ new, s.nextId ≤ r.id ∧ r.id < n)
      (keys : ∀ r ∈ new, ¬IsProjection r.dedupeKey) (once : ((s.rows ++ new).map tag).Nodup) :
      Handles s { s with rows := s.rows ++ new, nextId := n }

/-- Handling nothing leaves the outbox as it is. -/
theorem Handles.refl (s : Store) : Handles s s := .delivered s.rows rfl

/-- A message that is no alert leaves the alerts and the states as they are. -/
theorem enqueued_handles {s : Store} (hs : Tidy s) {req : EnqueueRequest} (now : Int)
    (hkey : ¬IsProjection req.dedupeKey) : Handles s (s.enqueued req now) := by
  unfold Store.enqueued
  cases h : enqueueNotification req now s.nextId s.rows with
  | error e => exact .refl s
  | ok result =>
      obtain ⟨items, rows, n⟩ := result
      simp only [enqueueNotification, raiseIf_bind_eq_ok] at h
      obtain ⟨-, -, -, -, -, h⟩ := h
      injection h with h
      obtain ⟨-, h⟩ := Prod.mk.inj h
      obtain ⟨rfl, rfl⟩ := Prod.mk.inj h
      obtain ⟨new, hrows, hnext, hunique, hrange⟩ :=
        insertPending_spec req now (sortedChannels req.channels) s.nextId s.rows
      obtain ⟨new', hrows', hkeys, hnodup⟩ :=
        insertPending_tags req now (sortedChannels req.channels) s.nextId s.rows
      have heq : new' = new := List.append_cancel_left (hrows'.symm.trans hrows)
      rw [heq] at hkeys hnodup
      dsimp only
      rw [hrows]
      refine .entered new _ hnext hunique (fun r hr => ⟨(hrange r hr).1, (hrange r hr).2.1⟩)
        (fun r hr => ?_) (hnodup hs.once)
      rw [hkeys r hr]
      exact hkey

/-- Every transaction other than a projection. -/
theorem after_handles {s : Store} (hs : Tidy s) (e : Event) (hne : ∀ req now, e ≠ .project req now) :
    Handles s (s.after e) := by
  cases e with
  | project req now => exact absurd rfl (hne req now)
  | respond updateId command body now =>
      -- A response and a delivery test enqueue under keys that no projection has.
      exact enqueued_handles hs now (commandResponse_key updateId command body)
  | test requestId actor createdAt channels now =>
      exact enqueued_handles hs now (deliveryTest_key requestId actor createdAt channels)
  -- A claim changes the delivery of rows, and not what they tell.
  | claim limit now locked =>
      show Handles s (s.settled (claimNotifications limit now locked s.rows))
      cases h : claimNotifications limit now locked s.rows with
      | error e => exact .refl s
      | ok result =>
          obtain ⟨items, rows⟩ := result
          obtain ⟨-, rfl⟩ := claimNotifications_ok h
          refine .delivered _ ?_
          rw [List.map_map]
          exact List.map_congr_left fun r _ => told_afterClaim _ now r
  | sent id now =>
      refine .delivered _ ?_
      rcases markNotificationSent_cases id now s.rows with h | ⟨r, hr, -, -, h⟩
      · rw [h]
      · rw [h]
        exact told_put hs.unique hr rfl
  | failed id errorCode now =>
      show Handles s (s.settled (markNotificationFailed id errorCode now s.rows))
      cases h : markNotificationFailed id errorCode now s.rows with
      | error e => exact .refl s
      | ok result =>
          obtain ⟨item, rows⟩ := result
          refine .delivered _ ?_
          rcases markNotificationFailed_cases h with rfl | ⟨r, hr, -, -, rfl⟩
          · rfl
          · exact told_put hs.unique hr (told_failed errorCode now r)
  -- A pruning takes rows away and adds none.
  | prune before => exact .pruned before

/-! ## §6. Changes. -/

/-- The change of a source that a transaction makes, after the last one. -/
def Event.change (source : String) (last : Option ProjectionRequest) : Event → Option ProjectionRequest
  | .project req _ =>
      if req.sourceKey = source ∧ req.Valid ∧ last.map (·.fingerprint) ≠ some req.fingerprint then
        some req
      else none
  | _ => none

/-- The changes of a source, in order: the requests for it that are accepted and
do not repeat the fingerprint before. -/
def changesOf (source : String) (events : List Event) : List ProjectionRequest :=
  events.foldl (fun changes e => changes ++ (e.change source changes.getLast?).toList) []

/-- One event more adds at most one change of its source. -/
theorem changesOf_append (source : String) (events : List Event) (e : Event) :
    changesOf source (events ++ [e])
      = changesOf source events ++ (e.change source (changesOf source events).getLast?).toList := by
  unfold changesOf
  rw [List.foldl_append]
  rfl

/-- An event that projects nothing changes no source. -/
theorem changesOf_other {source : String} (events : List Event) {e : Event}
    (hne : ∀ req now, e ≠ .project req now) :
    changesOf source (events ++ [e]) = changesOf source events := by
  rw [changesOf_append]
  cases e with
  | project req now => exact absurd rfl (hne req now)
  | respond | test | claim | sent | failed | prune => exact List.append_nil _

/-- Only a projection makes a change: one of the source, accepted, and with
another fingerprint than the last. -/
theorem Event.change_eq_some {source : String} {last : Option ProjectionRequest} {e : Event}
    {req : ProjectionRequest} (h : e.change source last = some req) :
    ∃ now, e = .project req now ∧ req.sourceKey = source ∧ req.Valid
      ∧ last.map (·.fingerprint) ≠ some req.fingerprint := by
  cases e with
  | project asked now =>
      have h : (if asked.sourceKey = source ∧ asked.Valid
          ∧ last.map (·.fingerprint) ≠ some asked.fingerprint then some asked else none) = some req := h
      split at h
      · next hcond =>
          injection h with h
          subst h
          exact ⟨now, rfl, hcond⟩
      · cases h
  | respond | test | claim | sent | failed | prune => cases h

/-- A change was made before the last transaction, or by it. -/
theorem changesOf_split {source : String} {events : List Event} {e : Event} {g : Nat}
    {req : ProjectionRequest} (hat : (changesOf source (events ++ [e]))[g]? = some req) :
    (changesOf source events)[g]? = some req
      ∨ g = (changesOf source events).length
        ∧ e.change source (changesOf source events).getLast? = some req := by
  rw [changesOf_append] at hat
  by_cases hlt : g < (changesOf source events).length
  · rw [List.getElem?_append_left hlt] at hat
    exact .inl hat
  · cases hlast : e.change source (changesOf source events).getLast? with
    | none =>
        rw [hlast, Option.toList_none, List.append_nil] at hat
        exact .inl hat
    | some change =>
        rw [hlast, Option.toList_some] at hat
        have hle := (List.getElem?_eq_some_iff.mp hat).1
        rw [List.length_append, List.length_singleton] at hle
        have hg : g = (changesOf source events).length := by omega
        rw [hg, List.getElem?_concat_length] at hat
        exact .inr ⟨hg, hat⟩

/-- What a row tells is what the request asked for. -/
structure Tells (req : ProjectionRequest) (r : NotificationOutboxRow) : Prop where
  notify : req.notify = true
  channel : r.channel ∈ req.channels
  eventType : r.eventType = req.eventType
  severity : r.severity = req.severity
  subject : r.subject = req.subject
  body : r.body = req.body

/-- A row goes on telling what it told. -/
theorem Tells.of_told {req : ProjectionRequest} {r r' : NotificationOutboxRow} (h : Tells req r)
    (hsame : r'.told = r.told) : Tells req r' := by
  have hfield : ∀ {α : Type} (g : NotificationOutboxRow → α), g r'.told = g r.told :=
    fun g => congrArg g hsame
  exact ⟨h.notify, (hfield (·.channel)).symm ▸ h.channel, (hfield (·.eventType)).trans h.eventType,
    (hfield (·.severity)).trans h.severity, (hfield (·.subject)).trans h.subject,
    (hfield (·.body)).trans h.body⟩

/-- The state of every source is that of its last change, their number is its
generation, and every row under the key of a projection tells the change of that
number. -/
structure Projected (events : List Event) (s : Store) : Prop extends Tidy s where
  fingerprint : ∀ source,
    s.fingerprint source = (changesOf source events).getLast?.map (·.fingerprint)
  generation : ∀ source, s.generation source = (changesOf source events).length
  told : ∀ r ∈ s.rows, ∀ source n, r.dedupeKey = dedupeKey source n →
    ∃ g req, n = g + 1 ∧ (changesOf source events)[g]? = some req ∧ Tells req r

theorem Handles.states {s s' : Store} (h : Handles s s') : s'.states = s.states := by
  cases h <;> rfl

/-- The rows under the keys of projections were there. -/
theorem Handles.back {s s' : Store} (h : Handles s s') {r' : NotificationOutboxRow}
    (hr : r' ∈ s'.rows) (hkey : IsProjection r'.dedupeKey) : ∃ r ∈ s.rows, r'.told = r.told := by
  cases h with
  | delivered rows h =>
      have hmem : r'.told ∈ s.rows.map told := by
        rw [← h]
        exact List.mem_map_of_mem hr
      obtain ⟨r, hr, heq⟩ := List.mem_map.mp hmem
      exact ⟨r, hr, heq.symm⟩
  | pruned before => exact ⟨r', (List.mem_filter.mp hr).1, rfl⟩
  | entered new n _ _ _ keys _ =>
      rcases List.mem_append.mp hr with hr | hr
      · exact ⟨r', hr, rfl⟩
      · exact absurd hkey (keys r' hr)

/-- A row stays until it is delivered or given up. -/
theorem Handles.forth {s s' : Store} (h : Handles s s') {r : NotificationOutboxRow}
    (hr : r ∈ s.rows) : (∃ r' ∈ s'.rows, r'.told = r.told) ∨ r.status.terminal := by
  cases h with
  | delivered rows h =>
      have hmem : r.told ∈ rows.map told := by
        rw [h]
        exact List.mem_map_of_mem hr
      obtain ⟨r', hr', heq⟩ := List.mem_map.mp hmem
      exact .inl ⟨r', hr', heq⟩
  | pruned before =>
      by_cases hgone : r.status.terminal ∧ r.updatedAt < before
      · exact .inr hgone.1
      · exact .inl ⟨r, List.mem_filter.mpr ⟨hr, decide_eq_true hgone⟩, rfl⟩
  | entered new n => exact .inl ⟨r, List.mem_append.mpr (.inl hr), rfl⟩

/-- The outbox stays in order under deliveries and pruning. -/
theorem Handles.tidy {s s' : Store} (h : Handles s s') (hs : Tidy s) : Tidy s' := by
  cases h with
  | delivered rows h =>
      have hids : rows.map (·.id) = s.rows.map (·.id) := by
        have := congrArg (List.map (·.id)) h
        rw [List.map_map, List.map_map] at this
        exact this
      have htags : rows.map tag = s.rows.map tag := by
        have := congrArg (List.map tag) h
        rw [List.map_map, List.map_map] at this
        exact this
      refine ⟨?_, fun r' hr' => ?_, htags ▸ hs.once⟩
      · show (rows.map (·.id)).Nodup
        rw [hids]
        exact hs.unique
      · have hmem : r'.id ∈ s.rows.map (·.id) := by
          rw [← hids]
          exact List.mem_map_of_mem hr'
        obtain ⟨r, hr, hid⟩ := List.mem_map.mp hmem
        show r'.id < s.nextId
        rw [← hid]
        exact hs.below r hr
  | pruned before =>
      exact ⟨(List.filter_sublist.map _).nodup hs.unique,
        fun r hr => hs.below r (List.mem_filter.mp hr).1, (List.filter_sublist.map _).nodup hs.once⟩
  | entered new n next unique range keys once =>
      exact ⟨hs.unique.appendAll hs.below unique fun r hr => (range r hr).1,
        hs.below.appendAll next fun r hr => (range r hr).2, once⟩

/-- Any other transaction keeps what the projections have done. -/
theorem Projected.handles {events : List Event} {s s' : Store} (hp : Projected events s)
    (h : Handles s s') : Projected events s' := by
  have hstate : ∀ source, s'.stateOf source = s.stateOf source := by
    intro source
    unfold Store.stateOf
    rw [h.states]
  refine ⟨h.tidy hp.toTidy, fun source => ?_, fun source => ?_, fun r' hr' source n hkey => ?_⟩
  · unfold Store.fingerprint
    rw [hstate]
    exact hp.fingerprint source
  · unfold Store.generation
    rw [hstate]
    exact hp.generation source
  · obtain ⟨r, hr, hsame⟩ := h.back hr' ⟨source, n, hkey⟩
    have htag : r'.dedupeKey = r.dedupeKey := congrArg Prod.fst (tag_of_told hsame)
    obtain ⟨g, req, hn, hchange, htells⟩ := hp.told r hr source n (htag.symm.trans hkey)
    exact ⟨g, req, hn, hchange, htells.of_told hsame⟩

/-- The state of a source after a change. -/
theorem stateOf_changed (s : Store) (req : ProjectionRequest) (now : Int) (source : String) :
    (s.changed req now).stateOf source
      = if req.sourceKey = source then
          some ⟨req.sourceKey, req.fingerprint, s.generation req.sourceKey + 1, now⟩
        else s.stateOf source := by
  unfold Store.changed Store.stateOf Store.written
  cases hs : s.stateOf req.sourceKey with
  | none =>
      dsimp only
      rw [List.find?_append]
      by_cases hsource : req.sourceKey = source
      · subst hsource
        have hnone : s.states.find? (fun row => row.sourceKey = req.sourceKey) = none := hs
        rw [hnone, Option.none_or, if_pos rfl, List.find?_singleton, if_pos (decide_eq_true rfl)]
      · rw [if_neg hsource, List.find?_singleton, if_neg (by simpa using hsource), Option.or_none]
  | some old =>
      dsimp only
      rw [List.find?_map]
      -- Writing a row leaves its key.
      have hsame : ((fun row : NotificationProjectionStateRow => decide (row.sourceKey = source)) ∘
          fun row => if row.sourceKey = req.sourceKey then
            ⟨req.sourceKey, req.fingerprint, s.generation req.sourceKey + 1, now⟩ else row)
            = fun row => decide (row.sourceKey = source) := by
        funext row
        show decide ((if row.sourceKey = req.sourceKey then _ else row :
          NotificationProjectionStateRow).sourceKey = source) = _
        split
        · next hk => rw [hk]
        · rfl
      rw [hsame]
      by_cases hsource : req.sourceKey = source
      · subst hsource
        have hfound : s.states.find? (fun row => row.sourceKey = req.sourceKey) = some old := hs
        have hkey := List.find?_some hfound
        rw [decide_eq_true_eq] at hkey
        rw [hfound, if_pos rfl, Option.map_some, if_pos hkey]
      · rw [if_neg hsource]
        cases hfind : s.states.find? (fun row => row.sourceKey = source) with
        | none => rfl
        | some row =>
            have hkey := List.find?_some hfind
            rw [decide_eq_true_eq] at hkey
            rw [Option.map_some, if_neg fun hk => hsource (hk.symm.trans hkey)]

/-- The rows of an alert tell its request, under the key of the generation it
opens. -/
theorem mem_alertRows {s : Store} {req : ProjectionRequest} {now : Int} {r : NotificationOutboxRow}
    (h : r ∈ s.alertRows req now) : Tells req r
      ∧ r.dedupeKey = dedupeKey req.sourceKey (s.generation req.sourceKey + 1)
      ∧ s.nextId ≤ r.id ∧ r.id < s.nextId + (s.alertRows req now).length := by
  unfold Store.alertRows at h ⊢
  cases hnotify : req.notify with
  | false =>
      rw [hnotify, if_neg Bool.false_ne_true] at h
      cases h
  | true =>
      rw [hnotify, if_pos rfl] at h
      rw [if_pos rfl, Store.freshRows_length]
      obtain ⟨channel, hmem, id, hge, hlt, rfl⟩ := mem_freshRows h
      exact ⟨⟨hnotify, Store.mem_sortedChannels.mp hmem, rfl, rfl, rfl, rfl⟩, rfl, hge, hlt⟩

/-- An alert that is to be sent has a row for each of its channels. -/
theorem alertRows_told (s : Store) {req : ProjectionRequest} (now : Int) (hnotify : req.notify = true)
    {channel : Channel} (h : channel ∈ req.channels) : ∃ r ∈ s.alertRows req now,
      r.tag = (dedupeKey req.sourceKey (s.generation req.sourceKey + 1), channel) := by
  have hmem : channel ∈ (s.alertRows req now).map (·.channel) := by
    unfold Store.alertRows
    rw [if_pos hnotify, freshRows_channels]
    exact Store.mem_sortedChannels.mpr h
  obtain ⟨r, hr, hch⟩ := List.mem_map.mp hmem
  exact ⟨r, hr, Prod.ext (mem_alertRows hr).2.1 hch⟩

/-- Identifiers and channels of the rows of an alert are distinct. -/
theorem alertRows_unique (s : Store) (req : ProjectionRequest) (now : Int) :
    Table.Unique (s.alertRows req now) ∧ ((s.alertRows req now).map (·.channel)).Nodup := by
  unfold Store.alertRows
  split
  · rw [freshRows_channels]
    exact ⟨freshRows_ids _ _, Store.sortedChannels_nodup _⟩
  · exact ⟨List.nodup_nil, List.nodup_nil⟩

/-- The key of the next change is not taken. -/
theorem Projected.free {events : List Event} {s : Store} (hp : Projected events s) (source : String) :
    ∀ r ∈ s.rows, r.dedupeKey ≠ dedupeKey source (s.generation source + 1) := by
  intro r hr hkey
  obtain ⟨g, req, hn, hchange, -⟩ := hp.told r hr source _ hkey
  have hlt := (List.getElem?_eq_some_iff.mp hchange).1
  have hlen := hp.generation source
  omega

/-- What a projection does: a request that is accepted and does not repeat the
fingerprint before is a change. -/
theorem Projected.projected_eq {events : List Event} {s : Store} (hp : Projected events s)
    (req : ProjectionRequest) (now : Int) : s.projected req now
      = if req.Valid ∧ s.fingerprint req.sourceKey ≠ some req.fingerprint then s.changed req now
        else s := by
  by_cases hvalid : req.Valid
  · by_cases hsame : s.fingerprint req.sourceKey = some req.fingerprint
    · rw [if_neg fun h => h.2 hsame]
      unfold Store.projected
      rw [Store.project_repeats hvalid.1 hsame]
    · rw [if_pos ⟨hvalid, hsame⟩]
      unfold Store.projected
      rw [Store.project_changes hvalid hsame (hp.free req.sourceKey)]
  · rw [if_neg fun h => hvalid h.1, Store.projected_invalid hvalid]

/-- A change stores the fingerprint of its source and leaves the others. -/
theorem fingerprint_changed (s : Store) (req : ProjectionRequest) (now : Int) (source : String) :
    (s.changed req now).fingerprint source
      = if req.sourceKey = source then some req.fingerprint else s.fingerprint source := by
  unfold Store.fingerprint
  rw [stateOf_changed]
  split
  · rfl
  · rfl

/-- And raises the generation of its source by one. -/
theorem generation_changed (s : Store) (req : ProjectionRequest) (now : Int) (source : String) :
    (s.changed req now).generation source
      = if req.sourceKey = source then s.generation source + 1 else s.generation source := by
  show (((s.changed req now).stateOf source).map (·.generation)).getD 0 = _
  rw [stateOf_changed]
  split
  · next hsource => rw [← hsource]; rfl
  · rfl

/-- A change keeps the outbox in order. -/
theorem Projected.tidy_changed {events : List Event} {s : Store} (hp : Projected events s)
    (req : ProjectionRequest) (now : Int) : Tidy (s.changed req now) where
  unique := hp.unique.appendAll hp.below (alertRows_unique s req now).1
    fun _ hr => (mem_alertRows hr).2.2.1
  below := hp.below.appendAll (Nat.le_add_right _ _) fun r hr => (mem_alertRows hr).2.2.2
  once := by
    show ((s.rows ++ s.alertRows req now).map tag).Nodup
    rw [List.map_append, List.nodup_append]
    refine ⟨hp.once, ?_, fun a ha b hb heq => ?_⟩
    · -- The new rows share their key and differ in their channels.
      refine List.Nodup.of_map Prod.snd ?_
      rw [List.map_map]
      exact (alertRows_unique s req now).2
    · obtain ⟨r, hr, rfl⟩ := List.mem_map.mp ha
      obtain ⟨r', hr', rfl⟩ := List.mem_map.mp hb
      exact hp.free req.sourceKey r hr ((congrArg Prod.fst heq).trans (mem_alertRows hr').2.1)

/-- What a projection adds to the changes of a source. -/
theorem Projected.changesOf_project {events : List Event} {s : Store} (hp : Projected events s)
    (req : ProjectionRequest) (now : Int) (source : String) :
    changesOf source (events ++ [.project req now])
      = if req.sourceKey = source ∧ req.Valid ∧ s.fingerprint source ≠ some req.fingerprint then
          changesOf source events ++ [req]
        else changesOf source events := by
  rw [changesOf_append, hp.fingerprint source]
  show _ ++ (ite _ _ _ : Option ProjectionRequest).toList = _
  split
  · rfl
  · exact List.append_nil _

/-- A change is counted, and its rows tell it. -/
theorem Projected.change {events : List Event} {s : Store} (hp : Projected events s)
    {req : ProjectionRequest} (now : Int)
    (hnew : req.Valid ∧ s.fingerprint req.sourceKey ≠ some req.fingerprint) :
    Projected (events ++ [.project req now]) (s.changed req now) := by
  have hself : changesOf req.sourceKey (events ++ [.project req now])
      = changesOf req.sourceKey events ++ [req] := by
    rw [hp.changesOf_project, if_pos ⟨rfl, hnew⟩]
  have hother : ∀ source, req.sourceKey ≠ source →
      changesOf source (events ++ [.project req now]) = changesOf source events := by
    intro source hne
    rw [hp.changesOf_project, if_neg fun h => hne h.1]
  refine ⟨hp.tidy_changed req now, fun source => ?_, fun source => ?_, fun r hr source n hkey => ?_⟩
  · rw [fingerprint_changed]
    by_cases hsource : req.sourceKey = source
    · rw [if_pos hsource, ← hsource, hself, List.getLast?_concat]
      rfl
    · rw [if_neg hsource, hother source hsource]
      exact hp.fingerprint source
  · rw [generation_changed]
    by_cases hsource : req.sourceKey = source
    · rw [if_pos hsource, ← hsource, hself, List.length_append, ← hp.generation]
      rfl
    · rw [if_neg hsource, hother source hsource]
      exact hp.generation source
  · rcases List.mem_append.mp hr with hr | hr
    · -- A row from before tells a change from before, which has kept its place.
      obtain ⟨g, change, hn, hat, htells⟩ := hp.told r hr source n hkey
      refine ⟨g, change, hn, ?_, htells⟩
      by_cases hsource : req.sourceKey = source
      · rw [← hsource] at hat ⊢
        rw [hself, List.getElem?_append_left (List.getElem?_eq_some_iff.mp hat).1]
        exact hat
      · rw [hother source hsource]
        exact hat
    · -- A new row has the key of the last change.
      obtain ⟨htells, htag, -⟩ := mem_alertRows hr
      obtain ⟨hsource, hn⟩ := dedupeKey_inj (hkey.symm.trans htag)
      refine ⟨s.generation req.sourceKey, req, hn, ?_, htells⟩
      rw [hsource, hself, hp.generation]
      exact List.getElem?_concat_length

/-- Transactions that add no change keep what is said of the rows. -/
theorem Projected.of_changes {events events' : List Event} {s : Store} (hp : Projected events s)
    (hsame : ∀ source, changesOf source events' = changesOf source events) : Projected events' s where
  toTidy := hp.toTidy
  fingerprint := fun source => hsame source ▸ hp.fingerprint source
  generation := fun source => hsame source ▸ hp.generation source
  told := by
    intro r hr source n hkey
    rw [hsame]
    exact hp.told r hr source n hkey

/-- A projection keeps the count. -/
theorem Projected.project {events : List Event} {s : Store} (hp : Projected events s)
    (req : ProjectionRequest) (now : Int) :
    Projected (events ++ [.project req now]) (s.projected req now) := by
  rw [hp.projected_eq]
  by_cases hnew : req.Valid ∧ s.fingerprint req.sourceKey ≠ some req.fingerprint
  · rw [if_pos hnew]
    exact hp.change now hnew
  · rw [if_neg hnew]
    refine hp.of_changes fun source => ?_
    rw [hp.changesOf_project, if_neg]
    rintro ⟨rfl, hvalid, hdiffers⟩
    exact hnew ⟨hvalid, hdiffers⟩

theorem projected_empty : Projected [] Store.empty where
  unique := List.nodup_nil
  below := fun _ hr => absurd hr List.not_mem_nil
  once := List.nodup_nil
  fingerprint := fun _ => rfl
  generation := fun _ => rfl
  told := fun _ hr => absurd hr List.not_mem_nil

/-- One more transaction. -/
theorem Projected.after {events : List Event} {s : Store} (hp : Projected events s) (e : Event) :
    Projected (events ++ [e]) (s.after e) := by
  by_cases hproject : ∃ req now, e = .project req now
  · obtain ⟨req, now, rfl⟩ := hproject
    exact hp.project req now
  · have hne : ∀ req now, e ≠ .project req now := fun req now h => hproject ⟨req, now, h⟩
    have hkept := hp.handles (after_handles hp.toTidy e hne)
    exact hkept.of_changes fun source => changesOf_other events hne

/-- The invariant holds after every sequence of transactions. -/
theorem projected_replay (events : List Event) : Projected events (replay events) := by
  induction events using List.reverseRecOn with
  | nil => exact projected_empty
  | append_singleton events e ih =>
      rw [replay_append]
      exact ih.after e

/-! ## §7. Every order of the transactions. -/

/-- The rows that a transaction leaves under the keys of projections are those
from before it and the alert of the change that comes next. -/
theorem after_back {events : List Event} {s : Store} (hp : Projected events s) (e : Event)
    {r' : NotificationOutboxRow} (hr : r' ∈ (s.after e).rows) (hkey : IsProjection r'.dedupeKey) :
    (∃ r ∈ s.rows, r'.told = r.told)
      ∨ ∃ source, r'.dedupeKey = dedupeKey source (s.generation source + 1) := by
  by_cases hproject : ∃ req now, e = .project req now
  · obtain ⟨req, now, rfl⟩ := hproject
    have hr : r' ∈ (s.projected req now).rows := hr
    rw [hp.projected_eq] at hr
    split at hr
    · rcases List.mem_append.mp hr with hr | hr
      · exact .inl ⟨r', hr, rfl⟩
      · exact .inr ⟨req.sourceKey, (mem_alertRows hr).2.1⟩
    · exact .inl ⟨r', hr, rfl⟩
  · exact .inl ((after_handles hp.toTidy e fun req now h => hproject ⟨req, now, h⟩).back hr hkey)

/-- A row stays until it is delivered or given up. -/
theorem after_forth {events : List Event} {s : Store} (hp : Projected events s) (e : Event)
    {r : NotificationOutboxRow} (hr : r ∈ s.rows) :
    (∃ r' ∈ (s.after e).rows, r'.told = r.told) ∨ r.status.terminal := by
  by_cases hproject : ∃ req now, e = .project req now
  · obtain ⟨req, now, rfl⟩ := hproject
    refine .inl ⟨r, ?_, rfl⟩
    show r ∈ (s.projected req now).rows
    rw [hp.projected_eq]
    split
    · exact List.mem_append.mpr (.inl hr)
    · exact hr
  · exact (after_handles hp.toTidy e fun req now h => hproject ⟨req, now, h⟩).forth hr

/-- The row of a key and a channel. -/
def Alerted (events : List Event) (source : String) (g : Nat) (channel : Channel)
    (r : NotificationOutboxRow) : Prop :=
  r ∈ (replay events).rows ∧ r.tag = (dedupeKey source (g + 1), channel)

/-- A change that is to be told is in the outbox, on each of its channels, or was
delivered or given up before. -/
theorem change_told (events : List Event) {source : String} {g : Nat} {req : ProjectionRequest}
    (hchange : (changesOf source events)[g]? = some req) (hnotify : req.notify = true)
    {channel : Channel} (hchannel : channel ∈ req.channels) :
    (∃ r, Alerted events source g channel r)
      ∨ ∃ earlier, earlier <+: events ∧ ∃ r, Alerted earlier source g channel r
          ∧ r.status.terminal := by
  induction events using List.reverseRecOn with
  | nil =>
      rw [show changesOf source [] = [] from rfl] at hchange
      cases hchange
  | append_singleton events e ih =>
      have hp := projected_replay events
      by_cases hbefore : (changesOf source events)[g]? = some req
      · rcases ih hbefore with ⟨r, hr, htag⟩ | ⟨earlier, hprefix, hgone⟩
        · rcases after_forth hp e hr with ⟨r', hr', hsame⟩ | hterminal
          · refine .inl ⟨r', ?_, (tag_of_told hsame).trans htag⟩
            rw [replay_append]
            exact hr'
          · exact .inr ⟨events, List.prefix_append _ _, r, ⟨hr, htag⟩, hterminal⟩
        · exact .inr ⟨earlier, hprefix.trans (List.prefix_append _ _), hgone⟩
      · -- The change is the last one, and its projection enters the rows.
        obtain ⟨rfl, hlast⟩ := (changesOf_split hchange).resolve_left hbefore
        obtain ⟨now, rfl, rfl, hvalid, hdiffers⟩ := Event.change_eq_some hlast
        rw [← hp.fingerprint] at hdiffers
        obtain ⟨r, hr, htag⟩ := alertRows_told (replay events) now hnotify hchannel
        refine .inl ⟨r, ?_, ?_⟩
        · rw [replay_append]
          show r ∈ ((replay events).projected req now).rows
          rw [hp.projected_eq, if_pos ⟨hvalid, hdiffers⟩]
          exact List.mem_append.mpr (.inr hr)
        · rw [htag, hp.generation]

/-- The changes of a source are only added to. -/
theorem changesOf_extends (source : String) (events rest : List Event) :
    changesOf source events <+: changesOf source (events ++ rest) := by
  induction rest using List.reverseRecOn with
  | nil =>
      have hsame : changesOf source (events ++ []) = changesOf source events :=
        congrArg (changesOf source) (List.append_nil events)
      exact hsame ▸ List.prefix_refl _
  | append_singleton rest e ih =>
      rw [← List.append_assoc, changesOf_append]
      exact ih.trans (List.prefix_append _ _)

/-- No transaction enters an alert that has been entered before: a row that is there
after it was there already. -/
theorem alerted_back {source : String} {g : Nat} {channel : Channel} {events : List Event}
    {r : NotificationOutboxRow} (hr : Alerted events source g channel r) (rest : List Event)
    (e : Event) {r' : NotificationOutboxRow}
    (hr' : Alerted (events ++ rest ++ [e]) source g channel r') :
    ∃ r'', Alerted (events ++ rest) source g channel r'' ∧ r'.told = r''.told := by
  obtain ⟨hmem, htag⟩ := hr'
  have hkey : r'.dedupeKey = dedupeKey source (g + 1) := congrArg Prod.fst htag
  have hp := projected_replay (events ++ rest)
  rw [replay_append] at hmem
  rcases after_back hp e hmem ⟨source, g + 1, hkey⟩ with ⟨r'', hr'', hsame⟩ | ⟨source', hnext⟩
  · exact ⟨r'', ⟨hr'', (tag_of_told hsame).symm.trans htag⟩, hsame⟩
  · -- A new row tells the next change, and the change of this one was there before.
    obtain ⟨rfl, hg⟩ := dedupeKey_inj (hkey.symm.trans hnext)
    obtain ⟨hrmem, hrtag⟩ := hr
    obtain ⟨g', req, hn, hat, -⟩ := (projected_replay events).told r hrmem source (g + 1)
      (congrArg Prod.fst hrtag)
    have hlt := (List.getElem?_eq_some_iff.mp hat).1
    have hle := (changesOf_extends source events rest).length_le
    rw [hp.generation] at hg
    omega

/-- An alert is entered once: what the outbox holds for it later is the same row. -/
theorem alerted_same {source : String} {g : Nat} {channel : Channel} {events : List Event}
    {r : NotificationOutboxRow} (hr : Alerted events source g channel r) (rest : List Event)
    {r' : NotificationOutboxRow} (hr' : Alerted (events ++ rest) source g channel r') :
    r'.told = r.told := by
  induction rest using List.reverseRecOn generalizing r' with
  | nil =>
      rw [List.append_nil] at hr'
      have hsame := List.inj_on_of_nodup_map (projected_replay events).once hr'.1 hr.1
        (hr'.2.trans hr.2.symm)
      rw [hsame]
  | append_singleton rest e ih =>
      rw [← List.append_assoc] at hr'
      obtain ⟨r'', hr'', hsame⟩ := alerted_back hr rest e hr'
      exact hsame.trans (ih hr'')

/-- Nor does it come back once it is gone: what the outbox holds for it later it has
held all the time. -/
theorem alerted_throughout {source : String} {g : Nat} {channel : Channel} {events : List Event}
    {r : NotificationOutboxRow} (hr : Alerted events source g channel r) (between rest : List Event)
    (hr' : ∃ r', Alerted (events ++ between ++ rest) source g channel r') :
    ∃ r', Alerted (events ++ between) source g channel r' := by
  induction rest using List.reverseRecOn with
  | nil =>
      rw [List.append_nil] at hr'
      exact hr'
  | append_singleton rest e ih =>
      obtain ⟨r', hr'⟩ := hr'
      rw [← List.append_assoc, List.append_assoc events] at hr'
      obtain ⟨r'', hr'', -⟩ := alerted_back hr (between ++ rest) e hr'
      rw [← List.append_assoc] at hr''
      exact ih ⟨r'', hr''⟩

/-- A request that passes the checks is never refused by the table. -/
theorem alerts_accepted (events : List Event) (req : ProjectionRequest) (now : Int)
    (hvalid : req.Valid) : ∃ done s', projectNotification req now (replay events) = .ok (done, s') := by
  have hp := projected_replay events
  by_cases hsame : (replay events).fingerprint req.sourceKey = some req.fingerprint
  · exact ⟨_, _, Store.project_repeats hvalid.1 hsame⟩
  · exact ⟨_, _, Store.project_changes hvalid hsame (hp.free req.sourceKey)⟩

/-- The alerts of the projections over every order of the transactions: the state
of a source is that of its last change, and its generation is their number; what
the outbox holds under the key of a projection tells a change that is to be told;
each such change has one row on each of its channels, which is there until it is
delivered or given up, stays the same, and does not come back once it is gone;
and a request that passes the checks is never refused by the table. -/
theorem alerts_exactly_once (events : List Event) :
    Projected events (replay events)
      ∧ (∀ source g req channel, (changesOf source events)[g]? = some req → req.notify = true →
          channel ∈ req.channels →
          (∃ r, Alerted events source g channel r)
            ∨ ∃ earlier, earlier <+: events ∧ ∃ r, Alerted earlier source g channel r
                ∧ r.status.terminal)
      ∧ (∀ earlier, earlier <+: events → ∀ source g channel r r',
          Alerted earlier source g channel r → Alerted events source g channel r' →
          r'.told = r.told)
      ∧ (∀ earlier later, earlier <+: later → later <+: events → ∀ source g channel,
          (∃ r, Alerted earlier source g channel r) → (¬∃ r, Alerted later source g channel r) →
          ¬∃ r, Alerted events source g channel r)
      ∧ ∀ req now, req.Valid → ∃ done s', projectNotification req now (replay events) = .ok (done, s') := by
  refine ⟨projected_replay events, fun source g req channel hchange hnotify hchannel =>
    change_told events hchange hnotify hchannel, fun earlier hprefix source g channel r r' hr hr' => ?_,
    fun earlier later hbetween hrest source g channel hr hgone hback => ?_, alerts_accepted events⟩
  · obtain ⟨rest, rfl⟩ := hprefix
    exact alerted_same hr rest hr'
  · obtain ⟨between, rfl⟩ := hbetween
    obtain ⟨rest, rfl⟩ := hrest
    obtain ⟨r, hr⟩ := hr
    exact hgone (alerted_throughout hr between rest hback)

end BasisHawk.Notifications
