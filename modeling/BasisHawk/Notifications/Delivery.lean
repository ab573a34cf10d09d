/-
  BasisHawk.Notifications.Delivery
  ────────────────────────────────
  `NotificationDeliveryService.run_once` (`notifications.py`): any number of
  workers deliver the rows of the outbox.

  A claim counts as an attempt, also when it takes over a row whose worker is
  late, but the limit is looked at only where a failure is reported.  And a
  report names the row, not the claim it is about.

  Main results:
    • `Sound` — what the workers keep: no row is delivered more often than it
      was claimed,
    • `delivered_at_most_eight` — in a run in which no overdue row is claimed
      a ninth time and no late report meets a row claimed again, both the
      bound and the fencing hold.
-/
import BasisHawk.Lib.Pool
import BasisHawk.Notifications.Storage

namespace BasisHawk.Notifications

open Domain Lib

/-! ## §1. The service. -/

/-- What `send` raises. -/
inductive SendFailure where
  | delivery (errorCode : String)
  | other
  deriving DecidableEq

inductive OutboxOp where
  | claim (limit : Nat)
  | send (item : NotificationOutboxItem)
  | markSent (id : Nat)
  | markFailed (id : Nat) (errorCode : String)
  deriving DecidableEq

/-- Every operation may raise. -/
abbrev OutboxRep : OutboxOp → Type
  | .claim _ => Except Exc (List NotificationOutboxItem)
  | .send _ => Except SendFailure Unit
  | .markSent _ => Except Exc Bool
  | .markFailed _ _ => Except Exc (Option NotificationOutboxItem)

/-- The row whose result an operation reports. -/
def OutboxOp.reported : OutboxOp → Option Nat
  | .markSent id => some id
  | .markFailed id _ => some id
  | .claim _ | .send _ => none

/-- The channels that have a sender, and the batch size that `__init__` checks. -/
structure NotificationDeliveryService where
  configured : Channel → Bool
  batchSize : Nat
  batchSize_pos : 1 ≤ batchSize
  batchSize_le : batchSize ≤ 100

abbrev Delivery (α : Type) := Prog OutboxOp OutboxRep Exc α

def reportSent (item : NotificationOutboxItem) : Delivery Unit := do
  let _ ← .call (.markSent item.id) .done
  pure ()

def reportFailed (item : NotificationOutboxItem) (errorCode : String) : Delivery Unit := do
  let _ ← .call (.markFailed item.id errorCode) .done
  pure ()

namespace NotificationDeliveryService

/-- The body of the loop. -/
def deliver (s : NotificationDeliveryService) (item : NotificationOutboxItem) : Delivery Unit :=
  if s.configured item.channel then
    .call (.send item) fun
      | .error (.delivery errorCode) => reportFailed item errorCode
      | .error .other => reportFailed item "internal_error"
      | .ok () => reportSent item
  else reportFailed item "channel_unconfigured"

def deliverAll (s : NotificationDeliveryService) : List NotificationOutboxItem → Delivery Unit
  | [] => pure ()
  | item :: rest => do
      s.deliver item
      s.deliverAll rest

/-- `run_once`. -/
def runOnce (s : NotificationDeliveryService) : Delivery Nat := do
  let items ← .call (.claim s.batchSize) .done
  s.deliverAll items
  pure items.length

end NotificationDeliveryService

/-! ## §2. The world. -/

variable {ι : Type}

/-- The table, the clock that the next transaction reads, and the rows that
others hold a lock on.  The last four components are history variables: how
often a row was claimed and who did so last, how often it was delivered, and
which claims have not led to a delivery yet. -/
structure World (ι : Type) where
  rows : List NotificationOutboxRow
  nextId : Nat
  now : Int
  locked : List Nat
  claims : Nat → Nat
  claimant : Nat → Option ι
  deliveries : Nat → Nat
  undelivered : List (ι × Nat)

/-- What the other actors do.  The clocks of two workers may differ. -/
inductive OutboxAct where
  | enqueue (req : EnqueueRequest)
  | prune (before : Int)
  | clock (now : Int)
  | lock (ids : List Nat)

namespace World

/-- Worker `i` has claimed the rows of `ids`. -/
def claimed (w : World ι) (i : ι) (ids : List Nat) (rows : List NotificationOutboxRow) : World ι :=
  { w with
    rows
    claims := fun k => if k ∈ ids then w.claims k + 1 else w.claims k
    claimant := fun k => if k ∈ ids then some i else w.claimant k
    undelivered := w.undelivered ++ ids.map fun k => (i, k) }

/-- Worker `i` sends the text of a row: it may arrive even where this fails. -/
def sent [DecidableEq ι] (w : World ι) (i : ι) (id : Nat) : World ι :=
  { w with
    deliveries := fun k => if k = id then w.deliveries k + 1 else w.deliveries k
    undelivered := w.undelivered.erase (i, id) }

/-- The rows that a claim would select now. -/
def dueRows (w : World ι) (limit : Nat) : List NotificationOutboxRow :=
  selected limit w.now w.locked w.rows

end World

/-- What an operation of worker `i` does. -/
inductive Performs [DecidableEq ι] (i : ι) :
    (o : OutboxOp) → World ι → OutboxRep o → World ι → Prop
  | claim {limit w items rows}
      (h : claimNotifications limit w.now w.locked w.rows = .ok (items, rows)) :
      Performs i (.claim limit) w (.ok items) (w.claimed i (items.map (·.id)) rows)
  | claimRaises {limit w} (e : Exc) : Performs i (.claim limit) w (.error e) w
  | send {item w} (r : Except SendFailure Unit) :
      Performs i (.send item) w r (w.sent i item.id)
  | markSent {id w} :
      Performs i (.markSent id) w (.ok (markNotificationSent id w.now w.rows).1)
        { w with rows := (markNotificationSent id w.now w.rows).2 }
  | markSentRaises {id w} (e : Exc) : Performs i (.markSent id) w (.error e) w
  | markFailed {id errorCode w item rows}
      (h : markNotificationFailed id errorCode w.now w.rows = .ok (item, rows)) :
      Performs i (.markFailed id errorCode) w (.ok item) { w with rows }
  | markFailedRaises {id errorCode w} (e : Exc) :
      Performs i (.markFailed id errorCode) w (.error e) w

/-- A condition on the operations of the workers. -/
abbrev Condition (ι : Type) := ι → OutboxOp → World ι → Prop

def anyOperation : Condition ι := fun _ _ _ => True

/-- A claim selects no row whose last attempt is under way, and a report for a
row that is `sending` comes from the worker that claimed it last. -/
def timely : Condition ι
  | _, .claim limit, w => ∀ r ∈ w.dueRows limit, r.status = .sending → r.attempts < maxAttempts
  | i, .markSent id, w | i, .markFailed id _, w =>
      ∀ r ∈ w.rows, r.id = id → r.status = .sending → w.claimant id = some i
  | _, .send _, _ => True

instance [DecidableEq ι] (i : ι) : ∀ o w, Decidable (timely i o w)
  | .claim limit, w =>
      inferInstanceAs (Decidable (∀ r ∈ w.dueRows limit,
        r.status = .sending → r.attempts < maxAttempts))
  | .markSent id, w | .markFailed id _, w =>
      inferInstanceAs (Decidable (∀ r ∈ w.rows,
        r.id = id → r.status = .sending → w.claimant id = some i))
  | .send _, _ => .isTrue trivial

/-- The workers among the other actors, each operation under the condition. -/
def pool [DecidableEq ι] (cond : Condition ι) :
    Pool ι OutboxOp OutboxRep OutboxAct (World ι) where
  exec := fun i o w r w' => cond i o w ∧ Performs i o w r w'
  env
    | .enqueue req, w, w' => ∃ items rows nextId,
        enqueueNotification req w.now w.nextId w.rows = .ok (items, rows, nextId)
          ∧ w' = { w with
              rows
              nextId }
    | .prune before, w, w' => w' = { w with rows := pruneNotificationHistory before w.rows }
    | .clock now, w, w' => w' = { w with now }
    | .lock locked, w, w' => w' = { w with locked }
  idle := fun i w => { w with undelivered := w.undelivered.filter (·.1 ≠ i) }

/-- The outbox before the first notification. -/
def Initial (w : World ι) : Prop :=
  w.rows = [] ∧ (∀ k, w.claims k = 0) ∧ (∀ k, w.deliveries k = 0) ∧ w.undelivered = []

/-- The configurations of the runs whose operations all meet the condition. -/
def Reachable [DecidableEq ι] (cond : Condition ι) (s : NotificationDeliveryService) :
    Pool.Config ι OutboxOp OutboxRep Exc Nat (World ι) → Prop :=
  (pool cond).Reach s.runOnce Initial

/-! ## §3. What the workers keep. -/

variable [DecidableEq ι] {s : NotificationDeliveryService}

/-- How many claims of a row have not led to a delivery yet. -/
def World.pendingDeliveries (w : World ι) (k : Nat) : Nat := w.undelivered.countP (·.2 = k)

/-- What holds in every reachable world. -/
structure Sound (w : World ι) : Prop where
  unique : Table.Unique w.rows
  below : Table.KeysBelow w.rows w.nextId
  fresh : ∀ k, w.nextId ≤ k → w.claims k = 0
  counted : ∀ r ∈ w.rows, r.attempts = w.claims r.id
  waiting : ∀ r ∈ w.rows, r.status = .pending ∨ r.status = .retry → r.attempts < maxAttempts
  bounded : ∀ k, w.claims k ≤ maxAttempts
  delivered : ∀ k, w.deliveries k + w.pendingDeliveries k ≤ w.claims k

/-- A worker sends what it has claimed and not sent yet. -/
def Pre (i : ι) : OutboxOp → World ι → Prop
  | .send item, w => (i, item.id) ∈ w.undelivered
  | .claim _, _ | .markSent _, _ | .markFailed _ _, _ => True

omit [DecidableEq ι] in
/-- A new row under the key of an old one, settled: everything but the table is
as it was. -/
theorem Sound.put {w : World ι} (h : Sound w) {r new : NotificationOutboxRow} (hr : r ∈ w.rows)
    (hid : new.id = r.id) (hattempts : new.attempts = r.attempts)
    (hwaiting : new.status = .pending ∨ new.status = .retry → new.attempts < maxAttempts) :
    Sound { w with rows := Table.put w.rows new } where
  unique := h.unique.put new
  below := h.below.put new
  fresh := h.fresh
  counted := by
    have hnew : new.attempts = w.claims new.id := by
      rw [hattempts, hid]
      exact h.counted r hr
    exact Table.forall_put h.counted hnew
  waiting := Table.forall_put h.waiting hwaiting
  bounded := h.bounded
  delivered := h.delivered

omit [DecidableEq ι] in
/-- New rows, none of them claimed yet. -/
theorem Sound.enqueue {w : World ι} (h : Sound w) {new : List NotificationOutboxRow} {n : Nat}
    (hle : w.nextId ≤ n) (hu : Table.Unique new)
    (hnew : ∀ r ∈ new, w.nextId ≤ r.id ∧ r.id < n ∧ r.status = .pending ∧ r.attempts = 0) :
    Sound { w with
      rows := w.rows ++ new
      nextId := n } where
  unique := h.unique.appendAll h.below hu fun r hr => (hnew r hr).1
  below := h.below.appendAll hle fun r hr => (hnew r hr).2.1
  fresh := fun k hk => h.fresh k (Nat.le_trans hle hk)
  counted := by
    intro r hr
    rcases List.mem_append.mp hr with hr | hr
    · exact h.counted r hr
    · rw [(hnew r hr).2.2.2]
      exact (h.fresh r.id (hnew r hr).1).symm
  waiting := by
    intro r hr hs
    rcases List.mem_append.mp hr with hr | hr
    · exact h.waiting r hr hs
    · rw [(hnew r hr).2.2.2]
      decide
  bounded := h.bounded
  delivered := h.delivered

omit [DecidableEq ι] in
/-- Some rows leave the table. -/
theorem Sound.prune {w : World ι} (h : Sound w) (before : Int) :
    Sound { w with rows := pruneNotificationHistory before w.rows } where
  unique := List.Nodup.sublist (List.filter_sublist.map _) h.unique
  below := fun r hr => h.below r (List.mem_filter.mp hr).1
  fresh := h.fresh
  counted := fun r hr => h.counted r (List.mem_filter.mp hr).1
  waiting := fun r hr => h.waiting r (List.mem_filter.mp hr).1
  bounded := h.bounded
  delivered := h.delivered

/-- An enqueued notification adds new rows at the end. -/
theorem enqueueNotification_ok {req : EnqueueRequest} {now : Int} {nextId nextId' : Nat}
    {rows rows' : List NotificationOutboxRow} {items : List NotificationOutboxItem}
    (h : enqueueNotification req now nextId rows = .ok (items, rows', nextId')) :
    ∃ new, rows' = rows ++ new ∧ nextId ≤ nextId' ∧ Table.Unique new
      ∧ ∀ r ∈ new, nextId ≤ r.id ∧ r.id < nextId' ∧ r.status = .pending ∧ r.attempts = 0 := by
  simp only [enqueueNotification, raiseIf_bind_eq_ok, Except.ok.injEq, Prod.mk.injEq] at h
  obtain ⟨-, -, -, -, -, -, hrows, hnext⟩ := h
  have hspec := insertPending_spec req now (sortedChannels req.channels) nextId rows
  rw [hrows, hnext] at hspec
  exact hspec

/-- Enqueueing adds rows without attempts, pruning takes settled ones away, and
clocks and locks change no row. -/
theorem Sound.act {cond : Condition ι} {a : OutboxAct} {w w' : World ι}
    (he : (pool cond).env a w w') (h : Sound w) : Sound w' := by
  cases a with
  | enqueue req =>
      obtain ⟨items, rows, nextId, hok, rfl⟩ := he
      obtain ⟨new, hrows, hle, hu, hnew⟩ := enqueueNotification_ok hok
      rw [hrows]
      exact h.enqueue hle hu hnew
  | prune before =>
      have hw' : w' = { w with rows := pruneNotificationHistory before w.rows } := he
      rw [hw']
      exact h.prune before
  | clock now =>
      have hw' : w' = { w with now } := he
      rw [hw']
      exact ⟨h.unique, h.below, h.fresh, h.counted, h.waiting, h.bounded, h.delivered⟩
  | lock locked =>
      have hw' : w' = { w with locked } := he
      rw [hw']
      exact ⟨h.unique, h.below, h.fresh, h.counted, h.waiting, h.bounded, h.delivered⟩

/-- A worker that starts or stops takes its undelivered claims with it: what it
might still have sent is sent no more. -/
theorem Sound.idle {w : World ι} (h : Sound w) (cond : Condition ι) (i : ι) :
    Sound ((pool cond).idle i w) where
  unique := h.unique
  below := h.below
  fresh := h.fresh
  counted := h.counted
  waiting := h.waiting
  bounded := h.bounded
  delivered := fun k => by
    have hle : (w.undelivered.filter (·.1 ≠ i)).countP (·.2 = k)
        ≤ w.undelivered.countP (·.2 = k) := List.filter_sublist.countP_le
    have hk : w.deliveries k + w.undelivered.countP (·.2 = k) ≤ w.claims k := h.delivered k
    show w.deliveries k + (w.undelivered.filter (·.1 ≠ i)).countP (·.2 = k) ≤ w.claims k
    omega

/-- A delivery takes the place of a claim that had not led to one. -/
theorem Sound.sent {w : World ι} (h : Sound w) {i : ι} {id : Nat}
    (hmem : (i, id) ∈ w.undelivered) : Sound (w.sent i id) where
  unique := h.unique
  below := h.below
  fresh := h.fresh
  counted := h.counted
  waiting := h.waiting
  bounded := h.bounded
  delivered := fun k => by
    have hk : w.deliveries k + w.undelivered.countP (·.2 = k) ≤ w.claims k := h.delivered k
    show (if k = id then w.deliveries k + 1 else w.deliveries k)
      + (w.undelivered.erase (i, id)).countP (·.2 = k) ≤ w.claims k
    have hperm : w.undelivered.countP (·.2 = k)
        = ((i, id) :: w.undelivered.erase (i, id)).countP (·.2 = k) :=
      (List.perm_cons_erase hmem).countP_eq _
    rw [List.countP_cons] at hperm
    by_cases hid : k = id
    · subst hid
      simp only [decide_true, if_true] at hperm ⊢
      omega
    · have hne : ¬id = k := fun h => hid h.symm
      simp only [hne, hid, decide_false, if_false] at hperm ⊢
      have hzero : (if (false : Bool) = true then 1 else 0) = 0 := rfl
      omega

omit [DecidableEq ι] in
/-- Each claimed row has one delivery more to come. -/
theorem pendingDeliveries_claimed (w : World ι) (i : ι) {ids : List Nat}
    (rows : List NotificationOutboxRow) (hnodup : ids.Nodup) (k : Nat) :
    (w.claimed i ids rows).pendingDeliveries k
      = w.pendingDeliveries k + if k ∈ ids then 1 else 0 := by
  have hcount : (ids.map fun k => (i, k)).countP (·.2 = k) = ids.count k := by
    rw [List.countP_map]
    exact List.countP_congr fun a _ => by simp
  show (w.undelivered ++ ids.map fun k => (i, k)).countP (·.2 = k) = _
  rw [List.countP_append, hcount]
  by_cases hmem : k ∈ ids
  · rw [if_pos hmem, List.count_eq_one_of_mem hnodup hmem]
    rfl
  · rw [if_neg hmem, List.count_eq_zero_of_not_mem hmem]
    rfl

omit [DecidableEq ι] in
/-- A claim of rows that have attempts left. -/
theorem Sound.claim {w : World ι} (h : Sound w) (i : ι) {ids : List Nat} (hnodup : ids.Nodup)
    (hleft : ∀ k ∈ ids, ∃ r ∈ w.rows, r.id = k ∧ r.attempts < maxAttempts) :
    Sound (w.claimed i ids (w.rows.map (·.afterClaim ids w.now))) := by
  -- A claimed row has a try left, so the new claim is within the bound.
  have hclaims : ∀ k ∈ ids, w.claims k < maxAttempts ∧ k < w.nextId := by
    intro k hk
    obtain ⟨r, hr, rfl, hlt⟩ := hleft k hk
    rw [← h.counted r hr]
    exact ⟨hlt, h.below r hr⟩
  constructor
  · have hkeys : (w.rows.map (·.afterClaim ids w.now)).map key = w.rows.map key := by
      rw [List.map_map]
      exact List.map_congr_left fun r _ => afterClaim_id ids w.now r
    show ((w.rows.map (·.afterClaim ids w.now)).map key).Nodup
    rw [hkeys]
    exact h.unique
  · intro r hr
    obtain ⟨old, hold, rfl⟩ := List.mem_map.mp hr
    show (old.afterClaim ids w.now).id < w.nextId
    rw [afterClaim_id]
    exact h.below old hold
  · intro k hk
    have hk' : w.nextId ≤ k := hk
    have hnot : k ∉ ids := fun hmem => by
      have := (hclaims k hmem).2
      omega
    show (if k ∈ ids then _ else _) = 0
    rw [if_neg hnot]
    exact h.fresh k hk'
  · intro r hr
    obtain ⟨old, hold, rfl⟩ := List.mem_map.mp hr
    have hcount := h.counted old hold
    show _ = if (old.afterClaim ids w.now).id ∈ ids then w.claims _ + 1 else w.claims _
    rw [afterClaim_id]
    by_cases hmem : old.id ∈ ids
    · rw [if_pos hmem, afterClaim_of_mem _ hmem, claimed_attempts, hcount]
    · rw [if_neg hmem, afterClaim_of_not_mem _ hmem, hcount]
  · intro r hr hs
    obtain ⟨old, hold, rfl⟩ := List.mem_map.mp hr
    by_cases hmem : old.id ∈ ids
    · rw [afterClaim_of_mem _ hmem] at hs
      simp at hs
    · rw [afterClaim_of_not_mem _ hmem] at hs ⊢
      exact h.waiting old hold hs
  · intro k
    show (if k ∈ ids then w.claims k + 1 else w.claims k) ≤ maxAttempts
    by_cases hmem : k ∈ ids
    · rw [if_pos hmem]
      exact (hclaims k hmem).1
    · rw [if_neg hmem]
      exact h.bounded k
  · -- Each claim opens one delivery, which may report once.
    intro k
    have hk := h.delivered k
    rw [pendingDeliveries_claimed w i _ hnodup k]
    show w.deliveries k + (w.pendingDeliveries k + if k ∈ ids then 1 else 0)
      ≤ if k ∈ ids then w.claims k + 1 else w.claims k
    by_cases hmem : k ∈ ids
    · rw [if_pos hmem, if_pos hmem]
      omega
    · rw [if_neg hmem, if_neg hmem]
      omega

omit [DecidableEq ι] in
/-- Under the condition, a claim takes rows that have attempts left. -/
theorem Sound.left {w : World ι} (h : Sound w) {i : ι} {limit : Nat}
    (hcond : timely i (.claim limit) w) :
    ∀ k ∈ (w.dueRows limit).map (·.id), ∃ r ∈ w.rows, r.id = k ∧ r.attempts < maxAttempts := by
  intro k hk
  obtain ⟨r, hr, rfl⟩ := List.mem_map.mp hk
  obtain ⟨hmem, hdue⟩ := mem_selected hr
  refine ⟨r, hmem, rfl, ?_⟩
  rcases hdue with ⟨hwaiting, -⟩ | ⟨hsending, -⟩
  · exact h.waiting r hmem hwaiting
  · exact hcond r hr hsending

/-- One operation of one worker, under the condition: a claim adds an attempt, a
delivery uses up a claim. -/
theorem Sound.call {i : ι} {o : OutboxOp} {w w' : World ι} {r : OutboxRep o}
    (he : (pool timely).exec i o w r w') (hpre : Pre i o w) (h : Sound w) : Sound w' := by
  obtain ⟨hcond, he⟩ := he
  cases he with
  | @claim limit _ items rows hok =>
      -- The claimed items are the due rows, and the condition leaves each of them a try.
      obtain ⟨hitems, hrows⟩ := claimNotifications_ok hok
      have hids : items.map (·.id) = (w.dueRows limit).map (·.id) := by
        rw [hitems, List.map_map]
        rfl
      rw [hids, hrows]
      exact h.claim i (selected_nodup h.unique) (h.left hcond)
  | claimRaises e => exact h
  | send r => exact h.sent hpre
  -- Marks match a row by its status, and a row in `sending` has been claimed.
  | @markSent id =>
      rcases markNotificationSent_cases id w.now w.rows with hsame | ⟨r, hr, -, -, hput⟩
      · rw [hsame]
        exact h
      · rw [hput]
        exact h.put hr rfl rfl fun hs => by simp at hs
  | markSentRaises e => exact h
  | @markFailed id errorCode _ item rows hok =>
      rcases markNotificationFailed_cases hok with hsame | ⟨r, hr, -, -, hput⟩
      · rw [hsame]
        exact h
      · rw [hput]
        refine h.put hr (failed_id ..) (failed_attempts ..) fun hs => ?_
        -- A failed row is dead, or it is due again with tries left.
        rcases failed_status errorCode w.now r with hdead | ⟨-, hlt⟩
        · simp [hdead] at hs
        · rw [failed_attempts]
          exact hlt
  | markFailedRaises e => exact h

/-- The step lemma for the pool of all workers. -/
theorem sound_preserved : (pool (timely : Condition ι)).Preserves Sound Pre where
  act := fun _ _ _ he h => h.act he
  call := fun _ _ _ _ _ he hpre h => h.call he hpre
  idle := fun i _ h => h.idle timely i

/-! ## §4. A worker sends what it has claimed. -/

/-- Worker `i` has claimed the rows of `ids` and sent none of them yet. -/
def Holds (i : ι) (ids : List Nat) (w : World ι) : Prop := ∀ k ∈ ids, (i, k) ∈ w.undelivered

/-- What a worker has claimed and not sent yet stays with it, whatever the
others do. -/
theorem holds_stable (i : ι) (ids : List Nat) :
    ((pool timely).member Sound Pre i).Stable (Holds i ids) := by
  intro _ w w' he h k hk
  have hmem := h k hk
  cases he with
  | @act a _ _ _ he =>
      cases a with
      | enqueue req =>
          obtain ⟨_, _, _, -, rfl⟩ := he
          exact hmem
      | prune before => cases he; exact hmem
      | clock now => cases he; exact hmem
      | lock locked => cases he; exact hmem
  | @call j o _ _ _ _ hj _ he =>
      cases he.2 with
      | claim => exact List.mem_append_left _ hmem
      | send =>
          refine (List.mem_erase_of_ne fun heq => hj ?_).mpr hmem
          exact (congrArg Prod.fst heq).symm
      | claimRaises | markSent | markSentRaises | markFailed | markFailedRaises => exact hmem
  | @idle j _ _ hj =>
      refine List.mem_filter.mpr ⟨hmem, ?_⟩
      simpa using hj.symm

/-- A report leaves the claims of the worker as they are. -/
theorem wp_report {i : ι} {ids : List Nat} {w : World ι} (item : NotificationOutboxItem)
    (errorCode : Option String) (h : Holds i ids w) :
    ((pool timely).member Sound Pre i).wp Sound (Pre i)
      (match errorCode with
        | some errorCode => reportFailed item errorCode
        | none => reportSent item) (fun _ w => Holds i ids w) w := by
  cases errorCode with
  | none =>
      refine System.wp_call_of_stable (holds_stable i ids) h (fun _ _ _ => trivial) ?_
      intro w r w' _ hw he _
      cases he.2 <;> exact hw
  | some errorCode =>
      refine System.wp_call_of_stable (holds_stable i ids) h (fun _ _ _ => trivial) ?_
      intro w r w' _ hw he _
      cases he.2 <;> exact hw

/-- The delivery of one row sends it once and reports it, so one claim is used
up. -/
theorem wp_deliver {i : ι} {ids : List Nat} {w : World ι} (item : NotificationOutboxItem)
    (hnew : item.id ∉ ids) (h : Holds i (item.id :: ids) w) :
    ((pool timely).member Sound Pre i).wp Sound (Pre i) (s.deliver item)
      (fun _ w => Holds i ids w) w := by
  unfold NotificationDeliveryService.deliver
  by_cases hc : s.configured item.channel
  · rw [if_pos hc]
    refine System.wp_call_of_stable (holds_stable i (item.id :: ids)) h
      (fun _ _ hw => hw _ List.mem_cons_self) ?_
    intro w r w' _ hw he _
    have hrest : Holds i ids w' := by
      cases he.2 with
      | send =>
          intro k hk
          refine (List.mem_erase_of_ne fun heq => hnew ?_).mpr (hw k (List.mem_cons_of_mem _ hk))
          have hid : k = item.id := congrArg Prod.snd heq
          exact hid ▸ hk
    match r with
    | .error (.delivery errorCode) => exact wp_report item (some errorCode) hrest
    | .error .other => exact wp_report item (some "internal_error") hrest
    | .ok () => exact wp_report item none hrest
  · rw [if_neg hc]
    exact wp_report item (some "channel_unconfigured") fun k hk => h k (List.mem_cons_of_mem _ hk)

/-- The loop over the claimed rows; the induction is on the list. -/
theorem wp_deliverAll {i : ι} : ∀ (items : List NotificationOutboxItem) {w : World ι},
    (items.map (·.id)).Nodup → Holds i (items.map (·.id)) w →
    ((pool timely).member Sound Pre i).wp Sound (Pre i) (s.deliverAll items) (fun _ _ => True) w
  | [], _, _, _ => trivial
  | item :: rest, w, hnodup, h => by
      have hcons := List.nodup_cons.mp hnodup
      refine System.wp_bind _ _ _ (System.wp_mono _ ?_ w (wp_deliver item hcons.1 h))
      intro r w' hw'
      cases r with
      | ok a => exact wp_deliverAll rest hcons.2 hw'
      | error e => trivial

/-- A whole pass sends nothing that it has not claimed. -/
theorem wp_runOnce (i : ι) (w : World ι) :
    ((pool timely).member Sound Pre i).wp Sound (Pre i) s.runOnce (fun _ _ => True) w := by
  refine System.wp_bind _ _ _ fun w₁ _ hsound => ⟨trivial, fun r w₂ he _ => ?_⟩
  cases he.2 with
  | claimRaises e => trivial
  | @claim _ _ items rows hok =>
      have hids : items.map (·.id) = (w₁.dueRows s.batchSize).map (·.id) := by
        rw [(claimNotifications_ok hok).1, List.map_map]
        rfl
      refine System.wp_bind _ _ _ (System.wp_mono _ ?_ _ (wp_deliverAll items ?_ ?_))
      · intro r w' _
        cases r <;> trivial
      · rw [hids]
        exact selected_nodup hsound.unique
      · intro k hk
        exact List.mem_append_right _ (List.mem_map.mpr ⟨k, hk, rfl⟩)

/-- The invariant holds in every reachable configuration. -/
theorem Reachable.sound {c : Pool.Config ι OutboxOp OutboxRep Exc Nat (World ι)}
    (hc : Reachable timely s c) : Sound c.world := by
  refine (hc.guarded sound_preserved (fun w hw => ?_) fun i w _ => wp_runOnce i w).1
  obtain ⟨hrows, hclaims, hdeliveries, hnone⟩ := hw
  have hempty : ∀ r, r ∉ w.rows := by
    intro r hr
    rw [hrows] at hr
    exact List.not_mem_nil hr
  constructor
  · rw [hrows]
    exact List.nodup_nil
  · exact fun r hr => absurd hr (hempty r)
  · exact fun k _ => hclaims k
  · exact fun r hr => absurd hr (hempty r)
  · exact fun r hr => absurd hr (hempty r)
  · intro k
    rw [hclaims k]
    exact Nat.zero_le _
  · intro k
    unfold World.pendingDeliveries
    rw [hdeliveries k, hclaims k, hnone]
    exact Nat.le_refl 0

/-! ## §5. Terminal states. -/

/-- Whatever the table holds under the row's id is the row, for good. -/
def Settled (r : NotificationOutboxRow) (w : World ι) : Prop :=
  r.id < w.nextId ∧ ∀ r' ∈ w.rows, r'.id = r.id → r' = r

/-- A settled row is not touched by the other actors, other than by being
pruned. -/
theorem Settled.act {r : NotificationOutboxRow} {cond : Condition ι} {a : OutboxAct}
    {w w' : World ι} (he : (pool cond).env a w w') (h : Settled r w) : Settled r w' := by
  cases a with
  | enqueue req =>
      obtain ⟨items, rows, nextId, hok, rfl⟩ := he
      obtain ⟨new, hrows, hle, -, hnew⟩ := enqueueNotification_ok hok
      refine ⟨Nat.lt_of_lt_of_le h.1 hle, fun r' hr' hid => ?_⟩
      have hr' : r' ∈ w.rows ++ new := hrows ▸ hr'
      rcases List.mem_append.mp hr' with hr' | hr'
      · exact h.2 r' hr' hid
      · -- A fresh id is not the row's.
        have hfresh := (hnew r' hr').1
        have hlt := h.1
        omega
  | prune before =>
      have hw' : w' = { w with rows := pruneNotificationHistory before w.rows } := he
      subst hw'
      exact ⟨h.1, fun r' hr' hid => h.2 r' (List.mem_filter.mp hr').1 hid⟩
  | clock now => cases he; exact h
  | lock locked => cases he; exact h

omit [DecidableEq ι] in
/-- No row is put in the place of one that is not `sending`. -/
theorem Settled.put {r old new : NotificationOutboxRow} {w : World ι} (h : Settled r w)
    (hr : r.status.terminal) (hold : old ∈ w.rows) (hid : new.id = old.id)
    (hs : old.status = .sending) : Settled r { w with rows := Table.put w.rows new } := by
  refine ⟨h.1, fun r' hr' hid' => ?_⟩
  rcases Table.mem_put.mp hr' with ⟨rfl, -⟩ | ⟨hr', -⟩
  · have hsame : old = r := h.2 old hold (hid.symm.trans hid')
    rw [← hsame, hs] at hr
    cases hr
  · exact h.2 r' hr' hid'

/-- No operation of a worker touches a row that is sent or dead. -/
theorem Settled.call {r : NotificationOutboxRow} (hr : r.status.terminal) {i : ι} {o : OutboxOp}
    {w w' : World ι} {x : OutboxRep o} (he : Performs i o w x w') (h : Settled r w) :
    Settled r w' := by
  cases he with
  | @claim limit _ items rows hok =>
      rw [(claimNotifications_ok hok).2]
      refine ⟨h.1, fun r' hr' hid => ?_⟩
      obtain ⟨old, hold, rfl⟩ := List.mem_map.mp hr'
      have hsame : old = r := h.2 old hold (by rwa [afterClaim_id] at hid)
      rw [hsame]
      refine afterClaim_of_not_mem _ fun hmem => ?_
      -- The row would have to be due.
      obtain ⟨p, hp, hpid⟩ := List.mem_map.mp hmem
      obtain ⟨hprows, hdue⟩ := mem_selected hp
      rw [h.2 p hprows hpid] at hdue
      rw [due_not_terminal hdue] at hr
      cases hr
  | @markSent id =>
      rcases markNotificationSent_cases id w.now w.rows with hsame | ⟨old, hold, -, hs, hput⟩
      · rw [hsame]
        exact h
      · rw [hput]
        exact h.put hr hold rfl hs
  | @markFailed id errorCode _ item rows hok =>
      rcases markNotificationFailed_cases hok with hsame | ⟨old, hold, -, hs, hput⟩
      · rw [hsame]
        exact h
      · rw [hput]
        exact h.put hr hold (failed_id ..) hs
  | claimRaises | send | markSentRaises | markFailedRaises => exact h

/-- So it stays as it is over any run. -/
theorem Settled.steps {r : NotificationOutboxRow} (hr : r.status.terminal) {cond : Condition ι}
    {c c' : Pool.Config ι OutboxOp OutboxRep Exc Nat (World ι)}
    (hs : Relation.ReflTransGen ((pool cond).Step s.runOnce) c c') (h : Settled r c.world) :
    Settled r c'.world := by
  induction hs with
  | refl => exact h
  | tail _ hstep ih =>
      cases hstep with
      | act he => exact ih.act he
      | call _ he => exact ih.call hr he.2
      | start | finish | crash => exact ih

omit [DecidableEq ι] in
theorem Sound.settled {w : World ι} (h : Sound w) {r : NotificationOutboxRow} (hr : r ∈ w.rows) :
    Settled r w :=
  ⟨h.below r hr, fun _ hr' hid => h.unique.eq hr' hr hid⟩

/-! ## §6. The bounds. -/

/-- A report about a row that is not `sending` leaves the table as it is. -/
theorem report_rows {i : ι} {o : OutboxOp} {k : Nat} (ho : o.reported = some k) {w w' : World ι}
    {x : OutboxRep o} (he : Performs i o w x w')
    (hk : ∀ r ∈ w.rows, r.id = k → r.status ≠ .sending) : w'.rows = w.rows := by
  cases he with
  | claim | claimRaises | send => cases ho
  | markSentRaises | markFailedRaises => rfl
  | markSent =>
      cases ho
      rcases markNotificationSent_cases k w.now w.rows with hsame | ⟨r, hr, hid, hs, -⟩
      · exact hsame
      · exact absurd hs (hk r hr hid)
  | markFailed hok =>
      cases ho
      rcases markNotificationFailed_cases hok with hsame | ⟨r, hr, hid, hs, -⟩
      · exact hsame
      · exact absurd hs (hk r hr hid)

/-- In a run in which no claim selects a row that is still `sending` after its
eighth attempt, and no report meets a `sending` row that another worker has
claimed since: no row is delivered more than eight times, `sent` and `dead`
rows stay as they are, and a late report changes nothing. -/
theorem delivered_at_most_eight {c : Pool.Config ι OutboxOp OutboxRep Exc Nat (World ι)}
    (hc : Reachable timely s c) :
    (∀ r ∈ c.world.rows, r.attempts ≤ 8) ∧ (∀ k, c.world.deliveries k ≤ 8)
      ∧ (∀ r ∈ c.world.rows, r.status = .sent ∨ r.status = .dead → ∀ c',
          Relation.ReflTransGen ((pool timely).Step s.runOnce) c c' →
          ∀ r' ∈ c'.world.rows, r'.id = r.id → r' = r)
      ∧ ∀ i o x w', (pool timely).exec i o c.world x w' → ∀ k, o.reported = some k →
          c.world.claimant k ≠ some i → w'.rows = c.world.rows := by
  have hsound := hc.sound
  refine ⟨fun r hr => ?_, fun k => ?_, fun r hr hterminal c' hs => ?_, ?_⟩
  · rw [hsound.counted r hr]
    exact hsound.bounded r.id
  · have hle := hsound.delivered k
    have hbound : c.world.claims k ≤ 8 := hsound.bounded k
    omega
  · have hr' : r.status.terminal := by
      rcases hterminal with h | h <;> rw [h] <;> rfl
    exact ((hsound.settled hr).steps hr' hs).2
  · intro i o x w' he k ho hne
    refine report_rows ho he.2 fun r hr hid hsending => hne ?_
    cases o with
    | claim | send => cases ho
    | markSent id => cases ho; exact he.1 r hr hid hsending
    | markFailed id errorCode => cases ho; exact he.1 r hr hid hsending

/-! ## §7. Workers that are late. -/

namespace Sample

def service : NotificationDeliveryService where
  configured := fun _ => true
  batchSize := 1
  batchSize_pos := by decide
  batchSize_le := by decide

def request : EnqueueRequest where
  dedupeKey := "execution:paused"
  eventType := "execution_paused"
  severity := .critical
  channels := [.email]
  subject := "Paused"
  body := "Execution is paused."

def row : NotificationOutboxRow := pendingRow request .email 0 0

def empty : World Bool where
  rows := []
  nextId := 0
  now := 0
  locked := []
  claims := fun _ => 0
  claimant := fun _ => none
  deliveries := fun _ => 0
  undelivered := []

def enqueued : World Bool :=
  { empty with
    rows := [row]
    nextId := 1 }

abbrev Config := Pool.Config Bool OutboxOp OutboxRep Exc Nat (World Bool)

/-- What is left of a pass after its claim. -/
def afterClaim (items : List NotificationOutboxItem) : Delivery Nat := do
  service.deliverAll items
  pure items.length

/-- One row is enqueued, whatever the condition on the workers. -/
theorem reachable_enqueued (cond : Condition Bool) :
    Reachable cond service (⟨enqueued, fun _ => none⟩ : Config) := by
  have hinit : Reachable cond service (⟨empty, fun _ => none⟩ : Config) :=
    .init ⟨rfl, fun _ => rfl, fun _ => rfl, rfl⟩
  have henqueue : (pool cond).env (.enqueue request) empty enqueued :=
    ⟨[row], [row], 1, by decide, rfl⟩
  exact .step hinit (.act henqueue)

/-- The one row is due: a worker without a pass claims it. -/
theorem reachable_claim {cond : Condition Bool} {w : World Bool}
    {ps : Bool → Option (Delivery Nat)} {i : Bool} {r : NotificationOutboxRow} (now : Int)
    (hc : Reachable cond service (⟨w, ps⟩ : Config)) (hi : ps i = none)
    (hrows : w.rows = [r]) (hlocked : w.locked = []) (hdue : r.due now)
    (hcond : cond i (.claim 1) { w with now }) :
    Reachable cond service (⟨({ w with now }).claimed i [r.id] [r.claimed now],
      Function.update ps i (some (afterClaim [r.claimed now]))⟩ : Config) := by
  have hok : claimNotifications 1 now w.locked w.rows
      = .ok ([r.claimed now], [r.claimed now]) := by
    rw [hrows, hlocked]
    simp [claimNotifications, selected, hdue, NotificationOutboxRow.afterClaim, bind, Except.bind,
      raiseIf]
  have hclock : Reachable cond service (⟨{ w with now }, ps⟩ : Config) :=
    .step hc (.act (show (pool cond).env (.clock now) w { w with now } from rfl))
  have hstart := Pool.Reach.step hclock (.start hi)
  have hcall := Pool.Reach.step hstart
    (.call (Function.update_self ..) ⟨hcond, .claim hok⟩)
  rw [Function.update_idem] at hcall
  exact hcall

/-- It sends the row, and crashes before it reports. -/
theorem reachable_crash {w : World Bool} {r : NotificationOutboxRow} {now : Int}
    (hc : Reachable anyOperation service (⟨w, fun _ => none⟩ : Config)) (hrows : w.rows = [r])
    (hlocked : w.locked = []) (hdue : r.due now) :
    ∃ w', Reachable anyOperation service (⟨w', fun _ => none⟩ : Config)
      ∧ w'.rows = [r.claimed now] ∧ w'.locked = []
      ∧ w'.deliveries r.id = w.deliveries r.id + 1 := by
  have hclaim := reachable_claim (i := true) now hc rfl hrows hlocked hdue trivial
  have hsend := Pool.Reach.step hclaim (.call (Function.update_self ..)
    ⟨trivial, @Performs.send _ _ true (r.claimed now) _ (.ok ())⟩)
  have hcrash := Pool.Reach.step hsend (.crash (Function.update_self ..))
  rw [Function.update_idem, Function.update_idem, Function.update_eq_self_iff.mpr rfl] at hcrash
  exact ⟨_, hcrash, rfl, hlocked, if_pos rfl⟩

/-- A worker that crashes again and again delivers the row again and again. -/
theorem reachable_crashes (n : Nat) : ∃ w r,
    Reachable anyOperation service (⟨w, fun _ => none⟩ : Config) ∧ w.rows = [r] ∧ w.locked = []
      ∧ r.status = .sending ∧ r.attempts = n + 1 ∧ w.deliveries r.id = n + 1 := by
  induction n with
  | zero =>
      have hdue : row.due 0 := Or.inl ⟨Or.inl rfl, Int.le_refl 0⟩
      obtain ⟨w, hc, hrows, hlocked, hsent⟩ := reachable_crash (reachable_enqueued _) rfl rfl hdue
      exact ⟨w, _, hc, hrows, hlocked, rfl, rfl, hsent⟩
  | succ n ih =>
      obtain ⟨w, r, hc, hrows, hlocked, hs, hattempts, hsent⟩ := ih
      have hdue : r.due (r.updatedAt + staleAfter) := Or.inr ⟨hs, by omega⟩
      obtain ⟨w', hc', hrows', hlocked', hsent'⟩ := reachable_crash hc hrows hlocked hdue
      refine ⟨w', _, hc', hrows', hlocked', rfl, ?_, ?_⟩
      · rw [claimed_attempts, hattempts]
      · rw [claimed_id, hsent', hsent]

/-- The row after both claims, while the first worker is late. -/
def late : World Bool :=
  (({ ({ enqueued with now := 0 }).claimed true [0] [row.claimed 0] with
    now := staleAfter }).claimed false [0] [(row.claimed 0).claimed staleAfter]).sent true 0

/-- One worker claims the row, another takes it over, and the first sends it:
so far no claim is the ninth one and nothing is reported. -/
theorem reachable_late {cond : Condition Bool} (hcond : ∀ i o w, timely i o w → cond i o w) :
    ∃ ps : Bool → Option (Delivery Nat), Reachable cond service (⟨late, ps⟩ : Config)
      ∧ (∃ k, ps true = some (.call (.markSent 0) k))
      ∧ ps false = some (afterClaim [(row.claimed 0).claimed staleAfter]) := by
  have hfirst := reachable_claim (i := true) 0 (reachable_enqueued cond) rfl rfl rfl
    (Or.inl ⟨Or.inl rfl, Int.le_refl 0⟩) (hcond _ _ _ (by decide))
  have hsecond := reachable_claim (i := false) staleAfter hfirst rfl rfl rfl
    (Or.inr ⟨rfl, by decide⟩) (hcond _ _ _ (by decide))
  have hsend := Pool.Reach.step hsecond (.call (i := true) rfl
    ⟨hcond _ _ _ trivial, @Performs.send _ _ true (row.claimed 0) _ (.ok ())⟩)
  exact ⟨_, hsend, ⟨_, rfl⟩, rfl⟩

/-- The second worker has sent the row as well, and has reported it. -/
def settled : World Bool :=
  { late.sent false 0 with rows := (markNotificationSent 0 late.now late.rows).2 }

/-- The second worker reports before the first one does. -/
theorem reachable_settled : ∃ ps : Bool → Option (Delivery Nat),
    Reachable timely service (⟨settled, ps⟩ : Config)
      ∧ ∃ k, ps true = some (.call (.markSent 0) k) := by
  obtain ⟨ps, hlate, htrue, hfalse⟩ := reachable_late fun _ _ _ h => h
  have hsend := Pool.Reach.step hlate (.call hfalse
    ⟨trivial, @Performs.send _ _ false ((row.claimed 0).claimed staleAfter) _ (.ok ())⟩)
  have hclaimant : timely false (.markSent 0) (late.sent false 0) := fun _ _ _ _ => rfl
  have hreport := Pool.Reach.step hsend
    (.call (Function.update_self ..) ⟨hclaimant, .markSent⟩)
  refine ⟨_, hreport, ?_⟩
  rw [Function.update_idem, Function.update_of_ne (by decide)]
  exact htrue

end Sample

/-- A row whose worker crashes nine times is delivered nine times.  And a
worker that is late settles a row that another one has claimed since. -/
theorem delivered_nine_times :
    (∃ c : Sample.Config, Reachable anyOperation Sample.service c
      ∧ ∃ r ∈ c.world.rows, r.attempts = 9 ∧ c.world.deliveries r.id = 9)
    ∧ ∃ c : Sample.Config, Reachable anyOperation Sample.service c
      ∧ (∃ k, c.passes true = some (.call (.markSent 0) k))
      ∧ c.world.claimant 0 = some false
      ∧ ∃ x w', (pool anyOperation).exec true (.markSent 0) c.world x w'
          ∧ w'.rows ≠ c.world.rows := by
  constructor
  · obtain ⟨w, r, hc, hrows, -, -, hattempts, hsent⟩ := Sample.reachable_crashes 8
    refine ⟨_, hc, r, ?_, hattempts, hsent⟩
    show r ∈ w.rows
    rw [hrows]
    exact List.mem_singleton_self r
  · obtain ⟨ps, hc, hpass, -⟩ := @Sample.reachable_late anyOperation
      fun _ _ _ _ => trivial
    refine ⟨_, hc, hpass, rfl, _, _, ⟨trivial, .markSent⟩, ?_⟩
    show (markNotificationSent 0 Sample.late.now Sample.late.rows).2 ≠ Sample.late.rows
    decide

/-- Two workers deliver one row, which stays below the bounds.  The second one
settles it, and the report of the first, which comes late, leaves the settled
row as it is. -/
theorem delivered_at_most_eight_sample :
    ∃ c c' : Sample.Config, Reachable timely Sample.service c
      ∧ (∃ r ∈ c.world.rows, r.status = .sent ∧ r.attempts = 2) ∧ c.world.deliveries 0 = 2
      ∧ (∃ k, c.passes true = some (.call (.markSent 0) k)) ∧ c.world.claimant 0 = some false
      ∧ (pool timely).Step Sample.service.runOnce c c'
      ∧ (∀ r ∈ c.world.rows, r.attempts ≤ 8) ∧ (∀ k, c.world.deliveries k ≤ 8)
      ∧ (∀ r ∈ c.world.rows, r.status = .sent → ∀ r' ∈ c'.world.rows, r'.id = r.id → r' = r)
      ∧ c'.world.rows = c.world.rows := by
  obtain ⟨ps, hc, k, hk⟩ := Sample.reachable_settled
  have htimely : timely true (.markSent 0) Sample.settled := by decide
  have hexec : (pool timely).exec true (.markSent 0) Sample.settled _ _ := ⟨htimely, .markSent⟩
  have hstep : (pool timely).Step Sample.service.runOnce ⟨Sample.settled, ps⟩ _ :=
    .call hk hexec
  obtain ⟨hattempts, hdeliveries, habsorbing, hlate⟩ := delivered_at_most_eight hc
  have hsettled : ∃ r ∈ Sample.settled.rows, r.status = .sent ∧ r.attempts = 2 := by decide
  have hother : Sample.settled.claimant 0 ≠ some true := by decide
  refine ⟨_, _, hc, hsettled, rfl, ⟨k, hk⟩, rfl, hstep, hattempts, hdeliveries, ?_, ?_⟩
  · intro r hr hsent
    exact habsorbing r hr (.inl hsent) _ (.single hstep)
  · exact hlate true _ _ _ hexec 0 rfl hother

end BasisHawk.Notifications
