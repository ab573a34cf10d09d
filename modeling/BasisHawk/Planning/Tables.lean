/-
  BasisHawk.Planning.Tables
  ─────────────────────────
  The tables behind `create_trade_intent`, `create_paper_close_intent`,
  `create_execution_task`, `plan_internal_transfer` and
  `reserve_trade_preview` (`storage.py`), with the statements these issue.

  Main results:
    • `mem_keys_apply` — the keys stored after a write,
    • `answer_flush_new`, `answer_flush_taken` — when a flush violates a
      constraint.
-/
import BasisHawk.Lib.Sessions
import BasisHawk.Planning.Plans
import BasisHawk.Transfers.Storage

namespace BasisHawk.Planning

open Domain Lib
open Paired (OrderLegRow LegName TradeAction)
open MultiLeg (ExecutionTaskRow ExecutionTaskLegRow ExecutionControlRow)
open Transfers (InternalTransferRow TransferLimitSettings)

/-! ## §1. Rows. -/

/-- `ExecutionTaskRow` with the columns its creation compares. -/
structure ExecutionTask extends ExecutionTaskRow where
  idempotencyKey : String
  requestFingerprint : String
  deriving DecidableEq

/-- `TradePreviewRow`. -/
structure TradePreview where
  id : Nat
  actor : String
  requestFingerprint : String
  action : TradeAction
  pairedPositionId : Option Nat
  exchange : Exchange
  environment : ExchangeEnvironment
  baseAsset : String
  requestedNotional : ℚ
  leverage : Int
  maximumSlippage : ℚ
  marketObservedAt : Int
  spotLimitPrice : Option Limit
  perpLimitPrice : Option Limit
  confirmationIdempotencyKey : Option String
  createdAt : Int
  expiresAt : Int
  confirmedAt : Option Int
  position_action : action = .opening ↔ pairedPositionId = none
  notional_positive : 0 < requestedNotional
  leverage_range : 1 ≤ leverage ∧ leverage ≤ 10
  slippage_range : 0 < maximumSlippage ∧ maximumSlippage ≤ 1 / 4

/-- Rows are compared column by column. -/
instance : DecidableEq TradePreview := fun a b =>
  decidable_of_iff
    (a.id = b.id ∧ a.actor = b.actor ∧ a.requestFingerprint = b.requestFingerprint
      ∧ a.action = b.action ∧ a.pairedPositionId = b.pairedPositionId ∧ a.exchange = b.exchange
      ∧ a.environment = b.environment ∧ a.baseAsset = b.baseAsset
      ∧ a.requestedNotional = b.requestedNotional ∧ a.leverage = b.leverage
      ∧ a.maximumSlippage = b.maximumSlippage ∧ a.marketObservedAt = b.marketObservedAt
      ∧ a.spotLimitPrice = b.spotLimitPrice ∧ a.perpLimitPrice = b.perpLimitPrice
      ∧ a.confirmationIdempotencyKey = b.confirmationIdempotencyKey ∧ a.createdAt = b.createdAt
      ∧ a.expiresAt = b.expiresAt ∧ a.confirmedAt = b.confirmedAt)
    (by cases a; cases b; simp)

structure Tables where
  intents : List TradeIntent
  legs : List OrderLegRow
  positions : List Position
  tasks : List ExecutionTask
  taskLegs : List ExecutionTaskLegRow
  limits : Option TransferLimitSettings
  control : Option ExecutionControlRow
  transfers : List InternalTransferRow
  previews : List TradePreview
  deriving DecidableEq

/-- Foreign keys of the tables. -/
structure Tables.Linked (d : Tables) : Prop where
  legs : ∀ leg ∈ d.legs, ∃ t ∈ d.intents, t.id = leg.tradeIntentId
  opening : ∀ p ∈ d.positions, ∃ t ∈ d.intents, t.id = p.openingIntentId
  closing : ∀ p ∈ d.positions, ∀ n ∈ p.closingIntentId, ∃ t ∈ d.intents, t.id = n
  taskLegs : ∀ leg ∈ d.taskLegs, ∃ t ∈ d.tasks, t.id = leg.taskId

/-- The text of `order_legs.leg`, by which legs are ordered. -/
def legText : LegName → String
  | .primary .spot => "spot"
  | .primary .perp => "perp"
  | .compensation .spot => "spot_compensation"
  | .compensation .perp => "perp_compensation"

/-! ## §2. Queries and writes. -/

/-- The queries, each under the function that sends it: the lookup of a planner and
that of a creation are told apart. -/
inductive Query where
  | tradeIntentByIdempotency (key : String)
  | intentByKey (key : String)
  | intent (id : Nat)
  | legsOfIntent (intentId : Nat)
  | position (id : Nat)
  | taskByKey (key : String)
  | legsOfTask (taskId : Nat)
  | transferByKey (key : Nat)
  | transferLimits
  | usedOn (dayStart : Int)
  | control
  | preview (id : Nat)
  deriving DecidableEq

@[reducible] def Ans : Query → Type
  | .tradeIntentByIdempotency _ => Option TradeIntent
  | .intentByKey _ => Option TradeIntent
  | .intent _ => Option TradeIntent
  | .legsOfIntent _ => List OrderLegRow
  | .position _ => Option Position
  | .taskByKey _ => Option ExecutionTask
  | .legsOfTask _ => List ExecutionTaskLegRow
  | .transferByKey _ => Option InternalTransferRow
  | .transferLimits => Option TransferLimitSettings
  | .usedOn _ => ℚ
  | .control => Option ExecutionControlRow
  | .preview _ => Option TradePreview

def ask : (q : Query) → Tables → Ans q
  | .tradeIntentByIdempotency key, d => d.intents.find? (·.idempotencyKey = key)
  | .intentByKey key, d => d.intents.find? (·.idempotencyKey = key)
  | .intent id, d => d.intents.find? (·.id = id)
  | .legsOfIntent id, d =>
      (d.legs.filter (·.tradeIntentId = id)).insertionSort fun a b => legText a.leg ≤ legText b.leg
  | .position id, d => d.positions.find? (·.id = id)
  | .taskByKey key, d => d.tasks.find? (·.idempotencyKey = key)
  | .legsOfTask id, d =>
      (d.taskLegs.filter (·.taskId = id)).insertionSort fun a b => a.ordinal ≤ b.ordinal
  | .transferByKey key, d => d.transfers.find? (·.idempotencyKey = key)
  | .transferLimits, d => d.limits
  | .usedOn dayStart, d => Transfers.usedOn dayStart d.transfers
  | .control, d => d.control
  | .preview id, d => d.previews.find? (·.id = id)

/-- The rows that can be locked. -/
inductive RowLock where
  | position (id : Nat)
  | transferLimits
  | control
  | preview (id : Nat)
  deriving DecidableEq

/-- `FOR UPDATE` locks the row it finds. -/
def locks : Query → Tables → List RowLock
  | .position id, d => if (ask (.position id) d).isSome then [.position id] else []
  | .transferLimits, d => if d.limits.isSome then [.transferLimits] else []
  | .control, d => if d.control.isSome then [.control] else []
  | .preview id, d => if (ask (.preview id) d).isSome then [.preview id] else []
  | _, _ => []

inductive Write where
  | intent (row : TradeIntent)
  | legs (rows : List OrderLegRow)
  | reservePosition (positionId intentId : Nat)
  | task (row : ExecutionTask)
  | taskLegs (rows : List ExecutionTaskLegRow)
  | transferLimits (limits : TransferLimitSettings)
  | control (row : ExecutionControlRow)
  | pauseControl (reason : String)
  | transfer (row : InternalTransferRow)
  | confirmPreview (previewId : Nat) (key : String) (confirmedAt : Int)
  deriving DecidableEq

/-- The position is being closed by the intent. -/
def Position.reserve (p : Position) (intentId : Nat) : Position :=
  { p with
    status := .closing
    closingIntentId := some intentId
    open_pos := fun h => by cases h }

def apply : Write → Tables → Tables
  | .intent row, d => { d with intents := d.intents ++ [row] }
  | .legs rows, d => { d with legs := d.legs ++ rows }
  | .reservePosition id intentId, d =>
      { d with positions := d.positions.map fun p => if p.id = id then p.reserve intentId else p }
  | .task row, d => { d with tasks := d.tasks ++ [row] }
  | .taskLegs rows, d => { d with taskLegs := d.taskLegs ++ rows }
  | .transferLimits limits, d => { d with limits := some limits }
  | .control row, d => { d with control := some row }
  | .pauseControl reason, d => { d with control := some ⟨.paused, reason⟩ }
  | .transfer row, d => { d with transfers := d.transfers ++ [row] }
  | .confirmPreview id key at', d =>
      { d with previews := d.previews.map fun p =>
          if p.id = id then { p with confirmationIdempotencyKey := some key, confirmedAt := some at' }
          else p }

/-! ## §3. Unique keys. -/

/-- The primary keys and unique constraints of the tables. -/
inductive UniqueKey where
  | intentId (id : Nat)
  | intentKey (key : String)
  | legId (id : Nat)
  | clientOrderId (text : String)
  | legName (intentId : Nat) (leg : LegName)
  | closingIntent (intentId : Nat)
  | taskId (id : Nat)
  | taskKey (key : String)
  | taskLegId (id : Nat)
  | taskLegOrdinal (taskId ordinal : Nat)
  | transferLimits
  | control
  | transferId (id : Nat)
  | transferKey (key : Nat)
  | confirmation (key : String)
  deriving DecidableEq

def intentKeys (t : TradeIntent) : List UniqueKey := [.intentId t.id, .intentKey t.idempotencyKey]

def legKeys (o : OrderLegRow) : List UniqueKey :=
  [.legId o.id, .clientOrderId o.clientOrderId, .legName o.tradeIntentId o.leg]

def taskKeys (t : ExecutionTask) : List UniqueKey := [.taskId t.id, .taskKey t.idempotencyKey]

def taskLegKeys (l : ExecutionTaskLegRow) : List UniqueKey :=
  [.taskLegId l.id, .taskLegOrdinal l.taskId l.ordinal]

def transferKeys (t : InternalTransferRow) : List UniqueKey :=
  [.transferId t.id, .transferKey t.idempotencyKey]

/-- The unique keys a write inserts. -/
def claims : Write → List UniqueKey
  | .intent row => intentKeys row
  | .legs rows => rows.flatMap legKeys
  | .reservePosition _ intentId => [.closingIntent intentId]
  | .task row => taskKeys row
  | .taskLegs rows => rows.flatMap taskLegKeys
  | .transferLimits _ => [.transferLimits]
  | .control _ => [.control]
  | .pauseControl _ => []
  | .transfer row => transferKeys row
  | .confirmPreview _ key _ => [.confirmation key]

/-- The unique keys of the stored rows. -/
def keys (d : Tables) : List UniqueKey :=
  d.intents.flatMap intentKeys ++ d.legs.flatMap legKeys
    ++ d.positions.filterMap (fun p => p.closingIntentId.map UniqueKey.closingIntent)
    ++ d.tasks.flatMap taskKeys ++ d.taskLegs.flatMap taskLegKeys
    ++ (if d.limits.isSome then [UniqueKey.transferLimits] else [])
    ++ (if d.control.isSome then [UniqueKey.control] else [])
    ++ d.transfers.flatMap transferKeys
    ++ d.previews.filterMap (fun p => p.confirmationIdempotencyKey.map UniqueKey.confirmation)

/-- A row that holds the key, constructor by constructor. -/
def Stored (d : Tables) : UniqueKey → Prop
  | .intentId n => ∃ t ∈ d.intents, n = t.id
  | .intentKey key => ∃ t ∈ d.intents, key = t.idempotencyKey
  | .legId n => ∃ o ∈ d.legs, n = o.id
  | .clientOrderId text => ∃ o ∈ d.legs, text = o.clientOrderId
  | .legName n leg => ∃ o ∈ d.legs, n = o.tradeIntentId ∧ leg = o.leg
  | .closingIntent n => ∃ p ∈ d.positions, p.closingIntentId = some n
  | .taskId n => ∃ t ∈ d.tasks, n = t.id
  | .taskKey key => ∃ t ∈ d.tasks, key = t.idempotencyKey
  | .taskLegId n => ∃ l ∈ d.taskLegs, n = l.id
  | .taskLegOrdinal n k => ∃ l ∈ d.taskLegs, n = l.taskId ∧ k = l.ordinal
  | .transferLimits => d.limits.isSome
  | .control => d.control.isSome
  | .transferId n => ∃ t ∈ d.transfers, n = t.id
  | .transferKey key => ∃ t ∈ d.transfers, key = t.idempotencyKey
  | .confirmation key => ∃ p ∈ d.previews, p.confirmationIdempotencyKey = some key

/-- The keys in use are those of the rows that are stored. -/
theorem mem_keys {d : Tables} {k : UniqueKey} : k ∈ keys d ↔ Stored d k := by
  cases k <;> simp [keys, intentKeys, legKeys, taskKeys, taskLegKeys, transferKeys, Stored]

/-- The tables as sessions use them. -/
def schema : Schema Query Ans Tables RowLock UniqueKey Write where
  ask := ask
  locks := locks
  claims := claims
  keys := keys
  apply := apply

/-! ## §4. What a write does to the unique keys. -/

/-- A column of unique keys after an update of some rows. -/
theorem mem_column_update {ρ : Type} {column : ρ → Option UniqueKey} {update : ρ → ρ}
    {k k' : UniqueKey} {rows : List ρ}
    (hu : ∀ r, column (update r) = column r ∨ column (update r) = some k')
    (h : k ∈ (rows.map update).filterMap column) :
    k ∈ rows.filterMap column ∨ k = k' := by
  rw [List.filterMap_map] at h
  obtain ⟨r, hr, hk⟩ := List.mem_filterMap.mp h
  rcases hu r with hsame | hnew
  · exact .inl (List.mem_filterMap.mpr ⟨r, hr, hsame ▸ hk⟩)
  · exact .inr (Option.some.inj (hk.symm.trans hnew))

/-- The keys stored after a write are the old ones and its own. -/
theorem mem_keys_apply {w : Write} (hw : ∀ reason, w ≠ .pauseControl reason) {d : Tables}
    {k : UniqueKey} (h : k ∈ keys (apply w d)) : k ∈ keys d ∨ k ∈ claims w := by
  simp only [keys, List.mem_append] at h ⊢
  cases w with
  | intent row =>
      simp only [apply, claims, List.flatMap_append, List.flatMap_singleton, List.mem_append] at h ⊢
      tauto
  | legs rows =>
      simp only [apply, claims, List.flatMap_append, List.mem_append] at h ⊢
      tauto
  -- The two updates write one column of a row; only its new value can be a new key.
  | reservePosition id intentId =>
      simp only [apply, claims, List.mem_singleton] at h ⊢
      have hcol : k ∈ (apply (.reservePosition id intentId) d).positions.filterMap
            (fun p => p.closingIntentId.map UniqueKey.closingIntent) →
          k ∈ d.positions.filterMap (fun p => p.closingIntentId.map UniqueKey.closingIntent)
            ∨ k = .closingIntent intentId := by
        refine mem_column_update fun p => ?_
        split
        · exact .inr rfl
        · exact .inl rfl
      simp only [apply] at hcol
      tauto
  | task row =>
      simp only [apply, claims, List.flatMap_append, List.flatMap_singleton, List.mem_append] at h ⊢
      tauto
  | taskLegs rows =>
      simp only [apply, claims, List.flatMap_append, List.mem_append] at h ⊢
      tauto
  | transferLimits limits =>
      simp only [apply, claims, Option.isSome_some, if_true] at h ⊢
      tauto
  | control row =>
      simp only [apply, claims, Option.isSome_some, if_true] at h ⊢
      tauto
  | pauseControl reason => exact absurd rfl (hw reason)
  | transfer row =>
      simp only [apply, claims, List.flatMap_append, List.flatMap_singleton, List.mem_append] at h ⊢
      tauto
  | confirmPreview id key at' =>
      simp only [apply, claims, List.mem_singleton] at h ⊢
      have hcol : k ∈ (apply (.confirmPreview id key at') d).previews.filterMap
            (fun p => p.confirmationIdempotencyKey.map UniqueKey.confirmation) →
          k ∈ d.previews.filterMap (fun p => p.confirmationIdempotencyKey.map UniqueKey.confirmation)
            ∨ k = .confirmation key := by
        refine mem_column_update fun p => ?_
        split
        · exact .inr rfl
        · exact .inl rfl
      simp only [apply] at hcol
      tauto

/-- A write of new keys violates no constraint. -/
theorem not_conflicts {w : Write} {d : Tables} (hnodup : (claims w).Nodup)
    (hnew : ∀ k ∈ claims w, k ∉ keys d) : ¬schema.conflicts w d := by
  rintro (h | ⟨k, hk, hmem⟩)
  · exact h hnodup
  · exact hnew k hk hmem

/-- A flush whose keys nobody has used is taken into the transaction. -/
theorem answer_flush_new {w : Write} {d : Tables} {s : Session RowLock UniqueKey Write}
    (hnodup : (claims w).Nodup)
    (hnew : ∀ k ∈ claims w, k ∉ keys (schema.view s d)) :
    schema.answer (.flush w) (d, s)
      = (true, (d, { s with claims := s.claims ++ claims w, writes := s.writes ++ [w] })) := by
  rw [Schema.answer_flush, if_neg (not_conflicts hnodup hnew)]
  rfl

/-- A flush with a key in use meets the constraint and changes nothing. -/
theorem answer_flush_taken {w : Write} {d : Tables} {s : Session RowLock UniqueKey Write} {k : UniqueKey}
    (hk : k ∈ claims w) (hmem : k ∈ keys (schema.view s d)) :
    schema.answer (.flush w) (d, s) = (false, (d, s)) := by
  rw [Schema.answer_flush, if_pos (.inr ⟨k, hk, hmem⟩)]

/-- The statements on these tables. -/
abbrev Sql : Type := Stmt Query Write

/-- A program of such statements. -/
abbrev Tx (α : Type) : Type := Prog Sql (Stmt.Rep Ans) Exc α

end BasisHawk.Planning
