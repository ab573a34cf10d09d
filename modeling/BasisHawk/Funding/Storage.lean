/-
  BasisHawk.Funding.Storage
  ─────────────────────────
  The ledger of funding payments (`storage.py`): the table `funding_income`,
  the transaction that fills it and the two queries that read it.

  A payment is identified by its exchange, environment and record id.  The
  surrogate key of a row, which nothing reads, is left out.

  Main results:
    • `insertFundingIncome_ok`, `persistFundingIncome_ok` — what a committed
      batch leaves in the table,
    • `latestFundingIncomeAt_some`, `latestFundingIncomeAt_none` — the newest
      stored payment of a scope.
-/
import Mathlib.Data.List.MinMax
import BasisHawk.Paired.Rows

namespace BasisHawk.Funding

open Domain Lib
open Paired (PairedPositionRow)

/-! ## §1. Rows. -/

/-- `RemoteFundingIncome`. -/
structure RemoteFundingIncome where
  exchangeRecordId : String
  symbol : String
  baseAsset : String
  asset : String
  amount : ℚ
  rate : Option ℚ
  positionValue : Option ℚ
  occurredAt : Int
  deriving DecidableEq

/-- `RemoteFundingIncomeBatch`. -/
structure RemoteFundingIncomeBatch where
  records : List RemoteFundingIncome
  complete : Bool
  incompleteReason : Option String
  deriving DecidableEq

/-- The exchange and the environment a payment belongs to. -/
structure Scope where
  exchange : Exchange
  environment : ExchangeEnvironment
  deriving DecidableEq

/-- `FundingIncomeRow`. -/
structure FundingIncomeRow extends RemoteFundingIncome where
  scope : Scope
  observedAt : Int
  usdt_only : asset = "USDT"
  deriving DecidableEq

/-- The stored payments of a scope. -/
def ofScope (s : Scope) (rows : List FundingIncomeRow) : List RemoteFundingIncome :=
  (rows.filter (·.scope = s)).map (·.toRemoteFundingIncome)

theorem mem_ofScope {s : Scope} {rows : List FundingIncomeRow} {r : RemoteFundingIncome} :
    r ∈ ofScope s rows ↔ ∃ row ∈ rows, row.scope = s ∧ row.toRemoteFundingIncome = r := by
  simp [ofScope, and_assoc]

/-! ## §2. Storing a batch. -/

/-- One `INSERT ... ON CONFLICT DO NOTHING`.  The check of the asset comes
before the unique key is looked at. -/
def insertFundingIncome (s : Scope) (observedAt : Int) (rows : List FundingIncomeRow)
    (r : RemoteFundingIncome) : Except Exc (List FundingIncomeRow) :=
  if h : r.asset = "USDT" then
    if ∃ row ∈ rows, row.scope = s ∧ row.exchangeRecordId = r.exchangeRecordId then .ok rows
    else .ok (rows ++ [{ r with
      scope := s
      observedAt := observedAt
      usdt_only := h }])
  else .error (.integrity "ck_funding_income_usdt_only")

/-- The inserts of a batch, one after the other. -/
def insertAll (s : Scope) (observedAt : Int) :
    List FundingIncomeRow → List RemoteFundingIncome → Except Exc (List FundingIncomeRow)
  | rows, [] => .ok rows
  | rows, r :: rest => do
      let rows ← insertFundingIncome s observedAt rows r
      insertAll s observedAt rows rest

/-- `persist_funding_income`: how many rows are new. -/
def persistFundingIncome (s : Scope) (records : List RemoteFundingIncome) (observedAt : Int)
    (rows : List FundingIncomeRow) : Except Exc (Nat × List FundingIncomeRow) :=
  if records = [] then .ok (0, rows)
  else do
    let rows' ← insertAll s observedAt rows records
    .ok (rows'.length - rows.length, rows')

/-- What is stored for a scope after an insert: what was there, and the record
unless its id was taken. -/
theorem insertFundingIncome_ok {s : Scope} {observedAt : Int} {rows rows' : List FundingIncomeRow}
    {r : RemoteFundingIncome} (h : insertFundingIncome s observedAt rows r = .ok rows') :
    (rows' = rows ∧ ∃ old ∈ ofScope s rows, old.exchangeRecordId = r.exchangeRecordId)
      ∨ (∃ row : FundingIncomeRow, row.scope = s ∧ row.toRemoteFundingIncome = r
          ∧ rows' = rows ++ [row]) := by
  unfold insertFundingIncome at h
  split at h
  · next husdt =>
      split at h
      · next htaken =>
          obtain ⟨row, hrow, hs, hid⟩ := htaken
          injection h with h
          exact .inl ⟨h.symm, row.toRemoteFundingIncome, mem_ofScope.mpr ⟨row, hrow, hs, rfl⟩, hid⟩
      · injection h with h
        exact .inr ⟨_, rfl, rfl, h.symm⟩
  · cases h

/-- An insert changes no other scope. -/
theorem insertFundingIncome_other {s t : Scope} {observedAt : Int}
    {rows rows' : List FundingIncomeRow} {r : RemoteFundingIncome} (hne : s ≠ t)
    (h : insertFundingIncome s observedAt rows r = .ok rows') : ofScope t rows' = ofScope t rows := by
  rcases insertFundingIncome_ok h with ⟨rfl, -⟩ | ⟨row, hs, -, rfl⟩
  · rfl
  · have hrow : ¬row.scope = t := fun ht => hne (hs.symm.trans ht)
    simp [ofScope, hrow]

/-- A batch only adds rows. -/
theorem insertAll_mono {s : Scope} {observedAt : Int} {records : List RemoteFundingIncome} :
    ∀ {rows rows' : List FundingIncomeRow}, insertAll s observedAt rows records = .ok rows' →
      ∀ t, ∀ r ∈ ofScope t rows, r ∈ ofScope t rows' := by
  induction records with
  | nil =>
      intro rows rows' h t r hr
      injection h with h
      exact h ▸ hr
  | cons a rest ih =>
      intro rows rows' h t r hr
      obtain ⟨rows₁, h₁, h₂⟩ := bind_eq_ok.mp h
      apply ih h₂
      rcases insertFundingIncome_ok h₁ with ⟨rfl, -⟩ | ⟨row, -, -, rfl⟩
      · exact hr
      · obtain ⟨old, hold, hs, hr⟩ := mem_ofScope.mp hr
        exact mem_ofScope.mpr ⟨old, List.mem_append_left _ hold, hs, hr⟩

/-- What a batch adds comes from the batch. -/
theorem insertAll_from {s : Scope} {observedAt : Int} {records : List RemoteFundingIncome} :
    ∀ {rows rows' : List FundingIncomeRow}, insertAll s observedAt rows records = .ok rows' →
      ∀ r ∈ ofScope s rows', r ∈ ofScope s rows ∨ r ∈ records := by
  induction records with
  | nil =>
      intro rows rows' h r hr
      injection h with h
      exact .inl (h ▸ hr)
  | cons a rest ih =>
      intro rows rows' h r hr
      obtain ⟨rows₁, h₁, h₂⟩ := bind_eq_ok.mp h
      rcases ih h₂ r hr with hr | hr
      · rcases insertFundingIncome_ok h₁ with ⟨rfl, -⟩ | ⟨row, hs, ha, rfl⟩
        · exact .inl hr
        · obtain ⟨row', hrow', hs', rfl⟩ := mem_ofScope.mp hr
          rcases List.mem_append.mp hrow' with hmem | hmem
          · exact .inl (mem_ofScope.mpr ⟨row', hmem, hs', rfl⟩)
          · obtain rfl := List.mem_singleton.mp hmem
            exact .inr (ha ▸ List.mem_cons_self)
      · exact .inr (List.mem_cons_of_mem _ hr)

/-- Every record of a batch is stored, or one with its id was. -/
theorem insertAll_stored {s : Scope} {observedAt : Int} {records : List RemoteFundingIncome} :
    ∀ {rows rows' : List FundingIncomeRow}, insertAll s observedAt rows records = .ok rows' →
      ∀ r ∈ records, ∃ old ∈ ofScope s rows', old.exchangeRecordId = r.exchangeRecordId := by
  induction records with
  | nil => exact fun _ r hr => absurd hr List.not_mem_nil
  | cons a rest ih =>
      intro rows rows' h r hr
      obtain ⟨rows₁, h₁, h₂⟩ := bind_eq_ok.mp h
      rcases List.mem_cons.mp hr with rfl | hr
      · rcases insertFundingIncome_ok h₁ with ⟨rfl, old, hold, hid⟩ | ⟨row, hs, ha, rfl⟩
        · exact ⟨old, insertAll_mono h₂ s old hold, hid⟩
        · have hrow : row.toRemoteFundingIncome ∈ ofScope s (rows ++ [row]) :=
            mem_ofScope.mpr ⟨row, List.mem_append_right _ List.mem_cons_self, hs, rfl⟩
          exact ⟨_, insertAll_mono h₂ s _ hrow, congrArg _ ha⟩
      · exact ih h₂ r hr

/-- Inserting the records of one scope leaves those of the others. -/
theorem insertAll_other {s t : Scope} {observedAt : Int} {records : List RemoteFundingIncome}
    (hne : s ≠ t) : ∀ {rows rows' : List FundingIncomeRow},
      insertAll s observedAt rows records = .ok rows' → ofScope t rows' = ofScope t rows := by
  induction records with
  | nil =>
      intro rows rows' h
      injection h with h
      rw [h]
  | cons a rest ih =>
      intro rows rows' h
      obtain ⟨rows₁, h₁, h₂⟩ := bind_eq_ok.mp h
      rw [ih h₂, insertFundingIncome_other hne h₁]

/-- An empty batch needs no case of its own. -/
theorem persistFundingIncome_insertAll {s : Scope} {records : List RemoteFundingIncome}
    {observedAt : Int} {rows rows' : List FundingIncomeRow} {n : Nat}
    (h : persistFundingIncome s records observedAt rows = .ok (n, rows')) :
    insertAll s observedAt rows records = .ok rows' := by
  unfold persistFundingIncome at h
  split at h
  · next hnil =>
      injection h with h
      obtain ⟨-, rfl⟩ := Prod.mk.inj h
      rw [hnil]
      rfl
  · obtain ⟨rows₁, h₁, h₂⟩ := bind_eq_ok.mp h
    injection h₂ with h₂
    obtain ⟨-, rfl⟩ := Prod.mk.inj h₂
    exact h₁

/-- A committed batch: the table grows, by records of the batch only, and every
record of the batch is there, or one with its id was. -/
theorem persistFundingIncome_ok {s : Scope} {records : List RemoteFundingIncome}
    {observedAt : Int} {rows rows' : List FundingIncomeRow} {n : Nat}
    (h : persistFundingIncome s records observedAt rows = .ok (n, rows')) :
    (∀ r ∈ ofScope s rows, r ∈ ofScope s rows')
      ∧ (∀ r ∈ ofScope s rows', r ∈ ofScope s rows ∨ r ∈ records)
      ∧ ∀ r ∈ records, ∃ old ∈ ofScope s rows', old.exchangeRecordId = r.exchangeRecordId := by
  have h' := persistFundingIncome_insertAll h
  exact ⟨insertAll_mono h' s, insertAll_from h', insertAll_stored h'⟩

/-- So does a whole batch. -/
theorem persistFundingIncome_other {s t : Scope} {records : List RemoteFundingIncome}
    {observedAt : Int} {rows rows' : List FundingIncomeRow} {n : Nat} (hne : s ≠ t)
    (h : persistFundingIncome s records observedAt rows = .ok (n, rows')) :
    ofScope t rows' = ofScope t rows :=
  insertAll_other hne (persistFundingIncome_insertAll h)

/-! ## §3. The newest payment. -/

/-- `latest_funding_income_at`. -/
def latestFundingIncomeAt (s : Scope) (rows : List FundingIncomeRow) : Option Int :=
  ((ofScope s rows).map (·.occurredAt)).max?

/-- The start of the next query is the time of the newest record of the scope.
-/
theorem latestFundingIncomeAt_some {s : Scope} {rows : List FundingIncomeRow} {latest : Int}
    (h : latestFundingIncomeAt s rows = some latest) :
    (∃ r ∈ ofScope s rows, r.occurredAt = latest) ∧ ∀ r ∈ ofScope s rows, r.occurredAt ≤ latest := by
  obtain ⟨hmem, hle⟩ := List.max?_eq_some_iff.mp h
  refine ⟨by simpa using hmem, fun r hr => hle _ (List.mem_map_of_mem hr)⟩

/-- There is no newest record only where the scope has none. -/
theorem latestFundingIncomeAt_none {s : Scope} {rows : List FundingIncomeRow}
    (h : latestFundingIncomeAt s rows = none) : ofScope s rows = [] := by
  simpa using List.max?_eq_none_iff.mp h

/-! ## §4. The totals of positions. -/

/-- The positions and the payments as the query reads them. -/
structure Books where
  positions : List PairedPositionRow
  payments : List FundingIncomeRow
  unique : Table.Unique positions

/-- The payment joins the position: same exchange, environment and base asset,
and it occurred between the opening and `through`. -/
def joins (through : Int) (p : PairedPositionRow) (r : FundingIncomeRow) : Prop :=
  r.scope = ⟨p.exchange, p.environment⟩ ∧ r.baseAsset = p.baseAsset
    ∧ p.openedAt ≤ r.occurredAt ∧ r.occurredAt ≤ through

instance (through : Int) (p : PairedPositionRow) (r : FundingIncomeRow) :
    Decidable (joins through p r) :=
  inferInstanceAs (Decidable (_ ∧ _ ∧ _ ∧ _))

/-- `funding_income_totals_for_positions`. -/
def fundingIncomeTotalsForPositions (b : Books) (positionIds : List Nat) (through : Int) :
    List (Nat × ℚ) :=
  if positionIds = [] then []
  else (b.positions.filter (·.id ∈ positionIds)).map fun p =>
    (p.id, ((b.payments.filter (joins through p)).map (·.amount)).sum)

end BasisHawk.Funding
