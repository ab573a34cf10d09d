/-
  BasisHawk.Funding.Attribution
  ─────────────────────────────
  How often a funding payment counts in the totals of the open positions.

  A total takes every payment of the position's exchange, environment and base
  asset since the opening of the position.  Positions in one asset whose
  lifetimes overlap therefore count the same payment, once each.

  Main results:
    • `attributed_eq` — the totals added up are the payments, each times the
      number of open positions opened at or before it,
    • `attributed_per_position` — each payment counts at most once exactly if
      none occurred after two openings, and then the totals add up to the
      payments since the earliest one.
-/
import BasisHawk.Funding.Storage

namespace BasisHawk.Funding

open Domain Lib
open Paired (PairedPositionRow)

namespace Books

variable (b : Books) (s : Scope) (baseAsset : String) (through : Int)

/-! ## §1. What is added up. -/

/-- The positions in an asset that are open at an instant. -/
def openPositions : List PairedPositionRow :=
  b.positions.filter fun p =>
    (⟨p.exchange, p.environment⟩ : Scope) = s ∧ p.baseAsset = baseAsset
      ∧ p.openedAt ≤ through ∧ ∀ c ∈ p.closedAt, through < c

/-- Their totals, added up. -/
def attributed : ℚ :=
  ((fundingIncomeTotalsForPositions b ((b.openPositions s baseAsset through).map (·.id))
    through).map (·.2)).sum

/-- The payments in the asset up to the instant. -/
def paymentsThrough : List FundingIncomeRow :=
  b.payments.filter fun r => r.scope = s ∧ r.baseAsset = baseAsset ∧ r.occurredAt ≤ through

/-- The number of open positions whose total has the payment in it. -/
def timesCounted (r : FundingIncomeRow) : Nat :=
  (b.openPositions s baseAsset through).countP (·.openedAt ≤ r.occurredAt)

/-- The earliest opening among the open positions. -/
def earliestOpening : Option Int :=
  ((b.openPositions s baseAsset through).map (·.openedAt)).min?

/-- The payments since the earliest opening, each once. -/
def sinceEarliest : ℚ :=
  (((b.paymentsThrough s baseAsset through).filter fun r =>
    ∃ opened ∈ b.earliestOpening s baseAsset through, opened ≤ r.occurredAt).map (·.amount)).sum

/-! ## §2. The totals by payment. -/

variable {b s baseAsset through}

theorem mem_openPositions {p : PairedPositionRow} :
    p ∈ b.openPositions s baseAsset through
      ↔ p ∈ b.positions ∧ (⟨p.exchange, p.environment⟩ : Scope) = s ∧ p.baseAsset = baseAsset
        ∧ p.openedAt ≤ through ∧ ∀ c ∈ p.closedAt, through < c := by
  simp [openPositions]

/-- The rows the query groups by are the open positions. -/
theorem rows_of_openPositions :
    b.positions.filter (·.id ∈ (b.openPositions s baseAsset through).map (·.id))
      = b.openPositions s baseAsset through := by
  refine List.filter_congr fun p hp => ?_
  rw [decide_eq_decide]
  constructor
  · intro hid
    obtain ⟨q, hq, hqid⟩ := List.mem_map.mp hid
    have hqp : q = p := b.unique.eq (mem_openPositions.mp hq).1 hp hqid
    exact (mem_openPositions.mp (hqp ▸ hq)).2
  · intro hopen
    exact List.mem_map_of_mem (mem_openPositions.mpr ⟨hp, hopen⟩)

/-- For a payment of the asset up to the instant, joining is a matter of the
opening alone. -/
theorem joins_iff {p : PairedPositionRow} (hp : p ∈ b.openPositions s baseAsset through)
    (r : FundingIncomeRow) :
    joins through p r ↔ (r.scope = s ∧ r.baseAsset = baseAsset ∧ r.occurredAt ≤ through)
      ∧ p.openedAt ≤ r.occurredAt := by
  obtain ⟨-, hs, hbase, -, -⟩ := mem_openPositions.mp hp
  unfold joins
  rw [hs, hbase]
  tauto

/-- The number of totals a payment joins. -/
theorem countP_joins (r : FundingIncomeRow) :
    (b.openPositions s baseAsset through).countP (joins through · r)
      = if r.scope = s ∧ r.baseAsset = baseAsset ∧ r.occurredAt ≤ through
        then b.timesCounted s baseAsset through r else 0 := by
  split
  · next hr =>
      refine List.countP_congr fun p hp => ?_
      simp [joins_iff hp r, hr]
  · next hr =>
      refine List.countP_eq_zero.mpr fun p hp => ?_
      simpa using fun hj => absurd ((joins_iff hp r).mp hj).1 hr

/-- The totals added up count each payment once for every open position opened
at or before it. -/
theorem attributed_eq :
    b.attributed s baseAsset through
      = ((b.paymentsThrough s baseAsset through).map fun r =>
          b.timesCounted s baseAsset through r • r.amount).sum := by
  have htotals : b.attributed s baseAsset through
      = ((b.openPositions s baseAsset through).map fun p =>
          ((b.payments.filter (joins through p)).map (·.amount)).sum).sum := by
    unfold attributed fundingIncomeTotalsForPositions
    rw [rows_of_openPositions]
    split
    · next hnil => rw [List.map_eq_nil_iff.mp hnil]; rfl
    · rw [List.map_map]; rfl
  rw [htotals, Table.sum_join, paymentsThrough, Table.sum_filter]
  refine congrArg List.sum (List.map_congr_left fun r _ => ?_)
  rw [countP_joins]
  by_cases hr : r.scope = s ∧ r.baseAsset = baseAsset ∧ r.occurredAt ≤ through
  · rw [if_pos hr, if_pos (by simpa using hr)]
  · rw [if_neg hr, if_neg (by simpa using hr), zero_nsmul]

/-! ## §3. Counting once. -/

/-- No payment counts twice exactly if none occurred after two openings. -/
theorem countedOnce_iff :
    (∀ r ∈ b.paymentsThrough s baseAsset through, b.timesCounted s baseAsset through r ≤ 1)
      ↔ (b.openPositions s baseAsset through).Pairwise fun p q =>
          ∀ r ∈ b.paymentsThrough s baseAsset through,
            ¬(p.openedAt ≤ r.occurredAt ∧ q.openedAt ≤ r.occurredAt) := by
  unfold timesCounted
  simp only [Table.countP_le_one_iff, List.pairwise_iff_getElem]
  exact ⟨fun h i j hi hj hij r hr => h r hr i j hi hj hij,
    fun h r hr i j hi hj hij => h i j hi hj hij r hr⟩

/-- A payment counts at all exactly if it occurred since the earliest opening. -/
theorem timesCounted_pos_iff {r : FundingIncomeRow} :
    0 < b.timesCounted s baseAsset through r
      ↔ ∃ opened ∈ b.earliestOpening s baseAsset through, opened ≤ r.occurredAt := by
  unfold timesCounted earliestOpening
  rw [List.countP_pos_iff]
  constructor
  · rintro ⟨p, hp, hle⟩
    have hmem : p.openedAt ∈ (b.openPositions s baseAsset through).map (·.openedAt) :=
      List.mem_map_of_mem hp
    cases hmin : ((b.openPositions s baseAsset through).map (·.openedAt)).min? with
    | none =>
        rw [List.min?_eq_none_iff.mp hmin] at hmem
        cases hmem
    | some opened =>
        have hfirst : opened ≤ p.openedAt := (List.min?_eq_some_iff.mp hmin).2 _ hmem
        exact ⟨opened, rfl, hfirst.trans (by simpa using hle)⟩
  · rintro ⟨opened, hmin, hle⟩
    obtain ⟨p, hp, rfl⟩ := List.mem_map.mp (List.min?_eq_some_iff.mp hmin).1
    exact ⟨p, hp, by simpa using hle⟩

/-- If no payment counts twice, the totals add up to the payments since the
earliest opening. -/
theorem attributed_eq_sinceEarliest
    (h : ∀ r ∈ b.paymentsThrough s baseAsset through, b.timesCounted s baseAsset through r ≤ 1) :
    b.attributed s baseAsset through = b.sinceEarliest s baseAsset through := by
  rw [attributed_eq, sinceEarliest, Table.sum_filter]
  refine congrArg List.sum (List.map_congr_left fun r hr => ?_)
  have hle := h r hr
  have hpos : 0 < b.timesCounted s baseAsset through r
      ↔ ∃ opened ∈ b.earliestOpening s baseAsset through, opened ≤ r.occurredAt :=
    timesCounted_pos_iff
  by_cases hsince : ∃ opened ∈ b.earliestOpening s baseAsset through, opened ≤ r.occurredAt
  · have hone : b.timesCounted s baseAsset through r = 1 := by
      have := hpos.mpr hsince
      omega
    rw [hone, one_nsmul, if_pos (by simpa using hsince)]
  · have hzero : b.timesCounted s baseAsset through r = 0 := by
      have := mt hpos.mp hsince
      omega
    rw [hzero, zero_nsmul, if_neg (by simpa using hsince)]

/-- **Funding income is attributed per position**: the totals of the open
positions count each payment once for every one of them that was opened at or
before it; so each counts at most once exactly if none occurred after two
openings, and then the totals add up to the payments since the earliest one. -/
theorem attributed_per_position (b : Books) (s : Scope) (baseAsset : String) (through : Int) :
    b.attributed s baseAsset through
        = ((b.paymentsThrough s baseAsset through).map fun r =>
            b.timesCounted s baseAsset through r • r.amount).sum
      ∧ ((∀ r ∈ b.paymentsThrough s baseAsset through, b.timesCounted s baseAsset through r ≤ 1)
          ↔ (b.openPositions s baseAsset through).Pairwise fun p q =>
              ∀ r ∈ b.paymentsThrough s baseAsset through,
                ¬(p.openedAt ≤ r.occurredAt ∧ q.openedAt ≤ r.occurredAt))
      ∧ ((∀ r ∈ b.paymentsThrough s baseAsset through, b.timesCounted s baseAsset through r ≤ 1)
          → b.attributed s baseAsset through = b.sinceEarliest s baseAsset through) :=
  ⟨attributed_eq, countedOnce_iff, attributed_eq_sinceEarliest⟩

/-! ## §4. Two positions at once. -/

/-- An open position in BTC on OKX. -/
def sampleOpen (id : Nat) (openedAt : Int) : PairedPositionRow where
  id
  openingIntentId := id
  closingIntentId := none
  exchange := .okx
  environment := .live
  baseAsset := "BTC"
  initialQuantity := 1
  quantity := 1
  spotEntryPrice := 100
  perpEntryPrice := 100
  openingFeesUsdt := 0
  remainingOpeningFeesUsdt := 0
  closingFeesUsdt := none
  realizedPnlUsdt := none
  status := .opened
  openedAt
  closedAt := none

/-- Two of them, opened one after the other, and a payment after that. -/
def sampleOverlap : Books where
  positions := [sampleOpen 0 10, sampleOpen 1 20]
  payments := [{
    exchangeRecordId := "1"
    symbol := "BTC-USDT-SWAP"
    baseAsset := "BTC"
    asset := "USDT"
    amount := 5
    rate := none
    positionValue := none
    occurredAt := 30
    scope := ⟨.okx, .live⟩
    observedAt := 30
    usdt_only := rfl }]
  unique := by unfold Table.Unique; decide

/-- The payment counts for both. -/
theorem payment_counted_twice :
    ¬∀ (b : Books) (s : Scope) (baseAsset : String) (through : Int),
      b.attributed s baseAsset through = b.sinceEarliest s baseAsset through := by
  intro h
  have hboth : sampleOverlap.attributed ⟨.okx, .live⟩ "BTC" 40 = 10 := by decide +kernel
  have honce : sampleOverlap.sinceEarliest ⟨.okx, .live⟩ "BTC" 40 = 5 := by decide +kernel
  have := h sampleOverlap ⟨.okx, .live⟩ "BTC" 40
  rw [hboth, honce] at this
  norm_num at this

end Books

end BasisHawk.Funding
