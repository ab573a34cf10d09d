/-
  BasisHawk.Paired.Conservation
  ─────────────────────────────
  What a paired position and its realizations add up to, over its whole life.

  A booking moves quantity and opening fees from the position to a realization
  and adds to the position's totals what it adds to the realizations; every
  other write leaves these columns alone.

  Main results:
    • `Conserved.book` — a booking conserves,
    • `positions_conserved` — every position is conserved at any time.
-/
import BasisHawk.Paired.Effects

namespace BasisHawk.Paired

open Domain Lib

/-! ## §1. Totals over the realizations of a position. -/

/-- The sum of a column over the realizations of a position. -/
def totalOf (g : PnlRealizationRow → ℚ) (rs : List PnlRealizationRow) (positionId : Nat) : ℚ :=
  ((rs.filter (·.pairedPositionId = positionId)).map g).sum

variable {g : PnlRealizationRow → ℚ} {rs : List PnlRealizationRow} {row : PnlRealizationRow}
  {positionId : Nat}

/-- A realization adds to the total of its own position. -/
theorem totalOf_append_self (h : row.pairedPositionId = positionId) :
    totalOf g (rs ++ [row]) positionId = totalOf g rs positionId + g row := by
  unfold totalOf
  rw [List.filter_append, List.map_append, List.sum_append]
  simp [h]

/-- And leaves those of the others. -/
theorem totalOf_append_of_ne (h : row.pairedPositionId ≠ positionId) :
    totalOf g (rs ++ [row]) positionId = totalOf g rs positionId := by
  unfold totalOf
  rw [List.filter_append, List.map_append, List.sum_append]
  simp [h]

/-- A position nothing has been realized of. -/
theorem totalOf_eq_zero (h : ∀ r ∈ rs, r.pairedPositionId ≠ positionId) :
    totalOf g rs positionId = 0 := by
  unfold totalOf
  have hnil : rs.filter (·.pairedPositionId = positionId) = [] := by
    rw [List.filter_eq_nil_iff]
    intro r hr
    simpa using h r hr
  rw [hnil]
  rfl

/-! ## §2. Conservation. -/

/-- The columns of a position against those of its realizations. -/
structure Conserved (rs : List PnlRealizationRow) (p : PairedPositionRow) : Prop where
  nonneg : 0 ≤ p.quantity
  /-- Only a live close that drops a remainder makes a difference. -/
  quantity : p.status ≠ .closed ∨ p.environment = .paper →
    p.initialQuantity = p.quantity + totalOf (·.quantity) rs p.id
  dropped : |p.initialQuantity - (p.quantity + totalOf (·.quantity) rs p.id)| ≤ 1 / 10 ^ 15
  fees : p.openingFeesUsdt
    = p.remainingOpeningFeesUsdt + totalOf (·.openingFeeAllocatedUsdt) rs p.id
  realized : p.realizedPnlUsdt.getD 0 = totalOf (·.netPnlUsdt) rs p.id
  closing : p.closingFeesUsdt.getD 0 = totalOf (·.closingFeesUsdt) rs p.id
  closed : p.status = .closed → p.quantity = 0 ∧ p.remainingOpeningFeesUsdt = 0

/-- What is still open of the opening fees is in proportion to the quantity. -/
def Proportional (p : PairedPositionRow) : Prop :=
  p.status ≠ .closed →
    p.remainingOpeningFeesUsdt * p.initialQuantity = p.openingFeesUsdt * p.quantity

/-- Realizations of other positions do not count. -/
theorem Conserved.append_of_ne {p : PairedPositionRow} (h : Conserved rs p)
    (hne : row.pairedPositionId ≠ p.id) : Conserved (rs ++ [row]) p := by
  refine ⟨h.nonneg, ?_, ?_, ?_, ?_, ?_, h.closed⟩
  · rw [totalOf_append_of_ne hne]
    exact h.quantity
  · rw [totalOf_append_of_ne hne]
    exact h.dropped
  · rw [totalOf_append_of_ne hne]
    exact h.fees
  · rw [totalOf_append_of_ne hne]
    exact h.realized
  · rw [totalOf_append_of_ne hne]
    exact h.closing

/-- Reserving and releasing touch no column that counts. -/
theorem Conserved.hold {p : PairedPositionRow} (h : Conserved rs p) (hopen : p.status ≠ .closed)
    (status : PositionStatus) (hstatus : status ≠ .closed) (holder : Option Nat) :
    Conserved rs { p with status := status, closingIntentId := holder } where
  nonneg := h.nonneg
  quantity := fun _ => h.quantity (.inl hopen)
  dropped := h.dropped
  fees := h.fees
  realized := h.realized
  closing := h.closing
  closed := fun hclosed => absurd hclosed hstatus

/-- A new position is whole. -/
theorem Conserved.opened {p : PairedPositionRow} (hnew : ∀ r ∈ rs, r.pairedPositionId ≠ p.id)
    (hstatus : p.status = .opened) (hquantity : p.quantity = p.initialQuantity)
    (hnonneg : 0 ≤ p.quantity) (hfees : p.remainingOpeningFeesUsdt = p.openingFeesUsdt)
    (hclosing : p.closingFeesUsdt = none) (hrealized : p.realizedPnlUsdt = none) :
    Conserved rs p := by
  refine ⟨hnonneg, fun _ => ?_, ?_, ?_, ?_, ?_, fun hclosed => ?_⟩
  · rw [totalOf_eq_zero hnew, hquantity, add_zero]
  · rw [totalOf_eq_zero hnew, hquantity, add_zero, sub_self, abs_zero]
    norm_num
  · rw [totalOf_eq_zero hnew, hfees, add_zero]
  · rw [totalOf_eq_zero hnew, hrealized]
    rfl
  · rw [totalOf_eq_zero hnew, hclosing]
    rfl
  · rw [hstatus] at hclosed
    cases hclosed

/-- A booking moves quantity and opening fees from the position to the new
realization. -/
theorem Conserved.book {p new : PairedPositionRow} {o : CloseOutcome} {i : TradeIntentRow}
    (h : Conserved rs p) (hopen : p.status ≠ .closed) (hbooked : Booked p o new)
    (hrow : row.Records p i o) : Conserved (rs ++ [row]) new := by
  have hid : row.pairedPositionId = new.id := hrow.position.trans hbooked.id.symm
  have hquantity := h.quantity (.inl hopen)
  have hle := hbooked.quantity_le
  rw [← hbooked.id] at hquantity
  refine ⟨?_, ?_, ?_, ?_, ?_, ?_, ?_⟩
  · rcases hbooked.rest with ⟨-, hzero, -⟩ | ⟨-, -, hpos, -⟩
    · exact hzero.ge
    · exact hpos.le
  · -- The quantities add up where no remainder was dropped.
    intro hexact
    rw [totalOf_append_self hid, hbooked.initial, hrow.quantity, hquantity]
    rcases hbooked.rest with ⟨hclosed, hzero, -, hpaper, -⟩ | ⟨-, hrest, -⟩
    · have henv : p.environment = .paper := by
        rcases hexact with hne | henv
        · exact absurd hclosed hne
        · rw [← hbooked.environment]
          exact henv
      rw [hzero, hpaper henv]
      ring
    · rw [hrest]
      ring
  · rw [totalOf_append_self hid, hbooked.initial, hrow.quantity, hquantity]
    rcases hbooked.rest with ⟨-, hzero, hsmall, -⟩ | ⟨-, hrest, -⟩
    · rw [hzero, abs_le]
      constructor <;> linarith
    · rw [hrest, abs_le]
      constructor <;> linarith
  · have hfees := h.fees
    rw [← hbooked.id] at hfees
    rw [totalOf_append_self hid, hbooked.opening, hrow.allocated, hbooked.remaining, hfees]
    ring
  · have hrealized := h.realized
    rw [← hbooked.id] at hrealized
    rw [totalOf_append_self hid, hbooked.realized, hrow.net, ← hrealized]
    rfl
  · have hclosing := h.closing
    rw [← hbooked.id] at hclosing
    rw [totalOf_append_self hid, hbooked.closing, hrow.fees, ← hclosing]
    rfl
  · -- A close allocates all opening fees that are left.
    intro hclosed
    rcases hbooked.rest with ⟨-, hzero, -, -, hall⟩ | ⟨hopened, -⟩
    · refine ⟨hzero, ?_⟩
      rw [hbooked.remaining, hall, sub_self]
    · rw [hopened] at hclosed
      cases hclosed

/-- Booking part of a position takes the same part of its opening fees, up to
the remainder that counts as zero. -/
theorem Proportional.book {p new : PairedPositionRow} {o : CloseOutcome} (h : Proportional p)
    (hopen : p.status ≠ .closed) (hbooked : Booked p o new) : Proportional new := by
  intro hnew
  rcases hbooked.rest with ⟨hclosed, -⟩ | ⟨-, hrest, hnew_pos, -, hshare⟩
  · exact absurd hclosed hnew
  · have hold := h hopen
    have hpos : 0 < p.quantity := by
      have hnonneg := hbooked.quantity_nonneg
      linarith
    rw [hbooked.remaining, hbooked.initial, hbooked.opening, hrest]
    -- Both sides agree after multiplication with the old quantity.
    refine mul_left_cancel₀ hpos.ne' ?_
    calc p.quantity * ((p.remainingOpeningFeesUsdt - o.openingFeeAllocation) * p.initialQuantity)
        = (p.remainingOpeningFeesUsdt * p.initialQuantity) * p.quantity
            - (o.openingFeeAllocation * p.quantity) * p.initialQuantity := by ring
      _ = (p.remainingOpeningFeesUsdt * p.initialQuantity) * p.quantity
            - (p.remainingOpeningFeesUsdt * o.quantity) * p.initialQuantity := by rw [hshare]
      _ = (p.remainingOpeningFeesUsdt * p.initialQuantity) * (p.quantity - o.quantity) := by ring
      _ = p.quantity * (p.openingFeesUsdt * (p.quantity - o.quantity)) := by
          rw [hold]
          ring

/-! ## §3. Every write conserves. -/

/-- Every position is conserved, and what is open of its fees proportional. -/
def PositionsConserved (l : Ledger) : Prop :=
  ∀ p ∈ l.positions, Conserved l.realizations p ∧ Proportional p

variable {seen : List PairedPositionRow} {l l' : Ledger}

/-- Booking a realization moves quantity and fees from the position to its
realizations, so their sums stay. -/
theorem PositionsConserved.book (hw : WellFormed seen l) (hc : PositionsConserved l)
    {i : TradeIntentRow} {p new : PairedPositionRow} {o : CloseOutcome}
    {row : PnlRealizationRow} (hp : p ∈ l.positions) (hopen : p.status ≠ .closed)
    (hbooked : Booked p o new) (hrow : row.Records p i o) :
    ∀ q ∈ Table.put l.positions new, Conserved (l.realizations ++ [row]) q ∧ Proportional q := by
  intro q hq
  obtain ⟨hconserved, hproportional⟩ := hc p hp
  rcases (Table.mem_put_of_unique hw.positions_unique hp hbooked.id.symm).mp hq with rfl | ⟨hq, hne⟩
  · exact ⟨hconserved.book hopen hbooked hrow, hproportional.book hopen hbooked⟩
  · have hid : row.pairedPositionId ≠ q.id := by
      intro heq
      exact hne (hw.positions_unique.eq hq hp (heq.symm.trans hrow.position))
    exact ⟨(hc q hq).1.append_of_ne hid, (hc q hq).2⟩

/-- A position that is opened has nothing realized, and its quantity is the
initial one. -/
theorem PositionsConserved.opened (hw : WellFormed seen l) (hc : PositionsConserved l)
    {p : PairedPositionRow} (hid : p.id = l.nextId) (hstatus : p.status = .opened)
    (hquantity : p.quantity = p.initialQuantity) (hnonneg : 0 ≤ p.quantity)
    (hfees : p.remainingOpeningFeesUsdt = p.openingFeesUsdt) (hclosing : p.closingFeesUsdt = none)
    (hrealized : p.realizedPnlUsdt = none) :
    ∀ q ∈ l.positions ++ [p], Conserved l.realizations q ∧ Proportional q := by
  intro q hq
  rcases List.mem_append.mp hq with hq | hq
  · exact hc q hq
  · rw [List.mem_singleton] at hq
    subst hq
    -- The id is fresh, so no realization refers to it.
    have hnew : ∀ r ∈ l.realizations, r.pairedPositionId ≠ q.id := by
      intro r hr heq
      obtain ⟨old, hold, hold_id⟩ := hw.realized_position r hr
      have hlt : old.id < l.nextId := hw.positions_below old hold
      omega
    refine ⟨.opened hnew hstatus hquantity hnonneg hfees hclosing hrealized, fun _ => ?_⟩
    rw [hfees, hquantity]

/-- The step lemma of the conservation: each of the writes that an operation is
made of. -/
theorem PositionsConserved.write (hw : WellFormed seen l) (hc : PositionsConserved l)
    (h : l.Write seen l') : PositionsConserved l' := by
  cases h with
  | control row => exact hc
  | plan => exact hc
  | move => exact hc
  | leg => exact hc
  | protect => exact hc
  | fills => exact hc
  | @hold p hp hopen status hstatus holder =>
      intro q hq
      show Conserved l.realizations q ∧ Proportional q
      rcases Table.mem_put.mp hq with ⟨hq, -⟩ | ⟨hq, -⟩
      · rw [hq]
        exact ⟨(hc p hp).1.hold hopen status hstatus holder, fun _ => (hc p hp).2 hopen⟩
      · exact hc q hq
  | opened hid hstatus hquantity hnonneg hfees hclosing hrealized =>
      exact hc.opened hw hid hstatus hquantity hnonneg hfees hclosing hrealized
  | book hi hopen hp hp' hbooked hrow status hstatus code => exact hc.book hw hp hp' hbooked hrow

/-- In every reachable book the positions are conserved. -/
theorem Reachable.conserved {b : Books} (hb : Reachable b) : PositionsConserved b.ledger := by
  refine (Reachable.ledger_invariant ?_ ?_ hb).2
  · intro l hl p hp
    rw [hl.positions] at hp
    exact absurd hp List.not_mem_nil
  · intro seen l l' hw hc hwrite
    exact hc.write hw hwrite

/-! ## §4. The ledger of a position. -/

/-- After every committed transaction, every position and its realizations add
up. -/
theorem positions_conserved {b : Books} (hb : Reachable b) :
    ∀ p ∈ b.ledger.positions, Conserved b.ledger.realizations p :=
  fun p hp => (hb.conserved p hp).1

/-- Four of ten units are closed. -/
theorem positions_conserved_partial :
    ∃ b, Reachable b ∧ (∃ p ∈ b.ledger.positions, p.quantity = 6 ∧ p.initialQuantity = 10)
      ∧ ∀ p ∈ b.ledger.positions, Conserved b.ledger.realizations p := by
  obtain ⟨b, hb, hp⟩ := Books.exists_of_play
    (fun b => ∃ p ∈ b.ledger.positions, p.quantity = 6 ∧ p.initialQuantity = 10)
    (Sample.opened ++ Sample.closing ++ [
      (.persistFills 7 [Sample.fill .spot .sell "s" 4 110 0], 0),
      (.persistFills 8 [Sample.fill .perp .buy "p" 4 109 0], 0)] ++ Sample.closeCanceled
      ++ [(.settleClose 6, 1)]) (by decide +kernel)
  exact ⟨b, hb, hp, positions_conserved hb⟩

end BasisHawk.Paired
