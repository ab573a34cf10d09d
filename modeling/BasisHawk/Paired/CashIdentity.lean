/-
  BasisHawk.Paired.CashIdentity
  ─────────────────────────────
  The gross PnL of a compensated close against the cash it made.

  What was sold and bought back by the protection leg is booked as its round
  trip; the rest of the primary fills is booked against the entry prices.  The
  formula for a compensation without tolerance books the rest once, at the
  common quantity; the formula for a compensation with tolerance books the
  whole primary fills, the compensated part of the larger leg a second time.

  Main results:
    • `compensated_close_gross_iff` — when the recorded gross PnL is the cash,
    • `compensated_close_gross_off` — a close with tolerance whose gross PnL is
      not the cash.
-/
import BasisHawk.Paired.Readings

namespace BasisHawk.Paired

open Domain Lib

/-! ## §1. The cash of a compensated close. -/

/-- `(exit - entry) * quantity` of the spot leg, nothing if it has not filled. -/
def spotTerm (position : PairedPositionRow) (y : Layout) (quantity : ℚ) : ℚ :=
  match y.spot.averagePrice with
  | none => 0
  | some exit => (exit - position.spotEntryPrice) * quantity

/-- `(entry - exit) * quantity` of the perpetual leg, nothing if it has not
filled. -/
def perpTerm (position : PairedPositionRow) (y : Layout) (quantity : ℚ) : ℚ :=
  match y.perp.averagePrice with
  | none => 0
  | some exit => (position.perpEntryPrice - exit) * quantity

/-- The cash a compensated close made: the primary legs at the adjusted
quantities, and the round trip of the compensation. -/
def cashGross (position : PairedPositionRow) (y : Layout) (c : OrderLegRow) (profit : ℚ) : ℚ :=
  spotTerm position y (adjustedBases y c).1 + perpTerm position y (adjustedBases y c).2 + profit

/-- What makes the recorded gross PnL the cash.  Without tolerance: no residual
dust, or no spot price move to book it at.  With tolerance: no price move of
the larger leg, whose compensated part is booked twice. -/
def BooksCash (position : PairedPositionRow) (y : Layout) (c : OrderLegRow) : Prop :=
  if c.compensationToleranceBase = 0 then
    residualDust .closing (adjustedBases y c) = 0
      ∨ y.spot.averagePrice = some position.spotEntryPrice
  else if y.perp.filledBase < y.spot.filledBase then
    y.spot.averagePrice = some position.spotEntryPrice
  else y.perp.averagePrice = some position.perpEntryPrice

instance (position : PairedPositionRow) (y : Layout) (c : OrderLegRow) :
    Decidable (BooksCash position y c) :=
  inferInstanceAs (Decidable (ite _ (_ ∨ _) (ite _ _ _)))

/-- The profit of the round trip the protection leg `c` made. -/
def roundTrip (y : Layout) (c : OrderLegRow) : Except Exc ℚ :=
  compensationPnl (y.excess y.spot.filledBase y.perp.filledBase) c c.filledBase

/-! ## §2. The two formulas. -/

variable {position : PairedPositionRow} {y : Layout} {c : OrderLegRow} {profit gross : ℚ}

/-- An average price that must be there was there. -/
theorem average_ok {o : OrderLegRow} {p : ℚ} : o.average = .ok p ↔ o.averagePrice = some p := by
  unfold OrderLegRow.average found
  cases o.averagePrice with
  | none => exact ⟨fun h => (by cases h), fun h => (by cases h)⟩
  | some q => exact ⟨fun h => (by cases h; rfl), fun h => (by cases h; rfl)⟩

theorem spotTerm_of_zero (position : PairedPositionRow) (y : Layout) : spotTerm position y 0 = 0 := by
  unfold spotTerm
  split
  · rfl
  · rw [mul_zero]

theorem perpTerm_of_zero (position : PairedPositionRow) (y : Layout) : perpTerm position y 0 = 0 := by
  unfold perpTerm
  split
  · rfl
  · rw [mul_zero]

/-- With averages on both legs, the common quantity is booked once. -/
theorem pairedGross_ok {quantity : ℚ} (h : pairedGross position y quantity = .ok gross) :
    ∃ s p, y.spot.averagePrice = some s ∧ y.perp.averagePrice = some p
      ∧ gross = ((s - position.spotEntryPrice) + (position.perpEntryPrice - p)) * quantity := by
  unfold pairedGross at h
  obtain ⟨s, hs, h⟩ := bind_eq_ok.mp h
  obtain ⟨p, hp, h⟩ := bind_eq_ok.mp h
  cases h
  exact ⟨s, p, average_ok.mp hs, average_ok.mp hp, rfl⟩

/-- Each leg at its own quantity. -/
theorem legwiseGross_ok
    (h : legwiseGross position y y.spot.filledBase y.perp.filledBase = .ok gross) :
    gross = spotTerm position y y.spot.filledBase + perpTerm position y y.perp.filledBase := by
  unfold legwiseGross at h
  obtain ⟨s, hs, h⟩ := bind_eq_ok.mp h
  obtain ⟨p, hp, h⟩ := bind_eq_ok.mp h
  cases h
  have hspot : s = spotTerm position y y.spot.filledBase := by
    split at hs
    · next hzero =>
        cases hs
        rw [hzero, spotTerm_of_zero]
    · obtain ⟨a, ha, hs⟩ := bind_eq_ok.mp hs
      cases hs
      rw [spotTerm, average_ok.mp ha]
  have hperp : p = perpTerm position y y.perp.filledBase := by
    split at hp
    · next hzero =>
        cases hp
        rw [hzero, perpTerm_of_zero]
    · obtain ⟨a, ha, hp⟩ := bind_eq_ok.mp hp
      cases hp
      rw [perpTerm, average_ok.mp ha]
  rw [hspot, hperp]

/-- Without tolerance, the dust is what is missing from the books. -/
theorem paired_iff {adjusted : ℚ × ℚ} (hadjusted : adjusted = adjustedBases y c)
    (hnonneg : 0 ≤ adjusted.1) (hdust : 0 ≤ residualDust .closing adjusted)
    (h : (if adjusted.2 = 0 then .ok 0 else pairedGross position y adjusted.2) = .ok gross) :
    gross + profit = cashGross position y c profit
      ↔ residualDust .closing (adjustedBases y c) = 0
        ∨ y.spot.averagePrice = some position.spotEntryPrice := by
  unfold cashGross
  rw [← hadjusted]
  have hd : residualDust .closing adjusted = adjusted.2 - adjusted.1 := rfl
  split at h
  · next hzero =>
      -- Everything was compensated: no dust, and nothing to book but the round trip.
      cases h
      have hspot : adjusted.1 = 0 := by
        rw [hd, hzero] at hdust
        linarith
      rw [hd, hspot, hzero, spotTerm_of_zero, perpTerm_of_zero]
      simp
  · obtain ⟨s, p, hs, hp, rfl⟩ := pairedGross_ok h
    rw [spotTerm, perpTerm, hs, hp, hd]
    have hdiff : (s - position.spotEntryPrice + (position.perpEntryPrice - p)) * adjusted.2 + profit
        = (s - position.spotEntryPrice) * adjusted.1 + (position.perpEntryPrice - p) * adjusted.2
          + profit ↔ (adjusted.2 - adjusted.1) * (s - position.spotEntryPrice) = 0 := by
      constructor <;> intro h <;> linarith
    rw [hdiff, mul_eq_zero, sub_eq_zero, sub_eq_zero, Option.some.injEq]

/-- With tolerance, the compensated part of the larger leg is booked twice. -/
theorem legwise_iff (hspot : y.spot.market = .spot) (hperp : y.perp.market = .perp)
    (hfilled : 0 < c.filledBase) (hne : y.spot.filledBase ≠ y.perp.filledBase) :
    spotTerm position y y.spot.filledBase + perpTerm position y y.perp.filledBase + profit
        = cashGross position y c profit
      ↔ if y.perp.filledBase < y.spot.filledBase then
          y.spot.averagePrice = some position.spotEntryPrice
        else y.perp.averagePrice = some position.perpEntryPrice := by
  unfold cashGross adjustedBases Layout.excess
  split
  · next hlt =>
      -- The spot leg is the larger one, so it has filled.
      have hpos : y.spot.filledBase ≠ 0 := by
        have := y.perp.filledBase_nonneg
        exact ne_of_gt (by linarith)
      obtain ⟨s, hs⟩ := Option.ne_none_iff_exists'.mp
        (mt y.spot.averagePrice_none_iff.mp hpos)
      simp only [netOfCompensation, hspot, spotTerm, hs, Option.some.injEq]
      rw [← sub_eq_zero (a := s)]
      constructor
      · intro h
        have hprod : (s - position.spotEntryPrice) * c.filledBase = 0 := by linarith
        exact (mul_eq_zero.mp hprod).resolve_right hfilled.ne'
      · intro h
        rw [h]
        ring
  · next hge =>
      have hlt : y.spot.filledBase < y.perp.filledBase := lt_of_le_of_ne (not_lt.mp hge) hne
      have hpos : y.perp.filledBase ≠ 0 := by
        have := y.spot.filledBase_nonneg
        exact ne_of_gt (by linarith)
      obtain ⟨p, hp⟩ := Option.ne_none_iff_exists'.mp
        (mt y.perp.averagePrice_none_iff.mp hpos)
      simp only [netOfCompensation, hperp, perpTerm, hp, Option.some.injEq]
      constructor
      · intro h
        have hprod : (position.perpEntryPrice - p) * c.filledBase = 0 := by linarith
        have hzero := (mul_eq_zero.mp hprod).resolve_right hfilled.ne'
        linarith
      · intro h
        rw [h]
        ring

/-! ## §3. What is recorded. -/

/-- The gross PnL a decided compensated close has. -/
theorem compensated_gross {l : Ledger} {r : CloseReading} {o : CloseOutcome}
    (hd : l.closeDecision r = .ok (.settle o))
    (hunequal : ¬numericEqual r.layout.spot.filledBase r.layout.perp.filledBase)
    (hc : r.layout.compensation = some c) (hprofit : roundTrip r.layout c = .ok profit) :
    0 < c.filledBase ∧ 0 ≤ (adjustedBases r.layout c).1
      ∧ 0 ≤ residualDust .closing (adjustedBases r.layout c)
      ∧ compensatedGross r.position r.layout c r.layout.spot.filledBase r.layout.perp.filledBase
          (adjustedBases r.layout c).2 profit = .ok o.grossPnl := by
  -- The compensated exit: its fills are read back out of the decision.
  obtain ⟨-, ⟨-, c', common, fees, profit', hc', haverage, hcompensated, houtcome⟩ | ⟨hequal, -⟩⟩ :=
    Ledger.closeVerdict_settle hd
  · have hcc : c' = c := Option.some.inj (hc'.symm.trans hc)
    subst hcc
    obtain ⟨adjusted, hadjusted, rfl, -, -, hprofit'⟩ := closeCompensated_ok hcompensated
    obtain ⟨hnet, hnonneg, -, hdust, -, -⟩ := compensatedBaseQuantities_ok hadjusted
    obtain ⟨-, -, -, hgross, -⟩ := closeCompensatedOutcome_ok houtcome
    have hnet' : adjusted = adjustedBases r.layout c' := hnet
    have hpp : profit' = profit := by
      unfold roundTrip at hprofit
      rw [hprofit'] at hprofit
      cases hprofit
      rfl
    obtain ⟨p, hp⟩ := Option.ne_none_iff_exists'.mp haverage
    refine ⟨OrderLegRow.filledBase_pos_of_average hp, ?_, ?_, ?_⟩
    · rw [← hnet']
      exact hnonneg
    · rw [← hnet']
      exact residualDust_nonneg hdust
    · rw [← hnet', ← hpp]
      exact hgross
  · -- The balanced exit is excluded.
    exact absurd hequal hunequal

/-- The gross PnL `settle_live_close` records for a close it settles through the
compensation branch is the cash exactly under the condition. -/
theorem compensated_close_gross_iff {b : Books} (hb : Reachable b) {intentId : Nat} {now : Int}
    {r : CloseReading} {o : CloseOutcome} {s : Option Ledger.Settled} {l' : Ledger}
    (hr : b.ledger.closeReading intentId = some r)
    (hd : b.ledger.closeDecision r = .ok (.settle o))
    (hunequal : ¬numericEqual r.layout.spot.filledBase r.layout.perp.filledBase)
    (hc : r.layout.compensation = some c) (hprofit : roundTrip r.layout c = .ok profit)
    (hsettle : b.ledger.settleLiveClose intentId now = .ok (s, l')) :
    ∃ row, l'.realizations = b.ledger.realizations ++ [row]
      ∧ (row.grossPnlUsdt = cashGross r.position r.layout c profit
        ↔ BooksCash r.position r.layout c) := by
  obtain ⟨hintent, -, -, -, hy⟩ := Ledger.closeReading_some.mp hr
  obtain ⟨hfilled, hnonneg, hdust, hgross⟩ := compensated_gross hd hunequal hc hprofit
  -- The settlement stores the gross of its decision.
  have hrow : ∃ row, l'.realizations = b.ledger.realizations ++ [row]
      ∧ row.grossPnlUsdt = o.grossPnl := by
    rw [Ledger.settleLiveClose_eq hr hd] at hsettle
    simp only [Ledger.applyClose] at hsettle
    cases hins : b.ledger.insertRealization r.position r.intent o now with
    | error e =>
        rw [hins] at hsettle
        cases hsettle
    | ok l₁ =>
        rw [hins] at hsettle
        cases hsettle
        obtain ⟨-, -, -, -, row, hrecords, rfl⟩ := Ledger.insertRealization_ok hins
        exact ⟨row, rfl, hrecords.gross⟩
  obtain ⟨row, hrealizations, hrow⟩ := hrow
  refine ⟨row, hrealizations, ?_⟩
  rw [hrow]
  have hw := hb.wellFormed
  have hi := (Table.find?_some hintent).1
  obtain ⟨hspot_name, hperp_name, -, -⟩ := layout_legs hy
  -- The primary legs trade the markets of their names.
  have hspot : r.layout.spot.market = .spot := by
    obtain ⟨hmem, hmem_intent⟩ := mem_layout hy (show r.layout.spot ∈ _ by simp [Layout.legs])
    rw [(hw.fits hi hmem hmem_intent).market, hspot_name]
    rfl
  have hperp : r.layout.perp.market = .perp := by
    obtain ⟨hmem, hmem_intent⟩ := mem_layout hy (show r.layout.perp ∈ _ by simp [Layout.legs])
    rw [(hw.fits hi hmem hmem_intent).market, hperp_name]
    rfl
  unfold BooksCash
  unfold compensatedGross at hgross
  -- The two formulas of the source.
  by_cases htolerance : c.compensationToleranceBase = 0
  · rw [if_pos htolerance] at hgross ⊢
    obtain ⟨g, hg, hgross⟩ := bind_eq_ok.mp hgross
    injection hgross with hgross
    rw [← hgross]
    exact paired_iff rfl hnonneg hdust hg
  · rw [if_neg htolerance] at hgross ⊢
    obtain ⟨g, hg, hgross⟩ := bind_eq_ok.mp hgross
    have hne : r.layout.spot.filledBase ≠ r.layout.perp.filledBase := by
      intro heq
      rw [heq, numericEqual_iff, sub_self, abs_zero] at hunequal
      exact hunequal (by norm_num)
    have hlegs := legwiseGross_ok hg
    injection hgross with hgross
    rw [← hgross, hlegs]
    exact legwise_iff hspot hperp hfilled hne

/-! ## §4. A close that books the cash and one that does not. -/

namespace Sample

/-- Four of ten spot units are sold at `spotExit` and two perpetual units bought
back at 100; two spot units are bought back at 111. -/
def compensatedClose (spotExit tolerance : ℚ) : List (TradeOp × Int) :=
  Sample.opened ++ Sample.closing ++ [
    (.persistFills 7 [fill .spot .sell "s" 4 spotExit 0], 0),
    (.persistFills 8 [fill .perp .buy "p" 2 100 0], 0)] ++ closeCanceled ++ [
    (.settleClose 6, 0), (.prepareCompensation 6 115 2 tolerance, 0),
    (.persistFills 11 [fill .spot .buy "c" 2 111 0], 0)]

end Sample

/-- At an exit at the entry price the double booking makes no difference, and the
cash is recorded. -/
theorem compensated_close_gross_level :
    ∃ (b : Books) (r : CloseReading) (o : CloseOutcome) (c : OrderLegRow) (profit : ℚ) (l' : Ledger),
      Reachable b ∧ b.ledger.closeReading 6 = some r
      ∧ b.ledger.closeDecision r = .ok (.settle o) ∧ r.layout.compensation = some c
      ∧ ∃ row, l'.realizations = b.ledger.realizations ++ [row]
        ∧ row.grossPnlUsdt = cashGross r.position r.layout c profit := by
  obtain ⟨b, hb, r, hr, o, ho, hunequal, c, hc, profit, hprofit, hcash, hsettle⟩ :=
    Books.exists_of_play
    (fun b => ∃ r ∈ b.ledger.closeReading 6, ∃ o ∈ b.ledger.decidedClose r,
      ¬numericEqual r.layout.spot.filledBase r.layout.perp.filledBase
        ∧ ∃ c ∈ r.layout.compensation, ∃ profit ∈ (roundTrip r.layout c).toOption,
          BooksCash r.position r.layout c ∧ (b.ledger.settleLiveClose 6 1).toOption.isSome)
    (Sample.compensatedClose 100 1) (by decide +kernel)
  have hd := Ledger.decidedClose_some.mp ho
  obtain ⟨⟨s, l'⟩, hs⟩ := Option.isSome_iff_exists.mp hsettle
  have hp : roundTrip r.layout c = .ok profit := toOption_some.mp hprofit
  obtain ⟨row, hrow, hiff⟩ :=
    compensated_close_gross_iff hb hr hd hunequal hc hp (toOption_some.mp hs)
  exact ⟨b, r, o, c, profit, l', hb, hr, hd, hc, row, hrow, hiff.mpr hcash⟩

/-- Spot is sold at 110 that had been bought at 100: the books show 20 more than
the cash. -/
theorem compensated_close_gross_off :
    ∃ b r o c profit, Reachable b ∧ b.ledger.closeReading 6 = some r
      ∧ b.ledger.closeDecision r = .ok (.settle o) ∧ r.layout.compensation = some c
      ∧ ¬numericEqual r.layout.spot.filledBase r.layout.perp.filledBase
      ∧ roundTrip r.layout c = .ok profit
      ∧ residualDust .closing (adjustedBases r.layout c) = 0
      ∧ ∃ s l' row, b.ledger.settleLiveClose 6 1 = .ok (s, l')
        ∧ l'.realizations = b.ledger.realizations ++ [row] ∧ row.grossPnlUsdt = 38
        ∧ cashGross r.position r.layout c profit = 18 := by
  obtain ⟨b, hb, r, hr, o, ho, hunequal, c, hc, profit, hprofit, hdust, ⟨s, l'⟩, hs, row, -,
    hrow⟩ := Books.exists_of_play
    (fun b => ∃ r ∈ b.ledger.closeReading 6, ∃ o ∈ b.ledger.decidedClose r,
      ¬numericEqual r.layout.spot.filledBase r.layout.perp.filledBase
        ∧ ∃ c ∈ r.layout.compensation, ∃ profit ∈ (roundTrip r.layout c).toOption,
          residualDust .closing (adjustedBases r.layout c) = 0
            ∧ ∃ x ∈ (b.ledger.settleLiveClose 6 1).toOption, ∃ row ∈ x.2.realizations,
              x.2.realizations = b.ledger.realizations ++ [row] ∧ row.grossPnlUsdt = 38
                ∧ cashGross r.position r.layout c profit = 18)
    (Sample.compensatedClose 110 1) (by decide +kernel)
  exact ⟨b, r, o, c, profit, hb, hr, Ledger.decidedClose_some.mp ho, hc, hunequal,
    toOption_some.mp hprofit, hdust, s, l', row, toOption_some.mp hs, hrow⟩

end BasisHawk.Paired
