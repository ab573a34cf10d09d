/-
  BasisHawk.Paired.Storable
  ─────────────────────────
  When the realization row a live close writes passes the CHECK constraints of
  its table.

  The opening cost of a pair is its fees minus the profit of the compensation it
  needed, so it may be negative.  Each close takes its share of that cost, and
  the share has the sign of the cost.

  Main results:
    • `settlement_storable_iff` — a decided close is stored exactly if the
      opening cost was not negative or nothing is closed,
    • `settlement_not_storable` — a pair with a profitable compensation that
      can not be closed.
-/
import BasisHawk.Paired.Conservation
import BasisHawk.Paired.Readings

namespace BasisHawk.Paired

open Domain Lib

variable {b : Books} {intentId : Nat} {now : Int} {r : CloseReading} {o : CloseOutcome}

/-! ## §1. What a decided close takes of the opening cost. -/

/-- A decided close closes nothing and takes no opening fees, or closes
something and takes its share. -/
theorem closeDecision_share {l : Ledger} (h : l.closeDecision r = .ok (.settle o)) :
    (o.quantity = 0 ∧ o.openingFeeAllocation = 0 ∧ ClosesNothing r.layout)
      ∨ (0 < o.quantity ∧ o.quantity ≤ r.position.quantity ∧ ¬ClosesNothing r.layout
        ∧ allocateOpeningFee r.position o.quantity = .ok o.openingFeeAllocation) := by
  obtain ⟨-, ⟨hunequal, c, common, fees, profit, hc, -, hcompensated, houtcome⟩
    | ⟨hequal, hle, hspot, -, hq, hallocation, -, -, -⟩⟩ := Ledger.closeVerdict_settle h
  · obtain ⟨adjusted, hadjusted, rfl, hle, -, -⟩ := closeCompensated_ok hcompensated
    obtain ⟨hnet, -, hnonneg, -, -, -⟩ := compensatedBaseQuantities_ok hadjusted
    obtain ⟨hq, -, hallocation, -, -⟩ := closeCompensatedOutcome_ok houtcome
    have hnet' : adjusted = adjustedBases r.layout c := hnet
    rcases hallocation with ⟨hzero, ha⟩ | ⟨hne, ha⟩
    · refine .inl ⟨hq.trans hzero, ha, hunequal, c, hc, ?_⟩
      rw [← hnet']
      exact hzero
    · refine .inr ⟨?_, hq ▸ hle, ?_, hq ▸ ha⟩
      · rw [hq]
        exact lt_of_le_of_ne hnonneg hne.symm
      · rintro ⟨-, c', hc', hzero⟩
        have hcc : c' = c := Option.some.inj (hc'.symm.trans hc)
        rw [hcc, ← hnet'] at hzero
        exact hne hzero
  · refine .inr ⟨?_, hq ▸ hle, fun hn => hn.1 hequal, hq ▸ hallocation⟩
    rw [hq]
    obtain ⟨p, hp⟩ := Option.ne_none_iff_exists'.mp hspot
    exact OrderLegRow.filledBase_pos_of_average hp

/-- The share of a close that closes something has the sign of the opening
cost. -/
theorem allocation_nonneg_iff {p : PairedPositionRow} {quantity a : ℚ} (hp : Proportional p)
    (hopen : p.status ≠ .closed) (hpos : 0 < quantity) (hle : quantity ≤ p.quantity)
    (hinitial : p.quantity ≤ p.initialQuantity)
    (ha : allocateOpeningFee p quantity = .ok a) : 0 ≤ a ↔ 0 ≤ p.openingFeesUsdt := by
  have hq : 0 < p.quantity := lt_of_lt_of_le hpos hle
  have hi : 0 < p.initialQuantity := lt_of_lt_of_le hq hinitial
  have hremaining : 0 ≤ p.remainingOpeningFeesUsdt ↔ 0 ≤ p.openingFeesUsdt := by
    have hsigns := hp hopen
    rw [← mul_nonneg_iff_of_pos_right hi, hsigns, mul_nonneg_iff_of_pos_right hq]
  rw [← hremaining]
  by_cases hwhole : numericEqual quantity p.quantity
  · rw [(allocateOpeningFee_ok ha).1 hwhole]
  · have hshare := (allocateOpeningFee_ok ha).2 hwhole
    rw [← mul_nonneg_iff_of_pos_right hq, hshare, mul_nonneg_iff_of_pos_right hpos]

/-! ## §2. When it is stored. -/

/-- A realization row is admitted exactly if it is the first of its intent and
no column is negative. -/
theorem insertRealization_iff {l : Ledger} {position : PairedPositionRow}
    {intent : TradeIntentRow} :
    (∃ l', l.insertRealization position intent o now = .ok l')
      ↔ (∀ x ∈ l.realizations, x.closingIntentId ≠ intent.id) ∧ 0 ≤ o.quantity
        ∧ 0 ≤ o.openingFeeAllocation ∧ 0 ≤ o.closingFees := by
  constructor
  · intro ⟨l', h⟩
    obtain ⟨hunique, hq, ha, hc, -⟩ := Ledger.insertRealization_ok h
    exact ⟨hunique, hq, ha, hc⟩
  · intro ⟨hunique, hq, ha, hc⟩
    have hnone : ¬∃ x ∈ l.realizations, x.closingIntentId = intent.id :=
      fun ⟨x, hx, heq⟩ => hunique x hx heq
    unfold Ledger.insertRealization
    simp only [raiseIf_bind_eq_ok, hnone, not_false_eq_true, true_and, not_not.mpr hq,
      not_not.mpr ha, not_not.mpr hc, dite_false]
    exact ⟨_, rfl⟩

/-- An intent that is still to be settled has no realization. -/
theorem closeReading_unrealized (hb : Reachable b)
    (h : b.ledger.closeReading intentId = some r) :
    ∀ x ∈ b.ledger.realizations, x.closingIntentId ≠ r.intent.id := by
  intro x hx heq
  obtain ⟨hintent, -, hsettleable, -, -⟩ := Ledger.closeReading_some.mp h
  have hw := hb.wellFormed
  obtain ⟨i, hi, hid, hterminal⟩ := hw.realized_intent x hx
  have hii : i = r.intent :=
    hw.intents_unique.eq hi (Table.find?_some hintent).1 (hid.trans heq)
  rw [hii, hsettleable.open_] at hterminal
  cases hterminal

/-- A close that is decided, with fees that are not negative, is committed
exactly if the opening cost of its position was not negative or nothing is
closed. -/
theorem settlement_storable_iff (hb : Reachable b)
    (hr : b.ledger.closeReading intentId = some r)
    (hd : b.ledger.closeDecision r = .ok (.settle o)) (hfees : 0 ≤ o.closingFees) :
    (∃ s l', b.ledger.settleLiveClose intentId now = .ok (s, l'))
      ↔ (0 ≤ r.position.openingFeesUsdt ∨ ClosesNothing r.layout) := by
  obtain ⟨hintent, hposition, -, hreserved, -⟩ := Ledger.closeReading_some.mp hr
  have hp := (positionOf_some hposition).1
  have hsized := hb.wellFormed.sized r.position hp
  have hstored : (∃ s l', b.ledger.settleLiveClose intentId now = .ok (s, l'))
      ↔ ∃ l', b.ledger.insertRealization r.position r.intent o now = .ok l' := by
    rw [Ledger.settleLiveClose_eq hr hd]
    simp only [Ledger.applyClose]
    cases b.ledger.insertRealization r.position r.intent o now with
    | error e => exact ⟨fun ⟨_, _, h⟩ => (by cases h), fun ⟨_, h⟩ => (by cases h)⟩
    | ok l' => exact ⟨fun _ => ⟨l', rfl⟩, fun _ => ⟨_, _, rfl⟩⟩
  rw [hstored, insertRealization_iff]
  rcases closeDecision_share hd with ⟨hq, ha, hnothing⟩ | ⟨hq, hle, hsomething, ha⟩
  · constructor
    · exact fun _ => .inr hnothing
    · exact fun _ => ⟨closeReading_unrealized hb hr, hq.ge, ha.ge, hfees⟩
  · have hsign := allocation_nonneg_iff (hb.conserved r.position hp).2 hreserved.open_ hq hle
      hsized.le_initial ha
    constructor
    · exact fun ⟨_, _, hnonneg, _⟩ => .inl (hsign.mp hnonneg)
    · intro hcost
      have hcost : 0 ≤ r.position.openingFeesUsdt := hcost.resolve_right hsomething
      exact ⟨closeReading_unrealized hb hr, hq.le, hsign.mpr hcost, hfees⟩

/-! ## §3. Pairs that can and can not be closed. -/

/-- A pair without compensation, half of it closed. -/
theorem settlement_storable_half :
    ∃ b r o, Reachable b ∧ b.ledger.closeReading 6 = some r
      ∧ b.ledger.closeDecision r = .ok (.settle o)
      ∧ ((∃ s l', b.ledger.settleLiveClose 6 1 = .ok (s, l'))
        ↔ (0 ≤ r.position.openingFeesUsdt ∨ ClosesNothing r.layout)) := by
  obtain ⟨b, hb, r, hr, o, ho, hfees⟩ := Books.exists_of_play
    (fun b => ∃ r ∈ b.ledger.closeReading 6, ∃ o ∈ b.ledger.decidedClose r, 0 ≤ o.closingFees)
    (Sample.opened ++ Sample.closing ++ [
      (.persistFills 7 [Sample.fill .spot .sell "s" 5 100 0], 0),
      (.persistFills 8 [Sample.fill .perp .buy "p" 5 100 0], 0)] ++ Sample.closeCanceled)
    (by decide +kernel)
  have hd := Ledger.decidedClose_some.mp ho
  exact ⟨b, r, o, hb, hr, hd, settlement_storable_iff hb hr hd hfees⟩

/-- Two of ten spot units are sold back at a profit of 20 before the pair of
eight is open; its close is decided and never committed. -/
theorem settlement_not_storable :
    ∃ b r o, Reachable b ∧ b.ledger.closeReading 8 = some r
      ∧ b.ledger.closeDecision r = .ok (.settle o) ∧ 0 ≤ o.closingFees
      ∧ r.position.openingFeesUsdt = -20 ∧ o.openingFeeAllocation < 0
      ∧ ¬∃ s l', b.ledger.settleLiveClose 8 1 = .ok (s, l') := by
  obtain ⟨b, hb, r, hr, o, ho, hfees, hcost, hshare, herror⟩ := Books.exists_of_play
    (fun b => ∃ r ∈ b.ledger.closeReading 8, ∃ o ∈ b.ledger.decidedClose r, 0 ≤ o.closingFees
      ∧ r.position.openingFeesUsdt = -20 ∧ o.openingFeeAllocation < 0
      ∧ (b.ledger.settleLiveClose 8 1).toOption = none)
    [(.createOpen Sample.openPlan, 0), (.prepareSubmission 0 none, 0),
      (.persistFills 1 [Sample.fill .spot .buy "s" 10 100 0], 0),
      (.persistFills 2 [Sample.fill .perp .sell "p" 8 100 0], 0),
      (.reconcileOrder 2 (Sample.canceled .perp .sell "bh-0123456789abcdef01234567-p" 10 false), 0),
      (.settleOpen 0, 0), (.prepareCompensation 0 105 2 1, 0),
      (.persistFills 5 [Sample.fill .spot .sell "c" 2 110 0], 0), (.settleOpen 0, 0),
      (.createClose (Sample.closePlan (Sample.position 8 100 100 (-20) 7) (by decide) true),
        0),
      (.prepareSubmission 8 none, 0),
      (.persistFills 9 [Sample.fill .spot .sell "s" 8 100 0], 0),
      (.persistFills 10 [Sample.fill .perp .buy "p" 8 100 0], 0)]
    (by decide +kernel)
  refine ⟨b, r, o, hb, hr, Ledger.decidedClose_some.mp ho, hfees, hcost, hshare, ?_⟩
  intro ⟨s, l', h⟩
  rw [h] at herror
  cases herror

end BasisHawk.Paired
