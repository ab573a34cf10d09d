/-
  BasisHawk.Paired.Terms
  ──────────────────────
  The terms of an order: its quantity, its limit and its tolerance.

  A primary leg is planned with the terms the administrator was shown.  Handing
  it out may tighten the limit of the perpetual; a protection leg gets its terms
  when it is handed out.  From then on an order is what was sent.

  Main results:
    • `TradeOp.terms` — what a transaction does to the terms of a leg,
    • `terms_kept` — over any sequence of transactions the terms of an order
      that was handed out stand, and those of a primary leg only tighten.
-/
import BasisHawk.Paired.FillBook

namespace BasisHawk.Paired

open Domain Lib Accounts
open Relation (ReflTransGen)

/-! ## §1. Terms. -/

namespace OrderLegRow

/-- The quantity stands, and the limit is no weaker. -/
structure Tightens (new old : OrderLegRow) : Prop where
  quantity : new.quantity = old.quantity
  buy : old.side = .buy → new.limitPrice ≤ old.limitPrice
  sell : old.side = .sell → old.limitPrice ≤ new.limitPrice

/-- The terms stand. -/
structure SameTerms (new old : OrderLegRow) : Prop where
  quantity : new.quantity = old.quantity
  limit : new.limitPrice = old.limitPrice
  tolerance : new.compensationToleranceBase = old.compensationToleranceBase

/-- What becomes of the terms of a leg. -/
structure KeepsTerms (new old : OrderLegRow) : Prop where
  order : new.SameOrder old
  sent : old.status ≠ .created → new.status ≠ .created ∧ new.SameTerms old
  primary : old.leg.isCompensation = false → new.Tightens old

theorem SameTerms.tightens {new old : OrderLegRow} (h : new.SameTerms old) : new.Tightens old :=
  ⟨h.quantity, fun _ => h.limit.le, fun _ => h.limit.ge⟩

theorem KeepsTerms.refl (o : OrderLegRow) : o.KeepsTerms o :=
  ⟨.refl o, fun hs => ⟨hs, rfl, rfl, rfl⟩, fun _ => ⟨rfl, fun _ => le_refl _, fun _ => le_refl _⟩⟩

/-- Terms that are kept twice are kept. -/
theorem KeepsTerms.trans {a b c : OrderLegRow} (h : b.KeepsTerms a) (h' : c.KeepsTerms b) :
    c.KeepsTerms a where
  order := h'.order.trans h.order
  sent := by
    intro hs
    obtain ⟨hb, hq, hl, ht⟩ := h.sent hs
    obtain ⟨hc, hq', hl', ht'⟩ := h'.sent hb
    exact ⟨hc, hq'.trans hq, hl'.trans hl, ht'.trans ht⟩
  primary := by
    intro hname
    have hb := h.primary hname
    have hc := h'.primary (by rw [h.order.leg]; exact hname)
    refine ⟨hc.quantity.trans hb.quantity, fun hside => ?_, fun hside => ?_⟩
    · exact (hc.buy (by rw [h.order.side]; exact hside)).trans (hb.buy hside)
    · exact (hb.sell hside).trans (hc.sell (by rw [h.order.side]; exact hside))

/-- A leg whose terms stand, and that does not go back to `created`. -/
theorem SameTerms.keeps {new old : OrderLegRow} (horder : new.SameOrder old)
    (h : new.SameTerms old) (hs : old.status ≠ .created → new.status ≠ .created) :
    new.KeepsTerms old :=
  ⟨horder, fun hold => ⟨hs hold, h⟩, fun _ => h.tightens⟩

end OrderLegRow

variable {seen : List PairedPositionRow} {l l' : Ledger} {o : TradeOp} {now : Int}

/-! ## §2. One transaction. -/

/-- An adjusted limit is no weaker than the planned one. -/
theorem adjustLimit_tightens {perp perp' : OrderLegRow} {adjusted : Option ℚ}
    (h : Ledger.adjustLimit perp adjusted = .ok perp') : perp'.Tightens perp := by
  unfold Ledger.adjustLimit at h
  split at h
  · cases h
    exact ⟨rfl, fun _ => le_refl _, fun _ => le_refl _⟩
  next price =>
  split at h
  · cases h
  split at h
  · cases h
  next hprotects =>
  cases h
  rw [not_or] at hprotects
  refine ⟨rfl, fun hside => ?_, fun hside => ?_⟩
  · exact not_lt.mp fun hlt => hprotects.1 ⟨hside, hlt⟩
  · exact not_lt.mp fun hlt => hprotects.2 ⟨hside, hlt⟩

/-- Handing out the legs of an intent only tightens them. -/
theorem prepareLiveSubmission_terms (hw : WellFormed seen l) {intentId : Nat} {adjusted : Option ℚ}
    {r : Ledger.Prepared} (h : Ledger.prepareLiveSubmission intentId adjusted l = .ok (r, l'))
    {old : OrderLegRow} (hold : old ∈ l.legs) :
    ∃ new ∈ l'.legs, new.KeepsTerms old := by
  simp only [Ledger.prepareLiveSubmission, raiseIf_bind_eq_ok] at h
  obtain ⟨-, h⟩ := h
  split at h
  · cases h
    exact ⟨old, hold, .refl old⟩
  next i hi =>
  rw [raiseIf_bind_eq_ok] at h
  obtain ⟨-, h⟩ := h
  obtain ⟨⟨spot, perp⟩, hlegs, h⟩ := bind_eq_ok.mp h
  dsimp only at h
  split at h
  · cases h
    exact ⟨old, hold, .refl old⟩
  split at h
  · cases h
    exact ⟨old, hold, .refl old⟩
  rw [raiseIf_bind_eq_ok] at h
  obtain ⟨hcreated, h⟩ := h
  rw [not_or, not_not, not_not] at hcreated
  obtain ⟨perp', hadjust, h⟩ := bind_eq_ok.mp h
  obtain ⟨_, -, h⟩ := bind_eq_ok.mp h
  -- Only the limit of the perpetual leg is adjusted.
  have htight := adjustLimit_tightens hadjust
  obtain ⟨price, hq, rfl⟩ := Ledger.adjustLimit_ok hadjust
  cases h
  obtain ⟨⟨hspot, -, hs_name⟩, hperp, -, hp_name⟩ := Ledger.primaryLegs_ok hlegs
  have hne : spot.id ≠ perp.id := by
    intro hid
    have hsame : spot = perp := hw.legs_unique.eq hspot hperp hid
    rw [hsame, hp_name] at hs_name
    cases hs_name
  -- Both primary legs are put back; any other leg is found as it was.
  by_cases hop : old.id = perp.id
  · rw [hw.legs_unique.eq hold hperp hop]
    refine ⟨_, Table.mem_put.mpr (.inl ⟨rfl, perp, Table.mem_put.mpr (.inr ⟨hperp, hne.symm⟩), rfl⟩),
      ⟨rfl, rfl, rfl, rfl, rfl, rfl, rfl, rfl, rfl, rfl⟩, fun hs => absurd hcreated.2 hs, fun _ => ?_⟩
    exact ⟨rfl, htight.buy, htight.sell⟩
  · by_cases hos : old.id = spot.id
    · rw [hw.legs_unique.eq hold hspot hos]
      refine ⟨{ spot with status := .submitted }, Table.mem_put.mpr (.inr
        ⟨Table.mem_put.mpr (.inl ⟨rfl, spot, hspot, rfl⟩), hne⟩), ?_⟩
      exact OrderLegRow.SameTerms.keeps ⟨rfl, rfl, rfl, rfl, rfl, rfl, rfl, rfl, rfl, rfl⟩
        ⟨rfl, rfl, rfl⟩ fun _ h => (by cases h)
    · exact ⟨old, Table.mem_put.mpr (.inr ⟨Table.mem_put.mpr (.inr ⟨hold, hos⟩), hop⟩), .refl old⟩

/-- Storing fills never makes a leg look as if it had not been handed out. -/
theorem statusByFills_ne_created {leg : OrderLegRow} {filled : ℚ} (h : leg.status ≠ .created) :
    Ledger.statusByFills leg filled ≠ .created := by
  unfold Ledger.statusByFills
  split_ifs
  · exact fun hs => (by cases hs)
  · exact fun hs => (by cases hs)
  · exact h

/-- Nor does a lookup. -/
theorem statusByLookup_ne_created {leg : OrderLegRow} {order : RemoteOrder}
    (h : leg.status ≠ .created) : Ledger.statusByLookup leg order ≠ .created := by
  unfold Ledger.statusByLookup
  split_ifs
  · exact fun hs => (by cases hs)
  · exact fun hs => (by cases hs)
  · exact fun hs => (by cases hs)
  · exact h

/-- Apart from handing out primary legs, a transaction leaves the terms of a
leg that was handed out, and those of a primary leg. -/
theorem LegMove.terms {old new : OrderLegRow} (h : LegMove o l old new)
    (ho : ∀ intentId adjusted, o ≠ .prepareSubmission intentId adjusted)
    (hlive : ¬OnPaper l old.tradeIntentId) (hsame : new.SameOrder old) : new.KeepsTerms old := by
  cases o with
  | prepareSubmission intentId adjusted => exact absurd rfl (ho intentId adjusted)
  -- A protection leg gets its quantity now, but was not handed out before.
  | prepareCompensation intentId limit quantity tolerance =>
      obtain ⟨-, hname, hcreated, -⟩ := h
      refine ⟨hsame, fun hs => absurd hcreated hs, fun hprimary => ?_⟩
      rw [hname] at hprimary
      cases hprimary
  | recordSubmission legId s =>
      obtain ⟨-, -, rfl⟩ := h
      exact OrderLegRow.SameTerms.keeps hsame ⟨rfl, rfl, rfl⟩ fun _ h => (by cases h)
  | markSubmissionUnknown legId =>
      obtain ⟨-, -, rfl⟩ := h
      exact OrderLegRow.SameTerms.keeps hsame ⟨rfl, rfl, rfl⟩ fun _ h => (by cases h)
  | markSubmissionRejected legId code =>
      obtain ⟨-, -, rfl⟩ := h
      exact OrderLegRow.SameTerms.keeps hsame ⟨rfl, rfl, rfl⟩ fun _ h => (by cases h)
  | markUnknownNotFound legId =>
      obtain ⟨-, -, -, rfl⟩ := h
      exact OrderLegRow.SameTerms.keeps hsame ⟨rfl, rfl, rfl⟩ fun _ h => (by cases h)
  | persistFills legId fills =>
      obtain ⟨-, link, rows, -, rfl⟩ := h
      exact OrderLegRow.SameTerms.keeps hsame ⟨rfl, rfl, rfl⟩ statusByFills_ne_created
  | reconcileOrder legId order =>
      obtain ⟨-, -, rfl⟩ := h
      exact OrderLegRow.SameTerms.keeps hsame ⟨rfl, rfl, rfl⟩ statusByLookup_ne_created
  -- The paper operations fill legs of paper intents only.
  | paperOpenFills | paperCompensation | paperCloseFills | paperCloseCompensation =>
      exact absurd h.1 hlive
  -- The others write no leg.
  | createOpen | createClose | expirePlanned | failMarketUnexecutable | recordPreflightFailure
  | settleOpen | settleClose => exact h.elim

/-- What a committed transaction does to the terms of a leg at an exchange. -/
theorem TradeOp.terms (o : TradeOp) {r : o.Result} (hw : WellFormed seen l)
    (h : o.tx now l = .ok (r, l')) {old : OrderLegRow} (hold : old ∈ l.legs)
    (hlive : ¬OnPaper l old.tradeIntentId) : ∃ new ∈ l'.legs, new.KeepsTerms old := by
  by_cases hsubmit : ∃ intentId adjusted, o = .prepareSubmission intentId adjusted
  · obtain ⟨intentId, adjusted, rfl⟩ := hsubmit
    exact prepareLiveSubmission_terms hw h hold
  · obtain ⟨new, hnew, hsame, rfl | hmove⟩ := (TradeOp.effect o hw h).leg_forth hold
    · exact ⟨new, hnew, .refl new⟩
    · exact ⟨new, hnew, hmove.terms (fun i a ho => hsubmit ⟨i, a, ho⟩) hlive hsame⟩

/-! ## §3. Any sequence of transactions. -/

/-- Whatever transactions there are in between, a leg at an exchange is found
again as the same order; once it has been handed out its quantity, its limit and
its tolerance stand and it is never `created` again; and the terms of a primary
leg only ever tighten: its quantity stands, a buy limit never rises and a sell
limit never falls. -/
theorem terms_kept {b b' : Books} (hb : Reachable b) (hr : ReflTransGen Books.Step b b') :
    ∀ o ∈ b.ledger.legs, ¬OnPaper b.ledger o.tradeIntentId →
      ∃ o' ∈ b'.ledger.legs, o'.SameOrder o
        ∧ (o.status ≠ .created → o'.status ≠ .created ∧ o'.SameTerms o)
        ∧ (o.leg.isCompensation = false → o'.Tightens o) := by
  intro o ho hlive
  have hterms : ∃ o' ∈ b'.ledger.legs, o'.KeepsTerms o := by
    induction hr with
    | refl => exact ⟨o, ho, .refl o⟩
    | @tail c c' hrun hs ih =>
        obtain ⟨x, hx, hkeeps⟩ := ih
        obtain ⟨hc, hkept⟩ := Kept.run hb hrun
        cases hs with
        | tx hi h =>
            have hlive' := hkept.live hb.wellFormed hc.wellFormed.intents_unique ho hlive
            rw [← hkeeps.order.intent] at hlive'
            obtain ⟨y, hy, hy'⟩ := TradeOp.terms _ hc.wellFormed h hx hlive'
            exact ⟨y, hy, hkeeps.trans hy'⟩
        | control row => exact ⟨x, hx, hkeeps⟩
  obtain ⟨o', ho', hkeeps⟩ := hterms
  exact ⟨o', ho', hkeeps.order, hkeeps.sent, hkeeps.primary⟩

/-- The perpetual is sold at 101 instead of 100 at least, and the order stands
when its fills come in. -/
theorem terms_kept_tightened :
    ∃ b b', Reachable b ∧ ReflTransGen Books.Step b b'
      ∧ (b.ledger.legs.map (·.limitPrice) = [100, 100]
        ∧ b'.ledger.legs.map (·.limitPrice) = [100, 101])
      ∧ ∀ o ∈ b.ledger.legs, ¬OnPaper b.ledger o.tradeIntentId →
        ∃ o' ∈ b'.ledger.legs, o'.SameOrder o
          ∧ (o.status ≠ .created → o'.status ≠ .created ∧ o'.SameTerms o)
          ∧ (o.leg.isCompensation = false → o'.Tightens o) := by
  obtain ⟨b, b', hb, hr, hp⟩ := Books.exists_run
    (fun b b' => b.ledger.legs.map (·.limitPrice) = [100, 100]
      ∧ b'.ledger.legs.map (·.limitPrice) = [100, 101])
    [(.createOpen Sample.openPlan, 0)]
    [(.prepareSubmission 0 (some 101), 0),
      (.persistFills 2 [Sample.fill .perp .sell "p" 10 101 0], 0)] (by decide +kernel)
  exact ⟨b, b', hb, hr, hp, terms_kept hb hr⟩

end BasisHawk.Paired
