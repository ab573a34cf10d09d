/-
  BasisHawk.Paired.Exposure
  ─────────────────────────
  The exposure the legs of an intent have made at the exchange, and when a
  settlement writes the same quantity into the position.

  The settlements look at the primary fills, and at the protection leg only
  where the primary fills differ.  Fills may still arrive after a protection leg
  has traded, so the primary fills may come to agree while the protection leg
  has its own.

  Main results:
    • `netBase_layout` — the exposure as primary fills net of the compensation,
    • `opening_exposure_iff` — when the quantity of a new position is the
      exposure,
    • `closing_exposure_iff` — when what a close leaves is the exposure left.
-/
import BasisHawk.Paired.Readings

namespace BasisHawk.Paired

open Domain Lib

/-! ## §1. Exposure. -/

/-- What a leg has added to the base holdings on its market. -/
def OrderLegRow.signedBase (o : OrderLegRow) : ℚ :=
  match o.side with
  | .buy => o.filledBase
  | .sell => -o.filledBase

/-- What all legs of an intent have added to the base holdings on a market,
before fees. -/
def Ledger.netBase (l : Ledger) (intentId : Nat) (m : Market) : ℚ :=
  ((l.legsOfIntent intentId).map fun o => if o.market = m then o.signedBase else 0).sum

/-- The fees of an intent that were taken in its base asset. -/
def Ledger.baseFees (l : Ledger) (intent : TradeIntentRow) : ℚ :=
  spotBaseFee intent.baseAsset (l.fillsOfIntent intent.id)

/-- The primary leg on a market. -/
def Layout.primary (y : Layout) (m : Market) : OrderLegRow :=
  match m with
  | .spot => y.spot
  | .perp => y.perp

/-- What the protection leg has undone on a market. -/
def Layout.undone (y : Layout) (m : Market) : ℚ :=
  match y.compensation with
  | none => 0
  | some c => if c.market = m then c.filledBase else 0

/-- The primary fill on a market net of what was undone. -/
def Layout.net (y : Layout) (m : Market) : ℚ := (y.primary m).filledBase - y.undone m

/-- `1` for a purchase, `-1` for a sale. -/
def Side.sign : Side → ℚ
  | .buy => 1
  | .sell => -1

theorem signedBase_eq (o : OrderLegRow) : o.signedBase = Side.sign o.side * o.filledBase := by
  unfold OrderLegRow.signedBase Side.sign
  cases o.side <;> simp

theorem sign_flip (s : Side) : Side.sign s.flip = -Side.sign s := by
  cases s <;> simp [Side.sign, Side.flip]

variable {seen : List PairedPositionRow} {l l' : Ledger} {intentId : Nat} {now : Int}

/-- In well-formed tables the legs of a layout are on their markets and sides. -/
structure Layout.Fits (y : Layout) (a : TradeAction) : Prop where
  spot : y.spot.market = .spot ∧ y.spot.side = a.side .spot
  perp : y.perp.market = .perp ∧ y.perp.side = a.side .perp
  compensation : ∀ c ∈ y.compensation, c.side = (a.side c.market).flip

/-- The legs that a settlement reads belong to its intent and have the sides of
its action. -/
theorem WellFormed.layout_fits (hw : WellFormed seen l) {i : TradeIntentRow} {y : Layout}
    (hi : i ∈ l.intents) (hy : l.layout i.id = .ok y) : y.Fits i.action := by
  obtain ⟨hspot_name, hperp_name, hcomp_name, -⟩ := layout_legs hy
  have hfits : ∀ o ∈ y.legs, o.Fits i := by
    intro o ho
    obtain ⟨hmem, hintent⟩ := mem_layout hy ho
    exact hw.fits hi hmem hintent
  have hs := hfits y.spot (by simp [Layout.legs])
  have hp := hfits y.perp (by simp [Layout.legs])
  refine ⟨⟨?_, ?_⟩, ⟨?_, ?_⟩, fun c hc => ?_⟩
  · rw [hs.market, hspot_name]
    rfl
  · rw [hs.side, hspot_name]
    rfl
  · rw [hp.market, hperp_name]
    rfl
  · rw [hp.side, hperp_name]
    rfl
  · have hf := hfits c (by simp [Layout.legs, Option.mem_def.mp hc])
    have hname := hcomp_name c hc
    rw [hf.side, hf.market]
    cases hx : c.leg with
    | primary m =>
        rw [hx] at hname
        cases hname
    | compensation m => rfl

/-- The exposure of an intent on a market: its primary fill net of what was
undone, on the side of its action. -/
theorem netBase_layout {i : TradeIntentRow} {y : Layout} (hy : l.layout i.id = .ok y)
    (hf : y.Fits i.action) (m : Market) :
    l.netBase i.id m = Side.sign (i.action.side m) * y.net m := by
  obtain ⟨⟨hs_market, hs_side⟩, ⟨hp_market, hp_side⟩, hc_side⟩ := hf
  obtain ⟨-, -, -, hperm⟩ := layout_legs hy
  -- The legs of the layout are all legs of the intent, so the sums agree.
  have hsum : l.netBase i.id m
      = (y.legs.map fun o => if o.market = m then o.signedBase else 0).sum :=
    (hperm.map _).sum_eq.symm
  -- The protection leg trades against the action's side, on one market.
  have hcomp : (y.compensation.toList.map fun o => if o.market = m then o.signedBase else 0).sum
      = -(Side.sign (i.action.side m) * y.undone m) := by
    unfold Layout.undone
    cases hc : y.compensation with
    | none => simp
    | some c =>
        simp only [Option.toList_some, List.map_cons, List.map_nil, List.sum_cons, List.sum_nil,
          add_zero]
        by_cases hm : c.market = m
        · have hside := hc_side c hc
          rw [if_pos hm, if_pos hm, signedBase_eq, hside, hm, sign_flip, neg_mul]
        · rw [if_neg hm, if_neg hm, mul_zero, neg_zero]
  rw [hsum]
  show ((y.spot :: y.perp :: y.compensation.toList).map _).sum = _
  rw [List.map_cons, List.map_cons, List.sum_cons, List.sum_cons, hcomp, hs_market, hp_market,
    signedBase_eq, signedBase_eq, hs_side, hp_side]
  unfold Layout.net Layout.primary
  -- On each market one of the two primary legs counts.
  cases m with
  | spot =>
      simp
      ring
  | perp =>
      simp
      ring

/-! ## §2. A new position. -/

/-- The condition under which the quantity of a new position is the exposure
behind it.  `spotBase` is the primary spot fill after base-asset fees.  Primary
fills that are not balanced are evened out by the protection leg, which must be
on the market of the excess leg; where they are balanced the protection leg is
not looked at. -/
def HedgesExactly (r : OpenReading) (spotBase : ℚ) : Prop :=
  match r.layout.compensation with
  | none => r.layout.perp.filledBase ≤ spotBase
  | some c =>
      if ¬numericEqual spotBase r.layout.perp.filledBase
          ∧ ¬feeAwareOpenIsHedged r.intent r.layout spotBase then
        c.market = (r.layout.excess spotBase r.layout.perp.filledBase).market
      else match c.market with
        | .spot => r.layout.perp.filledBase + c.filledBase ≤ spotBase
        | .perp => if c.filledBase = 0 then r.layout.perp.filledBase ≤ spotBase
            else spotBase + c.filledBase = r.layout.perp.filledBase

/-- The quantities of a hedge against the exposure, in terms of the fills. -/
theorem hedge_exact_iff {r : OpenReading} {spotFills fills : List FillRow}
    {quantity s p cost spotBase : ℚ}
    (hbase : spotBase = spotBaseAfterFee r.layout.spot (spotBaseFee r.intent.baseAsset spotFills))
    (h : openVerdict r.intent r.layout spotFills fills = .ok (.hedge quantity s p cost)) :
    (quantity = r.layout.net .perp ∧ quantity ≤ spotBase - r.layout.undone .spot)
      ↔ HedgesExactly r spotBase := by
  obtain ⟨-, -, -, -, ⟨hne, hunhedged, c, adjusted, fees, profit, hc, haverage, hadjusted, -, -, hq,
    -⟩ | ⟨hbalanced, hq, -⟩⟩ := Ledger.openVerdict_hedge hbase h
  · -- The protection leg was taken into account, on the market of the excess.
    obtain ⟨average, haverage⟩ := Option.ne_none_iff_exists'.mp haverage
    have hpos : 0 < c.filledBase := OrderLegRow.filledBase_pos_of_average haverage
    obtain ⟨hnet, -, -, hdust, -, -⟩ := compensatedBaseQuantities_ok hadjusted
    have hdust := residualDust_nonneg hdust
    unfold HedgesExactly Layout.net Layout.undone Layout.primary
    rw [hc]
    simp only [hne, hunhedged]
    unfold residualDust at hdust
    unfold netOfCompensation at hnet
    unfold Layout.excess at hnet ⊢
    rw [hq]
    split at hnet
    · next hmarket =>
        rw [hmarket]
        subst hnet
        simp only at hdust ⊢
        cases hm : c.market with
        | spot => simp; linarith
        | perp =>
            simp
            intro heq
            linarith
    · next hmarket =>
        rw [hmarket]
        subst hnet
        simp only at hdust ⊢
        cases hm : c.market with
        | spot =>
            simp
            intro heq
            linarith
        | perp => simp; linarith
  · have hbranch : ¬(¬numericEqual spotBase r.layout.perp.filledBase
        ∧ ¬feeAwareOpenIsHedged r.intent r.layout spotBase) := by
      intro hun
      rcases hbalanced with hn | hh
      · exact hun.1 hn
      · exact hun.2 hh
    unfold HedgesExactly Layout.net Layout.undone Layout.primary
    rw [hq]
    cases hc : r.layout.compensation with
    | none =>
        simp only [sub_zero]
        constructor
        · rintro ⟨hmin, -⟩
          exact min_eq_right_iff.mp hmin
        · intro hle
          rw [min_eq_right hle]
          exact ⟨rfl, hle⟩
    | some c =>
        have hnonneg := c.filledBase_nonneg
        simp only [if_neg hbranch]
        cases hm : c.market with
        | spot =>
            simp only [if_true, sub_zero, if_neg (show ¬Market.spot = .perp by decide)]
            constructor
            · rintro ⟨hmin, hle⟩
              rw [hmin] at hle
              linarith
            · intro hle
              rw [min_eq_right (by linarith)]
              exact ⟨rfl, by linarith⟩
        | perp =>
            simp only [if_true, sub_zero, if_neg (show ¬Market.perp = .spot by decide)]
            by_cases hzero : c.filledBase = 0
            · rw [if_pos hzero, hzero, sub_zero]
              constructor
              · rintro ⟨hmin, -⟩
                exact min_eq_right_iff.mp hmin
              · intro hle
                rw [min_eq_right hle]
                exact ⟨rfl, hle⟩
            · rw [if_neg hzero]
              constructor
              · rintro ⟨hmin, -⟩
                rcases min_choice spotBase r.layout.perp.filledBase with hs | hp
                · rw [hs] at hmin
                  linarith
                · -- Then nothing would have been undone.
                  rw [hp] at hmin
                  exact absurd (by linarith) hzero
              · intro heq
                have hle : spotBase ≤ r.layout.perp.filledBase := by linarith
                rw [min_eq_left hle]
                exact ⟨by linarith, le_refl _⟩

/-- The spot fill after fees is a purchase. -/
theorem spotBase_net {y : Layout} (hf : y.Fits .opening) (fee : ℚ) :
    spotBaseAfterFee y.spot fee - y.undone .spot = y.net .spot - fee := by
  unfold spotBaseAfterFee
  rw [hf.spot.2]
  show y.spot.filledBase - fee - y.undone .spot = y.spot.filledBase - y.undone .spot - fee
  ring

/-- Whenever `settle_live_open` opens a position, its quantity is what the legs
have sold of the perpetual, with at least as much spot left, exactly under the
condition on the fills. -/
theorem opening_exposure_iff {b : Books} (hb : Reachable b) {i : TradeIntentRow}
    {p : PairedPositionRow}
    (h : b.ledger.settleLiveOpen intentId now = .ok (some (i, some p, true), l')) :
    ∃ r, b.ledger.openReading intentId = some r ∧ i.status = .hedged
      ∧ l'.positions = b.ledger.positions ++ [p]
      ∧ ((p.quantity = -l'.netBase i.id .perp
          ∧ p.quantity ≤ l'.netBase i.id .spot
            - spotBaseFee i.baseAsset (l'.fillsOfLeg r.layout.spot.id))
        ↔ HedgesExactly r (spotBaseAfterFee r.layout.spot
            (spotBaseFee r.intent.baseAsset (b.ledger.fillsOfLeg r.layout.spot.id)))) := by
  obtain ⟨r, verdict, hr, hd, happly⟩ := Ledger.settleLiveOpen_changed h
  obtain ⟨hintent, -, hsettleable, hy⟩ := Ledger.openReading_some.mp hr
  -- Of all verdicts only `hedge` opens a position.
  cases verdict with
  | pending => cases happly
  | noFills => cases happly
  | protect excess base =>
      obtain ⟨⟨i', l₁⟩, -, happly⟩ := bind_eq_ok.mp happly
      cases happly
  | review => cases happly
  | neutralized => cases happly
  | hedge quantity s q cost =>
      cases happly
      refine ⟨r, hr, rfl, rfl, ?_⟩
      have hi := (Table.find?_some hintent).1
      have hf : r.layout.Fits .opening := by
        rw [← hsettleable.2.1]
        exact hb.wellFormed.layout_fits hi hy
      have hnet := netBase_layout hy (hsettleable.2.1.symm ▸ hf)
      rw [← hedge_exact_iff rfl hd, spotBase_net hf]
      show quantity = -b.ledger.netBase r.intent.id .perp ∧ quantity ≤ b.ledger.netBase r.intent.id .spot
        - spotBaseFee r.intent.baseAsset (b.ledger.fillsOfLeg r.layout.spot.id) ↔ _
      -- An opening buys spot and sells the perpetual.
      rw [hnet, hnet, hsettleable.2.1]
      show quantity = -(-1 * r.layout.net .perp) ∧ quantity ≤ 1 * r.layout.net .spot - _ ↔ _
      rw [neg_one_mul, neg_neg, one_mul]

/-- Ten units against ten. -/
theorem opening_exposure_whole :
    ∃ b i p l', Reachable b
      ∧ b.ledger.settleLiveOpen 0 0 = .ok (some (i, some p, true), l')
      ∧ ∃ r, b.ledger.openReading 0 = some r ∧ i.status = .hedged
        ∧ l'.positions = b.ledger.positions ++ [p]
        ∧ ((p.quantity = -l'.netBase i.id .perp
            ∧ p.quantity ≤ l'.netBase i.id .spot
              - spotBaseFee i.baseAsset (l'.fillsOfLeg r.layout.spot.id))
          ↔ HedgesExactly r (spotBaseAfterFee r.layout.spot
              (spotBaseFee r.intent.baseAsset (b.ledger.fillsOfLeg r.layout.spot.id)))) := by
  obtain ⟨b, hb, ⟨i, p, l'⟩, hs, -⟩ := Books.exists_of_play
    (fun b => ∃ x ∈ Ledger.settledBy (b.ledger.settleLiveOpen 0 0), x.2.1.quantity = 10)
    (Sample.opened.take 4) (by decide +kernel)
  have h := Ledger.settledBy_some.mp hs
  exact ⟨b, i, p, l', hb, h, opening_exposure_iff hb h⟩

/-- Two of ten spot units are sold back because only eight perpetual units were
sold; then the other two turn out sold as well.  The new position is ten, with
eight units of spot. -/
theorem opening_exposure_short :
    ∃ b i p l', Reachable b
      ∧ b.ledger.settleLiveOpen 0 0 = .ok (some (i, some p, true), l')
      ∧ ∃ r, b.ledger.openReading 0 = some r ∧ i.status = .hedged ∧ p.quantity = 10
        ∧ l'.netBase i.id .perp = -10
        ∧ l'.netBase i.id .spot - spotBaseFee i.baseAsset (l'.fillsOfLeg r.layout.spot.id) = 8 := by
  obtain ⟨b, hb, ⟨i, p, l'⟩, hs, r, hr, hfacts⟩ := Books.exists_of_play
    (fun b => ∃ x ∈ Ledger.settledBy (b.ledger.settleLiveOpen 0 0), ∃ r ∈ b.ledger.openReading 0,
      x.1.status = .hedged ∧ x.2.1.quantity = 10 ∧ x.2.2.netBase x.1.id .perp = -10
        ∧ x.2.2.netBase x.1.id .spot
          - spotBaseFee x.1.baseAsset (x.2.2.fillsOfLeg r.layout.spot.id) = 8)
    [(.createOpen Sample.openPlan, 0), (.prepareSubmission 0 none, 0),
      (.persistFills 1 [Sample.fill .spot .buy "s" 10 100 0], 0),
      (.persistFills 2 [Sample.fill .perp .sell "p" 8 100 0], 0),
      (.reconcileOrder 2 (Sample.canceled .perp .sell "bh-0123456789abcdef01234567-p" 10 false), 0),
      (.settleOpen 0, 0), (.prepareCompensation 0 95 2 1, 0),
      (.persistFills 5 [Sample.fill .spot .sell "c" 2 100 0], 0),
      (.persistFills 2 [Sample.fill .perp .sell "p" 8 100 0, Sample.fill .perp .sell "q" 2 100 0], 0)]
    (by decide +kernel)
  exact ⟨b, i, p, l', hb, Ledger.settledBy_some.mp hs, r, hr, hfacts⟩

/-! ## §3. What a close leaves. -/

/-- The remainder a booking drops because it is too small to count. -/
def dropped (quantity closed : ℚ) : ℚ :=
  if numericEqual (quantity - closed) 0 then quantity - closed else 0

/-- The condition under which a settled close leaves the short exposure it
records.  Nothing filled: no protection leg has sold the perpetual.  Equal fills:
they are equal net of what the protection leg undid on the perpetual, and up to
what is dropped.  Unequal fills: the protection leg is on the market of the
excess leg and nothing is dropped, or all of the perpetual was bought back and
what the protection leg has bought of spot is too small to count. -/
def ClosesShortExactly (r : CloseReading) : Prop :=
  let spotBase := r.layout.spot.filledBase
  let perpBase := r.layout.perp.filledBase
  if spotBase = 0 ∧ perpBase = 0 then r.layout.undone .perp = 0
  else if numericEqual spotBase perpBase then
    r.layout.net .perp = spotBase + dropped r.position.quantity spotBase
  else ∃ c ∈ r.layout.compensation,
    if c.market = (r.layout.excess spotBase perpBase).market then
      dropped r.position.quantity (adjustedBases r.layout c).2 = 0
    else spotBase < perpBase ∧ perpBase = r.position.quantity ∧ c.filledBase ≤ 1 / 10 ^ 15

/-- The condition under which a close leaves as much spot as short exposure:
the fees in the base asset are covered by the spot held beyond the position and
the spot that was not sold. -/
def CoversBaseFees (r : CloseReading) (spotHeld fees : ℚ) : Prop :=
  fees ≤ (spotHeld - r.position.quantity) + (r.layout.net .perp - r.layout.net .spot)

theorem dropped_nonneg {quantity closed : ℚ} (h : closed ≤ quantity) :
    0 ≤ dropped quantity closed := by
  unfold dropped
  split
  · linarith
  · exact le_refl 0

/-- What a close leaves of a position: what it has not booked, less the
remainder that counts as zero. -/
theorem afterClose_quantity (p : PairedPositionRow) (o : CloseOutcome) :
    (p.afterClose o now).quantity = p.quantity - o.quantity - dropped p.quantity o.quantity := by
  unfold PairedPositionRow.afterClose dropped
  dsimp only
  split
  · rw [sub_self]
  · rw [sub_zero]

/-- Only fills on neither leg count as none. -/
theorem closeVerdict_noFills {intent : TradeIntentRow} {position : PairedPositionRow} {y : Layout}
    {fills : List FillRow} (h : closeVerdict intent position y fills = .ok .noFills) :
    y.spot.filledBase = 0 ∧ y.perp.filledBase = 0 := by
  simp only [closeVerdict] at h
  split at h
  · cases h
  split at h
  · next hzero => exact hzero
  split at h
  · simp only [closeImbalance] at h
    split at h
    · split at h <;> cases h
    split at h
    · cases h
    split at h
    · cases h
    split at h
    · cases h
    obtain ⟨o, -, h⟩ := bind_eq_ok.mp h
    cases h
  · simp only [closeBalanced] at h
    split at h
    · cases h
    split at h
    · cases h
    obtain ⟨a, -, h⟩ := bind_eq_ok.mp h
    obtain ⟨g, -, h⟩ := bind_eq_ok.mp h
    cases h

/-- What a booked close leaves against the short exposure left. -/
theorem booked_short_iff {l : Ledger} {r : CloseReading} (hf : r.layout.Fits .closing)
    {o : CloseOutcome} (hd : l.closeDecision r = .ok (.settle o)) :
    r.position.quantity - r.layout.net .perp
        = r.position.quantity - o.quantity - dropped r.position.quantity o.quantity
      ↔ ClosesShortExactly r := by
  obtain ⟨⟨hs_market, -⟩, ⟨hp_market, -⟩, -⟩ := hf
  obtain ⟨-, ⟨hunequal, c, common, fees, profit, hc, haverage, hcompensated, houtcome⟩
    | ⟨hequal, hle, hspot, -, hq, -⟩⟩ := Ledger.closeVerdict_settle hd
  · obtain ⟨adjusted, hadjusted, rfl, hle, -, -⟩ := closeCompensated_ok hcompensated
    obtain ⟨hnet, -, -, -, -, -⟩ := compensatedBaseQuantities_ok hadjusted
    obtain ⟨hq, -, -, -, -⟩ := closeCompensatedOutcome_ok houtcome
    obtain ⟨average, haverage⟩ := Option.ne_none_iff_exists'.mp haverage
    have hpos : 0 < c.filledBase := OrderLegRow.filledBase_pos_of_average haverage
    have hdrop := dropped_nonneg hle
    have hadjusted : adjusted = adjustedBases r.layout c := hnet
    have hfilled : ¬(r.layout.spot.filledBase = 0 ∧ r.layout.perp.filledBase = 0) := by
      intro ⟨hs, hp⟩
      rw [hs, hp, numericEqual_iff, sub_self, abs_zero] at hunequal
      exact hunequal (by norm_num)
    unfold ClosesShortExactly
    simp only [hfilled, hunequal, if_false, Bool.false_eq_true, hc, Option.mem_def,
      Option.some.injEq, exists_eq_left']
    rw [hq, ← hadjusted]
    unfold Layout.net Layout.undone Layout.primary
    rw [hc]
    simp only
    unfold netOfCompensation Layout.excess at hnet
    unfold Layout.excess
    by_cases hlt : r.layout.perp.filledBase < r.layout.spot.filledBase
    · rw [if_pos hlt, hs_market] at hnet
      rw [if_pos hlt, hs_market]
      have hsecond : adjusted.2 = r.layout.perp.filledBase := by rw [hnet]
      cases hm : c.market with
      | spot =>
          simp only [if_true, if_neg (show ¬Market.spot = .perp by decide)]
          constructor <;> intro h <;> linarith
      | perp =>
          -- The perpetual sold by the protection leg is not in the books.
          simp only [if_true, if_neg (show ¬Market.perp = .spot by decide)]
          constructor
          · intro h
            linarith
          · intro ⟨hs, _⟩
            linarith
    · rw [if_neg hlt, hp_market] at hnet
      rw [if_neg hlt, hp_market]
      have hsecond : adjusted.2 = r.layout.perp.filledBase - c.filledBase := by rw [hnet]
      cases hm : c.market with
      | perp =>
          simp only [if_true]
          constructor <;> intro h <;> linarith
      | spot =>
          simp only [if_neg (show ¬Market.spot = .perp by decide)]
          have hs_lt : r.layout.spot.filledBase < r.layout.perp.filledBase := by
            refine lt_of_le_of_ne (not_lt.mp hlt) fun heq => ?_
            rw [heq, numericEqual_iff, sub_self, abs_zero] at hunequal
            exact hunequal (by norm_num)
          rw [hsecond]
          unfold dropped
          by_cases hsmall : numericEqual
              (r.position.quantity - (r.layout.perp.filledBase - c.filledBase)) 0
          · rw [if_pos hsmall]
            rw [numericEqual_iff, sub_zero, abs_le] at hsmall
            constructor
            · intro h
              have heq : r.layout.perp.filledBase = r.position.quantity := by linarith
              exact ⟨hs_lt, heq, by linarith [hsmall.2]⟩
            · intro ⟨_, heq, _⟩
              linarith
          · rw [if_neg hsmall]
            constructor
            · intro h
              linarith
            · intro ⟨_, heq, hf_le⟩
              refine absurd ?_ hsmall
              rw [numericEqual_iff, sub_zero, heq, abs_le]
              constructor <;> linarith
  · obtain ⟨average, haverage⟩ := Option.ne_none_iff_exists'.mp hspot
    have hpos := OrderLegRow.filledBase_pos_of_average haverage
    have hfilled : ¬(r.layout.spot.filledBase = 0 ∧ r.layout.perp.filledBase = 0) :=
      fun h => hpos.ne' h.1
    unfold ClosesShortExactly
    simp only [hfilled, hequal, if_false, if_true]
    rw [hq]
    constructor <;> intro h <;> linarith

/-- Whenever `settle_live_close` settles an intent of a position that is backed by
as much short perpetual as it says and `spotHeld` of spot, the quantity it leaves
is the short perpetual left and no more than the spot left, exactly under the
condition on the fills. -/
theorem closing_exposure_iff {b : Books} (hb : Reachable b) {i : TradeIntentRow}
    {p : PairedPositionRow} (spotHeld : ℚ)
    (h : b.ledger.settleLiveClose intentId now = .ok (some (i, some p, true), l'))
    (hsettled : i.status = .closed ∨ i.status = .failed) :
    ∃ r, b.ledger.closeReading intentId = some r
      ∧ ((r.position.quantity - l'.netBase i.id .perp = p.quantity
          ∧ p.quantity ≤ spotHeld + l'.netBase i.id .spot - l'.baseFees i)
        ↔ ClosesShortExactly r ∧ CoversBaseFees r spotHeld (b.ledger.baseFees r.intent)) := by
  obtain ⟨r, verdict, hr, hd, happly⟩ := Ledger.settleLiveClose_changed h
  obtain ⟨hintent, -, hsettleable, -, hy⟩ := Ledger.closeReading_some.mp hr
  have hi := (Table.find?_some hintent).1
  have hf : r.layout.Fits .closing := by
    rw [← hsettleable.2.1]
    exact hb.wellFormed.layout_fits hi hy
  have hnet := netBase_layout hy (hsettleable.2.1.symm ▸ hf)
  have hperp : b.ledger.netBase r.intent.id .perp = r.layout.net .perp := by
    rw [hnet, hsettleable.2.1]
    show 1 * r.layout.net .perp = _
    rw [one_mul]
  have hspot : b.ledger.netBase r.intent.id .spot = -r.layout.net .spot := by
    rw [hnet, hsettleable.2.1]
    show -1 * r.layout.net .spot = _
    rw [neg_one_mul]
  -- The spot part, once the short part holds.
  have hcover : ∀ q : ℚ, r.position.quantity - r.layout.net .perp = q →
      (q ≤ spotHeld + -r.layout.net .spot - b.ledger.baseFees r.intent
        ↔ CoversBaseFees r spotHeld (b.ledger.baseFees r.intent)) := by
    intro q hq
    unfold CoversBaseFees
    constructor <;> intro h <;> linarith
  refine ⟨r, hr, ?_⟩
  cases verdict with
  | pending => cases happly
  | protect excess base =>
      obtain ⟨⟨i', l₁⟩, hprotect, happly⟩ := bind_eq_ok.mp happly
      cases happly
      obtain ⟨leg, -, rfl, -⟩ := Ledger.protect_ok hprotect
      rcases hsettled with hs | hs <;> cases hs
  | review =>
      cases happly
      rcases hsettled with hs | hs <;> cases hs
  | noFills =>
      cases happly
      obtain ⟨hs_zero, hp_zero⟩ := closeVerdict_noFills hd
      show r.position.quantity - b.ledger.netBase r.intent.id .perp = r.position.quantity
        ∧ r.position.quantity ≤ spotHeld + b.ledger.netBase r.intent.id .spot
          - b.ledger.baseFees r.intent ↔ _
      rw [hperp, hspot]
      have hshort : r.position.quantity - r.layout.net .perp = r.position.quantity
          ↔ ClosesShortExactly r := by
        unfold ClosesShortExactly Layout.net Layout.primary
        simp only [hs_zero, hp_zero, and_self, if_true]
        constructor <;> intro h <;> linarith
      constructor
      · intro ⟨hq, hle⟩
        exact ⟨hshort.mp hq, (hcover _ hq).mp hle⟩
      · intro ⟨hc, hle⟩
        exact ⟨hshort.mpr hc, (hcover _ (hshort.mpr hc)).mpr hle⟩
  | settle o =>
      obtain ⟨l₁, hrow, happly⟩ := bind_eq_ok.mp happly
      obtain ⟨-, -, -, -, row, -, rfl⟩ := Ledger.insertRealization_ok hrow
      cases happly
      show r.position.quantity - b.ledger.netBase r.intent.id .perp
          = (r.position.afterClose o now).quantity
        ∧ (r.position.afterClose o now).quantity
          ≤ spotHeld + b.ledger.netBase r.intent.id .spot - b.ledger.baseFees r.intent ↔ _
      rw [hperp, hspot, afterClose_quantity]
      have hshort := booked_short_iff hf hd
      constructor
      · intro ⟨hq, hle⟩
        exact ⟨hshort.mp hq, (hcover _ hq).mp hle⟩
      · intro ⟨hc, hle⟩
        exact ⟨hshort.mpr hc, (hcover _ (hshort.mpr hc)).mpr hle⟩

/-- Half of the position is closed on both legs. -/
theorem closing_exposure_half :
    ∃ b i p l', Reachable b
      ∧ b.ledger.settleLiveClose 6 1 = .ok (some (i, some p, true), l')
      ∧ ∃ r, b.ledger.closeReading 6 = some r
        ∧ ((r.position.quantity - l'.netBase i.id .perp = p.quantity
            ∧ p.quantity ≤ 10 + l'.netBase i.id .spot - l'.baseFees i)
          ↔ ClosesShortExactly r ∧ CoversBaseFees r 10 (b.ledger.baseFees r.intent)) := by
  obtain ⟨b, hb, ⟨i, p, l'⟩, hs, hstatus⟩ := Books.exists_of_play
    (fun b => ∃ x ∈ Ledger.settledBy (b.ledger.settleLiveClose 6 1), x.1.status = .closed)
    (Sample.opened ++ Sample.closing ++ [
      (.persistFills 7 [Sample.fill .spot .sell "s" 5 100 0], 0),
      (.persistFills 8 [Sample.fill .perp .buy "p" 5 100 0], 0)] ++ Sample.closeCanceled)
    (by decide +kernel)
  have h := Ledger.settledBy_some.mp hs
  exact ⟨b, i, p, l', hb, h, closing_exposure_iff hb 10 h (.inl hstatus)⟩

/-- Two of four perpetual units are sold again because only two spot units were
sold; then the other two turn out sold as well.  The books keep six of ten, the
short exposure is eight. -/
theorem closing_exposure_short :
    ∃ b i p l', Reachable b
      ∧ b.ledger.settleLiveClose 6 1 = .ok (some (i, some p, true), l') ∧ i.status = .closed
      ∧ ∃ r, b.ledger.closeReading 6 = some r ∧ r.position.quantity = 10 ∧ p.quantity = 6
        ∧ r.position.quantity - l'.netBase i.id .perp = 8 := by
  obtain ⟨b, hb, ⟨i, p, l'⟩, hs, hstatus, r, hr, hfacts⟩ := Books.exists_of_play
    (fun b => ∃ x ∈ Ledger.settledBy (b.ledger.settleLiveClose 6 1), x.1.status = .closed
      ∧ ∃ r ∈ b.ledger.closeReading 6, r.position.quantity = 10 ∧ x.2.1.quantity = 6
        ∧ r.position.quantity - x.2.2.netBase x.1.id .perp = 8)
    (Sample.opened ++ Sample.closing ++ [
      (.persistFills 7 [Sample.fill .spot .sell "s" 2 100 0], 0),
      (.persistFills 8 [Sample.fill .perp .buy "p" 4 100 0], 0)] ++ Sample.closeCanceled ++ [
      (.settleClose 6, 0), (.prepareCompensation 6 95 2 1, 0),
      (.persistFills 11 [Sample.fill .perp .sell "c" 2 100 0], 0),
      (.persistFills 7 [Sample.fill .spot .sell "s" 2 100 0, Sample.fill .spot .sell "t" 2 100 0],
        0)]) (by decide +kernel)
  exact ⟨b, i, p, l', hb, Ledger.settledBy_some.mp hs, hstatus, r, hr, hfacts⟩

end BasisHawk.Paired
