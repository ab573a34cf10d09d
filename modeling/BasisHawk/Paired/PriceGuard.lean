/-
  BasisHawk.Paired.PriceGuard
  ───────────────────────────
  The limit of a perpetual order inside Gate's price band (`gate_price_guard.py`,
  `guarded_ioc_limit_price`), and the check of `prepare_live_submission` on it.

  Gate takes a buy up to the mark price plus a deviation and a sale down to the
  mark price less it, in whole ticks.  The guard tightens the planned limit to
  that, or gives none where the top of the book is out of reach.

  Main results:
    • `guardedIocLimitPrice_buy`, `guardedIocLimitPrice_sell` — when there is a
      limit, and what it is,
    • `prepareLiveSubmission_adjusted` — a limit that is not weaker changes no
      outcome of a submission,
    • `guarded_limit_sound` — the guard is sound and complete, and its limit is
      never refused.
-/
import BasisHawk.Paired.Storage
import BasisHawk.Lib.Increment
import Mathlib.Data.Rat.Floor

namespace BasisHawk.Paired

open Domain Lib

/-! ## §1. The guard. -/

/-- `guarded_ioc_limit_price`. -/
def guardedIocLimitPrice (side : Side)
    (plannedLimitPrice topPrice markPrice maximumDeviation priceIncrement : ℚ) :
    Except Exc (Option ℚ) := do
  raiseIf (plannedLimitPrice ≤ 0 ∨ topPrice ≤ 0 ∨ markPrice ≤ 0 ∨ maximumDeviation ≤ 0
      ∨ 1 ≤ maximumDeviation ∨ priceIncrement ≤ 0)
    (.ofKind .runtime "Gate guarded limit inputs are invalid")
  match side with
  | .buy =>
      let exchangeBoundary :=
        (⌊markPrice * (1 + maximumDeviation) / priceIncrement⌋ : ℚ) * priceIncrement
      let guardedLimit := min plannedLimitPrice exchangeBoundary
      return if topPrice ≤ guardedLimit then some guardedLimit else none
  | .sell =>
      let exchangeBoundary :=
        (⌈markPrice * (1 - maximumDeviation) / priceIncrement⌉ : ℚ) * priceIncrement
      let guardedLimit := max plannedLimitPrice exchangeBoundary
      return if guardedLimit ≤ topPrice then some guardedLimit else none

/-! ## §2. Prices of a side. -/

/-- A limit of this side that reaches the price: an order at the limit takes it. -/
def Reaches (side : Side) (limit price : ℚ) : Prop :=
  match side with
  | .buy => price ≤ limit
  | .sell => limit ≤ price

/-- The bound that the exchange puts on the limits of a side. -/
def bandLimit (side : Side) (markPrice maximumDeviation : ℚ) : ℚ :=
  match side with
  | .buy => markPrice * (1 + maximumDeviation)
  | .sell => markPrice * (1 - maximumDeviation)

/-- What `guarded_ioc_limit_price` asks of its numbers. -/
structure GuardInputs (planned top mark deviation increment : ℚ) : Prop where
  planned_pos : 0 < planned
  top_pos : 0 < top
  mark_pos : 0 < mark
  deviation_pos : 0 < deviation
  deviation_lt : deviation < 1
  increment_pos : 0 < increment

section Guard

variable {planned top mark deviation increment : ℚ}

/-- Inputs within their ranges pass the check at the start. -/
theorem GuardInputs.valid (h : GuardInputs planned top mark deviation increment) :
    ¬(planned ≤ 0 ∨ top ≤ 0 ∨ mark ≤ 0 ∨ deviation ≤ 0 ∨ 1 ≤ deviation ∨ increment ≤ 0) := by
  rintro (hle | hle | hle | hle | hle | hle)
  · exact absurd h.planned_pos (not_lt.mpr hle)
  · exact absurd h.top_pos (not_lt.mpr hle)
  · exact absurd h.mark_pos (not_lt.mpr hle)
  · exact absurd h.deviation_pos (not_lt.mpr hle)
  · exact absurd h.deviation_lt (not_lt.mpr hle)
  · exact absurd h.increment_pos (not_lt.mpr hle)

/-- The guarded limit of a purchase: the planned limit or the band above the
mark, whichever is lower, on the grid, and none where the ask is beyond it. -/
theorem guardedIocLimitPrice_buy (h : GuardInputs planned top mark deviation increment) :
    guardedIocLimitPrice .buy planned top mark deviation increment
      = .ok (if top ≤ min planned (floorTo increment (mark * (1 + deviation))) then
          some (min planned (floorTo increment (mark * (1 + deviation)))) else none) := by
  unfold guardedIocLimitPrice
  rw [raiseIf_neg h.valid]
  rfl

/-- The guarded limit of a sale: the higher of the planned limit and the band
below the mark, and none where the bid is beyond it. -/
theorem guardedIocLimitPrice_sell (h : GuardInputs planned top mark deviation increment) :
    guardedIocLimitPrice .sell planned top mark deviation increment
      = .ok (if max planned (ceilTo increment (mark * (1 - deviation))) ≤ top then
          some (max planned (ceilTo increment (mark * (1 - deviation)))) else none) := by
  unfold guardedIocLimitPrice
  rw [raiseIf_neg h.valid]
  rfl

/-- A limit the guard gives. -/
structure Guarded (side : Side) (planned top mark deviation limit : ℚ) : Prop where
  notWeaker : Reaches side planned limit
  inBand : Reaches side (bandLimit side mark deviation) limit
  reaches : Reaches side limit top
  positive : 0 < limit

/-- The guard gives a limit exactly if the planned limit and the band both reach
the top of the book, which lies on a tick. -/
theorem guardedIocLimitPrice_spec {side : Side} (h : GuardInputs planned top mark deviation increment)
    (htop : OnGrid increment top) :
    ∃ r, guardedIocLimitPrice side planned top mark deviation increment = .ok r
      ∧ (r.isSome ↔ Reaches side planned top ∧ Reaches side (bandLimit side mark deviation) top)
      ∧ ∀ limit ∈ r, Guarded side planned top mark deviation limit := by
  cases side with
  | buy =>
      refine ⟨_, guardedIocLimitPrice_buy h, ?_, ?_⟩
      · -- Between the top and the band there is room for a tick.
        have hband : top ≤ floorTo increment (mark * (1 + deviation))
            ↔ top ≤ mark * (1 + deviation) := by
          constructor
          · intro hle
            exact hle.trans (floorTo_le h.increment_pos)
          · intro hle
            exact htop.le_floorTo h.increment_pos hle
        show _ ↔ top ≤ planned ∧ top ≤ mark * (1 + deviation)
        rw [← hband, ← le_min_iff]
        split <;> simp_all
      · intro limit hlimit
        split at hlimit
        · next hreach =>
            cases hlimit
            exact {
              notWeaker := min_le_left _ _
              inBand := (min_le_right _ _).trans (floorTo_le h.increment_pos)
              reaches := hreach
              positive := h.top_pos.trans_le hreach }
        · cases hlimit
  | sell =>
      refine ⟨_, guardedIocLimitPrice_sell h, ?_, ?_⟩
      · have hband : ceilTo increment (mark * (1 - deviation)) ≤ top
            ↔ mark * (1 - deviation) ≤ top := by
          constructor
          · intro hle
            exact (le_ceilTo h.increment_pos).trans hle
          · intro hle
            exact htop.ceilTo_le h.increment_pos hle
        show _ ↔ planned ≤ top ∧ mark * (1 - deviation) ≤ top
        rw [← hband, ← max_le_iff]
        split <;> simp_all
      · intro limit hlimit
        split at hlimit
        · next hreach =>
            cases hlimit
            exact {
              notWeaker := le_max_left _ _
              inBand := (le_ceilTo h.increment_pos).trans (le_max_right _ _)
              reaches := hreach
              positive := h.planned_pos.trans_le (le_max_left _ _) }
        · cases hlimit

end Guard

/-! ## §3. The submission. -/

namespace Ledger

variable {l : Ledger} {intentId : Nat} {price : ℚ}

theorem adjustLimit_of_reaches {perp : OrderLegRow} (hpos : 0 < price)
    (h : Reaches perp.side perp.limitPrice price) :
    adjustLimit perp (some price) = .ok { perp with
      limitPrice := price, quantity_pos := ⟨perp.quantity_pos.1, hpos⟩ } := by
  have hkept : ¬((perp.side = .buy ∧ perp.limitPrice < price)
      ∨ (perp.side = .sell ∧ price < perp.limitPrice)) := by
    rintro (⟨hside, hlt⟩ | ⟨hside, hlt⟩)
    · rw [hside] at h
      exact absurd h (not_le.mpr hlt)
    · rw [hside] at h
      exact absurd h (not_le.mpr hlt)
  unfold adjustLimit
  dsimp only
  rw [dif_neg (not_le.mpr hpos), if_neg hkept]

/-- A limit that is not weaker than the leg's makes no submission fail. -/
theorem prepareLiveSubmission_adjusted {e : Exc} (hpos : 0 < price)
    (hkept : ∀ spot perp, l.primaryLegs intentId = .ok (spot, perp) →
      Reaches perp.side perp.limitPrice price)
    (h : l.prepareLiveSubmission intentId (some price) = .error e) :
    l.prepareLiveSubmission intentId none = .error e := by
  unfold prepareLiveSubmission at h ⊢
  rw [raiseIf_neg (by simpa using hpos)] at h
  rw [raiseIf_neg (by simp)]
  cases hfind : Table.find? l.intents intentId with
  | none =>
      rw [hfind] at h
      cases h
  | some intent =>
      have hid : intent.id = intentId := (Table.find?_some hfind).2
      rw [hfind] at h
      dsimp only [bind, Except.bind] at h ⊢
      by_cases hpaper : intent.environment = .paper
      · rw [raiseIf_pos hpaper] at h ⊢
        exact h
      rw [raiseIf_neg hpaper] at h ⊢
      dsimp only at h ⊢
      cases hlegs : l.primaryLegs intent.id with
      | error e' =>
          rw [hlegs] at h
          exact h
      | ok legs =>
          obtain ⟨spot, perp⟩ := legs
          rw [hlegs] at h
          dsimp only at h ⊢
          split
          · next hstatus =>
              rw [if_pos hstatus] at h
              cases h
          · next hstatus =>
              rw [if_neg hstatus] at h
              split
              · next hcontrol =>
                  rw [if_pos hcontrol] at h
                  cases h
              · next hcontrol =>
                  rw [if_neg hcontrol] at h
                  by_cases hcreated : spot.status ≠ .created ∨ perp.status ≠ .created
                  · rw [raiseIf_pos hcreated] at h ⊢
                    exact h
                  rw [raiseIf_neg hcreated] at h ⊢
                  dsimp only at h ⊢
                  rw [adjustLimit_of_reaches hpos (hkept spot perp (hid ▸ hlegs))] at h
                  rw [show adjustLimit perp none = .ok perp from rfl]
                  dsimp only at h ⊢
                  -- The close is checked on the quantities, not on the limit.
                  generalize hcheck : l.checkClose intent spot perp = check
                  have hsame : l.checkClose intent spot { perp with
                      limitPrice := price
                      quantity_pos := ⟨perp.quantity_pos.1, hpos⟩ } = check := hcheck
                  rw [hsame] at h
                  cases check with
                  | error e' => exact h
                  | ok u => cases h

end Ledger

/-- The guard gives a limit exactly if the planned limit and the band both reach
the top of the book.  Its limit is not weaker than the planned one, lies in the
band and reaches the top; on the leg it was planned for, it makes no submission
fail. -/
theorem guarded_limit_sound {side : Side} {planned top mark deviation increment : ℚ}
    (h : GuardInputs planned top mark deviation increment) (htop : OnGrid increment top) :
    ∃ r, guardedIocLimitPrice side planned top mark deviation increment = .ok r
      ∧ (r.isSome ↔ Reaches side planned top ∧ Reaches side (bandLimit side mark deviation) top)
      ∧ ∀ limit ∈ r, Reaches side planned limit ∧ Reaches side (bandLimit side mark deviation) limit
        ∧ Reaches side limit top
        ∧ ∀ (l : Ledger) (spot perp : OrderLegRow) (intentId : Nat),
          l.primaryLegs intentId = .ok (spot, perp) → perp.side = side → perp.limitPrice = planned →
          (∃ leg, Ledger.adjustLimit perp (some limit) = .ok leg ∧ leg.limitPrice = limit)
            ∧ ∀ e, l.prepareLiveSubmission intentId (some limit) = .error e →
              l.prepareLiveSubmission intentId none = .error e := by
  obtain ⟨r, hr, hiff, hguarded⟩ := @guardedIocLimitPrice_spec _ _ _ _ _ side h htop
  refine ⟨r, hr, hiff, fun limit hlimit => ?_⟩
  have hg := hguarded limit hlimit
  refine ⟨hg.notWeaker, hg.inBand, hg.reaches, fun l spot perp intentId hlegs hside hplanned => ?_⟩
  have hkept : Reaches perp.side perp.limitPrice limit := by
    rw [hside, hplanned]
    exact hg.notWeaker
  refine ⟨⟨_, Ledger.adjustLimit_of_reaches hg.positive hkept, rfl⟩, fun e he => ?_⟩
  refine Ledger.prepareLiveSubmission_adjusted hg.positive (fun spot' perp' hlegs' => ?_) he
  obtain ⟨-, rfl⟩ := Prod.mk.inj (Except.ok.inj (hlegs.symm.trans hlegs'))
  exact hkept

/-- A buy planned up to `101.5` at a mark of `100`, a band of 2% and a tick of
`0.3`. -/
theorem guarded_limit_sound_buy :
    ∃ r, guardedIocLimitPrice .buy (203 / 2) 99 100 (1 / 50) (3 / 10) = .ok r
      ∧ (r.isSome ↔ Reaches .buy (203 / 2) 99 ∧ Reaches .buy (bandLimit .buy 100 (1 / 50)) 99)
      ∧ ∀ limit ∈ r, Reaches .buy (203 / 2) limit
        ∧ Reaches .buy (bandLimit .buy 100 (1 / 50)) limit ∧ Reaches .buy limit 99
        ∧ ∀ (l : Ledger) (spot perp : OrderLegRow) (intentId : Nat),
          l.primaryLegs intentId = .ok (spot, perp) → perp.side = .buy → perp.limitPrice = 203 / 2 →
          (∃ leg, Ledger.adjustLimit perp (some limit) = .ok leg ∧ leg.limitPrice = limit)
            ∧ ∀ e, l.prepareLiveSubmission intentId (some limit) = .error e →
              l.prepareLiveSubmission intentId none = .error e :=
  guarded_limit_sound (by constructor <;> norm_num) ⟨330, by norm_num⟩

end BasisHawk.Paired
