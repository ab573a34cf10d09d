/-
  BasisHawk.Planning.Reclosing
  ────────────────────────────
  Whether a position that was opened can be closed (`trading.py`).

  A closing is sized again, on the common grid of both legs, and has to come to
  the quantity of the position.  An opening without a base fee is on that grid;
  one with a fee is only on the grid of the perpetual, as is what a compensation
  leaves.

  Main results:
    • `reclose_iff` — an open position is accepted for closing exactly if its
      quantity is on the common grid and the perpetual price is worth a tick,
    • `sized_without_fee_aligned`, `aligned_of_spot_divides` — openings on it,
    • `reclose_misaligned` — an opening with a base fee that is not.
-/
import BasisHawk.Paired.Origins
import BasisHawk.Planning.FeeAware
import BasisHawk.Planning.TopOfBook

namespace BasisHawk.Planning

open Domain Lib
open Paired (TradeIntentRow OrderLegRow PairedPositionRow Ledger)

/-! ## §1. `preview_live_close`. -/

variable (sha256 : Digested → String)

/-- `preview_live_close` on the two-leg tables. -/
def previewClose (t : CloseTerms) (now : Int) (l : Ledger) : Except Exc LiveClosePreview := do
  checkCloseTerms t
  let position ← closablePosition t (Table.find? l.positions t.positionId)
  let opening ← openingOf t position
    ((Table.find? l.intents position.openingIntentId).map fun i => (i, l.legsOfIntent i.id))
  previewLiveClose sha256 t position opening now

/-- A closing of the position under these rules that nothing else speaks
against: accepted terms, healthy and fresh quotes, capacity for the position,
and the minima of both legs met. -/
structure FairClose (pair : InstrumentPair) (p : PairedPositionRow) (t : CloseTerms) (now : Int) :
    Prop where
  positionId : t.positionId = p.id
  samePair : t.pair = pair
  environment : t.environment = p.environment
  supported : ¬(t.environment = .sandbox ∧ t.opportunity.exchange = .mexc)
  slippage : 0 < t.maximumSlippage ∧ t.maximumSlippage ≤ if t.emergency then 1 / 4 else 1 / 10
  opportunity : t.opportunity.exchange = p.exchange ∧ t.opportunity.baseAsset = p.baseAsset
  rules : pair.exchange = t.opportunity.exchange ∧ pair.baseAsset = t.opportunity.baseAsset
    ∧ pair.spotSymbol = t.opportunity.spotSymbol ∧ pair.perpSymbol = t.opportunity.perpSymbol
  healthy : t.emergency = true ∨ t.opportunity.quality = .healthy
  fresh : t.opportunity.observedAt ≤ now + seconds 5 ∧ now - t.opportunity.observedAt ≤ seconds 15
  prices : 0 < t.opportunity.spotBid ∧ 0 < t.opportunity.perpAsk
  capacity : max (p.quantity * t.opportunity.spotBid) (p.quantity * t.opportunity.perpAsk)
    ≤ t.opportunity.closeTopBookNotional
  minima : Meets pair t.opportunity.spotBid t.opportunity.perpAsk 0 p.quantity p.quantity

/-- The trading rules still are those the perpetual leg was opened under. -/
def OpenedUnder (pair : InstrumentPair) (l : Ledger) (p : PairedPositionRow) : Prop :=
  ∀ o ∈ l.legs, o.tradeIntentId = p.openingIntentId ∧ o.leg = .primary .perp →
    o.symbol = pair.perpSymbol ∧ o.baseMultiplier = pair.perpContractSize

instance (pair : InstrumentPair) (l : Ledger) (p : PairedPositionRow) :
    Decidable (OpenedUnder pair l p) :=
  inferInstanceAs (Decidable (∀ o ∈ l.legs, _ → _))

/-- The quantity is a multiple of the common increment of both legs. -/
def Aligned (pair : InstrumentPair) (quantity : ℚ) : Prop :=
  ∃ inc, decimalLcm pair.spotQuantityIncrement (perpBaseQuantityIncrement pair) = .ok inc
    ∧ OnGrid inc quantity

/-- With the slippage, the perpetual price is worth a tick. -/
def WorthTick (pair : InstrumentPair) (t : CloseTerms) : Prop :=
  pair.perpPriceIncrement ≤ t.opportunity.perpAsk * (1 + t.maximumSlippage)

/-! ## §2. Limits. -/

section Limits

variable {reference slippage increment : ℚ}

/-- A sell limit is always a price. -/
theorem protectiveLimitPrice_sell_ok (hr : 0 < reference) (hi : 0 < increment)
    (hs : 0 ≤ slippage ∧ slippage < 1) :
    ∃ limit, protectiveLimitPrice reference slippage .sell increment = .ok limit := by
  have hpos : (0 : ℚ) < (⌈reference * (1 - slippage) / increment⌉ : ℤ) * increment := by
    have hfactor : 0 < 1 - slippage := by linarith [hs.2]
    exact mul_pos (Int.cast_pos.mpr (Int.ceil_pos.mpr (by positivity))) hi
  refine ⟨_, raiseIf_bind_eq_ok.mpr ⟨?_, raiseIf_bind_eq_ok.mpr ⟨?_,
    raiseIf_bind_eq_ok.mpr ⟨not_le.mpr hpos, rfl⟩⟩⟩⟩
  · rintro (hle | hle)
    · exact absurd hr (not_lt.mpr hle)
    · exact absurd hi (not_lt.mpr hle)
  · rintro (hlt | hle)
    · exact absurd hs.1 (not_le.mpr hlt)
    · exact absurd hs.2 (not_lt.mpr hle)

/-- A buy limit is one if the reference price, with the slippage, is worth a
tick. -/
theorem protectiveLimitPrice_buy_ok_iff (hr : 0 < reference) (hi : 0 < increment)
    (hs : 0 ≤ slippage ∧ slippage < 1) :
    (∃ limit, protectiveLimitPrice reference slippage .buy increment = .ok limit)
      ↔ increment ≤ reference * (1 + slippage) := by
  have hpos : (0 : ℚ) < (⌊reference * (1 + slippage) / increment⌋ : ℤ) * increment
      ↔ increment ≤ reference * (1 + slippage) := by
    rw [mul_pos_iff_of_pos_right hi, Int.cast_pos, Int.floor_pos, one_le_div hi]
  constructor
  · rintro ⟨limit, h⟩
    simp only [protectiveLimitPrice, raiseIf_bind_eq_ok] at h
    exact hpos.mp (not_le.mp h.2.2.1)
  · intro htick
    refine ⟨_, raiseIf_bind_eq_ok.mpr ⟨?_, raiseIf_bind_eq_ok.mpr ⟨?_,
      raiseIf_bind_eq_ok.mpr ⟨not_le.mpr (hpos.mpr htick), rfl⟩⟩⟩⟩
    · rintro (hle | hle)
      · exact absurd hr (not_lt.mpr hle)
      · exact absurd hi (not_lt.mpr hle)
    · rintro (hlt | hle)
      · exact absurd hs.1 (not_le.mpr hlt)
      · exact absurd hs.2 (not_lt.mpr hle)

end Limits

/-! ## §3. The common grid. -/

section Grid

variable {pair : InstrumentPair} {size : PairedOrderSize} {notional spotPrice perpPrice inc q : ℚ}

/-- What is sized without a fee is on the common grid. -/
theorem sized_without_fee_aligned
    (hsize : sizePairedOrder pair notional spotPrice perpPrice 0 = .ok size) :
    Aligned pair size.baseQuantity := by
  obtain ⟨hsizable, inc, hinc, -, rfl⟩ := sizePairedOrder_ok hsize
  rw [sizeOf_no_fee hinc hsizable]
  exact ⟨inc, hinc, floorTo_onGrid⟩

/-- Where the spot increment divides that of the perpetual, the perpetual's grid
is the common one. -/
theorem aligned_of_spot_divides (hrules : pair.tradingRulesComplete)
    (hinc : decimalLcm pair.spotQuantityIncrement (perpBaseQuantityIncrement pair) = .ok inc)
    (hdvd : OnGrid pair.spotQuantityIncrement (perpBaseQuantityIncrement pair))
    (hq : OnGrid (perpBaseQuantityIncrement pair) q) : Aligned pair q := by
  obtain ⟨-, hspot, -, hperp, hcontract⟩ := InstrumentPair.rules_pos hrules
  have hself : OnGrid (perpBaseQuantityIncrement pair) (perpBaseQuantityIncrement pair) :=
    ⟨1, by push_cast; ring⟩
  exact ⟨inc, hinc,
    (decimalLcm_least hspot (mul_pos hperp hcontract) hinc hdvd hself).trans hq⟩

/-- A quantity is sized to itself exactly if it is on the common grid. -/
theorem resized_iff (hrules : pair.tradingRulesComplete) (hprices : 0 < spotPrice ∧ 0 < perpPrice)
    (hm : Meets pair spotPrice perpPrice 0 q q) :
    (∃ size, sizePairedOrder pair (q * spotPrice) spotPrice perpPrice 0 = .ok size
        ∧ size.baseQuantity = q) ↔ Aligned pair q := by
  have hsizable : Sizable pair spotPrice perpPrice 0 :=
    ⟨hrules, hprices.1, hprices.2, le_rfl, zero_lt_one⟩
  obtain ⟨-, hspot, -, hperp, hcontract⟩ := InstrumentPair.rules_pos hrules
  constructor
  · rintro ⟨size, hsize, hbase⟩
    rw [← hbase]
    exact sized_without_fee_aligned hsize
  · rintro ⟨inc, hinc, hgrid⟩
    have hpos := decimalLcm_pos hinc
    have hbase : OnGrid (perpBaseQuantityIncrement pair) q :=
      (decimalLcm_onGrid hspot (mul_pos hperp hcontract) hinc).2.trans hgrid
    have hn : minimumBase pair spotPrice perpPrice 0 inc * spotPrice ≤ q * spotPrice :=
      mul_le_mul_of_nonneg_right (hm.minimumBase_le hsizable hpos hgrid hbase) hprices.1.le
    refine ⟨_, sizePairedOrder_eq hsizable hinc hn, ?_⟩
    rw [mul_div_cancel_right₀ _ hprices.1.ne', sizeOf_no_fee hinc hsizable, hgrid.floorTo_eq hpos]

end Grid

/-! ## §4. Acceptance. -/

section Acceptance

variable {sha256} {pair : InstrumentPair} {p : PairedPositionRow} {t : CloseTerms} {now : Int}

/-- The preview accepts a fair closing exactly on the common grid, at a price
worth a tick. -/
theorem previewLiveClose_ok_iff {opening : TradeIntentRow} (hrules : pair.tradingRulesComplete)
    (h : FairClose pair p t now) :
    (∃ preview, previewLiveClose sha256 t p opening now = .ok preview)
      ↔ Aligned pair p.quantity ∧ WorthTick pair t := by
  obtain ⟨hspotPrice, -, hperpPrice, -, -⟩ := InstrumentPair.rules_pos hrules
  have hslippage : 0 ≤ t.maximumSlippage ∧ t.maximumSlippage < 1 := by
    have hbound : (if t.emergency then (1 / 4 : ℚ) else 1 / 10) < 1 := by split <;> norm_num
    exact ⟨h.slippage.1.le, h.slippage.2.trans_lt hbound⟩
  constructor
  · rintro ⟨preview, hok⟩
    -- The checks of the preview up to the sizing, then the sizing and the limits.
    simp only [previewLiveClose, raiseIf_bind_eq_ok] at hok
    obtain ⟨-, hok⟩ := hok
    obtain ⟨-, -, hok⟩ := bind_eq_ok.mp hok
    obtain ⟨-, -, hok⟩ := bind_eq_ok.mp hok
    obtain ⟨size, hsize, hok⟩ := bind_eq_ok.mp hok
    rw [raiseIf_bind_eq_ok, not_not] at hok
    obtain ⟨hbase, hok⟩ := hok
    obtain ⟨spotLimit, -, hok⟩ := bind_eq_ok.mp hok
    obtain ⟨perpLimit, hperp, -⟩ := bind_eq_ok.mp hok
    rw [h.samePair] at hsize hperp
    exact ⟨(resized_iff hrules h.prices h.minima).mp ⟨size, hsize, hbase⟩,
      (protectiveLimitPrice_buy_ok_iff h.prices.2 hperpPrice hslippage).mp ⟨perpLimit, hperp⟩⟩
  · rintro ⟨hgrid, htick⟩
    obtain ⟨size, hsize, hbase⟩ := (resized_iff hrules h.prices h.minima).mpr hgrid
    obtain ⟨spotLimit, hspot⟩ := protectiveLimitPrice_sell_ok h.prices.1 hspotPrice hslippage
    obtain ⟨perpLimit, hperp⟩ :=
      (protectiveLimitPrice_buy_ok_iff h.prices.2 hperpPrice hslippage).mpr htick
    -- A fair closing passes the checks of the quote and of its capacity.
    have hquote : checkQuoteTime t.opportunity now = .ok () :=
      raiseIf_bind_eq_ok.mpr ⟨not_lt.mpr h.fresh.1, raiseIf_eq_ok.mpr (not_lt.mpr h.fresh.2)⟩
    have hcapacity : checkCapacity t.opportunity p = .ok () := by
      refine raiseIf_bind_eq_ok.mpr ⟨?_, raiseIf_eq_ok.mpr (not_lt.mpr h.capacity)⟩
      rintro (hle | hle)
      · exact absurd h.prices.1 (not_lt.mpr hle)
      · exact absurd h.prices.2 (not_lt.mpr hle)
    rw [← h.samePair] at hsize hspot hperp
    refine ⟨_, raiseIf_bind_eq_ok.mpr ⟨?_, bind_eq_ok.mpr ⟨(), hquote,
      bind_eq_ok.mpr ⟨(), hcapacity, bind_eq_ok.mpr ⟨size, hsize,
        raiseIf_bind_eq_ok.mpr ⟨not_not.mpr hbase, bind_eq_ok.mpr ⟨spotLimit, hspot,
          bind_eq_ok.mpr ⟨perpLimit, hperp, rfl⟩⟩⟩⟩⟩⟩⟩⟩
    -- An emergency may close at any quality, the rest is healthy.
    rintro ⟨hnormal, hquality⟩
    rcases h.healthy with hemergency | hhealthy
    · exact hnormal hemergency
    · exact hquality hhealthy

/-- In any state an open position is accepted for a closing that nothing else
speaks against exactly if its quantity is on the common grid and the perpetual
price is worth a tick. -/
theorem reclose_iff {b : Paired.Books} (hb : Paired.Reachable b) (hp : p ∈ b.ledger.positions)
    (hopen : p.status = .opened) (hrules : pair.tradingRulesComplete)
    (hsame : OpenedUnder pair b.ledger p) (h : FairClose pair p t now) :
    (∃ preview, previewClose sha256 t now b.ledger = .ok preview)
      ↔ Aligned pair p.quantity ∧ WorthTick pair t := by
  have hw := hb.wellFormed
  have hfree := (Paired.positions_reserved hb).opened_free p hp hopen
  obtain ⟨opening, hopening, hid, hexchange, henv, leg, hleg, hleg_intent, hname⟩ :=
    hb.opening p hp
  have hfound : Table.find? b.ledger.intents p.openingIntentId = some opening :=
    (Table.find?_eq_some_iff hw.intents_unique).mpr ⟨hopening, hid⟩
  -- The perpetual leg that is found, and its rules.
  obtain ⟨perp, hperp⟩ : ∃ perp,
      (b.ledger.legsOfIntent opening.id).find? (·.leg = .primary .perp) = some perp := by
    refine Option.isSome_iff_exists.mp (List.find?_isSome.mpr ⟨leg, ?_, ?_⟩)
    · exact Paired.mem_legsOfIntent.mpr ⟨hleg, hleg_intent⟩
    · exact decide_eq_true hname
  obtain ⟨hperp_mem, hperp_name⟩ := Paired.find?_leg hperp
  obtain ⟨hperp_mem, hperp_intent⟩ := Paired.mem_legsOfIntent.mp hperp_mem
  obtain ⟨hsymbol, hmultiplier⟩ := hsame perp hperp_mem ⟨hperp_intent.trans hid, hperp_name⟩
  have hterms : checkCloseTerms t = .ok () := by
    refine raiseIf_bind_eq_ok.mpr ⟨?_, raiseIf_eq_ok.mpr h.supported⟩
    rintro (hle | hlt)
    · exact absurd h.slippage.1 (not_lt.mpr hle)
    · exact absurd h.slippage.2 (not_le.mpr hlt)
  have hstored : Table.find? b.ledger.positions p.id = some p :=
    (Table.find?_eq_some_iff hw.positions_unique).mpr ⟨hp, rfl⟩
  have hposition : closablePosition t (Table.find? b.ledger.positions t.positionId) = .ok p := by
    have hrulesOk : checkRules t.opportunity t.pair = .ok () := by
      refine raiseIf_eq_ok.mpr ?_
      rw [h.samePair]
      rintro (hne | hne | hne | hne)
      · exact hne h.rules.1
      · exact hne h.rules.2.1
      · exact hne h.rules.2.2.1
      · exact hne h.rules.2.2.2
    rw [h.positionId, hstored]
    refine bind_eq_ok.mpr ⟨p, rfl, raiseIf_bind_eq_ok.mpr ⟨?_, raiseIf_bind_eq_ok.mpr ⟨?_,
      bind_eq_ok.mpr ⟨(), hrulesOk, rfl⟩⟩⟩⟩
    · rintro (hne | hne | hne)
      · exact hne h.environment.symm
      · exact hne hopen
      · exact hne hfree
    · rintro (hne | hne)
      · exact hne h.opportunity.1.symm
      · exact hne h.opportunity.2.symm
  have hopened : openingOf t p
      ((Table.find? b.ledger.intents p.openingIntentId).map
        fun i => (i, b.ledger.legsOfIntent i.id)) = .ok opening := by
    rw [hfound]
    refine bind_eq_ok.mpr ⟨(opening, b.ledger.legsOfIntent opening.id), rfl,
      bind_eq_ok.mpr ⟨perp, ?_, raiseIf_bind_eq_ok.mpr ⟨?_, rfl⟩⟩⟩
    · show found ((b.ledger.legsOfIntent opening.id).find? (·.leg = .primary .perp)) _ = _
      rw [hperp]
      rfl
    · rw [h.samePair]
      rintro (hne | hne | hne | hne)
      · exact hne hexchange
      · exact hne henv
      · exact hne hsymbol
      · exact hne hmultiplier
  rw [← @previewLiveClose_ok_iff sha256 pair p t now opening hrules h]
  unfold previewClose
  constructor
  · rintro ⟨preview, hok⟩
    obtain ⟨-, -, hok⟩ := bind_eq_ok.mp hok
    obtain ⟨position, hclosable, hok⟩ := bind_eq_ok.mp hok
    obtain rfl := Except.ok.inj (hposition.symm.trans hclosable)
    obtain ⟨i, hi, hok⟩ := bind_eq_ok.mp hok
    obtain rfl := Except.ok.inj (hopened.symm.trans hi)
    exact ⟨preview, hok⟩
  · rintro ⟨preview, hok⟩
    exact ⟨preview, bind_eq_ok.mpr ⟨(), hterms, bind_eq_ok.mpr ⟨p, hposition,
      bind_eq_ok.mpr ⟨opening, hopened, hok⟩⟩⟩⟩

end Acceptance

namespace Sample

/-- A normal closing of the pair at 100, with enough in both books. -/
def recloseTerms (positionId : Nat) : CloseTerms where
  positionId := positionId
  opportunity := {
    exchange := .binance
    baseAsset := "ABC"
    observedAt := 0
    spotBid := 100
    spotAsk := 101
    perpBid := 99
    perpAsk := 100
    quality := .healthy
    spotSymbol := "ABCUSDT"
    perpSymbol := "ABCUSDT"
    topBookNotional := 10000
    closeTopBookNotional := 10000 }
  pair := feePair
  settings := ⟨10, 0, 30, 90, fun _ => topFees, ""⟩
  environment := .live
  maximumSlippage := 1 / 1000
  emergency := false

/-- The position is open under the rules of the pair, with this quantity. -/
def IsOpen (l : Ledger) (quantity : ℚ) (p : PairedPositionRow) : Prop :=
  p.status = .opened ∧ p.quantity = quantity ∧ OpenedUnder feePair l p
    ∧ p.environment = .live ∧ p.exchange = .binance ∧ p.baseAsset = "ABC"

instance (l : Ledger) (quantity : ℚ) (p : PairedPositionRow) : Decidable (IsOpen l quantity p) :=
  inferInstanceAs (Decidable (_ ∧ _ ∧ _ ∧ _ ∧ _ ∧ _))

theorem IsOpen.fairClose {l : Ledger} {quantity : ℚ} {p : PairedPositionRow}
    (h : IsOpen l quantity p)
    (hcapacity : max (quantity * 100) (quantity * 100) ≤ 10000)
    (hminima : Meets feePair 100 100 0 quantity quantity) :
    FairClose feePair p (recloseTerms p.id) 0 := by
  obtain ⟨-, rfl, -, henv, hexchange, hbase⟩ := h
  exact {
    positionId := rfl
    samePair := rfl
    environment := henv.symm
    supported := fun h => by cases h.1
    slippage := (by decide +kernel : (0 : ℚ) < 1 / 1000 ∧ (1 / 1000 : ℚ) ≤ 1 / 10)
    opportunity := ⟨hexchange.symm, hbase.symm⟩
    rules := ⟨rfl, rfl, rfl, rfl⟩
    healthy := .inr rfl
    fresh := (by decide : (0 : Int) ≤ 0 + seconds 5 ∧ (0 : Int) - 0 ≤ seconds 15)
    prices := (by decide : (0 : ℚ) < 100 ∧ (0 : ℚ) < 100)
    capacity := hcapacity
    minima := hminima }

end Sample

/-- The pair of whole and tenth coins, opened with a base fee and filled, cannot
be closed: its quantity of 9.9 is sized down to 9. -/
theorem reclose_misaligned :
    sizePairedOrder Sample.feePair 1000 100 100 (1 / 1000) = .ok Sample.feeSize
      ∧ ∃ b, Paired.Reachable b ∧ ∃ p ∈ b.ledger.positions, p.status = .opened
        ∧ p.quantity = Sample.feeSize.baseQuantity ∧ OpenedUnder Sample.feePair b.ledger p
        ∧ FairClose Sample.feePair p (Sample.recloseTerms p.id) 0
        ∧ previewClose (fun _ => "") (Sample.recloseTerms p.id) 0 b.ledger
          = .error (.value "position quantity is no longer aligned to current trading rules") := by
  refine ⟨Sample.feeSize_eq, ?_⟩
  obtain ⟨b, hb, p, hp, hopen, herror⟩ := Paired.Books.exists_of_play
    (fun b => ∃ p ∈ b.ledger.positions, Sample.IsOpen b.ledger (99 / 10) p
      ∧ previewClose (fun _ => "") (Sample.recloseTerms p.id) 0 b.ledger
        = .error (.value "position quantity is no longer aligned to current trading rules"))
    (Sample.feeFills "USDT" ++ [(.settleOpen 0, 0)]) (by decide +kernel)
  have hfair : FairClose Sample.feePair p (Sample.recloseTerms p.id) 0 := by
    refine hopen.fairClose (by decide +kernel) ?_
    constructor <;> decide +kernel
  exact ⟨b, hb, p, hp, hopen.1, hopen.2.1, hopen.2.2.1, hfair, herror⟩

theorem reclose_whole_coins :
    ∃ b, Paired.Reachable b ∧ ∃ p ∈ b.ledger.positions,
      ((∃ preview, previewClose (fun _ => "") (Sample.recloseTerms p.id) 0 b.ledger = .ok preview)
        ↔ Aligned Sample.feePair p.quantity
          ∧ WorthTick Sample.feePair (Sample.recloseTerms p.id)) := by
  obtain ⟨b, hb, p, hp, hopen⟩ := Paired.Books.exists_of_play
    (fun b => ∃ p ∈ b.ledger.positions, Sample.IsOpen b.ledger 10 p)
    Paired.Sample.opened (by decide +kernel)
  have hfair : FairClose Sample.feePair p (Sample.recloseTerms p.id) 0 := by
    refine hopen.fairClose (by decide +kernel) ?_
    constructor <;> decide +kernel
  exact ⟨b, hb, p, hp, reclose_iff hb hp hopen.1 (by decide +kernel) hopen.2.2.1 hfair⟩

end BasisHawk.Planning
