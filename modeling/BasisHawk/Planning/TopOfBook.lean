/-
  BasisHawk.Planning.TopOfBook
  ────────────────────────────
  Whether an accepted opening fits the top of both books (`trading.py`,
  `calculations.py`).

  The capacity of an opportunity is the smaller of what the best ask and the
  best perpetual bid are worth.  Both legs are sized with the ask price, so
  above it a bid is worth more than it can take.

  Main results:
    • `open_fits_spot` — the spot quantity never exceeds the best ask,
    • `open_fits_iff` — the perpetual quantity exceeds the best bid exactly
      from the next common increment above it on,
    • `open_exceeds_bid` — an opening of `1.1` against a bid for `1`.
-/
import BasisHawk.Planning.MinimumNotional
import BasisHawk.Market.Calculations

namespace BasisHawk.Planning

open Domain Lib
open Market (MarketQuote FundingObservation buildOpportunity)

/-! ## §1. The planned quantities. -/

section Fits

variable {sha256 : Digested → String} {t : OpenTerms} {now observed : Int} {p : LiveOpenPreview}
  {pair : InstrumentPair} {quote : MarketQuote} {current : FundingObservation}
  {history : List FundingObservation} {fee : FeeRate} {holdingDays : Nat} {o : Market.Opportunity}

/-- The notional of an accepted opening is within the capacity, and sized. -/
theorem previewLiveOpen_sized (h : previewLiveOpen sha256 t now = .ok p) :
    t.notionalUsdt ≤ t.opportunity.topBookNotional
      ∧ ∃ size, sizePairedOrder t.pair t.notionalUsdt t.opportunity.spotAsk t.opportunity.perpBid
          (if t.spotBuyFeeInBase then (t.settings.fees t.opportunity.exchange).spotTaker else 0)
          = .ok size
        ∧ p.spotQuantity = size.spotQuantity ∧ p.baseQuantity = size.baseQuantity := by
  simp only [previewLiveOpen, raiseIf_bind_eq_ok] at h
  obtain ⟨-, -, h⟩ := h
  obtain ⟨-, -, h⟩ := bind_eq_ok.mp h
  obtain ⟨-, -, h⟩ := bind_eq_ok.mp h
  simp only [raiseIf_bind_eq_ok] at h
  obtain ⟨-, h⟩ := h
  obtain ⟨-, -, h⟩ := bind_eq_ok.mp h
  simp only [raiseIf_bind_eq_ok] at h
  obtain ⟨-, hcapacity, h⟩ := h
  obtain ⟨size, hsize, h⟩ := bind_eq_ok.mp h
  obtain ⟨spotLimit, -, h⟩ := bind_eq_ok.mp h
  obtain ⟨perpLimit, -, h⟩ := bind_eq_ok.mp h
  injection h with h
  subst h
  exact ⟨not_lt.mp hcapacity, size, hsize, rfl, rfl⟩

/-- Without a fee in the base asset both legs are of one quantity on the common
grid. -/
theorem sizeOf_no_fee {q : InstrumentPair} {spotPrice perpPrice inc : ℚ}
    (hinc : decimalLcm q.spotQuantityIncrement (perpBaseQuantityIncrement q) = .ok inc)
    (hs : Sizable q spotPrice perpPrice 0) (v : ℚ) :
    (sizeOf q spotPrice perpPrice 0 inc (floorTo inc v)).baseQuantity = floorTo inc v := by
  have hgrid : OnGrid (perpBaseQuantityIncrement q) (floorTo inc v) :=
    (decimalLcm_onGrid (InstrumentPair.rules_pos hs.rules).2.1 hs.step_pos hinc).2.trans
      floorTo_onGrid
  show floorTo (perpBaseQuantityIncrement q) (floorTo inc v * (1 - 0)) = _
  rw [sub_zero, mul_one, hgrid.floorTo_eq hs.step_pos]

/-- What `build_opportunity` takes from the quote. -/
theorem buildOpportunity_prices
    (h : buildOpportunity pair quote current history fee holdingDays observed = .ok o) :
    o.spotAsk = quote.spotAsk ∧ o.perpBid = quote.perpBid
      ∧ o.topBookNotional = min (quote.spotAsk * quote.spotAskQty) (quote.perpBid * quote.perpBidQty) := by
  simp only [buildOpportunity, raiseIf_bind_eq_ok] at h
  obtain ⟨-, h⟩ := h
  obtain ⟨apr24h, -, h⟩ := bind_eq_ok.mp h
  obtain ⟨apr7d, -, h⟩ := bind_eq_ok.mp h
  obtain ⟨currentApr, -, h⟩ := bind_eq_ok.mp h
  injection h with h
  subst h
  exact ⟨rfl, rfl, rfl⟩

/-! ## §2. The top of the books. -/

/-- A quantity rounded down is over a bound exactly from the next increment
above the bound on. -/
theorem floorTo_le_iff {inc v w : ℚ} (hinc : 0 < inc) :
    floorTo inc v ≤ w ↔ v < floorTo inc w + inc := by
  have hnext : OnGrid inc (floorTo inc w + inc) := ⟨⌊w / inc⌋ + 1, by
    unfold floorTo
    push_cast
    ring⟩
  -- The next grid point above `w`.
  have hover : w < floorTo inc w + inc := by
    have := sub_floorTo_lt (v := w) hinc
    linarith
  constructor
  · intro hle
    by_contra hnot
    -- From there on the floor has reached it.
    have hreach := hnext.le_floorTo hinc (not_lt.mp hnot)
    linarith
  · intro hlt
    have hgrid : floorTo inc v < floorTo inc w + inc := (floorTo_le hinc).trans_lt hlt
    obtain ⟨n, hn⟩ : OnGrid inc (floorTo inc v) := floorTo_onGrid
    obtain ⟨k, hk⟩ : OnGrid inc (floorTo inc w) := floorTo_onGrid
    -- Below it the floors are multiples of `inc`, so they compare as whole numbers.
    have hnk : n ≤ k := by
      rw [hn, hk] at hgrid
      have hlt' : (n : ℚ) * inc < (k + 1 : ℤ) * inc := by
        push_cast
        linarith
      have := lt_of_mul_lt_mul_right hlt' hinc.le
      have : n < k + 1 := by exact_mod_cast this
      omega
    calc floorTo inc v = n * inc := hn
      _ ≤ k * inc := mul_le_mul_of_nonneg_right (by exact_mod_cast hnk) hinc.le
      _ = floorTo inc w := hk.symm
      _ ≤ w := floorTo_le hinc

/-- The quantities of an accepted opening without a fee in the base asset. -/
theorem open_quantities (h : previewLiveOpen sha256 t now = .ok p)
    (hfee : t.spotBuyFeeInBase = false) :
    0 < t.opportunity.spotAsk ∧ ∃ inc,
      decimalLcm t.pair.spotQuantityIncrement (perpBaseQuantityIncrement t.pair) = .ok inc
      ∧ p.spotQuantity = floorTo inc (t.notionalUsdt / t.opportunity.spotAsk)
      ∧ p.baseQuantity = floorTo inc (t.notionalUsdt / t.opportunity.spotAsk) := by
  obtain ⟨-, size, hsize, hspot, hbase⟩ := previewLiveOpen_sized h
  rw [hfee, if_neg (by decide)] at hsize
  obtain ⟨hsizable, inc, hinc, -, heq⟩ := sizePairedOrder_ok hsize
  refine ⟨hsizable.spotPrice, inc, hinc, ?_, ?_⟩
  · rw [hspot, heq]
    rfl
  · rw [hbase, heq]
    exact sizeOf_no_fee hinc hsizable _

/-- The spot quantity of an accepted opening never exceeds the best ask. -/
theorem open_fits_spot
    (hbuild : buildOpportunity pair quote current history fee holdingDays observed = .ok o)
    (ho : t.opportunity = o.planned) (hfee : t.spotBuyFeeInBase = false)
    (h : previewLiveOpen sha256 t now = .ok p) : p.spotQuantity ≤ quote.spotAskQty := by
  obtain ⟨hask, -, htop⟩ := buildOpportunity_prices hbuild
  obtain ⟨hpos, inc, hinc, hspot, -⟩ := open_quantities h hfee
  have hcapacity := (previewLiveOpen_sized h).1
  rw [hspot]
  refine (floorTo_le (decimalLcm_pos hinc)).trans ?_
  rw [div_le_iff₀ hpos]
  calc t.notionalUsdt ≤ o.topBookNotional := by rw [ho] at hcapacity; exact hcapacity
    _ ≤ quote.spotAsk * quote.spotAskQty := by rw [htop]; exact min_le_left _ _
    _ = quote.spotAskQty * t.opportunity.spotAsk := by rw [ho, mul_comm, ← hask]

/-- The notional stays below what the next common increment above the best bid
costs at the ask. -/
def BelowBid (t : OpenTerms) (quote : MarketQuote) : Prop :=
  ∀ inc, decimalLcm t.pair.spotQuantityIncrement (perpBaseQuantityIncrement t.pair) = .ok inc →
    t.notionalUsdt < quote.spotAsk * (floorTo inc quote.perpBidQty + inc)

/-- An accepted opening fits the top of both books exactly if its notional stays
below the next common increment above the best bid. -/
theorem open_fits_iff
    (hbuild : buildOpportunity pair quote current history fee holdingDays observed = .ok o)
    (ho : t.opportunity = o.planned) (hfee : t.spotBuyFeeInBase = false)
    (h : previewLiveOpen sha256 t now = .ok p) :
    (p.spotQuantity ≤ quote.spotAskQty ∧ p.baseQuantity ≤ quote.perpBidQty) ↔ BelowBid t quote := by
  obtain ⟨hask, -, -⟩ := buildOpportunity_prices hbuild
  obtain ⟨hpos, inc, hinc, -, hbase⟩ := open_quantities h hfee
  have hprice : t.opportunity.spotAsk = quote.spotAsk := by rw [ho, ← hask]
  have hiff : p.baseQuantity ≤ quote.perpBidQty
      ↔ t.notionalUsdt < quote.spotAsk * (floorTo inc quote.perpBidQty + inc) := by
    rw [hbase, floorTo_le_iff (decimalLcm_pos hinc), div_lt_iff₀ hpos, hprice, mul_comm]
  constructor
  · rintro ⟨-, hle⟩ inc' hinc'
    obtain rfl : inc = inc' := Except.ok.inj (hinc.symm.trans hinc')
    exact hiff.mp hle
  · intro hbelow
    exact ⟨open_fits_spot hbuild ho hfee h, hiff.mpr (hbelow inc hinc)⟩

/-- Up to the ask a bid is never worth more than it takes. -/
theorem belowBid_of_basis
    (hbuild : buildOpportunity pair quote current history fee holdingDays observed = .ok o)
    (ho : t.opportunity = o.planned) (h : previewLiveOpen sha256 t now = .ok p)
    (hqty : 0 ≤ quote.perpBidQty) (hbasis : quote.perpBid ≤ quote.spotAsk) : BelowBid t quote := by
  intro inc hinc
  obtain ⟨hask, -, htop⟩ := buildOpportunity_prices hbuild
  obtain ⟨hcapacity, size, hsize, -⟩ := previewLiveOpen_sized h
  have hpos : 0 < quote.spotAsk := by
    have := (sizePairedOrder_ok hsize).1.spotPrice
    rw [ho] at this
    exact hask ▸ this
  have hover : quote.perpBidQty < floorTo inc quote.perpBidQty + inc := by
    have := sub_floorTo_lt (v := quote.perpBidQty) (decimalLcm_pos hinc)
    linarith
  calc t.notionalUsdt ≤ o.topBookNotional := by rw [ho] at hcapacity; exact hcapacity
    _ ≤ quote.perpBid * quote.perpBidQty := by rw [htop]; exact min_le_right _ _
    _ ≤ quote.spotAsk * quote.perpBidQty := mul_le_mul_of_nonneg_right hbasis hqty
    _ < quote.spotAsk * (floorTo inc quote.perpBidQty + inc) := mul_lt_mul_of_pos_left hover hpos

end Fits

namespace Sample

def topPair : InstrumentPair where
  exchange := .binance
  baseAsset := "TOP"
  spotSymbol := "TOPUSDT"
  perpSymbol := "TOPUSDT"
  spotPriceIncrement := 1 / 100
  spotQuantityIncrement := 1 / 10
  spotMinQuantity := 1 / 10
  spotMinNotional := 5
  perpPriceIncrement := 1 / 10
  perpQuantityIncrement := 1 / 10
  perpMinQuantity := 1 / 10
  perpMinNotional := 5
  perpContractSize := 1

/-- Two coins offered at `100`, and one bid for at `bid`. -/
def topQuote (bid : ℚ) : MarketQuote where
  observedAt := Market.hours 144
  spotBid := 99
  spotBidQty := 2
  spotAsk := 100
  spotAskQty := 2
  perpBid := bid
  perpBidQty := 1
  perpAsk := bid + 1
  perpAskQty := 1
  spotQuoteVolume24h := 1000000
  perpQuoteVolume24h := 1000000

def topFunding (time : Int) : FundingObservation where
  rate := 1 / 10000
  fundingAt := time
  observedAt := Market.hours 144
  settled := true
  nextFundingAt := none
  intervalHours := 8

def topFees : FeeRate := ⟨1 / 1000, 1 / 2000⟩

/-- What `build_opportunity` makes of it. -/
def topOpportunity (bid : ℚ) : Market.Opportunity where
  exchange := .binance
  baseAsset := "TOP"
  observedAt := Market.hours 144
  spotBid := 99
  spotAsk := 100
  perpBid := bid
  perpAsk := bid + 1
  quality := .healthy
  spotSymbol := "TOPUSDT"
  perpSymbol := "TOPUSDT"
  topBookNotional := min 200 bid
  closeTopBookNotional := min 198 (bid + 1)
  executableBasis := bid / 100 - 1
  currentFundingRate := 1 / 10000
  fundingIntervalHours := 8
  nextFundingAt := none
  currentApr := 219 / 2000
  apr24h := some (219 / 2000)
  apr7d := some (1152631578947368421052631579 / 10 ^ 29)
  netReturn := some (-2052631578947368421052631579 / 10 ^ 30)
  spotQuoteVolume24h := 1000000
  perpQuoteVolume24h := 1000000
  spotTakerFee := 1 / 1000
  perpTakerFee := 1 / 2000
  spotAskNotional := 200
  perpBidNotional := bid

def topTerms (bid notional : ℚ) : OpenTerms where
  opportunity := (topOpportunity bid).planned
  pair := topPair
  notionalUsdt := notional
  settings := ⟨10, 0, 30, 90, fun _ => topFees, ""⟩
  environment := .live
  leverage := 1
  maximumSlippage := 1 / 1000
  spotBuyFeeInBase := false

/-- The preview of these terms, if it is accepted. -/
def topPreview (bid notional : ℚ) : Except Exc (ℚ × ℚ) :=
  (previewLiveOpen (fun _ => "") (topTerms bid notional) (Market.hours 144)).map
    fun p => (p.spotQuantity, p.baseQuantity)

theorem build_topOpportunity :
    buildOpportunity topPair (topQuote 110) (topFunding (Market.hours 144))
      [topFunding 0, topFunding (Market.hours 144)] topFees 30 (Market.hours 144)
      = .ok (topOpportunity 110) := by
  decide +kernel

end Sample

/-- At a bid of `110` against an ask of `100` the capacity is what the bid is
worth, and both legs are sized to `1.1` while the bid takes `1`. -/
theorem open_exceeds_bid :
    buildOpportunity Sample.topPair (Sample.topQuote 110) (Sample.topFunding (Market.hours 144))
        [Sample.topFunding 0, Sample.topFunding (Market.hours 144)] Sample.topFees 30
        (Market.hours 144) = .ok (Sample.topOpportunity 110)
      ∧ Sample.topPreview 110 110 = .ok (11 / 10, 11 / 10)
      ∧ (Sample.topQuote 110).perpBidQty = 1 :=
  ⟨Sample.build_topOpportunity, by decide +kernel, rfl⟩

theorem open_fits_below :
    ∃ p, previewLiveOpen (fun _ => "") (Sample.topTerms 110 105) (Market.hours 144) = .ok p
      ∧ ((p.spotQuantity ≤ (Sample.topQuote 110).spotAskQty
          ∧ p.baseQuantity ≤ (Sample.topQuote 110).perpBidQty)
        ↔ BelowBid (Sample.topTerms 110 105) (Sample.topQuote 110)) := by
  have hsome : (Sample.topPreview 110 105).isOk = true := by decide +kernel
  cases hp : previewLiveOpen (fun _ => "") (Sample.topTerms 110 105) (Market.hours 144) with
  | error e =>
      unfold Sample.topPreview at hsome
      rw [hp] at hsome
      exact absurd hsome Bool.false_ne_true
  | ok p => exact ⟨p, rfl, open_fits_iff Sample.build_topOpportunity rfl rfl hp⟩

end BasisHawk.Planning
