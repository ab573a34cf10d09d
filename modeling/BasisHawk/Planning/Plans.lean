/-
  BasisHawk.Planning.Plans
  ────────────────────────
  The rows `plan_live_open`, `plan_live_close`, `plan_paper_open` and
  `plan_paper_close` (`trading.py`) ask to be stored: one intent and its two
  legs.

  What one call of a planner draws for itself (identifiers and clock readings)
  is its `Draw`; everything else comes from the terms.

  Main results:
    • `primaryLegs_ids` — the identifiers of prepared rows are those drawn,
    • `prepareLiveOpen_spec` and its siblings — prepared rows are of the trade
      asked for, and their fingerprint does not depend on the draw.
-/
import BasisHawk.Planning.Preview

namespace BasisHawk.Planning

open Domain Lib
open Paired (PairedPositionRow TradeIntentRow OrderLegRow TradeAction plannedLeg
  primaryClientOrderId)

/-! ## §1. Rows. -/

/-- `TradeIntentRow` with the columns a planner compares. -/
structure TradeIntent extends TradeIntentRow where
  requestedNotional : ℚ
  requestFingerprint : String
  configVersion : String
  deriving DecidableEq

/-- `PairedPositionRow`; every writer leaves an open position a quantity. -/
structure Position extends PairedPositionRow where
  open_pos : status = .opened → 0 < quantity
  deriving DecidableEq

/-- The UUIDs and clock readings of one call.  `token` is the text of the
intent's id without dashes. -/
structure Draw where
  id : Nat
  spotLegId : Nat
  perpLegId : Nat
  token : String
  observedNow : Int
  nowValue : Int
  deriving DecidableEq

/-- An intent with its legs. -/
structure Prepared where
  intent : TradeIntent
  legs : List OrderLegRow
  deriving DecidableEq

/-- The two legs of a trade: an opening one buys spot, a closing one buys the
perpetual back. -/
def primaryLegs (d : Draw) (environment : ExchangeEnvironment) (exchange : Exchange)
    (action : TradeAction) (spotSymbol : String) (spotQuantity spotLimit : ℚ) (perpSymbol : String)
    (perpQuantity perpLimit perpMultiplier : ℚ) (hspot : 0 < spotQuantity ∧ 0 < spotLimit)
    (hperp : 0 < perpQuantity ∧ 0 < perpLimit) (hm : 0 < perpMultiplier) : List OrderLegRow :=
  let spotSide : Side := match action with
    | .opening => .buy
    | .closing => .sell
  [ plannedLeg d.spotLegId d.id .spot spotSide spotSymbol
      (primaryClientOrderId environment exchange d.token .spot) false spotQuantity spotLimit 1
      d.nowValue hspot OrderLegRow.unit_multiplier,
    plannedLeg d.perpLegId d.id .perp spotSide.flip perpSymbol
      (primaryClientOrderId environment exchange d.token .perp) (action = .closing) perpQuantity
      perpLimit perpMultiplier d.nowValue hperp hm ]

/-- The identifiers of prepared rows are those drawn. -/
structure Prepared.Rows (d : Draw) (key : String) (p : Prepared) : Prop where
  id : p.intent.id = d.id
  key : p.intent.idempotencyKey = key
  legIds : p.legs.map (·.id) = [d.spotLegId, d.perpLegId]
  legNames : p.legs.map (·.leg) = [.primary .spot, .primary .perp]
  legIntents : ∀ leg ∈ p.legs, leg.tradeIntentId = d.id
  clientOrderIds : p.legs.map (·.clientOrderId)
    = [primaryClientOrderId p.intent.environment p.intent.exchange d.token .spot,
       primaryClientOrderId p.intent.environment p.intent.exchange d.token .perp]

variable (sha256 : Digested → String)

/-! ## §2. Live trades. -/

/-- A limit price that a confirmed preview prescribes. -/
abbrev Limit : Type := { price : ℚ // 0 < price }

/-- The row asks for this live opening. -/
def OpenTerms.isSame (t : OpenTerms) (row : TradeIntent) : Prop :=
  row.environment = t.environment ∧ row.action = .opening ∧ row.exchange = t.opportunity.exchange
    ∧ row.baseAsset = t.opportunity.baseAsset ∧ row.requestedNotional = t.notionalUsdt
    ∧ (row.leverage : Int) = t.leverage ∧ row.spotBuyFeeInBase = t.spotBuyFeeInBase

instance (t : OpenTerms) (row : TradeIntent) : Decidable (t.isSame row) :=
  inferInstanceAs (Decidable (_ ∧ _ ∧ _ ∧ _ ∧ _ ∧ _ ∧ _))

/-- What `plan_live_open` stores for an accepted preview. -/
def liveOpenRows (t : OpenTerms) (key : String) (d : Draw) (p : LiveOpenPreview)
    (hp : p.Spec sha256 t d.observedNow) (spotLimit perpLimit : Limit) : Prepared where
  intent := {
    id := d.id
    token := d.token
    pairedPositionId := none
    idempotencyKey := key
    requestFingerprint := p.requestFingerprint
    exchange := t.opportunity.exchange
    environment := t.environment
    baseAsset := t.opportunity.baseAsset
    action := .opening
    emergency := false
    status := .planned
    failureCode := none
    leverage := t.leverage.toNat
    requestedNotional := t.notionalUsdt
    baseQuantity := p.baseQuantity
    spotFeeRate := (t.settings.fees t.opportunity.exchange).spotTaker
    perpFeeRate := (t.settings.fees t.opportunity.exchange).perpTaker
    spotBuyFeeInBase := t.spotBuyFeeInBase
    marketObservedAt := t.opportunity.observedAt
    configVersion := p.configVersion
    version := 1
    createdAt := d.nowValue
    leverage_check := by have := hp.leverage; omega
    emergency_check := TradeIntentRow.ordinary_opening }
  legs := primaryLegs d t.environment t.opportunity.exchange .opening t.pair.spotSymbol
    p.spotQuantity spotLimit.1 t.pair.perpSymbol p.perpQuantity perpLimit.1 p.perpBaseMultiplier
    ⟨hp.spot_pos.1, spotLimit.2⟩ ⟨hp.perp_pos.1, perpLimit.2⟩ hp.multiplier.2

/-- `plan_live_open` between its lookup and its insertion. -/
def prepareLiveOpen (t : OpenTerms) (key : String) (spotLimitPrice perpLimitPrice : Option Limit)
    (d : Draw) : Except Exc Prepared :=
  match h : previewLiveOpen sha256 t d.observedNow with
  | .error e => .error e
  | .ok p =>
      let hp := previewLiveOpen_spec sha256 h
      let spotLimit : Limit := spotLimitPrice.getD ⟨p.spotLimitPrice, hp.spot_pos.2⟩
      let perpLimit : Limit := perpLimitPrice.getD ⟨p.perpLimitPrice, hp.perp_pos.2⟩
      if spotLimit.1 < t.opportunity.spotAsk ∨ t.opportunity.perpBid < perpLimit.1 then
        .error (.value "market moved beyond preview slippage protection")
      else .ok (liveOpenRows sha256 t key d p hp spotLimit perpLimit)

/-- The row asks for this live closing. -/
def CloseTerms.isSame (t : CloseTerms) (row : TradeIntent) : Prop :=
  row.environment = t.environment ∧ row.action = .closing
    ∧ row.pairedPositionId = some t.positionId ∧ row.emergency = t.emergency

instance (t : CloseTerms) (row : TradeIntent) : Decidable (t.isSame row) :=
  inferInstanceAs (Decidable (_ ∧ _ ∧ _ ∧ _))

/-- What `plan_live_close` stores for an accepted preview. -/
def liveCloseRows (t : CloseTerms) (key : String) (position : PairedPositionRow)
    (opening : TradeIntentRow) (d : Draw) (p : LiveClosePreview)
    (hp : p.Spec sha256 t position opening) (spotLimit perpLimit : Limit) : Prepared where
  intent := {
    id := d.id
    token := d.token
    pairedPositionId := some t.positionId
    idempotencyKey := key
    requestFingerprint := p.requestFingerprint
    exchange := t.opportunity.exchange
    environment := t.environment
    baseAsset := t.opportunity.baseAsset
    action := .closing
    emergency := t.emergency
    status := .planned
    failureCode := none
    leverage := p.leverage
    requestedNotional := p.spotQuantity * spotLimit.1
    baseQuantity := p.baseQuantity
    spotFeeRate := (t.settings.fees t.opportunity.exchange).spotTaker
    perpFeeRate := (t.settings.fees t.opportunity.exchange).perpTaker
    spotBuyFeeInBase := false
    marketObservedAt := t.opportunity.observedAt
    configVersion := p.configVersion
    version := 1
    createdAt := d.nowValue
    leverage_check := hp.leverage ▸ opening.leverage_check
    emergency_check := fun _ => rfl }
  legs := primaryLegs d t.environment t.opportunity.exchange .closing t.pair.spotSymbol
    p.spotQuantity spotLimit.1 t.pair.perpSymbol p.perpQuantity perpLimit.1 p.perpBaseMultiplier
    ⟨hp.spot_pos.1, spotLimit.2⟩ ⟨hp.perp_pos.1, perpLimit.2⟩ hp.multiplier_pos

/-- `plan_live_close` between its reads and its insertion. -/
def prepareLiveClose (t : CloseTerms) (key : String) (spotLimitPrice perpLimitPrice : Option Limit)
    (position : PairedPositionRow) (opening : TradeIntentRow) (d : Draw) : Except Exc Prepared :=
  match h : previewLiveClose sha256 t position opening d.observedNow with
  | .error e => .error e
  | .ok p =>
      let hp := previewLiveClose_spec sha256 h
      let spotLimit : Limit := spotLimitPrice.getD ⟨p.spotLimitPrice, hp.spot_pos.2⟩
      let perpLimit : Limit := perpLimitPrice.getD ⟨p.perpLimitPrice, hp.perp_pos.2⟩
      if t.opportunity.spotBid < spotLimit.1 ∨ perpLimit.1 < t.opportunity.perpAsk then
        .error (.value "market moved beyond preview slippage protection")
      else .ok (liveCloseRows sha256 t key position opening d p hp spotLimit perpLimit)

/-! ## §3. Paper trades. -/

/-- What a paper opening is asked for with. -/
structure PaperOpenTerms where
  opportunity : Opportunity
  notionalUsdt : ℚ
  settings : ScannerSettings

/-- The row asks for this paper opening. -/
def PaperOpenTerms.isSame (t : PaperOpenTerms) (row : TradeIntent) : Prop :=
  row.environment = .paper ∧ row.action = .opening ∧ row.exchange = t.opportunity.exchange
    ∧ row.baseAsset = t.opportunity.baseAsset ∧ row.requestedNotional = t.notionalUsdt

instance (t : PaperOpenTerms) (row : TradeIntent) : Decidable (t.isSame row) :=
  inferInstanceAs (Decidable (_ ∧ _ ∧ _ ∧ _ ∧ _))

/-- `request_fingerprint` of a paper opening. -/
def PaperOpenTerms.fingerprint (t : PaperOpenTerms) : String :=
  let o := t.opportunity
  sha256 (.paperOpen o.exchange o.baseAsset t.notionalUsdt o.spotSymbol o.perpSymbol o.spotAsk
    o.perpBid o.observedAt (sha256 (.paperConfig t.settings)))

/-- What `plan_paper_open` checks after its lookup. -/
def checkPaperOpen (t : PaperOpenTerms) (now : Int) : Except Exc Unit := do
  raiseIf (t.opportunity.quality ≠ .healthy) (.value "only healthy opportunities can be planned")
  checkQuoteTime t.opportunity now
  raiseIf (t.notionalUsdt ≤ 0) (.value "notional must be positive")
  raiseIf (t.opportunity.topBookNotional < t.notionalUsdt)
    (.value "notional exceeds current top-book capacity")
  raiseIf (t.opportunity.spotAsk ≤ 0 ∨ t.opportunity.perpBid ≤ 0)
    (.value "market prices must be positive")

/-- A paper opening that passes its checks has a positive notional and positive
prices. -/
theorem checkPaperOpen_pos {t : PaperOpenTerms} {now : Int} (h : checkPaperOpen t now = .ok ()) :
    0 < t.notionalUsdt ∧ 0 < t.opportunity.spotAsk ∧ 0 < t.opportunity.perpBid := by
  simp only [checkPaperOpen, raiseIf_bind_eq_ok] at h
  obtain ⟨-, h⟩ := h
  obtain ⟨-, -, h⟩ := bind_eq_ok.mp h
  simp only [raiseIf_bind_eq_ok, raiseIf_eq_ok] at h
  obtain ⟨hn, -, hprices⟩ := h
  exact ⟨lt_of_not_ge hn, lt_of_not_ge fun hle => hprices (.inl hle),
    lt_of_not_ge fun hle => hprices (.inr hle)⟩

/-- `plan_paper_open` between its lookup and its insertion. -/
def preparePaperOpen (t : PaperOpenTerms) (key : String) (d : Draw) : Except Exc Prepared :=
  match h : checkPaperOpen t d.observedNow with
  | .error e => .error e
  | .ok () =>
      let o := t.opportunity
      let quantity := t.notionalUsdt / o.spotAsk
      let fees := t.settings.fees o.exchange
      have hpos := checkPaperOpen_pos h
      have hq : 0 < quantity := div_pos hpos.1 hpos.2.1
      .ok {
        intent := {
          id := d.id
          token := d.token
          pairedPositionId := none
          idempotencyKey := key
          requestFingerprint := t.fingerprint sha256
          exchange := o.exchange
          environment := .paper
          baseAsset := o.baseAsset
          action := .opening
          emergency := false
          status := .planned
          failureCode := none
          leverage := 1
          requestedNotional := t.notionalUsdt
          baseQuantity := quantity
          spotFeeRate := fees.spotTaker
          perpFeeRate := fees.perpTaker
          spotBuyFeeInBase := false
          marketObservedAt := o.observedAt
          configVersion := sha256 (.paperConfig t.settings)
          version := 1
          createdAt := d.nowValue
          leverage_check := TradeIntentRow.unlevered
          emergency_check := TradeIntentRow.ordinary_opening }
        legs := primaryLegs d .paper o.exchange .opening o.spotSymbol quantity o.spotAsk
          o.perpSymbol quantity o.perpBid 1 ⟨hq, hpos.2.1⟩ ⟨hq, hpos.2.2⟩
          OrderLegRow.unit_multiplier }

/-- What a paper closing is asked for with. -/
structure PaperCloseTerms where
  positionId : Nat
  opportunity : Opportunity
  settings : ScannerSettings

/-- The row asks for this paper closing. -/
def PaperCloseTerms.isSame (t : PaperCloseTerms) (row : TradeIntent) : Prop :=
  row.environment = .paper ∧ row.action = .closing ∧ row.pairedPositionId = some t.positionId

instance (t : PaperCloseTerms) (row : TradeIntent) : Decidable (t.isSame row) :=
  inferInstanceAs (Decidable (_ ∧ _ ∧ _))

/-- `request_fingerprint` of a paper closing. -/
def PaperCloseTerms.fingerprint (t : PaperCloseTerms) (position : PairedPositionRow) : String :=
  let o := t.opportunity
  sha256 (.paperClose position.id o.exchange o.baseAsset position.quantity o.spotBid o.perpAsk
    o.observedAt (sha256 (.paperConfig t.settings)))

/-- What `plan_paper_close` checks of the position. -/
def checkPaperClose (t : PaperCloseTerms) (position : Option Position) (now : Int) :
    Except Exc Position := do
  let position ← found position (.value "paired position was not found")
  raiseIf (position.environment ≠ .paper ∨ position.status ≠ .opened)
    (.value "paired position is not open for paper closing")
  raiseIf (position.exchange ≠ t.opportunity.exchange ∨ position.baseAsset ≠ t.opportunity.baseAsset)
    (.value "opportunity does not match paired position")
  raiseIf (t.opportunity.quality ≠ .healthy)
    (.value "only healthy opportunities can be closed normally")
  checkQuoteTime t.opportunity now
  checkCapacity t.opportunity position.toPairedPositionRow
  return position

/-- A paper closing that passes its checks closes a position that is there, and
at positive prices. -/
theorem checkPaperClose_spec {t : PaperCloseTerms} {read : Option Position} {now : Int}
    {position : Position} (h : checkPaperClose t read now = .ok position) :
    read = some position ∧ 0 < position.quantity
      ∧ 0 < t.opportunity.spotBid ∧ 0 < t.opportunity.perpAsk := by
  simp only [checkPaperClose, found_bind_eq_ok, raiseIf_bind_eq_ok] at h
  obtain ⟨row, hread, hstatus, -, -, h⟩ := h
  obtain ⟨_, -, h⟩ := bind_eq_ok.mp h
  obtain ⟨_, hcap, h⟩ := bind_eq_ok.mp h
  injection h with h
  subst h
  simp only [checkCapacity, raiseIf_bind_eq_ok] at hcap
  have hopen : row.status = .opened := by
    by_contra hne
    exact hstatus (.inr hne)
  exact ⟨hread, row.open_pos hopen, lt_of_not_ge fun hle => hcap.1 (.inl hle),
    lt_of_not_ge fun hle => hcap.1 (.inr hle)⟩

/-- `plan_paper_close` between its reads and its insertion. -/
def preparePaperClose (t : PaperCloseTerms) (key : String) (read : Option Position) (d : Draw) :
    Except Exc Prepared :=
  match h : checkPaperClose t read d.observedNow with
  | .error e => .error e
  | .ok position =>
      let o := t.opportunity
      let fees := t.settings.fees o.exchange
      have hpos := checkPaperClose_spec h
      .ok {
        intent := {
          id := d.id
          token := d.token
          pairedPositionId := some position.id
          idempotencyKey := key
          requestFingerprint := t.fingerprint sha256 position.toPairedPositionRow
          exchange := o.exchange
          environment := .paper
          baseAsset := o.baseAsset
          action := .closing
          emergency := false
          status := .planned
          failureCode := none
          leverage := 1
          requestedNotional := position.quantity * o.spotBid
          baseQuantity := position.quantity
          spotFeeRate := fees.spotTaker
          perpFeeRate := fees.perpTaker
          spotBuyFeeInBase := false
          marketObservedAt := o.observedAt
          configVersion := sha256 (.paperConfig t.settings)
          version := 1
          createdAt := d.nowValue
          leverage_check := TradeIntentRow.unlevered
          emergency_check := fun h => (by cases h) }
        legs := primaryLegs d .paper o.exchange .closing o.spotSymbol position.quantity o.spotBid
          o.perpSymbol position.quantity o.perpAsk 1 ⟨hpos.2.1, hpos.2.2.1⟩
          ⟨hpos.2.1, hpos.2.2.2⟩ OrderLegRow.unit_multiplier }

/-! ## §4. What is prepared. -/

/-- The rows of a plan carry the identifiers that were drawn for them. -/
theorem primaryLegs_ids {d : Draw} {environment : ExchangeEnvironment} {exchange : Exchange}
    {action : TradeAction} {spotSymbol perpSymbol : String}
    {spotQuantity spotLimit perpQuantity perpLimit perpMultiplier : ℚ}
    {hspot : 0 < spotQuantity ∧ 0 < spotLimit} {hperp : 0 < perpQuantity ∧ 0 < perpLimit}
    {hm : 0 < perpMultiplier} {intent : TradeIntent} {key : String} (hid : intent.id = d.id)
    (hkey : intent.idempotencyKey = key) (henv : intent.environment = environment)
    (hex : intent.exchange = exchange) :
    Prepared.Rows d key ⟨intent, primaryLegs d environment exchange action spotSymbol spotQuantity
      spotLimit perpSymbol perpQuantity perpLimit perpMultiplier hspot hperp hm⟩ where
  id := hid
  key := hkey
  legIds := rfl
  legNames := rfl
  legIntents := by
    intro leg hleg
    rcases List.mem_cons.mp hleg with rfl | hleg
    · rfl
    · rw [List.mem_singleton.mp hleg]
      rfl
  clientOrderIds := by
    rw [henv, hex]
    rfl

section Specs

variable {sha256} {key : String} {d : Draw} {p : Prepared}

/-- What a prepared live opening stores: drawn identifiers, the terms that were
asked for, and their fingerprint. -/
theorem prepareLiveOpen_spec {t : OpenTerms} {spotLimitPrice perpLimitPrice : Option Limit}
    (h : prepareLiveOpen sha256 t key spotLimitPrice perpLimitPrice d = .ok p) :
    p.Rows d key ∧ t.isSame p.intent ∧ p.intent.requestFingerprint = t.fingerprint sha256 := by
  unfold prepareLiveOpen at h
  split at h
  · cases h
  · next preview hpreview =>
      have hp := previewLiveOpen_spec sha256 hpreview
      dsimp only at h
      split at h
      · cases h
      · injection h with h
        subst h
        refine ⟨primaryLegs_ids rfl rfl rfl rfl, ⟨rfl, rfl, rfl, rfl, rfl, ?_, rfl⟩, hp.fingerprint⟩
        show ((t.leverage.toNat : Nat) : Int) = t.leverage
        have := hp.leverage
        omega

/-- What a prepared live closing stores; its fingerprint covers the position,
the rules and the configuration, and no quote. -/
theorem prepareLiveClose_spec {t : CloseTerms} {spotLimitPrice perpLimitPrice : Option Limit}
    {position : PairedPositionRow} {opening : TradeIntentRow}
    (h : prepareLiveClose sha256 t key spotLimitPrice perpLimitPrice position opening d = .ok p) :
    p.Rows d key ∧ t.isSame p.intent ∧ p.intent.exchange = t.opportunity.exchange
      ∧ p.intent.requestFingerprint = sha256 (.liveClose t.emergency position.id
        t.opportunity.exchange t.environment t.opportunity.baseAsset position.quantity
        (instrumentRulesPayload t.pair) (t.configVersion sha256)) := by
  unfold prepareLiveClose at h
  split at h
  · cases h
  · next preview hpreview =>
      have hp := previewLiveClose_spec sha256 hpreview
      dsimp only at h
      split at h
      · cases h
      · injection h with h
        subst h
        exact ⟨primaryLegs_ids rfl rfl rfl rfl, ⟨rfl, rfl, rfl, rfl⟩, rfl, hp.fingerprint⟩

/-- What a prepared paper opening stores; its fingerprint covers the quote. -/
theorem preparePaperOpen_spec {t : PaperOpenTerms} (h : preparePaperOpen sha256 t key d = .ok p) :
    p.Rows d key ∧ t.isSame p.intent ∧ p.intent.requestFingerprint = t.fingerprint sha256 := by
  unfold preparePaperOpen at h
  split at h
  · cases h
  · injection h with h
    subst h
    exact ⟨primaryLegs_ids rfl rfl rfl rfl, ⟨rfl, rfl, rfl, rfl, rfl⟩, rfl⟩

/-- What a prepared paper closing stores, for the position that it read. -/
theorem preparePaperClose_spec {t : PaperCloseTerms} {position : Position}
    (hid : position.id = t.positionId)
    (h : preparePaperClose sha256 t key (some position) d = .ok p) :
    p.Rows d key ∧ t.isSame p.intent ∧ p.intent.exchange = t.opportunity.exchange
      ∧ p.intent.requestFingerprint = t.fingerprint sha256 position.toPairedPositionRow := by
  unfold preparePaperClose at h
  split at h
  · cases h
  · next read hread =>
      have hsome := (checkPaperClose_spec hread).1
      injection hsome with hsome
      subst hsome
      injection h with h
      subst h
      exact ⟨primaryLegs_ids rfl rfl rfl rfl, ⟨rfl, rfl, congrArg some hid⟩, rfl, rfl⟩

/-- A live opening is refused with a `ValueError` and nothing else. -/
theorem prepareLiveOpen_raises {t : OpenTerms} {spotLimitPrice perpLimitPrice : Option Limit} :
    RaisesValue (prepareLiveOpen sha256 t key spotLimitPrice perpLimitPrice d) := by
  intro e h
  unfold prepareLiveOpen at h
  split at h
  · next e' hpreview =>
      cases h
      exact previewLiveOpen_raises e hpreview
  · dsimp only at h
    split at h
    · cases h
      rfl
    · cases h

/-- So is a live closing. -/
theorem prepareLiveClose_raises {t : CloseTerms} {spotLimitPrice perpLimitPrice : Option Limit}
    {position : PairedPositionRow} {opening : TradeIntentRow} :
    RaisesValue (prepareLiveClose sha256 t key spotLimitPrice perpLimitPrice position opening d) := by
  intro e h
  unfold prepareLiveClose at h
  split at h
  · next e' hpreview =>
      cases h
      exact previewLiveClose_raises e hpreview
  · dsimp only at h
    split at h
    · cases h
      rfl
    · cases h

/-- So is a paper opening. -/
theorem preparePaperOpen_raises {t : PaperOpenTerms} :
    RaisesValue (preparePaperOpen sha256 t key d) := by
  intro e h
  unfold preparePaperOpen at h
  split at h
  · next e' hcheck =>
      cases h
      exact RaisesValue.bind .raiseIf (fun _ => .bind checkQuoteTime_raises fun _ =>
        .bind .raiseIf fun _ => .bind .raiseIf fun _ => .raiseIf) e hcheck
  · cases h

/-- So is a paper closing. -/
theorem preparePaperClose_raises {t : PaperCloseTerms} {read : Option Position} :
    RaisesValue (preparePaperClose sha256 t key read d) := by
  intro e h
  unfold preparePaperClose at h
  split at h
  · next e' hcheck =>
      cases h
      exact RaisesValue.bind .found (fun _ => .bind .raiseIf fun _ => .bind .raiseIf fun _ =>
        .bind .raiseIf fun _ => .bind checkQuoteTime_raises fun _ =>
        .bind checkCapacity_raises fun _ => .pure) e hcheck
  · cases h

end Specs

end BasisHawk.Planning
