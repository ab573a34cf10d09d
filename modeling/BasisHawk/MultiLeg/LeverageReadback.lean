/-
  BasisHawk.MultiLeg.LeverageReadback
  ───────────────────────────────────
  Which position slot a leverage confirmation speaks for.

  The adapters were written for short hedges: outside one-way mode they read
  the leverage of the short side.  A multi-leg order may trade either side.

  Main results:
    • `readback_covers_traded_side` — when the worker passes an order on, the
      exchange has the leg's leverage and margin mode on the traded side, and
      the confirmation was taken there, exactly for short orders and, outside
      MEXC, in one-way mode,
    • `configuration_covers_traded_side` — the prior configurations under which
      the traded side ends up right,
    • `readback_misses_long_side` — a buy at leverage 3 on a long side that
      stands at 5.
-/
import BasisHawk.Accounts.PerpExchange
import BasisHawk.MultiLeg.Worker

namespace BasisHawk.MultiLeg

open Domain Lib Accounts PerpExchange

/-! ## §1. The worker before one exchange. -/

/-- The adapters the results are about. -/
def Sided (exchange : Exchange) : Prop :=
  exchange = .okx ∨ exchange = .bybit ∨ exchange = .gate ∨ exchange = .mexc

instance : DecidablePred Sided := fun e =>
  inferInstanceAs (Decidable (e = .okx ∨ e = .bybit ∨ e = .gate ∨ e = .mexc))

/-- `configure_perp` of an adapter ends with this result before this exchange.
Only OKX takes a margin mode, isolated unless given. -/
def Configures (exchange : Exchange) (symbol : String) (leverage : Nat)
    (positionMode : PositionMode) (margin : Option PerpMarginMode) (v : PerpExchange)
    (r : Except Exc PerpConfiguration) (v' : PerpExchange) : Prop :=
  match exchange with
  | .okx => (okxConfigurePerp symbol leverage positionMode (margin.getD .isolated)).run okxServe v
      = (r, v')
  | .bybit => ∃ fuel, (bybitConfigurePerp fuel symbol leverage positionMode).run bybitServe v
      = (r.map some, v')
  | .gate => (gateConfigurePerp symbol leverage positionMode).run gateServe v = (r, v')
  | .mexc => (mexcConfigurePerp symbol leverage positionMode).run mexcServe v = (r, v')
  | .binance | .bitget => v' = v

/-- A snapshot shows the position mode of the account; only `configure_perp`
changes the configuration. -/
def exchangeStep (exchange : Exchange) :
    (o : Op) → PerpExchange → Rep o → PerpExchange → Prop
  | .out (.configurePerp _ symbol leverage positionMode margin), v, r, v' =>
      Configures exchange symbol leverage positionMode margin v r v'
  | .out (.snapshot _), v, r, v' =>
      v' = v ∧ ∀ s : AccountSnapshot, r = .ok s → s.positionMode = v.positionMode
  | _, v, _, v' => v' = v

/-- The slot the position side of an order trades in. -/
def tradedSlot (exchange : Exchange) (positionMode : PositionMode) (side : PerpPositionSide) : Slot :=
  if positionMode = .hedge ∨ exchange = .mexc then
    match side with
    | .long => .long
    | .short => .short
  else .net

/-- The margin mode the exchange applies to a slot: on OKX and MEXC the one an
order names. -/
def marginAt (exchange : Exchange) (v : PerpExchange) (symbol : String) (slot : Slot)
    (named : PerpMarginMode) : PerpMarginMode :=
  match exchange with
  | .bybit => v.accountMargin
  | .gate => v.slotMargin symbol slot
  | _ => named

/-- The exchange has the leverage and the margin mode on a slot. -/
def Covers (exchange : Exchange) (v : PerpExchange) (symbol : String) (leverage : Nat)
    (margin : PerpMarginMode) (slot : Slot) : Prop :=
  marginAt exchange v symbol slot margin = margin ∧ v.lever symbol margin slot = leverage

/-- The slot whose row the adapter takes its confirmation from. -/
def ReadBack (exchange : Exchange) (positionMode : PositionMode) (slot : Slot) : Prop :=
  match exchange with
  | .okx => okxSide slot = okxTargetSide positionMode
  | .bybit => bybitIndex slot = bybitTargetIndex positionMode
  | .gate => gateMode slot = gateTargetMode positionMode
  | _ => mexcType slot = 2

/-- The slots the set-leverage request of an adapter names. -/
def setSlots (exchange : Exchange) (positionMode : PositionMode) (margin : PerpMarginMode) :
    List Slot :=
  match exchange with
  | .okx => if positionMode = .hedge then
        if margin = .isolated then [.short] else [.long, .short]
      else [.net]
  | .bybit => [.net, .long, .short]
  | .gate => [readSlot positionMode]
  | _ => [.short]

/-- Where the adapter reads. -/
def readingSlot (exchange : Exchange) (positionMode : PositionMode) : Slot :=
  if exchange = .mexc then .short else readSlot positionMode

/-! ## §2. What a configuration covers. -/

/-- A leverage order sets the slots that it names and leaves the others. -/
theorem setLever_lever (v : PerpExchange) (symbol : String) (margin : PerpMarginMode)
    (named : List Slot) (n : Nat) (k : Slot) :
    (v.setLever symbol margin named n).lever symbol margin k
      = if k ∈ named then n else v.lever symbol margin k := by
  show (if symbol = symbol ∧ margin = margin ∧ k ∈ named then n else _) = _
  by_cases hk : k ∈ named
  · rw [if_pos ⟨rfl, rfl, hk⟩, if_pos hk]
  · rw [if_neg (fun h => hk h.2.2), if_neg hk]

/-- So does a change of the margin mode. -/
theorem setSlotMargin_slotMargin (v : PerpExchange) (symbol : String) (margin : PerpMarginMode)
    (named : List Slot) (k : Slot) :
    (v.setSlotMargin symbol margin named).slotMargin symbol k
      = if k ∈ named then margin else v.slotMargin symbol k := by
  show (if symbol = symbol ∧ k ∈ named then margin else _) = _
  by_cases hk : k ∈ named
  · rw [if_pos ⟨rfl, hk⟩, if_pos hk]
  · rw [if_neg (fun h => hk h.2), if_neg hk]

/-- The position mode, and which slots are covered, after a configuration that
returned: the slot it reads, those that were, and, where it had to set a
leverage, those its request names. -/
structure Configured (exchange : Exchange) (symbol : String) (leverage : Nat)
    (margin : PerpMarginMode) (v v' : PerpExchange) : Prop where
  mode : v'.positionMode = v.positionMode
  covers : ∀ k, Covers exchange v' symbol leverage margin k ↔
    k = readingSlot exchange v.positionMode
      ∨ Covers exchange v symbol leverage margin k
      ∨ k ∈ setSlots exchange v.positionMode margin
        ∧ ¬Covers exchange v symbol leverage margin (readingSlot exchange v.positionMode)

section

variable {symbol : String} {leverage : Nat} {margin : PerpMarginMode} {v v' : PerpExchange}
  {cfg : PerpConfiguration}

/-- Where the exchange already has the leverage, the configuration changes
nothing and counts as done. -/
theorem configured_same {exchange : Exchange}
    (h : Covers exchange v symbol leverage margin (readingSlot exchange v.positionMode)) :
    Configured exchange symbol leverage margin v v where
  mode := rfl
  covers := fun k => by
    constructor
    · exact fun hk => .inr (.inl hk)
    · rintro (rfl | hk | ⟨-, hnot⟩)
      · exact h
      · exact hk
      · exact absurd h hnot

/-- What a configuration of OKX that succeeds guarantees: the slot that the
read-back looks at has the leverage. -/
theorem okx_covers
    (h : Configures .okx symbol leverage v.positionMode (some margin) v (.ok cfg) v') :
    Configured .okx symbol leverage margin v v' := by
  rcases okx_configured h with ⟨rfl, hlever⟩ | ⟨hlever, rfl⟩
  · exact configured_same ⟨rfl, hlever⟩
  · have hsets : ∀ k, k ∈ v.okxSets margin ↔ k ∈ setSlots .okx v.positionMode margin := by
      intro k
      unfold okxSets setSlots slots
      by_cases hm : v.positionMode = .hedge <;> by_cases hi : margin = .isolated <;> simp [hm, hi]
    have hreading : readingSlot .okx v.positionMode ∈ v.okxSets margin := by
      rw [hsets]
      unfold setSlots readingSlot readSlot
      by_cases hm : v.positionMode = .hedge <;> by_cases hi : margin = .isolated <;> simp [hm, hi]
    refine ⟨rfl, fun k => ?_⟩
    show (margin = margin ∧ (v.setLever symbol margin (v.okxSets margin) leverage).lever symbol
      margin k = leverage) ↔ _
    rw [setLever_lever]
    by_cases hk : k ∈ v.okxSets margin
    · rw [if_pos hk]
      exact ⟨fun _ => .inr (.inr ⟨(hsets k).mp hk, fun hc => hlever hc.2⟩), fun _ => ⟨rfl, rfl⟩⟩
    · rw [if_neg hk]
      constructor
      · exact fun hc => .inr (.inl hc)
      · rintro (rfl | hc | ⟨hset, -⟩)
        · exact absurd hreading hk
        · exact hc
        · exact absurd ((hsets k).mpr hset) hk

/-- The same for Bybit, which is always isolated. -/
theorem bybit_covers
    (h : Configures .bybit symbol leverage v.positionMode none v (.ok cfg) v') :
    Configured .bybit symbol leverage .isolated v v' := by
  obtain ⟨fuel, h⟩ := h
  rcases bybit_configured h with ⟨rfl, hiso, hlever⟩ | ⟨hnot, rfl⟩
  · exact configured_same ⟨hiso, hlever⟩
  · refine ⟨rfl, fun k => ?_⟩
    have hk : k ∈ [Slot.net, .long, .short] := by cases k <;> simp
    constructor
    · exact fun _ => .inr (.inr ⟨hk, hnot⟩)
    · intro _
      refine ⟨rfl, ?_⟩
      rw [setLever_lever, if_pos hk]

/-- The same for Gate. -/
theorem gate_covers
    (h : Configures .gate symbol leverage v.positionMode none v (.ok cfg) v') :
    cfg.isolated = true ∧ Configured .gate symbol leverage .isolated v v' := by
  obtain ⟨hcfg, hcases⟩ := gate_configured h
  refine ⟨hcfg, ?_⟩
  rcases hcases with ⟨rfl, hiso, hlever⟩ | rfl
  · exact configured_same ⟨hiso, hlever⟩
  · refine ⟨rfl, fun k => ?_⟩
    show ((v.setSlotMargin symbol .isolated [readSlot v.positionMode]).slotMargin symbol k = .isolated
      ∧ ((v.setSlotMargin symbol .isolated [readSlot v.positionMode]).setLever symbol .isolated
        [readSlot v.positionMode] leverage).lever symbol .isolated k = leverage) ↔ _
    rw [setLever_lever, setSlotMargin_slotMargin]
    by_cases hk : k = readSlot v.positionMode
    · rw [if_pos (by simp [hk]), if_pos (by simp [hk])]
      exact ⟨fun _ => .inl hk, fun _ => ⟨rfl, rfl⟩⟩
    · rw [if_neg (by simpa using hk), if_neg (by simpa using hk)]
      constructor
      · exact fun hc => .inr (.inl hc)
      · rintro (hr | hc | ⟨hset, -⟩)
        · exact absurd hr hk
        · exact hc
        · exact absurd (List.mem_singleton.mp hset) hk

/-- The same for MEXC, whose read-back looks at the short direction. -/
theorem mexc_covers
    (h : Configures .mexc symbol leverage v.positionMode none v (.ok cfg) v') :
    Configured .mexc symbol leverage .isolated v v' := by
  rcases mexc_configured h with ⟨rfl, hlever⟩ | rfl
  · exact configured_same ⟨rfl, hlever⟩
  · refine ⟨rfl, fun k => ?_⟩
    show (PerpMarginMode.isolated = .isolated
      ∧ (v.setLever symbol .isolated [.short] leverage).lever symbol .isolated k = leverage) ↔ _
    rw [setLever_lever]
    by_cases hk : k = .short
    · rw [if_pos (by simp [hk])]
      exact ⟨fun _ => .inl hk, fun _ => ⟨rfl, rfl⟩⟩
    · rw [if_neg (by simpa using hk)]
      constructor
      · exact fun hc => .inr (.inl hc)
      · rintro (hr | hc | ⟨hset, -⟩)
        · exact absurd hr hk
        · exact hc
        · exact absurd (List.mem_singleton.mp hset) hk

end

/-! ## §3. An order on its way out. -/

theorem ask_leads {exchange : Exchange} {o : OutOp} {a : o.Answer} {v u : PerpExchange}
    (h : Prog.Leads (exchangeStep exchange) (ask o) v (.done (.ok a)) u) :
    exchangeStep exchange (.out o) v (.ok a) u := by
  cases h with
  | step he hl =>
      cases hl
      exact he

theorem pyEval_leads {α : Type} {exchange : Exchange} {r : Except Exc α} {a : α}
    {v u : PerpExchange}
    (h : Prog.Leads (exchangeStep exchange) (pyEval r) v (.done (.ok a)) u) :
    r = .ok a ∧ u = v := by
  cases h
  exact ⟨rfl, rfl⟩

/-- A confirmed configuration is the one that was asked for. -/
theorem confirmPerp_leads {client : Client} {leg : ExecutionTaskLegRow}
    {snapshot : AccountSnapshot} {margin : PerpMarginMode} {v v' : PerpExchange}
    (hex : Sided leg.exchange) (hmode : snapshot.positionMode = v.positionMode)
    (h : Prog.Leads (exchangeStep leg.exchange) (confirmPerp client leg snapshot margin) v
      (.done (.ok ())) v') :
    v.positionMode ≠ .unknown
      ∧ Configured leg.exchange leg.symbol leg.leverage margin v v' := by
  unfold confirmPerp at h
  split at h
  · cases h
  next hunknown =>
  rw [hmode] at hunknown
  refine ⟨hunknown, ?_⟩
  dsimp only at h
  split at h
  · cases h
  split at h
  · cases h
  next hcross =>
  obtain ⟨cfg, u, hask, h⟩ := h.bind_ok
  have hconf := ask_leads hask
  split at h
  · cases h
  next hconfirmed =>
  cases h
  unfold exchangeStep at hconf
  rw [hmode] at hconf
  rcases hex with he | he | he | he
  · rw [he] at hconf ⊢
    have hasked : Configures .okx leg.symbol leg.leverage v.positionMode (some margin) v (.ok cfg)
        v' := by
      unfold Configures at hconf ⊢
      cases margin <;> simpa using hconf
    exact okx_covers hasked
  · -- Bybit only gets here with isolated margin.
    have hiso : margin = .isolated := by
      cases margin with
      | isolated => rfl
      | cross => exact absurd ⟨rfl, by simp [he], by simp [he], by simp [he]⟩ hcross
    rw [hiso, he] at hconf ⊢
    exact bybit_covers hconf
  · -- Gate confirms isolated margin, whatever was asked for.
    rw [he] at hconf ⊢
    have hnone : (if (Exchange.gate = .binance ∨ Exchange.gate = .okx) ∧ margin = .cross then
        some margin else none) = none := if_neg (by simp)
    rw [hnone] at hconf
    obtain ⟨hcfg, hcovers⟩ := gate_covers hconf
    have hiso : margin = .isolated := by
      by_contra hne
      exact hconfirmed (.inl (by simp [hcfg, hne]))
    rw [hiso]
    exact hcovers
  · have hiso : margin = .isolated := by
      cases margin with
      | isolated => rfl
      | cross => exact absurd ⟨rfl, by simp [he], by simp [he], by simp [he]⟩ hcross
    rw [hiso, he] at hconf ⊢
    exact mexc_covers hconf

/-- Confirming a configuration places no order. -/
theorem confirmPerp_places (client c : Client) (leg : ExecutionTaskLegRow)
    (snapshot : AccountSnapshot) (margin : PerpMarginMode) (request : PrivateOrderRequest) :
    (confirmPerp client leg snapshot margin).Ensures (· ≠ .out (.placeOrder c request))
      fun _ => True := by
  unfold confirmPerp
  split
  · trivial
  · dsimp only
    split
    · trivial
    · split
      · trivial
      · refine ⟨by simp, fun r => ?_⟩
        cases r with
        | error e => trivial
        | ok cfg =>
            show Prog.Ensures _ _ (if _ then _ else _)
            split <;> trivial

/-- Sending an order places the request it was given, before it does anything
else. -/
theorem sendOrder_leads {exchange : Exchange} {client c : Client} {order : ExecutionOrderRow}
    {built request : PrivateOrderRequest} {v v' : PerpExchange}
    {k : Rep (.out (.placeOrder c request)) → Worker Unit}
    (h : Prog.Leads (exchangeStep exchange) (sendOrder client order built) v
      (.call (.out (.placeOrder c request)) k) v') :
    request = built ∧ v' = v := by
  unfold sendOrder at h
  rcases h.resume with ⟨o, k', hl, hq⟩ | ⟨r, u, -, hl⟩
  · cases hl with
    | refl =>
        injection hq with ho
        injection ho with ho
        injection ho with hc hrequest
        exact ⟨hrequest, rfl⟩
    | step _ hl => cases hl
  · have hmark : ∀ o : DbOp, Prog.Ensures (· ≠ Op.out (.placeOrder c request)) (fun _ => True)
        (do let _ ← perform o; return () : Worker Unit) := by
      intro o
      refine ⟨by simp, fun r => ?_⟩
      cases r <;> trivial
    cases r with
    | ok submission => exact absurd rfl ((hmark _).leads_call hl)
    | error e =>
        dsimp only at hl
        split at hl
        · exact absurd rfl ((hmark _).leads_call hl)
        · cases hl

/-- Sending an order is the one call that places it. -/
theorem sendOrder_calls (client : Client) (order : ExecutionOrderRow)
    (request : PrivateOrderRequest) :
    ∃ k, sendOrder client order request = .call (.out (.placeOrder client request)) k :=
  ⟨_, rfl⟩

/-- What an order on its way out has gone through. -/
theorem submitOrder_leads {client c : Client} {leg : ExecutionTaskLegRow}
    {order : ExecutionOrderRow} {request : PrivateOrderRequest} {v v' : PerpExchange}
    {k : Rep (.out (.placeOrder c request)) → Worker Unit}
    (hex : Sided leg.exchange) (hperp : leg.marketType = .perpetual)
    (h : Prog.Leads (exchangeStep leg.exchange) (submitOrder client leg order) v
      (.call (.out (.placeOrder c request)) k) v') :
    v.positionMode ≠ .unknown
      ∧ request.positionSide = some (positionSide order.side order.reduceOnly)
      ∧ request.marginMode = requestedMargin leg
      ∧ Configured leg.exchange leg.symbol leg.leverage (requestedMargin leg) v v' := by
  unfold submitOrder at h
  -- The snapshot, which knows the position mode.
  obtain ⟨snapshot, u, hsnap, h₁⟩ := h.after ⟨by simp, fun _ => trivial⟩
  obtain ⟨hu, hmode⟩ := ask_leads hsnap
  have hmode := hmode snapshot rfl
  subst hu
  -- A permission that the exchange does not deny.
  obtain ⟨_, u, hperm, h₂⟩ := h₁.after trivial
  obtain ⟨-, hu⟩ := pyEval_leads hperm
  subst hu
  -- No inventory is checked for a perpetual.
  have hinventory : checkInventory client leg order = pure () := by
    unfold checkInventory
    rw [if_neg (by simp [hperp])]
  rw [hinventory] at h₂
  obtain ⟨_, u, hinv, h₃⟩ := h₂.after trivial
  cases hinv
  have hmarket : checkMarket client leg snapshot
      = confirmPerp client leg snapshot (requestedMargin leg) := by
    unfold checkMarket
    rw [hperp]
  rw [hmarket] at h₃
  -- The configuration, confirmed by what was read back.
  obtain ⟨_, w, hconf, h₄⟩ := h₃.after (confirmPerp_places ..)
  obtain ⟨hunknown, hconfigured⟩ := confirmPerp_leads hex hmode hconf
  -- The request, which is valid, and is sent as it is.
  obtain ⟨built, u, hbuilt, h₅⟩ := h₄.after trivial
  obtain ⟨hvalid, hu⟩ := pyEval_leads hbuilt
  subst hu
  obtain ⟨hrequest, -⟩ := PrivateOrderRequest.validate_ok hvalid
  obtain ⟨hsent, rfl⟩ := sendOrder_leads h₅
  rw [hsent, hrequest]
  refine ⟨hunknown, ?_, rfl, hconfigured⟩
  unfold requestFor
  rw [hperp]

/-- An order whose configuration is confirmed and whose request is valid is
passed on. -/
theorem submitOrder_passes {client : Client} {leg : ExecutionTaskLegRow}
    {order : ExecutionOrderRow} {snapshot : AccountSnapshot} {request : PrivateOrderRequest}
    {v v' : PerpExchange} {cfg : PerpConfiguration}
    (hperp : leg.marketType = .perpetual) (hmode : snapshot.positionMode = v.positionMode)
    (hknown : v.positionMode ≠ .unknown) (hperm : snapshot.tradePermission ≠ some false)
    (hmargin : requestedMargin leg = .isolated) (hisolated : snapshot.perpMarginMode = .isolated)
    (hconf : Configures leg.exchange leg.symbol leg.leverage v.positionMode none v (.ok cfg) v')
    (hcfg : cfg.isolated = true ∧ cfg.leverage = leg.leverage ∧ cfg.positionMode = v.positionMode)
    (hrequest : (requestFor leg order snapshot .isolated).validate = .ok request) :
    Prog.Leads (exchangeStep leg.exchange) (submitOrder client leg order) v
      (sendOrder client order request) v' := by
  -- The steps of the source one by one: the snapshot.
  refine .seq (u := v) (.step (r := .ok snapshot) ?_ .refl) ?_
  · exact ⟨rfl, fun s hs => by cases hs; exact hmode⟩
  -- The permission.
  refine .seq (a := ()) (u := v) ?_ ?_
  · unfold raiseIf
    rw [if_neg hperm]
    exact .refl
  -- The inventory, which is a matter of spot orders.
  refine .seq (a := ()) (u := v) ?_ ?_
  · unfold checkInventory
    rw [if_neg (by simp [hperp])]
    exact .refl
  -- The configuration and what is read back of it.
  refine .seq (a := ()) (u := v') ?_ ?_
  · unfold checkMarket confirmPerp
    rw [hperp, hmargin]
    dsimp only
    rw [if_neg (by rw [hmode]; exact hknown), if_neg (by simp [hisolated]), if_neg (by simp)]
    refine .seq (u := v') (.step (r := .ok cfg) ?_ .refl) ?_
    · show Configures _ _ _ _ _ _ _ _
      rw [hmode, if_neg (by simp)]
      exact hconf
    · rw [if_neg (by rw [hmode]; simp [hcfg])]
      exact .refl
  -- And the request.
  refine .seq (a := request) (u := v') ?_ .refl
  rw [hmargin, hrequest]
  exact .refl

/-! ## §4. The traded side. -/

/-- The slot an adapter reads is the one whose row it selects. -/
theorem readBack_iff {exchange : Exchange} (hex : Sided exchange) {positionMode : PositionMode}
    {slot : Slot} :
    ReadBack exchange positionMode slot ↔ slot = readingSlot exchange positionMode := by
  unfold ReadBack readingSlot readSlot
  rcases hex with rfl | rfl | rfl | rfl
  · unfold okxTargetSide
    cases positionMode <;> cases slot <;> simp [okxSide]
  · unfold bybitTargetIndex
    cases positionMode <;> cases slot <;> simp [bybitIndex]
  · unfold gateTargetMode
    cases positionMode <;> cases slot <;> simp [gateMode]
  · cases slot <;> simp [mexcType]

/-- An order trades in the slot its adapter reads if it is on the short side, or
where both sides share one slot. -/
theorem tradedSlot_eq_readingSlot {exchange : Exchange} {positionMode : PositionMode}
    (hmode : positionMode ≠ .unknown) {side : PerpPositionSide} :
    tradedSlot exchange positionMode side = readingSlot exchange positionMode
      ↔ side = .short ∨ positionMode = .oneWay ∧ exchange ≠ .mexc := by
  unfold tradedSlot readingSlot readSlot
  by_cases hx : exchange = .mexc
  · cases side <;> simp [hx]
  · cases positionMode <;> cases side <;> simp_all

/-- When an order is passed on, the exchange has the leverage and the margin mode
on the slot the order trades in, and the confirmation was taken from that slot,
exactly if the order is on the short side or, outside MEXC, the account is in
one-way mode. -/
theorem readback_covers_traded_side {client c : Client} {leg : ExecutionTaskLegRow}
    {order : ExecutionOrderRow} {request : PrivateOrderRequest} {v v' : PerpExchange}
    {k : Rep (.out (.placeOrder c request)) → Worker Unit}
    (hex : Sided leg.exchange) (hperp : leg.marketType = .perpetual)
    (h : Prog.Leads (exchangeStep leg.exchange) (submitOrder client leg order) v
      (.call (.out (.placeOrder c request)) k) v') :
    (∃ side ∈ request.positionSide,
        Covers leg.exchange v' leg.symbol leg.leverage request.marginMode
            (tradedSlot leg.exchange v'.positionMode side)
          ∧ ReadBack leg.exchange v'.positionMode
            (tradedSlot leg.exchange v'.positionMode side))
      ↔ positionSide order.side order.reduceOnly = .short
        ∨ v.positionMode = .oneWay ∧ leg.exchange ≠ .mexc := by
  obtain ⟨hunknown, hside, hmargin, hconfigured⟩ := submitOrder_leads hex hperp h
  rw [hside, hmargin, hconfigured.mode]
  rw [← tradedSlot_eq_readingSlot hunknown]
  constructor
  · rintro ⟨side, hs, -, hread⟩
    cases hs
    exact (readBack_iff hex).mp hread
  · intro htraded
    refine ⟨_, rfl, ?_, (readBack_iff hex).mpr htraded⟩
    rw [hconfigured.covers]
    exact .inl htraded

namespace Sample

/-- A perpetual leg on OKX at leverage 3. -/
def okxLeg : ExecutionTaskLegRow :=
  { hedge with
    exchange := .okx, side := .buy, symbol := "BTC-USDT-SWAP", leverage := 3
    margin_check := .inr ⟨rfl, rfl, by decide, by decide⟩ }

/-- One unit of it. -/
def okxOrder (side : Side) : ExecutionOrderRow where
  id := 0
  runId := 0
  taskLegId := 0
  parentOrderId := none
  attemptNumber := 1
  chaseNumber := 0
  clientOrderId := "bha"
  exchangeOrderId := none
  orderMode := .protectedIoc
  side := side
  reduceOnly := false
  purpose := .primary
  status := .created
  quantity := 1
  baseMultiplier := 1
  limitPrice := some 100
  filledQuantity := 0
  averagePrice := none
  submittedAt := none
  terminalAt := none
  createdAt := 0
  quantity_check := by decide
  filled_check := by decide

/-- A hedge-mode account with leverage 5 on the long side and 3 on the short. -/
def uneven : PerpExchange where
  positionMode := .hedge
  accountMargin := .isolated
  slotMargin := fun _ _ => .isolated
  lever := fun _ _ k => if k = .short then 3 else 5
  openOrders := []
  positions := []

def okxClient : Client := ⟨0, .okx, .live⟩

/-- The request of an order of the leg. -/
def okxRequest (side : Side) : PrivateOrderRequest :=
  requestFor okxLeg (okxOrder side) { snapshot with positionMode := .hedge } .isolated

/-- Before that account, an order of either side is passed on as it is. -/
theorem okx_passes (side : Side) :
    ∃ k, Prog.Leads (exchangeStep okxLeg.exchange) (submitOrder okxClient okxLeg (okxOrder side)) uneven
      (.call (.out (.placeOrder okxClient (okxRequest side))) k) uneven := by
  have hvalid : (okxRequest side).validate = .ok (okxRequest side) := by
    cases side <;> rfl
  have hconf : Configures .okx okxLeg.symbol okxLeg.leverage uneven.positionMode none uneven
      (.ok ⟨okxLeg.symbol, okxLeg.leverage, true, .hedge⟩) uneven :=
    okx_settled (by decide) (by decide) rfl
  obtain ⟨k, hk⟩ := sendOrder_calls okxClient (okxOrder side) (okxRequest side)
  refine ⟨k, hk ▸ ?_⟩
  exact submitOrder_passes rfl rfl (by decide) (by decide) rfl rfl hconf ⟨rfl, rfl, rfl⟩ hvalid

end Sample

/-- A short order on OKX in hedge mode: the read-back looks at the slot that is
traded. -/
theorem readback_covers_traded_side_short :
    ∃ side ∈ (Sample.okxRequest .sell).positionSide,
      Covers .okx Sample.uneven "BTC-USDT-SWAP" 3 .isolated (tradedSlot .okx .hedge side)
        ∧ ReadBack .okx .hedge (tradedSlot .okx .hedge side) := by
  obtain ⟨k, h⟩ := Sample.okx_passes .sell
  have hiff := readback_covers_traded_side (.inl rfl) rfl h
  exact hiff.mpr (.inl rfl)

/-- A buy at leverage 3 goes out on a long side that stands at 5: the short side,
which stood at 3, confirmed it. -/
theorem readback_misses_long_side :
    ¬∀ (client c : Client) (leg : ExecutionTaskLegRow) (order : ExecutionOrderRow)
      (request : PrivateOrderRequest) (v v' : PerpExchange)
      (k : Rep (.out (.placeOrder c request)) → Worker Unit),
      Sided leg.exchange → leg.marketType = .perpetual →
      Prog.Leads (exchangeStep leg.exchange) (submitOrder client leg order) v
        (.call (.out (.placeOrder c request)) k) v' →
      ∃ side ∈ request.positionSide,
        Covers leg.exchange v' leg.symbol leg.leverage request.marginMode
            (tradedSlot leg.exchange v'.positionMode side)
          ∧ ReadBack leg.exchange v'.positionMode
            (tradedSlot leg.exchange v'.positionMode side) := by
  intro hall
  obtain ⟨k, h⟩ := Sample.okx_passes .buy
  obtain ⟨side, hside, ⟨-, hlever⟩, -⟩ := hall _ _ _ _ _ _ _ k (.inl rfl) rfl h
  cases hside
  exact absurd hlever (by decide)

/-- When an order is passed on, the exchange has the leverage and the margin mode
on the slot the order trades in exactly if the adapter reads that slot, if the
slot had them before, or if the adapter had to set a leverage and its request
named the slot. -/
theorem configuration_covers_traded_side {client c : Client} {leg : ExecutionTaskLegRow}
    {order : ExecutionOrderRow} {request : PrivateOrderRequest} {v v' : PerpExchange}
    {k : Rep (.out (.placeOrder c request)) → Worker Unit}
    (hex : Sided leg.exchange) (hperp : leg.marketType = .perpetual)
    (h : Prog.Leads (exchangeStep leg.exchange) (submitOrder client leg order) v
      (.call (.out (.placeOrder c request)) k) v') :
    let slot := tradedSlot leg.exchange v.positionMode (positionSide order.side order.reduceOnly)
    let reading := readingSlot leg.exchange v.positionMode
    let margin := requestedMargin leg
    Covers leg.exchange v' leg.symbol leg.leverage margin slot ↔
      slot = reading ∨ Covers leg.exchange v leg.symbol leg.leverage margin slot
        ∨ slot ∈ setSlots leg.exchange v.positionMode margin
          ∧ ¬Covers leg.exchange v leg.symbol leg.leverage margin reading :=
  (submitOrder_leads hex hperp h).2.2.2.covers _

end BasisHawk.MultiLeg
