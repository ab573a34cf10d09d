/-
  BasisHawk.Reconciliation.OrderEcho
  ──────────────────────────────────
  Whether an order comes back from the exchange as it was sent.

  An exchange that keeps an order shows the fields it was sent with, under its
  own names.  What a client reads out of them is held against the local leg,
  and an order that differs from its leg can no longer be reconciled.

  Main results:
    • `order_echo_iff` — an order comes back as it was, exactly unless Gate is
      sent more digits than a decimal context has, or a flag comes back as the
      text that was sent,
    • `order_rounded` — a quantity of 32 digits that Gate is sent rounded.
-/
import BasisHawk.Accounts.OrderWire
import BasisHawk.Reconciliation.Matching

namespace BasisHawk.Reconciliation

open Domain Lib Accounts Paired

/-! ## §1. Echoes. -/

/-- The fields of a request that make an order, with the names a parser reads
them under. -/
def echoedFields : Adapter → Market → List (String × List String)
  | .binance, _ =>
      [("symbol", ["symbol"]), ("side", ["side"]), ("quantity", ["origQty"]),
        ("newClientOrderId", ["clientOrderId"]), ("positionSide", ["positionSide"]),
        ("reduceOnly", ["reduceOnly"])]
  | .okx, _ =>
      [("instId", ["instId"]), ("side", ["side"]), ("sz", ["sz"]), ("clOrdId", ["clOrdId"]),
        ("posSide", ["posSide"]), ("reduceOnly", ["reduceOnly"])]
  | .bybit, _ =>
      [("symbol", ["symbol"]), ("side", ["side"]), ("qty", ["qty"]),
        ("orderLinkId", ["orderLinkId"]), ("reduceOnly", ["reduceOnly"])]
  | .bitget, _ =>
      [("symbol", ["symbol"]), ("side", ["side"]), ("size", ["size"]), ("clientOid", ["clientOid"]),
        ("tradeSide", ["tradeSide"]), ("reduceOnly", ["reduceOnly"])]
  | .bitgetUta, _ =>
      [("symbol", ["symbol"]), ("side", ["side"]), ("qty", ["qty"]), ("clientOid", ["clientOid"]),
        ("posSide", ["posSide"]), ("reduceOnly", ["reduceOnly"])]
  | .gate, .spot =>
      [("currency_pair", ["currency_pair"]), ("side", ["side"]), ("amount", ["amount"]),
        ("text", ["text"])]
  | .gate, .perp =>
      [("contract", ["contract"]), ("size", ["size"]), ("text", ["text"]),
        ("reduce_only", ["is_reduce_only", "reduce_only"])]
  | .mexc, .spot =>
      [("symbol", ["symbol"]), ("side", ["side"]), ("quantity", ["origQty"]),
        ("newClientOrderId", ["clientOrderId"])]
  | .mexc, .perp =>
      [("symbol", ["symbol"]), ("side", ["side"]), ("vol", ["vol"]), ("externalOid", ["externalOid"])]

/-- The numbers in an order object that are the exchange's own. -/
def ownNumbers : Adapter → Market → List (List String)
  | .binance, _ | .mexc, .spot => [["price"], ["executedQty"]]
  | .okx, _ => [["px", "avgPx"], ["px"], ["accFillSz"]]
  | .bybit, _ => [["price"], ["cumExecQty"]]
  | .bitget, _ => [["priceAvg", "price"], ["baseVolume", "filledQty"]]
  | .bitgetUta, _ => [["avgPrice", "price"], ["cumExecQty"]]
  | .gate, .spot => [["price"], ["filled_amount"]]
  | .gate, .perp => [["price"], ["left"]]
  | .mexc, .perp => [["price"], ["dealVol"]]

/-- The flag of the requests. -/
def isFlag (name : String) : Bool := name = "reduceOnly" ∨ name = "reduce_only"

/-- A value as it was sent; a flag that was sent as text may also come back as
the flag. -/
def SameField (name : String) (sent read : Json) : Prop :=
  read = sent ∨ (isFlag name ∧ ∃ b : Bool,
    sent = .str (if b then "true" else "false") ∧ read = .bool b)

/-- A field of the request, `null` where the request does not have it. -/
def sentField (sent : Fields) (name : String) : Json := (sent.lookup name).getD .null

/-- The type of instrument that OKX itself shows. -/
def instType : Market → String
  | .spot => "SPOT"
  | .perp => "SWAP"

/-- The order object of an exchange that echoes the fields of a request. -/
structure Echoes (a : Adapter) (market : Market) (sent : Fields) (item : Json) : Prop where
  /-- Every field stands under one of its names, and under no name does another
  value stand. -/
  echoed : ∀ f ∈ echoedFields a market,
    (∃ k ∈ f.2, ∃ v, item.get k = .ok v ∧ SameField f.1 (sentField sent f.1) v)
      ∧ ∀ k ∈ f.2, ∃ v, item.get k = .ok v ∧ (v = .null ∨ SameField f.1 (sentField sent f.1) v)
  own : ∀ keys ∈ ownNumbers a market, ∃ q, item.getNumber keys = .ok q
  typed : a = .okx → item.get "instType" = .ok (.str (instType market))

/-! ## §2. The condition. -/

/-- The order read back is the order. -/
structure ComesBack (o : Accounts.LimitIocOrder) (r : RemoteOrder) : Prop where
  market : r.market = o.market.name
  symbol : r.symbol = o.symbol
  side : r.side = o.side.name
  reduceOnly : r.reduceOnly = o.reduceOnly
  client : r.clientOrderId = some o.clientOrderId
  quantity : r.originalQuantity = o.quantity.value

/-- The local leg that an order is for. -/
structure LegOf (o : Accounts.LimitIocOrder) (leg : OrderLegRow) : Prop where
  market : leg.market = o.market
  symbol : leg.symbol = o.symbol
  side : leg.side = o.side
  reduceOnly : leg.reduceOnly = o.reduceOnly
  client : leg.clientOrderId = o.clientOrderId
  quantity : leg.quantity = o.quantity.value

/-- What the exchange itself says of the order is in order: it has an id, the
one the leg knows, and is filled within its quantity. -/
structure OwnFits (r : RemoteOrder) (leg : OrderLegRow) : Prop where
  id : r.exchangeOrderId ≠ ""
  linked : ∀ x ∈ leg.exchangeOrderId, x = r.exchangeOrderId
  filled : 0 ≤ r.filledQuantity ∧ r.filledQuantity ≤ r.originalQuantity

/-- The order comes back, its leg takes it, and it is not reported as another
order. -/
structure Reconcilable (o : Accounts.LimitIocOrder) (r : RemoteOrder) : Prop extends ComesBack o r where
  taken : ∀ leg, LegOf o leg → OwnFits r leg → Ledger.checkRemoteOrder leg r = .ok ()
  agrees : ∀ leg, LegOf o leg → leg.status.isActive → ¬contradicts r leg

/-- Gate is sent no more digits than the decimal context has, and Binance does
not show the flag as the text it was sent. -/
def EchoKept (a : Adapter) (o : Accounts.LimitIocOrder) (item : Json) : Prop :=
  (a = .gate → rounded o.quantity.value = o.quantity.value)
    ∧ ¬(a = .binance ∧ item.get "reduceOnly" = .ok (.str "false"))

/-- An order that comes back as it was reconciles. -/
theorem ComesBack.reconcilable {o : Accounts.LimitIocOrder} {r : RemoteOrder} (h : ComesBack o r) :
    Reconcilable o r := by
  have hquantity : ∀ leg, LegOf o leg → numericEqual r.originalQuantity leg.quantity = true := by
    intro leg hleg
    unfold numericEqual
    rw [h.quantity, hleg.quantity, sub_self, abs_zero]
    decide +kernel
  refine ⟨h, fun leg hleg hown => ?_, fun leg hleg hactive hnot => ?_⟩
  · -- The checks of `reconcile_remote_order`, in its order.
    simp only [Ledger.checkRemoteOrder, raiseIf_bind_eq_ok, raiseIf_eq_ok]
    refine ⟨hown.id, ?_, ?_, ?_, ?_, ?_, ?_, ?_⟩
    · rw [h.client, hleg.client]
      exact not_not.mpr rfl
    · rw [h.market, h.symbol, hleg.market, hleg.symbol]
      rintro (hne | hne) <;> exact hne rfl
    · rw [h.side, hleg.side]
      exact not_not.mpr rfl
    · exact not_not.mpr (hquantity leg hleg)
    · rintro (hneg | hover)
      · exact absurd hown.filled.1 (not_le.mpr hneg)
      · exact absurd hown.filled.2 (not_le.mpr hover)
    · rw [h.reduceOnly, hleg.reduceOnly]
      exact not_not.mpr rfl
    · rintro ⟨x, hx, hne⟩
      exact hne (hown.linked x hx)
  · -- None of the reasons to refuse an adoption applies.
    rcases hnot with hs | hs | hs | hs | hs | hs
    · rw [hactive] at hs
      cases hs
    · exact hs (by rw [h.market, hleg.market])
    · exact hs (by rw [h.symbol, hleg.symbol])
    · exact hs (by rw [h.side, hleg.side])
    · rw [hquantity leg hleg] at hs
      cases hs
    · exact hs (by rw [h.reduceOnly, hleg.reduceOnly])

/-! ## §3. Reading an order object. -/

/-- An order read back with this quantity and this flag, and otherwise as it
was. -/
structure ShownAs (o : Accounts.LimitIocOrder) (q : ℚ) (b : Bool) (r : RemoteOrder) : Prop where
  market : r.market = o.market.name
  symbol : r.symbol = o.symbol
  side : r.side = o.side.name
  client : r.clientOrderId = some o.clientOrderId
  quantity : r.originalQuantity = q
  reduceOnly : r.reduceOnly = b

/-- An order that is read back reconciles exactly where its quantity and its
flag come back as they were. -/
theorem ShownAs.reconcilable_iff {o : Accounts.LimitIocOrder} {q : ℚ} {b : Bool} {r : RemoteOrder}
    (h : ShownAs o q b r) : Reconcilable o r ↔ q = o.quantity.value ∧ b = o.reduceOnly := by
  constructor
  · intro hr
    exact ⟨h.quantity.symm.trans hr.quantity, h.reduceOnly.symm.trans hr.reduceOnly⟩
  · rintro ⟨hq, hb⟩
    exact ComesBack.reconcilable ⟨h.market, h.symbol, h.side, h.reduceOnly.trans hb, h.client,
      h.quantity.trans hq⟩

section Order

variable {o : Accounts.LimitIocOrder} {item : Json}

theorem symbol_ne : o.symbol ≠ "" := by
  intro h
  have := o.symbol_check.1
  rw [h] at this
  exact absurd this (by decide)

theorem client_ne : o.clientOrderId ≠ "" := by
  intro h
  have := o.client_check.1
  rw [h] at this
  exact absurd this (by decide)

/-- The plain fields of an order, under any names. -/
theorem readOrder_of {names : OrderNames} {symbol : String} {side : Json → Except Exc String}
    {reduceOnly : Json → Except Exc Bool} {q : ℚ} {b : Bool}
    (hclient : item.get names.clientId = .ok (.str o.clientOrderId))
    (hsymbol : item.get names.symbol = .ok (.str o.symbol))
    (hquantity : item.getNumber [names.quantity] = .ok q)
    (hprice : ∃ p, item.getNumber names.price = .ok p)
    (hfilled : ∃ f, item.getNumber names.filled = .ok f)
    (hside : side item = .ok o.side.name) (hflag : reduceOnly item = .ok b) :
    ∃ r, readOrder names o.market.name symbol side reduceOnly item = .ok r ∧ ShownAs o q b r := by
  obtain ⟨p, hp⟩ := hprice
  obtain ⟨f, hf⟩ := hfilled
  obtain ⟨id, hid⟩ := Json.get_of_get hclient names.orderId
  obtain ⟨status, hstatus⟩ := Json.getFirst_of_get hclient "" names.status
  refine ⟨⟨(id.orElse (.str "")).text, some o.clientOrderId, o.market.name, o.symbol, o.side.name,
    status, p, q, f, b⟩, ?_, ⟨rfl, rfl, rfl, rfl, rfl, rfl⟩⟩
  unfold readOrder
  rw [Json.getText_of_get hid, Json.getOptionalText_of_ne hclient client_ne,
    Json.getText_of_ne hsymbol symbol_ne, hside, hstatus, hp, hquantity, hf, hflag]
  rfl

end Order

/-! ## §4. What was sent. -/

/-- A limit order is sent as it is written. -/
theorem placeLimitIoc_sent {a : Adapter} {s : ClientState} {o : Accounts.LimitIocOrder}
    {sent : Fields} (h : placeLimitIoc a s o = .ok sent) : placeOrder a s o.written = .ok sent := by
  obtain ⟨_, _, h⟩ := bind_eq_ok.mp h
  exact h

/-- A side spelled with a capital, in lower case. -/
theorem titleSide_lower (side : Side) :
    String.ofList (pyLowerString (titleSide side).toList) = side.name := by
  cases side <;> decide

/-- A side spelled in capitals, in lower case. -/
theorem upperSide_lower (side : Side) :
    String.ofList (pyLowerString (upperSide side).toList) = side.name := by
  cases side <;> decide

/-- The name of a side is in lower case already. -/
theorem name_lower (side : Side) :
    String.ofList (pyLowerString side.name.toList) = side.name := by
  cases side <;> decide

section Sent

variable {a : Adapter} {s : ClientState} {o : Accounts.LimitIocOrder} {sent : Fields} {item : Json}

/-- A field that is not the flag is shown as it was sent. -/
theorem Echoes.field (he : Echoes a o.market sent item) (name key : String)
    (hmem : (name, [key]) ∈ echoedFields a o.market) (hflag : isFlag name = false) :
    item.get key = .ok (sentField sent name) := by
  obtain ⟨⟨k, hk, v, hv, hsame⟩, -⟩ := he.echoed _ hmem
  rw [List.mem_singleton.mp hk] at hv
  rcases hsame with rfl | ⟨hf, -⟩
  · exact hv
  · rw [hflag] at hf
    cases hf

/-- A flag that was not sent as text is shown as it was sent. -/
theorem Echoes.flag (he : Echoes a o.market sent item) (name key : String)
    (hmem : (name, [key]) ∈ echoedFields a o.market) (hsent : ∀ t, t = "true" ∨ t = "false" →
      sentField sent name ≠ .str t) : item.get key = .ok (sentField sent name) := by
  obtain ⟨⟨k, hk, v, hv, hsame⟩, -⟩ := he.echoed _ hmem
  rw [List.mem_singleton.mp hk] at hv
  rcases hsame with rfl | ⟨-, b, hb, -⟩
  · exact hv
  · cases b with
    | true => exact absurd hb (hsent _ (.inl rfl))
    | false => exact absurd hb (hsent _ (.inr rfl))

/-! ### The cases of an order. -/

/-- No spot order is reduce-only. -/
theorem spot_flag (h : o.market = .spot) : o.reduceOnly = false := by
  have hcheck := o.direction_check
  rw [h] at hcheck
  exact hcheck

/-- A perpetual order closes exactly where it buys. -/
theorem perp_flag (h : o.market = .perp) : o.reduceOnly = decide (o.side = .buy) := by
  have hcheck := o.direction_check
  rw [h] at hcheck
  cases hside : o.side with
  | buy => exact hcheck.2.2 hside
  | sell => exact hcheck.2.1 hside

/-- A perpetual order is placed in one of two position modes. -/
theorem perp_mode (h : o.market = .perp) : o.positionMode = .oneWay ∨ o.positionMode = .hedge := by
  have hcheck := o.direction_check
  rw [h] at hcheck
  cases hmode : o.positionMode with
  | oneWay => exact .inl rfl
  | hedge => exact .inr rfl
  | unknown => exact absurd hmode hcheck.1

/-! ### Binance. -/

/-- The fields of a Binance order that the reader takes up. -/
theorem binance_fields (h : binancePlaceOrder o.written = .ok sent) :
    sentField sent "symbol" = .str o.symbol ∧ sentField sent "side" = .str (upperSide o.side)
      ∧ sentField sent "quantity" = .str o.quantity.format
      ∧ sentField sent "newClientOrderId" = .str o.clientOrderId := by
  obtain ⟨-, h⟩ := raiseIf_bind_eq_ok.mp h
  cases h
  exact ⟨rfl, rfl, rfl, rfl⟩

/-- How Binance is told that a perpetual order closes. -/
theorem binance_closing (h : binancePlaceOrder o.written = .ok sent) (hm : o.market = .perp) :
    (o.positionMode = .oneWay → sentField sent "positionSide" = .str "BOTH"
        ∧ sentField sent "reduceOnly" = .str (if o.reduceOnly then "true" else "false"))
      ∧ (o.positionMode = .hedge → sentField sent "positionSide" = .str "SHORT"
        ∧ sentField sent "reduceOnly" = .null) := by
  obtain ⟨-, h⟩ := raiseIf_bind_eq_ok.mp h
  cases h
  unfold LimitIocOrder.written
  dsimp only
  constructor
  · intro hp
    rw [hp, hm]
    exact ⟨rfl, rfl⟩
  · intro hp
    rw [hp, hm]
    exact ⟨rfl, rfl⟩

theorem isUpper_of_str {k s : String} (word : String) (h : item.get k = .ok (.str s)) :
    item.isUpper k word = .ok (sameUpper s word) := by
  unfold Json.isUpper
  rw [Json.getText_of_str h]
  rfl

/-- In hedge mode Binance shows a closing order by the position's side. -/
theorem binanceReduceOnly_hedge {side : Side} (hflag : item.get "reduceOnly" = .ok .null)
    (hposition : item.get "positionSide" = .ok (.str "SHORT"))
    (hside : item.get "side" = .ok (.str (upperSide side))) :
    binanceReduceOnly item = .ok (decide (side = .buy)) := by
  unfold binanceReduceOnly
  rw [Json.getBool_of_get hflag, isUpper_of_str "SHORT" hposition, isUpper_of_str "BUY" hside]
  cases side <;> decide

/-- A spot order of Binance carries no flag. -/
theorem binance_spot (h : binancePlaceOrder o.written = .ok sent) (hm : o.market = .spot) :
    sentField sent "reduceOnly" = .null := by
  obtain ⟨-, h⟩ := raiseIf_bind_eq_ok.mp h
  cases h
  unfold LimitIocOrder.written
  dsimp only
  rw [hm]
  rfl

/-- In one-way mode there is nothing but the flag. -/
theorem binanceReduceOnly_oneWay {side : Side} {v : Json} (hflag : item.get "reduceOnly" = .ok v)
    (hposition : item.get "positionSide" = .ok (.str "BOTH"))
    (hside : item.get "side" = .ok (.str (upperSide side))) :
    binanceReduceOnly item = .ok v.truthy := by
  have hboth : sameUpper "BOTH" "SHORT" = false := by decide
  unfold binanceReduceOnly
  rw [Json.getBool_of_get hflag, isUpper_of_str "SHORT" hposition, isUpper_of_str "BUY" hside, hboth]
  cases v.truthy <;> rfl

/-- A flag that Binance is sent as text. -/
theorem truthy_of_sent {b : Bool} {v : Json}
    (h : SameField "reduceOnly" (.str (if b then "true" else "false")) v) :
    v.truthy = b ↔ v ≠ .str "false" := by
  rcases h with rfl | ⟨-, b', hb', rfl⟩
  · cases b <;> simp [Json.truthy]
  · have : b' = b := by cases b <;> cases b' <;> simp at hb' ⊢
    rw [this]
    simp [Json.truthy]

/-- The side that Binance shows is the one that was sent. -/
theorem binance_side (h : binancePlaceOrder o.written = .ok sent)
    (he : Echoes .binance o.market sent item) : item.get "side" = .ok (.str (upperSide o.side)) := by
  have hside := (binance_fields h).2.1
  exact hside ▸ he.field "side" "side" (by simp [echoedFields]) rfl

/-- The flag that Binance shows, and when it is the one of the order. -/
theorem binance_flag (h : binancePlaceOrder o.written = .ok sent)
    (he : Echoes .binance o.market sent item) : ∃ b,
      (match o.market with
        | .spot => .ok false
        | .perp => binanceReduceOnly item) = Except.ok b
      ∧ (b = o.reduceOnly ↔ item.get "reduceOnly" ≠ .ok (.str "false")) := by
  obtain ⟨⟨k, hk, v, hv, hsame⟩, -⟩ := he.echoed ("reduceOnly", ["reduceOnly"])
    (by simp [echoedFields])
  rw [List.mem_singleton.mp hk] at hv
  rw [hv]
  have hside := binance_side h he
  -- Where the flag was not sent, none is shown.
  have hnull : sentField sent "reduceOnly" = .null → v = .null := by
    intro hsent
    rw [hsent] at hsame
    rcases hsame with hsame | ⟨-, b, hb, -⟩
    · exact hsame
    · cases hb
  cases hm : o.market with
  | spot =>
      have hv : v = .null := hnull (binance_spot h hm)
      rw [hv]
      exact ⟨false, rfl, by simp [spot_flag hm]⟩
  | perp =>
      obtain ⟨honeWay, hhedge⟩ := binance_closing h hm
      have hposition := he.field "positionSide" "positionSide" (by simp [echoedFields]) rfl
      rcases perp_mode hm with hmode | hmode
      · obtain ⟨hboth, hflag⟩ := honeWay hmode
        rw [hboth] at hposition
        rw [hflag] at hsame
        refine ⟨v.truthy, binanceReduceOnly_oneWay hv hposition hside, ?_⟩
        rw [truthy_of_sent hsame]
        simp
      · obtain ⟨hshort, hflag⟩ := hhedge hmode
        rw [hshort] at hposition
        have hvnull := hnull hflag
        rw [hvnull] at hv ⊢
        exact ⟨_, binanceReduceOnly_hedge hv hposition hside, by simp [perp_flag hm]⟩

/-- Binance shows the order with the flag, unless the flag is a text. -/
theorem binance_echo (h : binancePlaceOrder o.written = .ok sent)
    (he : Echoes .binance o.market sent item) : ∃ r b, binanceOrder o.market item = .ok r
      ∧ ShownAs o o.quantity.value b r
      ∧ (b = o.reduceOnly ↔ item.get "reduceOnly" ≠ .ok (.str "false")) := by
  obtain ⟨hsymbol, -, hquantity, hclient⟩ := binance_fields h
  obtain ⟨b, hb, hiff⟩ := binance_flag h he
  have hread : ∃ r, binanceOrder o.market item = .ok r ∧ ShownAs o o.quantity.value b r := by
    refine readOrder_of
      (hclient ▸ he.field "newClientOrderId" "clientOrderId" (by simp [echoedFields]) rfl)
      (hsymbol ▸ he.field "symbol" "symbol" (by simp [echoedFields]) rfl)
      (Json.getNumber_of_text
        (hquantity ▸ he.field "quantity" "origQty" (by simp [echoedFields]) rfl)
        (Decimal.pyDecimal_format _))
      (he.own _ (by simp [ownNumbers, plainNames])) (he.own _ (by simp [ownNumbers, plainNames]))
      ?_ hb
    rw [Json.getLower_of_str (binance_side h he), upperSide_lower]
  obtain ⟨r, hr, hshown⟩ := hread
  exact ⟨r, b, hr, hshown, hiff⟩

/-! ### OKX. -/

/-- The fields of an OKX order that the reader takes up. -/
theorem okx_fields (h : okxPlaceOrder o.written = .ok sent) :
    sentField sent "instId" = .str o.symbol ∧ sentField sent "side" = .str o.side.name
      ∧ sentField sent "sz" = .str o.quantity.format
      ∧ sentField sent "clOrdId" = .str o.clientOrderId := by
  obtain ⟨-, h⟩ := raiseIf_bind_eq_ok.mp h
  cases h
  exact ⟨rfl, rfl, rfl, rfl⟩

/-- How OKX is told whether an order closes. -/
theorem okx_closing (h : okxPlaceOrder o.written = .ok sent) :
    (o.market = .spot → sentField sent "posSide" = .null ∧ sentField sent "reduceOnly" = .null)
      ∧ (o.market = .perp → o.positionMode = .oneWay → sentField sent "posSide" = .null
        ∧ sentField sent "reduceOnly" = .bool o.reduceOnly)
      ∧ (o.market = .perp → o.positionMode = .hedge → sentField sent "posSide" = .str "short"
        ∧ sentField sent "reduceOnly" = .null) := by
  obtain ⟨-, h⟩ := raiseIf_bind_eq_ok.mp h
  cases h
  unfold LimitIocOrder.written
  dsimp only
  refine ⟨fun hm => ?_, fun hm hp => ?_, fun hm hp => ?_⟩
  · rw [hm]
    exact ⟨rfl, rfl⟩
  · rw [hp, hm]
    exact ⟨rfl, rfl⟩
  · rw [hp, hm]
    exact ⟨rfl, rfl⟩

/-- The side that OKX shows is the one that was sent. -/
theorem okx_side (h : okxPlaceOrder o.written = .ok sent) (he : Echoes .okx o.market sent item) :
    item.getLower "side" = .ok o.side.name := by
  have hside : item.get "side" = .ok (.str o.side.name) := by
    rw [← (okx_fields h).2.1]
    exact he.field "side" "side" (by simp [echoedFields]) rfl
  rw [Json.getLower_of_str hside, name_lower]

/-- A flag of OKX, where the position has a side only in hedge mode. -/
theorem okxReduceOnly_oneWay {v : Json} (hv : v = .null ∨ ∃ b, v = .bool b) {side : String}
    (hflag : item.get "reduceOnly" = .ok v) (hposition : item.get "posSide" = .ok .null)
    (hside : item.getLower "side" = .ok side) : okxReduceOnly item = .ok v.truthy := by
  unfold okxReduceOnly
  rw [Json.getText_of_get hflag, Json.getLower_of_null hposition, hside]
  rcases hv with rfl | ⟨b, rfl⟩
  · rfl
  · cases b <;> rfl

/-- In hedge mode the flag is read off the side, as a buy of a short reduces it.
-/
theorem okxReduceOnly_hedge {side : Side} (hflag : item.get "reduceOnly" = .ok .null)
    (hposition : item.get "posSide" = .ok (.str "short"))
    (hside : item.getLower "side" = .ok side.name) :
    okxReduceOnly item = .ok (decide (side = .buy)) := by
  unfold okxReduceOnly
  rw [Json.getText_of_null _ hflag, Json.getLower_of_str hposition, hside]
  cases side <;> decide

/-- In either mode the flag of an OKX order is read back. -/
theorem okx_flag (h : okxPlaceOrder o.written = .ok sent) (he : Echoes .okx o.market sent item) :
    okxReduceOnly item = .ok o.reduceOnly := by
  obtain ⟨hspot, honeWay, hhedge⟩ := okx_closing h
  have hposition := he.field "posSide" "posSide" (by simp [echoedFields]) rfl
  have hside := okx_side h he
  have hflag : (∀ t, sentField sent "reduceOnly" ≠ .str t) →
      item.get "reduceOnly" = .ok (sentField sent "reduceOnly") := by
    intro hsent
    exact he.flag "reduceOnly" "reduceOnly" (by simp [echoedFields]) fun t _ => hsent t
  cases hm : o.market with
  | spot =>
      obtain ⟨hpos, hsent⟩ := hspot hm
      rw [hpos] at hposition
      rw [hsent] at hflag
      rw [okxReduceOnly_oneWay (.inl rfl) (hflag (by simp)) hposition hside, spot_flag hm]
      rfl
  | perp =>
      rcases perp_mode hm with hmode | hmode
      · obtain ⟨hpos, hsent⟩ := honeWay hm hmode
        rw [hpos] at hposition
        rw [hsent] at hflag
        rw [okxReduceOnly_oneWay (.inr ⟨_, rfl⟩) (hflag (by simp)) hposition hside]
        rfl
      · obtain ⟨hpos, hsent⟩ := hhedge hm hmode
        rw [hpos] at hposition
        rw [hsent] at hflag
        rw [okxReduceOnly_hedge (hflag (by simp)) hposition hside, perp_flag hm]

/-- What both lists of OKX show of an order. -/
theorem okx_echo (h : okxPlaceOrder o.written = .ok sent) (he : Echoes .okx o.market sent item)
    (symbol : String) {price : List String} (hprice : price = ["px", "avgPx"] ∨ price = ["px"]) :
    ∃ r, readOrder ⟨"ordId", "clOrdId", "instId", ["state"], price, "sz", ["accFillSz"]⟩
        o.market.name symbol (fun item => item.getLower "side") okxReduceOnly item = .ok r
      ∧ ShownAs o o.quantity.value o.reduceOnly r := by
  obtain ⟨hsymbol, -, hquantity, hclient⟩ := okx_fields h
  exact readOrder_of
    (hclient ▸ he.field "clOrdId" "clOrdId" (by simp [echoedFields]) rfl)
    (hsymbol ▸ he.field "instId" "instId" (by simp [echoedFields]) rfl)
    (Json.getNumber_of_text
      (hquantity ▸ he.field "sz" "sz" (by simp [echoedFields]) rfl)
      (Decimal.pyDecimal_format _))
    (he.own _ (by rcases hprice with rfl | rfl <;> simp [ownNumbers]))
    (he.own _ (by simp [ownNumbers])) (okx_side h he) (okx_flag h he)

theorem okxMarket_of (he : Echoes .okx o.market sent item) : okxMarket item = .ok o.market.name := by
  unfold okxMarket
  rw [he.typed rfl]
  cases o.market <;> rfl

/-! ### Bybit. -/

/-- The fields of a Bybit order that the reader takes up. -/
theorem bybit_fields (h : bybitPlaceOrder o.written = .ok sent) :
    sentField sent "symbol" = .str o.symbol ∧ sentField sent "side" = .str (titleSide o.side)
      ∧ sentField sent "qty" = .str o.quantity.format
      ∧ sentField sent "orderLinkId" = .str o.clientOrderId
      ∧ sentField sent "reduceOnly"
        = if o.market = .perp then .bool o.reduceOnly else .null := by
  obtain ⟨-, h⟩ := raiseIf_bind_eq_ok.mp h
  cases h
  refine ⟨rfl, rfl, rfl, rfl, ?_⟩
  unfold LimitIocOrder.written
  dsimp only
  cases o.market <;> rfl

/-- A Bybit order is read back as it was. -/
theorem bybit_echo (h : bybitPlaceOrder o.written = .ok sent)
    (he : Echoes .bybit o.market sent item) :
    ∃ r, bybitOrder o.market item = .ok r ∧ ShownAs o o.quantity.value o.reduceOnly r := by
  obtain ⟨hsymbol, hside, hquantity, hclient, hsent⟩ := bybit_fields h
  have hflag : item.get "reduceOnly" = .ok (sentField sent "reduceOnly") := by
    refine he.flag "reduceOnly" "reduceOnly" (by simp [echoedFields]) fun t _ => ?_
    rw [hsent]
    split <;> simp
  refine readOrder_of
    (hclient ▸ he.field "orderLinkId" "orderLinkId" (by simp [echoedFields]) rfl)
    (hsymbol ▸ he.field "symbol" "symbol" (by simp [echoedFields]) rfl)
    (Json.getNumber_of_text
      (hquantity ▸ he.field "qty" "qty" (by simp [echoedFields]) rfl)
      (Decimal.pyDecimal_format _))
    (he.own _ (by simp [ownNumbers])) (he.own _ (by simp [ownNumbers])) ?_ ?_
  · rw [Json.getLower_of_str (hside ▸ he.field "side" "side" (by simp [echoedFields]) rfl),
      titleSide_lower]
  · rw [Json.getBool_of_get hflag, hsent]
    cases hm : o.market with
    | spot => rw [spot_flag hm]; rfl
    | perp => rfl

/-! ### Bitget. -/

/-- The fields of a unified Bitget order that the reader takes up. -/
theorem bitgetUta_fields (h : bitgetUtaPlaceOrder o.written = .ok sent) :
    sentField sent "symbol" = .str o.symbol ∧ sentField sent "side" = .str o.side.name
      ∧ sentField sent "qty" = .str o.quantity.format
      ∧ sentField sent "clientOid" = .str o.clientOrderId := by
  obtain ⟨-, h⟩ := raiseIf_bind_eq_ok.mp h
  cases h
  exact ⟨rfl, rfl, rfl, rfl⟩

/-- How a UTA account is told that an order closes. -/
theorem bitgetUta_closing (h : bitgetUtaPlaceOrder o.written = .ok sent) :
    sentField sent "posSide" = (if o.market = .perp ∧ o.positionMode = .hedge then .str "short"
        else .null)
      ∧ sentField sent "reduceOnly" = (if o.market = .perp ∧ o.positionMode ≠ .hedge ∧ o.reduceOnly
        then .str "yes" else .null) := by
  obtain ⟨-, h⟩ := raiseIf_bind_eq_ok.mp h
  cases h
  unfold LimitIocOrder.written
  dsimp only
  cases o.market with
  | spot => exact ⟨rfl, rfl⟩
  | perp => cases o.positionMode <;> cases o.reduceOnly <;> exact ⟨rfl, rfl⟩

/-- The side that it shows is the one that was sent. -/
theorem bitgetUta_side (h : bitgetUtaPlaceOrder o.written = .ok sent)
    (he : Echoes .bitgetUta o.market sent item) : item.getLower "side" = .ok o.side.name := by
  have hside : item.get "side" = .ok (.str o.side.name) := by
    rw [← (bitgetUta_fields h).2.1]
    exact he.field "side" "side" (by simp [echoedFields]) rfl
  rw [Json.getLower_of_str hside, name_lower]

theorem yes_lower : String.ofList (pyLowerString "yes".toList) = "yes" := by decide

theorem short_lower : String.ofList (pyLowerString "short".toList) = "short" := by decide

/-- Its flag is read back in either mode. -/
theorem bitgetUta_flag (h : bitgetUtaPlaceOrder o.written = .ok sent)
    (he : Echoes .bitgetUta o.market sent item) :
    bitgetUtaReduceOnly o.market item = .ok o.reduceOnly := by
  obtain ⟨hpos, hsent⟩ := bitgetUta_closing h
  have hposition := he.field "posSide" "posSide" (by simp [echoedFields]) rfl
  have hflag : item.get "reduceOnly" = .ok (sentField sent "reduceOnly") := by
    refine he.flag "reduceOnly" "reduceOnly" (by simp [echoedFields]) fun t ht => ?_
    rw [hsent]
    rcases ht with rfl | rfl <;> split <;> simp
  rw [hpos] at hposition
  rw [hsent] at hflag
  unfold bitgetUtaReduceOnly
  rw [bitgetUta_side h he]
  -- A spot order has neither field, and is never reduce-only.
  cases hm : o.market with
  | spot =>
      rw [if_neg (by simp [hm])] at hposition hflag
      rw [Json.getLower_of_null hposition, Json.getLower_of_null hflag, spot_flag hm]
      rfl
  | perp =>
      -- In one-way mode the flag is sent as it is.
      rcases perp_mode hm with hmode | hmode
      · rw [if_neg (by simp [hmode])] at hposition
        rw [Json.getLower_of_null hposition]
        cases hr : o.reduceOnly with
        | true =>
            rw [if_pos ⟨hm, by simp [hmode], hr⟩] at hflag
            rw [Json.getLower_of_str hflag, yes_lower]
            rfl
        | false =>
            rw [if_neg (by simp [hr])] at hflag
            rw [Json.getLower_of_null hflag]
            rfl
      · -- In hedge mode the position side decides, with the side of the order.
        rw [if_pos ⟨hm, hmode⟩] at hposition
        rw [if_neg (by simp [hmode])] at hflag
        rw [Json.getLower_of_str hposition, Json.getLower_of_null hflag, short_lower, perp_flag hm]
        cases o.side <;> rfl

/-- A unified Bitget order is read back as it was. -/
theorem bitgetUta_echo (h : bitgetUtaPlaceOrder o.written = .ok sent)
    (he : Echoes .bitgetUta o.market sent item) :
    ∃ r, bitgetUtaOrder o.market item = .ok r ∧ ShownAs o o.quantity.value o.reduceOnly r := by
  obtain ⟨hsymbol, -, hquantity, hclient⟩ := bitgetUta_fields h
  exact readOrder_of
    (hclient ▸ he.field "clientOid" "clientOid" (by simp [echoedFields]) rfl)
    (hsymbol ▸ he.field "symbol" "symbol" (by simp [echoedFields]) rfl)
    (Json.getNumber_of_text
      (hquantity ▸ he.field "qty" "qty" (by simp [echoedFields]) rfl)
      (Decimal.pyDecimal_format _))
    (he.own _ (by simp [ownNumbers])) (he.own _ (by simp [ownNumbers])) (bitgetUta_side h he)
    (bitgetUta_flag h he)

/-- The fields of a classic Bitget order that the reader takes up. -/
theorem bitget_fields (h : bitgetPlaceOrder o.written = .ok sent) :
    sentField sent "symbol" = .str o.symbol ∧ sentField sent "size" = .str o.quantity.format
      ∧ sentField sent "clientOid" = .str o.clientOrderId := by
  obtain ⟨-, h⟩ := raiseIf_bind_eq_ok.mp h
  cases h
  exact ⟨rfl, rfl, rfl⟩

/-- What an order of a classic account does: in hedge mode it sells a position
that is short, to open and to close it. -/
theorem bitget_action (h : bitgetPlaceOrder o.written = .ok sent) :
    (o.market = .spot → sentField sent "side" = .str o.side.name
        ∧ sentField sent "tradeSide" = .null ∧ sentField sent "reduceOnly" = .null)
      ∧ (o.market = .perp → o.positionMode = .oneWay → sentField sent "side" = .str o.side.name
        ∧ sentField sent "tradeSide" = .null
        ∧ sentField sent "reduceOnly" = .str (if o.reduceOnly then "YES" else "NO"))
      ∧ (o.market = .perp → o.positionMode = .hedge → sentField sent "side" = .str "sell"
        ∧ sentField sent "tradeSide" = .str (if o.reduceOnly then "close" else "open")
        ∧ sentField sent "reduceOnly" = .null) := by
  obtain ⟨-, h⟩ := raiseIf_bind_eq_ok.mp h
  cases h
  unfold LimitIocOrder.written
  dsimp only
  refine ⟨fun hm => ?_, fun hm hp => ?_, fun hm hp => ?_⟩
  · rw [hm]
    exact ⟨rfl, rfl, rfl⟩
  · rw [hp, hm]
    exact ⟨rfl, rfl, rfl⟩
  · rw [hp, hm]
    exact ⟨rfl, rfl, rfl⟩

/-- Without an action the side is the one that is shown. -/
theorem bitgetSide_plain {side : Side} (market : Market)
    (hside : item.get "side" = .ok (.str side.name))
    (haction : item.get "tradeSide" = .ok .null) : bitgetSide market item = .ok side.name := by
  unfold bitgetSide
  rw [Json.getLower_of_str hside, Json.getLower_of_null haction, name_lower]
  cases market <;> rfl

/-- With one, closing a short position buys. -/
theorem bitgetSide_hedge {side : Side} (hside : item.get "side" = .ok (.str "sell"))
    (haction : item.get "tradeSide" = .ok (.str (if side = .buy then "close" else "open"))) :
    bitgetSide .perp item = .ok side.name := by
  unfold bitgetSide
  rw [Json.getLower_of_str hside, Json.getLower_of_str haction]
  cases side <;> decide

/-- A classic Bitget order is read back as it was. -/
theorem bitget_echo (h : bitgetPlaceOrder o.written = .ok sent)
    (he : Echoes .bitget o.market sent item) :
    ∃ r, bitgetOrder o.market item = .ok r ∧ ShownAs o o.quantity.value o.reduceOnly r := by
  obtain ⟨hsymbol, hquantity, hclient⟩ := bitget_fields h
  obtain ⟨hspot, honeWay, hhedge⟩ := bitget_action h
  have hside := he.field "side" "side" (by simp [echoedFields]) rfl
  have haction := he.field "tradeSide" "tradeSide" (by simp [echoedFields]) rfl
  have hflag : (∀ t, t = "true" ∨ t = "false" → sentField sent "reduceOnly" ≠ .str t) →
      item.get "reduceOnly" = .ok (sentField sent "reduceOnly") := by
    intro hsent
    exact he.flag "reduceOnly" "reduceOnly" (by simp [echoedFields]) hsent
  -- Side and flag are spelled in three ways: spot, one-way mode and hedge mode.
  have hread : bitgetSide o.market item = .ok o.side.name
      ∧ bitgetReduceOnly item = .ok o.reduceOnly := by
    unfold bitgetReduceOnly
    cases hm : o.market with
    | spot =>
        obtain ⟨hsell, hopen, hsent⟩ := hspot hm
        rw [hsell] at hside
        rw [hopen] at haction
        rw [hsent] at hflag
        refine ⟨bitgetSide_plain _ hside haction, ?_⟩
        rw [Json.getLower_of_null (hflag (by simp)), Json.getLower_of_null haction, spot_flag hm]
        rfl
    | perp =>
        rcases perp_mode hm with hmode | hmode
        · obtain ⟨hsell, hopen, hsent⟩ := honeWay hm hmode
          rw [hsell] at hside
          rw [hopen] at haction
          rw [hsent] at hflag
          refine ⟨bitgetSide_plain _ hside haction, ?_⟩
          have hflag := hflag fun t ht => by
            rcases ht with rfl | rfl <;> cases o.reduceOnly <;> simp
          rw [Json.getLower_of_str hflag, Json.getLower_of_null haction]
          cases o.reduceOnly <;> decide
        · obtain ⟨hsell, hclose, hsent⟩ := hhedge hm hmode
          rw [hsell] at hside
          rw [hclose] at haction
          rw [hsent] at hflag
          have hbuys := perp_flag hm
          constructor
          · refine bitgetSide_hedge hside ?_
            rw [haction, hbuys]
            simp
          · rw [Json.getLower_of_null (hflag (by simp)), Json.getLower_of_str haction]
            cases o.reduceOnly <;> decide
  exact readOrder_of
    (hclient ▸ he.field "clientOid" "clientOid" (by simp [echoedFields]) rfl)
    (hsymbol ▸ he.field "symbol" "symbol" (by simp [echoedFields]) rfl)
    (Json.getNumber_of_text
      (hquantity ▸ he.field "size" "size" (by simp [echoedFields]) rfl)
      (Decimal.pyDecimal_format _))
    (he.own _ (by simp [ownNumbers])) (he.own _ (by simp [ownNumbers])) hread.1 hread.2

/-! ### Gate. -/

/-- The fields of a Gate spot order: its amount is a plain decimal. -/
theorem gate_spot_fields (h : gatePlaceOrder s.spotAccount o.written = .ok sent)
    (hm : o.market = .spot) :
    sentField sent "currency_pair" = .str o.symbol ∧ sentField sent "side" = .str o.side.name
      ∧ sentField sent "amount" = .str o.quantity.plainDecimal
      ∧ sentField sent "text" = .str o.clientOrderId := by
  obtain ⟨-, h⟩ := raiseIf_bind_eq_ok.mp h
  unfold LimitIocOrder.written at h
  dsimp only at h
  rw [hm] at h
  obtain ⟨-, h⟩ := raiseIf_bind_eq_ok.mp h
  cases h
  exact ⟨rfl, rfl, rfl, rfl⟩

/-- The fields of a Gate contract order: its size is a signed number on the
wire. -/
theorem gate_perp_fields (h : gatePlaceOrder s.spotAccount o.written = .ok sent)
    (hm : o.market = .perp) :
    sentField sent "contract" = .str o.symbol
      ∧ sentField sent "size" = wireQuantity (signedQuantity o.side o.quantity)
      ∧ sentField sent "text" = .str o.clientOrderId
      ∧ sentField sent "reduce_only" = .bool o.reduceOnly := by
  obtain ⟨-, h⟩ := raiseIf_bind_eq_ok.mp h
  unfold LimitIocOrder.written at h
  dsimp only at h
  rw [hm] at h
  cases h
  exact ⟨rfl, rfl, rfl, rfl⟩

/-- `_plain_decimal` of a quantity reads back rounded. -/
theorem pyDecimal_quantity : pyDecimal o.quantity.plainDecimal
    = .ok (.finite (rounded o.quantity.value)) := by
  have hpos := (o.quantity.value_pos_iff).mp o.quantity_check
  rw [Decimal.pyDecimal_plainDecimal]
  unfold Decimal.value
  rw [hpos.1]
  rfl

/-- A Gate spot order is read back with its quantity rounded to 28 digits. -/
theorem gate_spot_echo (h : gatePlaceOrder s.spotAccount o.written = .ok sent)
    (he : Echoes .gate o.market sent item) (hm : o.market = .spot) :
    ∃ r, gateSpotOrder item = .ok r ∧ ShownAs o (rounded o.quantity.value) o.reduceOnly r := by
  obtain ⟨hsymbol, hside, hquantity, hclient⟩ := gate_spot_fields h hm
  have hside : item.get "side" = .ok (.str o.side.name) :=
    hside ▸ he.field "side" "side" (by simp [echoedFields, hm]) rfl
  unfold gateSpotOrder
  rw [show "spot" = o.market.name by rw [hm]; rfl]
  refine readOrder_of
    (hclient ▸ he.field "text" "text" (by simp [echoedFields, hm]) rfl)
    (hsymbol ▸ he.field "currency_pair" "currency_pair" (by simp [echoedFields, hm]) rfl)
    (Json.getNumber_of_text
      (hquantity ▸ he.field "amount" "amount" (by simp [echoedFields, hm]) rfl)
      pyDecimal_quantity)
    (he.own _ (by simp [ownNumbers, hm])) (he.own _ (by simp [ownNumbers, hm])) ?_ ?_
  · rw [Json.getLower_of_str hside, name_lower]
  · rw [spot_flag hm]

/-- The flag of Gate stands under one of two names. -/
theorem gate_flag {b : Bool} (h : sentField sent "reduce_only" = .bool b)
    (he : Echoes .gate .perp sent item) :
    ∃ first second, item.getBool "is_reduce_only" = .ok first
      ∧ item.getBool "reduce_only" = .ok second ∧ (first || second) = b := by
  obtain ⟨⟨k, hk, v, hv, hsame⟩, hall⟩ := he.echoed
    ("reduce_only", ["is_reduce_only", "reduce_only"]) (by simp [echoedFields])
  rw [h] at hsame hall
  have hflag : ∀ {v}, SameField "reduce_only" (.bool b) v → v = .bool b := by
    rintro v (rfl | ⟨-, b', hb', -⟩)
    · rfl
    · cases hb'
  rw [hflag hsame] at hv
  obtain ⟨v₁, h₁, hv₁⟩ := hall "is_reduce_only" (by simp)
  obtain ⟨v₂, h₂, hv₂⟩ := hall "reduce_only" (by simp)
  refine ⟨_, _, Json.getBool_of_get h₁, Json.getBool_of_get h₂, ?_⟩
  have hkeys : v₁ = .bool b ∨ v₂ = .bool b := by
    rcases (by simpa using hk : k = "is_reduce_only" ∨ k = "reduce_only") with rfl | rfl
    · exact .inl (Except.ok.inj (h₁.symm.trans hv))
    · exact .inr (Except.ok.inj (h₂.symm.trans hv))
  rcases hv₁ with rfl | hv₁ <;> rcases hv₂ with rfl | hv₂
  · rcases hkeys with hk | hk <;> cases hk
  · rw [hflag hv₂]
    rfl
  · rw [hflag hv₁]
    exact Bool.or_false b
  · rw [hflag hv₁, hflag hv₂]
    exact Bool.or_self b

/-- So is a Gate contract order. -/
theorem gate_perp_echo (h : gatePlaceOrder s.spotAccount o.written = .ok sent)
    (he : Echoes .gate o.market sent item) (hm : o.market = .perp) :
    ∃ r, gatePerpOrder item = .ok r ∧ ShownAs o (rounded o.quantity.value) o.reduceOnly r := by
  obtain ⟨hsymbol, hsize, hclient, hsent⟩ := gate_perp_fields h hm
  rw [hm] at he
  have hfield : ∀ name key, (name, [key]) ∈ echoedFields .gate .perp → isFlag name = false →
      item.get key = .ok (sentField sent name) := by
    intro name key hmem hflag
    exact Echoes.field (o := o) (hm ▸ he) name key (hm ▸ hmem) hflag
  have hclient : item.get "text" = .ok (.str o.clientOrderId) :=
    hclient ▸ hfield "text" "text" (by simp [echoedFields]) rfl
  have hsymbol : item.get "contract" = .ok (.str o.symbol) :=
    hsymbol ▸ hfield "contract" "contract" (by simp [echoedFields]) rfl
  -- The quantity is the size without its sign, the side is the sign.
  obtain ⟨q, hq, habs, hsign⟩ := getNumber_wireQuantity
    (hsize ▸ hfield "size" "size" (by simp [echoedFields]) rfl)
  obtain ⟨hrounded, hbuys⟩ := @signedQuantity_spec o.side _ o.quantity_check
  obtain ⟨price, hprice⟩ := he.own ["price"] (by simp [ownNumbers])
  obtain ⟨left, hleft⟩ := he.own ["left"] (by simp [ownNumbers])
  obtain ⟨first, second, hfirst, hsecond, hflag⟩ := gate_flag hsent he
  obtain ⟨id, hid⟩ := Json.get_of_get hclient "id"
  obtain ⟨status, hstatus⟩ := Json.getFirst_of_get hclient "" ["status"]
  have hread : gatePerpOrder item = .ok {
      exchangeOrderId := (id.orElse (.str "")).text
      clientOrderId := some o.clientOrderId
      market := "perp"
      symbol := o.symbol
      status
      price
      side := if 0 < q then "buy" else "sell"
      originalQuantity := rounded |q|
      filledQuantity := max 0 (rounded (rounded |q| - rounded |left|))
      reduceOnly := first || second } := by
    unfold gatePerpOrder
    rw [hq, hleft, Json.getText_of_get hid, Json.getOptionalText_of_ne hclient client_ne,
      Json.getText_of_ne hsymbol symbol_ne, hstatus, hprice, hfirst, hsecond]
    rfl
  refine ⟨_, hread, ?_⟩
  exact {
    market := by rw [hm]; rfl
    symbol := rfl
    side := by
      show (if 0 < q then "buy" else "sell") = o.side.name
      cases hside : o.side with
      | buy => rw [if_pos (hsign.mpr (hbuys.mpr hside))]; rfl
      | sell =>
          rw [if_neg fun hpos => by rw [hsign, hbuys, hside] at hpos; cases hpos]
          rfl
    client := rfl
    quantity := habs.trans hrounded
    reduceOnly := hflag }

/-! ### MEXC. -/

/-- The fields of a MEXC spot order that the reader takes up. -/
theorem mexc_spot_fields (h : mexcPlaceOrder s.leverage o.written = .ok sent)
    (hm : o.market = .spot) :
    sentField sent "symbol" = .str o.symbol ∧ sentField sent "side" = .str (upperSide o.side)
      ∧ sentField sent "quantity" = .str o.quantity.format
      ∧ sentField sent "newClientOrderId" = .str o.clientOrderId := by
  obtain ⟨-, h⟩ := raiseIf_bind_eq_ok.mp h
  unfold LimitIocOrder.written at h
  dsimp only at h
  rw [hm] at h
  cases h
  exact ⟨rfl, rfl, rfl, rfl⟩

/-- The fields of a MEXC contract order: side and flag are one action number. -/
theorem mexc_perp_fields (h : mexcPlaceOrder s.leverage o.written = .ok sent)
    (hm : o.market = .perp) :
    sentField sent "symbol" = .str o.symbol
      ∧ sentField sent "side" = .int (mexcAction .short o.reduceOnly)
      ∧ sentField sent "vol" = .str o.quantity.format
      ∧ sentField sent "externalOid" = .str o.clientOrderId := by
  obtain ⟨-, h⟩ := raiseIf_bind_eq_ok.mp h
  unfold LimitIocOrder.written at h
  dsimp only at h
  rw [hm] at h
  obtain ⟨leverage, -, h⟩ := found_bind_eq_ok.mp h
  cases h
  exact ⟨rfl, rfl, rfl, rfl⟩

/-- A MEXC spot order is read back as it was. -/
theorem mexc_spot_echo (h : mexcPlaceOrder s.leverage o.written = .ok sent)
    (he : Echoes .mexc o.market sent item) (hm : o.market = .spot) :
    ∃ r, binanceOrder .spot item = .ok r ∧ ShownAs o o.quantity.value o.reduceOnly r := by
  obtain ⟨hsymbol, hside, hquantity, hclient⟩ := mexc_spot_fields h hm
  have hside : item.get "side" = .ok (.str (upperSide o.side)) :=
    hside ▸ he.field "side" "side" (by simp [echoedFields, hm]) rfl
  unfold binanceOrder
  rw [show (Market.spot).name = o.market.name by rw [hm]]
  refine readOrder_of
    (hclient ▸ he.field "newClientOrderId" "clientOrderId" (by simp [echoedFields, hm]) rfl)
    (hsymbol ▸ he.field "symbol" "symbol" (by simp [echoedFields, hm]) rfl)
    (Json.getNumber_of_text
      (hquantity ▸ he.field "quantity" "origQty" (by simp [echoedFields, hm]) rfl)
      (Decimal.pyDecimal_format _))
    (he.own _ (by simp [ownNumbers, plainNames, hm]))
    (he.own _ (by simp [ownNumbers, plainNames, hm])) ?_ ?_
  · rw [Json.getLower_of_str hside, upperSide_lower]
  · rw [spot_flag hm]

/-- So is a MEXC contract order. -/
theorem mexc_perp_echo (h : mexcPlaceOrder s.leverage o.written = .ok sent)
    (he : Echoes .mexc o.market sent item) (hm : o.market = .perp) :
    ∃ r, mexcPerpOrder item = .ok r ∧ ShownAs o o.quantity.value o.reduceOnly r := by
  obtain ⟨hsymbol, hside, hquantity, hclient⟩ := mexc_perp_fields h hm
  have hside : item.getInt "side" = .ok (mexcAction .short o.reduceOnly) :=
    Json.getInt_of_get (hside ▸ he.field "side" "side" (by simp [echoedFields, hm]) rfl)
  have hbuys := perp_flag hm
  unfold mexcPerpOrder
  rw [show "perp" = o.market.name by rw [hm]; rfl]
  refine readOrder_of
    (hclient ▸ he.field "externalOid" "externalOid" (by simp [echoedFields, hm]) rfl)
    (hsymbol ▸ he.field "symbol" "symbol" (by simp [echoedFields, hm]) rfl)
    (Json.getNumber_of_text
      (hquantity ▸ he.field "vol" "vol" (by simp [echoedFields, hm]) rfl)
      (Decimal.pyDecimal_format _))
    (he.own _ (by simp [ownNumbers, hm])) (he.own _ (by simp [ownNumbers, hm])) ?_ ?_
  · unfold mexcSide
    rw [hside, hbuys]
    cases o.side <;> rfl
  · unfold mexcReduceOnly
    rw [hside]
    cases o.reduceOnly <;> rfl

end Sent

/-! ## §5. Orders come back. -/

/-- Every order comes back as it was, exactly unless Gate was sent more digits
than the context has, or Binance shows the flag as the text it was sent. -/
theorem order_echo_iff {a : Adapter} {s : ClientState} {o : Accounts.LimitIocOrder} {sent : Fields}
    {item : Json} {read : Json → Except Exc RemoteOrder} (hsent : placeLimitIoc a s o = .ok sent)
    (he : Echoes a o.market sent item)
    (hread : read = lookupOrder a o.market o.symbol ∨ read = openOrder a o.market) :
    ∃ r, read item = .ok r ∧ (Reconcilable o r ↔ EchoKept a o item) := by
  have hsent := placeLimitIoc_sent hsent
  -- An adapter with none of the two differences.
  have hplain : a ≠ .gate → a ≠ .binance →
      (∃ r, read item = .ok r ∧ ShownAs o o.quantity.value o.reduceOnly r) →
      ∃ r, read item = .ok r ∧ (Reconcilable o r ↔ EchoKept a o item) := by
    rintro hgate hbinance ⟨r, hr, hshown⟩
    refine ⟨r, hr, ?_⟩
    rw [hshown.reconcilable_iff]
    constructor
    · intro _
      exact ⟨fun h => absurd h hgate, fun h => hbinance h.1⟩
    · intro _
      exact ⟨rfl, rfl⟩
  cases a with
  | binance =>
      obtain ⟨r, b, hr, hshown, hflag⟩ := binance_echo hsent he
      refine ⟨r, by rcases hread with rfl | rfl <;> exact hr, ?_⟩
      rw [hshown.reconcilable_iff, hflag]
      constructor
      · rintro ⟨-, hne⟩
        exact ⟨fun h => (by cases h), fun h => hne h.2⟩
      · intro hkept
        exact ⟨rfl, fun h => hkept.2 ⟨rfl, h⟩⟩
  | okx =>
      refine hplain (by decide) (by decide) ?_
      rcases hread with rfl | rfl
      · exact okx_echo hsent he o.symbol (.inl rfl)
      · obtain ⟨r, hr, hshown⟩ := okx_echo hsent he "" (.inr rfl)
        refine ⟨r, ?_, hshown⟩
        show okxPendingOrder item = _
        unfold okxPendingOrder
        rw [okxMarket_of he]
        exact hr
  | bybit =>
      refine hplain (by decide) (by decide) ?_
      rcases hread with rfl | rfl <;> exact bybit_echo hsent he
  | bitget =>
      refine hplain (by decide) (by decide) ?_
      rcases hread with rfl | rfl <;> exact bitget_echo hsent he
  | bitgetUta =>
      refine hplain (by decide) (by decide) ?_
      rcases hread with rfl | rfl <;> exact bitgetUta_echo hsent he
  | gate =>
      have hshown : ∃ r, read item = .ok r
          ∧ ShownAs o (rounded o.quantity.value) o.reduceOnly r := by
        cases hm : o.market with
        | spot =>
            rw [hm] at hread
            rcases hread with rfl | rfl <;> exact gate_spot_echo hsent he hm
        | perp =>
            rw [hm] at hread
            rcases hread with rfl | rfl <;> exact gate_perp_echo hsent he hm
      obtain ⟨r, hr, hshown⟩ := hshown
      refine ⟨r, hr, ?_⟩
      rw [hshown.reconcilable_iff]
      constructor
      · rintro ⟨hq, -⟩
        exact ⟨fun _ => hq, fun h => (by cases h.1)⟩
      · intro hkept
        exact ⟨hkept.1 rfl, rfl⟩
  | mexc =>
      refine hplain (by decide) (by decide) ?_
      cases hm : o.market with
      | spot =>
          rw [hm] at hread
          rcases hread with rfl | rfl <;> exact mexc_spot_echo hsent he hm
      | perp =>
          rw [hm] at hread
          rcases hread with rfl | rfl <;> exact mexc_perp_echo hsent he hm

namespace Sample

/-- A spot order on Gate. -/
def gateOrder (quantity : Decimal) (h : 0 < quantity.value) : Accounts.LimitIocOrder where
  market := .spot
  symbol := "BTC_USDT"
  side := .buy
  quantity
  limitPrice := ⟨false, 30000, 0⟩
  clientOrderId := "t-open-1"
  reduceOnly := false
  positionMode := .oneWay
  symbol_check := by decide
  quantity_check := h
  limit_check := by decide +kernel
  client_check := by decide +kernel
  direction_check := rfl

def gateState : ClientState := ⟨"spot", none⟩

/-- 32 digits. -/
def longQuantity : Decimal := ⟨false, 10 ^ 31 + 1, -12⟩

def longOrder : Accounts.LimitIocOrder := gateOrder longQuantity (by decide +kernel)

def shortOrder : Accounts.LimitIocOrder := gateOrder ⟨false, 1500, -3⟩ (by decide +kernel)

/-- What Gate shows of an order. -/
def gateItem (amount : String) : Json := .obj [("id", .str "7"), ("text", .str "t-open-1"),
  ("currency_pair", .str "BTC_USDT"), ("side", .str "buy"), ("amount", .str amount),
  ("price", .str "30000"), ("filled_amount", .str "0"), ("status", .str "open")]

def longItem : Json := gateItem longQuantity.plainDecimal

def shortItem : Json := gateItem "1.5"

/-- The fields of a spot request to Gate. -/
def gateFields (o : Accounts.LimitIocOrder) : Fields :=
  [("text", .str o.clientOrderId), ("currency_pair", .str o.symbol), ("type", .str "limit"),
    ("account", .str "spot"), ("side", .str "buy"), ("amount", .str o.quantity.plainDecimal),
    ("time_in_force", .str "ioc"), ("price", .str o.limitPrice.plainDecimal)]

/-- Gate shows the sample orders with the amount that was sent. -/
theorem gate_echoes {o : Accounts.LimitIocOrder} (hm : o.market = .spot)
    (hclient : o.clientOrderId = "t-open-1") (hsymbol : o.symbol = "BTC_USDT") :
    Echoes .gate o.market (gateFields o) (gateItem o.quantity.plainDecimal) := by
  rw [hm]
  constructor
  · intro f hf
    have hfield : ∀ name key v, f = (name, [key]) → (gateItem o.quantity.plainDecimal).get key = .ok v →
        sentField (gateFields o) name = v → (∃ k ∈ f.2, ∃ v,
          (gateItem o.quantity.plainDecimal).get k = .ok v
            ∧ SameField f.1 (sentField (gateFields o) f.1) v)
        ∧ ∀ k ∈ f.2, ∃ v, (gateItem o.quantity.plainDecimal).get k = .ok v
            ∧ (v = .null ∨ SameField f.1 (sentField (gateFields o) f.1) v) := by
      rintro name key v rfl hget hsent
      refine ⟨⟨key, List.mem_singleton.mpr rfl, v, hget, .inl hsent.symm⟩, fun k hk => ?_⟩
      rw [List.mem_singleton.mp hk]
      exact ⟨v, hget, .inr (.inl hsent.symm)⟩
    simp only [echoedFields, List.mem_cons, List.not_mem_nil, or_false] at hf
    rcases hf with hf | hf | hf | hf
    · exact hfield _ _ _ hf rfl (by rw [← hsymbol]; rfl)
    · exact hfield _ _ _ hf rfl rfl
    · exact hfield _ _ _ hf rfl rfl
    · exact hfield _ _ _ hf rfl (by rw [← hclient]; rfl)
  · intro keys hkeys
    simp only [ownNumbers, List.mem_cons, List.not_mem_nil, or_false] at hkeys
    rcases hkeys with rfl | rfl
    · exact ⟨_, Json.getNumber_of_text (t := "30000") rfl (pyDecimal_int 30000)⟩
    · exact ⟨_, Json.getNumber_of_text (t := "0") rfl (pyDecimal_int 0)⟩
  · intro h
    cases h

/-- And they are sent with these fields. -/
theorem gate_sent {o : Accounts.LimitIocOrder} (hm : o.market = .spot) (hside : o.side = .buy)
    (hok : (placeLimitIoc .gate gateState o).toBool = true) :
    placeLimitIoc .gate gateState o = .ok (gateFields o) := by
  cases hp : placeLimitIoc .gate gateState o with
  | error e =>
      rw [hp] at hok
      cases hok
  | ok sent =>
      obtain ⟨-, h⟩ := raiseIf_bind_eq_ok.mp (placeLimitIoc_sent hp)
      unfold LimitIocOrder.written at h
      dsimp only at h
      rw [hm, hside] at h
      obtain ⟨-, h⟩ := raiseIf_bind_eq_ok.mp h
      cases h
      rfl

theorem long_sent : placeLimitIoc .gate gateState longOrder = .ok (gateFields longOrder) :=
  gate_sent rfl rfl (by decide +kernel)

theorem short_sent : placeLimitIoc .gate gateState shortOrder = .ok (gateFields shortOrder) :=
  gate_sent rfl rfl (by decide +kernel)

theorem long_echoes : Echoes .gate longOrder.market (gateFields longOrder) longItem :=
  gate_echoes rfl rfl rfl

theorem short_echoes : Echoes .gate shortOrder.market (gateFields shortOrder) shortItem := by
  have hplain : shortOrder.quantity.plainDecimal = "1.5" := by decide
  have h := gate_echoes (o := shortOrder) rfl rfl rfl
  rw [hplain] at h
  exact h

/-- The order that is read back. -/
def readBack (quantity : ℚ) : RemoteOrder :=
  ⟨"7", some "t-open-1", "spot", "BTC_USDT", "buy", "open", 30000, quantity, 0, false⟩

/-- The leg of the long order. -/
def longLeg : OrderLegRow where
  id := 1
  tradeIntentId := 1
  leg := .primary .spot
  market := .spot
  symbol := "BTC_USDT"
  side := .buy
  clientOrderId := "t-open-1"
  exchangeOrderId := none
  status := .submitted
  failureCode := none
  quantity := longQuantity.value
  baseMultiplier := 1
  compensationTargetBaseQuantity := none
  compensationToleranceBase := 0
  limitPrice := 30000
  filledQuantity := 0
  averagePrice := none
  reduceOnly := false
  createdAt := 0
  quantity_pos := by decide +kernel
  multiplier_check := OrderLegRow.unit_multiplier
  tolerance_check := OrderLegRow.zero_nonneg
  filled_nonneg := OrderLegRow.zero_nonneg
  average_iff := OrderLegRow.unfilled_average

end Sample

/-- Gate is sent `10000000000000000000` for a quantity of 32 digits.  The order
that comes back is not the leg's, and is reported as one that conflicts. -/
theorem order_rounded :
    placeLimitIoc .gate Sample.gateState Sample.longOrder = .ok (Sample.gateFields Sample.longOrder)
      ∧ Echoes .gate Sample.longOrder.market (Sample.gateFields Sample.longOrder) Sample.longItem
      ∧ ∃ r, lookupOrder .gate .spot "BTC_USDT" Sample.longItem = .ok r
        ∧ r.originalQuantity ≠ Sample.longOrder.quantity.value
        ∧ LegOf Sample.longOrder Sample.longLeg ∧ OwnFits r Sample.longLeg
        ∧ (∃ e, Ledger.checkRemoteOrder Sample.longLeg r = .error e)
        ∧ Sample.longLeg.status.isActive ∧ contradicts r Sample.longLeg := by
  have hread : lookupOrder .gate .spot "BTC_USDT" Sample.longItem
      = .ok (Sample.readBack (10 ^ 19)) := by
    decide +kernel
  refine ⟨Sample.long_sent, Sample.long_echoes, _, hread, by decide +kernel,
    ⟨rfl, rfl, rfl, rfl, rfl, rfl⟩, ⟨by decide, by simp [Sample.longLeg], by decide +kernel⟩,
    ⟨.value "remote order quantity does not match the local order leg", by decide +kernel⟩, rfl,
    by decide +kernel⟩

/-- An order of four digits. -/
theorem order_echo_short :
    ∃ r, lookupOrder .gate .spot "BTC_USDT" Sample.shortItem = .ok r
      ∧ (Reconcilable Sample.shortOrder r ↔ EchoKept .gate Sample.shortOrder Sample.shortItem) :=
  order_echo_iff Sample.short_sent Sample.short_echoes (.inl rfl)

end BasisHawk.Reconciliation
