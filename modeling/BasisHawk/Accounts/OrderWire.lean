/-
  BasisHawk.Accounts.OrderWire
  ────────────────────────────
  Orders as the account clients write and read them (`accounts.py`): the fields
  of `place_order` for each exchange, and the parsers of its order objects.

  The exchanges name and code the same things differently.  Bybit spells a side
  with a capital, Gate gives a perpetual quantity a sign, MEXC numbers the four
  perpetual actions, Bitget names the position's side when it closes one.

  Contents:
    • `LimitIocOrder`, and the request that `place_limit_ioc` makes of it,
    • `placeOrder` — the fields each exchange is sent,
    • `lookupOrder`, `openOrder` — the parsers.
-/
import BasisHawk.Accounts.Decimal
import BasisHawk.Accounts.PerpConfiguration

namespace BasisHawk.Accounts

open Domain Lib

/-! ## §1. Orders. -/

/-- A request whose decimals are as they are written. -/
structure WrittenRequest where
  request : PrivateOrderRequest
  quantity : Decimal
  limitPrice : Option Decimal
  quantity_eq : quantity.value = request.quantity
  limit_eq : limitPrice.map Decimal.value = request.limitPrice

/-- An identifier of an order. -/
def IsOrderName (maximum : Nat) (s : String) : Prop :=
  1 ≤ s.length ∧ s.length ≤ maximum ∧ pyStrip s = s.toList

instance (maximum : Nat) (s : String) : Decidable (IsOrderName maximum s) :=
  inferInstanceAs (Decidable (_ ∧ _ ∧ _))

/-- `LimitIocOrder`: the orders of the paired strategy, which sells a perpetual
to open and buys it back to close. -/
structure LimitIocOrder where
  market : Market
  symbol : String
  side : Side
  quantity : Decimal
  limitPrice : Decimal
  clientOrderId : String
  reduceOnly : Bool
  positionMode : PositionMode
  symbol_check : IsOrderName 100 symbol
  quantity_check : 0 < quantity.value
  limit_check : 0 < limitPrice.value
  client_check : IsOrderName 64 clientOrderId
  direction_check : match market with
    | .spot => reduceOnly = false
    | .perp => positionMode ≠ .unknown ∧ (side = .sell → reduceOnly = false)
        ∧ (side = .buy → reduceOnly = true)

namespace LimitIocOrder

/-- The request of `place_limit_ioc`. -/
def written (o : LimitIocOrder) : WrittenRequest where
  request := {
    market := o.market, symbol := o.symbol, side := o.side, quantity := o.quantity.value
    mode := .protectedIoc, limitPrice := some o.limitPrice.value
    clientOrderId := o.clientOrderId, reduceOnly := o.reduceOnly, positionMode := o.positionMode
    positionSide := match o.market with
      | .perp => some .short
      | .spot => none
    marginMode := .isolated }
  quantity := o.quantity
  limitPrice := some o.limitPrice
  quantity_eq := rfl
  limit_eq := rfl

end LimitIocOrder

/-! ## §2. Requests. -/

/-- The fields of a request. -/
abbrev Fields : Type := List (String × Json)

/-- `side.upper()`. -/
def upperSide : Side → String
  | .buy => "BUY"
  | .sell => "SELL"

/-- `side.title()`. -/
def titleSide : Side → String
  | .buy => "Buy"
  | .sell => "Sell"

def positionWord : PerpPositionSide → String
  | .long => "long"
  | .short => "short"

def upperPosition : PerpPositionSide → String
  | .long => "LONG"
  | .short => "SHORT"

/-- `re.fullmatch(r"[…]{1,maximum}", value)`. -/
def isWord (extra : List Char) (maximum : Nat) (s : String) : Bool :=
  1 ≤ s.length ∧ s.length ≤ maximum ∧ s.toList.all fun c => c.isAlphanum ∨ c ∈ extra

/-- A price, where the request has one. -/
def priceField (name : String) (price : Option Decimal) : Fields :=
  match price with
  | some price => [(name, .str price.format)]
  | none => []

/-- `BinanceAccountClient.place_order`. -/
def binancePlaceOrder (o : WrittenRequest) : Except Exc Fields := do
  let q := o.request
  raiseIf (36 < q.clientOrderId.length)
    (.value "Binance client order IDs cannot exceed 36 characters")
  return [("symbol", .str q.symbol), ("side", .str (upperSide q.side)),
      ("quantity", .str o.quantity.format), ("newClientOrderId", .str q.clientOrderId),
      ("newOrderRespType", .str "RESULT")]
    ++ (match q.mode with
      | .market => [("type", .str "MARKET")]
      | .maker =>
          [("type", .str (if q.market = .spot then "LIMIT_MAKER" else "LIMIT"))]
            ++ priceField "price" o.limitPrice
            ++ (if q.market = .perp then [("timeInForce", .str "GTX")] else [])
      | .protectedIoc =>
          [("type", .str "LIMIT")] ++ priceField "price" o.limitPrice
            ++ [("timeInForce", .str "IOC")])
    ++ (match q.market, q.positionMode with
      | .spot, _ => []
      | .perp, .hedge =>
          [("positionSide", .str (upperPosition (q.positionSide.getD .short)))]
      | .perp, _ =>
          [("positionSide", .str "BOTH"),
            ("reduceOnly", .str (if q.reduceOnly then "true" else "false"))])

/-- `OkxAccountClient.place_order`. -/
def okxPlaceOrder (o : WrittenRequest) : Except Exc Fields := do
  let q := o.request
  raiseIf (¬isWord [] 32 q.clientOrderId)
    (.value "OKX client order IDs must be at most 32 alphanumeric characters")
  return [("instId", .str q.symbol),
      ("tdMode", .str (if q.market = .spot then "cash" else marginValue q.marginMode)),
      ("clOrdId", .str q.clientOrderId), ("side", .str q.side.name),
      ("ordType", .str (match q.mode with
        | .maker => "post_only"
        | .protectedIoc => "ioc"
        | .market => "market")),
      ("sz", .str o.quantity.format)]
    ++ priceField "px" o.limitPrice
    ++ (match q.market, q.positionMode with
      | .spot, _ => []
      | .perp, .hedge => [("posSide", .str (positionWord (q.positionSide.getD .short)))]
      | .perp, _ => [("reduceOnly", .bool q.reduceOnly)])

/-- `BybitAccountClient.place_order`. -/
def bybitPlaceOrder (o : WrittenRequest) : Except Exc Fields := do
  let q := o.request
  raiseIf (¬isWord ['_', '-'] 36 q.clientOrderId)
    (.value ("Bybit client order IDs must be at most 36 ASCII letters, numbers, "
      ++ "dashes, or underscores"))
  return [("category", .str (if q.market = .spot then "spot" else "linear")),
      ("symbol", .str q.symbol), ("side", .str (titleSide q.side)),
      ("orderType", .str (if q.mode = .market then "Market" else "Limit")),
      ("qty", .str o.quantity.format), ("orderLinkId", .str q.clientOrderId)]
    ++ priceField "price" o.limitPrice
    ++ (match q.mode with
      | .maker => [("timeInForce", .str "PostOnly")]
      | .protectedIoc => [("timeInForce", .str "IOC")]
      | .market => [])
    ++ (match q.market with
      | .spot => [("isLeverage", .int 0)]
      | .perp =>
          [("positionIdx", .int (if q.positionMode = .hedge then
              (if q.positionSide = some .long then 1 else 2) else 0)),
            ("reduceOnly", .bool q.reduceOnly)])

/-- The `timeInForce` of Bitget, under the given name. -/
def bitgetForce (name : String) : OrderMode → Fields
  | .maker => [(name, .str "post_only")]
  | .protectedIoc => [(name, .str "ioc")]
  | .market => []

/-- `BitgetAccountClient.place_order` for an account of the UTA generation. -/
def bitgetUtaPlaceOrder (o : WrittenRequest) : Except Exc Fields := do
  let q := o.request
  raiseIf (¬isWord ['.', '_', ':', '/', '-'] 32 q.clientOrderId)
    (.value "Bitget UTA client order IDs must be at most 32 supported ASCII characters")
  return [("category", .str (if q.market = .spot then "SPOT" else "USDT-FUTURES")),
      ("symbol", .str q.symbol), ("qty", .str o.quantity.format), ("side", .str q.side.name),
      ("orderType", .str (if q.mode = .market then "market" else "limit")),
      ("clientOid", .str q.clientOrderId)]
    ++ priceField "price" o.limitPrice ++ bitgetForce "timeInForce" q.mode
    ++ (match q.market with
      | .spot => []
      | .perp => [("marginMode", .str (marginValue q.marginMode))]
          ++ (if q.positionMode = .hedge then
              [("posSide", .str (positionWord (q.positionSide.getD .short)))]
            else if q.reduceOnly then [("reduceOnly", .str "yes")] else []))

/-- `BitgetAccountClient.place_order` for a classic account: in hedge mode the
side is that of the position. -/
def bitgetPlaceOrder (o : WrittenRequest) : Except Exc Fields := do
  let q := o.request
  raiseIf (¬isWord ['_', ':', '#', '-', '+'] 32 q.clientOrderId)
    (.value "Bitget client order IDs must be at most 32 supported ASCII characters")
  let hedged := q.market = .perp ∧ q.positionMode = .hedge
  return [("symbol", .str q.symbol),
      ("side", .str (if hedged then (if q.positionSide = some .long then "buy" else "sell")
        else q.side.name)),
      ("orderType", .str (if q.mode = .market then "market" else "limit")),
      ("size", .str o.quantity.format), ("clientOid", .str q.clientOrderId)]
    ++ priceField "price" o.limitPrice ++ bitgetForce "force" q.mode
    ++ (match q.market with
      | .spot => []
      | .perp =>
          [("productType", .str "USDT-FUTURES"), ("marginMode", .str (marginValue q.marginMode)),
            ("marginCoin", .str "USDT")]
          ++ (if q.positionMode = .hedge then
              [("tradeSide", .str (if q.reduceOnly then "close" else "open"))]
            else [("reduceOnly", .str (if q.reduceOnly then "YES" else "NO"))]))

/-- `signed_quantity`. -/
def signedQuantity (side : Side) (quantity : Decimal) : Decimal :=
  match side with
  | .buy => quantity
  | .sell => quantity.neg

/-- `wire_quantity`. -/
def wireQuantity (quantity : Decimal) : Json :=
  if quantity.isIntegral then .int quantity.toInt else .str quantity.plainDecimal

/-- `GateAccountClient.place_order`, with the spot account it names. -/
def gatePlaceOrder (spotAccount : String) (o : WrittenRequest) : Except Exc Fields := do
  let q := o.request
  raiseIf (q.clientOrderId.toList.take 2 ≠ ['t', '-'] ∨ q.clientOrderId.length < 3
      ∨ ¬((q.clientOrderId.toList.drop 2).all fun c => c.isAlphanum ∨ c ∈ ['_', '.', '-'])
      ∨ 30 < q.clientOrderId.utf8ByteSize)
    (.value ("Gate client order IDs must start with t-, use supported ASCII "
      ++ "characters, and contain at most 28 bytes after the prefix"))
  match q.market with
  | .spot => do
      raiseIf (q.mode = .market ∧ q.side = .buy) (.ofKind .unsupportedTrading
        ("Gate spot market buys use quote quantity; use protected IOC "
          ++ "when the task quantity is denominated in base asset"))
      return [("text", .str q.clientOrderId), ("currency_pair", .str q.symbol),
          ("type", .str (if q.mode = .market then "market" else "limit")),
          ("account", .str spotAccount), ("side", .str q.side.name),
          ("amount", .str o.quantity.plainDecimal),
          ("time_in_force", .str (if q.mode = .maker then "poc" else "ioc"))]
        ++ (match o.limitPrice with
          | some price => [("price", .str price.plainDecimal)]
          | none => [])
  | .perp =>
      return [("contract", .str q.symbol),
        ("size", wireQuantity (signedQuantity q.side o.quantity)),
        ("price", .str (match o.limitPrice with
          | some price => price.plainDecimal
          | none => "0")),
        ("tif", .str (if q.mode = .maker then "poc" else "ioc")),
        ("text", .str q.clientOrderId), ("reduce_only", .bool q.reduceOnly)]

/-- The four perpetual actions of MEXC. -/
def mexcAction : PerpPositionSide → Bool → Int
  | .long, false => 1
  | .short, true => 2
  | .short, false => 3
  | .long, true => 4

/-- `MexcAccountClient.place_order`, with the leverage it has confirmed. -/
def mexcPlaceOrder (leverage : Option Nat) (o : WrittenRequest) : Except Exc Fields := do
  let q := o.request
  raiseIf (¬isWord ['_', '-'] 32 q.clientOrderId)
    (.value "MEXC client order IDs must be at most 32 supported ASCII characters")
  match q.market with
  | .spot =>
      return [("symbol", .str q.symbol), ("side", .str (upperSide q.side)),
          ("type", .str (match q.mode with
            | .maker => "LIMIT_MAKER"
            | .protectedIoc => "IMMEDIATE_OR_CANCEL"
            | .market => "MARKET")),
          ("quantity", .str o.quantity.format), ("newClientOrderId", .str q.clientOrderId)]
        ++ priceField "price" o.limitPrice
  | .perp => do
      let leverage ← found leverage (.ofKind .privateRequest
        ("MEXC contract write capability and isolated leverage must be "
          ++ "confirmed before order submission"))
      let side : PerpPositionSide := q.positionSide.getD
        (if (q.side == .buy) != q.reduceOnly then .long else .short)
      return [("symbol", .str q.symbol),
          ("price", .str (match o.limitPrice with
            | some price => price.format
            | none => "0")),
          ("vol", .str o.quantity.format), ("leverage", .int leverage),
          ("side", .int (mexcAction side q.reduceOnly)),
          ("type", .int (match q.mode with
            | .maker => 2
            | .protectedIoc => 3
            | .market => 5)),
          ("openType", .int (if q.marginMode = .isolated then 1 else 2)),
          ("externalOid", .str q.clientOrderId),
          ("positionMode", .int (if q.positionMode = .hedge then 1 else 2))]
        ++ (if q.positionMode = .oneWay ∧ q.reduceOnly then [("reduceOnly", .bool true)] else [])

/-- The account clients; Bitget has two. -/
inductive Adapter where
  | binance | okx | bybit | bitget | bitgetUta | gate | mexc
  deriving DecidableEq

/-- What a client knows of its account when it places an order. -/
structure ClientState where
  spotAccount : String
  leverage : Option Nat

/-- `place_order`. -/
def placeOrder (a : Adapter) (s : ClientState) (o : WrittenRequest) : Except Exc Fields :=
  match a with
  | .binance => binancePlaceOrder o
  | .okx => okxPlaceOrder o
  | .bybit => bybitPlaceOrder o
  | .bitget => bitgetPlaceOrder o
  | .bitgetUta => bitgetUtaPlaceOrder o
  | .gate => gatePlaceOrder s.spotAccount o
  | .mexc => mexcPlaceOrder s.leverage o

/-- `place_limit_ioc`. -/
def placeLimitIoc (a : Adapter) (s : ClientState) (o : LimitIocOrder) : Except Exc Fields := do
  let _ ← o.written.request.validate
  placeOrder a s o.written

/-! ## §3. Order objects. -/

/-- `value.get(a) or value.get(b) or … or default`, as text. -/
def Json.getFirst (v : Json) (default : String) : List String → Except Exc String
  | [] => .ok default
  | k :: rest => do
      let x ← v.get k
      if x.truthy then return x.text else v.getFirst default rest

/-- `Decimal(str(value.get(a) or … or "0"))`, which has to be finite. -/
def Json.getNumber (v : Json) (keys : List String) : Except Exc ℚ := do
  let t ← v.getFirst "0" keys
  let d ← pyDecimal t
  d.required

/-- `str(value.get(key) or "").lower()`. -/
def Json.getLower (v : Json) (k : String) : Except Exc String := do
  let t ← v.getText k ""
  return String.ofList (pyLowerString t.toList)

/-- `str(value.get(key) or "").upper() == word`, for a word in capitals. -/
def Json.isUpper (v : Json) (k word : String) : Except Exc Bool := do
  let t ← v.getText k ""
  return sameUpper t word

/-- The names of the plain fields of an order object. -/
structure OrderNames where
  orderId : String
  clientId : String
  symbol : String
  status : List String
  price : List String
  quantity : String
  filled : List String

/-- An order object whose plain fields have these names. -/
def readOrder (names : OrderNames) (market : String) (symbol : String)
    (side : Json → Except Exc String) (reduceOnly : Json → Except Exc Bool) (item : Json) :
    Except Exc RemoteOrder := do
  let exchangeOrderId ← item.getText names.orderId ""
  let clientOrderId ← item.getOptionalText names.clientId
  let symbol ← item.getText names.symbol symbol
  let side ← side item
  let status ← item.getFirst "" names.status
  let price ← item.getNumber names.price
  let originalQuantity ← item.getNumber [names.quantity]
  let filledQuantity ← item.getNumber names.filled
  let reduceOnly ← reduceOnly item
  return ⟨exchangeOrderId, clientOrderId, market, symbol, side, status, price, originalQuantity,
    filledQuantity, reduceOnly⟩

/-- The names of Binance, and of the spot market of MEXC. -/
def plainNames : OrderNames :=
  ⟨"orderId", "clientOrderId", "symbol", ["status"], ["price"], "origQty", ["executedQty"]⟩

/-- `_binance_reduce_only`. -/
def binanceReduceOnly (item : Json) : Except Exc Bool := do
  if ← item.getBool "reduceOnly" then return true
  else do
    let short ← item.isUpper "positionSide" "SHORT"
    let buy ← item.isUpper "side" "BUY"
    return short && buy

/-- The order objects of Binance. -/
def binanceOrder (market : Market) : Json → Except Exc RemoteOrder :=
  readOrder plainNames market.name "" (fun item => item.getLower "side") fun item =>
    match market with
    | .spot => .ok false
    | .perp => binanceReduceOnly item

/-- `_okx_reduce_only`. -/
def okxReduceOnly (item : Json) : Except Exc Bool := do
  let flag ← item.getText "reduceOnly" "false"
  if pyLowerString flag.toList = "true".toList then return true
  else do
    let short ← item.getLower "posSide"
    let buy ← item.getLower "side"
    return short = "short" && buy = "buy"

/-- The order object of an OKX lookup. -/
def okxOrder (market : Market) (symbol : String) : Json → Except Exc RemoteOrder :=
  readOrder ⟨"ordId", "clOrdId", "instId", ["state"], ["px", "avgPx"], "sz", ["accFillSz"]⟩
    market.name symbol (fun item => item.getLower "side") okxReduceOnly

/-- `"spot" if item.get("instType") == "SPOT" else "perp"`. -/
def okxMarket (item : Json) : Except Exc String := do
  match ← item.get "instType" with
  | .str "SPOT" => return "spot"
  | _ => return "perp"

/-- An order object of the OKX list of open orders. -/
def okxPendingOrder (item : Json) : Except Exc RemoteOrder := do
  let market ← okxMarket item
  readOrder ⟨"ordId", "clOrdId", "instId", ["state"], ["px"], "sz", ["accFillSz"]⟩
    market "" (fun item => item.getLower "side") okxReduceOnly item

/-- `_bybit_order`. -/
def bybitOrder (market : Market) : Json → Except Exc RemoteOrder :=
  readOrder ⟨"orderId", "orderLinkId", "symbol", ["orderStatus"], ["price"], "qty", ["cumExecQty"]⟩
    market.name "" (fun item => item.getLower "side") fun item => item.getBool "reduceOnly"

/-- `_bitget_side`. -/
def bitgetSide (market : Market) (item : Json) : Except Exc String := do
  let side ← item.getLower "side"
  let action ← item.getLower "tradeSide"
  if market = .perp ∧ action = "close" then return if side = "sell" then "buy" else "sell"
  else return side

/-- The reduce-only flag of a classic Bitget order. -/
def bitgetReduceOnly (item : Json) : Except Exc Bool := do
  let flag ← item.getLower "reduceOnly"
  let action ← item.getLower "tradeSide"
  return flag = "yes" || action = "close"

/-- `_bitget_order`. -/
def bitgetOrder (market : Market) : Json → Except Exc RemoteOrder :=
  readOrder ⟨"orderId", "clientOid", "symbol", ["status", "state"], ["priceAvg", "price"], "size",
    ["baseVolume", "filledQty"]⟩ market.name "" (bitgetSide market) bitgetReduceOnly

/-- The reduce-only flag of a UTA order. -/
def bitgetUtaReduceOnly (market : Market) (item : Json) : Except Exc Bool := do
  let flag ← item.getLower "reduceOnly"
  let short ← item.getLower "posSide"
  let buy ← item.getLower "side"
  return flag = "yes" || (market = .perp && short = "short" && buy = "buy")

/-- `_bitget_uta_order`. -/
def bitgetUtaOrder (market : Market) : Json → Except Exc RemoteOrder :=
  readOrder ⟨"orderId", "clientOid", "symbol", ["orderStatus"], ["avgPrice", "price"], "qty",
    ["cumExecQty"]⟩ market.name "" (fun item => item.getLower "side") (bitgetUtaReduceOnly market)

/-- `_gate_spot_order`. -/
def gateSpotOrder : Json → Except Exc RemoteOrder :=
  readOrder ⟨"id", "text", "currency_pair", ["status"], ["price"], "amount", ["filled_amount"]⟩
    "spot" "" (fun item => item.getLower "side") fun _ => .ok false

/-- `_gate_perp_order`: the sign of the size is the side. -/
def gatePerpOrder (item : Json) : Except Exc RemoteOrder := do
  let quantity ← item.getNumber ["size"]
  let remaining ← item.getNumber ["left"]
  let exchangeOrderId ← item.getText "id" ""
  let clientOrderId ← item.getOptionalText "text"
  let symbol ← item.getText "contract" ""
  let status ← item.getFirst "" ["status"]
  let price ← item.getNumber ["price"]
  let isReduceOnly ← item.getBool "is_reduce_only"
  let reduceOnly ← item.getBool "reduce_only"
  return {
    exchangeOrderId, clientOrderId, market := "perp", symbol, status, price
    side := if 0 < quantity then "buy" else "sell"
    originalQuantity := rounded |quantity|
    filledQuantity := max 0 (rounded (rounded |quantity| - rounded |remaining|))
    reduceOnly := isReduceOnly || reduceOnly }

/-- The side of a perpetual action of MEXC. -/
def mexcSide (item : Json) : Except Exc String := do
  let side ← item.getInt "side"
  return if side = 1 ∨ side = 2 then "buy" else "sell"

/-- The perpetual actions of MEXC that close. -/
def mexcReduceOnly (item : Json) : Except Exc Bool := do
  let side ← item.getInt "side"
  return side = 2 ∨ side = 4

/-- `_mexc_perp_order`. -/
def mexcPerpOrder : Json → Except Exc RemoteOrder :=
  readOrder ⟨"orderId", "externalOid", "symbol", ["state"], ["price"], "vol", ["dealVol"]⟩
    "perp" "" mexcSide mexcReduceOnly

/-- The order object of `order_by_client_id`. -/
def lookupOrder (a : Adapter) (market : Market) (symbol : String) : Json → Except Exc RemoteOrder :=
  match a, market with
  | .binance, market => binanceOrder market
  | .okx, market => okxOrder market symbol
  | .bybit, market => bybitOrder market
  | .bitget, market => bitgetOrder market
  | .bitgetUta, market => bitgetUtaOrder market
  | .gate, .spot => gateSpotOrder
  | .gate, .perp => gatePerpOrder
  | .mexc, .spot => binanceOrder .spot
  | .mexc, .perp => mexcPerpOrder

/-- An order object of the open orders in `trading_state`. -/
def openOrder (a : Adapter) (market : Market) : Json → Except Exc RemoteOrder :=
  match a with
  | .okx => okxPendingOrder
  | a => lookupOrder a market ""

/-! ## §4. Reading a field. -/

/-- An empty string is no decimal: an adapter that finds one in a quantity
raises. -/
theorem pyDecimal_empty :
    pyDecimal "" = .error (.ofKind .arithmetic "ConversionSyntax") := by
  unfold pyDecimal
  decide +kernel

/-- A text that is a number is not empty. -/
theorem ne_empty_of_pyDecimal {t : String} {d : PyDecimal} (h : pyDecimal t = .ok d) : t ≠ "" := by
  rintro rfl
  rw [pyDecimal_empty] at h
  cases h

namespace Json

variable {item : Json} {k : String}

/-- Where one key can be asked for, every key can. -/
theorem get_of_get {v : Json} (h : item.get k = .ok v) (k' : String) :
    ∃ v', item.get k' = .ok v' := by
  cases item with
  | obj fields => exact ⟨_, rfl⟩
  | _ => cases h

/-- `str(item.get(k) or default)` is the text itself where it is not empty. -/
theorem getText_of_ne {s default : String} (h : item.get k = .ok (.str s)) (hs : s ≠ "") :
    item.getText k default = .ok s := by
  rw [getText_of_get h]
  unfold orElse truthy
  rw [if_pos (by simpa using hs), text]

/-- An optional text that is present and not empty is read as it stands. -/
theorem getOptionalText_of_ne {s : String} (h : item.get k = .ok (.str s)) (hs : s ≠ "") :
    item.getOptionalText k = .ok (some s) := by
  unfold getOptionalText truthy
  rw [h]
  simp [bind, Except.bind, pure, Except.pure, hs, text]

theorem getBool_of_get {v : Json} (h : item.get k = .ok v) : item.getBool k = .ok v.truthy := by
  unfold getBool
  rw [h]
  rfl

/-- A null is falsy, so the default takes its place. -/
theorem getText_of_null (default : String) (h : item.get k = .ok .null) :
    item.getText k default = .ok default := by
  rw [getText_of_get h]
  rfl

/-- A side or a type that an exchange writes in capitals is compared in lower
case. -/
theorem getLower_of_str {s : String} (h : item.get k = .ok (.str s)) :
    item.getLower k = .ok (String.ofList (pyLowerString s.toList)) := by
  unfold getLower
  rw [getText_of_str h]
  rfl

theorem getLower_of_null (h : item.get k = .ok .null) : item.getLower k = .ok "" := by
  unfold getLower
  rw [getText_of_null "" h]
  rfl

theorem getInt_of_get {n : Int} (h : item.get k = .ok (.int n)) : item.getInt k = .ok n := by
  unfold getInt
  rw [h]
  unfold orElse truthy
  by_cases hn : n = 0
  · simp [bind, Except.bind, pure, Except.pure, hn]
  · simp [bind, Except.bind, pure, Except.pure, hn]

/-- A number that was written as text. -/
theorem getNumber_of_text {t : String} {q : ℚ} (h : item.get k = .ok (.str t))
    (ht : pyDecimal t = .ok (.finite q)) : item.getNumber [k] = .ok q := by
  have htruthy : (Json.str t).truthy = true := by
    unfold truthy
    simpa using ne_empty_of_pyDecimal ht
  unfold getNumber getFirst
  rw [h]
  simp [bind, Except.bind, pure, Except.pure, htruthy, text, ht, PyDecimal.required]

/-- A number that was written as a whole number. -/
theorem getNumber_of_int {n : Int} (h : item.get k = .ok (.int n)) :
    item.getNumber [k] = .ok (n : ℚ) := by
  unfold getNumber getFirst getFirst
  rw [h]
  by_cases hn : n = 0
  · have hzero : pyDecimal "0" = .ok (.finite ((0 : Int) : ℚ)) := pyDecimal_int 0
    simp [bind, Except.bind, truthy, hn, hzero, PyDecimal.required]
  · have htext : pyDecimal n.repr = .ok (.finite (n : ℚ)) := pyDecimal_int n
    simp [bind, Except.bind, pure, Except.pure, truthy, hn, text, htext, PyDecimal.required]

/-- Any of several fields can be asked for. -/
theorem getFirst_of_get {v : Json} (h : item.get k = .ok v) (default : String) :
    ∀ keys, ∃ t, item.getFirst default keys = .ok t
  | [] => ⟨default, rfl⟩
  | key :: rest => by
      obtain ⟨x, hx⟩ := get_of_get h key
      obtain ⟨t, ht⟩ := getFirst_of_get h default rest
      unfold getFirst
      rw [hx]
      by_cases htruthy : x.truthy = true
      · exact ⟨x.text, by simp [bind, Except.bind, htruthy]; rfl⟩
      · exact ⟨t, by simp [bind, Except.bind, htruthy, ht]⟩

end Json

/-- The size that Gate is sent: the quantity rounded to the context. -/
theorem getNumber_wireQuantity {item : Json} {k : String} {d : Decimal}
    (h : item.get k = .ok (wireQuantity d)) :
    ∃ q, item.getNumber [k] = .ok q ∧ rounded |q| = rounded d.magnitude
      ∧ (0 < q ↔ 0 < d.value) := by
  unfold wireQuantity at h
  by_cases hint : d.isIntegral = true
  · rw [if_pos hint] at h
    refine ⟨d.value, ?_, by rw [d.abs_value], Iff.rfl⟩
    rw [Json.getNumber_of_int h, Decimal.toInt_of_isIntegral hint]
  · rw [if_neg hint] at h
    refine ⟨_, Json.getNumber_of_text h d.pyDecimal_plainDecimal, ?_, ?_⟩
    · have hnonneg : 0 ≤ rounded d.magnitude := by
        rw [← Decimal.magnitude_fix]
        exact Decimal.magnitude_nonneg _
      split
      · rw [abs_neg, abs_of_nonneg hnonneg, rounded_rounded]
      · rw [abs_of_nonneg hnonneg, rounded_rounded]
    · rw [d.value_pos_iff, ← rounded_pos_iff d.magnitude_nonneg]
      cases d.negative with
      | true =>
          have hnonneg : 0 ≤ rounded d.magnitude := by
            rw [← Decimal.magnitude_fix]
            exact Decimal.magnitude_nonneg _
          simpa using hnonneg
      | false => simp

/-- A sold quantity is negative. -/
theorem signedQuantity_spec {side : Side} {d : Decimal} (h : 0 < d.value) :
    rounded (signedQuantity side d).magnitude = rounded d.value
      ∧ (0 < (signedQuantity side d).value ↔ side = .buy) := by
  have hpos := (d.value_pos_iff).mp h
  have hvalue : d.value = d.magnitude := by
    unfold Decimal.value
    rw [hpos.1]
    rfl
  cases side with
  | buy => exact ⟨by rw [hvalue]; rfl, by simpa [signedQuantity] using h⟩
  | sell =>
      constructor
      · show rounded d.neg.magnitude = _
        rw [d.magnitude_neg, rounded_rounded, hvalue]
      · show 0 < d.neg.value ↔ _
        rw [d.neg.value_pos_iff, d.neg_negative, hpos.1]
        simp

end BasisHawk.Accounts
