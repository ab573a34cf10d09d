/-
  BasisHawk.Accounts.PerpConfiguration
  ────────────────────────────────────
  `configure_perp` of OKX, Bybit, Gate and MEXC (`accounts.py`): read the
  leverage, set it where it differs, read it back.
-/
import BasisHawk.Accounts.Http
import BasisHawk.Accounts.Remote

namespace BasisHawk.Accounts

open Domain Lib

/-! ## §1. What the four have in common. -/

/-- The checks every `configure_perp` begins with. -/
def checkConfiguration (leverage : Nat) (positionMode : PositionMode) : Except Exc Unit := do
  raiseIf (leverage < 1 ∨ 10 < leverage) (.value "leverage must be between 1 and 10")
  raiseIf (positionMode = .unknown) (.value "position mode must be known before configuration")

/-- `Decimal(str(row.get(key) or "0")) == Decimal(leverage)`, a missing row
never. -/
def leverageIs (row : Option Json) (key : String) (leverage : Nat) : Except Exc Bool :=
  match row with
  | none => .ok false
  | some row => do
      let value ← row.getDecimal key
      return value = .finite leverage

/-- `Decimal(str(row.get(key) or "0")) != 0`. -/
def hasSize (key : String) (row : Json) : Except Exc Bool := do
  let value ← row.getDecimal key
  return value ≠ .finite 0

/-- The value of the enumeration. -/
def marginValue : PerpMarginMode → String
  | .isolated => "isolated"
  | .cross => "cross"

/-! ## §2. OKX. -/

/-- The row of `leverage-info` the configuration is read from. -/
def okxTargetSide (positionMode : PositionMode) : String :=
  if positionMode = .hedge then "short" else "net"

def okxLeverageInfo (symbol : String) (margin : PerpMarginMode) : Http (List Json) := do
  let payload ← request ⟨.get, .main, ["api", "v5", "account", "leverage-info"],
    [("instId", .str symbol), ("mgnMode", .str (marginValue margin))]⟩
  evaluate (okxSuccess payload)
  evaluate (payload.getItems "data")

/-- The symbol has neither open orders nor positions. -/
def okxFlat (pending positions : Json) : Except Exc Unit := do
  okxSuccess pending
  okxSuccess positions
  let orders ← pending.get "data"
  let held ← Json.anyRow (hasSize "pos") (← positions.getItems "data")
  raiseIf (orders.truthy ∨ held)
    (requestError "cannot change OKX leverage with open orders or positions")

def okxRequireFlat (symbol : String) : Http Unit := do
  let pending ← request ⟨.get, .main, ["api", "v5", "trade", "orders-pending"],
    [("instId", .str symbol)]⟩
  let positions ← request ⟨.get, .main, ["api", "v5", "account", "positions"],
    [("instId", .str symbol)]⟩
  evaluate (okxFlat pending positions)

/-- `_okx_command_item` without a subcode, and the leverage it must name. -/
def okxAccepted (payload : Json) (leverage : Nat) : Except Exc Unit := do
  okxSuccess payload
  let rows ← payload.getItems "data"
  let item ← found rows.head? (requestError "OKX leverage configuration was rejected")
  let accepted ← leverageIs (some item) "lever" leverage
  raiseIf (accepted = false) (requestError "OKX leverage configuration was not confirmed")

def okxSetLeverage (symbol : String) (leverage : Nat) (positionMode : PositionMode)
    (margin : PerpMarginMode) : Http Unit := do
  let payload ← request ⟨.post, .main, ["api", "v5", "account", "set-leverage"],
    [("instId", .str symbol), ("lever", .str (toString leverage)),
      ("mgnMode", .str (marginValue margin))]
      ++ if positionMode = .hedge ∧ margin = .isolated then [("posSide", .str "short")] else []⟩
  evaluate (okxAccepted payload leverage)

/-- The row the configuration is read from. -/
def okxCurrent (positionMode : PositionMode) (rows : List Json) : Except Exc (Option Json) :=
  Json.findRow (fun row => do
    return (← row.getText "posSide" "net") = okxTargetSide positionMode) rows

/-- The row of the readback, which must also name the margin mode. -/
def okxConfirmed (positionMode : PositionMode) (margin : PerpMarginMode) (rows : List Json) :
    Except Exc (Option Json) :=
  Json.findRow (fun row => do
    if (← row.getText "posSide" "net") = okxTargetSide positionMode then
      return (← row.getText "mgnMode" (marginValue margin)) = marginValue margin
    else return false) rows

/-- The readback. -/
def okxReadback (symbol : String) (leverage : Nat) (positionMode : PositionMode)
    (margin : PerpMarginMode) : Http PerpConfiguration := do
  let rows ← okxLeverageInfo symbol margin
  let confirmed ← evaluate (okxConfirmed positionMode margin rows)
  let settled ← evaluate (leverageIs confirmed "lever" leverage)
  evaluate (raiseIf (settled = false) (requestError "OKX leverage readback was not confirmed"))
  return ⟨symbol, leverage, margin = .isolated, positionMode⟩

/-- `OkxAccountClient.configure_perp`. -/
def okxConfigurePerp (symbol : String) (leverage : Nat) (positionMode : PositionMode)
    (margin : PerpMarginMode) : Http PerpConfiguration := do
  evaluate (checkConfiguration leverage positionMode)
  let rows ← okxLeverageInfo symbol margin
  let current ← evaluate (okxCurrent positionMode rows)
  let settled ← evaluate (leverageIs current "lever" leverage)
  if settled then return ⟨symbol, leverage, margin = .isolated, positionMode⟩
  else do
    okxRequireFlat symbol
    okxSetLeverage symbol leverage positionMode margin
    okxReadback symbol leverage positionMode margin

/-! ## §3. Bybit. -/

/-- A page list that ended within the fuel. -/
def paged (path : List String) (params : List (String × Json)) (fuel : Nat) :
    Http (Option (List Json)) := bybitPaged path params fuel none

/-- `int(item["positionIdx"]) for item in positions if item.get("positionIdx") is not None`. -/
def bybitIndexes : List Json → Except Exc (List Int)
  | [] => .ok []
  | item :: rest => do
      match ← item.get "positionIdx" with
      | .null => bybitIndexes rest
      | _ => do
          let index ← item.getInt "positionIdx"
          let others ← bybitIndexes rest
          return index :: others

/-- `_bybit_position_mode`. -/
def bybitPositionMode (positions : List Json) : Except Exc PositionMode := do
  let indexes ← bybitIndexes positions
  return if 1 ∈ indexes ∨ 2 ∈ indexes then .hedge else if 0 ∈ indexes then .oneWay else .unknown

def bybitAccountInfo : Http Json := request ⟨.get, .main, ["v5", "account", "info"], []⟩

/-- The margin mode `/v5/account/info` names. -/
def bybitMarginMode (info : Json) : Except Exc String := do
  let result ← info.get "result"
  (result.orElse (.obj [])).getText "marginMode" ""

/-- The account is in the requested position mode; its margin mode. -/
def bybitDetected (info : Json) (positions : List Json) (positionMode : PositionMode) :
    Except Exc String := do
  bybitSuccess info
  let detected ← bybitPositionMode positions
  raiseIf (detected ≠ positionMode)
    (requestError "Bybit position mode does not match the requested configuration")
  bybitMarginMode info

/-- The position index the configuration is read from. -/
def bybitTargetIndex (positionMode : PositionMode) : Int :=
  if positionMode = .hedge then 2 else 0

def bybitSymbolPositions (symbol : String) (fuel : Nat) : Http (Option (List Json)) :=
  paged ["v5", "position", "list"]
    [("category", .str "linear"), ("symbol", .str symbol), ("limit", .int 200)] fuel

def bybitCurrent (rows : List Json) (positionMode : PositionMode) : Except Exc (Option Json) :=
  Json.findRow (fun row => do return (← row.getInt "positionIdx") = bybitTargetIndex positionMode)
    rows

/-- `_bybit_result`. -/
def bybitResult (payload : Json) (action : String) : Except Exc Json := do
  bybitSuccess payload
  let result ← payload.get "result"
  raiseIf (result.isDict = false) (requestError ("Bybit " ++ action ++ " returned no result"))
  return result

/-- The whole account has neither open orders nor positions. -/
def bybitFlat (orders positions : List Json) : Except Exc Unit := do
  let held ← Json.anyRow (hasSize "size") positions
  raiseIf (orders.isEmpty = false ∨ held)
    (requestError "cannot change Bybit margin or leverage with open orders or positions")

def bybitRequireFlat (fuel : Nat) : Http (Option Unit) := do
  match ← paged ["v5", "order", "realtime"]
      [("category", .str "linear"), ("settleCoin", .str "USDT"), ("limit", .int 50)] fuel with
  | none => return none
  | some orders =>
    match ← paged ["v5", "position", "list"]
        [("category", .str "linear"), ("settleCoin", .str "USDT"), ("limit", .int 200)] fuel with
    | none => return none
    | some positions => do
        evaluate (bybitFlat orders positions)
        return some ()

/-- The answer to the switch of the margin mode. -/
def bybitSwitched (switched : Json) : Except Exc Unit := do
  let result ← bybitResult switched "margin mode configuration"
  let reasons ← result.get "reasons"
  raiseIf reasons.truthy (requestError "Bybit isolated margin configuration was not accepted")

/-- The readback of the switch. -/
def bybitIsolated (confirmed : Json) : Except Exc Unit := do
  bybitSuccess confirmed
  let margin ← bybitMarginMode confirmed
  raiseIf (margin ≠ "ISOLATED_MARGIN")
    (requestError "Bybit isolated margin configuration was not confirmed")

/-- The switch to isolated margin, read back. -/
def bybitIsolate : Http Unit := do
  let switched ← request ⟨.post, .main, ["v5", "account", "set-margin-mode"],
    [("setMarginMode", .str "ISOLATED_MARGIN")]⟩
  evaluate (bybitSwitched switched)
  let confirmed ← bybitAccountInfo
  evaluate (bybitIsolated confirmed)

/-- The request sets both sides. -/
def bybitSetLeverage (symbol : String) (leverage : Nat) : Http Unit := do
  let configured ← request ⟨.post, .main, ["v5", "position", "set-leverage"],
    [("category", .str "linear"), ("symbol", .str symbol),
      ("buyLeverage", .str (toString leverage)), ("sellLeverage", .str (toString leverage))]⟩
  let _ ← evaluate (bybitResult configured "leverage configuration")
  return ()

/-- The readback. -/
def bybitReadback (fuel : Nat) (symbol : String) (leverage : Nat) (positionMode : PositionMode) :
    Http (Option PerpConfiguration) := do
  match ← bybitSymbolPositions symbol fuel with
  | none => return none
  | some positions => do
      let confirmed ← evaluate (bybitCurrent positions positionMode)
      let settled ← evaluate (leverageIs confirmed "leverage" leverage)
      evaluate (raiseIf (settled = false)
        (requestError "Bybit leverage configuration was not confirmed"))
      return some ⟨symbol, leverage, true, positionMode⟩

/-- `BybitAccountClient.configure_perp`. -/
def bybitConfigurePerp (fuel : Nat) (symbol : String) (leverage : Nat)
    (positionMode : PositionMode) : Http (Option PerpConfiguration) := do
  evaluate (checkConfiguration leverage positionMode)
  let info ← bybitAccountInfo
  match ← bybitSymbolPositions symbol fuel with
  | none => return none
  | some positions => do
      let margin ← evaluate (bybitDetected info positions positionMode)
      let current ← evaluate (bybitCurrent positions positionMode)
      let settled ← evaluate
        (if margin = "ISOLATED_MARGIN" then leverageIs current "leverage" leverage else .ok false)
      if settled then
        return some ⟨symbol, leverage, true, positionMode⟩
      else
        match ← bybitRequireFlat fuel with
        | none => return none
        | some () => do
            (if margin ≠ "ISOLATED_MARGIN" then bybitIsolate else pure () : Http Unit)
            bybitSetLeverage symbol leverage
            bybitReadback fuel symbol leverage positionMode

/-! ## §4. Gate. -/

/-- The position row the configuration is read from. -/
def gateTargetMode (positionMode : PositionMode) : String :=
  if positionMode = .hedge then "dual_short" else "single"

/-- `_gate_position_leverage`. -/
def gatePositionLeverage (item : Json) (marginMode : String) : Except Exc PyDecimal := do
  let cross ← item.get "cross_leverage_limit"
  let lever ← item.get "lever"
  let leverage ← item.get "leverage"
  let blank := match cross with
    | .null => true
    | .str s => s = ""
    | _ => false
  if marginMode = "cross" ∧ blank = false then pyDecimal cross.text
  else pyDecimal ((lever.orElse leverage).orElse (.str "0")).text

/-- `str(item.get("pos_margin_mode") or "").lower()`. -/
def gateMarginMode (item : Json) : Except Exc String := do
  let mode ← item.getText "pos_margin_mode" ""
  return String.ofList (pyLowerString mode.toList)

/-- `_gate_portfolio_futures_enabled`. -/
def gatePortfolioFuturesEnabled (mode : Json) : Bool :=
  fieldIs mode "settings" fun settings =>
    fieldIs settings "usdt_futures" fun v => match v with | .bool b => b | _ => false

/-- The portfolio account, which only takes a leverage of one. -/
def gatePortfolio (symbol : String) (leverage : Nat) (positionMode : PositionMode) :
    Http PerpConfiguration := do
  let mode ← request ⟨.get, .main, ["api", "v4", "unified", "unified_mode"], []⟩
  evaluate (raiseIf (fieldIs mode "mode" (Json.isStr "portfolio") = false)
    (requestError "Gate portfolio margin mode could not be confirmed"))
  evaluate (raiseIf (gatePortfolioFuturesEnabled mode = false)
    (requestError "Gate portfolio USDT futures trading is disabled"))
  evaluate (raiseIf (leverage ≠ 1) (requestError
    "Gate portfolio margin automation only supports conservative 1x accounting"))
  return ⟨symbol, 1, false, positionMode⟩

/-- The row of `target_mode`, and whether it already has what is asked for. -/
def gateTarget (symbol : String) (leverage : Nat) (positionMode : PositionMode)
    (rows : List Json) : Except Exc Bool := do
  let target ← Json.findRow (fun row => do
    if (← row.getText "contract" "") = symbol then
      return (← row.getText "mode" "single") = gateTargetMode positionMode
    else return false) rows
  let item := target.getD (.obj [])
  let margin ← gateMarginMode item
  let current ← gatePositionLeverage item margin
  return target.isSome ∧ margin = "isolated" ∧ current = .finite leverage

/-- The symbol has neither open orders nor positions. -/
def gateFlat (symbol : String) (orders : Json) (rows : List Json) : Except Exc Unit := do
  let held ← Json.anyRow (fun row => do
    if (← row.getText "contract" "") = symbol then hasSize "size" row else return false) rows
  raiseIf (orders.truthy ∨ held)
    (requestError "cannot change Gate margin or leverage with open orders or positions")

def gateRequireFlat (symbol : String) (rows : List Json) : Http Unit := do
  let orders ← request ⟨.get, .main, ["api", "v4", "futures", "usdt", "orders"],
    [("contract", .str symbol), ("status", .str "open"), ("limit", .int 100), ("offset", .int 0)]⟩
  evaluate (gateFlat symbol orders rows)

/-- The answer to a set-leverage request, which is the readback. -/
def gateAccepted (configured : Json) (leverage : Nat) : Except Exc Unit := do
  raiseIf (configured.isDict = false)
    (requestError "Gate leverage configuration returned no result")
  let margin ← gateMarginMode configured
  let confirmed ← gatePositionLeverage configured margin
  raiseIf (margin ≠ "isolated" ∨ confirmed ≠ .finite leverage)
    (requestError "Gate margin and leverage configuration was not confirmed")

/-- The request names the short side in dual mode. -/
def gateSetLeverage (symbol : String) (leverage : Nat) (positionMode : PositionMode) :
    Http Unit := do
  let configured ← request ⟨.post, .main,
    ["api", "v4", "futures", "usdt", "positions", symbol, "set_leverage"],
    [("leverage", .str (toString leverage)), ("margin_mode", .str "isolated")]
      ++ if positionMode = .hedge then [("dual_side", .str "dual_short")] else []⟩
  evaluate (gateAccepted configured leverage)

/-- The account is in the requested position mode; its raw margin mode. -/
def gateAccountMode (account : Json) (positionMode : PositionMode) : Except Exc Int := do
  let detected := match ← account.get "in_dual_mode" with
    | .bool true => PositionMode.hedge
    | _ => PositionMode.oneWay
  raiseIf (detected ≠ positionMode)
    (requestError "Gate position mode does not match the requested configuration")
  let raw ← account.getInt "margin_mode"
  raiseIf (raw ≠ 0 ∧ raw ≠ 2)
    (requestError "Gate unified account mode is not supported; use classic or portfolio")
  return raw

/-- `GateAccountClient.configure_perp`. -/
def gateConfigurePerp (symbol : String) (leverage : Nat) (positionMode : PositionMode) :
    Http PerpConfiguration := do
  evaluate (checkConfiguration leverage positionMode)
  let account ← request ⟨.get, .main, ["api", "v4", "futures", "usdt", "accounts"], []⟩
  let positions ← request ⟨.get, .main, ["api", "v4", "futures", "usdt", "positions"], []⟩
  let raw ← evaluate (gateAccountMode account positionMode)
  if raw = 2 then gatePortfolio symbol leverage positionMode
  else do
    let rows ← evaluate positions.items
    let settled ← evaluate (gateTarget symbol leverage positionMode rows)
    if settled then return ⟨symbol, leverage, true, positionMode⟩
    else do
      gateRequireFlat symbol rows
      gateSetLeverage symbol leverage positionMode
      return ⟨symbol, leverage, true, positionMode⟩

/-! ## §5. MEXC. -/

/-- A payload that must be a success. -/
def mexcRequire (payload : Json) (message : String) : Except Exc Unit := do
  let success ← mexcSuccess payload
  raiseIf (success = false) (requestError message)

/-- Every payload of the capability probe must be a success. -/
def mexcProbe : List Json → Except Exc Unit
  | [] => .ok ()
  | payload :: rest => do
      mexcRequire payload "MEXC contract capability probe failed; trading is read-only"
      mexcProbe rest

/-- The leverage rows: `data or []`, a single row standing for a list of one. -/
def mexcLeverageRows (payload : Json) : Except Exc (List Json) := do
  let data := (← payload.get "data").orElse (.arr [])
  if data.isDict then return [data] else data.items

/-- The row of position type 2, the short side. -/
def mexcShort (rows : List Json) : Except Exc (Option Json) :=
  Json.findRow (fun row => do return (← row.getInt "positionType") = 2) rows

/-- The short side is listed at this leverage. -/
def mexcLeverageSettled (payload : Json) (leverage : Nat) : Except Exc Bool := do
  let rows ← mexcLeverageRows payload
  let short ← mexcShort rows
  leverageIs short "leverage" leverage

/-- The open short position of the symbol is isolated at this leverage. -/
def mexcPositionSettled (symbol : String) (leverage : Nat) (positions : List Json) :
    Except Exc Bool := do
  let target ← Json.findRow (fun row => do
    if (← row.getText "symbol" "") = symbol then return (← row.getInt "positionType") = 2
    else return false) positions
  match target with
  | none => return false
  | some row => do
      if (← row.getInt "openType") = 1 then leverageIs (some row) "leverage" leverage
      else return false

/-- The open orders of `list/open_orders`. -/
def mexcOpenOrders (payload : Json) : Except Exc Json := do
  let data := (← payload.get "data").orElse (.obj [])
  let orders ← if data.isDict then data.get "resultList" else .ok data
  return orders.orElse (.arr [])

/-- The symbol has neither open orders nor positions. -/
def mexcFlat (pending : Json) (held : List Json) : Except Exc Unit := do
  let orders ← mexcOpenOrders pending
  let occupied ← Json.anyRow (hasSize "holdVol") held
  raiseIf (orders.truthy ∨ occupied)
    (requestError "cannot change MEXC leverage with open orders or positions")

/-- The position mode `position_mode` names. -/
def mexcPositionMode (mode : Json) : Except Exc PositionMode := do
  match ← mode.get "data" with
  | .int n => return if n = 1 then .hedge else if n = 2 then .oneWay else .unknown
  | .bool b => return if b then .hedge else .unknown
  | .float t => return if pyDecimal t = .ok (.finite 1) then .hedge
      else if pyDecimal t = .ok (.finite 2) then .oneWay else .unknown
  | _ => return .unknown

/-- The write request, for the short side alone, and its readback. -/
def mexcChangeLeverage (symbol : String) (leverage : Nat) : Http Unit := do
  let configured ← request ⟨.post, .perp, ["api", "v1", "private", "position", "change_leverage"],
    [("openType", .int 1), ("leverage", .int leverage), ("symbol", .str symbol),
      ("positionType", .int 2)]⟩
  evaluate (mexcRequire configured
    "MEXC contract write capability probe failed; trading is read-only")
  let confirmed ← request ⟨.get, .perp, ["api", "v1", "private", "position", "leverage"],
    [("symbol", .str symbol)]⟩
  evaluate (mexcRequire confirmed "MEXC leverage configuration could not be confirmed")
  let settled ← evaluate (mexcLeverageSettled confirmed leverage)
  evaluate (raiseIf (settled = false)
    (requestError "MEXC isolated leverage configuration was not confirmed"))

/-- `MexcAccountClient.configure_perp`. -/
def mexcConfigurePerp (symbol : String) (leverage : Nat) (positionMode : PositionMode) :
    Http PerpConfiguration := do
  evaluate (checkConfiguration leverage positionMode)
  let mode ← request ⟨.get, .perp, ["api", "v1", "private", "position", "position_mode"], []⟩
  let leverages ← request ⟨.get, .perp, ["api", "v1", "private", "position", "leverage"],
    [("symbol", .str symbol)]⟩
  let pending ← request ⟨.get, .perp, ["api", "v1", "private", "order", "list", "open_orders"],
    [("symbol", .str symbol), ("page_num", .int 1), ("page_size", .int 100)]⟩
  let positions ← request ⟨.get, .perp, ["api", "v1", "private", "position", "open_positions"],
    [("symbol", .str symbol)]⟩
  evaluate (mexcProbe [mode, leverages, pending, positions])
  let detected ← evaluate (mexcPositionMode mode)
  evaluate (raiseIf (detected ≠ positionMode)
    (requestError "MEXC position mode does not match the requested configuration"))
  let held ← evaluate (positions.getItems "data")
  let positionSettled ← evaluate (mexcPositionSettled symbol leverage held)
  let settled ← evaluate (mexcLeverageSettled leverages leverage)
  if positionSettled ∧ settled then return ⟨symbol, leverage, true, positionMode⟩
  else do
    evaluate (mexcFlat pending held)
    mexcChangeLeverage symbol leverage
    return ⟨symbol, leverage, true, positionMode⟩

end BasisHawk.Accounts
