/-
  BasisHawk.Accounts.PerpExchange
  ───────────────────────────────
  The exchange on the other side of `configure_perp`: a leverage for each
  symbol, margin mode and position slot, which a set-leverage request changes
  for exactly the slots it names.

  Main results:
    • `okx_configured`, `bybit_configured`, `gate_configured`,
      `mexc_configured` — what a configuration that returns has read, and which
      slots it has set.
-/
import BasisHawk.Accounts.PerpConfiguration

namespace BasisHawk.Accounts

open Domain Lib

/-! ## §1. The configuration of an exchange. -/

/-- Where an exchange keeps a leverage of its own: the one net position of
one-way mode, or one of the two sides. -/
inductive Slot where
  | net | long | short
  deriving DecidableEq

/-- A row of a position list. -/
structure HeldPosition where
  symbol : String
  slot : Slot
  margin : PerpMarginMode
  size : String

/-- What the four exchanges keep.  Bybit has one margin mode for the account,
Gate one for each slot; on OKX and MEXC an order names its own. -/
structure PerpExchange where
  positionMode : PositionMode
  accountMargin : PerpMarginMode
  slotMargin : String → Slot → PerpMarginMode
  lever : String → PerpMarginMode → Slot → Nat
  openOrders : List String
  positions : List HeldPosition

namespace PerpExchange

/-- The slots of a position mode. -/
def slots (v : PerpExchange) : List Slot :=
  if v.positionMode = .hedge then [.long, .short] else [.net]

/-- Set the leverage of the named slots of one symbol and margin mode. -/
def setLever (v : PerpExchange) (symbol : String) (margin : PerpMarginMode) (named : List Slot)
    (n : Nat) : PerpExchange :=
  { v with lever := fun s m k => if s = symbol ∧ m = margin ∧ k ∈ named then n else v.lever s m k }

/-- Set the margin mode of the named slots of one symbol. -/
def setSlotMargin (v : PerpExchange) (symbol : String) (margin : PerpMarginMode)
    (named : List Slot) : PerpExchange :=
  { v with slotMargin := fun s k => if s = symbol ∧ k ∈ named then margin else v.slotMargin s k }

end PerpExchange

/-! ## §2. Answers. -/

/-- A text parameter of a request. -/
def HttpCall.text (c : HttpCall) (k : String) : String :=
  match c.params.lookup k with
  | some (.str s) => s
  | _ => ""

/-- A whole number parameter of a request, given as a number or as text. -/
def HttpCall.number (c : HttpCall) (k : String) : Nat :=
  match c.params.lookup k with
  | some (.int n) => n.toNat
  | some (.str s) => match pyDecimal s with
      | .ok (.finite q) => ⌊q⌋.toNat
      | _ => 0
  | _ => 0

def marginOfText (s : String) : PerpMarginMode := if s = "cross" then .cross else .isolated

/-- An HTTP success with this body. -/
def answered (body : Json) : Response := .received 200 (some body)

namespace PerpExchange

/-- An OKX payload. -/
def okxPayload (rows : List Json) : Response :=
  answered (.obj [("code", .str "0"), ("data", .arr rows)])

def okxSide : Slot → String
  | .net => "net"
  | .long => "long"
  | .short => "short"

def okxLeverageRow (v : PerpExchange) (symbol : String) (margin : PerpMarginMode) (k : Slot) : Json :=
  .obj [("instId", .str symbol), ("mgnMode", .str (marginValue margin)),
    ("posSide", .str (okxSide k)), ("lever", .str (toString (v.lever symbol margin k)))]

/-- The slots an OKX request names: its `posSide`, or without one the whole
symbol, which isolated hedge mode refuses. -/
def okxNamed (v : PerpExchange) (margin : PerpMarginMode) (side : String) : Option (List Slot) :=
  if side = "long" then some [.long]
  else if side = "short" then some [.short]
  else if v.positionMode = .hedge ∧ margin = .isolated then none
  else some v.slots

def okxRead (c : HttpCall) (v : PerpExchange) : Response :=
  let symbol := c.text "instId"
  if c.path = ["api", "v5", "account", "leverage-info"] then
    okxPayload (v.slots.map (v.okxLeverageRow symbol (marginOfText (c.text "mgnMode"))))
  else if c.path = ["api", "v5", "trade", "orders-pending"] then
    okxPayload ((v.openOrders.filter (· = symbol)).map fun s => .obj [("instId", .str s)])
  else if c.path = ["api", "v5", "account", "positions"] then
    okxPayload ((v.positions.filter (·.symbol = symbol)).map fun p =>
      .obj [("instId", .str p.symbol), ("posSide", .str (okxSide p.slot)), ("pos", .str p.size)])
  else .received 404 none

/-- `set-leverage`. -/
def okxWrite (c : HttpCall) (v : PerpExchange) : Response × PerpExchange :=
  let symbol := c.text "instId"
  let margin := marginOfText (c.text "mgnMode")
  match v.okxNamed margin (c.text "posSide") with
  | none => (answered (.obj [("code", .str "51000"), ("data", .arr [])]), v)
  | some named =>
      (okxPayload [.obj [("instId", .str symbol), ("lever", .str (c.text "lever"))]],
        v.setLever symbol margin named (c.number "lever"))

/-- A Bybit payload with a page of rows. -/
def bybitPage (rows : List Json) : Response :=
  answered (.obj [("retCode", .int 0), ("result", .obj [("list", .arr rows)])])

def bybitIndex : Slot → Int
  | .net => 0
  | .long => 1
  | .short => 2

def bybitMarginWord : PerpMarginMode → String
  | .isolated => "ISOLATED_MARGIN"
  | .cross => "REGULAR_MARGIN"

def bybitPositionRow (v : PerpExchange) (symbol : String) (k : Slot) : Json :=
  .obj [("symbol", .str symbol), ("positionIdx", .int (bybitIndex k)),
    ("leverage", .str (toString (v.lever symbol v.accountMargin k)))]

def bybitRead (c : HttpCall) (v : PerpExchange) : Response :=
  if c.path = ["v5", "account", "info"] then
    answered (.obj [("retCode", .int 0),
      ("result", .obj [("marginMode", .str (bybitMarginWord v.accountMargin))])])
  else if c.path = ["v5", "order", "realtime"] then
    bybitPage (v.openOrders.map fun s => .obj [("symbol", .str s)])
  else if c.path = ["v5", "position", "list"] then
    if (c.params.lookup "settleCoin").isSome then
      bybitPage (v.positions.map fun p => .obj [("symbol", .str p.symbol), ("size", .str p.size)])
    else bybitPage (v.slots.map (v.bybitPositionRow (c.text "symbol")))
  else .received 404 none

/-- `set-margin-mode` and `set-leverage`.  The one-way position takes the buy
leverage. -/
def bybitWrite (c : HttpCall) (v : PerpExchange) : Response × PerpExchange :=
  if c.path = ["v5", "account", "set-margin-mode"] then
    (answered (.obj [("retCode", .int 0), ("result", .obj [("reasons", .arr [])])]),
      { v with accountMargin := .isolated })
  else
    (answered (.obj [("retCode", .int 0), ("result", .obj [])]),
      (v.setLever (c.text "symbol") v.accountMargin [.net, .long] (c.number "buyLeverage")).setLever
        (c.text "symbol") v.accountMargin [.short] (c.number "sellLeverage"))

def gateMode : Slot → String
  | .net => "single"
  | .long => "dual_long"
  | .short => "dual_short"

def gateRow (v : PerpExchange) (symbol : String) (size : String) (k : Slot) : Json :=
  let margin := v.slotMargin symbol k
  .obj [("contract", .str symbol), ("mode", .str (gateMode k)), ("size", .str size),
    ("pos_margin_mode", .str (marginValue margin)),
    ("cross_leverage_limit", .str (toString (v.lever symbol .cross k))),
    ("lever", .str (toString (v.lever symbol margin k)))]

/-- The slots a Gate request names. -/
def gateNamed (v : PerpExchange) (side : String) : List Slot :=
  if side = "dual_long" then [.long] else if side = "dual_short" then [.short] else v.slots

/-- A classic account. -/
def gateRead (c : HttpCall) (v : PerpExchange) : Response :=
  if c.path = ["api", "v4", "futures", "usdt", "accounts"] then
    answered (.obj [("in_dual_mode", .bool (v.positionMode = .hedge)), ("margin_mode", .int 0)])
  else if c.path = ["api", "v4", "futures", "usdt", "positions"] then
    answered (.arr (v.positions.map fun p => v.gateRow p.symbol p.size p.slot))
  else if c.path = ["api", "v4", "futures", "usdt", "orders"] then
    answered (.arr ((v.openOrders.filter (· = c.text "contract")).map fun s =>
      .obj [("contract", .str s)]))
  else .received 404 none

/-- `set_leverage`, answered with the row of the first slot it names. -/
def gateWrite (c : HttpCall) (v : PerpExchange) : Response × PerpExchange :=
  let symbol := c.path.getD 5 ""
  let margin := marginOfText (c.text "margin_mode")
  let named := v.gateNamed (c.text "dual_side")
  let v' := (v.setSlotMargin symbol margin named).setLever symbol margin named (c.number "leverage")
  (answered (v'.gateRow symbol "0" (named.headD .net)), v')

/-- A MEXC payload. -/
def mexcPayload (data : Json) : Response :=
  answered (.obj [("success", .bool true), ("code", .int 0), ("data", data)])

/-- The position type of a slot: the net position of one-way mode counts as
neither side, its leverage is kept by side all the same. -/
def mexcType : Slot → Int
  | .net => 0
  | .long => 1
  | .short => 2

def mexcLeverageRow (v : PerpExchange) (symbol : String) (k : Slot) : Json :=
  .obj [("positionType", .int (mexcType k)), ("leverage", .int (v.lever symbol .isolated k))]

def mexcRead (c : HttpCall) (v : PerpExchange) : Response :=
  let symbol := c.text "symbol"
  if c.path = ["api", "v1", "private", "position", "position_mode"] then
    mexcPayload (.int (if v.positionMode = .hedge then 1 else 2))
  else if c.path = ["api", "v1", "private", "position", "leverage"] then
    mexcPayload (.arr ([Slot.long, .short].map (v.mexcLeverageRow symbol)))
  else if c.path = ["api", "v1", "private", "order", "list", "open_orders"] then
    mexcPayload (.obj [("resultList", .arr ((v.openOrders.filter (· = symbol)).map fun s =>
      .obj [("symbol", .str s)]))])
  else if c.path = ["api", "v1", "private", "position", "open_positions"] then
    mexcPayload (.arr ((v.positions.filter (·.symbol = symbol)).map fun p =>
      .obj [("symbol", .str p.symbol), ("positionType", .int (mexcType p.slot)),
        ("openType", .int (if p.margin = .isolated then 1 else 2)),
        ("leverage", .int (v.lever p.symbol p.margin p.slot)), ("holdVol", .str p.size)]))
  else .received 404 none

/-- `change_leverage`. -/
def mexcWrite (c : HttpCall) (v : PerpExchange) : Response × PerpExchange :=
  (mexcPayload .null, v.setLever (c.text "symbol")
    (if c.number "openType" = 1 then .isolated else .cross)
    (if c.number "positionType" = 2 then [.short] else [.long]) (c.number "leverage"))

/-- An exchange at work: reading changes nothing. -/
def serve (read : HttpCall → PerpExchange → Response)
    (write : HttpCall → PerpExchange → Response × PerpExchange) (c : HttpCall) (v : PerpExchange) :
    Response × PerpExchange :=
  if c.method = .get then (read c v, v) else write c v

def okxServe := serve okxRead okxWrite

def bybitServe := serve bybitRead bybitWrite

def gateServe := serve gateRead gateWrite

def mexcServe := serve mexcRead mexcWrite

/-! ## §3. Reading changes nothing. -/

section Reading

variable {read : HttpCall → PerpExchange → Response}
  {write : HttpCall → PerpExchange → Response × PerpExchange}

/-- A GET is answered from the exchange as it stands and leaves it there. -/
theorem serve_get {c : HttpCall} {v : PerpExchange} (h : c.method = .get) :
    serve read write c v = (read c v, v) := if_pos h

/-- A program that only reads ends where it began. -/
theorem run_reads {α : Type} {p : Http α} (hp : Reads p) {v v' : PerpExchange} {r : Except Exc α}
    (h : p.run (serve read write) v = (r, v')) : v' = v := by
  have hsame : (p.run (serve read write) v).2 = v :=
    hp.run_snd (fun c s hc => by rw [serve_get hc]) v
  rw [h] at hsame
  exact hsame

/-- What a read returns, and that the exchange is as it was. -/
theorem run_get_bind_ok {α : Type} {path : List String} {host : Host}
    {params : List (String × Json)} {f : Json → Http α} {v t : PerpExchange} {a : α} :
    (request ⟨.get, host, path, params⟩ >>= f).run (serve read write) v = (.ok a, t)
      ↔ ∃ payload, jsonRequest (read ⟨.get, host, path, params⟩ v) = .ok payload
          ∧ (f payload).run (serve read write) v = (.ok a, t) := by
  rw [run_request_bind_ok]
  rfl

end Reading

end PerpExchange

/-! ## §4. Numbers on the way there and back. -/

/-- The comparison of a read-back row with the requested leverage is a
comparison of numbers, where the exchange echoes the leverage as text. -/
theorem leverageIs_of_text {row : Json} {key : String} {n leverage : Nat}
    (h : row.get key = .ok (.str (toString n))) :
    leverageIs (some row) key leverage = .ok (decide (n = leverage)) := by
  unfold leverageIs
  simp only [Json.getDecimal_of_text h]
  show Except.ok _ = _
  simp

/-- The word an adapter sends for a margin mode is read as that mode. -/
theorem marginOfText_value (margin : PerpMarginMode) : marginOfText (marginValue margin) = margin := by
  cases margin <;> rfl

theorem number_of_text {c : HttpCall} {k : String} {n : Nat}
    (h : c.params.lookup k = some (.str (toString n))) : c.number k = n := by
  unfold HttpCall.number
  rw [h]
  simp only [pyDecimal_toString]
  simp

theorem number_of_int {c : HttpCall} {k : String} {n : Nat}
    (h : c.params.lookup k = some (.int n)) : c.number k = n := by
  unfold HttpCall.number
  rw [h]
  rfl

namespace PerpExchange

/-! ## §5. OKX. -/

/-- The slot the row of a readback belongs to. -/
def readSlot (positionMode : PositionMode) : Slot :=
  if positionMode = .hedge then .short else .net

/-- What OKX answers to a leverage query: one row for each slot of the position
mode, with the leverage stored for it. -/
theorem okx_leverageInfo (v : PerpExchange) (symbol : String) (margin : PerpMarginMode) :
    (okxLeverageInfo symbol margin).run okxServe v
      = (.ok (v.slots.map (v.okxLeverageRow symbol margin)), v) := by
  have hread : okxRead ⟨.get, .main, ["api", "v5", "account", "leverage-info"],
      [("instId", .str symbol), ("mgnMode", .str (marginValue margin))]⟩ v
      = okxPayload (v.slots.map (v.okxLeverageRow symbol margin)) := by
    show okxPayload (v.slots.map (v.okxLeverageRow symbol (marginOfText (marginValue margin)))) = _
    rw [marginOfText_value]
  unfold okxLeverageInfo okxServe
  rw [run_get_bind_ok]
  refine ⟨_, by rw [hread]; rfl, ?_⟩
  rw [run_evaluate_bind_ok]
  exact ⟨(), rfl, by rw [run_evaluate, Json.getItems_arr rfl]⟩

/-- Of the rows OKX answers, the adapter compares the one of the slot it trades
in: the net row, or the short row in hedge mode. -/
theorem okx_current (v : PerpExchange) (symbol : String) (margin : PerpMarginMode) :
    okxCurrent v.positionMode (v.slots.map (v.okxLeverageRow symbol margin))
      = .ok (some (v.okxLeverageRow symbol margin (readSlot v.positionMode))) := by
  unfold slots okxCurrent okxTargetSide readSlot
  by_cases h : v.positionMode = .hedge
  · simp only [if_pos h]
    rfl
  · simp only [if_neg h]
    rfl

/-- The check that no position is open only reads. -/
theorem okx_requireFlat {v v' : PerpExchange} {symbol : String} {r : Except Exc Unit}
    (h : (okxRequireFlat symbol).run okxServe v = (r, v')) : v' = v := by
  refine run_reads ?_ h
  exact .bind (reads_request rfl) fun _ => .bind (reads_request rfl) fun _ => reads_evaluate _

/-- The slots the adapter's request names. -/
def okxSets (v : PerpExchange) (margin : PerpMarginMode) : List Slot :=
  if v.positionMode = .hedge ∧ margin = .isolated then [.short] else v.slots

/-- A leverage order to OKX sets the slots that it names, and these depend on
the margin mode and on the `posSide` that is sent. -/
theorem okxWrite_snd {c : HttpCall} {v : PerpExchange} {symbol : String} {margin : PerpMarginMode}
    {named : List Slot} {n : Nat} (hs : c.text "instId" = symbol)
    (hm : marginOfText (c.text "mgnMode") = margin)
    (hnamed : v.okxNamed margin (c.text "posSide") = some named) (hn : c.number "lever" = n) :
    (okxWrite c v).2 = v.setLever symbol margin named n := by
  unfold okxWrite
  simp only [hs, hm, hnamed, hn]

/-- What the adapter's leverage order leaves behind where it succeeds: the slots
named by `okxSets`, each at the requested leverage. -/
theorem okx_setLeverage {v v' : PerpExchange} {symbol : String} {leverage : Nat}
    {margin : PerpMarginMode}
    (h : (okxSetLeverage symbol leverage v.positionMode margin).run okxServe v = (.ok (), v')) :
    v' = v.setLever symbol margin (v.okxSets margin) leverage := by
  unfold okxSetLeverage at h
  obtain ⟨payload, -, h⟩ := run_request_bind_ok.mp h
  rw [run_evaluate] at h
  obtain ⟨-, h⟩ := Prod.mk.inj h
  rw [← h]
  show (okxWrite _ v).2 = _
  unfold okxSets
  by_cases hside : v.positionMode = .hedge ∧ margin = .isolated
  · rw [if_pos hside, if_pos hside]
    refine okxWrite_snd rfl (marginOfText_value margin) rfl (number_of_text rfl)
  · rw [if_neg hside, if_neg hside]
    have hnamed : v.okxNamed margin "" = some v.slots := by
      unfold okxNamed
      rw [if_neg (by decide), if_neg (by decide), if_neg hside]
    exact okxWrite_snd rfl (marginOfText_value margin) hnamed (number_of_text rfl)

/-- The read-back after the order changes nothing, so it compares what the order
has left. -/
theorem okxReadback_reads (symbol : String) (leverage : Nat) (positionMode : PositionMode)
    (margin : PerpMarginMode) : Reads (okxReadback symbol leverage positionMode margin) := by
  refine .bind (.bind (reads_request rfl) fun _ => .bind trivial fun _ => trivial) fun _ => ?_
  exact .bind trivial fun _ => .bind trivial fun _ => .bind trivial fun _ => trivial

/-- A configuration that returns has found the leverage on the slot it reads, or
has set it on the slots its request names. -/
theorem okx_configured {v v' : PerpExchange} {symbol : String} {leverage : Nat}
    {margin : PerpMarginMode} {cfg : PerpConfiguration}
    (h : (okxConfigurePerp symbol leverage v.positionMode margin).run okxServe v = (.ok cfg, v')) :
    (v' = v ∧ v.lever symbol margin (readSlot v.positionMode) = leverage)
      ∨ (v.lever symbol margin (readSlot v.positionMode) ≠ leverage
        ∧ v' = v.setLever symbol margin (v.okxSets margin) leverage) := by
  -- The steps of the source in order: validation, leverage info, its row, the comparison.
  unfold okxConfigurePerp at h
  obtain ⟨_, -, h⟩ := run_evaluate_bind_ok.mp h
  obtain ⟨rows, u, hrows, h⟩ := Prog.run_bind_ok.mp h
  rw [okx_leverageInfo] at hrows
  cases hrows
  obtain ⟨current, hcurrent, h⟩ := run_evaluate_bind_ok.mp h
  rw [okx_current] at hcurrent
  cases hcurrent
  obtain ⟨settled, hsettled, h⟩ := run_evaluate_bind_ok.mp h
  rw [leverageIs_of_text rfl] at hsettled
  cases hsettled
  split at h
  · next hlever =>
      left
      cases h
      exact ⟨rfl, by simpa using hlever⟩
  · -- Otherwise the position must be flat, and the leverage is set and read back.
    next hlever =>
      right
      refine ⟨by simpa using hlever, ?_⟩
      obtain ⟨_, u, hflat, h⟩ := Prog.run_bind_ok.mp h
      obtain rfl := (okx_requireFlat hflat).symm
      obtain ⟨_, u', hset, h⟩ := Prog.run_bind_ok.mp h
      rw [← okx_setLeverage hset]
      exact run_reads (okxReadback_reads ..) h

/-- The leverage that is already there is confirmed as it is. -/
theorem okx_settled {v : PerpExchange} {symbol : String} {leverage : Nat}
    {margin : PerpMarginMode} (hrange : 1 ≤ leverage ∧ leverage ≤ 10)
    (hmode : v.positionMode ≠ .unknown)
    (h : v.lever symbol margin (readSlot v.positionMode) = leverage) :
    (okxConfigurePerp symbol leverage v.positionMode margin).run okxServe v
      = (.ok ⟨symbol, leverage, margin = .isolated, v.positionMode⟩, v) := by
  have hcheck : checkConfiguration leverage v.positionMode = .ok () := by
    unfold checkConfiguration
    rw [raiseIf_bind_eq_ok, raiseIf_eq_ok]
    exact ⟨by omega, hmode⟩
  unfold okxConfigurePerp
  rw [run_evaluate_bind_ok]
  refine ⟨(), hcheck, ?_⟩
  rw [Prog.run_bind_ok]
  refine ⟨_, v, okx_leverageInfo .., ?_⟩
  rw [run_evaluate_bind_ok]
  refine ⟨_, okx_current .., ?_⟩
  rw [run_evaluate_bind_ok]
  refine ⟨_, leverageIs_of_text rfl, ?_⟩
  rw [if_pos (by simpa using h)]
  rfl

/-! ## §6. Bybit. -/

/-- Paging through the positions of Bybit only reads; the induction is on the
fuel. -/
theorem bybitPaged_reads (path : List String) (params : List (String × Json)) (fuel : Nat) :
    ∀ cursor, Reads (bybitPaged path params fuel cursor) := by
  induction fuel with
  | zero => exact fun _ => trivial
  | succ fuel ih =>
      intro cursor
      unfold bybitPaged
      refine .bind (reads_request rfl) fun _ => .bind trivial fun _ => .bind trivial fun _ =>
        .bind trivial fun _ => .bind trivial fun next => ?_
      split
      · trivial
      · refine .bind (ih _) fun r => ?_
        split <;> trivial

/-- The rows of the symbol come on one page. -/
theorem bybit_positions (v : PerpExchange) (symbol : String) (fuel : Nat) :
    (bybitSymbolPositions symbol (fuel + 1)).run bybitServe v
      = (.ok (some (v.slots.map (v.bybitPositionRow symbol))), v) := by
  unfold bybitSymbolPositions paged bybitPaged bybitServe
  rw [run_get_bind_ok]
  refine ⟨_, rfl, ?_⟩
  rw [run_evaluate_bind_ok]
  refine ⟨(), rfl, ?_⟩
  rw [run_evaluate_bind_ok]
  refine ⟨_, rfl, ?_⟩
  rw [run_evaluate_bind_ok]
  refine ⟨_, Json.getItems_arr rfl, ?_⟩
  rw [run_evaluate_bind_ok]
  exact ⟨_, rfl, rfl⟩

/-- Of the position rows of Bybit, the adapter compares the one of the slot it
trades in. -/
theorem bybit_current (v : PerpExchange) (symbol : String) :
    bybitCurrent (v.slots.map (v.bybitPositionRow symbol)) v.positionMode
      = .ok (some (v.bybitPositionRow symbol (readSlot v.positionMode))) := by
  unfold slots bybitCurrent bybitTargetIndex readSlot
  by_cases h : v.positionMode = .hedge
  · simp only [if_pos h]
    rfl
  · simp only [if_neg h]
    rfl

/-- The margin mode that the adapter detects is the account's: a row that
contradicts it makes the detection raise. -/
theorem bybit_margin {v : PerpExchange} {positions : List Json} {positionMode : PositionMode}
    {margin : String} {info : Json}
    (hinfo : jsonRequest (bybitRead ⟨.get, .main, ["v5", "account", "info"], []⟩ v) = .ok info)
    (h : bybitDetected info positions positionMode = .ok margin) :
    margin = bybitMarginWord v.accountMargin := by
  cases hinfo
  unfold bybitDetected at h
  obtain ⟨_, -, h⟩ := bind_eq_ok.mp h
  obtain ⟨detected, -, h⟩ := bind_eq_ok.mp h
  rw [raiseIf_bind_eq_ok] at h
  obtain ⟨-, h⟩ := h
  cases hm : v.accountMargin <;> (rw [hm] at h; cases h; rfl)

/-- The check that no position is open only reads. -/
theorem bybit_requireFlat {v v' : PerpExchange} {fuel : Nat} {r : Except Exc (Option Unit)}
    (h : (bybitRequireFlat fuel).run bybitServe v = (r, v')) : v' = v := by
  refine run_reads (.bind (bybitPaged_reads ..) fun orders => ?_) h
  split
  · trivial
  · refine .bind (bybitPaged_reads ..) fun positions => ?_
    split
    · trivial
    · exact .bind trivial fun _ => trivial

/-- The read-back after the order changes nothing. -/
theorem bybitReadback_reads (fuel : Nat) (symbol : String) (leverage : Nat)
    (positionMode : PositionMode) : Reads (bybitReadback fuel symbol leverage positionMode) := by
  refine .bind (bybitPaged_reads ..) fun positions => ?_
  split
  · trivial
  · exact .bind trivial fun _ => .bind trivial fun _ => .bind trivial fun _ => trivial

/-- Switching the account to isolated margin changes the margin mode of the
account and none of the leverages. -/
theorem bybit_isolate {v v' : PerpExchange} (h : bybitIsolate.run bybitServe v = (.ok (), v')) :
    v' = { v with accountMargin := .isolated } := by
  unfold bybitIsolate at h
  obtain ⟨_, -, h⟩ := run_request_bind_ok.mp h
  refine run_reads ?_ h
  exact .bind trivial fun _ => .bind (reads_request rfl) fun _ => trivial

/-- Bybit takes one leverage for both sides, so every slot of the symbol holds
it afterwards. -/
theorem bybit_setLeverage {v v' : PerpExchange} {symbol : String} {leverage : Nat}
    (h : (bybitSetLeverage symbol leverage).run bybitServe v = (.ok (), v')) :
    v' = v.setLever symbol v.accountMargin [.net, .long, .short] leverage := by
  unfold bybitSetLeverage at h
  obtain ⟨_, -, h⟩ := run_request_bind_ok.mp h
  refine (run_reads ?_ h).trans ?_
  · exact .bind (reads_evaluate _) fun _ => trivial
  show (v.setLever symbol v.accountMargin [.net, .long] (HttpCall.number _ "buyLeverage")).setLever
    symbol v.accountMargin [.short] (HttpCall.number _ "sellLeverage") = _
  rw [number_of_text rfl, number_of_text rfl]
  unfold setLever
  congr 1
  funext s m k
  by_cases hs : s = symbol <;> by_cases hm : m = v.accountMargin <;> cases k <;> simp [hs, hm]

/-- The account is isolated with the leverage on the slot read, or is made
isolated and gets the leverage on both sides. -/
theorem bybit_configured {v v' : PerpExchange} {fuel : Nat} {symbol : String} {leverage : Nat}
    {cfg : PerpConfiguration}
    (h : (bybitConfigurePerp fuel symbol leverage v.positionMode).run bybitServe v
      = (.ok (some cfg), v')) :
    (v' = v ∧ v.accountMargin = .isolated
        ∧ v.lever symbol .isolated (readSlot v.positionMode) = leverage)
      ∨ (¬(v.accountMargin = .isolated
          ∧ v.lever symbol .isolated (readSlot v.positionMode) = leverage)
        ∧ v' = { v with accountMargin := .isolated }.setLever symbol .isolated
          [.net, .long, .short] leverage) := by
  unfold bybitConfigurePerp at h
  obtain ⟨_, -, h⟩ := run_evaluate_bind_ok.mp h
  unfold bybitAccountInfo bybitServe at h
  obtain ⟨info, hinfo, h⟩ := run_get_bind_ok.mp h
  obtain ⟨positions, u, hpos, h⟩ := Prog.run_bind_ok.mp h
  -- One page holds all positions.
  cases fuel with
  | zero => cases hpos; cases h
  | succ fuel =>
  rw [show serve bybitRead bybitWrite = bybitServe from rfl, bybit_positions] at hpos
  cases hpos
  obtain ⟨margin, hmargin, h⟩ := run_evaluate_bind_ok.mp h
  have hmargin := bybit_margin hinfo hmargin
  obtain ⟨current, hcurrent, h⟩ := run_evaluate_bind_ok.mp h
  rw [bybit_current] at hcurrent
  cases hcurrent
  obtain ⟨settled, hsettled, h⟩ := run_evaluate_bind_ok.mp h
  have hword : margin = "ISOLATED_MARGIN" ↔ v.accountMargin = .isolated := by
    rw [hmargin]
    cases v.accountMargin <;> simp [bybitMarginWord]
  split at h
  · -- Settled already: nothing is written.
    next hs =>
      left
      cases h
      by_cases hiso : margin = "ISOLATED_MARGIN"
      · rw [if_pos hiso, leverageIs_of_text rfl, hs] at hsettled
        injection hsettled with hlever
        have hlever := of_decide_eq_true hlever
        rw [hword.mp hiso] at hlever
        exact ⟨rfl, hword.mp hiso, hlever⟩
      · rw [if_neg hiso, hs] at hsettled
        cases hsettled
  · next hs =>
      right
      constructor
      · rintro ⟨hiso, hlever⟩
        rw [if_pos (hword.mpr hiso), leverageIs_of_text rfl, hiso, decide_eq_true hlever] at hsettled
        injection hsettled with hsettled
        exact hs hsettled.symm
      · -- The margin mode is switched if it must be, and the leverage is set after it.
        obtain ⟨flat, u, hflat, h⟩ := Prog.run_bind_ok.mp h
        obtain rfl := (bybit_requireFlat hflat).symm
        cases flat with
        | none => cases h
        | some _ =>
            obtain ⟨_, u', hiso, h⟩ := Prog.run_bind_ok.mp h
            have hu' : u' = { v with accountMargin := .isolated } := by
              split at hiso
              · exact bybit_isolate hiso
              · next hm =>
                  cases hiso
                  rw [← hword.mp (not_not.mp hm)]
            obtain ⟨_, u'', hset, h⟩ := Prog.run_bind_ok.mp h
            rw [run_reads (bybitReadback_reads ..) h, bybit_setLeverage hset, hu']

/-! ## §7. Gate. -/

/-- The row that Gate's adapter takes for its target is the row of the slot it
trades in. -/
theorem gateMode_eq_target {k : Slot} {positionMode : PositionMode}
    (h : gateMode k = gateTargetMode positionMode) : k = readSlot positionMode := by
  unfold gateTargetMode at h
  unfold readSlot
  split at h
  · next hm =>
      rw [if_pos hm]
      cases k <;> simp_all [gateMode]
  · next hm =>
      rw [if_neg hm]
      cases k <;> simp_all [gateMode]

/-- A margin mode that is read from a Gate row is the mode of that slot. -/
theorem gate_margin (v : PerpExchange) (symbol size : String) (k : Slot) :
    gateMarginMode (v.gateRow symbol size k) = .ok (marginValue (v.slotMargin symbol k)) := by
  have hlower : ∀ m, String.ofList (pyLowerString
      ((Json.str (marginValue m)).orElse (.str "")).text.toList) = marginValue m := by
    intro m
    cases m <;> decide
  unfold gateMarginMode
  rw [Json.getText_of_get rfl]
  exact congrArg Except.ok (hlower _)

/-- The leverage of a Gate row is read under the margin mode of its slot: cross
margin has a field of its own. -/
theorem gate_leverage (v : PerpExchange) (symbol size : String) (k : Slot) :
    gatePositionLeverage (v.gateRow symbol size k) (marginValue (v.slotMargin symbol k))
      = .ok (.finite (v.lever symbol (v.slotMargin symbol k) k)) := by
  unfold gateRow
  cases v.slotMargin symbol k with
  | isolated =>
      show pyDecimal (((Json.str (toString (v.lever symbol .isolated k))).orElse _).orElse _).text = _
      rw [Json.orElse_toString, Json.orElse_toString]
      exact pyDecimal_toString _
  | cross =>
      generalize v.lever symbol .cross k = n
      have hblank : decide (toString n = "") = false := decide_eq_false (by simp)
      show (if "cross" = "cross" ∧ decide (toString n = "") = false then
        pyDecimal (toString n) else _) = _
      rw [if_pos ⟨rfl, hblank⟩]
      exact pyDecimal_toString _

/-- Where the read-back of Gate finds its target settled, the slot is isolated
and has the requested leverage. -/
theorem gate_settled {v : PerpExchange} {symbol : String} {leverage : Nat}
    (h : gateTarget symbol leverage v.positionMode
      (v.positions.map fun p => v.gateRow p.symbol p.size p.slot) = .ok true) :
    v.slotMargin symbol (readSlot v.positionMode) = .isolated
      ∧ v.lever symbol .isolated (readSlot v.positionMode) = leverage := by
  unfold gateTarget at h
  obtain ⟨target, htarget, h⟩ := bind_eq_ok.mp h
  obtain ⟨margin, hmargin, h⟩ := bind_eq_ok.mp h
  obtain ⟨current, hcurrent, h⟩ := bind_eq_ok.mp h
  injection h with h
  obtain ⟨hsome, hiso, hlever⟩ := of_decide_eq_true h
  obtain ⟨row, rfl⟩ := Option.isSome_iff_exists.mp hsome
  obtain ⟨hmem, htest⟩ := Json.findRow_some htarget
  obtain ⟨p, hp, rfl⟩ := List.mem_map.mp hmem
  -- The row that was found is the one of this contract in the current mode.
  have hrow : p.symbol = symbol ∧ gateMode p.slot = gateTargetMode v.positionMode := by
    have hcontract : (v.gateRow p.symbol p.size p.slot).getText "contract" "" = .ok p.symbol :=
      Json.getText_of_str rfl
    have hmode : (v.gateRow p.symbol p.size p.slot).getText "mode" "single"
        = .ok (gateMode p.slot) := by
      rw [Json.getText_of_get rfl]
      cases p.slot <;> rfl
    rw [hcontract, hmode] at htest
    by_cases hs : p.symbol = symbol
    · have htest : (if p.symbol = symbol then
          Except.ok (decide (gateMode p.slot = gateTargetMode v.positionMode)) else .ok false)
            = .ok true := htest
      rw [if_pos hs] at htest
      injection htest with htest
      exact ⟨hs, of_decide_eq_true htest⟩
    · have htest : (if p.symbol = symbol then
          Except.ok (decide (gateMode p.slot = gateTargetMode v.positionMode)) else .ok false)
            = (.ok true : Except Exc Bool) := htest
      rw [if_neg hs] at htest
      cases htest
  obtain ⟨rfl, hmode⟩ := hrow
  have hslot := gateMode_eq_target hmode
  rw [Option.getD_some, gate_margin] at hmargin
  injection hmargin with hmargin
  subst hmargin
  rw [Option.getD_some, gate_leverage, hslot] at hcurrent
  injection hcurrent with hcurrent
  rw [hslot] at hiso
  have hm : v.slotMargin p.symbol (readSlot v.positionMode) = .isolated := by
    cases hm : v.slotMargin p.symbol (readSlot v.positionMode) with
    | isolated => rfl
    | cross => rw [hm] at hiso; exact absurd hiso (by decide)
  rw [hm, hlever] at hcurrent
  injection hcurrent with hcurrent
  exact ⟨hm, by exact_mod_cast hcurrent⟩

/-- The check that no position is open only reads. -/
theorem gate_requireFlat {v v' : PerpExchange} {symbol : String} {rows : List Json}
    {r : Except Exc Unit} (h : (gateRequireFlat symbol rows).run gateServe v = (r, v')) :
    v' = v :=
  run_reads (.bind (reads_request rfl) fun _ => reads_evaluate _) h

/-- What the leverage order of Gate leaves behind: the traded slot isolated, at
the requested leverage, and the others as they were. -/
theorem gate_setLeverage {v v' : PerpExchange} {symbol : String} {leverage : Nat}
    (h : (gateSetLeverage symbol leverage v.positionMode).run gateServe v = (.ok (), v')) :
    v' = (v.setSlotMargin symbol .isolated [readSlot v.positionMode]).setLever symbol .isolated
      [readSlot v.positionMode] leverage := by
  unfold gateSetLeverage at h
  obtain ⟨_, -, h⟩ := run_request_bind_ok.mp h
  rw [run_evaluate] at h
  obtain ⟨-, h⟩ := Prod.mk.inj h
  rw [← h]
  show (gateWrite _ v).2 = _
  unfold readSlot
  by_cases hmode : v.positionMode = .hedge
  · rw [if_pos hmode, if_pos hmode]
    show (v.setSlotMargin symbol .isolated [.short]).setLever symbol .isolated [.short]
      (HttpCall.number _ "leverage") = _
    rw [number_of_text rfl]
  · rw [if_neg hmode, if_neg hmode]
    have hnamed : v.gateNamed "" = [.net] := by
      unfold gateNamed slots
      rw [if_neg (by decide), if_neg (by decide), if_neg hmode]
    show (v.setSlotMargin symbol .isolated (v.gateNamed "")).setLever symbol .isolated
      (v.gateNamed "") (HttpCall.number _ "leverage") = _
    rw [number_of_text rfl, hnamed]

/-- The slot read is isolated with the leverage, or is made so. -/
theorem gate_configured {v v' : PerpExchange} {symbol : String} {leverage : Nat}
    {cfg : PerpConfiguration}
    (h : (gateConfigurePerp symbol leverage v.positionMode).run gateServe v = (.ok cfg, v')) :
    cfg.isolated = true ∧ ((v' = v ∧ v.slotMargin symbol (readSlot v.positionMode) = .isolated
        ∧ v.lever symbol .isolated (readSlot v.positionMode) = leverage)
      ∨ v' = (v.setSlotMargin symbol .isolated [readSlot v.positionMode]).setLever symbol .isolated
          [readSlot v.positionMode] leverage) := by
  unfold gateConfigurePerp gateServe at h
  obtain ⟨_, -, h⟩ := run_evaluate_bind_ok.mp h
  obtain ⟨account, haccount, h⟩ := run_get_bind_ok.mp h
  obtain ⟨positions, hpositions, h⟩ := run_get_bind_ok.mp h
  obtain ⟨raw, hraw, h⟩ := run_evaluate_bind_ok.mp h
  -- Only the classic account mode passes its check.
  have hclassic : raw = 0 := by
    cases haccount
    unfold gateAccountMode at hraw
    obtain ⟨dual, -, hraw⟩ := bind_eq_ok.mp hraw
    rw [raiseIf_bind_eq_ok] at hraw
    obtain ⟨-, hraw⟩ := hraw
    cases hraw
    rfl
  rw [if_neg (by omega)] at h
  obtain ⟨rows, hrows, h⟩ := run_evaluate_bind_ok.mp h
  cases hpositions
  cases hrows
  obtain ⟨settled, hsettled, h⟩ := run_evaluate_bind_ok.mp h
  split at h
  · next hs =>
      cases h
      rw [hs] at hsettled
      exact ⟨rfl, .inl ⟨rfl, gate_settled hsettled⟩⟩
  · -- Otherwise the position must be flat before margin and leverage are set.
    obtain ⟨_, u, hflat, h⟩ := Prog.run_bind_ok.mp h
    obtain rfl := (gate_requireFlat hflat).symm
    obtain ⟨_, u, hset, h⟩ := Prog.run_bind_ok.mp h
    cases h
    exact ⟨rfl, .inr (gate_setLeverage hset)⟩

/-! ## §8. MEXC. -/

/-- MEXC answers with one row for each direction of the symbol. -/
theorem mexc_rows (v : PerpExchange) (symbol : String) :
    mexcLeverageRows (.obj [("success", .bool true), ("code", .int 0),
        ("data", .arr ([Slot.long, .short].map (v.mexcLeverageRow symbol)))])
      = .ok ([Slot.long, .short].map (v.mexcLeverageRow symbol)) := rfl

/-- Of the two rows of MEXC, the adapter compares the one of the short
direction, which is the one it opens. -/
theorem mexc_short (v : PerpExchange) (symbol : String) :
    mexcShort ([Slot.long, .short].map (v.mexcLeverageRow symbol))
      = .ok (some (v.mexcLeverageRow symbol .short)) := rfl

/-- Where the read-back of MEXC finds its row settled, the short direction has
the requested leverage. -/
theorem mexc_settled {v : PerpExchange} {symbol : String} {leverage : Nat} {payload : Json}
    (hread : jsonRequest (mexcRead ⟨.get, .perp, ["api", "v1", "private", "position", "leverage"],
      [("symbol", .str symbol)]⟩ v) = .ok payload)
    (h : mexcLeverageSettled payload leverage = .ok true) :
    v.lever symbol .isolated .short = leverage := by
  have hpayload : Except.ok (.obj [("success", .bool true), ("code", .int 0),
      ("data", .arr ([Slot.long, .short].map (v.mexcLeverageRow symbol)))]) = Except.ok payload :=
    hread
  injection hpayload with hpayload
  subst hpayload
  unfold mexcLeverageSettled at h
  rw [mexc_rows] at h
  obtain ⟨rows, hrows, h⟩ := bind_eq_ok.mp h
  cases hrows
  rw [mexc_short] at h
  obtain ⟨short, hshort, h⟩ := bind_eq_ok.mp h
  cases hshort
  unfold leverageIs at h
  obtain ⟨value, hvalue, h⟩ := bind_eq_ok.mp h
  rw [Json.getDecimal_of_int rfl] at hvalue
  cases hvalue
  injection h with h
  have h := of_decide_eq_true h
  injection h with h
  exact_mod_cast h

/-- A leverage order to MEXC changes the short direction of the symbol only. -/
theorem mexc_changeLeverage {v v' : PerpExchange} {symbol : String} {leverage : Nat}
    (h : (mexcChangeLeverage symbol leverage).run mexcServe v = (.ok (), v')) :
    v' = v.setLever symbol .isolated [.short] leverage := by
  unfold mexcChangeLeverage at h
  obtain ⟨_, -, h⟩ := run_request_bind_ok.mp h
  refine (run_reads ?_ h).trans ?_
  · exact .bind trivial fun _ => .bind (reads_request rfl) fun _ => .bind trivial fun _ =>
      .bind trivial fun _ => trivial
  show v.setLever symbol .isolated [.short] (HttpCall.number _ "leverage") = _
  rw [number_of_int rfl]

/-- The short side has the leverage, or is given it. -/
theorem mexc_configured {v v' : PerpExchange} {symbol : String} {leverage : Nat}
    {positionMode : PositionMode} {cfg : PerpConfiguration}
    (h : (mexcConfigurePerp symbol leverage positionMode).run mexcServe v = (.ok cfg, v')) :
    (v' = v ∧ v.lever symbol .isolated .short = leverage)
      ∨ v' = v.setLever symbol .isolated [.short] leverage := by
  unfold mexcConfigurePerp mexcServe at h
  obtain ⟨_, -, h⟩ := run_evaluate_bind_ok.mp h
  obtain ⟨mode, -, h⟩ := run_get_bind_ok.mp h
  obtain ⟨leverages, hleverages, h⟩ := run_get_bind_ok.mp h
  obtain ⟨pending, -, h⟩ := run_get_bind_ok.mp h
  obtain ⟨positions, -, h⟩ := run_get_bind_ok.mp h
  obtain ⟨_, -, h⟩ := run_evaluate_bind_ok.mp h
  obtain ⟨detected, -, h⟩ := run_evaluate_bind_ok.mp h
  obtain ⟨_, -, h⟩ := run_evaluate_bind_ok.mp h
  obtain ⟨held, -, h⟩ := run_evaluate_bind_ok.mp h
  obtain ⟨positionSettled, -, h⟩ := run_evaluate_bind_ok.mp h
  obtain ⟨settled, hsettled, h⟩ := run_evaluate_bind_ok.mp h
  split at h
  · next hs =>
      left
      cases h
      rw [hs.2] at hsettled
      exact ⟨rfl, mexc_settled hleverages hsettled⟩
  · right
    obtain ⟨_, -, h⟩ := run_evaluate_bind_ok.mp h
    obtain ⟨_, u, hset, h⟩ := Prog.run_bind_ok.mp h
    cases h
    exact mexc_changeLeverage hset

end PerpExchange

end BasisHawk.Accounts
