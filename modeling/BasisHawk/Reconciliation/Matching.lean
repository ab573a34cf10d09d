/-
  BasisHawk.Reconciliation.Matching
  ─────────────────────────────────
  How the two-leg services compare an account with their tables: its open
  orders with the order legs, its positions with the open pairs
  (`reconciliation.py`, `live_execution.py`).

  Only pairs and their legs are compared with.  The tables of the multi-leg
  executor do not come up here.
-/
import BasisHawk.Reconciliation.Operations

namespace BasisHawk.Reconciliation

open Domain Lib Accounts Paired
open Paired.Ledger (PerpExposure)

/-! ## §1. Dictionaries. -/

section Dict

variable {β : Type}

/-- `d.get(k)`. -/
def getItem (d : List (String × β)) (k : String) : Option β := (d.find? (·.1 = k)).map (·.2)

/-- `d[k] = v`: a new key comes last. -/
def setItem (d : List (String × β)) (k : String) (v : β) : List (String × β) :=
  if d.any (·.1 = k) then d.map fun e => if e.1 = k then (k, v) else e else d ++ [(k, v)]

/-- `d` after `d.pop(k, None)`. -/
def popItem (d : List (String × β)) (k : String) : List (String × β) := d.filter (·.1 ≠ k)

end Dict

/-- What is expected of a symbol: a quantity and its leverage. -/
abbrev Expected : Type := List (String × ℚ × Nat)

/-- What an account shows of a symbol: a quantity, its leverage and whether it
is isolated. -/
abbrev Shown : Type := List (String × ℚ × ℚ × Option Bool)

/-- One more exposure. -/
def Expected.add (d : Expected) (e : PerpExposure) : Expected :=
  setItem d e.symbol (((getItem d e.symbol).elim 0 (·.1)) + e.quantity, e.leverage)

/-- The exposure has another leverage than the ones before. -/
def Expected.conflicts (d : Expected) (e : PerpExposure) : Prop :=
  ∃ previous ∈ getItem d e.symbol, previous.2 ≠ e.leverage

instance (d : Expected) (e : PerpExposure) : Decidable (d.conflicts e) :=
  inferInstanceAs (Decidable (∃ previous ∈ getItem d e.symbol, previous.2 ≠ e.leverage))

/-- One more position, `both` joining the margin flags of two. -/
def Shown.add (both : Option Bool → Option Bool → Option Bool) (d : Shown) (p : RemotePosition) :
    Shown :=
  setItem d p.symbol (match getItem d p.symbol with
    | none => (0 + p.quantity, p.leverage, p.isolated)
    | some previous => (previous.1 + p.quantity, p.leverage, both previous.2.2 p.isolated))

/-- The position has another leverage than the ones before. -/
def Shown.conflicts (d : Shown) (p : RemotePosition) : Prop :=
  ∃ previous ∈ getItem d p.symbol, previous.2.1 ≠ p.leverage

instance (d : Shown) (p : RemotePosition) : Decidable (d.conflicts p) :=
  inferInstanceAs (Decidable (∃ previous ∈ getItem d p.symbol, previous.2.1 ≠ p.leverage))

/-- `a and b` of two optional flags. -/
def pyAnd (a b : Option Bool) : Option Bool := if a = some true then b else a

/-- What is shown is what is expected. -/
def agrees (isolated : Bool) (shown : ℚ × ℚ × Option Bool) (expected : ℚ × Nat) : Prop :=
  numericEqual shown.1 expected.1 ∧ shown.2.1 = expected.2 ∧ shown.2.2 = some isolated

instance (isolated : Bool) (shown : ℚ × ℚ × Option Bool) (expected : ℚ × Nat) :
    Decidable (agrees isolated shown expected) :=
  inferInstanceAs (Decidable (_ ∧ _ ∧ _))

/-! ## §2. `_position_reasons`. -/

/-- The first loop. -/
def expectedPositions : List PerpExposure → Expected → List String → Expected × List String
  | [], d, reasons => (d, reasons)
  | e :: rest, d, reasons =>
      if d.conflicts e then
        expectedPositions rest d (reasons ++ ["local paired positions use conflicting leverage"])
      else expectedPositions rest (d.add e) reasons

/-- The second loop. -/
def shownPositions : List RemotePosition → Shown → List String → Shown × List String
  | [], d, reasons => (d, reasons)
  | p :: rest, d, reasons =>
      if p.side ≠ "short" then
        shownPositions rest d (reasons ++ ["remote position is not a strategy short position"])
      else if d.conflicts p then
        shownPositions rest d (reasons ++ ["remote short positions use conflicting leverage"])
      else shownPositions rest (d.add pyAnd p) reasons

/-- The third loop. -/
def comparePositions (isolated : Bool) : Expected → Shown → List String → Shown × List String
  | [], shown, reasons => (shown, reasons)
  | (symbol, expected) :: rest, shown, reasons =>
      match getItem shown symbol with
      | none => comparePositions isolated rest shown
          (reasons ++ ["local paired position is missing from the exchange"])
      | some actual =>
          comparePositions isolated rest (popItem shown symbol)
            (if agrees isolated actual expected then reasons
              else reasons ++ ["remote short position conflicts with the local pair"])

/-- `_position_reasons`. -/
def positionReasons (positions : List RemotePosition) (exposures : List PerpExposure)
    (isolated : Bool) : List String :=
  let (expected, reasons) := expectedPositions exposures [] []
  let (shown, reasons) := shownPositions positions [] reasons
  let (rest, reasons) := comparePositions isolated expected shown reasons
  if rest = [] then reasons else reasons ++ ["remote position has no matching local pair"]

/-! ## §3. `_validate_paired_positions`. -/

/-- The loop over the local rows. -/
def requireExpected : List PerpExposure → Expected → Except Exc Expected
  | [], d => .ok d
  | e :: rest, d => do
      raiseIf (d.conflicts e)
        (.ofKind .runtime "local paired positions use conflicting leverage")
      requireExpected rest (d.add e)

/-- The loop over the remote positions. -/
def requireShown : List RemotePosition → Shown → Except Exc Shown
  | [], d => .ok d
  | p :: rest, d => do
      raiseIf (p.side ≠ "short")
        (.ofKind .runtime "remote position is not a strategy short position")
      raiseIf (d.conflicts p)
        (.ofKind .runtime "remote short positions use conflicting leverage")
      requireShown rest (d.add (fun a b => some (a = some true ∧ b = some true)) p)

/-- The loop over what is expected. -/
def requireAgreement (isolated : Bool) : Expected → Shown → Except Exc Shown
  | [], shown => .ok shown
  | (symbol, expected) :: rest, shown => do
      raiseIf (¬∃ actual ∈ getItem shown symbol, agrees isolated actual expected)
        (.ofKind .runtime "remote short position conflicts with the local pair")
      requireAgreement isolated rest (popItem shown symbol)

/-- `_validate_paired_positions` on the rows it has read. -/
def validatePairedPositions (exposures : List PerpExposure) (positions : List RemotePosition)
    (isolated : Bool) : Except Exc Unit := do
  let expected ← requireExpected exposures []
  let shown ← requireShown positions []
  let rest ← requireAgreement isolated expected shown
  raiseIf (rest ≠ []) (.ofKind .runtime "remote position has no matching local pair")

/-! ## §4. `_open_order_reasons`. -/

/-- A dictionary of legs keeps the last one of a key. -/
def lastLeg (legs : List OrderLegRow) (p : OrderLegRow → Bool) : Option OrderLegRow :=
  legs.reverse.find? p

/-- `by_exchange_id.get(order.exchange_order_id)`. -/
def byExchangeId (legs : List OrderLegRow) (order : RemoteOrder) : Option OrderLegRow :=
  lastLeg legs fun leg => leg.exchangeOrderId = some order.exchangeOrderId

/-- `by_client_id.get(order.client_order_id)`. -/
def byClientId (legs : List OrderLegRow) (order : RemoteOrder) : Option OrderLegRow :=
  lastLeg legs fun leg => some leg.clientOrderId = order.clientOrderId

/-- The open order is not the order of its leg. -/
def contradicts (order : RemoteOrder) (leg : OrderLegRow) : Prop :=
  leg.status.isActive = false ∨ order.market ≠ leg.market.name ∨ order.symbol ≠ leg.symbol
    ∨ order.side ≠ leg.side.name ∨ numericEqual order.originalQuantity leg.quantity = false
    ∨ order.reduceOnly ≠ leg.reduceOnly

instance (order : RemoteOrder) (leg : OrderLegRow) : Decidable (contradicts order leg) :=
  inferInstanceAs (Decidable (_ ∨ _ ∨ _ ∨ _ ∨ _ ∨ _))

def identifiersDiffer : String := "remote open order identifiers match different local legs"
def noMatchingIntent : String := "remote open order has no matching local intent"
def orderConflicts : String := "remote open order conflicts with its local order leg"

/-- What is wrong with one open order, if anything. -/
def openOrderReason (legs : List OrderLegRow) (order : RemoteOrder) : Option String :=
  match byExchangeId legs order, byClientId legs order with
  | some a, some b =>
      if a.id ≠ b.id then some identifiersDiffer
      else if contradicts order a then some orderConflicts else none
  | some leg, none | none, some leg => if contradicts order leg then some orderConflicts else none
  | none, none => some noMatchingIntent

/-- `_open_order_reasons`. -/
def openOrderReasons (orders : List RemoteOrder) (legs : List OrderLegRow) : List String :=
  let reasons := orders.filterMap (openOrderReason legs)
  if orders.all fun order => (openOrderReason legs order).isSome then reasons
  else reasons ++ ["locally linked IOC orders are still open"]

end BasisHawk.Reconciliation
