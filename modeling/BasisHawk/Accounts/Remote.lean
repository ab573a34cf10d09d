/-
  BasisHawk.Accounts.Remote
  ─────────────────────────
  What the executors exchange with a private account client
  (`accounts.py`): orders, fills, snapshots, requests.

  Main results:
    • `PrivateOrderRequest.validate_ok` — an accepted request is the request
      itself, and its position side, where it has one, is the side its action
      belongs to.
-/
import BasisHawk.Domain.Basic
import BasisHawk.Lib.Transaction

namespace BasisHawk.Accounts

open Domain Lib

/-! ## §1. What an exchange reports. -/

/-- `RemoteOrder`. -/
structure RemoteOrder where
  exchangeOrderId : String
  clientOrderId : Option String
  market : String
  symbol : String
  side : String
  status : String
  price : ℚ
  originalQuantity : ℚ
  filledQuantity : ℚ
  reduceOnly : Bool
  deriving DecidableEq

/-- `RemoteOrderLookup`. -/
structure RemoteOrderLookup where
  order : Option RemoteOrder
  complete : Bool
  incompleteReason : Option String
  deriving DecidableEq

/-- `RemoteFill`. -/
structure RemoteFill where
  exchangeTradeId : String
  exchangeOrderId : String
  clientOrderId : Option String
  market : String
  symbol : String
  side : String
  quantity : ℚ
  price : ℚ
  feeAmount : ℚ
  feeAsset : String
  liquidity : String
  occurredAt : Int
  deriving DecidableEq

/-- `RemoteFillBatch`. -/
structure RemoteFillBatch where
  fills : List RemoteFill
  complete : Bool
  incompleteReason : Option String
  deriving DecidableEq

/-- The sum of the quantities of a batch. -/
def RemoteFillBatch.total (b : RemoteFillBatch) : ℚ := (b.fills.map (·.quantity)).sum

/-- `RemotePosition`. -/
structure RemotePosition where
  symbol : String
  side : String
  quantity : ℚ
  entryPrice : ℚ
  markPrice : ℚ
  liquidationPrice : Option ℚ
  leverage : ℚ
  isolated : Option Bool
  deriving DecidableEq

/-- `RemoteTradingState`. -/
structure RemoteTradingState where
  openOrders : List RemoteOrder
  positions : List RemotePosition
  complete : Bool
  incompleteReason : Option String
  deriving DecidableEq

/-- The fields of `AccountSnapshot` that the executors read. -/
structure AccountSnapshot where
  spotUsdtAvailable : ℚ
  perpUsdtAvailable : ℚ
  sharedBalance : Bool
  positionMode : PositionMode
  tradePermission : Option Bool
  perpMarginMode : PerpMarginMode
  spotBuyFeeInBase : Option Bool
  deriving DecidableEq

/-- `PerpConfiguration`. -/
structure PerpConfiguration where
  symbol : String
  leverage : Int
  isolated : Bool
  positionMode : PositionMode
  deriving DecidableEq

/-- `OrderSubmission`. -/
structure OrderSubmission where
  market : Market
  symbol : String
  clientOrderId : String
  exchangeOrderId : Option String
  deriving DecidableEq

/-! ## §2. What an executor requests. -/

/-- `PrivateOrderRequest`. -/
structure PrivateOrderRequest where
  market : Market
  symbol : String
  side : Side
  quantity : ℚ
  mode : OrderMode
  limitPrice : Option ℚ
  clientOrderId : String
  reduceOnly : Bool
  positionMode : PositionMode
  positionSide : Option PerpPositionSide
  marginMode : PerpMarginMode
  deriving DecidableEq

namespace PrivateOrderRequest

/-- The side that opens (or, reduce-only, closes) a position of side `p`. -/
def expectedSide (p : PerpPositionSide) (reduceOnly : Bool) : Side :=
  match p with
  | .long => if reduceOnly then .sell else .buy
  | .short => if reduceOnly then .buy else .sell

/-- The field constraints and `reject_surrounding_whitespace`. -/
def validateFields (q : PrivateOrderRequest) : Except Exc Unit := do
  raiseIf (q.symbol.length < 1 ∨ 100 < q.symbol.length) (.value "symbol length is out of range")
  raiseIf (pyStrip q.symbol ≠ q.symbol.toList)
    (.value "order identifiers cannot contain surrounding whitespace")
  raiseIf (q.quantity ≤ 0) (.value "quantity must be greater than 0")
  raiseIf (∃ p ∈ q.limitPrice, p ≤ 0) (.value "limit_price must be greater than 0")
  raiseIf (q.clientOrderId.length < 1 ∨ 64 < q.clientOrderId.length)
    (.value "client_order_id length is out of range")
  raiseIf (pyStrip q.clientOrderId ≠ q.clientOrderId.toList)
    (.value "order identifiers cannot contain surrounding whitespace")

/-- `validate_order_semantics`. -/
def validateOrderSemantics (q : PrivateOrderRequest) : Except Exc Unit := do
  raiseIf (q.mode = .market ∧ q.limitPrice.isSome)
    (.value "market orders cannot include a limit price")
  raiseIf (q.mode ≠ .market ∧ q.limitPrice.isNone)
    (.value "maker and protected IOC orders require a limit price")
  match q.market with
  | .spot =>
      raiseIf q.reduceOnly (.value "spot orders cannot be reduce-only")
      raiseIf q.positionSide.isSome (.value "spot orders cannot include a position side")
  | .perp =>
      raiseIf (q.positionMode = .unknown) (.value "perpetual position mode must be known")
      raiseIf (q.positionMode = .hedge ∧ q.positionSide.isNone)
        (.value "hedge-mode perpetual orders require a position side")
      raiseIf (q.positionSide = some .long ∧ q.side ≠ expectedSide .long q.reduceOnly)
        (.value "order side does not match the long position action")
      raiseIf (q.positionSide = some .short ∧ q.side ≠ expectedSide .short q.reduceOnly)
        (.value "order side does not match the short position action")

/-- Building the request object runs every validator. -/
def validate (q : PrivateOrderRequest) : Except Exc PrivateOrderRequest := do
  q.validateFields
  q.validateOrderSemantics
  return q

/-- What the validator of a private order lets through: a positive quantity, and
for a perpetual a known position mode and a side that fits the position side. -/
theorem validate_ok {q q' : PrivateOrderRequest} (h : q.validate = .ok q') :
    q' = q ∧ 0 < q.quantity
      ∧ (q.market = .perp → q.positionMode ≠ .unknown
          ∧ ∀ p, q.positionSide = some p → q.side = expectedSide p q.reduceOnly) := by
  unfold validate at h
  obtain ⟨_, hf, h⟩ := bind_eq_ok.mp h
  obtain ⟨_, hs, h⟩ := bind_eq_ok.mp h
  injection h with h
  simp only [validateFields, raiseIf_bind_eq_ok, raiseIf_eq_ok] at hf
  simp only [validateOrderSemantics, raiseIf_bind_eq_ok] at hs
  refine ⟨h.symm, lt_of_not_ge hf.2.2.1, fun hm => ?_⟩
  rw [hm] at hs
  simp only [raiseIf_bind_eq_ok, raiseIf_eq_ok] at hs
  refine ⟨hs.2.2.1, fun p hp => ?_⟩
  cases p with
  | long => exact not_not.mp fun hne => hs.2.2.2.2.1 ⟨hp, hne⟩
  | short => exact not_not.mp fun hne => hs.2.2.2.2.2 ⟨hp, hne⟩

end PrivateOrderRequest

end BasisHawk.Accounts
