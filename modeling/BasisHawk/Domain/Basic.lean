/-
  BasisHawk.Domain.Basic
  ──────────────────────
  The vocabulary of the executors: exchanges, markets, order modes and
  exceptions.

  Enumerations that the source keeps as checked strings are inductive types.
  Raw strings of an exchange (a status, a symbol) stay strings.  Decimals are
  rationals, and `rounded` is what the default context makes of a result;
  instants are microseconds.
-/
import Mathlib.Data.Rat.Floor
import BasisHawk.Lib.Increment
import BasisHawk.Lib.Rounding

namespace BasisHawk.Domain

/-! ## §1. Enumerations. -/

inductive Exchange where
  | binance | okx | mexc | bybit | bitget | gate
  deriving DecidableEq, Repr

/-- The value of the enumeration, as messages spell it. -/
def Exchange.name : Exchange → String
  | .binance => "binance"
  | .okx => "okx"
  | .mexc => "mexc"
  | .bybit => "bybit"
  | .bitget => "bitget"
  | .gate => "gate"

inductive ExchangeEnvironment where
  | paper | sandbox | live
  deriving DecidableEq, Repr

/-- Orders of the live environment are never paper orders. -/
theorem ExchangeEnvironment.live_ne_paper : ExchangeEnvironment.live ≠ .paper := by decide

/-- The value of an environment in rows. -/
def ExchangeEnvironment.name : ExchangeEnvironment → String
  | .paper => "paper"
  | .sandbox => "sandbox"
  | .live => "live"

/-- The market of a private request. -/
inductive Market where
  | spot | perp
  deriving DecidableEq, Repr

/-- The value of a market in rows and requests. -/
def Market.name : Market → String
  | .spot => "spot"
  | .perp => "perp"

inductive Side where
  | buy | sell
  deriving DecidableEq, Repr

/-- The value of a side in rows and requests. -/
def Side.name : Side → String
  | .buy => "buy"
  | .sell => "sell"

/-- The other side. -/
def Side.flip : Side → Side
  | .buy => .sell
  | .sell => .buy

inductive PositionMode where
  | oneWay | hedge | unknown
  deriving DecidableEq, Repr

inductive PerpMarginMode where
  | isolated | cross
  deriving DecidableEq, Repr

inductive OrderMode where
  | maker | protectedIoc | market
  deriving DecidableEq, Repr

inductive PerpPositionSide where
  | long | short
  deriving DecidableEq, Repr

inductive Quality where
  | healthy | warming | stale
  deriving DecidableEq, Repr

/-- The states of `execution_control`. -/
inductive ControlState where
  | reconciling | blocked | ready | paused
  deriving DecidableEq, Repr

/-! ## §2. Exceptions. -/

/-- The exception classes the executors tell apart. -/
inductive ErrorClass where
  | arithmetic
  | key
  | value
  | runtime
  | privateRequest
  | unsupportedTrading
  | unsupportedEnvironment
  | orderBookUnavailable
  | integrity
  | attribute
  | type
  deriving DecidableEq, Repr

/-- A raised exception.  The two codes are those of `PrivateRequestError`. -/
structure Exc where
  kind : ErrorClass
  message : String
  statusCode : Option Nat
  remoteCode : Option String
  deriving DecidableEq, Repr

namespace Exc

def ofKind (kind : ErrorClass) (message : String) : Exc := ⟨kind, message, none, none⟩

def value (message : String) : Exc := ofKind .value message

def integrity (constraint : String) : Exc := ofKind .integrity constraint

/-- `RuntimeError` and the classes derived from it. -/
def isRuntimeError (e : Exc) : Bool :=
  match e.kind with
  | .runtime | .privateRequest | .unsupportedTrading | .unsupportedEnvironment
  | .orderBookUnavailable => true
  | .arithmetic | .key | .value | .integrity | .attribute | .type => false

end Exc

/-! ## §3. Strings as the source treats them. -/

/-- `str.isspace` of one character. -/
def isPySpace (c : Char) : Bool :=
  let n := c.toNat
  (9 ≤ n && n ≤ 13) || (28 ≤ n && n ≤ 32) || n == 0x85 || n == 0xa0 || n == 0x1680
    || (0x2000 ≤ n && n ≤ 0x200a) || n == 0x2028 || n == 0x2029 || n == 0x202f
    || n == 0x205f || n == 0x3000

/-- `str.strip`. -/
def pyStrip (s : String) : List Char :=
  ((s.toList.dropWhile isPySpace).reverse.dropWhile isPySpace).reverse

/-- `str.lower` of one character, as far as a comparison with ASCII words can
tell: the Kelvin sign is the one other character whose lower case is ASCII. -/
def pyLower (c : Char) : Char := if c.toNat = 0x212a then 'k' else c.toLower

/-- `str.lower` of a string.  The dotted capital I has a lower case of two
characters. -/
def pyLowerString (s : List Char) : List Char :=
  s.flatMap fun c => if c.toNat = 0x130 then ['i', Char.ofNat 0x307] else [pyLower c]

/-- `str.upper` of one character, to the same extent: the dotless i and the
long s are the other characters whose upper case is ASCII. -/
def pyUpper (c : Char) : Char :=
  if c.toNat = 0x131 then 'I' else if c.toNat = 0x17f then 'S' else c.toUpper

/-- `a.upper() == b.upper()`. -/
def sameUpper (a b : String) : Bool := a.toList.map pyUpper == b.toList.map pyUpper

/-! ## §4. Decimals. -/

/-- The digits of the default context. -/
def contextPrecision : Nat := 28

/-- `+x` in the default context. -/
def rounded (q : ℚ) : ℚ := Lib.toPrecision contextPrecision q

/-- A result that has been rounded to the context passes through it unchanged. -/
theorem rounded_rounded (q : ℚ) : rounded (rounded q) = rounded q :=
  Lib.toPrecision_toPrecision (by decide) q

/-- Rounding to the context keeps zero and the positive numbers apart: no
positive result is ever rounded to nothing. -/
theorem rounded_pos_iff {q : ℚ} (h : 0 ≤ q) : 0 < rounded q ↔ 0 < q := by
  constructor
  · intro hr
    rcases lt_or_eq_of_le h with hq | rfl
    · exact hq
    · exact absurd hr (by decide)
  · exact Lib.toPrecision_pos (by decide)

/-! ## §5. Increments. -/

/-- `_floor_to_increment`. -/
def floorToIncrement (value increment : ℚ) : Except Exc ℚ :=
  if increment ≤ 0 then .error (.value "quantity increment must be positive")
  else .ok (Lib.truncTo increment value)

/-- Where the source rounds a quantity down, the increment is positive and the
result is the quantity without what exceeds a whole number of increments. -/
theorem floorToIncrement_ok {value increment q : ℚ} (h : floorToIncrement value increment = .ok q) :
    0 < increment ∧ q = Lib.truncTo increment value := by
  unfold floorToIncrement at h
  split at h
  · cases h
  · next hinc =>
      injection h with h
      exact ⟨lt_of_not_ge hinc, h.symm⟩

end BasisHawk.Domain
