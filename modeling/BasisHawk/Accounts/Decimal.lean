/-
  BasisHawk.Accounts.Decimal
  ──────────────────────────
  `Decimal`: a sign, a coefficient and an exponent, as the account clients
  write it into a request.

  `format(d, "f")` writes every digit of a number out, whatever its exponent;
  `_plain_decimal` first rounds it to the 28 digits of the context.

  Main results:
    • `pyDecimal_format` — what is written in full reads back as the number,
    • `pyDecimal_plainDecimal` — what `_plain_decimal` writes reads back as the
      number rounded to the context.
-/
import BasisHawk.Accounts.Json
import BasisHawk.Lib.Rounding
import Mathlib.Tactic.Ring

namespace BasisHawk.Accounts

open Domain Lib

/-! ## §1. Numbers. -/

/-- A finite `Decimal`. -/
structure Decimal where
  negative : Bool
  coefficient : Nat
  exponent : Int
  deriving DecidableEq

namespace Decimal

/-- The number without its sign. -/
def magnitude (d : Decimal) : ℚ := d.coefficient * 10 ^ d.exponent

def value (d : Decimal) : ℚ := if d.negative then -d.magnitude else d.magnitude

/-- Rounding to the context, half to even; a number that fits is kept as it
is. -/
def fix (d : Decimal) : Decimal :=
  if d.coefficient < 10 ^ contextPrecision then d
  else
    let places : Int := contextPrecision - 1 - Int.log 10 |d.magnitude|
    { d with
      coefficient := (roundEven (d.magnitude * 10 ^ places)).toNat
      exponent := -places }

/-- `-x`. -/
def neg (d : Decimal) : Decimal := fix { d with negative := !d.negative }

/-- A coefficient without its last zeros, of which at most `fuel` are taken. -/
def stripZeros : Nat → Nat → Int → Nat × Int
  | 0, c, e => (c, e)
  | fuel + 1, c, e => if c ≠ 0 ∧ c % 10 = 0 then stripZeros fuel (c / 10) (e + 1) else (c, e)

/-- `x.normalize()`. -/
def normalize (d : Decimal) : Decimal :=
  let d := d.fix
  let stripped := stripZeros (Nat.toDigits 10 d.coefficient).length d.coefficient d.exponent
  { d with
    coefficient := stripped.1
    exponent := stripped.2 }

/-- The digits of a number, with a point where it has an exponent below zero. -/
def numeral (d : Decimal) : List Char :=
  if 0 ≤ d.exponent then Nat.toDigits 10 (d.coefficient * 10 ^ d.exponent.toNat)
  else
    let places := (-d.exponent).toNat
    let digits := Nat.toDigits 10 d.coefficient
    let padded := List.replicate (places + 1 - digits.length) '0' ++ digits
    padded.take (padded.length - places) ++ '.' :: padded.drop (padded.length - places)

/-- `format(x, "f")`. -/
def format (d : Decimal) : String :=
  String.ofList (if d.negative then '-' :: d.numeral else d.numeral)

/-- `_plain_decimal`. -/
def plainDecimal (d : Decimal) : String := d.normalize.format

/-- `int(x)`. -/
def toInt (d : Decimal) : Int := if 0 ≤ d.value then ⌊d.value⌋ else ⌈d.value⌉

/-- `x == x.to_integral_value()`. -/
def isIntegral (d : Decimal) : Bool := d.value = (roundEven d.value : ℚ)

end Decimal

/-! ## §2. Reading a numeral. -/

/-- A numeral of digits and a point, with or without a minus. -/
theorem pyDecimal_numeral {negative : Bool} {cs : List Char} {q : ℚ}
    (hchars : ∀ c ∈ cs, c.isDigit ∨ c = '.') (hq : numeralOf cs = some q) :
    pyDecimal (String.ofList (if negative then '-' :: cs else cs))
      = .ok (.finite (if negative then -q else q)) := by
  -- No character of a numeral is white space or an underscore.
  have hplain : ∀ c ∈ (if negative then '-' :: cs else cs), isPySpace c = false ∧ c ≠ '_' := by
    have hcs : ∀ c ∈ cs, isPySpace c = false ∧ c ≠ '_' := by
      intro c hc
      rcases hchars c hc with hd | rfl
      · exact ⟨isPySpace_of_isDigit hd, by rintro rfl; exact absurd hd (by decide)⟩
      · exact ⟨by decide, by decide⟩
    cases negative with
    | false => exact hcs
    | true =>
        intro c hc
        rcases List.mem_cons.mp hc with rfl | hc
        · exact ⟨by decide, by decide⟩
        · exact hcs c hc
  have hstrip : pyStrip (String.ofList (if negative then '-' :: cs else cs))
      = if negative then '-' :: cs else cs := by
    rw [pyStrip_of_no_space, String.toList_ofList]
    rw [String.toList_ofList]
    exact fun c hc => (hplain c hc).1
  have hfilter : (if negative then '-' :: cs else cs).filter (· ≠ '_')
      = if negative then '-' :: cs else cs :=
    List.filter_eq_self.mpr fun c hc => by simpa using (hplain c hc).2
  -- The sign is split off only where there is one: a numeral starts with neither sign.
  have hsign : splitSign (if negative then '-' :: cs else cs) = (negative, cs) := by
    cases negative with
    | true => rfl
    | false =>
        show splitSign cs = _
        unfold splitSign
        split
        · exact absurd (hchars '-' List.mem_cons_self) (by decide)
        · exact absurd (hchars '+' List.mem_cons_self) (by decide)
        · rfl
  unfold pyDecimal
  rw [hstrip, hfilter, hsign]
  dsimp only
  rw [hq]

/-- The decimal digits of a number are digit characters, so what `format` writes
can be read back digit by digit. -/
theorem isDigit_of_toDigits (n : Nat) : ∀ c ∈ Nat.toDigits 10 n, c.isDigit :=
  fun _ hc => Nat.isDigit_of_mem_toDigits (by omega) (by omega) hc

/-- A whole number as Python prints it. -/
theorem pyDecimal_int (n : Int) : pyDecimal (toString n) = .ok (.finite (n : ℚ)) := by
  have hdigits : ∀ m : Nat, ∀ c ∈ Nat.toDigits 10 m, c.isDigit ∨ c = '.' :=
    fun m c hc => .inl (isDigit_of_toDigits m c hc)
  cases n with
  | ofNat m =>
      have h := @pyDecimal_numeral false _ _ (hdigits m) (numeralOf_toDigits m)
      have htext : toString (Int.ofNat m) = String.ofList (Nat.toDigits 10 m) :=
        Nat.toString_eq_ofList_toDigits
      rw [htext]
      simpa using h
  | negSucc m =>
      have h := @pyDecimal_numeral true _ _ (hdigits (m + 1)) (numeralOf_toDigits (m + 1))
      have htext : toString (Int.negSucc m) = String.ofList ('-' :: Nat.toDigits 10 (m + 1)) := by
        show "-" ++ toString (m + 1) = _
        rw [Nat.toString_eq_ofList_toDigits, String.ofList_cons]
        rfl
      rw [htext, show ((Int.negSucc m : Int) : ℚ) = -((m + 1 : Nat) : ℚ) by
        rw [Int.negSucc_eq]; push_cast; ring]
      simpa using h

/-! ## §3. What is written in full. -/

namespace Decimal

/-- The digits with their zeros in front, cut where the point goes. -/
theorem numeral_of_neg {d : Decimal} (h : ¬0 ≤ d.exponent) :
    ∃ whole fraction : List Char, d.numeral = whole ++ '.' :: fraction ∧ whole ≠ []
      ∧ (∀ c ∈ whole ++ fraction, c.isDigit) ∧ (fraction.length : Int) = -d.exponent
      ∧ Nat.ofDigitChars 10 (whole ++ fraction) 0 = d.coefficient := by
  let places := (-d.exponent).toNat
  let digits := Nat.toDigits 10 d.coefficient
  let padded := List.replicate (places + 1 - digits.length) '0' ++ digits
  have hlength : places < padded.length := by
    rw [List.length_append, List.length_replicate]
    omega
  refine ⟨padded.take (padded.length - places), padded.drop (padded.length - places), ?_, ?_, ?_,
    ?_, ?_⟩
  · unfold numeral
    rw [if_neg h]
  · intro hnil
    have := congrArg List.length hnil
    rw [List.length_take, List.length_nil] at this
    omega
  · rw [List.take_append_drop]
    intro c hc
    rcases List.mem_append.mp hc with hc | hc
    · rw [List.eq_of_mem_replicate hc]
      decide
    · exact isDigit_of_toDigits _ c hc
  · rw [List.length_drop]
    omega
  · rw [List.take_append_drop, Nat.ofDigitChars_append, Nat.ofDigitChars_replicate_zero, mul_zero]
    exact Nat.ofDigitChars_toDigits (by omega) (by omega)

/-- `format(d, "f")` writes digits and at most the one point, never a sign, a
space or an exponent: the characters that `Decimal` reads. -/
theorem numeral_chars (d : Decimal) : ∀ c ∈ d.numeral, c.isDigit ∨ c = '.' := by
  intro c hc
  by_cases h : 0 ≤ d.exponent
  · unfold numeral at hc
    rw [if_pos h] at hc
    exact .inl (isDigit_of_toDigits _ c hc)
  · obtain ⟨whole, fraction, heq, -, hdigits, -⟩ := numeral_of_neg h
    rw [heq] at hc
    rcases List.mem_append.mp hc with hc | hc
    · exact .inl (hdigits c (List.mem_append.mpr (.inl hc)))
    · rcases List.mem_cons.mp hc with rfl | hc
      · exact .inr rfl
      · exact .inl (hdigits c (List.mem_append.mpr (.inr hc)))

/-- The digits of a number, cut at the point or not, are those of the number. -/
theorem numeralOf_numeral (d : Decimal) : numeralOf d.numeral = some d.magnitude := by
  by_cases h : 0 ≤ d.exponent
  · unfold numeral magnitude
    rw [if_pos h, numeralOf_toDigits]
    obtain ⟨k, hk⟩ := Int.eq_ofNat_of_zero_le h
    rw [hk, zpow_natCast, Int.toNat_natCast]
    push_cast
    rfl
  · obtain ⟨whole, fraction, heq, hne, hdigits, hlength, hvalue⟩ := numeral_of_neg h
    have hwhole : ∀ c ∈ whole, c.isDigit := fun c hc => hdigits c (List.mem_append.mpr (.inl hc))
    have hfraction : ∀ c ∈ fraction, c.isDigit :=
      fun c hc => hdigits c (List.mem_append.mpr (.inr hc))
    have htake : d.numeral.takeWhile Char.isDigit = whole := by
      rw [heq, List.takeWhile_append_of_pos hwhole, List.takeWhile_cons_of_neg (by decide),
        List.append_nil]
    have hdrop : d.numeral.dropWhile Char.isDigit = '.' :: fraction := by
      rw [heq, List.dropWhile_append_of_pos hwhole, List.dropWhile_cons_of_neg (by decide)]
    have hsplit : numeralOf d.numeral = if whole ++ fraction.takeWhile Char.isDigit = [] then none
        else (exponentOf (fraction.dropWhile Char.isDigit)).map fun e =>
          (Nat.ofDigitChars 10 (whole ++ fraction.takeWhile Char.isDigit) 0 : ℚ)
            * (10 : ℚ) ^ (e - ((fraction.takeWhile Char.isDigit).length : Int)) := by
      unfold numeralOf
      rw [htake, hdrop]
      rfl
    rw [hsplit, List.takeWhile_eq_self_iff.mpr hfraction, List.dropWhile_eq_nil_iff.mpr hfraction,
      if_neg (by simp [hne]), hvalue]
    unfold magnitude exponentOf
    rw [Option.map_some, show (0 : Int) - (fraction.length : Int) = d.exponent by omega]

/-- What is written in full reads back as the number. -/
theorem pyDecimal_format (d : Decimal) : pyDecimal d.format = .ok (.finite d.value) :=
  pyDecimal_numeral d.numeral_chars d.numeralOf_numeral

/-! ## §4. Rounding to the context. -/

theorem magnitude_nonneg (d : Decimal) : 0 ≤ d.magnitude := by
  unfold magnitude
  positivity

@[simp] theorem fix_negative (d : Decimal) : d.fix.negative = d.negative := by
  unfold fix
  split <;> rfl

/-- `_fix` rounds the magnitude to the 28 digits of the context and leaves the
sign alone. -/
theorem magnitude_fix (d : Decimal) : d.fix.magnitude = rounded d.magnitude := by
  unfold fix rounded
  split
  · -- 28 digits or fewer: nothing is rounded on either side.
    next hfits =>
      have hcoefficient : |(d.coefficient : ℤ)| < 10 ^ contextPrecision := by
        rw [abs_of_nonneg (by omega)]
        exact_mod_cast hfits
      exact (toPrecision_eq_self hcoefficient (by unfold magnitude; push_cast; rfl)).symm
  · next hlong =>
      have hpos : 0 < d.coefficient := by
        have : 0 < 10 ^ contextPrecision := by positivity
        omega
      have hne : d.magnitude ≠ 0 := by
        unfold magnitude
        positivity
      unfold toPrecision
      rw [if_neg hne]
      dsimp only
      -- The scaled magnitude is not negative, so `toNat` loses nothing.
      generalize hx : d.magnitude * 10 ^ ((contextPrecision : ℤ) - 1 - Int.log 10 |d.magnitude|) = x
      have hx0 : 0 ≤ x := by
        have := d.magnitude_nonneg
        rw [← hx]
        positivity
      have hround : 0 ≤ roundEven x :=
        le_trans (Int.floor_nonneg.mpr hx0) (roundEven_bounds x).1
      show ((roundEven x).toNat : ℚ) * 10 ^ (-_ : ℤ) = _
      rw [zpow_neg, ← div_eq_mul_inv]
      congr 1
      exact_mod_cast Int.toNat_of_nonneg hround

/-- Taking trailing zeros off the coefficient and counting them in the exponent
leaves the value as it is; the induction is on the fuel. -/
theorem stripZeros_value : ∀ (fuel c : Nat) (e : Int),
    ((stripZeros fuel c e).1 : ℚ) * 10 ^ (stripZeros fuel c e).2 = c * 10 ^ e
  | 0, _, _ => rfl
  | fuel + 1, c, e => by
      unfold stripZeros
      split
      · next h =>
          rw [stripZeros_value fuel (c / 10) (e + 1), zpow_add_one₀ (by norm_num)]
          have hc : c = 10 * (c / 10) := by omega
          conv_rhs => rw [hc]
          push_cast
          ring
      · rfl

/-- `normalize()` rounds first and strips zeros then, so its magnitude is the
rounded one: this is the step at which a long quantity changes. -/
theorem magnitude_normalize (d : Decimal) : d.normalize.magnitude = rounded d.magnitude := by
  rw [← magnitude_fix]
  exact stripZeros_value _ _ _

/-- What `_plain_decimal` writes reads back as the number rounded to the
context. -/
theorem pyDecimal_plainDecimal (d : Decimal) : pyDecimal d.plainDecimal
    = .ok (.finite (if d.negative then -rounded d.magnitude else rounded d.magnitude)) := by
  unfold plainDecimal
  rw [pyDecimal_format]
  unfold value
  rw [magnitude_normalize]
  show Except.ok (PyDecimal.finite (if d.fix.negative then _ else _)) = _
  rw [fix_negative]

/-- A number that is equal to its integral value is what `int` makes of it. -/
theorem toInt_of_isIntegral {d : Decimal} (h : d.isIntegral) : (d.toInt : ℚ) = d.value := by
  have h : d.value = (roundEven d.value : ℚ) := of_decide_eq_true h
  unfold toInt
  rw [h]
  split <;> simp

/-- The value without its sign is coefficient times power of ten. -/
theorem abs_value (d : Decimal) : |d.value| = d.magnitude := by
  unfold value
  split
  · rw [abs_neg, abs_of_nonneg d.magnitude_nonneg]
  · rw [abs_of_nonneg d.magnitude_nonneg]

/-- A decimal is positive exactly if it has no sign and a coefficient other than
zero; `-0` is not. -/
theorem value_pos_iff (d : Decimal) : 0 < d.value ↔ d.negative = false ∧ 0 < d.magnitude := by
  have := d.magnitude_nonneg
  unfold value
  cases d.negative with
  | true => simpa using this
  | false => simp

theorem neg_negative (d : Decimal) : d.neg.negative = !d.negative := by
  unfold neg
  rw [fix_negative]

/-- The unary minus applies the context too: it flips the sign and rounds the
magnitude. -/
theorem magnitude_neg (d : Decimal) : d.neg.magnitude = rounded d.magnitude := by
  unfold neg
  rw [magnitude_fix]
  rfl

end Decimal

end BasisHawk.Accounts
