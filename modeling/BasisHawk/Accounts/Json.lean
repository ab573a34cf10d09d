/-
  BasisHawk.Accounts.Json
  ───────────────────────
  The JSON an exchange answers with, read the way the account clients read it.

  `x.get(key)`, `str(x)`, `x or default` and `Decimal(str(x))` each have a
  function of their own; the clients are written with these.

  Main results:
    • `pyDecimal_toString` — a whole number survives `Decimal(str(n))`,
    • `getDecimal_of_text` — so does one that a field holds as text.
-/
import BasisHawk.Domain.Basic
import BasisHawk.Lib.Transaction
import Mathlib.Data.List.TakeWhile

namespace BasisHawk.Accounts

open Domain Lib

/-! ## §1. Values. -/

/-- A parsed JSON value.  A float is kept as Python prints it. -/
inductive Json where
  | null
  | bool (b : Bool)
  | int (n : Int)
  | float (text : String)
  | str (s : String)
  | arr (items : List Json)
  | obj (fields : List (String × Json))

/-! ## §2. `Decimal` of a string. -/

/-- A leading sign, and whether it is a minus. -/
def splitSign : List Char → Bool × List Char
  | '-' :: cs => (true, cs)
  | '+' :: cs => (false, cs)
  | cs => (false, cs)

/-- `[eE][+-]?\d+`, or nothing. -/
def exponentOf : List Char → Option Int
  | [] => some 0
  | c :: rest =>
      if c ≠ 'e' ∧ c ≠ 'E' then none
      else
        let signed := splitSign rest
        if signed.2 ≠ [] ∧ signed.2.all Char.isDigit then
          let n : Int := Nat.ofDigitChars 10 signed.2 0
          some (if signed.1 then -n else n)
        else none

/-- An unsigned decimal numeral. -/
def numeralOf (cs : List Char) : Option ℚ :=
  let whole := cs.takeWhile Char.isDigit
  let rest := cs.dropWhile Char.isDigit
  let (fraction, rest) := match rest with
    | '.' :: ds => (ds.takeWhile Char.isDigit, ds.dropWhile Char.isDigit)
    | ds => ([], ds)
  if whole ++ fraction = [] then none
  else (exponentOf rest).map fun e =>
    (Nat.ofDigitChars 10 (whole ++ fraction) 0 : ℚ) * (10 : ℚ) ^ (e - (fraction.length : Int))

/-- A `Decimal`. -/
inductive PyDecimal where
  | finite (q : ℚ)
  | infinite
  | nan
  deriving DecidableEq

/-- `Decimal(text)`, or `InvalidOperation`. -/
def pyDecimal (text : String) : Except Exc PyDecimal :=
  let signed := splitSign ((pyStrip text).filter (· ≠ '_'))
  match numeralOf signed.2 with
  | some v => .ok (.finite (if signed.1 then -v else v))
  | none =>
      let word := String.ofList (signed.2.map pyLower)
      if word ∈ ["inf", "infinity"] then .ok .infinite
      else if word ∈ ["nan", "snan"] then .ok .nan
      else .error (.ofKind .arithmetic "ConversionSyntax")

/-- A comparison with an order: `InvalidOperation` on a NaN. -/
def PyDecimal.ordered (d : PyDecimal) : Except Exc PyDecimal :=
  raiseIf (d = .nan) (.ofKind .arithmetic "comparison involving NaN") >>= fun _ => .ok d

/-- A field that must be a finite decimal. -/
def PyDecimal.required (d : PyDecimal) : Except Exc ℚ :=
  match d with
  | .finite q => .ok q
  | _ => .error (.value "Input should be a finite number")

/-! ## §3. Reading a value. -/

namespace Json

mutual

/-- `str(value)`. -/
def text : Json → String
  | null => "None"
  | bool b => if b then "True" else "False"
  | int n => toString n
  | float t => t
  | str s => s
  | arr items => "[" ++ ", ".intercalate (reprs items) ++ "]"
  | obj fields => "\x7b" ++ ", ".intercalate (fieldReprs fields) ++ "\x7d"

/-- `repr` of the members of a list. -/
def reprs : List Json → List String
  | [] => []
  | str s :: rest => ("'" ++ s ++ "'") :: reprs rest
  | v :: rest => text v :: reprs rest

/-- `repr` of the members of a dictionary. -/
def fieldReprs : List (String × Json) → List String
  | [] => []
  | (k, str s) :: rest => ("'" ++ k ++ "': '" ++ s ++ "'") :: fieldReprs rest
  | (k, v) :: rest => ("'" ++ k ++ "': " ++ text v) :: fieldReprs rest

end

/-- `bool(value)`. -/
def truthy : Json → Bool
  | null => false
  | bool b => b
  | int n => n ≠ 0
  | float t => match pyDecimal t with
      | .ok (.finite q) => q ≠ 0
      | _ => true
  | str s => s ≠ ""
  | arr items => !items.isEmpty
  | obj fields => !fields.isEmpty

/-- `value or default`. -/
def orElse (v default : Json) : Json := if v.truthy then v else default

/-- `value.get(key)`. -/
def get (v : Json) (k : String) : Except Exc Json :=
  match v with
  | obj fields => .ok ((fields.lookup k).getD null)
  | _ => .error (.ofKind .attribute "get")

/-- `str(value.get(key) or default)`. -/
def getText (v : Json) (k default : String) : Except Exc String := do
  let found ← v.get k
  return (found.orElse (str default)).text

/-- `Decimal(str(value.get(key) or "0"))`. -/
def getDecimal (v : Json) (k : String) : Except Exc PyDecimal := do
  let t ← v.getText k "0"
  pyDecimal t

/-- `str(value[key]) if value.get(key) else None`. -/
def getOptionalText (v : Json) (k : String) : Except Exc (Option String) := do
  let found ← v.get k
  return if found.truthy then some found.text else none

/-- `bool(value.get(key))`. -/
def getBool (v : Json) (k : String) : Except Exc Bool := do
  let found ← v.get k
  return found.truthy

/-- `int(value.get(key) or 0)`. -/
def getInt (v : Json) (k : String) : Except Exc Int := do
  match (← v.get k).orElse (int 0) with
  | int n => return n
  | bool b => return if b then 1 else 0
  | float t => match pyDecimal t with
      | .ok (.finite q) => return if 0 ≤ q then ⌊q⌋ else ⌈q⌉
      | _ => throw (.value "cannot convert float to integer")
  | str s => found s.toInt? (.value "invalid literal for int() with base 10")
  | _ => throw (.ofKind .type "int() argument must be a string or a number")

/-- Iterating over a value.  A dictionary iterates over its keys, a string over
its characters. -/
def items : Json → Except Exc (List Json)
  | arr rows => .ok rows
  | obj fields => .ok (fields.map fun f => str f.1)
  | str s => .ok (s.toList.map fun c => str c.toString)
  | _ => .error (.ofKind .type "object is not iterable")

/-- Iterating over `value.get(key) or []`. -/
def getItems (v : Json) (k : String) : Except Exc (List Json) := do
  let rows ← v.get k
  (rows.orElse (arr [])).items

/-- `isinstance(value, dict)`. -/
def isDict : Json → Bool
  | obj _ => true
  | _ => false

/-- `next((row for row in rows if test(row)), None)`. -/
def findRow (test : Json → Except Exc Bool) : List Json → Except Exc (Option Json)
  | [] => .ok none
  | row :: rest => do
      if ← test row then return some row else findRow test rest

/-- `any(test(row) for row in rows)`. -/
def anyRow (test : Json → Except Exc Bool) : List Json → Except Exc Bool
  | [] => .ok false
  | row :: rest => do
      if ← test row then return true else anyRow test rest

end Json

/-! ## §4. Whole numbers. -/

/-- A digit is no white space, so `strip()` keeps the digits at both ends. -/
theorem isPySpace_of_isDigit {c : Char} (h : c.isDigit) : isPySpace c = false := by
  have hc : 48 ≤ c.toNat ∧ c.toNat ≤ 57 := by
    simp only [Char.isDigit, Bool.and_eq_true, decide_eq_true_eq] at h
    exact ⟨h.1, h.2⟩
  unfold isPySpace
  generalize c.toNat = n at hc
  simp only [Bool.or_eq_false_iff, Bool.and_eq_false_iff, decide_eq_false_iff_not,
    beq_eq_false_iff_ne]
  omega

/-- Nothing is stripped from a string without whitespace. -/
theorem pyStrip_of_no_space {s : String} (h : ∀ c ∈ s.toList, isPySpace c = false) :
    pyStrip s = s.toList := by
  have keep : ∀ l : List Char, (∀ c ∈ l, isPySpace c = false) → l.dropWhile isPySpace = l := by
    intro l hl
    cases l with
    | nil => rfl
    | cons c rest => rw [List.dropWhile_cons_of_neg (by simp [hl c List.mem_cons_self])]
  unfold pyStrip
  rw [keep _ h, keep _ (fun c hc => h c (List.mem_reverse.mp hc)), List.reverse_reverse]

/-- The decimal digits of a whole number read back as the number. -/
theorem numeralOf_toDigits (n : Nat) : numeralOf (Nat.toDigits 10 n) = some (n : ℚ) := by
  have hdigit : ∀ c ∈ Nat.toDigits 10 n, c.isDigit = true :=
    fun c hc => Nat.isDigit_of_mem_toDigits (by omega) (by omega) hc
  have htake : (Nat.toDigits 10 n).takeWhile Char.isDigit = Nat.toDigits 10 n :=
    List.takeWhile_eq_self_iff.mpr hdigit
  have hdrop : (Nat.toDigits 10 n).dropWhile Char.isDigit = [] :=
    List.dropWhile_eq_nil_iff.mpr hdigit
  unfold numeralOf
  rw [htake, hdrop]
  simp [exponentOf, Nat.ofDigitChars_toDigits, Nat.toDigits_ne_nil]

/-- `Decimal(str(n))` of a natural number is that number, which is what a
leverage echoed as text comes to. -/
theorem pyDecimal_toString (n : Nat) : pyDecimal (toString n) = .ok (.finite (n : ℚ)) := by
  have hlist : (toString n).toList = Nat.toDigits 10 n := by
    rw [Nat.toString_eq_ofList_toDigits, String.toList_ofList]
  have hdigit : ∀ c ∈ Nat.toDigits 10 n, c.isDigit = true :=
    fun c hc => Nat.isDigit_of_mem_toDigits (by omega) (by omega) hc
  have hstrip : pyStrip (toString n) = Nat.toDigits 10 n := by
    rw [pyStrip_of_no_space, hlist]
    intro c hc
    exact isPySpace_of_isDigit (hdigit c (hlist ▸ hc))
  have hfilter : (Nat.toDigits 10 n).filter (· ≠ '_') = Nat.toDigits 10 n := by
    refine List.filter_eq_self.mpr fun c hc => ?_
    have := hdigit c hc
    simp only [decide_eq_true_eq, ne_eq]
    rintro rfl
    exact absurd this (by decide)
  -- A digit comes first, so there is no sign to take off.
  have hsign : splitSign (Nat.toDigits 10 n) = (false, Nat.toDigits 10 n) := by
    unfold splitSign
    split
    · next ds h =>
        exact absurd (hdigit '-' (by rw [h]; exact List.mem_cons_self)) (by decide)
    · next ds h =>
        exact absurd (hdigit '+' (by rw [h]; exact List.mem_cons_self)) (by decide)
    · rfl
  unfold pyDecimal
  rw [hstrip, hfilter, hsign]
  simp only [numeralOf_toDigits]
  rfl

-- From here on a decimal is only known by the numeral it came from.
attribute [irreducible] pyDecimal

@[simp] theorem Json.orElse_toString (n : Nat) (d : Json) :
    (Json.str (toString n)).orElse d = .str (toString n) := by
  unfold orElse truthy
  rw [if_pos (by simp)]

theorem Json.getText_of_get {v x : Json} {k d : String} (h : v.get k = .ok x) :
    v.getText k d = .ok (x.orElse (.str d)).text := by
  unfold getText
  rw [h]
  rfl

/-- A text field with an empty default is the text. -/
theorem Json.getText_of_str {v : Json} {k s : String} (h : v.get k = .ok (.str s)) :
    v.getText k "" = .ok s := by
  rw [getText_of_get h]
  unfold orElse truthy
  by_cases hs : s = ""
  · rw [if_neg (by simp [hs]), text, hs]
  · rw [if_pos (by simpa using hs), text]

/-- `Decimal(str(item.get(k) or "0"))` reads the item where it is present and
truthy, and zero where it is absent or empty. -/
theorem Json.getDecimal_of_get {v x : Json} {k : String} (h : v.get k = .ok x) :
    v.getDecimal k = pyDecimal (x.orElse (.str "0")).text := by
  unfold getDecimal
  rw [getText_of_get h]
  rfl

/-- A field that holds a whole number as text. -/
theorem Json.getDecimal_of_text {v : Json} {k : String} {n : Nat}
    (h : v.get k = .ok (.str (toString n))) : v.getDecimal k = .ok (.finite (n : ℚ)) := by
  rw [getDecimal_of_get h, orElse_toString, text]
  exact pyDecimal_toString n

/-- The text of an integer is its numeral, zero included: `0 or "0"` is written
the same way. -/
theorem Json.text_orElse_int (n : Nat) :
    ((Json.int n).orElse (.str "0")).text = toString n := by
  have htruthy : (Json.int n).truthy = decide ((n : Int) ≠ 0) := by
    unfold truthy
    rfl
  unfold orElse
  rw [htruthy]
  by_cases hn : n = 0
  · rw [hn]
    unfold text
    rfl
  · rw [if_pos (by simpa using hn)]
    unfold text
    rfl

/-- A field that holds a whole number. -/
theorem Json.getDecimal_of_int {v : Json} {k : String} {n : Nat}
    (h : v.get k = .ok (.int n)) : v.getDecimal k = .ok (.finite (n : ℚ)) := by
  rw [getDecimal_of_get h, text_orElse_int]
  exact pyDecimal_toString n

/-- A row that is found passes the test, and was in the list. -/
theorem Json.findRow_some {test : Json → Except Exc Bool} {rows : List Json} {row : Json}
    (h : Json.findRow test rows = .ok (some row)) : row ∈ rows ∧ test row = .ok true := by
  induction rows with
  | nil => cases h
  | cons r rest ih =>
      unfold Json.findRow at h
      obtain ⟨passed, htest, h⟩ := bind_eq_ok.mp h
      cases passed with
      | true =>
          cases h
          exact ⟨List.mem_cons_self, htest⟩
      | false =>
          obtain ⟨hmem, hrow⟩ := ih h
          exact ⟨List.mem_cons_of_mem _ hmem, hrow⟩

/-- An array under a key is read as the list of its rows. -/
theorem Json.getItems_arr {v : Json} {k : String} {rows : List Json}
    (h : v.get k = .ok (.arr rows)) : v.getItems k = .ok rows := by
  unfold getItems
  rw [h]
  cases rows <;> rfl

end BasisHawk.Accounts
