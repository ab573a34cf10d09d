/-
  BasisHawk.Accounts.Http
  ───────────────────────
  The HTTP layer under the private account clients (`accounts.py`):
  `_json_request` and the success checks of the exchanges.

  A client method is a program over `HttpCall`.  Signatures, timestamps and
  headers are not modelled; a path is the list of its segments.
-/
import BasisHawk.Accounts.Json
import BasisHawk.Lib.Program

namespace BasisHawk.Accounts

open Domain Lib

/-! ## §1. Requests and responses. -/

inductive Method where
  | get | post | delete
  deriving DecidableEq

/-- The HTTP client a request goes through: Binance and MEXC have one for each
market. -/
inductive Host where
  | main | spot | perp
  deriving DecidableEq

structure HttpCall where
  method : Method
  host : Host
  path : List String
  params : List (String × Json)

/-- What `httpx` comes back with.  A body that is not JSON is `none`. -/
inductive Response where
  | unreachable
  | received (status : Nat) (body : Option Json)

/-- `re.sub(r"[^a-z0-9]+", "_", text)`. -/
def underscored : List Char → List Char
  | [] => []
  | c :: rest =>
      if ('a' ≤ c ∧ c ≤ 'z') ∨ ('0' ≤ c ∧ c ≤ '9') then c :: underscored rest
      else match underscored rest with
        | '_' :: tail => '_' :: tail
        | tail => '_' :: tail

/-- `text.strip("_")`. -/
def stripUnderscores (cs : List Char) : List Char :=
  ((cs.dropWhile (· = '_')).reverse.dropWhile (· = '_')).reverse

/-- `_safe_remote_error_code`. -/
def safeRemoteErrorCode (body : Option Json) : Option String :=
  match body with
  | some (.obj fields) =>
      ["label", "code", "retCode"].findSome? fun k =>
        let code : Option String := match fields.lookup k with
          | some (.str s) => some s
          | some (.int n) => some (toString n)
          | _ => none
        let normalized := code.map fun s =>
          stripUnderscores (underscored (pyLowerString (pyStrip s)))
        (normalized.filter (· ≠ [])).map fun cs => String.ofList (cs.take 64)
  | _ => none

/-- A `PrivateRequestError` without codes. -/
def requestError (message : String) : Exc := .ofKind .privateRequest message

/-- `_json_request`, from the response on. -/
def jsonRequest (r : Response) : Except Exc Json :=
  match r with
  | .unreachable => .error (requestError "private account request failed")
  | .received status body =>
      if status < 200 ∨ 300 ≤ status then
        .error ⟨.privateRequest, "private account request rejected with HTTP " ++ toString status,
          some status, safeRemoteErrorCode body⟩
      else found body (requestError "private account response is not JSON")

/-- A method of a private account client. -/
abbrev Http (α : Type) : Type := Prog HttpCall (fun _ => Response) Exc α

/-- One request. -/
def request (c : HttpCall) : Http Json := .call c fun r => .done (jsonRequest r)

/-- A computation that may raise. -/
def evaluate {α : Type} (r : Except Exc α) : Http α := .done r

section Run

variable {σ α β : Type} {serve : (c : HttpCall) → σ → Response × σ} {s t : σ}

@[simp] theorem run_request_bind_ok {c : HttpCall} {f : Json → Http β} {b : β} :
    (request c >>= f).run serve s = (.ok b, t)
      ↔ ∃ v, jsonRequest (serve c s).1 = .ok v ∧ (f v).run serve (serve c s).2 = (.ok b, t) := by
  rw [Prog.run_bind_ok]
  constructor
  · rintro ⟨v, u, h, h'⟩
    obtain ⟨hv, rfl⟩ := Prod.mk.inj h
    exact ⟨v, hv, h'⟩
  · rintro ⟨v, hv, h'⟩
    exact ⟨v, _, Prod.ext hv rfl, h'⟩

@[simp] theorem run_evaluate_bind_ok {r : Except Exc α} {f : α → Http β} {b : β} :
    (evaluate r >>= f).run serve s = (.ok b, t)
      ↔ ∃ a, r = .ok a ∧ (f a).run serve s = (.ok b, t) := by
  rw [Prog.run_bind_ok]
  constructor
  · rintro ⟨a, u, h, h'⟩
    obtain ⟨ha, rfl⟩ := Prod.mk.inj h
    exact ⟨a, ha, h'⟩
  · rintro ⟨a, ha, h'⟩
    exact ⟨a, s, Prod.ext ha rfl, h'⟩

@[simp] theorem run_evaluate {r : Except Exc α} : (evaluate r).run serve s = (r, s) := rfl

end Run

/-- A program that only reads. -/
abbrev Reads {α : Type} (p : Http α) : Prop := p.Ensures (·.method = .get) fun _ => True

/-- A GET leaves the exchange as it is, whatever it answers. -/
theorem reads_request {c : HttpCall} (h : c.method = .get) : Reads (request c) :=
  ⟨h, fun _ => trivial⟩

/-- A value that is computed from an answer changes nothing at the exchange. -/
theorem reads_evaluate {α : Type} (r : Except Exc α) : Reads (evaluate r) := trivial

/-- A request that only reads, followed by one that only reads, only reads: the
read-back of every adapter is put together from this. -/
theorem Reads.bind {α β : Type} {p : Http α} {f : α → Http β} (hp : Reads p)
    (hf : ∀ a, Reads (f a)) : Reads (p >>= f) :=
  Prog.Ensures.bind hp (fun a _ => hf a) fun _ _ => trivial

/-! ## §2. Success checks. -/

/-- `payload.get(key) == value` of a payload that must be a dictionary. -/
def fieldIs (payload : Json) (k : String) (test : Json → Bool) : Bool :=
  match payload with
  | .obj fields => test ((fields.lookup k).getD .null)
  | _ => false

def Json.isStr (s : String) : Json → Bool
  | .str t => t == s
  | _ => false

/-- `_okx_success`. -/
def okxSuccess (payload : Json) : Except Exc Unit :=
  raiseIf (fieldIs payload "code" (Json.isStr "0") = false)
    (requestError "OKX private account request was rejected")

/-- `value == 0` of a parsed number. -/
def Json.isZero : Json → Bool
  | .int n => n == 0
  | .bool b => !b
  | .float t => pyDecimal t = .ok (.finite 0)
  | _ => false

/-- `_bybit_success`. -/
def bybitSuccess (payload : Json) : Except Exc Unit :=
  raiseIf (fieldIs payload "retCode" Json.isZero = false)
    (requestError "Bybit private account request was rejected")

/-- `_mexc_success`. -/
def mexcSuccess (payload : Json) : Except Exc Bool :=
  match payload with
  | .obj _ => do
      if fieldIs payload "success" (fun v => match v with | .bool b => b | _ => false) then
        let code ← payload.getInt "code"
        return code = 0
      else return false
  | _ => .ok false

/-! ## §3. Requests of the exchanges. -/

/-- `BybitAccountClient._paged`, as far as `fuel` requests take it: `none` when
there are more pages than that. -/
def bybitPaged (path : List String) (params : List (String × Json)) :
    (fuel : Nat) → (cursor : Option String) → Http (Option (List Json))
  | 0, _ => pure none
  | fuel + 1, cursor => do
      let payload ← request ⟨.get, .main, path,
        params ++ (cursor.map fun c => ("cursor", Json.str c)).toList⟩
      evaluate (bybitSuccess payload)
      let result := (← evaluate (payload.get "result")).orElse (.obj [])
      let items ← evaluate (result.getItems "list")
      let next ← evaluate (result.getText "nextPageCursor" "")
      if next = "" ∨ cursor = some next then return some items
      else do
        match ← bybitPaged path params fuel (some next) with
        | some rest => return some (items ++ rest)
        | none => return none

end BasisHawk.Accounts
