/-
  BasisHawk.Planning.Confirmation
  ───────────────────────────────
  The confirmation of an opening preview (`api.py`, `storage.py`,
  `trading.py`): the ticket is reserved in one transaction and the intent is
  created in another one, by any number of requests at once.

  A ticket that the same key has reserved before is passed without a look at
  its expiry or at the fingerprint.  So a retry may come late, or with other
  settings.

  Main results:
    • `confirmations_buy_once` — in any order of steps a ticket buys one intent
      at most, for its own actor and within its own limits,
    • `confirmations_protected` — in time and unchanged as well, if retries are,
    • `late_retry` — a retry after the expiry and a change of the settings.
-/
import BasisHawk.Planning.Races

namespace BasisHawk.Planning

open Domain Lib
open Lib.Schema (Exclusive exec_session exec_data exec_commit)
open Tx

/-! ## §1. `confirm_live_open`. -/

/-- `HTTPException`; nothing looks at the class of it. -/
def httpException (statusCode : Nat) (detail : String) : Exc :=
  ⟨.runtime, detail, some statusCode, none⟩

/-- A confirmation and what it reads outside of the tables: the credentials, the
market, the account snapshot, the clock and, twice, the settings. -/
structure ConfirmRequest where
  previewId : Nat
  actor : String
  idempotencyKey : String
  credentialConfigured : Option (Exchange → ExchangeEnvironment → Bool)
  executableOpportunity : Exchange → String → Except Exc (Option Opportunity)
  instrumentPair : Exchange → String → Option InstrumentPair
  spotBuyFeeInBase : Exchange → ExchangeEnvironment → Bool
  settings : ScannerSettings
  previewedAt : Int
  reservedAt : Int
  plannedSettings : ScannerSettings
  draw : Draw

/-- `reserve_trade_preview`. -/
def reserveTradePreview (previewId : Nat) (actor requestFingerprint idempotencyKey : String)
    (observedNow : Int) : Tx Unit := withSession do
  let row ← selectForUpdate (.preview previewId)
  let row ← pure' (found row (.value "trade preview was not found"))
  pure' (raiseIf (row.actor ≠ actor) (.value "trade preview belongs to another administrator"))
  match row.confirmationIdempotencyKey with
  | some key =>
      pure' (raiseIf (key ≠ idempotencyKey)
        (.value "trade preview was already confirmed with another idempotency key"))
  | none => do
      pure' (raiseIf (row.expiresAt ≤ observedNow) (.value "trade preview has expired"))
      pure' (raiseIf (row.requestFingerprint ≠ requestFingerprint)
        (.value "market or configuration changed after trade preview"))
      flush (.confirmPreview previewId idempotencyKey observedNow)
      commit

/-- The terms a confirmation plans on. -/
def ConfirmRequest.terms (r : ConfirmRequest) (stored : TradePreview) (opportunity : Opportunity)
    (pair : InstrumentPair) (settings : ScannerSettings) : OpenTerms where
  opportunity := opportunity
  pair := pair
  notionalUsdt := stored.requestedNotional
  settings := settings
  environment := stored.environment
  leverage := stored.leverage
  maximumSlippage := stored.maximumSlippage
  spotBuyFeeInBase := r.spotBuyFeeInBase stored.exchange stored.environment

/-- What the handler checks of the ticket, up to the market. -/
def ConfirmRequest.market (r : ConfirmRequest) (stored : TradePreview) :
    Except Exc (Opportunity × InstrumentPair × Limit × Limit) := do
  raiseIf (stored.action ≠ .opening ∨ stored.pairedPositionId ≠ none)
    (httpException 409 "trade preview is not an opening preview")
  let configured ← found r.credentialConfigured
    (httpException 503 "credential encryption is unavailable")
  raiseIf (configured stored.exchange stored.environment = false)
    (httpException 409 "exchange credential is not configured")
  let opportunity ← (match r.executableOpportunity stored.exchange stored.baseAsset with
    | .ok opportunity => .ok opportunity
    | .error e =>
        if e.isRuntimeError ∨ e.kind = .value then
          .error (httpException 409 "executable top-of-book data is unavailable")
        else .error e)
  let opportunity ← found opportunity
    (httpException 409 "current market or trading rules are not available")
  let pair ← found (r.instrumentPair stored.exchange stored.baseAsset)
    (httpException 409 "current market or trading rules are not available")
  let spotLimit ← found stored.spotLimitPrice
    (httpException 409 "trade preview was created by an older software version")
  let perpLimit ← found stored.perpLimitPrice
    (httpException 409 "trade preview was created by an older software version")
  return (opportunity, pair, spotLimit, perpLimit)

/-- `except (IdempotencyConflict, TradeValidationError, ValueError)`. -/
def conflict (e : Exc) : Exc :=
  if e.kind = .value ∨ e = idempotencyConflict then httpException 409 e.message else e

variable (sha256 : Digested → String)

/-- The handler once it knows the ticket and the market. -/
def confirmOn (r : ConfirmRequest) (stored : TradePreview) (opportunity : Opportunity)
    (pair : InstrumentPair) (spotLimit perpLimit : Limit) : Tx (Prepared × Bool) := do
  let current ← pure' (previewLiveOpen sha256 (r.terms stored opportunity pair r.settings)
    r.previewedAt)
  reserveTradePreview stored.id r.actor current.requestFingerprint r.idempotencyKey r.reservedAt
  planLiveOpen sha256 (r.terms stored opportunity pair r.plannedSettings) r.idempotencyKey
    (some spotLimit) (some perpLimit) r.draw

/-- `confirm_live_open`. -/
def confirmLiveOpen (r : ConfirmRequest) : Tx (Prepared × Bool) := do
  let control ← withSession (select .control)
  pure' (raiseIf (control.map (·.state) ≠ some .ready)
    (httpException 409 "execution is not ready for live confirmation"))
  let stored ← withSession (select (.preview r.previewId))
  let stored ← pure' (found stored (httpException 404 "trade preview was not found"))
  let (opportunity, pair, spotLimit, perpLimit) ← pure' (r.market stored)
  (confirmOn sha256 r stored opportunity pair spotLimit perpLimit).mapError conflict

/-! ## §2. What a ticket buys. -/

section Tickets

variable {sha256}

/-- The row of a ticket, whether it is confirmed or not. -/
def TradePreview.IsOf (row ticket : TradePreview) : Prop :=
  ∃ key confirmedAt, row
    = { ticket with confirmationIdempotencyKey := key, confirmedAt := confirmedAt }

theorem TradePreview.IsOf.market {row ticket : TradePreview} (h : row.IsOf ticket)
    (r : ConfirmRequest) : r.market row = r.market ticket := by
  obtain ⟨key, confirmedAt, rfl⟩ := h
  rfl

/-- A ticket that was reserved again is confirmed on the same terms. -/
theorem TradePreview.IsOf.terms {row ticket : TradePreview} (h : row.IsOf ticket)
    (r : ConfirmRequest) (o : Opportunity) (pair : InstrumentPair) (settings : ScannerSettings) :
    r.terms row o pair settings = r.terms ticket o pair settings := by
  obtain ⟨key, confirmedAt, rfl⟩ := h
  rfl

/-- The request was confirmed on what the ticket says: in time, and with the
settings it was issued under. -/
def ConfirmRequest.Agrees (sha256 : Digested → String) (r : ConfirmRequest)
    (ticket : TradePreview) : Prop :=
  r.reservedAt < ticket.expiresAt
    ∧ (r.market ticket).toOption.map (fun (o, pair, _, _) =>
        (r.terms ticket o pair r.settings).fingerprint sha256) = some ticket.requestFingerprint

instance (r : ConfirmRequest) (ticket : TradePreview) : Decidable (r.Agrees sha256 ticket) :=
  inferInstanceAs (Decidable (_ ∧ _))

/-- The rows that a confirmation of the ticket prepares. -/
def ConfirmRequest.Prepares (sha256 : Digested → String) (r : ConfirmRequest)
    (ticket : TradePreview) (p : Prepared) : Prop :=
  ∃ o pair spotLimit perpLimit, r.market ticket = .ok (o, pair, spotLimit, perpLimit)
    ∧ prepareLiveOpen sha256 (r.terms ticket o pair r.plannedSettings) r.idempotencyKey
      (some spotLimit) (some perpLimit) r.draw = .ok p

/-- The rows are bought by the ticket's actor at the ticket's limits, and these
can be met at the market the request has read. -/
structure Bought (ticket : TradePreview) (r : ConfirmRequest) (p : Prepared) : Prop where
  actor : r.actor = ticket.actor
  limits : ∃ spotLimit perpLimit o, ticket.spotLimitPrice = some spotLimit
    ∧ ticket.perpLimitPrice = some perpLimit
    ∧ p.legs.map (fun leg => (leg.leg, leg.limitPrice))
      = [(.primary .spot, spotLimit.1), (.primary .perp, perpLimit.1)]
    ∧ r.executableOpportunity ticket.exchange ticket.baseAsset = .ok (some o)
    ∧ o.spotAsk ≤ spotLimit.1 ∧ perpLimit.1 ≤ o.perpBid

/-- They are bought before the ticket expires, and are what it was issued for. -/
structure Protected (ticket : TradePreview) (r : ConfirmRequest) (p : Prepared) : Prop
    extends Bought ticket r p where
  inTime : p.intent.createdAt < ticket.expiresAt
  unchanged : p.intent.requestFingerprint = ticket.requestFingerprint

/-- What the handler has checked of the ticket. -/
theorem ConfirmRequest.market_ok {r : ConfirmRequest} {ticket : TradePreview} {o : Opportunity}
    {pair : InstrumentPair} {spotLimit perpLimit : Limit}
    (h : r.market ticket = .ok (o, pair, spotLimit, perpLimit)) :
    r.executableOpportunity ticket.exchange ticket.baseAsset = .ok (some o)
      ∧ ticket.spotLimitPrice = some spotLimit ∧ ticket.perpLimitPrice = some perpLimit := by
  simp only [ConfirmRequest.market, raiseIf_bind_eq_ok, found_bind_eq_ok] at h
  obtain ⟨-, configured, -, -, h⟩ := h
  obtain ⟨read, hread, h⟩ := bind_eq_ok.mp h
  simp only [found_bind_eq_ok] at h
  obtain ⟨o', rfl, pair', -, spot, hspot, perp, hperp, h⟩ := h
  cases h
  refine ⟨?_, hspot, hperp⟩
  split at hread
  · next heq =>
      cases hread
      exact heq
  · split at hread <;> cases hread

/-- The legs of a prepared opening, and when it is created. -/
theorem prepareLiveOpen_limits {t : OpenTerms} {key : String} {spotLimit perpLimit : Limit}
    {d : Draw} {p : Prepared}
    (h : prepareLiveOpen sha256 t key (some spotLimit) (some perpLimit) d = .ok p) :
    p.legs.map (fun leg => (leg.leg, leg.limitPrice))
        = [(.primary .spot, spotLimit.1), (.primary .perp, perpLimit.1)]
      ∧ t.opportunity.spotAsk ≤ spotLimit.1 ∧ perpLimit.1 ≤ t.opportunity.perpBid
      ∧ p.intent.createdAt = d.nowValue := by
  unfold prepareLiveOpen at h
  split at h
  · cases h
  · dsimp only [Option.getD_some] at h
    split at h
    · cases h
    · next hprices =>
        rw [not_or, not_lt, not_lt] at hprices
        injection h with h
        subst h
        exact ⟨rfl, hprices.1, hprices.2, rfl⟩

/-- What a confirmation prepares is bought. -/
theorem ConfirmRequest.Prepares.bought {r : ConfirmRequest} {ticket : TradePreview} {p : Prepared}
    (h : r.Prepares sha256 ticket p) (hactor : r.actor = ticket.actor) : Bought ticket r p := by
  obtain ⟨o, pair, spotLimit, perpLimit, hmarket, hprepare⟩ := h
  obtain ⟨hread, hspot, hperp⟩ := ConfirmRequest.market_ok hmarket
  obtain ⟨hlegs, hask, hbid, -⟩ := prepareLiveOpen_limits hprepare
  exact ⟨hactor, spotLimit, perpLimit, o, hspot, hperp, hlegs, hread, hask, hbid⟩

/-- The prepared intent carries the key of the request. -/
theorem ConfirmRequest.Prepares.key {r : ConfirmRequest} {ticket : TradePreview} {p : Prepared}
    (h : r.Prepares sha256 ticket p) : p.intent.idempotencyKey = r.idempotencyKey := by
  obtain ⟨o, pair, spotLimit, perpLimit, -, hprepare⟩ := h
  exact (prepareLiveOpen_spec hprepare).1.key

/-- Between the reservation and the planning of a request neither do the settings
change nor does the ticket expire. -/
def ConfirmRequest.Prompt (r : ConfirmRequest) (ticket : TradePreview) : Prop :=
  r.plannedSettings = r.settings
    ∧ (r.reservedAt < ticket.expiresAt → r.draw.nowValue < ticket.expiresAt)

/-- A confirmation by the actor of the ticket, in time and on unchanged terms,
is protected as the claim says. -/
theorem ConfirmRequest.Prepares.protected {r : ConfirmRequest} {ticket : TradePreview}
    {p : Prepared} (h : r.Prepares sha256 ticket p) (hactor : r.actor = ticket.actor)
    (hprompt : r.Prompt ticket)
    (hagrees : r.Agrees sha256 ticket) : Protected ticket r p := by
  refine ⟨h.bought hactor, ?_, ?_⟩
  · obtain ⟨o, pair, spotLimit, perpLimit, -, hprepare⟩ := h
    rw [(prepareLiveOpen_limits hprepare).2.2.2]
    exact hprompt.2 hagrees.1
  · obtain ⟨o, pair, spotLimit, perpLimit, hmarket, hprepare⟩ := h
    have hfingerprint := hagrees.2
    rw [hmarket] at hfingerprint
    rw [(prepareLiveOpen_spec hprepare).2.2, hprompt.1]
    exact Option.some.inj hfingerprint

end Tickets

/-! ## §3. Confirmations among others. -/

/-- Any number of confirmations of one ticket.  `valid` are the requests that
may buy. -/
structure Sale (ι : Type) where
  sha256 : Digested → String
  ticket : TradePreview
  before : Tables
  request : ι → ConfirmRequest
  valid : ι → Prop

variable {ι : Type}

namespace Sale

variable (s : Sale ι)

/-- The ticket is stored, reserved by this key or by none. -/
def ReservedBy (key : Option String) (d : Tables) : Prop :=
  ∃ row, ask (.preview s.ticket.id) d = some row ∧ row.IsOf s.ticket
    ∧ row.confirmationIdempotencyKey = key

/-- An intent with this key is stored. -/
def Taken (key : String) (d : Tables) : Prop := ∃ t ∈ d.intents, t.idempotencyKey = key

/-- The rows of a request that may buy. -/
structure Makes (i : ι) (p : Prepared) : Prop where
  valid : s.valid i
  actor : (s.request i).actor = s.ticket.actor
  prepares : (s.request i).Prepares s.sha256 s.ticket p

/-- What any order of steps keeps. -/
structure Sound (b : Base ι) : Prop where
  exclusive : Exclusive b
  ticket : ∃ key, s.ReservedBy key b.data
  intents : (b.data.intents = s.before.intents ∧ b.data.legs = s.before.legs)
    ∨ ∃ i p, s.Makes i p ∧ b.data.intents = s.before.intents ++ [p.intent]
      ∧ b.data.legs = s.before.legs ++ p.legs
      ∧ s.ReservedBy (some (s.request i).idempotencyKey) b.data

/-- A request commits the reservation of a ticket that it has locked and that
nobody has reserved, or its rows under the key that has reserved the ticket. -/
inductive Commits (i : ι) (b : Base ι) : Prop
  | reserves {at' : Int}
      (hwrites : (b.session i).writes
        = [.confirmPreview s.ticket.id (s.request i).idempotencyKey at'])
      (hlock : .preview s.ticket.id ∈ (b.session i).locks) (hfree : s.ReservedBy none b.data)
  | creates {p : Prepared}
      (hwrites : (b.session i).writes = [.intent p.intent, .legs p.legs])
      (hclaim : .intentKey (s.request i).idempotencyKey ∈ (b.session i).claims)
      (hnew : ¬Taken (s.request i).idempotencyKey b.data) (hmakes : s.Makes i p)
      (hreserved : s.ReservedBy (some (s.request i).idempotencyKey) b.data)

/-- Commits are the steps that matter. -/
def Guard (i : ι) : Sql → Base ι → Prop
  | .commit, b => s.Commits i b
  | _, _ => True

variable {s}

/-- A ticket is reserved by one key at most. -/
theorem ReservedBy.unique {key key' : Option String} {d : Tables} (h : s.ReservedBy key d)
    (h' : s.ReservedBy key' d) : key = key' := by
  obtain ⟨row, hrow, -, rfl⟩ := h
  obtain ⟨row', hrow', -, rfl⟩ := h'
  rw [hrow] at hrow'
  rw [Option.some.inj hrow']

/-- A confirmed ticket is reserved. -/
theorem ReservedBy.confirm {key : Option String} {d : Tables} (h : s.ReservedBy key d) (k : String)
    (at' : Int) : s.ReservedBy (some k) (apply (.confirmPreview s.ticket.id k at') d) := by
  obtain ⟨row, hrow, ⟨key', at'', rfl⟩, -⟩ := h
  have hfind : ask (.preview s.ticket.id) (apply (.confirmPreview s.ticket.id k at') d)
      = some { s.ticket with confirmationIdempotencyKey := some k, confirmedAt := some at' } := by
    simp only [ask, apply] at hrow ⊢
    generalize d.previews = rows at hrow ⊢
    induction rows with
    | nil => cases hrow
    | cons row rows ih =>
        by_cases hid : row.id = s.ticket.id
        · rw [List.find?_cons_of_pos (by simpa using hid)] at hrow
          cases hrow
          simp
        · rw [List.find?_cons_of_neg (by simpa using hid)] at hrow
          rw [List.map_cons, if_neg hid, List.find?_cons_of_neg (by simpa using hid)]
          exact ih hrow
  exact ⟨_, hfind, ⟨_, _, rfl⟩, rfl⟩

/-- What a step does to the tables. -/
inductive Change (s : Sale ι) (i : ι) (b : Base ι) (d : Tables) : Prop
  | none (hd : d = b.data)
  | reserves {at' : Int} (hlock : .preview s.ticket.id ∈ (b.session i).locks)
      (hfree : s.ReservedBy Option.none b.data)
      (hd : d = apply (.confirmPreview s.ticket.id (s.request i).idempotencyKey at') b.data)
  | creates {p : Prepared} (hclaim : .intentKey (s.request i).idempotencyKey ∈ (b.session i).claims)
      (hnew : ¬Taken (s.request i).idempotencyKey b.data) (hmakes : s.Makes i p)
      (hreserved : s.ReservedBy (some (s.request i).idempotencyKey) b.data)
      (hintents : d.intents = b.data.intents ++ [p.intent])
      (hlegs : d.legs = b.data.legs ++ p.legs) (hpreviews : d.previews = b.data.previews)

/-- A reserved ticket stays reserved by its key. -/
theorem Change.reserved {i : ι} {b : Base ι} {d : Tables} (h : s.Change i b d) {key : String}
    (hkey : s.ReservedBy (some key) b.data) : s.ReservedBy (some key) d := by
  cases h with
  | none hd => rwa [hd]
  | reserves hlock hfree hd => cases hfree.unique hkey
  | creates hclaim hnew hmakes hreserved hintents hlegs hpreviews =>
      obtain ⟨row, hrow, hof⟩ := hkey
      refine ⟨row, ?_, hof⟩
      show d.previews.find? _ = _
      rw [hpreviews]
      exact hrow

/-- A key that is taken stays taken. -/
theorem Change.taken {i : ι} {b : Base ι} {d : Tables} (h : s.Change i b d) {key : String}
    (hkey : Taken key b.data) : Taken key d := by
  cases h with
  | none hd => rwa [hd]
  | reserves hlock hfree hd => rwa [hd]
  | creates hclaim hnew hmakes hreserved hintents hlegs hpreviews =>
      obtain ⟨t, ht, hkey⟩ := hkey
      refine ⟨t, ?_, hkey⟩
      rw [hintents]
      exact List.mem_append_left _ ht

section Steps

variable [DecidableEq ι] {i : ι} {o : Sql} {b b' : Base ι} {r : Stmt.Rep Ans o}

/-- What one statement of one session may change of the tables. -/
theorem change (h : (schema.requests ι).exec i o b r b') (hguard : s.Guard i o b) :
    s.Change i b b'.data := by
  by_cases ho : o = .commit
  · subst ho
    obtain ⟨hdata, -⟩ := exec_commit h
    cases hguard with
    | @reserves at' hwrites hlock hfree =>
        have hview : b'.data
            = apply (.confirmPreview s.ticket.id (s.request i).idempotencyKey at') b.data := by
          rw [hdata, Schema.view, hwrites]
          rfl
        exact .reserves hlock hfree hview
    | @creates p hwrites hclaim hnew hmakes hreserved =>
        have hview : b'.data = apply (.legs p.legs) (apply (.intent p.intent) b.data) := by
          rw [hdata, Schema.view, hwrites]
          rfl
        exact .creates hclaim hnew hmakes hreserved (by rw [hview]; rfl) (by rw [hview]; rfl)
          (by rw [hview]; rfl)
  · exact .none (exec_data h ho)

/-- Two requests do not buy. -/
theorem Sound.step (hs : s.Sound b) (h : (schema.requests ι).exec i o b r b')
    (hguard : s.Guard i o b) : s.Sound b' := by
  have hexclusive := hs.exclusive.exec h
  have hchange := change h hguard
  cases change h hguard with
  | none hd =>
      refine ⟨hexclusive, ?_, ?_⟩
      · rw [hd]
        exact hs.ticket
      · rw [hd]
        exact hs.intents
  | reserves hlock hfree hd =>
      refine ⟨hexclusive, ?_, ?_⟩
      · rw [hd]
        exact ⟨_, hfree.confirm _ _⟩
      · rcases hs.intents with hnone | ⟨j, p, -, -, -, hreserved⟩
        · rw [hd]
          exact .inl hnone
        · cases hfree.unique hreserved
  | @creates p hclaim hnew hmakes hreserved hintents hlegs hpreviews =>
      refine ⟨hexclusive, ⟨_, hchange.reserved hreserved⟩, .inr ⟨i, p, hmakes, ?_⟩⟩
      rcases hs.intents with ⟨hi, hl⟩ | ⟨j, q, hj, hi, -, hother⟩
      · rw [hintents, hlegs, hi, hl]
        exact ⟨rfl, rfl, hchange.reserved hreserved⟩
      · -- The rows that are there have the key that has reserved the ticket.
        refine absurd ⟨q.intent, ?_, ?_⟩ hnew
        · rw [hi]
          exact List.mem_append_right _ (List.mem_singleton_self _)
        · rw [hj.prepares.key]
          exact Option.some.inj (hother.unique hreserved)

end Steps

/-! ## §4. One confirmation. -/

/-- Only a commit is guarded. -/
theorem guard_of_ne {i : ι} {o : Sql} (ho : o ≠ .commit) (b : Base ι) : s.Guard i o b := by
  cases o with
  | commit => exact absurd rfl ho
  | select q => trivial
  | selectForUpdate q => trivial
  | flush w => trivial
  | rollback => trivial

section Rules

variable [DecidableEq ι] {allow : ι → Sql → Base ι → Prop} {i : ι} {α β : Type}

variable (s allow i) in
/-- The others as request `i` sees them. -/
abbrev among : System Sql (Stmt.Rep Ans) Unit (Base ι) :=
  (schema.requests ι).member allow s.Sound s.Guard i

variable (s allow i) in
/-- The guarantee request `i` works under. -/
abbrev goal (p : Tx α) (Q : Except Exc α → Base ι → Prop) (b : Base ι) : Prop :=
  (s.among allow i).wp s.Sound (s.Guard i) p Q b

/-- The others break no assertion that survives every change of the tables, and
leave a request's own session alone. -/
theorem stable_of_change {P : Transaction → Tables → Prop}
    (hP : ∀ (b : Base ι) j d, s.Sound b → j ≠ i → s.Change j b d → P (b.session i) b.data →
      P (b.session i) d) :
    (s.among allow i).Stable fun b => P (b.session i) b.data := by
  intro a b b' h hb
  cases h with
  | @call j o w r w' hI hj ha hpre h =>
      show P (b'.session i) b'.data
      rw [exec_session h (Ne.symm hj)]
      exact hP b j b'.data hI hj (change h hpre) hb

/-- An assertion on the tables that survives every change. -/
def Lasting (s : Sale ι) (P : Tables → Prop) : Prop :=
  ∀ (b : Base ι) j d, s.Change j b d → P b.data → P d

/-- What lasts in the tables is stable under the other sessions. -/
theorem Lasting.stable {P : Tables → Prop} (hP : s.Lasting P) {t : Transaction} :
    (s.among allow i).Stable fun b => b.session i = t ∧ P b.data :=
  stable_of_change (P := fun t' d => t' = t ∧ P d)
    fun b j d _ _ hchange hb => ⟨hb.1, hP b j d hchange hb.2⟩

/-- While a request has locked the free ticket, nobody else reserves it. -/
theorem stable_locked {t : Transaction} (hlock : .preview s.ticket.id ∈ t.locks) :
    (s.among allow i).Stable fun b => b.session i = t ∧ s.ReservedBy none b.data := by
  refine stable_of_change (P := fun t' d => t' = t ∧ s.ReservedBy none d) ?_
  intro b j d hI hj hchange hb
  refine ⟨hb.1, ?_⟩
  cases hchange with
  | none hd =>
      rw [hd]
      exact hb.2
  | reserves hother hfree hd =>
      refine absurd (hI.exclusive.locks j i _ hother ?_) hj
      rw [hb.1]
      exact hlock
  | creates hclaim hnew hmakes hreserved hintents hlegs hpreviews => cases hb.2.unique hreserved

/-- While a request has flushed its key, nobody else stores it. -/
theorem stable_claimed {t : Transaction} {key : String} (hclaim : .intentKey key ∈ t.claims)
    {P : Tables → Prop} (hP : s.Lasting P) :
    (s.among allow i).Stable fun b => b.session i = t ∧ ¬Taken key b.data ∧ P b.data := by
  refine stable_of_change (P := fun t' d => t' = t ∧ ¬Taken key d ∧ P d) ?_
  intro b j d hI hj hchange hb
  refine ⟨hb.1, ?_, hP b j d hchange hb.2.2⟩
  cases hchange with
  | none hd =>
      rw [hd]
      exact hb.2.1
  | reserves hlock hfree hd =>
      rw [hd]
      exact hb.2.1
  | @creates p hother hnew hmakes hreserved hintents hlegs hpreviews =>
      rintro ⟨x, hx, hkey⟩
      rw [hintents] at hx
      rcases List.mem_append.mp hx with hx | hx
      · exact hb.2.1 ⟨x, hx, hkey⟩
      · rw [List.mem_singleton.mp hx, hmakes.prepares.key] at hkey
        refine hj (hI.exclusive.claims j i _ hother ?_)
        rw [hb.1, hkey]
        exact hclaim

/-- The rule for a statement that is no commit. -/
theorem goal_call {o : Sql} {k : Stmt.Rep Ans o → Tx α} {Q : Except Exc α → Base ι → Prop}
    {P : Base ι → Prop} (hP : (s.among allow i).Stable P) (ho : o ≠ .commit) {b : Base ι} (hb : P b)
    (hnext : ∀ b₁ b', s.Sound b₁ → P b₁ → allow i o b₁ →
      b'.session i = (schema.answer o (b₁.data, b₁.session i)).2.2 → b'.data = b₁.data →
      s.goal allow i (k (schema.answer o (b₁.data, b₁.session i)).1) Q b') :
    s.goal allow i (.call o k) Q b := by
  refine System.wp_call_of_stable hP hb (fun b₁ _ _ => guard_of_ne ho b₁) ?_
  intro b₁ r b' hI hb₁ h _
  obtain ⟨rfl, hs', hd'⟩ := Schema.exec_spec h.2 ho rfl rfl
  exact hnext b₁ b' hI hb₁ h.1 hs' hd'

theorem goal_bind {p : Tx α} {f : α → Tx β} {Q : Except Exc β → Base ι → Prop} {b : Base ι}
    (h : s.goal allow i p (fun r b => match r with
      | .ok a => s.goal allow i (f a) Q b
      | .error e => Q (.error e) b) b) : s.goal allow i (p >>= f) Q b := by
  refine System.wp_bind p f Q (System.wp_mono p (fun r b hr => ?_) b h)
  cases r with
  | ok a => exact hr
  | error e => exact hr

theorem goal_mono {p : Tx α} {Q Q' : Except Exc α → Base ι → Prop} {b : Base ι}
    (h : s.goal allow i p Q b) (hQ : ∀ r b, Q r b → Q' r b) : s.goal allow i p Q' b :=
  System.wp_mono p hQ b h

/-- A program that only reads. -/
theorem goal_reads {P : Tables → Prop} (hP : s.Lasting P) {p : Tx α}
    (hp : p.Ensures isRead fun _ => True) {b : Base ι} (hb : b.session i = .closed ∧ P b.data) :
    s.goal allow i p (fun _ b => b.session i = .closed ∧ P b.data) b := by
  refine System.wp_mono p (fun r b hr => hr.1) b (System.wp_of_ensures (hP.stable (t := .closed))
    ?_ ?_ p b hb hp)
  · intro o b ho _ _
    refine guard_of_ne ?_ b
    rintro rfl
    exact ho
  · intro o b r b' ho _ hb h
    have hne : o ≠ .commit := by
      rintro rfl
      exact ho
    obtain ⟨-, hs', hd'⟩ := Schema.exec_spec h.2 hne hb.1 rfl
    rw [answer_isRead ho] at hs'
    exact ⟨hs', hd' ▸ hb.2⟩

/-- The end of a session keeps what lasts. -/
theorem goal_withSession {p : Tx α} {Q : Except Exc α → Tables → Prop} (hQ : ∀ r, s.Lasting (Q r))
    {b : Base ι} (h : s.goal allow i p (fun r b => Q r b.data) b) :
    s.goal allow i (withSession p) (fun r b => b.session i = .closed ∧ Q r b.data) b := by
  refine System.wp_resume p _ _ b (System.wp_mono p (fun r b₁ hr => ?_) b h)
  have hstable : (s.among allow i).Stable fun b => Q r b.data :=
    stable_of_change (P := fun _ d => Q r d) fun b j d _ _ hchange hb => hQ r b j d hchange hb
  refine goal_call hstable (fun h => by cases h) hr ?_
  intro b₂ b₃ _ hb₂ _ hs₃ hd₃
  exact ⟨hs₃, hd₃ ▸ hb₂⟩

/-- The rule for a commit. -/
theorem goal_commit {P : Base ι → Prop} (hP : (s.among allow i).Stable P) {k : Unit → Tx α}
    {Q : Except Exc α → Base ι → Prop} {b : Base ι} (hb : P b)
    (hcommits : ∀ b, P b → s.Commits i b)
    (hnext : ∀ b₁ b', P b₁ → b'.data = schema.view (b₁.session i) b₁.data →
      s.goal allow i (k ()) Q b') :
    s.goal allow i (.call .commit k) Q b := by
  refine System.wp_call_of_stable hP hb (fun b₁ _ hb₁ => hcommits b₁ hb₁) ?_
  intro b₁ r b' hI hb₁ h _
  exact hnext b₁ b' hb₁ (exec_commit h.2).1

/-- The rule for a flush: where it violates no constraint, none of its keys is
stored. -/
theorem goal_flush {P : Base ι → Prop} (hP : (s.among allow i).Stable P) {w : Write}
    {f : Unit → Tx α} {Q : Except Exc α → Base ι → Prop} {b : Base ι} (hb : P b)
    (hstored : ∀ b₁ b', s.Sound b₁ → P b₁ → b'.session i = Transaction.after (b₁.session i) w →
      b'.data = b₁.data → (∀ k ∈ claims w, k ∉ keys (schema.view (b₁.session i) b₁.data)) →
      s.goal allow i (f ()) Q b')
    (hfailed : ∀ b₁ b', P b₁ → b'.session i = b₁.session i → b'.data = b₁.data →
      Q (.error integrityError) b') :
    s.goal allow i (flush w >>= f) Q b := by
  refine goal_call hP (fun h => by cases h) hb ?_
  intro b₁ b' hI hb₁ _ hs' hd'
  rw [Schema.answer_flush] at hs' ⊢
  by_cases hconflict : schema.conflicts w (schema.view (b₁.session i) b₁.data)
  · rw [if_pos hconflict] at hs' ⊢
    exact hfailed b₁ b' hb₁ hs' hd'
  · rw [if_neg hconflict] at hs' ⊢
    refine hstored b₁ b' hI hb₁ hs' hd' fun k hk hmem => hconflict (.inr ⟨k, hk, hmem⟩)

end Rules

/-! ## §5. The transactions of a confirmation. -/

section Transactions

variable [DecidableEq ι] {allow : ι → Sql → Base ι → Prop} {i : ι}

/-- The request has passed the reservation: the ticket is reserved by its key,
and it may buy, unless the intent is there already. -/
structure Confirmed (s : Sale ι) (i : ι) (d : Tables) : Prop where
  actor : (s.request i).actor = s.ticket.actor
  reserved : s.ReservedBy (some (s.request i).idempotencyKey) d
  valid : s.valid i ∨ Taken (s.request i).idempotencyKey d

omit [DecidableEq ι] in
theorem Confirmed.lasting : s.Lasting (s.Confirmed i) := by
  intro b j d hchange h
  exact ⟨h.actor, hchange.reserved h.reserved, h.valid.imp_right hchange.taken⟩

omit [DecidableEq ι] in
theorem Lasting.imp {c : Prop} {P : Tables → Prop} (hP : s.Lasting P) :
    s.Lasting fun d => c → P d :=
  fun b j d hchange h hc => hP b j d hchange (h hc)

/-- A retry is allowed where the intent is there already, or where the request
may buy. -/
def AllowsRetries (s : Sale ι) (allow : ι → Sql → Base ι → Prop) : Prop :=
  ∀ i b, allow i (.selectForUpdate (.preview s.ticket.id)) b →
    (s.request i).actor = s.ticket.actor →
    s.ReservedBy (some (s.request i).idempotencyKey) b.data →
    s.valid i ∨ Taken (s.request i).idempotencyKey b.data

/-- `reserve_trade_preview` returns where the request has passed it. -/
theorem goal_reserveTradePreview (hretry : s.AllowsRetries allow) {fingerprint : String}
    (hvalid : (s.request i).reservedAt < s.ticket.expiresAt →
      fingerprint = s.ticket.requestFingerprint → s.valid i)
    {b : Base ι} (hb : b.session i = .closed) :
    s.goal allow i (reserveTradePreview s.ticket.id (s.request i).actor fingerprint
        (s.request i).idempotencyKey (s.request i).reservedAt)
      (fun r b => b.session i = .closed ∧ (r = .ok () → s.Confirmed i b.data)) b := by
  refine goal_withSession (Q := fun r d => r = .ok () → s.Confirmed i d)
    (fun r => Confirmed.lasting.imp) ?_
  have hclosed : (s.among allow i).Stable fun b => b.session i = .closed :=
    stable_of_change (P := fun t _ => t = .closed) fun _ _ _ _ _ _ h => h
  refine goal_call hclosed (fun h => by cases h) hb ?_
  intro b₁ b₂ hI hb₁ hallowed hs₂ hd₂
  rw [hb₁] at hs₂ ⊢
  -- From here on the row of the preview is locked.
  obtain ⟨key, row, hrow, hof, hkey⟩ := hI.ticket
  have hask : (schema.answer (.selectForUpdate (.preview s.ticket.id)) (b₁.data, .closed)).1
      = some row := hrow
  rw [hask]
  have hlocked : b₂.session i = ⟨[.preview s.ticket.id], [], []⟩ := by
    rw [hs₂]
    show (⟨[] ++ locks (.preview s.ticket.id) b₁.data, [], []⟩ : Transaction) = _
    rw [locks, hrow]
    rfl
  have hreserved : s.ReservedBy key b₂.data := by
    rw [hd₂]
    exact ⟨row, hrow, hof, hkey⟩
  obtain ⟨hactor, hexpires, hprint⟩ : row.actor = s.ticket.actor
      ∧ row.expiresAt = s.ticket.expiresAt
      ∧ row.requestFingerprint = s.ticket.requestFingerprint := by
    obtain ⟨_, _, rfl⟩ := hof
    exact ⟨rfl, rfl, rfl⟩
  show s.goal allow i (pure' (raiseIf _ _) >>= _) _ b₂
  by_cases hforeign : row.actor ≠ (s.request i).actor
  · rw [raiseIf_pos hforeign]
    exact fun h => by cases h
  rw [raiseIf_neg hforeign]
  rw [not_not, hactor] at hforeign
  show s.goal allow i (match row.confirmationIdempotencyKey with | some key => _ | none => _) _ b₂
  rw [hkey]
  -- A preview that has been confirmed answers to its own key alone.
  cases key with
  | some key =>
      show (raiseIf _ _ = .ok () → _)
      rw [raiseIf_eq_ok, not_not]
      rintro rfl
      refine ⟨hforeign.symm, hreserved, ?_⟩
      rw [hd₂]
      exact hretry i b₁ hallowed hforeign.symm (hd₂ ▸ hreserved)
  -- A free one is reserved after the checks of its age and its market.
  | none =>
      show s.goal allow i (pure' (raiseIf _ _) >>= _) _ b₂
      by_cases hlate : row.expiresAt ≤ (s.request i).reservedAt
      · rw [raiseIf_pos hlate]
        exact fun h => by cases h
      rw [raiseIf_neg hlate]
      show s.goal allow i (pure' (raiseIf _ _) >>= _) _ b₂
      by_cases hchanged : row.requestFingerprint ≠ fingerprint
      · rw [raiseIf_pos hchanged]
        exact fun h => by cases h
      rw [raiseIf_neg hchanged]
      rw [not_le, hexpires] at hlate
      rw [not_not, hprint] at hchanged
      have hmay := hvalid hlate hchanged.symm
      refine goal_flush (stable_locked (t := ⟨[.preview s.ticket.id], [], []⟩)
        (List.mem_singleton_self _)) ⟨hlocked, hreserved⟩ ?_ ?_
      · intro b₃ b₄ _ hb₃ hs₄ hd₄ _
        rw [hb₃.1] at hs₄
        refine goal_commit (stable_locked (t := Transaction.after ⟨[.preview s.ticket.id], [], []⟩
          (.confirmPreview s.ticket.id (s.request i).idempotencyKey (s.request i).reservedAt))
          (List.mem_singleton_self _)) ⟨hs₄, hd₄ ▸ hb₃.2⟩ ?_ ?_
        · intro b hb
          have hwrites : (b.session i).writes = [.confirmPreview s.ticket.id
              (s.request i).idempotencyKey (s.request i).reservedAt] := by
            rw [hb.1]
            rfl
          refine .reserves hwrites ?_ hb.2
          rw [hb.1]
          exact List.mem_singleton_self _
        · intro b₅ b₆ hb₅ hd₆ _
          refine ⟨hforeign.symm, ?_, .inl hmay⟩
          rw [hd₆, hb₅.1]
          exact hb₅.2.confirm _ _
      · intro _ b₄ _ _ _ h
        cases h

theorem withLegs_reads (row : Option TradeIntent) :
    (withLegs row).Ensures isRead fun _ => True := by
  cases row with
  | none => exact trivial
  | some row => exact ⟨trivial, fun _ => trivial⟩

/-- The lookup of a key only reads. -/
theorem intentByKey_reads (key : String) : (intentByKey key).Ensures isRead fun _ => True :=
  ⟨trivial, withLegs_reads⟩

/-- Recovering from a conflict only reads. -/
theorem recoverIntent_reads (key : String) (e : Exc) :
    (recoverIntent key e).Ensures isRead fun _ => True := by
  refine ⟨trivial, fun _ => Prog.Ensures.bind (intentByKey_reads key) (fun found _ => ?_)
    fun _ _ => trivial⟩
  cases found <;> exact trivial

/-- A session that only reads only reads. -/
theorem withSession_reads {α : Type} {p : Tx α} (hp : p.Ensures isRead fun _ => True) :
    (withSession p).Ensures isRead fun _ => True :=
  hp.resume fun _ _ => ⟨trivial, fun _ => trivial⟩

/-- Looking an intent up by its key only reads. -/
theorem tradeIntentByIdempotency_reads (key : String) :
    (tradeIntentByIdempotency key).Ensures isRead fun _ => True :=
  withSession_reads (p := select (.tradeIntentByIdempotency key) >>= withLegs)
    ⟨trivial, withLegs_reads⟩

/-- Rows are flushed under a key that is claimed and free. -/
theorem goal_createTradeIntent {p : Prepared} (hp : (s.request i).Prepares s.sha256 s.ticket p)
    {b : Base ι} (hb : b.session i = .closed ∧ s.Confirmed i b.data) :
    s.goal allow i (createTradeIntent p) (fun _ _ => True) b := by
  -- What only reads may run at any time.
  have hany : ∀ {q : Tx (Prepared × Bool)}, q.Ensures isRead (fun _ => True) → ∀ b : Base ι,
      s.goal allow i q (fun _ _ => True) b := by
    intro q hq b
    refine System.wp_mono q (fun _ _ _ => trivial) b (System.wp_of_ensures (P := fun _ => True)
      (fun _ _ _ _ _ => trivial) ?_ (fun _ _ _ _ _ _ _ _ => trivial) q b trivial hq)
    intro o b ho _ _
    refine guard_of_ne ?_ b
    rintro rfl
    exact ho
  refine goal_mono (goal_withSession (Q := fun _ _ => True) (fun _ _ _ _ _ _ => trivial) ?_)
    fun _ _ _ => trivial
  refine goal_bind (goal_mono (goal_reads Confirmed.lasting (intentByKey_reads _) hb) ?_)
  rintro (e | _ | existing) b₁ hb₁
  · trivial
  · refine System.wp_catching _ _ _ (goal_flush (Confirmed.lasting.stable (t := .closed)) hb₁ ?_ ?_)
    · intro b₂ b₃ _ hb₂ hs₃ hd₃ hfree
      rw [hb₂.1] at hs₃ hfree
      -- The flush went through, so no intent has the key of this request.
      have hnew : ¬Taken (s.request i).idempotencyKey b₃.data := by
        rintro ⟨t, ht, hkey⟩
        refine hfree (.intentKey p.intent.idempotencyKey) (by simp [claims, intentKeys])
          (mem_keys.mpr ⟨t, ?_, ?_⟩)
        · rw [hd₃] at ht
          exact ht
        · rw [hp.key, hkey]
      have hclaim : UniqueKey.intentKey (s.request i).idempotencyKey
          ∈ [] ++ claims (.intent p.intent) := by
        rw [← hp.key]
        simp [claims, intentKeys]
      -- From here on the key is claimed, and others cannot take it.
      refine goal_flush (stable_claimed (t := Transaction.after .closed (.intent p.intent))
        hclaim Confirmed.lasting) ⟨hs₃, hnew, hd₃ ▸ hb₂.2⟩ ?_ ?_
      · intro b₄ b₅ _ hb₄ hs₅ hd₅ _
        rw [hb₄.1] at hs₅
        refine goal_commit (stable_claimed (t := Transaction.after
          (Transaction.after .closed (.intent p.intent)) (.legs p.legs))
          (List.mem_append_left _ hclaim) Confirmed.lasting) ⟨hs₅, hd₅ ▸ hb₄.2⟩ ?_ ?_
        · rintro b ⟨hs, hnew, hconfirmed⟩
          have hmakes : s.Makes i p :=
            ⟨hconfirmed.valid.resolve_right hnew, hconfirmed.actor, hp⟩
          refine .creates ?_ ?_ hnew hmakes hconfirmed.reserved
          · rw [hs]
            rfl
          · rw [hs]
            exact List.mem_append_left _ hclaim
        · intro _ _ _ _
          trivial
      · intro _ b₅ _ _ _
        exact hany (recoverIntent_reads _ _) b₅
    · intro _ b₃ _ _ _
      exact hany (recoverIntent_reads _ _) b₃
  · trivial

/-- A planner whose request has passed the reservation. -/
theorem goal_planLiveOpen {o : Opportunity} {pair : InstrumentPair} {spotLimit perpLimit : Limit}
    (hmarket : (s.request i).market s.ticket = .ok (o, pair, spotLimit, perpLimit)) {b : Base ι}
    (hb : b.session i = .closed ∧ s.Confirmed i b.data) :
    s.goal allow i (planLiveOpen s.sha256 ((s.request i).terms s.ticket o pair
        (s.request i).plannedSettings) (s.request i).idempotencyKey (some spotLimit)
        (some perpLimit) (s.request i).draw) (fun _ _ => True) b := by
  refine goal_bind (goal_mono (goal_reads Confirmed.lasting
    (tradeIntentByIdempotency_reads _) hb) ?_)
  rintro (e | _ | existing) b₁ hb₁
  · trivial
  · cases hprepare : prepareLiveOpen s.sha256 ((s.request i).terms s.ticket o pair
        (s.request i).plannedSettings) (s.request i).idempotencyKey (some spotLimit)
        (some perpLimit) (s.request i).draw with
    | error e => trivial
    | ok p =>
        have hp : (s.request i).Prepares s.sha256 s.ticket p :=
          ⟨o, pair, spotLimit, perpLimit, hmarket, hprepare⟩
        show s.goal allow i (createAndCompare createTradeIntent p) _ b₁
        refine goal_bind (goal_mono (goal_createTradeIntent hp hb₁) ?_)
        rintro (e | ⟨stored, created⟩) b₂ _
        · trivial
        · show s.goal allow i (if _ then _ else _) _ b₂
          split <;> trivial
  · show s.goal allow i (if _ then _ else _) _ b₁
    split <;> trivial

/-- The read of the ticket. -/
theorem goal_readTicket {b : Base ι} (hb : b.session i = .closed) :
    s.goal allow i (withSession (select (.preview s.ticket.id)))
      (fun r b => b.session i = .closed ∧ ∃ row, r = .ok (some row) ∧ row.IsOf s.ticket) b := by
  refine goal_withSession
    (Q := fun r _ => ∃ row, r = .ok (some row) ∧ TradePreview.IsOf row s.ticket)
    (fun _ _ _ _ _ h => h) ?_
  have hclosed : (s.among allow i).Stable fun b => b.session i = .closed :=
    stable_of_change (P := fun t _ => t = .closed) fun _ _ _ _ _ _ h => h
  refine goal_call hclosed (fun h => by cases h) hb ?_
  intro b₁ b₂ hI hb₁ _ _ _
  obtain ⟨-, row, hrow, hof, -⟩ := hI.ticket
  rw [hb₁]
  exact ⟨row, congrArg Except.ok hrow, hof⟩

/-- A confirmation keeps to the guards. -/
theorem goal_confirmLiveOpen (hretry : s.AllowsRetries allow)
    (hrequest : (s.request i).previewId = s.ticket.id)
    (hvalid : (s.request i).Agrees s.sha256 s.ticket → s.valid i) {b : Base ι}
    (hb : b.session i = .closed) :
    s.goal allow i (confirmLiveOpen s.sha256 (s.request i)) (fun _ _ => True) b := by
  have hnothing : s.Lasting fun _ => True := fun _ _ _ _ _ => trivial
  unfold confirmLiveOpen
  refine goal_bind (goal_mono (goal_reads hnothing
    (withSession_reads (p := select .control) ⟨trivial, fun _ => trivial⟩) ⟨hb, trivial⟩) ?_)
  rintro (e | control) b₁ ⟨hb₁, -⟩
  · trivial
  refine goal_bind ?_
  cases raiseIf (control.map (·.state) ≠ some .ready)
      (httpException 409 "execution is not ready for live confirmation") with
  | error e => trivial
  | ok _ =>
      rw [hrequest]
      -- The row that is read is the ticket, reserved or not.
      refine goal_bind (goal_mono (goal_readTicket hb₁) ?_)
      rintro r b₂ ⟨hb₂, row, rfl, hof⟩
      show s.goal allow i (pure' ((s.request i).market row) >>= _) _ b₂
      rw [hof.market]
      cases hmarket : (s.request i).market s.ticket with
      | error e => trivial
      | ok read =>
          obtain ⟨o, pair, spotLimit, perpLimit⟩ := read
          show s.goal allow i ((confirmOn s.sha256 (s.request i) row o pair spotLimit
            perpLimit).mapError conflict) _ b₂
          refine System.wp_resume _ _ _ b₂ ?_
          unfold confirmOn
          rw [hof.terms, hof.terms, show row.id = s.ticket.id by obtain ⟨_, _, rfl⟩ := hof; rfl]
          cases hpreview : previewLiveOpen s.sha256
              ((s.request i).terms s.ticket o pair (s.request i).settings)
              (s.request i).previewedAt with
          | error e => trivial
          | ok current =>
              have hspec := previewLiveOpen_spec s.sha256 hpreview
              show s.goal allow i (reserveTradePreview s.ticket.id (s.request i).actor
                current.requestFingerprint (s.request i).idempotencyKey (s.request i).reservedAt
                  >>= _) _ b₂
              -- The preview made now must agree with the ticket, or the reservation raises.
              refine goal_bind (goal_mono (goal_reserveTradePreview hretry ?_ hb₂) ?_)
              · intro htime hprint
                refine hvalid ⟨htime, ?_⟩
                rw [hmarket]
                exact congrArg some (hspec.fingerprint.symm.trans hprint)
              · rintro (e | _) b₃ ⟨hb₃, hconfirmed⟩
                · trivial
                · exact goal_planLiveOpen hmarket ⟨hb₃, hconfirmed rfl⟩

/-- The ticket is stored and free, and the requests are for it. -/
structure Opens (s : Sale ι) : Prop where
  stored : ask (.preview s.ticket.id) s.before = some s.ticket
  free : s.ticket.confirmationIdempotencyKey = none
  requests : ∀ i, (s.request i).previewId = s.ticket.id

/-- The confirmations, each as its request has it. -/
abbrev main (s : Sale ι) (i : ι) : Tx (Prepared × Bool) := confirmLiveOpen s.sha256 (s.request i)

/-- Every reachable state is sound. -/
theorem sound (hopens : s.Opens) (hretry : s.AllowsRetries allow)
    (hvalid : ∀ i, (s.request i).Agrees s.sha256 s.ticket → s.valid i) {c : Run ι Prepared}
    (hc : Reaches s.main s.before allow c) : s.Sound c.world := by
  have hpreserves : Requests.Preserves (schema.requests ι) allow s.Sound s.Guard :=
    fun _ _ _ _ _ _ h hguard hs => hs.step h hguard
  refine (Requests.Reach.guarded (Q := fun _ _ _ => True) hpreserves ?_ ?_ ?_ hc).1
  · intro i r a b b' _ _
    trivial
  · exact ⟨.closed, ⟨none, s.ticket, hopens.stored, ⟨s.ticket.confirmationIdempotencyKey,
      s.ticket.confirmedAt, rfl⟩, hopens.free⟩, .inl ⟨rfl, rfl⟩⟩
  · intro i
    exact goal_confirmLiveOpen hretry (hopens.requests i) (hvalid i) rfl

end Transactions

end Sale

/-! ## §6. Tickets. -/

section Sold

variable {sha256} [DecidableEq ι] {ticket : TradePreview} {d₀ : Tables}
  {request : ι → ConfirmRequest} {c : Run ι Prepared}

/-- The tables are the first ones as far as trades go, or hold the rows of one
request besides, with this property. -/
def BuysOnce (d₀ : Tables) (P : ι → Prepared → Prop) (d : Tables) : Prop :=
  (d.intents = d₀.intents ∧ d.legs = d₀.legs)
    ∨ ∃ i p, P i p ∧ d.intents = d₀.intents ++ [p.intent] ∧ d.legs = d₀.legs ++ p.legs

/-- In any order of steps a ticket buys one intent at most, for its own actor and
within its own limits. -/
theorem confirmations_buy_once (hstored : ask (.preview ticket.id) d₀ = some ticket)
    (hfree : ticket.confirmationIdempotencyKey = none)
    (hrequests : ∀ i, (request i).previewId = ticket.id)
    (hc : Reaches (fun i => confirmLiveOpen sha256 (request i)) d₀ Requests.anyOrder c) :
    BuysOnce d₀ (fun i p => Bought ticket (request i) p) c.world.data := by
  have hs := @Sale.sound ι ⟨sha256, ticket, d₀, request, fun _ => True⟩ _ Requests.anyOrder
    ⟨hstored, hfree, hrequests⟩ (fun _ _ _ _ _ => .inl trivial) (fun _ _ => trivial) c hc
  rcases hs.intents with hnone | ⟨i, p, hmakes, hintents, hlegs, -⟩
  · exact .inl hnone
  · exact .inr ⟨i, p, hmakes.prepares.bought hmakes.actor, hintents, hlegs⟩

/-- The statement locks the ticket. -/
def locksTicket (ticketId : Nat) : Sql → Bool
  | .selectForUpdate (.preview id) => id = ticketId
  | _ => false

/-- The steps of confirmations under which a ticket protects: a request of its
actor that locks the ticket after its own key has reserved it finds the intent
stored, or comes in time and with the settings of the ticket. -/
def retryCondition (sha256 : Digested → String) (ticket : TradePreview)
    (request : ι → ConfirmRequest) (i : ι) (o : Sql) (b : Base ι) : Prop :=
  locksTicket ticket.id o → (request i).actor = ticket.actor →
    (∃ row ∈ ask (.preview ticket.id) b.data,
      row.confirmationIdempotencyKey = some (request i).idempotencyKey) →
    (request i).Agrees sha256 ticket
      ∨ ∃ t ∈ b.data.intents, t.idempotencyKey = (request i).idempotencyKey

omit [DecidableEq ι] in
instance (i : ι) (o : Sql) (b : Base ι) : Decidable (retryCondition sha256 ticket request i o b) :=
  inferInstanceAs (Decidable (_ → _ → _ → _ ∨ _))

/-- Where retries are in time and unchanged, and no request is overtaken between
its reservation and its planning, a ticket buys one intent at most, within its
protection. -/
theorem confirmations_protected (hstored : ask (.preview ticket.id) d₀ = some ticket)
    (hfree : ticket.confirmationIdempotencyKey = none)
    (hrequests : ∀ i, (request i).previewId = ticket.id)
    (hprompt : ∀ i, (request i).actor = ticket.actor → (request i).Prompt ticket)
    (hc : Reaches (fun i => confirmLiveOpen sha256 (request i)) d₀
      (retryCondition sha256 ticket request) c) :
    BuysOnce d₀ (fun i p => Protected ticket (request i) p) c.world.data := by
  have hs := @Sale.sound ι
    ⟨sha256, ticket, d₀, request, fun i => (request i).Agrees sha256 ticket⟩ _
    (retryCondition sha256 ticket request) ⟨hstored, hfree, hrequests⟩ ?_ (fun _ h => h) c hc
  · rcases hs.intents with hnone | ⟨i, p, hmakes, hintents, hlegs, -⟩
    · exact .inl hnone
    · exact .inr ⟨i, p, hmakes.prepares.protected hmakes.actor (hprompt i hmakes.actor)
        hmakes.valid, hintents, hlegs⟩
  · rintro i b hallow hactor ⟨row, hrow, -, hkey⟩
    exact hallow (decide_eq_true rfl) hactor ⟨row, hrow, hkey⟩

end Sold

namespace Sample

/-- The digest of these settings is when their fees were checked. -/
def digest : Digested → String
  | .openConfig scanner .. => scanner.feeCheckedAt
  | .liveOpen _ _ _ _ _ _ _ configVersion _ => configVersion
  | _ => ""

/-- Issued at an ask and a bid of 100, for one minute. -/
def ticket : TradePreview where
  id := 5
  actor := "admin"
  requestFingerprint := ""
  action := .opening
  pairedPositionId := none
  exchange := .binance
  environment := .live
  baseAsset := "BTC"
  requestedNotional := 500
  leverage := 1
  maximumSlippage := 1 / 100
  marketObservedAt := 0
  spotLimitPrice := some ⟨101, by decide⟩
  perpLimitPrice := some ⟨99, by decide⟩
  confirmationIdempotencyKey := none
  createdAt := 0
  expiresAt := manualPreviewTtl
  confirmedAt := none
  position_action := by decide
  notional_positive := by decide
  leverage_range := by decide
  slippage_range := MultiLeg.Sample.anchor.slippage_check

def ticketTables : Tables :=
  { tables with
    control := some ⟨.ready, ""⟩
    previews := [ticket] }

/-- A confirmation by the ticket's actor at this second, at this ask, with these
settings. -/
def confirm (second : Nat) (ask : ℚ) (feeCheckedAt : String) (d : Draw) : ConfirmRequest where
  previewId := 5
  actor := "admin"
  idempotencyKey := "again"
  credentialConfigured := some fun _ _ => true
  executableOpportunity := fun _ _ =>
    .ok (some { market with
      spotAsk := ask
      observedAt := seconds second })
  instrumentPair := fun _ _ => some pair
  spotBuyFeeInBase := fun _ _ => false
  settings := { settings with feeCheckedAt }
  previewedAt := seconds second
  reservedAt := seconds second
  plannedSettings := { settings with feeCheckedAt }
  draw := { d with
    observedNow := seconds second
    nowValue := seconds second }

/-- After ten seconds the market is out of reach; after ten minutes it is back,
and the fees have been checked again. -/
def lateRetry (i : Bool) : ConfirmRequest :=
  if i then confirm 600 100 "again" (draw i) else confirm 10 102 "" (draw i)

/-- The retry comes after twenty seconds, with nothing changed. -/
def timelyRetry (i : Bool) : ConfirmRequest :=
  if i then confirm 20 100 "" (draw i) else confirm 10 102 "" (draw i)

/-- The intents of a run, by the time and the fingerprint of their creation. -/
def boughtAt (c : Run Bool Prepared) : List (Int × String) :=
  c.world.data.intents.map fun t => (t.createdAt, t.requestFingerprint)

end Sample

/-- The retry of a confirmation that has reserved its ticket in time, and failed
on the market, buys after the ticket has expired, with other settings. -/
theorem late_retry :
    ∃ c, Reaches (fun i => confirmLiveOpen Sample.digest (Sample.lateRetry i)) Sample.ticketTables
        Requests.anyOrder c
      ∧ Sample.boughtAt c = [(0, ""), (seconds 600, "again")]
      ∧ ¬BuysOnce Sample.ticketTables
        (fun i p => Protected Sample.ticket (Sample.lateRetry i) p) c.world.data := by
  have hrun : ((lastOf (fun i => confirmLiveOpen Sample.digest (Sample.lateRetry i))
      Sample.ticketTables Requests.anyOrder (Sample.inTurn 10 13)).map Sample.boughtAt)
        = some [(0, ""), (seconds 600, "again")] := by
    decide +kernel
  obtain ⟨c, hc, hbought⟩ := Option.map_eq_some_iff.mp hrun
  refine ⟨c, reaches_lastOf hc, hbought, ?_⟩
  unfold Sample.boughtAt at hbought
  rintro (⟨hintents, -⟩ | ⟨i, p, hprotected, hintents, -⟩)
  · rw [hintents] at hbought
    exact absurd hbought (by decide)
  · rw [hintents, List.map_append] at hbought
    have hlast : (p.intent.createdAt, p.intent.requestFingerprint) = (seconds 600, "again") :=
      List.head_eq_of_cons_eq (List.tail_eq_of_cons_eq hbought)
    have htime := hprotected.inTime
    rw [(Prod.mk.inj hlast).1] at htime
    exact absurd htime (by decide)

theorem timely_retry :
    ∃ c, lastOf (fun i => confirmLiveOpen Sample.digest (Sample.timelyRetry i))
        Sample.ticketTables (retryCondition Sample.digest Sample.ticket Sample.timelyRetry)
        (Sample.inTurn 10 13) = some c
      ∧ BuysOnce Sample.ticketTables
        (fun i p => Protected Sample.ticket (Sample.timelyRetry i) p) c.world.data := by
  refine exists_lastOf (by decide +kernel) fun c hc => confirmations_protected rfl rfl ?_ ?_ hc
  · intro i
    cases i <;> rfl
  · intro i _
    cases i <;> exact ⟨rfl, by decide⟩

end BasisHawk.Planning
