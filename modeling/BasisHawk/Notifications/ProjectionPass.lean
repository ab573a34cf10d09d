/-
  BasisHawk.Notifications.ProjectionPass
  ──────────────────────────────────────
  `NotificationProjectionService.run_once` (`notifications.py`): what one pass
  over the execution control, the accounts, the trades and the day makes of what
  it sees.

  A pass is a sequence of projections of distinct sources.  Other transactions
  fall between them, and it may break off anywhere.

  Main results:
    • `requests_sources`, `requests_valid` — the sources of a pass are distinct,
      and no check refuses one of its requests,
    • `pass_watches` — what a pass, or a part of one, leaves.
-/
import BasisHawk.Notifications.Projection
import BasisHawk.Paired.Rows
import BasisHawk.Reconciliation.Operations

namespace BasisHawk.Notifications

open Domain Lib Paired Reconciliation

/-! ## §1. What a pass sees. -/

/-- A state of `execution_control`, as the row spells it. -/
def controlName : ControlState → String
  | .reconciling => "reconciling"
  | .blocked => "blocked"
  | .ready => "ready"
  | .paused => "paused"

def accountStatusName : AccountStatus → String
  | .ready => "ready"
  | .blocked => "blocked"
  | .error => "error"

def intentStatusName : IntentStatus → String
  | .planned => "planned"
  | .executing => "executing"
  | .hedged => "hedged"
  | .compensating => "compensating"
  | .manualReview => "manual_review"
  | .closed => "closed"
  | .failed => "failed"

def actionName : TradeAction → String
  | .opening => "open"
  | .closing => "close"

/-- An account of `reconciliation_states`. -/
structure WatchedAccount where
  exchange : Exchange
  environment : ExchangeEnvironment
  status : AccountStatus
  reason : String

/-- A trade of `notification_trade_intents`; its id is a UUID. -/
structure WatchedIntent where
  id : String
  exchange : Exchange
  environment : ExchangeEnvironment
  baseAsset : String
  action : TradeAction
  status : IntentStatus
  failureCode : Option FailureCode
  id_length : id.length = 36

/-- `DailyNotificationSummary`, with the text of its first day and of its sum. -/
structure DailyNotificationSummary where
  periodStart : String
  realizedNetPnlUsdt : String
  realizedEventCount : Nat
  openedTradeCount : Nat
  closedTradeCount : Nat
  failedTradeCount : Nat
  activePositionCount : Nat
  unhealthyAccountCount : Nat
  start_length : periodStart.length = 10

/-- What the reads of a pass return.  The keys of the tables are distinct. -/
structure Observed where
  control : Option (ControlState × String)
  accounts : List WatchedAccount
  intents : List WatchedIntent
  summary : DailyNotificationSummary
  accounts_key : (accounts.map fun a => (a.exchange, a.environment)).Nodup
  intents_key : (intents.map (·.id)).Nodup

/-- The digest of a list of texts (`_fingerprint`): 64 hexadecimal digits. -/
structure Digest where
  of : List String → String
  length : ∀ values, (of values).length = 64
  digits : ∀ values, ∀ c ∈ (of values).toList, c ∈ hexDigits

/-! ## §2. What a pass asks for. -/

def controlRequest (digest : Digest) (emit : Bool) (state : ControlState) (reason : String) :
    ProjectionRequest where
  sourceKey := "execution"
  fingerprint := digest.of [controlName state, reason]
  notify := emit && (state = .paused || state = .blocked)
  eventType := "execution." ++ controlName state
  severity := .critical
  channels := [.telegram, .email]
  subject := "Basis Hawk execution safety state"
  body := "Execution is " ++ controlName state
    ++ ". Review system health and reconciliation before resuming."

def accountSource (a : WatchedAccount) : String :=
  "account:" ++ a.exchange.name ++ ":" ++ a.environment.name

def accountRequest (digest : Digest) (emit : Bool) (a : WatchedAccount) : ProjectionRequest where
  sourceKey := accountSource a
  fingerprint := digest.of [accountStatusName a.status, a.reason]
  notify := emit && a.status ≠ .ready
  eventType := "account." ++ accountStatusName a.status
  severity := .critical
  channels := [.telegram, .email]
  subject := "Basis Hawk account " ++ accountStatusName a.status ++ ": " ++ a.exchange.name ++ " "
    ++ a.environment.name
  body := a.exchange.name ++ " " ++ a.environment.name ++ " account reconciliation is "
    ++ accountStatusName a.status ++ ". Review the account health page before trading."

/-- What a trade is told as. -/
structure TradeNotification where
  eventType : String
  severity : Severity
  channels : List Channel
  subject : String
  body : String

/-- `_trade_notification`. -/
def tradeNotification (i : WatchedIntent) : Option TradeNotification :=
  let status := intentStatusName i.status
  let label := i.exchange.name ++ " " ++ i.environment.name ++ " " ++ i.baseAsset ++ " "
    ++ actionName i.action
  match i.status with
  | .hedged | .closed =>
      some ⟨"trade." ++ status, .info, [.telegram], "Basis Hawk trade " ++ status,
        label ++ " completed with status " ++ status ++ "."⟩
  | .compensating =>
      some ⟨"trade.imbalance", .critical, [.telegram, .email], "Basis Hawk fill imbalance",
        label ++ " has imbalanced fills. A protection order is pending "
          ++ "and execution remains paused."⟩
  | .failed =>
      if i.failureCode = some .marketUnexecutable then none
      else some ⟨"trade." ++ status, .critical, [.telegram, .email], "Basis Hawk trade " ++ status,
        label ++ " ended with status " ++ status ++ ". "
          ++ "Review orders, fills, and account exposure."⟩
  | .manualReview =>
      some ⟨"trade." ++ status, .critical, [.telegram, .email], "Basis Hawk trade " ++ status,
        label ++ " ended with status " ++ status ++ ". "
          ++ "Review orders, fills, and account exposure."⟩
  | .planned | .executing => none

/-- What stands in for a trade that is not told. -/
def plainTrade (i : WatchedIntent) : TradeNotification where
  eventType := "trade." ++ intentStatusName i.status
  severity := .info
  channels := [.telegram]
  subject := "Basis Hawk trade update"
  body := "Trade state updated."

def tradeRequest (digest : Digest) (emit : Bool) (i : WatchedIntent) : ProjectionRequest :=
  let n := (tradeNotification i).getD (plainTrade i)
  { sourceKey := "trade:" ++ i.id
    fingerprint := digest.of [intentStatusName i.status]
    notify := emit && (tradeNotification i).isSome
    eventType := n.eventType
    severity := n.severity
    channels := n.channels
    subject := n.subject
    body := n.body }

def summaryRequest (digest : Digest) (emit : Bool) (s : DailyNotificationSummary) :
    ProjectionRequest where
  sourceKey := "daily-summary"
  fingerprint := digest.of [s.periodStart]
  notify := emit
  eventType := "system.daily_summary"
  severity := .info
  channels := [.telegram, .email]
  subject := "Basis Hawk daily summary " ++ s.periodStart
  body := "UTC period: " ++ s.periodStart ++ "\nRealized PnL: " ++ s.realizedNetPnlUsdt ++ " USDT ("
    ++ toString s.realizedEventCount ++ " realizations)\nOpened: " ++ toString s.openedTradeCount
    ++ "; Closed: " ++ toString s.closedTradeCount ++ "; Failed/review: "
    ++ toString s.failedTradeCount ++ "\nActive positions: " ++ toString s.activePositionCount
    ++ "; Unhealthy accounts: " ++ toString s.unhealthyAccountCount

/-- The projections of `run_once`, in order. -/
def requests (digest : Digest) (emit : Bool) (o : Observed) : List ProjectionRequest :=
  (o.control.toList.map fun c => controlRequest digest emit c.1 c.2)
    ++ o.accounts.map (accountRequest digest emit)
    ++ o.intents.map (tradeRequest digest emit)
    ++ [summaryRequest digest emit o.summary]

/-! ## §3. The sources of a pass are distinct. -/

/-- A text that goes on after its first characters. -/
theorem append_left_inj {a b c : String} (h : a ++ b = a ++ c) : b = c := by
  have hlist := congrArg String.toList h
  rw [String.toList_append, String.toList_append] at hlist
  exact String.toList_injective (List.append_cancel_left hlist)

/-- Exchanges have distinct names, so two accounts never share a source key. -/
theorem exchange_name_inj {e e' : Exchange} (h : e.name = e'.name) : e = e' := by
  cases e <;> cases e' <;> first | rfl | exact absurd h (by decide)

/-- So do environments. -/
theorem environment_name_inj {v v' : ExchangeEnvironment} (h : v.name = v'.name) : v = v' := by
  cases v <;> cases v' <;> first | rfl | exact absurd h (by decide)

/-- The source of an account names its key. -/
theorem accountSource_inj {a b : WatchedAccount} (h : accountSource a = accountSource b) :
    (a.exchange, a.environment) = (b.exchange, b.environment) := by
  have hcolon : ∀ v : ExchangeEnvironment, ':' ∉ v.name.toList := by
    intro v
    cases v <;> decide
  have hlist : ("account:" ++ a.exchange.name ++ ":" ++ a.environment.name).toList
      = ("account:" ++ b.exchange.name ++ ":" ++ b.environment.name).toList := congrArg _ h
  have hcut : ("account:" ++ a.exchange.name).toList ++ ':' :: a.environment.name.toList
      = ("account:" ++ b.exchange.name).toList ++ ':' :: b.environment.name.toList := by
    simpa [String.toList_append] using hlist
  obtain ⟨hexchange, henvironment⟩ := split_last (hcolon _) (hcolon _) hcut
  have hname := append_left_inj (String.toList_injective hexchange)
  exact Prod.ext (exchange_name_inj hname) (environment_name_inj (String.toList_injective henvironment))

/-- The first character tells the kinds of sources apart. -/
theorem source_heads (digest : Digest) (emit : Bool) (o : Observed) :
    (∀ r ∈ o.control.toList.map fun c => controlRequest digest emit c.1 c.2,
        r.sourceKey.toList.head? = some 'e')
      ∧ (∀ r ∈ o.accounts.map (accountRequest digest emit), r.sourceKey.toList.head? = some 'a')
      ∧ (∀ r ∈ o.intents.map (tradeRequest digest emit), r.sourceKey.toList.head? = some 't')
      ∧ (summaryRequest digest emit o.summary).sourceKey.toList.head? = some 'd' := by
  refine ⟨fun r hr => ?_, fun r hr => ?_, fun r hr => ?_, ?_⟩
  · obtain ⟨c, -, rfl⟩ := List.mem_map.mp hr
    show "execution".toList.head? = _
    rfl
  · obtain ⟨a, -, rfl⟩ := List.mem_map.mp hr
    show ("account:" ++ a.exchange.name ++ ":" ++ a.environment.name).toList.head? = _
    simp only [String.toList_append]
    rfl
  · obtain ⟨i, -, rfl⟩ := List.mem_map.mp hr
    show ("trade:" ++ i.id).toList.head? = _
    simp only [String.toList_append]
    rfl
  · show "daily-summary".toList.head? = _
    rfl

/-- No source is projected twice in a pass. -/
theorem requests_sources (digest : Digest) (emit : Bool) (o : Observed) :
    ((requests digest emit o).map (·.sourceKey)).Nodup := by
  obtain ⟨hcontrol, haccounts, htrades, hsummary⟩ := source_heads digest emit o
  -- Requests of two kinds differ in the first character of their sources.
  have hkinds : ∀ {xs ys : List ProjectionRequest} {P Q : Option Char → Prop},
      (∀ r ∈ xs, P r.sourceKey.toList.head?) → (∀ r ∈ ys, Q r.sourceKey.toList.head?) →
      (∀ c, P c → ¬Q c) → ∀ a ∈ xs.map (·.sourceKey), ∀ b ∈ ys.map (·.sourceKey), a ≠ b := by
    intro xs ys P Q hxs hys hdisjoint a ha b hb heq
    obtain ⟨x, hx, rfl⟩ := List.mem_map.mp ha
    obtain ⟨y, hy, rfl⟩ := List.mem_map.mp hb
    have heq : x.sourceKey = y.sourceKey := heq
    exact hdisjoint _ (hxs x hx) (heq ▸ hys y hy)
  unfold requests
  simp only [List.map_append, List.nodup_append]
  refine ⟨⟨⟨?_, ?_, ?_⟩, ?_, ?_⟩, List.nodup_singleton _, ?_⟩
  · cases o.control with
    | none => exact List.nodup_nil
    | some c => exact List.nodup_singleton _
  · -- Within the accounts the source determines the key, and so it does within the intents.
    rw [List.map_map]
    refine (List.nodup_map_iff_inj_on (List.Nodup.of_map _ o.accounts_key)).mpr fun a ha b hb heq => ?_
    exact List.inj_on_of_nodup_map o.accounts_key ha hb (accountSource_inj heq)
  · exact hkinds (P := (· = some 'e')) (Q := (· = some 'a')) hcontrol haccounts
      (by rintro _ rfl; decide)
  · rw [List.map_map]
    refine (List.nodup_map_iff_inj_on (List.Nodup.of_map _ o.intents_key)).mpr fun a ha b hb heq => ?_
    exact List.inj_on_of_nodup_map o.intents_key ha hb (append_left_inj heq)
  · rw [← List.map_append]
    refine hkinds (P := fun c => c = some 'e' ∨ c = some 'a') (Q := (· = some 't')) (fun r hr => ?_)
      htrades (by rintro _ (rfl | rfl) <;> decide)
    exact (List.mem_append.mp hr).imp (hcontrol r) (haccounts r)
  · rw [← List.map_append, ← List.map_append]
    refine hkinds (P := fun c => c = some 'e' ∨ c = some 'a' ∨ c = some 't') (Q := (· = some 'd'))
      (fun r hr => ?_) (fun r hr => ?_) (by rintro _ (rfl | rfl | rfl) <;> decide)
    · rcases List.mem_append.mp hr with hr | hr
      · exact (List.mem_append.mp hr).imp (hcontrol r) fun h => .inl (haccounts r h)
      · exact .inr (.inr (htrades r hr))
    · rw [List.mem_singleton.mp hr]
      exact hsummary

/-! ## §4. No request is refused. -/

theorem append_ne_empty {a : String} (h : a ≠ "") (b : String) : a ++ b ≠ "" := by
  intro heq
  have hlist := congrArg String.toList heq
  rw [String.toList_append] at hlist
  exact h (String.toList_injective (List.append_eq_nil_iff.mp hlist).1)

/-- The longest name of an exchange, for the bound on the source key. -/
theorem exchange_name_length (e : Exchange) : e.name.length ≤ 7 := by
  cases e <;> decide

theorem environment_name_length (v : ExchangeEnvironment) : v.name.length ≤ 7 := by
  cases v <;> decide

theorem accountStatusName_length (s : AccountStatus) : (accountStatusName s).length ≤ 7 := by
  cases s <;> decide

/-- The longest name of an intent's state, for the bound on the event type. -/
theorem intentStatusName_length (s : IntentStatus) : (intentStatusName s).length ≤ 13 := by
  cases s <;> decide

/-- The longest name of a control state. -/
theorem controlName_length (s : ControlState) : (controlName s).length ≤ 11 := by
  cases s <;> decide

/-- A digest has the 64 hexadecimal digits that the storage checks for. -/
theorem Digest.checked (digest : Digest) (values : List String) :
    (digest.of values).length = 64 ∧ ∀ c ∈ (digest.of values).toList, c ∈ hexDigits :=
  ⟨digest.length values, digest.digits values⟩

/-- The request about the control state passes the checks of the storage: keys,
texts and channels are within their bounds. -/
theorem controlRequest_valid (digest : Digest) (emit : Bool) (state : ControlState) (reason : String) :
    (controlRequest digest emit state reason).Valid := by
  have hsource : "execution" ≠ "" ∧ "execution".length ≤ 150 := by decide
  have hsubject : "Basis Hawk execution safety state" ≠ ""
      ∧ "Basis Hawk execution safety state".length ≤ 200 := by decide
  refine ⟨⟨hsource, digest.checked _⟩, fun _ => ⟨List.cons_ne_nil _ _, ⟨?_, ?_⟩, hsubject, ?_⟩⟩
  · exact append_ne_empty (by decide) _
  · show ("execution." ++ controlName state).length ≤ 100
    have hname := controlName_length state
    rw [String.length_append, show "execution.".length = 10 from rfl]
    omega
  · exact append_ne_empty (append_ne_empty (by decide) _) _

/-- So does the request about an account. -/
theorem accountRequest_valid (digest : Digest) (emit : Bool) (a : WatchedAccount) :
    (accountRequest digest emit a).Valid := by
  have hexchange := exchange_name_length a.exchange
  have henvironment := environment_name_length a.environment
  have hstatus := accountStatusName_length a.status
  refine ⟨⟨⟨?_, ?_⟩, digest.checked _⟩, fun _ => ⟨List.cons_ne_nil _ _, ⟨?_, ?_⟩, ⟨?_, ?_⟩, ?_⟩⟩
  · exact append_ne_empty (append_ne_empty (append_ne_empty (by decide) _) _) _
  · show ("account:" ++ a.exchange.name ++ ":" ++ a.environment.name).length ≤ 150
    simp only [String.length_append, show "account:".length = 8 from rfl, show ":".length = 1 from rfl]
    omega
  · exact append_ne_empty (by decide) _
  · show ("account." ++ accountStatusName a.status).length ≤ 100
    rw [String.length_append, show "account.".length = 8 from rfl]
    omega
  · exact append_ne_empty (append_ne_empty (append_ne_empty (append_ne_empty (append_ne_empty
      (by decide) _) _) _) _) _
  · show ("Basis Hawk account " ++ accountStatusName a.status ++ ": " ++ a.exchange.name ++ " "
      ++ a.environment.name).length ≤ 200
    simp only [String.length_append, show "Basis Hawk account ".length = 19 from rfl,
      show ": ".length = 2 from rfl, show " ".length = 1 from rfl]
    omega
  · refine append_ne_empty (append_ne_empty (append_ne_empty (append_ne_empty (append_ne_empty
      ?_ _) _) _) _) _
    cases a.exchange <;> decide

/-- The texts of a trade are within their bounds. -/
def TradeNotification.Fits (n : TradeNotification) : Prop :=
  n.channels ≠ [] ∧ (n.eventType ≠ "" ∧ n.eventType.length ≤ 100)
    ∧ (n.subject ≠ "" ∧ n.subject.length ≤ 200) ∧ n.body ≠ ""

/-- The notification of an intent that is under way fits its columns. -/
theorem plainTrade_fits (i : WatchedIntent) : (plainTrade i).Fits := by
  have hstatus := intentStatusName_length i.status
  have hsubject : "Basis Hawk trade update" ≠ "" ∧ "Basis Hawk trade update".length ≤ 200 := by decide
  refine ⟨List.cons_ne_nil _ _, ⟨append_ne_empty (by decide) _, ?_⟩, hsubject, ?_⟩
  · show ("trade." ++ intentStatusName i.status).length ≤ 100
    rw [String.length_append, show "trade.".length = 6 from rfl]
    omega
  · show "Trade state updated." ≠ ""
    decide

/-- The texts of a trade that is told with its status. -/
theorem statusTrade_fits (status : IntentStatus) (severity : Severity) {channels : List Channel}
    (hchannels : channels ≠ []) {body : String} (hbody : body ≠ "") :
    TradeNotification.Fits ⟨"trade." ++ intentStatusName status, severity, channels,
      "Basis Hawk trade " ++ intentStatusName status, body⟩ := by
  have hstatus := intentStatusName_length status
  refine ⟨hchannels, ⟨append_ne_empty (by decide) _, ?_⟩, ⟨append_ne_empty (by decide) _, ?_⟩, hbody⟩
  · show ("trade." ++ intentStatusName status).length ≤ 100
    rw [String.length_append, show "trade.".length = 6 from rfl]
    omega
  · show ("Basis Hawk trade " ++ intentStatusName status).length ≤ 200
    rw [String.length_append, show "Basis Hawk trade ".length = 17 from rfl]
    omega

/-- And so does that of an intent in a state to be told. -/
theorem tradeNotification_fits {i : WatchedIntent} {n : TradeNotification}
    (h : tradeNotification i = some n) : n.Fits := by
  -- Every text begins with exchange, environment, asset and action.
  have hlabel : i.exchange.name ++ " " ++ i.environment.name ++ " " ++ i.baseAsset ++ " "
      ++ actionName i.action ≠ "" := by
    refine append_ne_empty (append_ne_empty (append_ne_empty (append_ne_empty (append_ne_empty
      (append_ne_empty ?_ _) _) _) _) _) _
    cases i.exchange <;> decide
  have htold : ∀ tail : String, i.exchange.name ++ " " ++ i.environment.name ++ " " ++ i.baseAsset
      ++ " " ++ actionName i.action ++ tail ≠ "" := append_ne_empty hlabel
  unfold tradeNotification at h
  cases hst : i.status with
  -- These two states are not told.
  | planned | executing =>
      rw [hst] at h
      cases h
  | hedged | closed =>
      rw [hst] at h
      injection h with h
      subst h
      exact statusTrade_fits _ _ (List.cons_ne_nil _ _)
        (append_ne_empty (append_ne_empty (htold _) _) _)
  | compensating =>
      rw [hst] at h
      injection h with h
      subst h
      -- The imbalance has a type and a subject of its own.
      have htype : "trade.imbalance" ≠ "" ∧ "trade.imbalance".length ≤ 100 := by decide
      have hsubject : "Basis Hawk fill imbalance" ≠ ""
          ∧ "Basis Hawk fill imbalance".length ≤ 200 := by decide
      exact ⟨List.cons_ne_nil _ _, htype, hsubject, append_ne_empty (htold _) _⟩
  | failed =>
      rw [hst] at h
      dsimp only at h
      split at h
      · cases h
      · injection h with h
        subst h
        exact statusTrade_fits _ _ (List.cons_ne_nil _ _)
          (append_ne_empty (append_ne_empty (append_ne_empty (htold _) _) _) _)
  | manualReview =>
      rw [hst] at h
      injection h with h
      subst h
      exact statusTrade_fits _ _ (List.cons_ne_nil _ _)
        (append_ne_empty (append_ne_empty (append_ne_empty (htold _) _) _) _)

/-- The request about an intent passes the checks of the storage. -/
theorem tradeRequest_valid (digest : Digest) (emit : Bool) (i : WatchedIntent) :
    (tradeRequest digest emit i).Valid := by
  have hfits : ((tradeNotification i).getD (plainTrade i)).Fits := by
    cases h : tradeNotification i with
    | none => exact plainTrade_fits i
    | some n => exact tradeNotification_fits h
  refine ⟨⟨⟨append_ne_empty (by decide) _, ?_⟩, digest.checked _⟩, fun _ => hfits⟩
  show ("trade:" ++ i.id).length ≤ 150
  rw [String.length_append, i.id_length]
  decide

/-- And the daily summary. -/
theorem summaryRequest_valid (digest : Digest) (emit : Bool) (s : DailyNotificationSummary) :
    (summaryRequest digest emit s).Valid := by
  have hsource : "daily-summary" ≠ "" ∧ "daily-summary".length ≤ 150 := by decide
  have htype : "system.daily_summary" ≠ "" ∧ "system.daily_summary".length ≤ 100 := by decide
  refine ⟨⟨hsource, digest.checked _⟩, fun _ => ⟨List.cons_ne_nil _ _, htype,
    ⟨append_ne_empty (by decide) _, ?_⟩, ?_⟩⟩
  · show ("Basis Hawk daily summary " ++ s.periodStart).length ≤ 200
    rw [String.length_append, s.start_length]
    decide
  · simp only [summaryRequest, String.append_assoc]
    exact append_ne_empty (by decide) _

/-- No check refuses a request of a pass. -/
theorem requests_valid (digest : Digest) (emit : Bool) (o : Observed) :
    ∀ r ∈ requests digest emit o, r.Valid := by
  intro r hr
  unfold requests at hr
  simp only [List.mem_append, List.mem_map, List.mem_singleton] at hr
  rcases hr with ((⟨c, -, rfl⟩ | ⟨a, -, rfl⟩) | ⟨i, -, rfl⟩) | rfl
  · exact controlRequest_valid digest emit c.1 c.2
  · exact accountRequest_valid digest emit a
  · exact tradeRequest_valid digest emit i
  · exact summaryRequest_valid digest emit o.summary

/-! ## §5. A pass among other transactions. -/

/-- The request of a projection. -/
def Event.request? : Event → Option ProjectionRequest
  | .project req _ => some req
  | _ => none

/-- The requests among transactions, in order. -/
def requestsOf (events : List Event) : List ProjectionRequest := events.filterMap Event.request?

/-- The requests of a sequence, one event more. -/
theorem requestsOf_append (events : List Event) (e : Event) :
    requestsOf (events ++ [e]) = requestsOf events ++ e.request?.toList := by
  unfold requestsOf
  rw [List.filterMap_append]
  cases e <;> rfl

/-- The request is a change of the source after what came before. -/
def Changes (before : List Event) (source : String) (r : ProjectionRequest) : Prop :=
  r.sourceKey = source ∧ (changesOf source before).getLast?.map (·.fingerprint) ≠ some r.fingerprint

instance (before : List Event) (source : String) (r : ProjectionRequest) :
    Decidable (Changes before source r) :=
  inferInstanceAs (Decidable (_ ∧ _))

/-- The change that an accepted projection makes, after the last one. -/
theorem change_toList {req : ProjectionRequest} (hvalid : req.Valid) (now : Int) (source : String)
    (last : Option ProjectionRequest) :
    ((Event.project req now).change source last).toList
      = [req].filter fun r => r.sourceKey = source
          ∧ last.map (·.fingerprint) ≠ some r.fingerprint := by
  show (ite _ _ _ : Option ProjectionRequest).toList = _
  by_cases hnew : req.sourceKey = source ∧ last.map (·.fingerprint) ≠ some req.fingerprint
  · rw [if_pos ⟨hnew.1, hvalid, hnew.2⟩]
    refine (List.filter_eq_self.mpr fun r hr => ?_).symm
    rw [List.mem_singleton.mp hr]
    exact decide_eq_true hnew
  · rw [if_neg fun h => hnew ⟨h.1, h.2.2⟩]
    refine (List.filter_eq_nil_iff.mpr fun r hr hchanges => ?_).symm
    rw [List.mem_singleton.mp hr] at hchanges
    exact hnew (of_decide_eq_true hchanges)

/-- Projections of distinct sources, with others between them: each is compared
with what came before all of them. -/
theorem changesOf_distinct (before events : List Event) (source : String)
    (hnodup : ((requestsOf events).map (·.sourceKey)).Nodup)
    (hvalid : ∀ r ∈ requestsOf events, r.Valid) :
    changesOf source (before ++ events)
      = changesOf source before ++ (requestsOf events).filter (Changes before source) := by
  induction events using List.reverseRecOn with
  | nil =>
      rw [List.append_nil]
      exact (List.append_nil _).symm
  | append_singleton events e ih =>
      rw [requestsOf_append, List.map_append] at hnodup
      rw [requestsOf_append] at hvalid
      have hih := ih (List.Nodup.of_append_left hnodup)
        fun r hr => hvalid r (List.mem_append.mpr (.inl hr))
      rw [← List.append_assoc]
      cases e with
      | project req now =>
          rw [changesOf_append, hih, requestsOf_append, List.filter_append, List.append_assoc]
          refine congrArg _ ?_
          have hreq : req.Valid := hvalid req (List.mem_append.mpr (.inr (List.mem_singleton.mpr rfl)))
          rw [change_toList hreq]
          by_cases hsource : req.sourceKey = source
          · -- The source has not been looked at yet.
            have hnone : (requestsOf events).filter (Changes before source) = [] := by
              refine List.filter_eq_nil_iff.mpr fun r hr hchanges => ?_
              have hsame : r.sourceKey = source := (of_decide_eq_true hchanges).1
              exact List.disjoint_of_nodup_append hnodup (List.mem_map_of_mem hr)
                (by rw [hsame, ← hsource]; exact List.mem_singleton.mpr rfl)
            rw [hnone, List.append_nil]
            rfl
          · refine congrArg _ (List.filter_congr fun r hr => decide_eq_decide.mpr ?_)
            rw [List.mem_singleton.mp hr]
            exact ⟨fun h => absurd h.1 hsource, fun h => absurd h.1 hsource⟩
      | respond | test | claim | sent | failed | prune =>
          rw [changesOf_other _ fun req now h => (by cases h), hih, requestsOf_append]
          exact congrArg _ (congrArg _ (List.append_nil _).symm)

/-- A pass that is to tell nothing asks for no alert. -/
theorem requests_notify {digest : Digest} {emit : Bool} {o : Observed} {r : ProjectionRequest}
    (hr : r ∈ requests digest emit o) (hnotify : r.notify = true) : emit = true := by
  unfold requests at hr
  simp only [List.mem_append, List.mem_map, List.mem_singleton] at hr
  rcases hr with ((⟨c, -, rfl⟩ | ⟨a, -, rfl⟩) | ⟨i, -, rfl⟩) | rfl
  · exact (Bool.and_eq_true_iff.mp hnotify).1
  · exact (Bool.and_eq_true_iff.mp hnotify).1
  · exact (Bool.and_eq_true_iff.mp hnotify).1
  · exact hnotify

/-- Where none of the requests is to be told, no alert is entered. -/
theorem told_before (before events : List Event)
    (hquiet : ∀ r ∈ requestsOf events, r.notify = false) {r' : NotificationOutboxRow}
    (hr : r' ∈ (replay (before ++ events)).rows) (hkey : IsProjection r'.dedupeKey) :
    ∃ r ∈ (replay before).rows, r'.told = r.told := by
  induction events using List.reverseRecOn generalizing r' with
  | nil =>
      rw [List.append_nil] at hr
      exact ⟨r', hr, rfl⟩
  | append_singleton events e ih =>
      rw [requestsOf_append] at hquiet
      have hearlier : ∀ r ∈ requestsOf events, r.notify = false :=
        fun r hr => hquiet r (List.mem_append.mpr (.inl hr))
      have hp := projected_replay (before ++ events)
      have hrow := hr
      rw [← List.append_assoc, replay_append] at hr
      rcases after_back hp e hr hkey with ⟨r'', hr'', hsame⟩ | ⟨source, hnext⟩
      · have htag : r'.dedupeKey = r''.dedupeKey :=
          congrArg Prod.fst (NotificationOutboxRow.tag_of_told hsame)
        obtain ⟨r, hmem, hold⟩ := ih hearlier hr'' (htag ▸ hkey)
        exact ⟨r, hmem, hsame.trans hold⟩
      · -- The row would tell the change just made, which is not to be told.
        rw [← List.append_assoc] at hrow
        obtain ⟨g, req, hg, hat, htells⟩ :=
          (projected_replay (before ++ events ++ [e])).told r' hrow source _ hnext
        rcases changesOf_split hat with hold | ⟨-, hmakes⟩
        · have hlt := (List.getElem?_eq_some_iff.mp hold).1
          rw [← hp.generation] at hlt
          omega
        · obtain ⟨now, rfl, -⟩ := Event.change_eq_some hmakes
          have hsilent : req.notify = false :=
            hquiet req (List.mem_append.mpr (.inr (List.mem_singleton.mpr rfl)))
          rw [htells.notify] at hsilent
          cases hsilent

/-- Once the changes among the requests for distinct sources are made, each source
looks as it was seen. -/
theorem fingerprint_seen {before events : List Event} {watched : List ProjectionRequest}
    (hchanges : ∀ source, changesOf source (before ++ events) = changesOf source before
      ++ watched.filter fun r => r.sourceKey = source
        ∧ (replay before).fingerprint source ≠ some r.fingerprint)
    (hnodup : (watched.map (·.sourceKey)).Nodup) {r : ProjectionRequest} (hr : r ∈ watched) :
    (replay (before ++ events)).fingerprint r.sourceKey = some r.fingerprint := by
  rw [(projected_replay (before ++ events)).fingerprint, hchanges]
  -- Only this request is for its source.
  have hothers : ∀ r' ∈ watched, r'.sourceKey = r.sourceKey → r' = r :=
    fun r' hr' heq => List.inj_on_of_nodup_map hnodup hr' hr heq
  by_cases hsame : (replay before).fingerprint r.sourceKey = some r.fingerprint
  · have hnone : (watched.filter fun r' => r'.sourceKey = r.sourceKey
        ∧ (replay before).fingerprint r.sourceKey ≠ some r'.fingerprint) = [] := by
      refine List.filter_eq_nil_iff.mpr fun r' hr' hchange => ?_
      obtain ⟨hkey, hne⟩ := of_decide_eq_true hchange
      rw [hothers r' hr' hkey] at hne
      exact hne hsame
    rw [hnone, List.append_nil, ← (projected_replay before).fingerprint]
    exact hsame
  · have hmem : r ∈ watched.filter fun r' => r'.sourceKey = r.sourceKey
        ∧ (replay before).fingerprint r.sourceKey ≠ some r'.fingerprint :=
      List.mem_filter.mpr ⟨hr, decide_eq_true ⟨rfl, hsame⟩⟩
    have hne := List.ne_nil_of_mem hmem
    rw [List.getLast?_append_of_ne_nil _ hne, List.getLast?_eq_getLast_of_ne_nil hne, Option.map_some]
    have hlast := List.getLast_mem hne
    rw [hothers _ (List.mem_filter.mp hlast).1 (of_decide_eq_true (List.mem_filter.mp hlast).2).1]

/-- A pass over what it sees, whole or broken off after `k` of its projections,
with other transactions between them: no projection of it fails; the changes it
makes are those of its sources that look otherwise than before it, and each of
them looks afterwards as it was seen; and a pass that is to tell nothing enters
no alert. -/
theorem pass_watches (digest : Digest) (emit : Bool) (o : Observed) (before events : List Event)
    (k : Nat) (h : requestsOf events = (requests digest emit o).take k) :
    (∀ early req now late, events = early ++ .project req now :: late →
        ∃ done s', projectNotification req now (replay (before ++ early)) = .ok (done, s'))
      ∧ (∀ source, changesOf source (before ++ events) = changesOf source before
          ++ ((requests digest emit o).take k).filter fun r => r.sourceKey = source
            ∧ (replay before).fingerprint source ≠ some r.fingerprint)
      ∧ (∀ r ∈ (requests digest emit o).take k,
          (replay (before ++ events)).fingerprint r.sourceKey = some r.fingerprint)
      ∧ (emit = false → ∀ r' ∈ (replay (before ++ events)).rows, IsProjection r'.dedupeKey →
          ∃ r ∈ (replay before).rows, r'.told = r.told) := by
  have hvalid : ∀ r ∈ requestsOf events, r.Valid := by
    rw [h]
    exact fun r hr => requests_valid digest emit o r (List.mem_of_mem_take hr)
  have hnodup : ((requestsOf events).map (·.sourceKey)).Nodup := by
    rw [h, List.map_take]
    exact (requests_sources digest emit o).sublist (List.take_sublist _ _)
  -- Every source occurs once in a pass, so each change is against what was seen before the pass.
  have hchanges : ∀ source, changesOf source (before ++ events) = changesOf source before
      ++ ((requests digest emit o).take k).filter fun r => r.sourceKey = source
        ∧ (replay before).fingerprint source ≠ some r.fingerprint := by
    intro source
    rw [changesOf_distinct before events source hnodup hvalid, h]
    refine congrArg _ (List.filter_congr fun r _ => decide_eq_decide.mpr ?_)
    unfold Changes
    rw [(projected_replay before).fingerprint]
  refine ⟨fun early req now late heq => ?_, hchanges, fun r hr => ?_, fun hemit r' hr hkey => ?_⟩
  · have hmem : req ∈ requestsOf events := by
      rw [heq]
      unfold requestsOf
      rw [List.filterMap_append]
      exact List.mem_append.mpr (.inr List.mem_cons_self)
    exact (alerts_accepted (before ++ early) req now (hvalid req hmem))
  · refine fingerprint_seen hchanges ?_ hr
    rw [← h]
    exact hnodup
  · refine told_before before events (fun r hr => ?_) hr hkey
    rw [h] at hr
    -- A pass that is to tell nothing asks for no alert.
    cases hnotify : r.notify with
    | false => rfl
    | true =>
        have hemitted := requests_notify (List.mem_of_mem_take hr) hnotify
        rw [hemit] at hemitted
        cases hemitted

namespace Sample

/-- SHA-256 at the two texts that are digested here. -/
def digestOf (values : List String) : String :=
  if values = ["paused", "operator"] then
    "11dd1ecc83b99f52f6158d34dd9891d3c07a27c4c278b5a642747457b6b914a5"
  else "cabf1ff16fc5d4157039b058297d322080e6cd6877aeb214dcb5238709229dea"

theorem digestOf_length (values : List String) : (digestOf values).length = 64 := by
  unfold digestOf
  split <;> decide

/-- The sample's digest consists of hexadecimal digits. -/
theorem digestOf_digits (values : List String) : ∀ c ∈ (digestOf values).toList, c ∈ hexDigits := by
  have hall : (digestOf values).toList.all (fun c => hexDigits.contains c) = true := by
    unfold digestOf hexDigits
    split
    · decide
    · decide
  intro c hc
  exact List.contains_iff_mem.mp (List.all_eq_true.mp hall c hc)

def digest : Digest := ⟨digestOf, digestOf_length, digestOf_digits⟩

/-- The execution has been paused; nothing else is there. -/
def observed : Observed where
  control := some (.paused, "operator")
  accounts := []
  intents := []
  summary := ⟨"2026-07-27", "0", 0, 0, 0, 0, 0, 0, rfl⟩
  accounts_key := List.nodup_nil
  intents_key := List.nodup_nil

/-- The pass, with a test of the channels between its two projections. -/
def passEvents : List Event :=
  [.project (controlRequest digest true .paused "operator") 1,
    .test "1" "admin" "now" [.email] 2,
    .project (summaryRequest digest true observed.summary) 3]

end Sample

/-- A first pass over a paused execution: both sources are told on both channels. -/
theorem pass_watches_paused : (replay Sample.passEvents).rows.length = 5
    ∧ (replay Sample.passEvents).fingerprint "execution"
      = some "11dd1ecc83b99f52f6158d34dd9891d3c07a27c4c278b5a642747457b6b914a5" := by
  have hpass := pass_watches Sample.digest true Sample.observed [] Sample.passEvents 2 rfl
  refine ⟨by decide +kernel, hpass.2.2.1 (controlRequest Sample.digest true .paused "operator") ?_⟩
  exact List.mem_cons_self

end BasisHawk.Notifications
