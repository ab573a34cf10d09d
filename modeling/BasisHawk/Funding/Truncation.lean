/-
  BasisHawk.Funding.Truncation
  ────────────────────────────
  The funding part of the passes of `ReconciliationService.run_once`
  (`reconciliation.py`) for one account, against an exchange whose pages are
  limited.

  A pass asks for everything since one minute before the newest stored
  payment, and stores what it gets even where the page was cut off.  The
  exchange answers with the newest payments, so what was cut off is older
  than what is stored, and the next pass starts after it.

  Main results:
    • `Sound` — what every run keeps: the table holds payments of the history,
      and a query starts where the table says,
    • `funding_complete` — in a run in which nothing falls behind by more than
      the minute, a complete batch completes the table.
-/
import Mathlib.Data.List.Pairwise
import Mathlib.Data.List.Sort
import BasisHawk.Funding.Storage
import BasisHawk.Lib.WorkerSystem

namespace BasisHawk.Funding

open Domain Lib

/-! ## §1. The exchange. -/

/-- One minute in microseconds. -/
def minute : Int := 60000000

/-- One day. -/
def day : Int := 86400000000

/-- The account client of a scope: the name in its messages and the limit of a
page. -/
structure AccountClient where
  scope : Scope
  name : String
  limit : Nat
  deriving DecidableEq

/-- The newest `n` payments. -/
def newest (n : Nat) (records : List RemoteFundingIncome) : List RemoteFundingIncome :=
  (records.insertionSort fun r r' => r'.occurredAt ≤ r.occurredAt).take n

/-- The checks of `_funding_batch`. -/
def checkRecords (exchange : String) : List RemoteFundingIncome → Except Exc Unit
  | [] => .ok ()
  | r :: rest => do
      raiseIf (r.exchangeRecordId = "")
        (.ofKind .privateRequest (exchange ++ " funding income returned no record ID"))
      raiseIf (¬sameUpper r.asset "USDT")
        (.ofKind .privateRequest (exchange ++ " funding income returned a non-USDT asset"))
      checkRecords exchange rest

/-- `_funding_batch`. -/
def fundingBatch (exchange : String) (records : List RemoteFundingIncome) (limitReached : Bool) :
    Except Exc RemoteFundingIncomeBatch := do
  checkRecords exchange records
  .ok {
    records
    complete := !limitReached
    incompleteReason := if limitReached
      then some (exchange ++ " funding income result requires another page") else none }

/-- `funding_income`: the newest payments since `since`, incomplete exactly when
some were cut off. -/
def AccountClient.fundingIncome (c : AccountClient) (history : List RemoteFundingIncome)
    (since : Int) : Except Exc RemoteFundingIncomeBatch :=
  let found := history.filter (since ≤ ·.occurredAt)
  fundingBatch c.name (newest c.limit found) (decide (c.limit < found.length))

/-- A batch holds the records of its page and is complete exactly if the page
was not cut off. -/
theorem fundingBatch_ok {exchange : String} {records : List RemoteFundingIncome}
    {limitReached : Bool} {b : RemoteFundingIncomeBatch}
    (h : fundingBatch exchange records limitReached = .ok b) :
    b.records = records ∧ b.complete = !limitReached := by
  obtain ⟨-, -, h⟩ := bind_eq_ok.mp h
  injection h with h
  rw [← h]
  exact ⟨rfl, rfl⟩

theorem mem_newest {n : Nat} {records : List RemoteFundingIncome} {r : RemoteFundingIncome}
    (h : r ∈ newest n records) : r ∈ records :=
  (List.perm_insertionSort _ records).subset (List.mem_of_mem_take h)

/-- A page with room for all records returns them all. -/
theorem newest_all {n : Nat} {records : List RemoteFundingIncome} (h : records.length ≤ n) :
    ∀ r ∈ records, r ∈ newest n records := by
  intro r hr
  have hlen : (records.insertionSort fun r r' => r'.occurredAt ≤ r.occurredAt).length ≤ n := by
    rw [List.length_insertionSort]
    exact h
  unfold newest
  rw [List.take_of_length_le hlen]
  exact (List.perm_insertionSort _ records).mem_iff.mpr hr

/-- A batch holds payments of the history, and all since `since` if it is
complete. -/
theorem AccountClient.fundingIncome_ok {c : AccountClient} {history : List RemoteFundingIncome}
    {since : Int} {b : RemoteFundingIncomeBatch} (h : c.fundingIncome history since = .ok b) :
    (∀ r ∈ b.records, r ∈ history)
      ∧ (b.complete → ∀ r ∈ history, since ≤ r.occurredAt → r ∈ b.records) := by
  obtain ⟨hrecords, hcomplete⟩ := fundingBatch_ok h
  rw [hrecords, hcomplete]
  refine ⟨fun r hr => (List.mem_filter.mp (mem_newest hr)).1, fun hc r hr hsince => ?_⟩
  refine newest_all ?_ r (List.mem_filter.mpr ⟨hr, by simpa using hsince⟩)
  simpa using hc

/-! ## §2. The world. -/

/-- The query of a pass: where it started, the history it met, and the answer. -/
structure Asked where
  since : Int
  history : List RemoteFundingIncome
  batch : RemoteFundingIncomeBatch
  deriving DecidableEq

/-- The table and the exchange.  The last three components are history
variables: the start of the first query, the query of the pass under way, and
the history at the last complete query whose batch is stored. -/
structure World where
  rows : List FundingIncomeRow
  history : List RemoteFundingIncome
  now : Int
  firstSince : Option Int
  asked : Option Asked
  owed : List RemoteFundingIncome
  deriving DecidableEq

inductive FundingOp where
  | latest
  | now
  | fundingIncome (since : Int)
  | persist (records : List RemoteFundingIncome)
  deriving DecidableEq

/-- Every operation may raise. -/
abbrev FundingRep : FundingOp → Type
  | .latest => Except Exc (Option Int)
  | .now => Except Exc Int
  | .fundingIncome _ => Except Exc RemoteFundingIncomeBatch
  | .persist _ => Except Exc Nat

/-- What the other actors do: a payment enters the history, another account
stores a batch, time passes. -/
inductive FundingAct where
  | enters (r : RemoteFundingIncome)
  | elsewhere (s : Scope) (records : List RemoteFundingIncome)
  | tick (d : Nat)

namespace World

/-- The first query ever sets the start that the table answers for. -/
def begins (w : World) (since : Int) : World := { w with firstSince := w.firstSince.or (some since) }

/-- A batch is stored. -/
def stores (w : World) (rows : List FundingIncomeRow) : World :=
  { w with
    rows
    asked := none
    owed := match w.asked with
      | some q => if q.batch.complete then q.history else w.owed
      | none => w.owed }

/-- What an operation does when nothing fails. -/
def serve (c : AccountClient) : (o : FundingOp) → World → FundingRep o × World
  | .latest, w => (.ok (latestFundingIncomeAt c.scope w.rows), w)
  | .now, w => (.ok w.now, w)
  | .fundingIncome since, w =>
      match c.fundingIncome w.history since with
      | .ok b => (.ok b, { w.begins since with asked := some ⟨since, w.history, b⟩ })
      | .error e => (.error e, w.begins since)
  | .persist records, w =>
      match persistFundingIncome c.scope records w.now w.rows with
      | .ok (n, rows) => (.ok n, w.stores rows)
      | .error e => (.error e, w)

/-- What it does when it fails. -/
def fails (e : Exc) : (o : FundingOp) → World → FundingRep o × World
  | .latest, w => (.error e, w)
  | .now, w => (.error e, w)
  | .fundingIncome since, w => (.error e, w.begins since)
  | .persist _, w => (.error e, w)

end World

/-- The worker's operations among the other actors. -/
def system (c : AccountClient) : System FundingOp FundingRep FundingAct World where
  exec := fun o w r w' => w.serve c o = (r, w') ∨ ∃ e, w.fails e o = (r, w')
  env
    | .enters r, w, w' =>
        (∀ old ∈ w.history, old.exchangeRecordId ≠ r.exchangeRecordId
          ∧ old.occurredAt ≠ r.occurredAt) ∧ w' = { w with history := w.history ++ [r] }
    | .elsewhere s records, w, w' =>
        s ≠ c.scope ∧ ∃ n rows, persistFundingIncome s records w.now w.rows = .ok (n, rows)
          ∧ w' = { w with rows }
    | .tick d, w, w' => w' = { w with now := w.now + d }
  idle := fun w => { w with asked := none }

/-! ## §3. The pass. -/

/-- The funding part of a pass: whether the batch is complete, and how many
records came. -/
def reconcileFundingIncome : Prog FundingOp FundingRep Exc (Bool × Nat) := do
  let latest ← .call .latest .done
  let since ← match latest with
    | some latest => pure (latest - minute)
    | none => do
        let now ← .call .now .done
        pure (now - day)
  match ← Prog.outcome (.call (.fundingIncome since) .done) with
  | .error _ => pure (false, 0)
  | .ok (batch : RemoteFundingIncomeBatch) => do
      let _ ← .call (.persist batch.records) .done
      pure (batch.complete, batch.records.length)

/-- Ids and times are distinct, and the table holds payments of the history. -/
def Initial (c : AccountClient) (w : World) : Prop :=
  w.history.Pairwise (fun r r' => r.exchangeRecordId ≠ r'.exchangeRecordId
      ∧ r.occurredAt ≠ r'.occurredAt)
    ∧ (∀ r ∈ ofScope c.scope w.rows, r ∈ w.history)
    ∧ w.firstSince = none ∧ w.asked = none ∧ w.owed = []

/-- The configurations of the runs whose steps are all allowed. -/
def Reachable (c : AccountClient) (allow : World → Label FundingOp FundingRep FundingAct → Prop) :
    Config FundingOp FundingRep Exc (Bool × Nat) World → Prop :=
  (system c).Reach reconcileFundingIncome (Initial c) allow

/-! ## §4. What every run keeps. -/

/-- The query of the pass under way, and its answer. -/
structure Asked.Sound (c : AccountClient) (w : World) (q : Asked) : Prop where
  history : ∀ r ∈ q.history, r ∈ w.history
  records : ∀ r ∈ q.batch.records, r ∈ q.history
  complete : q.batch.complete → ∀ r ∈ q.history, q.since ≤ r.occurredAt → r ∈ q.batch.records
  since : ∀ latest ∈ latestFundingIncomeAt c.scope w.rows, q.since = latest - minute
  begun : w.firstSince.isSome

/-- What holds in every reachable world. -/
structure Sound (c : AccountClient) (w : World) : Prop where
  distinct : w.history.Pairwise fun r r' => r.exchangeRecordId ≠ r'.exchangeRecordId
    ∧ r.occurredAt ≠ r'.occurredAt
  stored : ∀ r ∈ ofScope c.scope w.rows, r ∈ w.history
  asked : ∀ q ∈ w.asked, q.Sound c w
  fresh : w.firstSince = none → w.owed = []

/-- A query starts one minute before the newest stored payment, and what is
stored is the batch of the query. -/
def Pre (c : AccountClient) : FundingOp → World → Prop
  | .latest, _ | .now, _ => True
  | .fundingIncome since, w =>
      ∀ latest ∈ latestFundingIncomeAt c.scope w.rows, since = latest - minute
  | .persist records, w => ∃ q ∈ w.asked, q.batch.records = records

/-- Two payments of the history with one id are the same. -/
theorem Sound.same {c : AccountClient} {w : World} (h : Sound c w) {r r' : RemoteFundingIncome}
    (hr : r ∈ w.history) (hr' : r' ∈ w.history) (hid : r.exchangeRecordId = r'.exchangeRecordId) :
    r = r' := by
  by_contra hne
  have hsymm : Std.Symm fun r r' : RemoteFundingIncome =>
      r.exchangeRecordId ≠ r'.exchangeRecordId ∧ r.occurredAt ≠ r'.occurredAt :=
    ⟨fun _ _ h => ⟨h.1.symm, h.2.symm⟩⟩
  exact (h.distinct.forall hr hr' hne).1 hid

/-- The newest stored payment depends on what is stored for the scope. -/
theorem latest_congr {s : Scope} {rows rows' : List FundingIncomeRow}
    (h : ofScope s rows' = ofScope s rows) :
    latestFundingIncomeAt s rows' = latestFundingIncomeAt s rows := by
  unfold latestFundingIncomeAt
  rw [h]

/-- What is stored for the scope, and the pass under way, are the worker's own. -/
theorem env_keeps {c : AccountClient} {a : FundingAct} {w w' : World} (h : (system c).env a w w') :
    ofScope c.scope w'.rows = ofScope c.scope w.rows ∧ w'.firstSince = w.firstSince
      ∧ w'.asked = w.asked ∧ w'.owed = w.owed ∧ ∀ r ∈ w.history, r ∈ w'.history := by
  cases a with
  | enters r =>
      obtain ⟨-, rfl⟩ := h
      exact ⟨rfl, rfl, rfl, rfl, fun _ hr => List.mem_append_left _ hr⟩
  | elsewhere s records =>
      obtain ⟨hne, n, rows, hp, rfl⟩ := h
      exact ⟨persistFundingIncome_other hne hp, rfl, rfl, rfl, fun _ hr => hr⟩
  | tick d =>
      have hw' : w' = { w with now := w.now + d } := h
      subst hw'
      exact ⟨rfl, rfl, rfl, rfl, fun _ hr => hr⟩

/-- New records at the exchange keep what is stored a part of its history. -/
theorem Sound.act {c : AccountClient} {a : FundingAct} {w w' : World} (he : (system c).env a w w')
    (h : Sound c w) : Sound c w' := by
  obtain ⟨hrows, hfirst, hasked, howed, hmono⟩ := env_keeps he
  refine ⟨?_, fun r hr => hmono r (h.stored r (hrows ▸ hr)), fun q hq => ?_, fun hf => ?_⟩
  · cases a with
    | enters r =>
        obtain ⟨hnew, rfl⟩ := he
        refine List.pairwise_append.mpr ⟨h.distinct, List.pairwise_singleton _ _, ?_⟩
        intro old hold r' hr'
        rw [List.mem_singleton.mp hr']
        exact hnew old hold
    | elsewhere s records =>
        obtain ⟨-, n, rows, -, rfl⟩ := he
        exact h.distinct
    | tick d =>
        have hw' : w' = { w with now := w.now + d } := he
        rw [hw']
        exact h.distinct
  · have hs := h.asked q (hasked ▸ hq)
    refine ⟨fun r hr => hmono r (hs.history r hr), hs.records, hs.complete, ?_, ?_⟩
    · rw [latest_congr hrows]
      exact hs.since
    · rw [hfirst]
      exact hs.begun
  · rw [howed]
    exact h.fresh (hfirst ▸ hf)

/-- A pass that begins with the newest stored time keeps the invariant: its
query starts there. -/
theorem Sound.begins {c : AccountClient} {w : World} (h : Sound c w) (since : Int) :
    Sound c (w.begins since) where
  distinct := h.distinct
  stored := h.stored
  asked := fun q hq =>
    have hs := h.asked q hq
    ⟨hs.history, hs.records, hs.complete, hs.since, by
      show (w.firstSince.or (some since)).isSome
      simp⟩
  fresh := fun hf => by
    have hnone : w.firstSince.or (some since) = none := hf
    simp at hnone

/-- What a stored batch adds to the table is in the history. -/
theorem Sound.persisted {c : AccountClient} {w : World} (h : Sound c w) {q : Asked}
    (hq : q ∈ w.asked) {n : Nat} {rows : List FundingIncomeRow}
    (hp : persistFundingIncome c.scope q.batch.records w.now w.rows = .ok (n, rows)) :
    (∀ r ∈ ofScope c.scope rows, r ∈ w.history)
      ∧ ∀ r ∈ q.batch.records, r ∈ ofScope c.scope rows := by
  obtain ⟨-, hfrom, hall⟩ := persistFundingIncome_ok hp
  have hs := h.asked q hq
  have hhistory : ∀ r ∈ ofScope c.scope rows, r ∈ w.history := by
    intro r hr
    rcases hfrom r hr with hr | hr
    · exact h.stored r hr
    · exact hs.history r (hs.records r hr)
  refine ⟨hhistory, fun r hr => ?_⟩
  -- The row under the record's id is the record, ids being distinct.
  obtain ⟨old, hold, hid⟩ := hall r hr
  have hsame : old = r := h.same (hhistory old hold) (hs.history r (hs.records r hr)) hid
  exact hsame ▸ hold

/-- One operation of a pass: a query returns records of the history, and they
are stored as they are. -/
theorem Sound.call {c : AccountClient} {o : FundingOp} {w w' : World} {r : FundingRep o}
    (he : (system c).exec o w r w') (hpre : Pre c o w) (h : Sound c w) : Sound c w' := by
  rcases he with he | ⟨e, he⟩
  · cases o with
    | latest => cases he; exact h
    | now => cases he; exact h
    -- A query: what it returns are records of the history within its bounds.
    | fundingIncome since =>
        simp only [World.serve] at he
        split at he
        · next b hb =>
            cases he
            have hs := h.begins since
            refine ⟨hs.distinct, hs.stored, fun q hq => ?_, hs.fresh⟩
            cases hq
            obtain ⟨hrecords, hcomplete⟩ := c.fundingIncome_ok hb
            exact ⟨fun _ hr => hr, hrecords, hcomplete, hpre, by
              show (w.firstSince.or (some since)).isSome
              simp⟩
        · cases he
          exact h.begins since
    -- Storing: the records are those of the query that was asked last.
    | persist records =>
        obtain ⟨q, hq, rfl⟩ := hpre
        simp only [World.serve] at he
        split at he
        · next n rows hp =>
            cases he
            refine ⟨h.distinct, (h.persisted hq hp).1, fun q' hq' => (by cases hq'), fun hf => ?_⟩
            have hbegun := (h.asked q hq).begun
            have hnone : w.firstSince = none := hf
            rw [hnone] at hbegun
            cases hbegun
        · cases he
          exact h
  · -- An operation that raised changes no more than the begin of its query.
    cases o with
    | fundingIncome since => cases he; exact h.begins since
    | _ => cases he; exact h

/-- A pass that ends forgets its query. -/
theorem Sound.idle {c : AccountClient} {w : World} (h : Sound c w) : Sound c ((system c).idle w) :=
  ⟨h.distinct, h.stored, fun q hq => (by cases hq), h.fresh⟩

/-- The step lemma for the whole system of passes. -/
theorem preserves (c : AccountClient) : (system c).Preserves (Sound c) (Pre c) where
  act := fun _ _ _ he h => h.act he
  call := fun _ _ _ _ he hpre h => h.call he hpre
  idle := fun _ h => h.idle

/-- The invariant holds where nothing has been stored. -/
theorem Initial.sound {c : AccountClient} {w : World} (h : Initial c w) : Sound c w := by
  obtain ⟨hdistinct, hstored, -, hasked, howed⟩ := h
  refine ⟨hdistinct, hstored, fun q hq => ?_, fun _ => howed⟩
  rw [hasked] at hq
  cases hq

/-- The newest stored payment stays as it is while the worker does not store. -/
theorem stable_latest {c : AccountClient} (P : Option Int → Prop) :
    (system c).Stable fun w => P (latestFundingIncomeAt c.scope w.rows) := by
  intro a w w' he hp
  show P (latestFundingIncomeAt c.scope w'.rows)
  rw [latest_congr (env_keeps he).1]
  exact hp

/-- No other actor changes what the pass has asked. -/
theorem stable_asked {c : AccountClient} (P : Option Asked → Prop) :
    (system c).Stable fun w => P w.asked := by
  intro a w w' he hp
  show P w'.asked
  rw [(env_keeps he).2.2.1]
  exact hp

/-- The part of a pass from the query on, started where the table says. -/
theorem wp_fetch {c : AccountClient} {since : Int} {w : World}
    (h : ∀ latest ∈ latestFundingIncomeAt c.scope w.rows, since = latest - minute) :
    (system c).wp (Sound c) (Pre c) (do
      match ← Prog.outcome (.call (.fundingIncome since) .done) with
      | .error _ => pure (false, 0)
      | .ok (batch : RemoteFundingIncomeBatch) => do
          let _ ← .call (.persist batch.records) .done
          pure (batch.complete, batch.records.length)) (fun _ _ => True) w := by
  refine System.wp_call_of_stable (stable_latest fun stored =>
    ∀ latest ∈ stored, since = latest - minute) h (fun w _ hw => hw) fun w r w' _ _ he _ => ?_
  cases r with
  | error e => trivial
  | ok batch =>
      have hasked : ∃ q ∈ w'.asked, q.batch.records = batch.records := by
        rcases he with he | ⟨e, he⟩
        · simp only [World.serve] at he
          split at he
          · cases he
            exact ⟨_, rfl, rfl⟩
          · cases he
        · cases he
      refine System.wp_call_of_stable (stable_asked fun asked =>
        ∃ q ∈ asked, q.batch.records = batch.records) hasked (fun w _ hw => hw) ?_
      intro w r w' _ _ _ _
      cases r with
      | error e => trivial
      | ok n => trivial

/-- The pass stores what it was answered and nothing else. -/
theorem wp_reconcileFundingIncome (c : AccountClient) (w : World) :
    (system c).wp (Sound c) (Pre c) reconcileFundingIncome (fun _ _ => True) w := by
  intro w₁ _ _
  refine ⟨trivial, fun r w₂ he _ => ?_⟩
  cases r with
  | error e => trivial
  | ok latest =>
      -- The first query starts from what is stored last.
      have hlatest : latestFundingIncomeAt c.scope w₂.rows = latest := by
        rcases he with he | ⟨e, he⟩
        · cases he
          rfl
        · cases he
      cases latest with
      | some latest =>
          refine wp_fetch fun l hl => ?_
          rw [hlatest] at hl
          cases hl
          rfl
      -- Nothing is stored, and nothing is stored while the clock is read.
      | none =>
          refine System.wp_call_of_stable (stable_latest (· = none)) hlatest
            (fun _ _ _ => trivial) ?_
          intro w r w' _ hnone he _
          cases r with
          | error e => trivial
          | ok now =>
              refine wp_fetch fun l hl => ?_
              have hw' : w' = w := by
                rcases he with he | ⟨e, he⟩
                · cases he; rfl
                · cases he
              have hnone : latestFundingIncomeAt c.scope w.rows = none := hnone
              rw [hw', hnone] at hl
              cases hl

/-! ## §5. Nothing falls behind. -/

/-- The payment is at most one minute older than each of `records`. -/
def Within (records : List RemoteFundingIncome) (r : RemoteFundingIncome) : Prop :=
  ∀ x ∈ records, x.occurredAt - minute ≤ r.occurredAt

instance (records : List RemoteFundingIncome) (r : RemoteFundingIncome) :
    Decidable (Within records r) :=
  inferInstanceAs (Decidable (∀ x ∈ records, _))

/-- What the page limit cut off is stored, or at most one minute older than what
it left. -/
def CutsOffLittle (c : AccountClient) (w : World) (q : Asked) : Prop :=
  ∀ r ∈ q.history, q.since ≤ r.occurredAt → r ∉ q.batch.records →
    r ∈ ofScope c.scope w.rows ∨ Within q.batch.records r

/-- What entered the history after the query is at most one minute older than
the batch. -/
def EntersInTime (w : World) (q : Asked) : Prop :=
  ∀ first ∈ w.firstSince, ∀ r ∈ w.history, r ∉ q.history → first ≤ r.occurredAt →
    Within q.batch.records r

/-- While nothing is stored, the query did not start after a payment since the
first start. -/
def StartsEarly (c : AccountClient) (w : World) (q : Asked) : Prop :=
  ofScope c.scope w.rows = [] → ∀ first ∈ w.firstSince, ∀ r ∈ q.history, first ≤ r.occurredAt →
    q.since ≤ r.occurredAt

/-- The steps by which no payment falls behind: a payment enters the history at
most one minute older than what is stored, and a batch is stored only where
nothing it lacks is older. -/
def NothingBehind (c : AccountClient) (w : World) :
    Label FundingOp FundingRep FundingAct → Prop
  | .act (.enters r) =>
      ∀ first ∈ w.firstSince, first ≤ r.occurredAt → Within (ofScope c.scope w.rows) r
  | .call (.persist _) (.ok _) =>
      ∀ q ∈ w.asked, CutsOffLittle c w q ∧ EntersInTime w q ∧ StartsEarly c w q
  | _ => True

instance (c : AccountClient) (w : World) (q : Asked) :
    Decidable (CutsOffLittle c w q ∧ EntersInTime w q ∧ StartsEarly c w q) := by
  unfold CutsOffLittle EntersInTime StartsEarly
  infer_instance

instance (c : AccountClient) (w : World) : ∀ l, Decidable (NothingBehind c w l)
  | .act (.enters _) => inferInstanceAs (Decidable (∀ first ∈ w.firstSince, _ → _))
  | .call (.persist _) (.ok _) => inferInstanceAs (Decidable (∀ q ∈ w.asked, _))
  | .act (.elsewhere ..) | .act (.tick _) | .start | .finish | .crash => isTrue trivial
  | .call .latest _ | .call .now _ | .call (.fundingIncome _) _ => isTrue trivial
  | .call (.persist _) (.error _) => isTrue trivial

/-- Every payment since the first start is stored, or late enough for the next
query; and what a complete query saw is stored. -/
structure Caught (c : AccountClient) (w : World) : Prop where
  behind : ∀ first ∈ w.firstSince, ∀ r ∈ w.history, first ≤ r.occurredAt →
    r ∈ ofScope c.scope w.rows ∨ Within (ofScope c.scope w.rows) r
  owed : ∀ first ∈ w.firstSince, ∀ r ∈ w.owed, first ≤ r.occurredAt → r ∈ ofScope c.scope w.rows

/-- While nothing is left behind, new records at the exchange are later than
what is stored. -/
theorem Caught.act {c : AccountClient} {a : FundingAct} {w w' : World}
    (he : (system c).env a w w') (ha : NothingBehind c w (.act a)) (h : Caught c w) :
    Caught c w' := by
  obtain ⟨hrows, hfirst, -, howed, -⟩ := env_keeps he
  refine ⟨fun first hf r hr hle => ?_, ?_⟩
  · rw [hrows]
    rw [hfirst] at hf
    have hold : r ∈ w.history →
        r ∈ ofScope c.scope w.rows ∨ Within (ofScope c.scope w.rows) r :=
      fun hr => h.behind first hf r hr hle
    cases a with
    | enters new =>
        obtain ⟨-, rfl⟩ := he
        rcases List.mem_append.mp hr with hr | hr
        · exact hold hr
        · obtain rfl := List.mem_singleton.mp hr
          exact .inr (ha first hf hle)
    | elsewhere s records =>
        obtain ⟨-, n, rows, -, rfl⟩ := he
        exact hold hr
    | tick d =>
        have hw' : w' = { w with now := w.now + d } := he
        subst hw'
        exact hold hr
  · rw [hrows, hfirst, howed]
    exact h.owed

/-- The first query starts no later than one minute before anything stored. -/
theorem Caught.begins {c : AccountClient} {w : World} {since : Int} (hs : Sound c w)
    (hpre : Pre c (.fundingIncome since) w) (h : Caught c w) : Caught c (w.begins since) := by
  cases hf : w.firstSince with
  | some first =>
      -- A query was begun before, so this one changes nothing.
      have hsame : w.begins since = w := by
        unfold World.begins
        rw [hf]
        show { w with firstSince := some first } = w
        rw [← hf]
      rw [hsame]
      exact h
  -- The first query: it starts one minute before the last record that is stored.
  | none =>
      have hfirst : (w.begins since).firstSince = some since := by
        unfold World.begins
        rw [hf]
        rfl
      refine ⟨fun first hfirst' r _ hle => .inr fun x hx => ?_, fun first _ r hr => ?_⟩
      · obtain rfl : since = first := Option.some.inj (hfirst.symm.trans hfirst')
        cases hl : latestFundingIncomeAt c.scope w.rows with
        | none =>
            have hx : x ∈ ofScope c.scope w.rows := hx
            rw [latestFundingIncomeAt_none hl] at hx
            cases hx
        | some latest =>
            have hmax := (latestFundingIncomeAt_some hl).2 x hx
            have hstart := hpre latest hl
            omega
      · -- No record is owed before the first query.
        have hr : r ∈ w.owed := hr
        rw [hs.fresh hf] at hr
        cases hr

/-- What a query lacks of the payments since the first start was stored before. -/
theorem Caught.stored_of_early {c : AccountClient} {w : World} (hs : Sound c w) (h : Caught c w)
    {q : Asked} (hq : q ∈ w.asked) (hstart : StartsEarly c w q) {first : Int}
    (hf : first ∈ w.firstSince) {r : RemoteFundingIncome} (hr : r ∈ q.history)
    (hle : first ≤ r.occurredAt) (hearly : r.occurredAt < q.since) :
    r ∈ ofScope c.scope w.rows := by
  have hsound := hs.asked q hq
  rcases h.behind first hf r (hsound.history r hr) hle with hstored | hwithin
  · exact hstored
  · cases hl : latestFundingIncomeAt c.scope w.rows with
    | none =>
        have := hstart (latestFundingIncomeAt_none hl) first hf r hr hle
        omega
    | some latest =>
        obtain ⟨⟨x, hx, rfl⟩, -⟩ := latestFundingIncomeAt_some hl
        have hsince := hsound.since _ hl
        have := hwithin x hx
        omega

/-- A batch is stored. -/
theorem Caught.stores {c : AccountClient} {w : World} (hs : Sound c w) (h : Caught c w) {q : Asked}
    (hq : q ∈ w.asked) (hcut : CutsOffLittle c w q) (henter : EntersInTime w q)
    (hstart : StartsEarly c w q) {n : Nat} {rows : List FundingIncomeRow}
    (hp : persistFundingIncome c.scope q.batch.records w.now w.rows = .ok (n, rows)) :
    Caught c (w.stores rows) := by
  obtain ⟨hmono, hfrom, -⟩ := persistFundingIncome_ok hp
  have hall := (hs.persisted hq hp).2
  have hsound := hs.asked q hq
  -- Late enough for what was stored and for the batch is late enough for both.
  have hboth : ∀ r, Within (ofScope c.scope w.rows) r → Within q.batch.records r →
      Within (ofScope c.scope rows) r := by
    intro r hold hnew x hx
    rcases hfrom x hx with hx | hx
    · exact hold x hx
    · exact hnew x hx
  refine ⟨fun first hf r hr hle => ?_, fun first hf r hr hle => ?_⟩
  · show r ∈ ofScope c.scope rows ∨ Within (ofScope c.scope rows) r
    rcases h.behind first hf r hr hle with hstored | hwithin
    · exact .inl (hmono r hstored)
    · by_cases hseen : r ∈ q.history
      · by_cases hsince : q.since ≤ r.occurredAt
        · by_cases hbatch : r ∈ q.batch.records
          · exact .inl (hall r hbatch)
          · rcases hcut r hseen hsince hbatch with hstored | hnear
            · exact .inl (hmono r hstored)
            · exact .inr (hboth r hwithin hnear)
        · have hearly := h.stored_of_early hs hq hstart hf hseen hle (lt_of_not_ge hsince)
          exact .inl (hmono r hearly)
      · exact .inr (hboth r hwithin (henter first hf r hr hseen hle))
  · show r ∈ ofScope c.scope rows
    have hasked : w.asked = some q := hq
    have hr : r ∈ (if q.batch.complete then q.history else w.owed) := by
      have : (w.stores rows).owed = if q.batch.complete then q.history else w.owed := by
        unfold World.stores
        rw [hasked]
      exact this ▸ hr
    split at hr
    · next hcomplete =>
        by_cases hsince : q.since ≤ r.occurredAt
        · exact hall r (hsound.complete hcomplete r hr hsince)
        · exact hmono r (h.stored_of_early hs hq hstart hf hr hle (lt_of_not_ge hsince))
    · exact hmono r (h.owed first hf r hr hle)

/-- While nothing is left behind, a page that is stored reaches back to what is
stored already. -/
theorem Caught.call {c : AccountClient} {o : FundingOp} {w w' : World} {r : FundingRep o}
    (he : (system c).exec o w r w') (ha : NothingBehind c w (.call o r)) (hpre : Pre c o w)
    (hs : Sound c w) (h : Caught c w) : Caught c w' := by
  rcases he with he | ⟨e, he⟩
  · cases o with
    | latest => cases he; exact h
    | now => cases he; exact h
    | fundingIncome since =>
        simp only [World.serve] at he
        split at he
        · cases he
          have hb := h.begins hs hpre
          exact ⟨hb.behind, hb.owed⟩
        · cases he
          exact h.begins hs hpre
    | persist records =>
        obtain ⟨q, hq, rfl⟩ := hpre
        simp only [World.serve] at he
        split at he
        · next n rows hp =>
            cases he
            obtain ⟨hcut, henter, hstart⟩ := ha q hq
            exact h.stores hs hq hcut henter hstart hp
        · cases he
          exact h
  · cases o with
    | fundingIncome since => cases he; exact h.begins hs hpre
    | _ => cases he; exact h

/-- **No payment is lost**: in every run by steps that leave nothing behind, the
table holds every payment since the first start that the last complete query
saw. -/
theorem funding_complete {c : AccountClient}
    {s : Config FundingOp FundingRep Exc (Bool × Nat) World}
    (hs : Reachable c (NothingBehind c) s) {first : Int} (hf : first ∈ s.world.firstSince) :
    ∀ r ∈ s.world.owed, first ≤ r.occurredAt → r ∈ ofScope c.scope s.world.rows := by
  have hcaught : Caught c s.world := by
    refine System.Reach.invariant (preserves c) (fun _ hw => hw.sound)
      (fun w _ => wp_reconcileFundingIncome c w) (fun w hw => ?_)
      (fun _ _ _ he ha _ h => h.act he ha) (fun _ _ _ _ he ha hpre hI h => h.call he ha hpre hI)
      (fun _ _ h => ⟨h.behind, h.owed⟩) hs
    obtain ⟨-, -, hfirst, -, -⟩ := hw
    refine ⟨fun first hf => ?_, fun first hf => ?_⟩
    · rw [hfirst] at hf
      cases hf
    · rw [hfirst] at hf
      cases hf
  exact hcaught.owed first hf

/-! ## §6. A page of one payment. -/

namespace Sample

/-- A payment of an account at OKX. -/
def payment (id : String) (occurredAt : Int) : RemoteFundingIncome where
  exchangeRecordId := id
  symbol := "BTC-USDT-SWAP"
  baseAsset := "BTC"
  asset := "USDT"
  amount := 1
  rate := none
  positionValue := none
  occurredAt

/-- The account client with a page limit. -/
def client (limit : Nat) : AccountClient := ⟨⟨.okx, .live⟩, "OKX", limit⟩

/-- Two payments two minutes apart, and an empty table. -/
def before : World where
  rows := []
  history := [payment "1" 0, payment "2" (2 * minute)]
  now := 3 * minute
  firstSince := none
  asked := none
  owed := []

/-- A whole pass. -/
def pass (limit : Nat) (w : World) : Config FundingOp FundingRep Exc (Bool × Nat) World :=
  System.play (World.serve (client limit)) (fun _ => false) reconcileFundingIncome w

theorem reachable_before (limit : Nat) (allow : World → Label FundingOp FundingRep FundingAct → Prop) :
    Reachable (client limit) allow ⟨before, none⟩ :=
  .init ⟨by decide, fun r hr => (by cases hr), rfl, rfl, rfl⟩

/-- A pass is a run, if every step of it is allowed. -/
theorem run_pass {limit : Nat} {allow : World → Label FundingOp FundingRep FundingAct → Prop}
    [∀ w l, Decidable (allow w l)] {w : World} (hstart : allow w .start)
    (hf : System.follows (World.serve (client limit)) (fun _ => false) allow
      reconcileFundingIncome w) :
    (system (client limit)).Run reconcileFundingIncome allow ⟨w, none⟩ (pass limit w) :=
  System.Run.pass (fun _ _ => Or.inl rfl) hstart hf

end Sample

/-- A page of two payments holds both of them. -/
theorem funding_complete_page : ∃ s, Reachable (Sample.client 2) (NothingBehind (Sample.client 2)) s
    ∧ Sample.payment "1" 0 ∈ s.world.owed
    ∧ Sample.payment "1" 0 ∈ ofScope (Sample.client 2).scope s.world.rows := by
  have hs : Reachable (Sample.client 2) (NothingBehind (Sample.client 2))
      (Sample.pass 2 Sample.before) :=
    (Sample.reachable_before 2 _).run (Sample.run_pass trivial (by decide))
  have howed : Sample.payment "1" 0 ∈ (Sample.pass 2 Sample.before).world.owed := by decide
  have hfirst : 3 * minute - day ∈ (Sample.pass 2 Sample.before).world.firstSince := by
    decide
  exact ⟨_, hs, howed, funding_complete hs hfirst _ howed (by decide)⟩

/-- With a page of one payment the first pass stores the newer one, and the
second, complete, starts after the older one. -/
theorem funding_cut_off :
    ¬∀ (c : AccountClient) (s : Config FundingOp FundingRep Exc (Bool × Nat) World), 1 ≤ c.limit →
      Reachable c System.anyStep s → ∀ first ∈ s.world.firstSince, ∀ r ∈ s.world.owed,
        first ≤ r.occurredAt → r ∈ ofScope c.scope s.world.rows := by
  intro h
  have hfirst : Reachable (Sample.client 1) System.anyStep (Sample.pass 1 Sample.before) :=
    (Sample.reachable_before 1 _).run (Sample.run_pass trivial (System.follows_anyStep _ _))
  have hidle : (system (Sample.client 1)).Run reconcileFundingIncome System.anyStep
      (Sample.pass 1 Sample.before)
      ⟨(system (Sample.client 1)).idle (Sample.pass 1 Sample.before).world, none⟩ :=
    System.Run.leave (System.play_isSome _ _) trivial
  have hsecond : Reachable (Sample.client 1) System.anyStep
      (Sample.pass 1 ((system (Sample.client 1)).idle (Sample.pass 1 Sample.before).world)) :=
    (hfirst.run hidle).run (Sample.run_pass trivial (System.follows_anyStep _ _))
  have hstored := h (Sample.client 1) _ (Nat.le_refl 1) hsecond (3 * minute - day) (by decide)
    (Sample.payment "1" 0) (by decide) (by decide)
  exact absurd hstored (by decide)

end BasisHawk.Funding
