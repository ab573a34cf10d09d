/-
  BasisHawk.Reconciliation.CompensationQueue
  ──────────────────────────────────────────
  Which of several compensating intents `LiveCompensationService.run_once`
  serves (`live_execution.py`).

  The outside world is a table of answers here: whether the checks of `_execute`
  would pass for an intent can then be said of every intent at once, and not
  only of the one the service turns to.

  Main results:
    • `execute_places_iff` — `_execute` places an order exactly if all its
      checks pass,
    • `runOnce_places_iff` — `run_once` places one exactly if those of the
      oldest compensating intent pass,
    • `compensation_not_blocked_iff` — so an intent that could be compensated is
      held up exactly by an older one that could not.
-/
import BasisHawk.Reconciliation.Worker

namespace BasisHawk.Reconciliation.LiveCompensation

open Domain Lib Accounts Paired

/-! ## §1. Placing an order. -/

section

variable (sc : (o : OutOp) → Except Exc o.Answer) (arrives : Bool)

/-- The replies to everything, from the tables of a world and the table of
answers. -/
def replies (w : World) : (o : Op) → Rep o
  | .trade o => (transact o w.now w.books).1
  | .query q => q.eval w.ledger
  | .setControl .. => ()
  | .out o => sc o

/-- A run of a program places an order. -/
def Places {ε α : Type} (p : Worker ε α) (w : World) : Prop :=
  (p.run (answer sc arrives) w).2.history.placed ≠ w.history.placed

instance {ε α : Type} (p : Worker ε α) (w : World) : Decidable (Places sc arrives p w) :=
  inferInstanceAs (Decidable (_ ≠ _))

/-- Worlds that differ in what only proofs read. -/
structure Alike (w w' : World) : Prop where
  books : w.books = w'.books
  now : w.now = w'.now
  placed : w.history.placed = w'.history.placed

/-- Questions: neither the tables nor the exchanges change. -/
def isQuestion : Op → Prop
  | .query _ => True
  | .out (.placeLimitIoc ..) => False
  | .out _ => True
  | .trade _ | .setControl .. => False

/-- Everything but the placing of an order. -/
def isQuiet : Op → Prop
  | .out (.placeLimitIoc ..) => False
  | _ => True

variable {sc arrives} {w w' : World} {ε α β : Type}

theorem Alike.refl (w : World) : Alike w w := ⟨rfl, rfl, rfl⟩

/-- Worlds that differ in what only proofs read answer alike and stay alike. -/
theorem answer_alike (o : Op) (h : Alike w w') :
    (answer sc arrives o w).1 = (answer sc arrives o w').1
      ∧ Alike (answer sc arrives o w).2 (answer sc arrives o w').2 := by
  obtain ⟨hbooks, hnow, hplaced⟩ := h
  cases o with
  | trade o =>
      show (transact o w.now w.books).1 = (transact o w'.now w'.books).1 ∧ _
      rw [← hbooks, ← hnow]
      refine ⟨rfl, ?_, hnow, ?_⟩
      · show (transact o w.now w.books).2 = (transact o w'.now w'.books).2
        rw [hbooks, hnow]
      · show (w.history.wrote o).placed = (w'.history.wrote o).placed
        cases o <;> exact hplaced
  | query q =>
      have hledger : w.ledger = w'.ledger := congrArg Books.ledger hbooks
      show q.eval w.ledger = q.eval w'.ledger ∧ _
      exact ⟨by rw [hledger], hbooks, hnow, hplaced⟩
  | setControl state reason =>
      refine ⟨rfl, ?_, hnow, hplaced⟩
      show writeControl (Control.setExecutionControl state reason w.books.ledger.control) w.books
        = writeControl (Control.setExecutionControl state reason w'.books.ledger.control) w'.books
      rw [hbooks]
  | out o =>
      cases o with
      | placeLimitIoc a order =>
          refine ⟨rfl, hbooks, hnow, ?_⟩
          show order.clientOrderId :: w.history.placed = order.clientOrderId :: w'.history.placed
          rw [hplaced]
      | _ => exact ⟨rfl, hbooks, hnow, hplaced⟩

/-- A question gets the scripted reply and changes nothing but what only proofs
read. -/
theorem answer_question (o : Op) (w' : World) (ho : isQuestion o) (h : Alike w' w) :
    (answer sc arrives o w').1 = replies sc w o ∧ Alike (answer sc arrives o w').2 w := by
  obtain ⟨hbooks, hnow, hplaced⟩ := h
  cases o with
  | trade o => exact absurd ho id
  | query q =>
      have hledger : w'.ledger = w.ledger := congrArg Books.ledger hbooks
      show q.eval w'.ledger = q.eval w.ledger ∧ _
      exact ⟨by rw [hledger], hbooks, hnow, hplaced⟩
  | setControl state reason => exact absurd ho id
  | out o =>
      cases o with
      | placeLimitIoc a order => exact absurd ho id
      | _ => exact ⟨rfl, hbooks, hnow, hplaced⟩

/-- Whatever is not the placing of an order places none. -/
theorem answer_quiet (o : Op) (w : World) (ho : isQuiet o) :
    (answer sc arrives o w).2.history.placed = w.history.placed := by
  cases o with
  | trade o =>
      show (w.history.wrote o).placed = w.history.placed
      cases o <;> rfl
  | query q => rfl
  | setControl state reason => rfl
  | out o =>
      cases o with
      | placeLimitIoc a order => exact absurd ho id
      | _ => rfl

/-- What a program places does not depend on what only proofs read. -/
theorem places_alike (p : Worker ε α) (h : Alike w w') :
    Places sc arrives p w ↔ Places sc arrives p w' := by
  have hrun : (p.run (answer sc arrives) w).1 = (p.run (answer sc arrives) w').1
      ∧ Alike (p.run (answer sc arrives) w).2 (p.run (answer sc arrives) w').2 :=
    Prog.run_related (fun o _ _ h => answer_alike o h) p h
  unfold Places
  rw [hrun.2.placed, h.placed]

/-- So a program without a placing places nothing. -/
theorem not_places_of_quiet {p : Worker ε α} {R : Except ε α → Prop} (hp : p.Ensures isQuiet R)
    (w : World) : ¬Places sc arrives p w := by
  intro h
  refine h ?_
  clear h
  induction p generalizing w with
  | done r => rfl
  | call o k ih =>
      rw [Prog.run_call, ih _ (hp.2 _), answer_quiet o w hp.1]

/-- After its questions a program goes on with their answers. -/
theorem places_question_bind {p : Worker ε α} {f : α → Worker ε β} {R : Except ε α → Prop}
    (hp : p.Ensures isQuestion R) :
    Places sc arrives (p >>= f) w
      ↔ ∃ a, p.eval (replies sc w) = .ok a ∧ Places sc arrives (f a) w := by
  have hrun : (p.run (answer sc arrives) w).1 = p.eval (replies sc w)
      ∧ Alike (p.run (answer sc arrives) w).2 w :=
    hp.run_eval (fun o w' ho h => answer_question o w' ho h) (Alike.refl w)
  obtain ⟨heval, halike⟩ := hrun
  unfold Places
  rw [Prog.run_bind]
  generalize p.run (answer sc arrives) w = out at heval halike ⊢
  obtain ⟨r, w'⟩ := out
  dsimp only at heval halike
  subst heval
  cases hr : p.eval (replies sc w) with
  | error e =>
      refine ⟨fun h => absurd halike.placed h, ?_⟩
      rintro ⟨a, ha, -⟩
      cases ha
  | ok a =>
      have hiff : Places sc arrives (f a) w' ↔ Places sc arrives (f a) w :=
        places_alike (f a) halike
      unfold Places at hiff
      rw [halike.placed] at hiff
      refine hiff.trans ⟨fun h => ⟨a, rfl, h⟩, ?_⟩
      rintro ⟨_, ha, h⟩
      cases ha
      exact h

/-- A computation first: the rest places an order, if the computation succeeds.
-/
theorem places_pyEval_bind {r : Except Exc α} {f : α → Worker Exc β} :
    Places sc arrives (pyEval r >>= f) w ↔ ∃ a, r = .ok a ∧ Places sc arrives (f a) w :=
  places_question_bind (p := pyEval r) (R := fun _ => True) trivial

/-- A question first: the rest places an order, if the reply is no exception. -/
theorem places_ask_bind {o : OutOp} {f : o.Answer → Worker Exc β} (ho : isQuestion (.out o)) :
    Places sc arrives (ask o >>= f) w ↔ ∃ a, sc o = .ok a ∧ Places sc arrives (f a) w :=
  places_question_bind (p := ask o) (R := fun _ => True) ⟨ho, fun _ => trivial⟩

/-- A read first: the rest places an order on what the tables hold. -/
theorem places_look_bind {q : Query} {f : q.Answer → Worker Exc β} :
    Places sc arrives (look q >>= f) w ↔ Places sc arrives (f (q.eval w.ledger)) w := by
  rw [places_question_bind (p := look q) (R := fun _ => True) ⟨trivial, fun _ => trivial⟩]
  constructor
  · rintro ⟨a, ha, h⟩
    cases ha
    exact h
  · intro h
    exact ⟨_, rfl, h⟩

/-- What comes after a program that places nothing more. -/
theorem places_resume_quiet {p : Worker ε α} {f : Except ε α → Worker ε β}
    (hf : ∀ r, ∃ R, (f r).Ensures isQuiet R) :
    Places sc arrives (p.resume f) w ↔ Places sc arrives p w := by
  unfold Places
  rw [Prog.run_resume]
  obtain ⟨R, hR⟩ := hf (p.run (answer sc arrives) w).1
  have hquiet : ¬Places sc arrives (f (p.run (answer sc arrives) w).1)
      (p.run (answer sc arrives) w).2 := not_places_of_quiet hR _
  unfold Places at hquiet
  rw [not_not.mp hquiet]

/-! ## §2. The checks of `_execute`. -/

/-- A program of questions. -/
def Asks (p : Worker ε α) : Prop := p.Ensures isQuestion fun _ => True

theorem Asks.done (r : Except ε α) : Asks (.done r) := trivial

theorem asks_ask {o : OutOp} (ho : isQuestion (.out o)) : Asks (ask o) := ⟨ho, fun _ => trivial⟩

/-- Programs of questions can be put one after the other. -/
theorem Asks.bind {p : Worker ε α} {f : α → Worker ε β} (hp : Asks p) (hf : ∀ a, Asks (f a)) :
    Asks (p >>= f) :=
  Prog.Ensures.bind hp (fun a _ => hf a) fun _ _ => trivial

/-- And one can be the `finally` of another. -/
theorem Asks.finally' {p : Worker ε α} {q : Worker ε Unit} (hp : Asks p) (hq : Asks q) :
    Asks (p.finally' q) := by
  refine Prog.Ensures.resume hp fun r _ => Prog.Ensures.resume hq fun x _ => ?_
  cases x <;> exact trivial

/-- The price guard asks and does nothing else. -/
theorem asks_guardedPerpLimit (a : Account) (leg : OrderLegRow) (limit : ℚ) :
    Asks (guardedPerpLimit a leg limit) :=
  ⟨trivial, fun _ => ⟨trivial, fun _ => trivial⟩⟩

/-- So does the reading of the market and its limits. -/
theorem asks_compensationMarket (a : Account) (intent : TradeIntentRow) :
    Asks (compensationMarket a intent) := by
  have hstored : Asks (storedMarket a intent) := by
    refine (asks_ask (by exact trivial)).bind fun opportunities =>
      (asks_ask (by exact trivial)).bind fun pairs => ?_
    dsimp only
    split
    · exact .done _
    · split
      · have hgate : ∀ o, Asks (gateSandboxMarket o) := by
          intro o
          refine Asks.finally' ((asks_ask (by exact trivial)).bind fun instruments => ?_)
            (asks_ask (by exact trivial))
          split
          · exact .done _
          · exact (asks_ask (by exact trivial)).bind fun _ => .done _
        exact (hgate _).bind fun _ => .done _
      · exact .done _
  refine hstored.bind fun market => (asks_ask (by exact trivial)).bind fun now => ?_
  split
  · exact (Asks.done _).bind fun _ => .done _
  · exact .done _

/-- So does the computation of the terms. -/
theorem asks_terms (a : Account) (intent : TradeIntentRow) (leg : OrderLegRow) :
    Asks (terms a intent leg) := by
  refine (asks_compensationMarket a intent).bind fun market => ?_
  dsimp only
  refine (Asks.done _).bind fun quantity => ?_
  have hslippage : Asks (maximumSlippage intent.environment) := by
    refine (asks_ask (by exact trivial)).bind fun strategy => ?_
    split
    · exact .done _
    · split
      · exact .done _
      · exact (Asks.done _).bind fun _ => .done _
  have hguarded : ∀ limit, Asks (guardedLimit a leg limit) := by
    intro limit
    unfold guardedLimit
    split
    · exact (asks_guardedPerpLimit a leg limit).bind fun _ => .done _
    · exact .done _
  refine hslippage.bind fun slippage => (Asks.done _).bind fun limit => ?_
  exact (hguarded limit).bind fun _ => (Asks.done _).bind fun _ => .done _

/-- So does the look at the account. -/
theorem asks_observeAccount (a : Account) : Asks (observeAccount a) :=
  (asks_ask (by exact trivial)).bind fun _ => (asks_ask (by exact trivial)).bind fun _ =>
    (Asks.done _).bind fun _ => .done _

/-- What `_execute` has found out about an intent when it submits. -/
structure Findings where
  row : TradeIntentRow
  legs : List OrderLegRow
  leg : OrderLegRow
  account : Account
  terms : Terms
  snapshot : LiveSnapshot
  /-- The protection leg as it is prepared. -/
  prepared : OrderLegRow
  order : LimitIocOrder

variable (sc) in
/-- All checks of `_execute` pass: the intent has one protection leg, still
`created`; its market is there and fresh, its quantity can be sized and the top
of the book takes it; the account has its credentials and is safe; and the leg
is there to be prepared. -/
structure Passes (w : World) (intent : TradeIntentRow) (f : Findings) : Prop where
  current : Query.eval w.ledger (.tradeIntent intent.id) = some (f.row, f.legs)
  unique : f.legs.filter (·.leg.isCompensation) = [f.leg]
  created : f.leg.status = .created
  account : accountOf intent = .ok f.account
  market : (LiveCompensation.terms f.account intent f.leg).eval (replies sc w) = .ok f.terms
  secrets : sc (.loadSecrets f.account) = .ok true
  client : sc (.openClient f.account) = .ok ()
  safe : (observeAccount f.account).eval (replies sc w) = .ok f.snapshot
  prepare : ∃ row, (transact (.prepareCompensation intent.id f.terms.limitPrice f.terms.quantity
    f.terms.toleranceBase) w.now w.books).1 = .ok (some (row, [f.prepared], true))
  valid : (orderFor f.snapshot f.prepared).validate = .ok f.order

variable (sc) in
/-- The intent would be compensated. -/
def CanCompensate (w : World) (intent : TradeIntentRow) : Prop := ∃ f, Passes sc w intent f

/-- What comes after a program that places nothing more, its value skipped by
exceptions. -/
theorem places_bind_quiet {p : Worker ε α} {f : α → Worker ε β}
    (hf : ∀ a, (f a).Ensures isQuiet fun _ => True) :
    Places sc arrives (p >>= f) w ↔ Places sc arrives p w := by
  rw [Prog.bind_eq]
  refine places_resume_quiet fun r => ⟨fun _ => True, ?_⟩
  cases r with
  | ok a => exact hf a
  | error e => exact trivial

/-- Closing a client places nothing. -/
theorem places_finally {p : Worker Exc α} {a : Account} :
    Places sc arrives (Prog.finally' p (ask (.close a))) w ↔ Places sc arrives p w := by
  refine places_resume_quiet fun r => ⟨fun _ => True, ?_⟩
  refine ⟨trivial, fun x => ?_⟩
  cases x <;> exact trivial

/-- An operation on the tables places no order. -/
theorem quiet_perform (o : TradeOp) (a : α) :
    (perform o >>= fun _ => pure a : Worker Exc α).Ensures isQuiet fun _ => True :=
  Prog.Ensures.bind (R := fun _ => True) ⟨trivial, fun _ => trivial⟩ (fun _ _ => trivial)
    fun _ _ => trivial

/-- The order of a prepared leg is placed if it is a valid one. -/
theorem submitPrepared_places {a : Account} {snapshot : LiveSnapshot} {leg : OrderLegRow} :
    Places sc arrives (submitPrepared a snapshot leg) w
      ↔ ∃ order, (orderFor snapshot leg).validate = .ok order := by
  have hcatch : Places sc arrives (submitPrepared a snapshot leg) w
      ↔ Places sc arrives (do
          let submission ← submit a snapshot leg
          perform (.recordSubmission leg.id submission)
          return (true, 0) : Worker Exc (Bool × Nat)) w := by
    refine places_resume_quiet fun r => ⟨fun _ => True, ?_⟩
    cases r with
    | ok x => exact trivial
    | error e => exact quiet_perform _ _
  have hsubmit : ∀ order, Places sc arrives (ask (.placeLimitIoc a order)) w := by
    intro order
    exact List.cons_ne_self _ _
  rw [hcatch, places_bind_quiet fun _ => quiet_perform _ _]
  unfold submit
  rw [places_pyEval_bind]
  constructor
  · rintro ⟨order, horder, -⟩
    exact ⟨order, horder⟩
  · rintro ⟨order, horder⟩
    exact ⟨order, horder, hsubmit order⟩

/-- An operation on the tables first: the rest places an order in the books that
the operation leaves. -/
theorem places_perform_bind {o : TradeOp} {f : o.Result → Worker Exc β} :
    Places sc arrives (perform o >>= f) w
      ↔ ∃ a, (transact o w.now w.books).1 = .ok a ∧ Places sc arrives (f a) (w.traded o).2 := by
  have hplaced : (w.traded o).2.history.placed = w.history.placed := by
    show (w.history.wrote o).placed = w.history.placed
    cases o <;> rfl
  have hrun : (perform o).run (answer sc arrives) w
      = ((transact o w.now w.books).1, (w.traded o).2) := rfl
  unfold Places
  rw [Prog.run_bind, hrun, hplaced]
  cases (transact o w.now w.books).1 with
  | error e =>
      refine ⟨fun h => absurd hplaced h, ?_⟩
      rintro ⟨a, ha, -⟩
      cases ha
  | ok a =>
      constructor
      · intro h
        exact ⟨a, rfl, h⟩
      · rintro ⟨_, ha, h⟩
        cases ha
        exact h

/-- With a client open, the rest of the checks decide. -/
theorem executeWith_places {a : Account} {intent : TradeIntentRow} {t : Terms} :
    Places sc arrives (executeWith a intent t) w
      ↔ ∃ snapshot, (observeAccount a).eval (replies sc w) = .ok snapshot
        ∧ ∃ row prepared order, (transact (.prepareCompensation intent.id t.limitPrice t.quantity
            t.toleranceBase) w.now w.books).1 = .ok (some (row, [prepared], true))
          ∧ (orderFor snapshot prepared).validate = .ok order := by
  unfold executeWith
  rw [places_question_bind (asks_observeAccount a)]
  refine exists_congr fun snapshot => and_congr Iff.rfl ?_
  rw [places_perform_bind]
  constructor
  · rintro ⟨out, hout, h⟩
    split at h
    · next row prepared =>
        obtain ⟨order, horder⟩ := submitPrepared_places.mp h
        exact ⟨row, prepared, order, hout, horder⟩
    · exact absurd rfl h
  · rintro ⟨row, prepared, order, hout, horder⟩
    exact ⟨_, hout, submitPrepared_places.mpr ⟨order, horder⟩⟩

/-- The one protection leg of an intent is found, if there is exactly one. -/
theorem onlyLeg_ok (legs : List OrderLegRow) {leg : OrderLegRow} {e : Exc} :
    (match legs.filter (·.leg.isCompensation) with
      | [leg] => .ok leg
      | _ => .error e : Except Exc OrderLegRow) = .ok leg
      ↔ legs.filter (·.leg.isCompensation) = [leg] := by
  cases legs.filter (·.leg.isCompensation) with
  | nil => exact ⟨fun h => (by cases h), fun h => (by cases h)⟩
  | cons a rest =>
      cases rest with
      | nil =>
          rw [Except.ok.injEq, List.cons.injEq]
          exact ⟨fun h => ⟨h, rfl⟩, fun h => h.1⟩
      | cons b rest => exact ⟨fun h => (by cases h), fun h => (by cases h)⟩

/-- `_execute` places an order exactly if all its checks pass. -/
theorem execute_places_iff {intent : TradeIntentRow} :
    Places sc arrives (execute intent) w ↔ CanCompensate sc w intent := by
  unfold execute
  rw [places_look_bind, places_pyEval_bind]
  constructor
  · -- An order that is placed has passed every check on its way.
    rintro ⟨⟨row, legs⟩, hcurrent, h⟩
    rw [places_pyEval_bind] at h
    obtain ⟨leg, hleg, h⟩ := h
    split at h
    · exact absurd rfl h
    next hcreated =>
    rw [places_pyEval_bind] at h
    obtain ⟨a, ha, h⟩ := h
    rw [places_question_bind (asks_terms a intent leg)] at h
    obtain ⟨t, ht, h⟩ := h
    rw [places_ask_bind (by exact trivial)] at h
    obtain ⟨present, hsecrets, h⟩ := h
    rw [places_pyEval_bind] at h
    obtain ⟨u, hpresent, h⟩ := h
    rw [places_ask_bind (by exact trivial)] at h
    obtain ⟨v, hclient, h⟩ := h
    rw [places_finally] at h
    obtain ⟨snapshot, hsafe, prepared⟩ := executeWith_places.mp h
    obtain ⟨row', prepared, order, hprepare, hvalid⟩ := prepared
    obtain rfl : present = true := by simpa using raiseIf_eq_ok.mp hpresent
    exact ⟨⟨row, legs, leg, a, t, snapshot, prepared, order⟩, found_eq_ok.mp hcurrent,
      (onlyLeg_ok legs).mp hleg, not_not.mp hcreated, ha, ht, hsecrets, hclient, hsafe,
      ⟨row', hprepare⟩, hvalid⟩
  · -- The facts are handed to the checks one after the other.
    rintro ⟨f, hf⟩
    obtain ⟨row, hprepare⟩ := hf.prepare
    refine ⟨(f.row, f.legs), found_eq_ok.mpr hf.current, ?_⟩
    rw [places_pyEval_bind]
    refine ⟨f.leg, (onlyLeg_ok f.legs).mpr hf.unique, ?_⟩
    rw [if_neg (not_not.mpr hf.created), places_pyEval_bind]
    refine ⟨f.account, hf.account, ?_⟩
    rw [places_question_bind (asks_terms f.account intent f.leg)]
    refine ⟨f.terms, hf.market, ?_⟩
    rw [places_ask_bind (by exact trivial)]
    refine ⟨true, hf.secrets, ?_⟩
    rw [places_pyEval_bind]
    refine ⟨(), raiseIf_eq_ok.mpr (by simp), ?_⟩
    rw [places_ask_bind (by exact trivial)]
    refine ⟨(), hf.client, ?_⟩
    rw [places_finally]
    exact executeWith_places.mpr ⟨f.snapshot, hf.safe, row, f.prepared, f.order, hprepare, hf.valid⟩

/-! ## §3. The queue. -/

/-- The live intents waiting for their compensation, the oldest first. -/
def waiting (w : World) : List TradeIntentRow := candidates w.ledger.recoverableTradeIntents

/-- `run_once` only ever turns to the oldest intent. -/
theorem runOnce_places_iff {reader : Reader} (hp : w.control.Paused) :
    Places sc arrives (runOnce reader) w
      ↔ ∃ intent rest, waiting w = intent :: rest ∧ CanCompensate sc w intent := by
  unfold runOnce
  rw [places_look_bind]
  show Places sc arrives (if ¬w.control.Paused then _ else _) w ↔ _
  rw [if_neg (not_not.mpr hp), places_look_bind]
  rw [show candidates (Query.eval w.ledger .recoverableTradeIntents) = waiting w from rfl]
  cases hw : waiting w with
  | nil =>
      refine ⟨fun h => absurd rfl h, ?_⟩
      rintro ⟨intent, rest, h, -⟩
      cases h
  | cons intent rest =>
      show Places sc arrives (attempt (execute intent) >>= _) w ↔ _
      rw [places_bind_quiet fun r => ?_]
      · have hattempt : Places sc arrives (attempt (execute intent) : Worker Exc _) w
            ↔ Places sc arrives (execute intent) w :=
          places_resume_quiet fun r => ⟨fun _ => True, trivial⟩
        rw [hattempt, execute_places_iff]
        constructor
        · intro h
          exact ⟨intent, rest, rfl, h⟩
        · rintro ⟨i, r, h, hcan⟩
          cases h
          exact hcan
      · cases r <;> exact trivial

variable (sc) in
/-- No intent that could be compensated waits behind one that could not. -/
def HeadFirst (w : World) : Prop :=
  ∀ intent rest, waiting w = intent :: rest →
    CanCompensate sc w intent ∨ ∀ other ∈ rest, ¬CanCompensate sc w other

/-- That some waiting intent could be compensated is enough for an order to be
placed exactly if the oldest one is not in the way. -/
theorem compensation_not_blocked_iff {reader : Reader} (hp : w.control.Paused) :
    ((∃ intent ∈ waiting w, CanCompensate sc w intent) → Places sc arrives (runOnce reader) w)
      ↔ HeadFirst sc w := by
  rw [runOnce_places_iff hp]
  constructor
  · intro h intent rest hw
    by_cases hcan : CanCompensate sc w intent
    · exact .inl hcan
    · refine .inr fun other hother hother_can => hcan ?_
      obtain ⟨i, r, hw', hi⟩ := h ⟨other, hw ▸ List.mem_cons_of_mem _ hother, hother_can⟩
      rw [hw] at hw'
      cases hw'
      exact hi
  · rintro h ⟨other, hother, hcan⟩
    cases hw : waiting w with
    | nil =>
        rw [hw] at hother
        cases hother
    | cons intent rest =>
        refine ⟨intent, rest, rfl, ?_⟩
        rcases h intent rest hw with hhead | hnone
        · exact hhead
        · rw [hw] at hother
          rcases List.mem_cons.mp hother with rfl | hrest
          · exact hcan
          · exact absurd hcan (hnone other hrest)

end

namespace Sample

open Paired.Sample

/-- A second pair of the account. -/
def secondPlan : OpenPlan :=
  { openPlan with token := "fedcba9876543210fedcba9876543210", idempotencyKey := "second" }

/-- Two pairs whose spot legs are bought for a fee in the base asset each; `size`
perpetual units of the first are sold and five of the second. -/
def twoUneven (fee size : ℚ) : List (TradeOp × Int) := [
  (.createOpen openPlan, 0), (.createOpen secondPlan, 1),
  (.prepareSubmission 0 none, 1), (.prepareSubmission 3 none, 1),
  (.persistFills 1 [fill .spot .buy "s" 10 100 fee], 1),
  (.persistFills 2 [fill .perp .sell "p" size 100 0], 1),
  (.reconcileOrder 2 (canceled .perp .sell "bh-0123456789abcdef01234567-p" 10 false), 1),
  (.persistFills 4 [fill .spot .buy "s2" 10 100 fee], 1),
  (.persistFills 5 [fill .perp .sell "p2" 5 100 0], 1),
  (.reconcileOrder 5 (canceled .perp .sell "bh-fedcba9876543210fedcba98-p" 10 false), 1),
  (.settleOpen 0, 1), (.settleOpen 3, 1)]

/-- A deep market at 100. -/
def opportunity : LiveOpportunity where
  exchange := .binance
  baseAsset := "ABC"
  observedAt := 0
  spotBid := 100
  spotAsk := 100
  perpBid := 100
  perpAsk := 100
  quality := .healthy
  topBookNotional := 10000
  closeTopBookNotional := 10000

/-- Prices and quantities of hundredths. -/
def pair : InstrumentPair where
  exchange := .binance
  baseAsset := "ABC"
  spotSymbol := "ABCUSDT"
  perpSymbol := "ABCUSDT"
  spotPriceIncrement := 1 / 100
  spotQuantityIncrement := 1 / 100
  spotMinQuantity := 1 / 100
  spotMinNotional := 1
  perpPriceIncrement := 1 / 100
  perpQuantityIncrement := 1 / 100
  perpMinQuantity := 1 / 100
  perpMinNotional := 1
  perpContractSize := 1

/-- An account with nothing to complain about, and that market. -/
def deep : (o : OutOp) → Except Exc o.Answer
  | .latestOpportunities _ => .ok [opportunity]
  | .instrumentPairs _ => .ok [pair]
  | o => Reconciliation.Sample.outside Reconciliation.Sample.calm o

/-- The tables before a pass. -/
def before (b : Books) : World := { Reconciliation.Sample.empty with books := b }

end Sample

/-- Both pairs could be compensated, and the older one is. -/
theorem compensation_not_blocked_sample :
    ∃ b : Books, Paired.Reachable b
      ∧ (∃ intent ∈ waiting (Sample.before b), CanCompensate Sample.deep (Sample.before b) intent)
      ∧ (((∃ intent ∈ waiting (Sample.before b), CanCompensate Sample.deep (Sample.before b) intent)
          → Places Sample.deep true (runOnce .compensator) (Sample.before b))
        ↔ HeadFirst Sample.deep (Sample.before b)) := by
  obtain ⟨b, hb, hpaused, intent, hwaiting, hplaces⟩ := Books.exists_of_play
    (fun b => (Sample.before b).control.Paused ∧ ∃ intent ∈ waiting (Sample.before b),
      Places Sample.deep true (execute intent) (Sample.before b))
    (Sample.twoUneven 0 5) (by decide +kernel)
  exact ⟨b, hb, ⟨intent, hwaiting, execute_places_iff.mp hplaces⟩,
    compensation_not_blocked_iff hpaused⟩

/-- The older pair is out by less than a step of the market and fails at every
attempt; the younger one, which could be compensated, is never turned to. -/
theorem compensation_blocked :
    ∃ b : Books, Paired.Reachable b ∧ (Sample.before b).control.Paused
      ∧ (∃ intent ∈ waiting (Sample.before b), CanCompensate Sample.deep (Sample.before b) intent)
      ∧ ¬Places Sample.deep true (runOnce .compensator) (Sample.before b) := by
  obtain ⟨b, hb, hpaused, hnot, intent, hwaiting, hplaces⟩ := Books.exists_of_play
    (fun b => (Sample.before b).control.Paused
      ∧ ¬Places Sample.deep true (runOnce .compensator) (Sample.before b)
      ∧ ∃ intent ∈ waiting (Sample.before b),
          Places Sample.deep true (execute intent) (Sample.before b))
    (Sample.twoUneven (6 / 1000) (999 / 100)) (by decide +kernel)
  exact ⟨b, hb, hpaused, ⟨intent, hwaiting, execute_places_iff.mp hplaces⟩, hnot⟩

end BasisHawk.Reconciliation.LiveCompensation
