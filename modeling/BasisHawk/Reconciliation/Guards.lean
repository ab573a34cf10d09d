/-
  BasisHawk.Reconciliation.Guards
  ───────────────────────────────
  What holds whenever the reconciliation worker performs an operation.

  `Pre` gives each operation its guard, in terms of the world at that moment.
  `GuardedPass` walks through `run_once` once and for all; a property of runs
  is then proved from the guards, without looking at the program again.

  Main results:
    • `ForeignStep.leg`, `ForeignStep.owned` — the other actors leave the legs
      of an account alone,
    • `preserves` — the guarded operations keep `Sound`.
-/
import BasisHawk.Reconciliation.Worker

namespace BasisHawk.Reconciliation

open Domain Lib Accounts Paired

/-! ## §1. The guards. -/

/-- The leg belongs to an intent of the account. -/
def Owned (a : Account) (l : Ledger) (leg : OrderLegRow) : Prop :=
  ∃ i ∈ l.intents, i.id = leg.tradeIntentId ∧ a.owns i

/-- The tables are reached by transactions, and a leg of an account that was
never prepared has no order. -/
structure Sound (w : World) : Prop where
  reachable : Paired.Reachable w.books
  created : ∀ leg ∈ w.ledger.legs, ∀ a, Owned a w.ledger leg → leg.status = .created →
    leg.exchangeOrderId = none

/-- The executors are at work. -/
def Stage.isExecuting : Stage → Prop
  | .preceding | .finishing _ => True
  | _ => False

/-- The account is being reconciled and its positions are still to be compared. -/
def Pass.Reconciles (p : Pass) (a : Account) : Prop :=
  (∃ paused, p.stage = .checking paused) ∧ p.account = some a ∧ a ∉ p.agreed

/-- The guard of a transaction that brings a leg up to date. -/
def LegGuard (legId : Nat) (w : World) : Prop :=
  ∃ a, w.pass.Reconciles a ∧ ∃ leg ∈ w.ledger.legs, leg.id = legId ∧ Owned a w.ledger leg
    ∧ leg.status ≠ .created

/-- The trades of a leg are stored, or it has no order. -/
def IsFetched (h : Hand) (leg : OrderLegRow) : Prop :=
  leg.id ∈ h.fetched ∨ leg.exchangeOrderId = none

/-- The guard of a settlement. -/
def SettleGuard (intentId : Nat) (w : World) : Prop :=
  ∃ a, w.pass.Reconciles a ∧ (∀ i ∈ w.ledger.intents, i.id = intentId → a.owns i)
    ∧ ∀ leg ∈ w.ledger.legs, leg.tradeIntentId = intentId → leg.leg.isCompensation = false →
      IsFetched w.hand leg

/-- The guard of `set_execution_control`. -/
def ControlGuard (state : ControlState) (p : Pass) : Prop :=
  match state with
  | .reconciling => p.stage = .starting
  | .blocked => p.stage = .deciding ∨ p.stage = .vacant
  | .ready => p.stage = .deciding ∧ p.listed ≠ []
      ∧ ∀ a ∈ p.listed, a ∈ p.agreed ∧ a ∈ p.streaming
  | .paused => False

/-- The guard of every operation. -/
def Pre : Op → World → Prop
  | .trade (.reconcileOrder legId _), w | .trade (.persistFills legId _), w
  | .trade (.markUnknownNotFound legId), w => LegGuard legId w
  | .trade (.settleOpen intentId), w | .trade (.settleClose intentId), w => SettleGuard intentId w
  | .trade o, w => isForeign o = false ∧ w.pass.stage.isExecuting
  | .setControl state _, w => ControlGuard state w.pass
  | .out (.placeLimitIoc _ order), w => order.clientOrderId ∈ w.hand.prepared
  | _, _ => True

/-- What a reconciliation or an executor may do to a trade, by the stage of the
pass. -/
theorem pre_trade {o : TradeOp} {w : World} (h : Pre (.trade o) w) :
    isForeign o = false ∧ ((w.pass.stage.isExecuting ∧ (match o with
        | .reconcileOrder .. | .persistFills .. | .markUnknownNotFound _ | .settleOpen _
        | .settleClose _ => False
        | _ => True))
      ∨ ∃ a, w.pass.Reconciles a) := by
  cases o <;> first
    | exact ⟨h.1, .inl ⟨h.2, trivial⟩⟩
    | (obtain ⟨a, ha, -⟩ := h; exact ⟨rfl, .inr ⟨a, ha⟩⟩)

/-! ## §2. Assertions that survive the other actors. -/

/-- What another actor does to the tables. -/
def ForeignStep (l l' : Ledger) : Prop :=
  (∃ o, isForeign o ∧ Effect o l l') ∨ ∃ c, l' = { l with control := c }

section

variable {l l' : Ledger} {seen : List PairedPositionRow} {a : Account} {row : OrderLegRow}

/-- A row of a live intent belongs to no paper intent. -/
theorem not_onPaper (hw : WellFormed seen l) (h : Owned a l row) :
    ¬OnPaper l row.tradeIntentId := by
  rintro ⟨j, hj, hid, hpaper⟩
  obtain ⟨i, hi, hiid, howns⟩ := h
  have hij : i = j := hw.intents_unique.eq hi hj (hiid.trans hid.symm)
  rw [← hij, howns.2] at hpaper
  exact a.backed hpaper

/-- The operations of other components touch the legs of paper intents only. -/
theorem foreign_move {o : TradeOp} (ho : isForeign o) {old new : OrderLegRow}
    (h : LegMove o l old new) : OnPaper l old.tradeIntentId := by
  cases o with
  | createOpen plan => cases h
  | createClose plan => cases h
  | paperOpenFills => exact h.1
  | paperCompensation => exact h.1
  | paperCloseFills => exact h.1
  | paperCloseCompensation => exact h.1
  | _ => cases ho

/-- A transaction keeps the account of a leg. -/
theorem Owned.effect {o : TradeOp} (he : Effect o l l') {new : OrderLegRow}
    (hintent : new.tradeIntentId = row.tradeIntentId) (h : Owned a l row) : Owned a l' new := by
  obtain ⟨i, hi, hid, howns⟩ := h
  obtain ⟨i', hi', hsame, -⟩ := he.intent_forth hi
  refine ⟨i', hi', hsame.id.trans (hid.trans hintent.symm), ?_⟩
  exact ⟨hsame.exchange.trans howns.1, hsame.environment.trans howns.2⟩

/-- The other actors leave the intents of an account alone. -/
theorem ForeignStep.intent (h : ForeignStep l l') {intentId : Nat}
    (hi : ∃ i ∈ l.intents, i.id = intentId ∧ a.owns i) :
    ∃ i ∈ l'.intents, i.id = intentId ∧ a.owns i := by
  rcases h with ⟨o, -, he⟩ | ⟨c, rfl⟩
  · obtain ⟨i, hi, hid, howns⟩ := hi
    obtain ⟨i', hi', hsame, -⟩ := he.intent_forth hi
    exact ⟨i', hi', hsame.id.trans hid, hsame.exchange.trans howns.1,
      hsame.environment.trans howns.2⟩
  · exact hi

/-- So a row that is the worker's own stays so. -/
theorem ForeignStep.owned (h : ForeignStep l l') (ho : Owned a l row) : Owned a l' row :=
  h.intent ho

/-- The other actors leave the legs of an account alone. -/
theorem ForeignStep.leg (hw : WellFormed seen l) (h : ForeignStep l l') (hrow : row ∈ l.legs)
    (ho : Owned a l row) : row ∈ l'.legs := by
  rcases h with ⟨o, hforeign, he⟩ | ⟨c, rfl⟩
  · obtain ⟨new, hnew, -, hsame | hmove⟩ := he.leg_forth hrow
    · rw [← hsame]
      exact hnew
    · exact absurd (foreign_move hforeign hmove) (not_onPaper hw ho)
  · exact hrow

/-- A leg that shows up belongs to a new intent, or is on paper. -/
theorem ForeignStep.leg_back (hw : WellFormed seen l) (h : ForeignStep l l') (hrow : row ∈ l'.legs)
    {i : TradeIntentRow} (hi : i ∈ l.intents) (hid : i.id = row.tradeIntentId) (howns : a.owns i) :
    row ∈ l.legs := by
  have hback : Owned a l row := ⟨i, hi, hid, howns⟩
  rcases h with ⟨o, hforeign, he⟩ | ⟨c, rfl⟩
  · rcases he.leg_back hrow with ⟨old, hold, hsame, heq | hmove⟩ | ⟨-, -, -, -, hadds⟩
    · rw [heq]
      exact hold
    · have hpaper := foreign_move hforeign hmove
      rw [← hsame.intent] at hpaper
      exact absurd hpaper (not_onPaper hw hback)
    · -- A planned leg belongs to an intent that is not there yet.
      have hbelow : i.id < l.nextId := hw.intents_below i hi
      cases o with
      | createOpen plan =>
          have hnew : row.tradeIntentId = l.nextId := hadds.2
          omega
      | createClose plan =>
          have hnew : row.tradeIntentId = l.nextId := hadds.2
          omega
      | paperOpenFills => exact absurd hadds (not_onPaper hw hback)
      | paperCloseFills => exact absurd hadds (not_onPaper hw hback)
      | paperCompensation => cases hadds
      | paperCloseCompensation => cases hadds
      | _ => cases hforeign
  · exact hrow

end

/-! ## §3. The invariant. -/

theorem Sound.wellFormed {w : World} (h : Sound w) : WellFormed w.books.seen w.ledger :=
  h.reachable.wellFormed

/-- A committed transaction of any kind has its effect. -/
theorem transact_effect {o : TradeOp} {now : Int} {b b' : Books} {r : Except Exc o.Result}
    (hb : Paired.Reachable b) (h : transact o now b = (r, b')) : Effect o b.ledger b'.ledger := by
  rcases transact_cases h with ⟨a, l, htx, -, rfl⟩ | ⟨e, -, -, rfl⟩
  · exact TradeOp.effect o hb.wellFormed htx
  · exact .refl

/-- What others do is such a step. -/
theorem Act.foreignStep {act : Act} {w : World} (hb : Paired.Reachable w.books)
    (hp : act.isPossible w) : ForeignStep w.ledger (act.apply w).ledger := by
  cases act with
  | clock now => exact .inr ⟨w.ledger.control, rfl⟩
  | control op => exact .inr ⟨_, rfl⟩
  | trade o => exact .inl ⟨o, hp.1, transact_effect hb rfl⟩

/-- And leads from one reachable book to another. -/
theorem Act.reachable {act : Act} {w : World} (hb : Paired.Reachable w.books)
    (hp : act.isPossible w) : Paired.Reachable (act.apply w).books := by
  cases act with
  | clock now => exact hb
  | control op => exact writeControl_reachable hb ControlOp.apply_eq_none
  | trade o => exact transact_reachable rfl hb hp.2

/-- The owner of a row after a transaction was its owner before. -/
theorem Owned.back {o : TradeOp} {l l' : Ledger} {seen : List PairedPositionRow} {a : Account}
    {old new : OrderLegRow} (hw : WellFormed seen l) (he : Effect o l l') (hold : old ∈ l.legs)
    (hsame : new.SameOrder old) (h : Owned a l' new) : Owned a l old := by
  obtain ⟨i', hi', hid, howns⟩ := h
  rcases he.intent_back hi' with ⟨i, hi, hsame', -⟩ | ⟨-, hnew⟩
  · refine ⟨i, hi, ?_, hsame'.exchange.symm.trans howns.1, hsame'.environment.symm.trans howns.2⟩
    rw [← hsame'.id, hid, hsame.intent]
  · obtain ⟨i, hi, hfits⟩ := hw.leg_fits old hold
    have hbelow : i.id < l.nextId := hw.intents_below i hi
    have hi : old.tradeIntentId = i.id := hfits.intent
    rw [hid, hsame.intent] at hnew
    omega

/-- No write of the live services makes a leg `created`. -/
theorem created_of_move {o : TradeOp} {l : Ledger} {old new : OrderLegRow}
    (h : LegMove o l old new) (ho : isForeign o = false) (hs : new.status = .created) :
    old.status = .created
      ∧ ((∃ fills, o = .persistFills old.id fills) ∨ ∃ order, o = .reconcileOrder old.id order) := by
  cases o with
  | prepareSubmission =>
      obtain ⟨-, -, -, price, hq, rfl⟩ := h
      cases hs
  | prepareCompensation =>
      obtain ⟨-, -, -, quantity, tolerance, limit, hq, ht, rfl⟩ := h
      cases hs
  | recordSubmission =>
      obtain ⟨-, -, rfl⟩ := h
      cases hs
  | markSubmissionUnknown =>
      obtain ⟨-, -, rfl⟩ := h
      cases hs
  | markSubmissionRejected =>
      obtain ⟨-, -, rfl⟩ := h
      cases hs
  | markUnknownNotFound =>
      obtain ⟨-, -, -, rfl⟩ := h
      cases hs
  -- Only what is read back from the exchange may leave a leg `created`.
  | persistFills legId fills =>
      obtain ⟨rfl, link, rows, -, rfl⟩ := h
      refine ⟨?_, .inl ⟨fills, rfl⟩⟩
      simp only [Ledger.legByFills, Ledger.statusByFills] at hs
      split at hs
      · cases hs
      · split at hs
        · cases hs
        · exact hs
  | reconcileOrder legId order =>
      obtain ⟨rfl, -, rfl⟩ := h
      refine ⟨?_, .inr ⟨order, rfl⟩⟩
      simp only [Ledger.statusByLookup] at hs
      split at hs
      · cases hs
      · split at hs
        · cases hs
        · split at hs
          · cases hs
          · exact hs
  | paperOpenFills => cases ho
  | paperCompensation => cases ho
  | paperCloseFills => cases ho
  | paperCloseCompensation => cases ho
  | _ => cases h

/-- So the world stays sound. -/
theorem Sound.act {act : Act} {w : World} (h : Sound w) (hp : act.isPossible w) :
    Sound (act.apply w) := by
  have hw := h.wellFormed
  refine ⟨Act.reachable h.reachable hp, fun leg hleg a howned hstatus => ?_⟩
  rcases Act.foreignStep h.reachable hp with ⟨o, ho, he⟩ | ⟨c, hc⟩
  · rcases he.leg_back hleg with ⟨old, hold, hsame, rfl | hmove⟩ | ⟨-, hnone, -⟩
    · exact h.created leg hold a (howned.back hw he hold hsame) hstatus
    · exact absurd (foreign_move ho hmove) (not_onPaper hw (howned.back hw he hold hsame))
    · exact hnone
  · rw [hc] at hleg howned
    exact h.created leg hleg a howned hstatus

/-- The guard of a transaction that may leave a leg `created` says it is not. -/
theorem Sound.trade {o : TradeOp} {w w' : World} {r : Except Exc o.Result} (h : Sound w)
    (hpre : Pre (.trade o) w) (he : w.traded o = (r, w')) : Sound w' := by
  have hw := h.wellFormed
  have hforeign := (pre_trade hpre).1
  have heffect : Effect o w.ledger w'.ledger := by
    cases he
    exact transact_effect h.reachable rfl
  refine ⟨?_, fun leg hleg a howned hstatus => ?_⟩
  · cases he
    exact transact_reachable rfl h.reachable (isInformed_of_not_foreign hforeign _)
  · rcases heffect.leg_back hleg with ⟨old, hold, hsame, rfl | hmove⟩ | ⟨-, hnone, -⟩
    · exact h.created leg hold a (howned.back hw heffect hold hsame) hstatus
    · obtain ⟨hold_created, hkind⟩ := created_of_move hmove hforeign hstatus
      have hguard : LegGuard old.id w := by
        rcases hkind with ⟨fills, rfl⟩ | ⟨order, rfl⟩ <;> exact hpre
      obtain ⟨b, -, row, hrow, hid, -, hne⟩ := hguard
      have hrow_old : row = old := hw.legs_unique.eq hrow hold hid
      rw [hrow_old] at hne
      exact absurd hold_created hne
    · exact hnone

/-- Every operation but a transaction or a write of the control row leaves the
tables alone. -/
theorem exec_out {o : OutOp} {w w' : World} {r : Rep (.out o)} (he : exec (.out o) w r w') :
    w'.books = w.books := by
  cases o with
  | placeLimitIoc a order =>
      obtain ⟨arrives, rfl⟩ := he
      rfl
  | _ =>
      rw [show w' = { w with pass := w.pass.heard _ r, hand := w.hand.heard _ r } from he]

/-- A world with the same books is as sound as this one. -/
theorem Sound.of_books {w w' : World} (h : Sound w) (hb : w'.books = w.books) : Sound w' := by
  refine ⟨by rw [hb]; exact h.reachable, ?_⟩
  unfold World.ledger
  rw [hb]
  exact h.created

/-- Every operation whose guard holds keeps the world sound. -/
theorem preserves : system.Preserves Sound Pre where
  act := by
    rintro act w w' ⟨hp, rfl⟩ h
    exact h.act hp
  call := by
    intro o w r w' he hpre h
    cases o with
    | trade o => exact h.trade hpre he
    | query q =>
        obtain ⟨-, rfl⟩ := he
        exact ⟨h.reachable, h.created⟩
    | setControl state reason =>
        rw [show w' = _ from he]
        exact ⟨writeControl_reachable h.reachable fun hc => (by cases hc), h.created⟩
    | out o => exact h.of_books (exec_out he)
  idle := fun w h => ⟨h.reachable, h.created⟩

/-- And the first world is. -/
theorem sound_of_initial {w : World} (h : Initial w) : Sound w := by
  refine ⟨?_, fun leg hleg => ?_⟩
  · have hbooks : w.books = ⟨w.ledger, []⟩ := by
      rw [← h.seen]
    rw [hbooks]
    exact .init h.tables
  · rw [h.tables.legs] at hleg
    cases hleg

end BasisHawk.Reconciliation
