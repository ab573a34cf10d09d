/-
  BasisHawk.Paired.Origins
  ────────────────────────
  What a position was opened by.

  A position row names its opening intent and copies the account of it.  No
  transaction changes these columns, and none deletes an intent or a leg.

  Main results:
    • `TradeOp.fromOpenings` — where the positions after a transaction come from,
    • `Reachable.opening` — the opening intent of a position is stored at any
      time, with its perpetual leg.
-/
import BasisHawk.Paired.Reservation

namespace BasisHawk.Paired

open Domain Lib

/-! ## §1. Openings. -/

/-- The columns of a position that no transaction changes. -/
structure PairedPositionRow.SamePosition (new old : PairedPositionRow) : Prop where
  openingIntentId : new.openingIntentId = old.openingIntentId
  exchange : new.exchange = old.exchange
  environment : new.environment = old.environment

/-- The opening intent of a position is stored, with its perpetual leg. -/
def HasOpening (l : Ledger) (p : PairedPositionRow) : Prop :=
  ∃ i ∈ l.intents, i.id = p.openingIntentId ∧ i.exchange = p.exchange
    ∧ i.environment = p.environment
    ∧ ∃ o ∈ l.legs, o.tradeIntentId = i.id ∧ o.leg = .primary .perp

/-- Every position was there before, or is opened by a stored intent. -/
def FromOpenings (l l' : Ledger) : Prop :=
  ∀ p ∈ l'.positions, (∃ old ∈ l.positions, p.SamePosition old) ∨ HasOpening l p

variable {seen : List PairedPositionRow} {l l' : Ledger} {now : Int}

theorem PairedPositionRow.SamePosition.refl (p : PairedPositionRow) : p.SamePosition p :=
  ⟨rfl, rfl, rfl⟩

/-- Positions that are not touched come from where they came. -/
theorem FromOpenings.of_eq (h : l'.positions = l.positions) : FromOpenings l l' := by
  intro p hp
  rw [h] at hp
  exact .inl ⟨p, hp, .refl p⟩

/-- One position is rewritten. -/
theorem FromOpenings.put {p new : PairedPositionRow} (hp : p ∈ l.positions)
    (h : l'.positions = Table.put l.positions new) (hnew : new.SamePosition p) :
    FromOpenings l l' := by
  intro q hq
  rw [h] at hq
  rcases Table.mem_put.mp hq with ⟨heq, -⟩ | ⟨hq, -⟩
  · exact .inl ⟨p, hp, heq ▸ hnew⟩
  · exact .inl ⟨q, hq, .refl q⟩

/-- One position is opened. -/
theorem FromOpenings.open {i : TradeIntentRow} {perp : OrderLegRow} {q s p cost : ℚ} {id : Nat}
    (hi : i ∈ l.intents)
    (hperp : perp ∈ l.legs ∧ perp.tradeIntentId = i.id ∧ perp.leg = .primary .perp)
    (h : l'.positions = l.positions ++ [Ledger.openedPosition i q s p cost id now]) :
    FromOpenings l l' := by
  intro x hx
  rw [h] at hx
  rcases List.mem_append.mp hx with hx | hx
  · exact .inl ⟨x, hx, .refl x⟩
  · rw [List.mem_singleton] at hx
    subst hx
    exact .inr ⟨i, hi, rfl, rfl, rfl, perp, hperp⟩

/-- An opening that was stored still is. -/
theorem HasOpening.effect {o : TradeOp} {p new : PairedPositionRow} (h : HasOpening l p)
    (heffect : Effect o l l') (hnew : new.SamePosition p) : HasOpening l' new := by
  obtain ⟨i, hi, hid, hexchange, henv, leg, hleg, hleg_intent, hname⟩ := h
  obtain ⟨i', hi', hsame, -⟩ := heffect.intent_forth hi
  obtain ⟨leg', hleg', hsame_leg, -⟩ := heffect.leg_forth hleg
  refine ⟨i', hi', ?_, ?_, ?_, leg', hleg', ?_, ?_⟩
  · rw [hsame.id, hid, hnew.openingIntentId]
  · rw [hsame.exchange, hexchange, hnew.exchange]
  · rw [hsame.environment, henv, hnew.environment]
  · rw [hsame_leg.intent, hleg_intent, hsame.id]
  · rw [hsame_leg.leg, hname]

/-! ## §2. What one transaction does to the positions. -/

/-- A close leaves a position what it is: its exchange, its asset and where it
came from. -/
theorem afterClose_same (p : PairedPositionRow) (o : CloseOutcome) :
    (p.afterClose o now).SamePosition p := by
  unfold PairedPositionRow.afterClose
  dsimp only
  split <;> exact ⟨rfl, rfl, rfl⟩

/-- So does a paper close. -/
theorem paperAfterClose_same (p : PairedPositionRow) (o : CloseOutcome) :
    (Ledger.paperAfterClose p o now).SamePosition p := by
  unfold Ledger.paperAfterClose
  dsimp only
  split <;> exact ⟨rfl, rfl, rfl⟩

/-- The perpetual leg of a layout. -/
theorem layout_perp_leg {intentId : Nat} {y : Layout} (h : l.layout intentId = .ok y) :
    y.perp ∈ l.legs ∧ y.perp.tradeIntentId = intentId ∧ y.perp.leg = .primary .perp := by
  obtain ⟨hmem, hintent⟩ := mem_layout h (show y.perp ∈ y.legs by simp [Layout.legs])
  exact ⟨hmem, hintent, (layout_legs h).2.1⟩

/-- A close that is created reserves a position and opens none. -/
theorem createPaperCloseIntent_fromOpenings {plan : ClosePlan} {r : TradeIntentRow × Bool}
    (h : Ledger.createPaperCloseIntent plan now l = .ok (r, l')) : FromOpenings l l' := by
  rcases Ledger.createPaperCloseIntent_ok h with ⟨rfl, -⟩ | ⟨position, hposition, -, -, -, rfl⟩
  · exact .of_eq rfl
  · exact .put (Table.find?_some hposition).1 rfl ⟨rfl, rfl, rfl⟩

/-- An opening that is created opens no position yet. -/
theorem createTradeIntent_fromOpenings {plan : OpenPlan} {r : TradeIntentRow × Bool}
    (h : Ledger.createTradeIntent plan now l = .ok (r, l')) : FromOpenings l l' := by
  rcases Ledger.createTradeIntent_ok h with ⟨rfl, -⟩ | ⟨-, -, rfl⟩
  · exact .of_eq rfl
  · exact .of_eq rfl

/-- A failed intent lets its position go and opens none. -/
theorem failPlanned_fromOpenings {intentId : Nat} {code : FailureCode} {r : Bool}
    (h : Ledger.failPlanned intentId code l = .ok (r, l')) : FromOpenings l l' := by
  rcases Ledger.failPlanned_ok h with rfl | ⟨i, -, -, ⟨p, hp, -, rfl⟩ | ⟨rfl, -⟩⟩
  · exact .of_eq rfl
  · exact .put (positionOf_some hp).1 rfl ⟨rfl, rfl, rfl⟩
  · exact .of_eq rfl

/-- Nor does a failed preflight open one. -/
theorem recordLivePreflightFailure_fromOpenings {intentId : Nat} {exchange : Exchange}
    {code : FailureCode} {u : Unit}
    (h : Ledger.recordLivePreflightFailure intentId exchange code l = .ok (u, l')) :
    FromOpenings l l' := by
  obtain ⟨reason, rfl | ⟨i, -, -, rfl⟩⟩ := Ledger.recordLivePreflightFailure_ok h
  · exact .of_eq rfl
  · exact .of_eq rfl

/-- A position that a settlement opens names the opening that it settles. -/
theorem settleLiveOpen_fromOpenings {intentId : Nat} {r : Option Ledger.Settled}
    (h : Ledger.settleLiveOpen intentId now l = .ok (r, l')) : FromOpenings l l' := by
  rcases Ledger.settleLiveOpen_ok h with ⟨rfl, -⟩ | ⟨i, y, verdict, settled, hi, -, -, hy,
    -, happly, -⟩
  · exact .of_eq rfl
  cases verdict with
  | protect excess base =>
      obtain ⟨⟨i', l₁⟩, hprotect, happly⟩ := bind_eq_ok.mp happly
      cases happly
      obtain ⟨leg, -, -, rfl⟩ := Ledger.protect_ok hprotect
      exact .of_eq rfl
  | hedge quantity s p cost =>
      cases happly
      exact .open (Table.find?_some hi).1 (layout_perp_leg hy) rfl
  | _ =>
      cases happly
      exact .of_eq rfl

theorem settleLiveClose_fromOpenings {intentId : Nat} {r : Option Ledger.Settled}
    (h : Ledger.settleLiveClose intentId now l = .ok (r, l')) : FromOpenings l l' := by
  rcases Ledger.settleLiveClose_ok h with ⟨rfl, -⟩ | ⟨i, p, y, verdict, settled, -, hposition,
    -, -, -, -, happly, -⟩
  · exact .of_eq rfl
  have hp := (positionOf_some hposition).1
  cases verdict with
  | noFills =>
      cases happly
      exact .put hp rfl ⟨rfl, rfl, rfl⟩
  | protect excess base =>
      obtain ⟨⟨i', l₁⟩, hprotect, happly⟩ := bind_eq_ok.mp happly
      cases happly
      obtain ⟨leg, -, -, rfl⟩ := Ledger.protect_ok hprotect
      exact .of_eq rfl
  | settle o =>
      obtain ⟨l₁, hrow, happly⟩ := bind_eq_ok.mp happly
      obtain ⟨-, -, -, -, row, -, rfl⟩ := Ledger.insertRealization_ok hrow
      cases happly
      exact .put hp rfl (afterClose_same p o)
  | _ =>
      cases happly
      exact .of_eq rfl

/-! ### Paper executions. -/

theorem protectPaper_fromOpenings {l₁ : Ledger} {i i' : TradeIntentRow} {excess : OrderLegRow}
    {quantity : ℚ} {hq : 0 < quantity}
    (h : l₁.protectPaper i excess quantity now hq = .ok (i', l'))
    (hpositions : l₁.positions = l.positions) : FromOpenings l l' := by
  obtain ⟨leg, -, -, rfl⟩ := Ledger.protectPaper_ok h
  exact .of_eq hpositions

/-- Booking a paper close changes a position that is there. -/
theorem applyPaperCloseOutcome_fromOpenings {l₁ : Ledger} {i : TradeIntentRow}
    {p : PairedPositionRow} {spot perp : OrderLegRow} {fee : ℚ} {settled : Ledger.Settled}
    (h : l₁.applyPaperCloseOutcome i p spot perp fee now = .ok (settled, l'))
    (hpositions : l₁.positions = l.positions) (hp : p ∈ l.positions) : FromOpenings l l' := by
  obtain ⟨o, row, -, -, rfl⟩ := Ledger.applyPaperCloseOutcome_ok h
  have hput : Table.put l₁.positions (Ledger.paperAfterClose p o now)
      = Table.put l.positions (Ledger.paperAfterClose p o now) := by
    rw [hpositions]
  exact .put hp hput (paperAfterClose_same p o)

/-- The position of a paper opening names the opening, whatever legs and fills
were written before. -/
theorem PaperOpened.fromOpenings {l₁ : Ledger} {i : TradeIntentRow} {spot perp : OrderLegRow}
    (h : Ledger.PaperOpened i spot perp now l₁ l') (hpositions : l₁.positions = l.positions)
    (hi : i ∈ l.intents) (hlegs : l.paperLegs i.id = some (spot, perp)) : FromOpenings l l' := by
  cases h with
  | hedged hq => exact .open hi (Ledger.paperLegs_ok hlegs).2 (congrArg (· ++ _) hpositions)
  | failed code => exact .of_eq hpositions

/-- Recording the fills of a paper opening opens its position or none. -/
theorem recordPaperOpenFills_fromOpenings {intentId : Nat} {spotFill perpFill : ℚ}
    {r : Option Ledger.Settled}
    (h : Ledger.recordPaperOpenFills intentId spotFill perpFill now l = .ok (r, l')) :
    FromOpenings l l' := by
  rcases Ledger.recordPaperOpenFills_ok h with
    rfl | ⟨i, spot, perp, hfilled, hfind, -, ⟨_, _, _, _, -, hprotect⟩ | hend⟩
  · exact .of_eq rfl
  · exact protectPaper_fromOpenings hprotect rfl
  · exact PaperOpened.fromOpenings hend rfl (Table.find?_some hfind).1 hfilled.legs

/-- So does the one that a paper compensation leaves. -/
theorem executePaperCompensation_fromOpenings {intentId : Nat} {succeeds : Bool}
    {r : Option Ledger.Settled}
    (h : Ledger.executePaperCompensation intentId succeeds now l = .ok (r, l')) :
    FromOpenings l l' := by
  rcases Ledger.executePaperCompensation_ok h with
    rfl | ⟨i, spot, perp, c, hfind, -, hlegs, -, rfl | hend⟩
  · exact .of_eq rfl
  · exact .of_eq rfl
  · exact PaperOpened.fromOpenings hend rfl (Table.find?_some hfind).1 hlegs

/-- A paper close opens no position. -/
theorem recordPaperCloseFills_fromOpenings {intentId : Nat} {spotFill perpFill : ℚ}
    {r : Option Ledger.Settled}
    (h : Ledger.recordPaperCloseFills intentId spotFill perpFill now l = .ok (r, l')) :
    FromOpenings l l' := by
  rcases Ledger.recordPaperCloseFills_ok h with
    rfl | ⟨i, p, spot, perp, hfilled, -, hclosing, ⟨_, _, _, _, -, hprotect⟩ | ⟨_, _, _, _, happly⟩⟩
  · exact .of_eq rfl
  · exact protectPaper_fromOpenings hprotect rfl
  · obtain ⟨-, -, -, -, hposition⟩ := hclosing
    exact applyPaperCloseOutcome_fromOpenings happly rfl (positionOf_some hposition).1

/-- Nor does its compensation. -/
theorem executePaperCloseCompensation_fromOpenings {intentId : Nat} {succeeds : Bool}
    {r : Option Ledger.Settled}
    (h : Ledger.executePaperCloseCompensation intentId succeeds now l = .ok (r, l')) :
    FromOpenings l l' := by
  rcases Ledger.executePaperCloseCompensation_ok h with
    rfl | ⟨i, p, c, -, hclosing, -, rfl | ⟨_, _, _, _, happly⟩⟩
  · exact .of_eq rfl
  · exact .of_eq rfl
  · obtain ⟨-, -, -, -, hposition⟩ := hclosing
    exact applyPaperCloseOutcome_fromOpenings happly rfl (positionOf_some hposition).1

/-- Where the positions after a committed transaction come from. -/
theorem TradeOp.fromOpenings (o : TradeOp) {r : o.Result} (h : o.tx now l = .ok (r, l')) :
    FromOpenings l l' := by
  cases o with
  | createOpen plan => exact createTradeIntent_fromOpenings h
  | createClose plan => exact createPaperCloseIntent_fromOpenings h
  | prepareSubmission intentId adjusted =>
      rcases Ledger.prepareLiveSubmission_ok h with
        ⟨rfl, -⟩ | ⟨i, spot, perp, price, hq, -, -, -, -, -, -, -, rfl, -⟩ <;> exact .of_eq rfl
  | expirePlanned intentId => exact failPlanned_fromOpenings h
  | failMarketUnexecutable intentId => exact failPlanned_fromOpenings h
  | recordPreflightFailure intentId exchange code => exact recordLivePreflightFailure_fromOpenings h
  | settleOpen intentId => exact settleLiveOpen_fromOpenings h
  | settleClose intentId => exact settleLiveClose_fromOpenings h
  | paperOpenFills intentId spot perp => exact recordPaperOpenFills_fromOpenings h
  | paperCompensation intentId succeeds => exact executePaperCompensation_fromOpenings h
  | paperCloseFills intentId spot perp => exact recordPaperCloseFills_fromOpenings h
  | paperCloseCompensation intentId succeeds => exact executePaperCloseCompensation_fromOpenings h
  -- What is left writes single legs.
  | _ =>
      obtain ⟨-, hpositions, -⟩ := TradeOp.writesLeg_frame rfl h
      exact .of_eq hpositions

/-! ## §3. Every sequence of transactions. -/

/-- The opening intent of a position is stored, with its perpetual leg. -/
theorem Reachable.opening {b : Books} (hb : Reachable b) :
    ∀ p ∈ b.ledger.positions, HasOpening b.ledger p := by
  induction hb with
  | init h =>
      intro p hp
      rw [h.positions] at hp
      cases hp
  | step hb hs ih =>
      cases hs with
      | tx hi h =>
          intro p hp
          have heffect := TradeOp.effect _ hb.wellFormed h
          rcases TradeOp.fromOpenings _ h p hp with ⟨old, hold, hsame⟩ | hopening
          · exact (ih old hold).effect heffect hsame
          · exact hopening.effect heffect (.refl p)
      | control row => exact ih

end BasisHawk.Paired
