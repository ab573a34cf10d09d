/-
  BasisHawk.Paired.WellFormed
  ───────────────────────────
  The row writes the two-leg transactions are made of, and what every one of
  them keeps.

  A transaction is a sequence of writes (`Paired.Effects` says which), so an
  invariant is proved once per kind of write and not once per transaction.

  Main results:
    • `WellFormed.write` — every write keeps the tables well formed,
    • `layout_legs` — the legs of a valid layout are all the legs of its intent,
      under the names they should have.
-/
import Mathlib.Tactic.Linarith
import BasisHawk.Paired.Operations

namespace BasisHawk.Paired

open Domain Lib

/-! ## §1. Names, markets and sides. -/

def LegName.market : LegName → Market
  | .primary m => m
  | .compensation m => m

/-- The side of a primary leg: spot is bought and the perpetual sold to open. -/
def TradeAction.side (a : TradeAction) (m : Market) : Side :=
  match a, m with
  | .opening, .spot | .closing, .perp => .buy
  | .opening, .perp | .closing, .spot => .sell

/-- The side of a leg of an intent, a protection leg undoing its primary. -/
def LegName.side (a : TradeAction) : LegName → Side
  | .primary m => a.side m
  | .compensation m => (a.side m).flip

/-- A leg is on the market and the side its name says, and a primary leg has
filled at most its quantity. -/
structure OrderLegRow.Fits (o : OrderLegRow) (i : TradeIntentRow) : Prop where
  intent : o.tradeIntentId = i.id
  market : o.market = o.leg.market
  side : o.side = o.leg.side i.action
  filled_le : o.leg.isCompensation = false → o.filledQuantity ≤ o.quantity

/-- A leg row after a write: the columns no transaction changes. -/
structure OrderLegRow.Continues (new old : OrderLegRow) : Prop where
  id : new.id = old.id
  intent : new.tradeIntentId = old.tradeIntentId
  leg : new.leg = old.leg
  market : new.market = old.market
  side : new.side = old.side
  multiplier : new.baseMultiplier = old.baseMultiplier
  primary : old.leg.isCompensation = false → new.quantity = old.quantity
    ∧ (old.filledQuantity ≤ old.quantity → new.filledQuantity ≤ new.quantity)

/-- A leg that only changes in columns no invariant speaks about. -/
theorem OrderLegRow.Continues.of_eq {new old : OrderLegRow} (hid : new.id = old.id)
    (hintent : new.tradeIntentId = old.tradeIntentId) (hleg : new.leg = old.leg)
    (hmarket : new.market = old.market) (hside : new.side = old.side)
    (hmultiplier : new.baseMultiplier = old.baseMultiplier)
    (hquantity : new.quantity = old.quantity) (hfilled : new.filledQuantity = old.filledQuantity) :
    new.Continues old :=
  ⟨hid, hintent, hleg, hmarket, hside, hmultiplier, fun _ => ⟨hquantity, fun h => by
    rw [hquantity, hfilled]
    exact h⟩⟩

/-- A leg that goes on fits its intent as it did before. -/
theorem OrderLegRow.Continues.fits {new old : OrderLegRow} (h : new.Continues old)
    {i : TradeIntentRow} (hf : old.Fits i) : new.Fits i := by
  refine ⟨h.intent.trans hf.intent, ?_, ?_, fun hp => ?_⟩
  · rw [h.market, h.leg]
    exact hf.market
  · rw [h.side, h.leg]
    exact hf.side
  · rw [h.leg] at hp
    exact (h.primary hp).2 (hf.filled_le hp)

/-! ## §2. What is booked. -/

/-- What the booking of `o` makes of a position.  It is closed for good, or
stays open with more than a remainder too small to count; the opening fees
follow the quantity. -/
structure Booked (position : PairedPositionRow) (o : CloseOutcome) (new : PairedPositionRow) :
    Prop where
  id : new.id = position.id
  environment : new.environment = position.environment
  initial : new.initialQuantity = position.initialQuantity
  opening : new.openingFeesUsdt = position.openingFeesUsdt
  quantity_nonneg : 0 ≤ o.quantity
  quantity_le : o.quantity ≤ position.quantity
  remaining : new.remainingOpeningFeesUsdt
    = position.remainingOpeningFeesUsdt - o.openingFeeAllocation
  closing : new.closingFeesUsdt = some (position.closingFeesUsdt.getD 0 + o.closingFees)
  realized : new.realizedPnlUsdt = some (position.realizedPnlUsdt.getD 0 + o.netPnl)
  rest : (new.status = .closed ∧ new.quantity = 0 ∧ position.quantity - o.quantity ≤ 1 / 10 ^ 15
        ∧ (position.environment = .paper → position.quantity = o.quantity)
        ∧ o.openingFeeAllocation = position.remainingOpeningFeesUsdt)
    ∨ (new.status = .opened ∧ new.quantity = position.quantity - o.quantity ∧ 0 < new.quantity
        ∧ (position.environment ≠ .paper → 1 / 10 ^ 15 < new.quantity)
        ∧ o.openingFeeAllocation * position.quantity
          = position.remainingOpeningFeesUsdt * o.quantity)

/-- The row that records a booking. -/
structure PnlRealizationRow.Records (row : PnlRealizationRow) (position : PairedPositionRow)
    (intent : TradeIntentRow) (o : CloseOutcome) : Prop where
  position : row.pairedPositionId = position.id
  intent : row.closingIntentId = intent.id
  quantity : row.quantity = o.quantity
  gross : row.grossPnlUsdt = o.grossPnl
  allocated : row.openingFeeAllocatedUsdt = o.openingFeeAllocation
  fees : row.closingFeesUsdt = o.closingFees
  net : row.netPnlUsdt = o.netPnl

/-! ## §3. Writes. -/

/-- One write of a transaction.  `seen` are the position rows a preview may have
read. -/
inductive Ledger.Write (seen : List PairedPositionRow) (l : Ledger) : Ledger → Prop
  | control (row : Option MultiLeg.ExecutionControlRow) : Write seen l { l with control := row }
  /-- A new intent with its primary legs. -/
  | plan {i : TradeIntentRow} {legs : List OrderLegRow} (hid : i.id = l.nextId)
      (hstatus : i.status.isTerminal = false) (hunique : Table.Unique legs)
      (hkeys : ∀ o ∈ legs, l.nextId < o.id ∧ o.id ≤ l.nextId + legs.length)
      (hlegs : ∀ o ∈ legs, o.Fits i)
      (hread : ∀ pid ∈ i.pairedPositionId, ∃ r ∈ seen, r.id = pid ∧ r.environment = i.environment
        ∧ ∀ o ∈ legs, o.base = r.quantity) :
      Write seen l { l with
        intents := l.intents ++ [i], legs := l.legs ++ legs
        nextId := l.nextId + 1 + legs.length }
  /-- An intent that is not settled yet gets another status. -/
  | move {i : TradeIntentRow} (hi : i ∈ l.intents) (hopen : i.status.isTerminal = false)
      (status : IntentStatus) (code : Option FailureCode) :
      Write seen l (l.moveIntent i status code).2
  | leg {old new : OrderLegRow} (hold : old ∈ l.legs) (hnew : new.Continues old) :
      Write seen l { l with legs := Table.put l.legs new }
  /-- A new protection leg. -/
  | protect {o : OrderLegRow} {i : TradeIntentRow} (hid : o.id = l.nextId) (hi : i ∈ l.intents)
      (hname : o.leg.isCompensation = true) (ho : o.Fits i) :
      Write seen l { l with legs := l.legs ++ [o], nextId := l.nextId + 1 }
  | fills (fills : List FillRow) {n : Nat} (hn : l.nextId ≤ n) :
      Write seen l { l with fills := fills, nextId := n }
  /-- A position is reserved or released. -/
  | hold {p : PairedPositionRow} (hp : p ∈ l.positions) (hopen : p.status ≠ .closed)
      (status : PositionStatus) (hstatus : status ≠ .closed) (holder : Option Nat) :
      Write seen l { l with
        positions := Table.put l.positions { p with status := status, closingIntentId := holder } }
  /-- A new position. -/
  | opened {p : PairedPositionRow} (hid : p.id = l.nextId) (hstatus : p.status = .opened)
      (hquantity : p.quantity = p.initialQuantity) (hnonneg : 0 ≤ p.quantity)
      (hfees : p.remainingOpeningFeesUsdt = p.openingFeesUsdt) (hclosing : p.closingFeesUsdt = none)
      (hrealized : p.realizedPnlUsdt = none) :
      Write seen l { l with positions := l.positions ++ [p], nextId := l.nextId + 1 }
  /-- A close is booked and its intent settled. -/
  | book {i : TradeIntentRow} {p new : PairedPositionRow} {o : CloseOutcome}
      {row : PnlRealizationRow} (hi : i ∈ l.intents) (hopen : i.status.isTerminal = false)
      (hp : p ∈ l.positions) (hp' : p.status ≠ .closed) (hbooked : Booked p o new)
      (hrow : row.Records p i o) (status : IntentStatus) (hstatus : status.isTerminal = true)
      (code : Option FailureCode) :
      Write seen l ({ l with
        positions := Table.put l.positions new, realizations := l.realizations ++ [row]
        nextId := l.nextId + 1 : Ledger }.moveIntent i status code).2

/-! ## §4. Well-formed tables. -/

/-- The quantity of a position.  A live close drops a remainder too small to
count, so a live position that is not closed is whole or has more than that. -/
structure PairedPositionRow.Sized (p : PairedPositionRow) : Prop where
  nonneg : 0 ≤ p.quantity
  le_initial : p.quantity ≤ p.initialQuantity
  rest : p.environment ≠ .paper → p.status ≠ .closed →
    p.quantity = p.initialQuantity ∨ 1 / 10 ^ 15 < p.quantity

/-- A position that is booked keeps its size within its initial one. -/
theorem Booked.sized {p new : PairedPositionRow} {o : CloseOutcome} (h : Booked p o new)
    (hp : p.Sized) : new.Sized := by
  have hle := hp.le_initial
  have hnonneg := h.quantity_nonneg
  have hpos := h.quantity_le
  rcases h.rest with ⟨hclosed, hzero, -, -, -⟩ | ⟨-, hrest, hnew, hlive, -⟩
  · refine ⟨hzero.ge, ?_, fun _ hopen => absurd hclosed hopen⟩
    rw [hzero, h.initial]
    exact hnonneg.trans (hpos.trans hle)
  · refine ⟨hnew.le, ?_, fun henv _ => .inr (hlive ?_)⟩
    · rw [hrest, h.initial]
      linarith
    · rw [← h.environment]
      exact henv

/-- What every sequence of writes keeps. -/
structure WellFormed (seen : List PairedPositionRow) (l : Ledger) : Prop where
  intents_unique : Table.Unique l.intents
  legs_unique : Table.Unique l.legs
  positions_unique : Table.Unique l.positions
  intents_below : Table.KeysBelow l.intents l.nextId
  legs_below : Table.KeysBelow l.legs l.nextId
  positions_below : Table.KeysBelow l.positions l.nextId
  leg_fits : ∀ o ∈ l.legs, ∃ i ∈ l.intents, o.Fits i
  /-- The primary legs of a closing intent ask for no more than the position
  started with. -/
  closes : ∀ i ∈ l.intents, ∀ pid ∈ i.pairedPositionId, ∃ p ∈ l.positions, p.id = pid
    ∧ p.environment = i.environment
    ∧ ∀ o ∈ l.legs, o.tradeIntentId = i.id → o.leg.isCompensation = false →
      o.base ≤ p.initialQuantity
  sized : ∀ p ∈ l.positions, p.Sized
  seen_le : ∀ r ∈ seen, ∃ p ∈ l.positions, p.id = r.id ∧ p.environment = r.environment
    ∧ r.quantity ≤ p.initialQuantity
  realized_intent : ∀ r ∈ l.realizations, ∃ i ∈ l.intents, i.id = r.closingIntentId
    ∧ i.status.isTerminal = true
  realized_position : ∀ r ∈ l.realizations, ∃ p ∈ l.positions, p.id = r.pairedPositionId

variable {seen : List PairedPositionRow} {l l' : Ledger}

/-- The intent rows keep their fixed columns, and a settled one stays settled. -/
def KeepsIntents (l l' : Ledger) : Prop :=
  ∀ i ∈ l.intents, ∃ i' ∈ l'.intents, i'.id = i.id ∧ i'.pairedPositionId = i.pairedPositionId
    ∧ i'.environment = i.environment ∧ i'.action = i.action
    ∧ (i.status.isTerminal = true → i'.status.isTerminal = true)

/-- The position rows keep their fixed columns. -/
def KeepsPositions (l l' : Ledger) : Prop :=
  ∀ p ∈ l.positions, ∃ p' ∈ l'.positions, p'.id = p.id ∧ p'.environment = p.environment
    ∧ p'.initialQuantity = p.initialQuantity

theorem KeepsIntents.of_eq (h : l'.intents = l.intents) : KeepsIntents l l' := by
  intro i hi
  rw [h]
  exact ⟨i, hi, rfl, rfl, rfl, rfl, id⟩

theorem KeepsPositions.of_eq (h : l'.positions = l.positions) : KeepsPositions l l' := by
  intro p hp
  rw [h]
  exact ⟨p, hp, rfl, rfl, rfl⟩

/-- An intent that moves is the only one that changes. -/
theorem keepsIntents_move (hu : Table.Unique l.intents) {i : TradeIntentRow} (hi : i ∈ l.intents)
    (hopen : i.status.isTerminal = false) (status : IntentStatus) (code : Option FailureCode)
    (h : l'.intents = (l.moveIntent i status code).2.intents) : KeepsIntents l l' := by
  intro j hj
  rw [h]
  show ∃ i' ∈ Table.put l.intents _, _
  by_cases hk : j.id = i.id
  · have hji : j = i := hu.eq hj hi hk
    subst hji
    refine ⟨_, Table.mem_put.mpr (.inl ⟨rfl, j, hj, rfl⟩), rfl, rfl, rfl, rfl, fun ht => ?_⟩
    rw [hopen] at ht
    cases ht
  · exact ⟨j, Table.mem_put.mpr (.inr ⟨hj, hk⟩), rfl, rfl, rfl, rfl, id⟩

/-- A position put under the fixed columns of an old one. -/
theorem keepsPositions_put (hu : Table.Unique l.positions) {p new : PairedPositionRow}
    (hp : p ∈ l.positions) (h : l'.positions = Table.put l.positions new) (hid : new.id = p.id)
    (henv : new.environment = p.environment)
    (hinit : new.initialQuantity = p.initialQuantity) : KeepsPositions l l' := by
  intro q hq
  rw [h]
  by_cases hk : q.id = p.id
  · have hqp : q = p := hu.eq hq hp hk
    subst hqp
    exact ⟨new, Table.mem_put.mpr (.inl ⟨rfl, q, hq, hid.symm⟩), hid, henv, hinit⟩
  · exact ⟨q, Table.mem_put.mpr (.inr ⟨hq, fun h => hk (h.trans hid)⟩), rfl, rfl, rfl⟩

/-- Every intent row has a row of the same fixed columns before. -/
def IntentsFrom (l l' : Ledger) : Prop :=
  ∀ i' ∈ l'.intents, ∃ i ∈ l.intents, i.id = i'.id ∧ i.pairedPositionId = i'.pairedPositionId
    ∧ i.environment = i'.environment

/-- Every leg continues an old one or is a new protection leg. -/
def LegsFrom (l l' : Ledger) : Prop :=
  ∀ o' ∈ l'.legs, (∃ o ∈ l.legs, o'.Continues o)
    ∨ (o'.leg.isCompensation = true ∧ ∃ i ∈ l.intents, o'.Fits i)

theorem IntentsFrom.of_eq (h : l'.intents = l.intents) : IntentsFrom l l' := by
  intro i hi
  rw [h] at hi
  exact ⟨i, hi, rfl, rfl, rfl⟩

/-- A moved intent comes from the one it was. -/
theorem intentsFrom_move {i : TradeIntentRow} (hi : i ∈ l.intents) (status : IntentStatus)
    (code : Option FailureCode) (h : l'.intents = (l.moveIntent i status code).2.intents) :
    IntentsFrom l l' := by
  intro j hj
  rw [h] at hj
  rcases Table.mem_put.mp hj with ⟨rfl, -⟩ | ⟨hj, -⟩
  · exact ⟨i, hi, rfl, rfl, rfl⟩
  · exact ⟨j, hj, rfl, rfl, rfl⟩

theorem OrderLegRow.Continues.refl (o : OrderLegRow) : o.Continues o :=
  .of_eq rfl rfl rfl rfl rfl rfl rfl rfl

theorem LegsFrom.of_eq (h : l'.legs = l.legs) : LegsFrom l l' := by
  intro o ho
  rw [h] at ho
  exact .inl ⟨o, ho, .refl o⟩

/-- A leg fits its intent also after the intent has moved. -/
theorem OrderLegRow.Fits.later {o : OrderLegRow} {i i' : TradeIntentRow} (h : o.Fits i)
    (hid : i'.id = i.id) (haction : i'.action = i.action) : o.Fits i' := by
  refine ⟨h.intent.trans hid.symm, h.market, ?_, h.filled_le⟩
  rw [haction]
  exact h.side

/-- A primary leg keeps the quantity it was planned with. -/
theorem OrderLegRow.Continues.base {new old : OrderLegRow} (h : new.Continues old)
    (hname : old.leg.isCompensation = false) : new.base = old.base := by
  unfold OrderLegRow.base
  rw [(h.primary hname).1, h.multiplier]

/-- The references between the tables survive every write that keeps the fixed
columns. -/
theorem WellFormed.of_keeps (hw : WellFormed seen l)
    (hunique : Table.Unique l'.intents ∧ Table.Unique l'.legs ∧ Table.Unique l'.positions)
    (hbelow : Table.KeysBelow l'.intents l'.nextId ∧ Table.KeysBelow l'.legs l'.nextId
      ∧ Table.KeysBelow l'.positions l'.nextId)
    (hintents : KeepsIntents l l') (hfrom : IntentsFrom l l') (hlegs : LegsFrom l l')
    (hpositions : KeepsPositions l l')
    (hsized : ∀ p ∈ l'.positions, p.Sized)
    (hrealized : ∀ r ∈ l'.realizations, r ∈ l.realizations
      ∨ (∃ i ∈ l'.intents, i.id = r.closingIntentId ∧ i.status.isTerminal = true)
        ∧ ∃ p ∈ l'.positions, p.id = r.pairedPositionId) : WellFormed seen l' where
  intents_unique := hunique.1
  legs_unique := hunique.2.1
  positions_unique := hunique.2.2
  intents_below := hbelow.1
  legs_below := hbelow.2.1
  positions_below := hbelow.2.2
  leg_fits := by
    intro o' ho'
    rcases hlegs o' ho' with ⟨o, ho, hc⟩ | ⟨-, i, hi, hf⟩
    · obtain ⟨i, hi, hf⟩ := hw.leg_fits o ho
      obtain ⟨i', hi', hid, -, -, haction, -⟩ := hintents i hi
      exact ⟨i', hi', (hc.fits hf).later hid haction⟩
    · obtain ⟨i', hi', hid, -, -, haction, -⟩ := hintents i hi
      exact ⟨i', hi', hf.later hid haction⟩
  closes := by
    intro i' hi' pid hpid
    obtain ⟨i, hi, hid, hpaired, henv⟩ := hfrom i' hi'
    obtain ⟨p, hp, hp_id, hp_env, hbase⟩ := hw.closes i hi pid (hpaired ▸ hpid)
    obtain ⟨p', hp', hid', henv', hinit'⟩ := hpositions p hp
    -- A new leg compensates, so only the legs from before must fit the position.
    refine ⟨p', hp', hid'.trans hp_id, henv'.trans (hp_env.trans henv), fun o' ho' hi'' hname => ?_⟩
    rcases hlegs o' ho' with ⟨o, ho, hc⟩ | ⟨hcomp, -⟩
    · rw [hc.leg] at hname
      rw [hc.base hname, hinit']
      exact hbase o ho (hc.intent.symm.trans (hi''.trans hid.symm)) hname
    · rw [hname] at hcomp
      cases hcomp
  sized := hsized
  seen_le := by
    intro r hr
    obtain ⟨p, hp, hid, henv, hle⟩ := hw.seen_le r hr
    obtain ⟨p', hp', hid', henv', hinit'⟩ := hpositions p hp
    exact ⟨p', hp', hid'.trans hid, henv'.trans henv, hinit'.symm ▸ hle⟩
  realized_intent := by
    intro r hr
    rcases hrealized r hr with hr | ⟨hi, -⟩
    · obtain ⟨i, hi, hid, ht⟩ := hw.realized_intent r hr
      obtain ⟨i', hi', hid', -, -, -, ht'⟩ := hintents i hi
      exact ⟨i', hi', hid'.trans hid, ht' ht⟩
    · -- A new realization comes with its intent and its position.
      exact hi
  realized_position := by
    intro r hr
    rcases hrealized r hr with hr | ⟨-, hp⟩
    · obtain ⟨p, hp, hid⟩ := hw.realized_position r hr
      obtain ⟨p', hp', hid', -, -⟩ := hpositions p hp
      exact ⟨p', hp', hid'.trans hid⟩
    · exact hp

/-! ## §5. Every write keeps the tables well formed. -/

/-- The new rows of a plan refer to each other and to the position read. -/
theorem WellFormed.plan (hw : WellFormed seen l) {i : TradeIntentRow} {legs : List OrderLegRow}
    (hid : i.id = l.nextId) (hunique : Table.Unique legs)
    (hkeys : ∀ o ∈ legs, l.nextId < o.id ∧ o.id ≤ l.nextId + legs.length)
    (hlegs : ∀ o ∈ legs, o.Fits i)
    (hread : ∀ pid ∈ i.pairedPositionId, ∃ r ∈ seen, r.id = pid ∧ r.environment = i.environment
      ∧ ∀ o ∈ legs, o.base = r.quantity) :
    WellFormed seen { l with
      intents := l.intents ++ [i], legs := l.legs ++ legs
      nextId := l.nextId + 1 + legs.length } where
  intents_unique := hw.intents_unique.append hw.intents_below (le_of_eq hid.symm)
  legs_unique := hw.legs_unique.appendAll hw.legs_below hunique fun o ho => (hkeys o ho).1.le
  positions_unique := hw.positions_unique
  intents_below := by
    have hle : l.nextId ≤ l.nextId + 1 + legs.length := by omega
    refine hw.intents_below.append hle ?_
    show i.id < l.nextId + 1 + legs.length
    omega
  legs_below := by
    have hle : l.nextId ≤ l.nextId + 1 + legs.length := by omega
    refine hw.legs_below.appendAll hle fun o ho => ?_
    have ho_le := (hkeys o ho).2
    show o.id < l.nextId + 1 + legs.length
    omega
  positions_below := hw.positions_below.mono (show l.nextId ≤ l.nextId + 1 + legs.length by omega)
  leg_fits := by
    intro o ho
    rcases List.mem_append.mp ho with ho | ho
    · obtain ⟨j, hj, hf⟩ := hw.leg_fits o ho
      exact ⟨j, List.mem_append_left _ hj, hf⟩
    · exact ⟨i, List.mem_append_right _ (List.mem_singleton_self i), hlegs o ho⟩
  closes := by
    intro j hj pid hpid
    rcases List.mem_append.mp hj with hj | hj
    · -- An old intent: the new legs belong to another one.
      obtain ⟨p, hp, hp_id, henv, hbase⟩ := hw.closes j hj pid hpid
      refine ⟨p, hp, hp_id, henv, fun o ho hoj hname => ?_⟩
      rcases List.mem_append.mp ho with ho | ho
      · exact hbase o ho hoj hname
      · have hlt := hw.intents_below j hj
        have hoi := (hlegs o ho).intent
        change j.id < l.nextId at hlt
        omega
    · rw [List.mem_singleton] at hj
      subst hj
      obtain ⟨r, hr, hr_id, henv, hbase⟩ := hread pid hpid
      obtain ⟨p, hp, hp_id, hp_env, hle⟩ := hw.seen_le r hr
      refine ⟨p, hp, hp_id.trans hr_id, hp_env.trans henv, fun o ho hoj _ => ?_⟩
      rcases List.mem_append.mp ho with ho | ho
      · -- No old leg belongs to the new intent.
        obtain ⟨k, hk, hf⟩ := hw.leg_fits o ho
        have hlt := hw.intents_below k hk
        have hok := hf.intent
        change k.id < l.nextId at hlt
        omega
      · rw [hbase o ho]
        exact hle
  sized := hw.sized
  seen_le := hw.seen_le
  realized_intent := by
    intro r hr
    obtain ⟨j, hj, h⟩ := hw.realized_intent r hr
    exact ⟨j, List.mem_append_left _ hj, h⟩
  realized_position := hw.realized_position

/-- Each single write keeps the ledger well formed: the step that all operations
are made of. -/
theorem WellFormed.write (hw : WellFormed seen l) (h : l.Write seen l') : WellFormed seen l' := by
  have hunique := And.intro hw.intents_unique (And.intro hw.legs_unique hw.positions_unique)
  have hbelow := And.intro hw.intents_below (And.intro hw.legs_below hw.positions_below)
  cases h with
  | control row =>
      exact hw.of_keeps hunique hbelow (.of_eq rfl) (.of_eq rfl) (.of_eq rfl) (.of_eq rfl)
        hw.sized fun r hr => .inl hr
  | plan hid hstatus hu hkeys hlegs hread => exact hw.plan hid hu hkeys hlegs hread
  | move hi hopen status code =>
      exact hw.of_keeps ⟨hw.intents_unique.put _, hunique.2⟩ ⟨hw.intents_below.put _, hbelow.2⟩
        (keepsIntents_move hw.intents_unique hi hopen status code rfl)
        (intentsFrom_move hi status code rfl) (.of_eq rfl) (.of_eq rfl) hw.sized
        fun r hr => .inl hr
  -- A leg is put in the place of its earlier self.
  | @leg old new hold hnew =>
      refine hw.of_keeps ⟨hunique.1, hw.legs_unique.put _, hunique.2.2⟩
        ⟨hbelow.1, hw.legs_below.put _, hbelow.2.2⟩ (.of_eq rfl) (.of_eq rfl) ?_ (.of_eq rfl)
        hw.sized fun r hr => .inl hr
      intro o ho
      rcases Table.mem_put.mp ho with ⟨rfl, -⟩ | ⟨ho, -⟩
      · exact .inl ⟨old, hold, hnew⟩
      · exact .inl ⟨o, ho, .refl o⟩
  -- A protection leg is new, and belongs to a stored intent.
  | @protect o i hid hi hname ho =>
      refine hw.of_keeps ⟨hunique.1, hw.legs_unique.append hw.legs_below (le_of_eq hid.symm),
          hunique.2.2⟩
        ⟨hw.intents_below.mono (Nat.le_succ _), hw.legs_below.append (Nat.le_succ _) ?_,
          hw.positions_below.mono (Nat.le_succ _)⟩ (.of_eq rfl) (.of_eq rfl) ?_ (.of_eq rfl)
        hw.sized fun r hr => .inl hr
      · show o.id < l.nextId + 1
        omega
      · intro o' ho'
        rcases List.mem_append.mp ho' with ho' | ho'
        · exact .inl ⟨o', ho', .refl o'⟩
        · rw [List.mem_singleton] at ho'
          subst ho'
          exact .inr ⟨hname, i, hi, ho⟩
  | fills fills hn =>
      exact hw.of_keeps hunique ⟨hbelow.1.mono hn, hbelow.2.1.mono hn, hbelow.2.2.mono hn⟩
        (.of_eq rfl) (.of_eq rfl) (.of_eq rfl) (.of_eq rfl) hw.sized fun r hr => .inl hr
  -- A position is claimed or released: its quantities stay.
  | @hold p hp hopen status hstatus holder =>
      exact hw.of_keeps ⟨hunique.1, hunique.2.1, hw.positions_unique.put _⟩
        ⟨hbelow.1, hbelow.2.1, hw.positions_below.put _⟩ (.of_eq rfl) (.of_eq rfl) (.of_eq rfl)
        (keepsPositions_put hw.positions_unique hp rfl rfl rfl rfl)
        (Table.forall_put hw.sized ⟨(hw.sized p hp).nonneg, (hw.sized p hp).le_initial,
          fun henv _ => (hw.sized p hp).rest henv hopen⟩) fun r hr => .inl hr
  | @opened p hid hstatus hquantity hnonneg hfees hclosing hrealized =>
      refine hw.of_keeps ⟨hunique.1, hunique.2.1,
          hw.positions_unique.append hw.positions_below (le_of_eq hid.symm)⟩
        ⟨hw.intents_below.mono (Nat.le_succ _), hw.legs_below.mono (Nat.le_succ _),
          hw.positions_below.append (Nat.le_succ _) ?_⟩
        (.of_eq rfl) (.of_eq rfl) (.of_eq rfl) ?_ ?_ fun r hr => .inl hr
      · show p.id < l.nextId + 1
        omega
      · intro q hq
        exact ⟨q, List.mem_append_left _ hq, rfl, rfl, rfl⟩
      · intro q hq
        rcases List.mem_append.mp hq with hq | hq
        · exact hw.sized q hq
        · rw [List.mem_singleton] at hq
          subst hq
          exact ⟨hnonneg, hquantity.le, fun _ _ => .inl hquantity⟩
  -- A booked close: the intent ends, and the row names it and the position.
  | @book i p new o row hi hopen hp hp' hbooked hrow status hstatus code =>
      refine hw.of_keeps ⟨hw.intents_unique.put _, hunique.2.1, hw.positions_unique.put _⟩
        ⟨(hw.intents_below.mono (Nat.le_succ _)).put _, hw.legs_below.mono (Nat.le_succ _),
          (hw.positions_below.mono (Nat.le_succ _)).put _⟩
        (keepsIntents_move hw.intents_unique hi hopen status code rfl)
        (intentsFrom_move hi status code rfl) (.of_eq rfl)
        (keepsPositions_put hw.positions_unique hp rfl hbooked.id hbooked.environment
          hbooked.initial) ?_ ?_
      · exact Table.forall_put hw.sized (hbooked.sized (hw.sized p hp))
      · intro r hr
        rcases List.mem_append.mp hr with hr | hr
        · exact .inl hr
        · rw [List.mem_singleton] at hr
          subst hr
          refine .inr ⟨⟨_, Table.mem_put.mpr (.inl ⟨rfl, i, hi, rfl⟩), hrow.intent.symm, hstatus⟩,
            new, Table.mem_put.mpr (.inl ⟨rfl, p, hp, hbooked.id.symm⟩), ?_⟩
          exact hbooked.id.trans hrow.position.symm

/-! ## §6. The legs of an intent. -/

/-- The legs of an intent, read off the table. -/
theorem mem_legsOfIntent {intentId : Nat} {o : OrderLegRow} :
    o ∈ l.legsOfIntent intentId ↔ o ∈ l.legs ∧ o.tradeIntentId = intentId := by
  unfold Ledger.legsOfIntent
  rw [List.mem_filter, decide_eq_true_eq]

/-- A leg found under a name. -/
theorem find?_leg {legs : List OrderLegRow} {name : LegName} {o : OrderLegRow}
    (h : legs.find? (·.leg = name) = some o) : o ∈ legs ∧ o.leg = name :=
  ⟨List.mem_of_find?_eq_some h, by simpa using List.find?_some h⟩

/-- All legs of a layout. -/
def Layout.legs (y : Layout) : List OrderLegRow := y.spot :: y.perp :: y.compensation.toList

/-- The legs of a valid layout are named as they should be, and the intent has
no others. -/
theorem layout_legs {intentId : Nat} {y : Layout} (h : l.layout intentId = .ok y) :
    y.spot.leg = .primary .spot ∧ y.perp.leg = .primary .perp
      ∧ (∀ c ∈ y.compensation, c.leg.isCompensation = true)
      ∧ y.legs.Perm (l.legsOfIntent intentId) := by
  simp only [Ledger.layout] at h
  split at h
  · next spot perp hspot hperp =>
      obtain ⟨hs, hs_name⟩ := find?_leg hspot
      obtain ⟨hp, hp_name⟩ := find?_leg hperp
      have hne : spot ≠ perp := by
        intro heq
        rw [heq, hp_name] at hs_name
        cases hs_name
      split at h
      · -- No compensation leg: two legs in all.
        next hcomp =>
          split at h
          · next hlen =>
              cases h
              refine ⟨hs_name, hp_name, fun c hc => (by cases hc), ?_⟩
              refine (List.subperm_of_subset ?_ ?_).perm_of_length_le hlen.le
              · exact List.nodup_cons.mpr ⟨by simpa using hne, List.nodup_singleton _⟩
              · intro o ho
                rcases List.mem_cons.mp ho with rfl | ho
                · exact hs
                · rw [List.mem_singleton.mp ho]
                  exact hp
          · cases h
      · -- One compensation leg: three in all, and no two are the same.
        next c hcomp =>
          split at h
          · next hlen =>
              cases h
              have hc : c ∈ (l.legsOfIntent intentId).filter (·.leg.isCompensation) := by
                rw [hcomp]
                exact List.mem_singleton_self c
              obtain ⟨hc, hc_name⟩ := List.mem_filter.mp hc
              have hsc : spot ≠ c := by
                intro heq
                rw [← heq, hs_name] at hc_name
                cases hc_name
              have hpc : perp ≠ c := by
                intro heq
                rw [← heq, hp_name] at hc_name
                cases hc_name
              refine ⟨hs_name, hp_name, fun c' hc' => ?_, ?_⟩
              · cases hc'
                exact hc_name
              · refine (List.subperm_of_subset ?_ ?_).perm_of_length_le hlen.le
                · show [spot, perp, c].Nodup
                  rw [List.nodup_cons, List.nodup_cons]
                  exact ⟨by simp [hne, hsc], by simpa using hpc, List.nodup_singleton _⟩
                · show [spot, perp, c] ⊆ _
                  intro o ho
                  rcases List.mem_cons.mp ho with rfl | ho
                  · exact hs
                  rcases List.mem_cons.mp ho with rfl | ho
                  · exact hp
                  · rw [List.mem_singleton.mp ho]
                    exact hc
          · cases h
      · cases h
  · cases h

/-- The legs of a layout are legs of its intent. -/
theorem mem_layout {intentId : Nat} {y : Layout} (h : l.layout intentId = .ok y) {o : OrderLegRow}
    (ho : o ∈ y.legs) : o ∈ l.legs ∧ o.tradeIntentId = intentId :=
  mem_legsOfIntent.mp ((layout_legs h).2.2.2.mem_iff.mp ho)

/-- In well-formed tables a leg of an intent fits it. -/
theorem WellFormed.fits (hw : WellFormed seen l) {i : TradeIntentRow} (hi : i ∈ l.intents)
    {o : OrderLegRow} (ho : o ∈ l.legs) (hoi : o.tradeIntentId = i.id) : o.Fits i := by
  obtain ⟨j, hj, hf⟩ := hw.leg_fits o ho
  have hji : j = i := hw.intents_unique.eq hj hi (hf.intent.symm.trans hoi)
  exact hji ▸ hf

/-! ## §7. The position of a closing intent. -/

/-- The position of a closing intent is the one that the intent names. -/
theorem positionOf_some {intent : TradeIntentRow} {position : PairedPositionRow}
    (h : l.positionOf intent = some position) :
    position ∈ l.positions ∧ intent.pairedPositionId = some position.id := by
  unfold Ledger.positionOf at h
  obtain ⟨pid, hpid, hfind⟩ := Option.bind_eq_some_iff.mp h
  obtain ⟨hmem, hid⟩ := Table.find?_some hfind
  exact ⟨hmem, by rw [hpid, ← hid]; rfl⟩

/-- Two decimals count as equal if they differ by no more than the tolerance of
the source. -/
theorem numericEqual_iff {a b : ℚ} : numericEqual a b ↔ |a - b| ≤ 1 / 10 ^ 15 := by
  unfold numericEqual
  exact decide_eq_true_iff

/-- A position and the intent that closes it are of one environment. -/
theorem WellFormed.position_environment (hw : WellFormed seen l) {intent : TradeIntentRow}
    {position : PairedPositionRow} (hi : intent ∈ l.intents)
    (hposition : l.positionOf intent = some position) :
    position.environment = intent.environment := by
  obtain ⟨hmem, hpid⟩ := positionOf_some hposition
  obtain ⟨p, hp, hid, henv, -⟩ := hw.closes intent hi position.id hpid
  rw [← hw.positions_unique.eq hp hmem hid]
  exact henv

/-- The primary legs of a closing intent have filled at most what its position
started with. -/
theorem WellFormed.filled_le (hw : WellFormed seen l) {intent : TradeIntentRow}
    {position : PairedPositionRow} (hi : intent ∈ l.intents)
    (hposition : l.positionOf intent = some position) {o : OrderLegRow} (ho : o ∈ l.legs)
    (hoi : o.tradeIntentId = intent.id) (hname : o.leg.isCompensation = false) :
    o.filledBase ≤ position.initialQuantity := by
  obtain ⟨hmem, hpid⟩ := positionOf_some hposition
  obtain ⟨p, hp, hid, -, hbase⟩ := hw.closes intent hi position.id hpid
  have hpp : p = position := hw.positions_unique.eq hp hmem hid
  subst hpp
  have hle := (hw.fits hi ho hoi).filled_le hname
  refine le_trans ?_ (hbase o ho hoi hname)
  exact mul_le_mul_of_nonneg_right hle o.multiplier_check.le

/-- A live position too small to count has equal fills. -/
theorem WellFormed.small (hw : WellFormed seen l) {intent : TradeIntentRow}
    {position : PairedPositionRow} {y : Layout} (hi : intent ∈ l.intents)
    (hposition : l.positionOf intent = some position) (hy : l.layout intent.id = .ok y)
    (hlive : intent.environment ≠ .paper) (hopen : position.status ≠ .closed)
    (hsmall : position.quantity ≤ 1 / 10 ^ 15) :
    numericEqual y.spot.filledBase y.perp.filledBase := by
  obtain ⟨hspot, hperp, -, -⟩ := layout_legs hy
  obtain ⟨hs, hs_intent⟩ := mem_layout hy (show y.spot ∈ y.legs by simp [Layout.legs])
  obtain ⟨hp, hp_intent⟩ := mem_layout hy (show y.perp ∈ y.legs by simp [Layout.legs])
  have henv := hw.position_environment hi hposition
  have hs_le := hw.filled_le hi hposition hs hs_intent (by rw [hspot]; rfl)
  have hp_le := hw.filled_le hi hposition hp hp_intent (by rw [hperp]; rfl)
  have hsized := hw.sized position (positionOf_some hposition).1
  have hinitial : position.initialQuantity ≤ 1 / 10 ^ 15 := by
    rcases hsized.rest (henv.symm ▸ hlive) hopen with heq | hlt
    · exact heq ▸ hsmall
    · exact absurd hsmall (not_le.mpr hlt)
  have hs_nonneg := y.spot.filledBase_nonneg
  have hp_nonneg := y.perp.filledBase_nonneg
  rw [numericEqual_iff, abs_le]
  constructor <;> linarith

end BasisHawk.Paired
