/-
  BasisHawk.Paired.Reservation
  ────────────────────────────
  How a close reserves its position.

  Planning a close reserves the position; settling, failing or expiring the
  close releases it, in the same transaction that ends the intent.  Manual,
  automatic, emergency and paper closes share these tables.

  Main results:
    • `TradeOp.turn` — a transaction leaves all reservations alone, makes one,
      or releases one,
    • `positions_reserved` — a position is closing iff an unsettled close of it
      holds it, and never are there two.
-/
import BasisHawk.Paired.Moves

namespace BasisHawk.Paired

open Domain Lib

/-! ## §1. Closes and what they hold. -/

/-- `{"planned", "executing", "compensating", "manual_review"}`. -/
def IntentStatus.isInFlight : IntentStatus → Bool
  | .planned | .executing | .compensating | .manualReview => true
  | _ => false

/-- An unsettled close of the position. -/
def TradeIntentRow.Closes (i : TradeIntentRow) (positionId : Nat) : Prop :=
  i.action = .closing ∧ i.pairedPositionId = some positionId ∧ i.status.isInFlight = true

instance (i : TradeIntentRow) (positionId : Nat) : Decidable (i.Closes positionId) :=
  inferInstanceAs (Decidable (_ ∧ _ ∧ _))

/-- A position is closing exactly when its `closing_intent_id` names an
unsettled close of it. -/
structure Reservations (l : Ledger) : Prop where
  closing_iff : ∀ p ∈ l.positions, p.status = .closing ↔
    ∃ i ∈ l.intents, p.closingIntentId = some i.id ∧ i.Closes p.id
  opened_free : ∀ p ∈ l.positions, p.status = .opened → p.closingIntentId = none
  one_close : ∀ i ∈ l.intents, ∀ j ∈ l.intents, ∀ positionId,
    i.Closes positionId → j.Closes positionId → i = j

/-- The intent of this id is an unsettled close of the position. -/
def Claim (l : Ledger) (intentId positionId : Nat) : Prop :=
  ∃ i ∈ l.intents, i.id = intentId ∧ i.Closes positionId

/-- What every transaction keeps: closes and closing positions belong to each
other one by one. -/
structure Held (l : Ledger) : Prop where
  claimed : ∀ i q, Claim l i q →
    ∃ p ∈ l.positions, p.id = q ∧ p.status = .closing ∧ p.closingIntentId = some i
  closing : ∀ p ∈ l.positions, p.status = .closing →
    ∃ i, p.closingIntentId = some i ∧ Claim l i p.id
  opened : ∀ p ∈ l.positions, p.status = .opened → p.closingIntentId = none

variable {seen : List PairedPositionRow} {l l' : Ledger} {now : Int}

/-- An intent closes one position at most. -/
theorem Claim.unique (hu : Table.Unique l.intents) {i p q : Nat} (h : Claim l i p)
    (h' : Claim l i q) : p = q := by
  obtain ⟨a, ha, haid, -, hap, -⟩ := h
  obtain ⟨b, hb, hbid, -, hbq, -⟩ := h'
  have hab : a = b := hu.eq ha hb (haid.trans hbid.symm)
  rw [hab, hbq] at hap
  exact (Option.some.inj hap).symm

/-- What the invariant gives for the claim: every reserved position has the one
intent that holds it. -/
theorem Held.reservations (h : Held l) (hw : WellFormed seen l) : Reservations l where
  closing_iff := by
    intro p hp
    constructor
    · intro hclosing
      obtain ⟨iid, hholder, i, hi, rfl, hcloses⟩ := h.closing p hp hclosing
      exact ⟨i, hi, hholder, hcloses⟩
    · rintro ⟨i, hi, -, hcloses⟩
      obtain ⟨p', hp', hid, hclosing, -⟩ := h.claimed i.id p.id ⟨i, hi, rfl, hcloses⟩
      rw [hw.positions_unique.eq hp hp' hid.symm]
      exact hclosing
  opened_free := h.opened
  one_close := by
    intro i hi j hj pid hi' hj'
    obtain ⟨p, hp, hpid, -, hpi⟩ := h.claimed i.id pid ⟨i, hi, rfl, hi'⟩
    obtain ⟨q, hq, hqid, -, hqj⟩ := h.claimed j.id pid ⟨j, hj, rfl, hj'⟩
    have hpq : p = q := hw.positions_unique.eq hp hq (hpid.trans hqid.symm)
    rw [hpq, hqj] at hpi
    exact hw.intents_unique.eq hi hj (Option.some.inj hpi).symm

/-! ## §2. What one transaction does to the reservations. -/

inductive Turn (l l' : Ledger) : Prop
  /-- New positions are free. -/
  | still (hclaims : ∀ i q, Claim l' i q ↔ Claim l i q)
      (hkept : ∀ p ∈ l.positions, p ∈ l'.positions)
      (hnew : ∀ p ∈ l'.positions, p ∈ l.positions ∨ p.status = .opened ∧ p.closingIntentId = none)
  /-- A new close reserves an open position. -/
  | reserve {iid : Nat} {p : PairedPositionRow} (hp : p ∈ l.positions) (hopen : p.status = .opened)
      (hclaims : ∀ i q, Claim l' i q ↔ Claim l i q ∨ i = iid ∧ q = p.id)
      (hput : l'.positions
        = Table.put l.positions { p with status := .closing, closingIntentId := some iid })
  /-- A close ends and lets go of its position. -/
  | release {iid : Nat} {p new : PairedPositionRow} (hp : p ∈ l.positions)
      (hclosing : p.status = .closing) (hholder : p.closingIntentId = some iid)
      (hclaims : ∀ i q, Claim l' i q ↔ Claim l i q ∧ i ≠ iid) (hid : new.id = p.id)
      (hnew : new.status = .closed ∨ new.status = .opened ∧ new.closingIntentId = none)
      (hput : l'.positions = Table.put l.positions new)

/-- Where nobody claims anew and positions stay, reservations stay. -/
theorem Held.still (h : Held l) (hclaims : ∀ i q, Claim l' i q ↔ Claim l i q)
    (hkept : ∀ p ∈ l.positions, p ∈ l'.positions)
    (hnew : ∀ p ∈ l'.positions,
      p ∈ l.positions ∨ p.status = .opened ∧ p.closingIntentId = none) : Held l' where
  claimed := by
    intro i q hc
    obtain ⟨p, hp, hrest⟩ := h.claimed i q ((hclaims i q).mp hc)
    exact ⟨p, hkept p hp, hrest⟩
  closing := by
    intro p hp hclosing
    rcases hnew p hp with hp | ⟨hopened, -⟩
    · obtain ⟨i, hholder, hc⟩ := h.closing p hp hclosing
      exact ⟨i, hholder, (hclaims i p.id).mpr hc⟩
    · rw [hopened] at hclosing
      cases hclosing
  opened := by
    intro p hp hopened
    rcases hnew p hp with hp | ⟨-, hfree⟩
    · exact h.opened p hp hopened
    · exact hfree

/-- A new close takes a position that nobody holds. -/
theorem Held.reserve (h : Held l) (hw : WellFormed seen l) {iid : Nat} {p : PairedPositionRow}
    (hp : p ∈ l.positions) (hopen : p.status = .opened)
    (hclaims : ∀ i q, Claim l' i q ↔ Claim l i q ∨ i = iid ∧ q = p.id)
    (hput : l'.positions
      = Table.put l.positions { p with status := .closing, closingIntentId := some iid }) :
    Held l' := by
  have hmem : ∀ x, x ∈ l'.positions ↔
      x = { p with status := .closing, closingIntentId := some iid } ∨ x ∈ l.positions ∧ x ≠ p := by
    intro x
    rw [hput]
    exact Table.mem_put_of_unique hw.positions_unique hp rfl
  refine ⟨?_, ?_, ?_⟩
  · intro i q hc
    rcases (hclaims i q).mp hc with hc | ⟨rfl, rfl⟩
    · obtain ⟨x, hx, hxid, hxclosing, hxholder⟩ := h.claimed i q hc
      refine ⟨x, (hmem x).mpr (.inr ⟨hx, fun heq => ?_⟩), hxid, hxclosing, hxholder⟩
      rw [heq, hopen] at hxclosing
      cases hxclosing
    · exact ⟨_, (hmem _).mpr (.inl rfl), rfl, rfl, rfl⟩
  · intro x hx hclosing
    rcases (hmem x).mp hx with rfl | ⟨hx, -⟩
    · exact ⟨iid, rfl, (hclaims iid p.id).mpr (.inr ⟨rfl, rfl⟩)⟩
    · obtain ⟨i, hholder, hc⟩ := h.closing x hx hclosing
      exact ⟨i, hholder, (hclaims i x.id).mpr (.inl hc)⟩
  · intro x hx hopened
    rcases (hmem x).mp hx with rfl | ⟨hx, -⟩
    · cases hopened
    · exact h.opened x hx hopened

/-- An intent that ends lets its position go. -/
theorem Held.release (h : Held l) (hw : WellFormed seen l) {iid : Nat} {p new : PairedPositionRow}
    (hp : p ∈ l.positions) (hclosing : p.status = .closing) (hholder : p.closingIntentId = some iid)
    (hclaims : ∀ i q, Claim l' i q ↔ Claim l i q ∧ i ≠ iid) (hid : new.id = p.id)
    (hnew : new.status = .closed ∨ new.status = .opened ∧ new.closingIntentId = none)
    (hput : l'.positions = Table.put l.positions new) : Held l' := by
  have hmem : ∀ x, x ∈ l'.positions ↔ x = new ∨ x ∈ l.positions ∧ x ≠ p := by
    intro x
    rw [hput]
    exact Table.mem_put_of_unique hw.positions_unique hp hid.symm
  refine ⟨?_, ?_, ?_⟩
  · intro i q hc
    obtain ⟨hc, hne⟩ := (hclaims i q).mp hc
    obtain ⟨x, hx, hxid, hxclosing, hxholder⟩ := h.claimed i q hc
    refine ⟨x, (hmem x).mpr (.inr ⟨hx, fun heq => hne ?_⟩), hxid, hxclosing, hxholder⟩
    rw [heq, hholder] at hxholder
    exact (Option.some.inj hxholder).symm
  · intro x hx hxclosing
    rcases (hmem x).mp hx with rfl | ⟨hx, hne⟩
    · rcases hnew with hclosed | ⟨hopened, -⟩
      · rw [hclosed] at hxclosing
        cases hxclosing
      · rw [hopened] at hxclosing
        cases hxclosing
    · obtain ⟨i, hxholder, hc⟩ := h.closing x hx hxclosing
      refine ⟨i, hxholder, (hclaims i x.id).mpr ⟨hc, fun heq => hne ?_⟩⟩
      -- The intent that ends held `p`, and closes one position only.
      obtain ⟨j, hj, hcp⟩ := h.closing p hp hclosing
      rw [hholder] at hj
      cases hj
      rw [heq] at hc
      exact hw.positions_unique.eq hx hp (hc.unique hw.intents_unique hcp)
  · intro x hx hopened
    rcases (hmem x).mp hx with rfl | ⟨hx, -⟩
    · rcases hnew with hclosed | ⟨-, hfree⟩
      · rw [hclosed] at hopened
        cases hopened
      · exact hfree
    · exact h.opened x hx hopened

/-- Every operation is one of these turns, and each keeps the reservations. -/
theorem Held.turn (h : Held l) (hw : WellFormed seen l) (ht : Turn l l') : Held l' := by
  cases ht with
  | still hclaims hkept hnew => exact h.still hclaims hkept hnew
  | reserve hp hopen hclaims hput => exact h.reserve hw hp hopen hclaims hput
  | release hp hclosing hholder hclaims hid hnew hput =>
      exact h.release hw hp hclosing hholder hclaims hid hnew hput

/-! ## §3. The transactions. -/

/-- Neither intents nor positions are written. -/
theorem Turn.of_eq (hi : l'.intents = l.intents) (hp : l'.positions = l.positions) : Turn l l' := by
  refine .still (fun i q => ?_) (fun p h => hp ▸ h) (fun p h => .inl (hp ▸ h))
  unfold Claim
  rw [hi]

/-- The closes after one intent has moved. -/
theorem claim_move (hu : Table.Unique l.intents) {i : TradeIntentRow} (hi : i ∈ l.intents)
    {status : IntentStatus} {code : Option FailureCode}
    (h : l'.intents = (l.moveIntent i status code).2.intents) (a q : Nat) :
    Claim l' a q ↔ Claim l a q ∧ a ≠ i.id
      ∨ a = i.id ∧ i.action = .closing ∧ i.pairedPositionId = some q ∧ status.isInFlight := by
  have hmem : ∀ x, x ∈ l'.intents ↔ x = (l.moveIntent i status code).1 ∨ x ∈ l.intents ∧ x ≠ i := by
    intro x
    rw [h]
    exact Table.mem_put_of_unique hu hi rfl
  constructor
  · rintro ⟨x, hx, rfl, hcloses⟩
    rcases (hmem x).mp hx with rfl | ⟨hx, hne⟩
    · exact .inr ⟨rfl, hcloses⟩
    · exact .inl ⟨⟨x, hx, rfl, hcloses⟩, fun hid => hne (hu.eq hx hi hid)⟩
  · rintro (⟨⟨x, hx, rfl, hcloses⟩, hne⟩ | ⟨rfl, hcloses⟩)
    · exact ⟨x, (hmem x).mpr (.inr ⟨hx, fun heq => hne (by rw [heq])⟩), rfl, hcloses⟩
    · exact ⟨_, (hmem _).mpr (.inl rfl), rfl, hcloses⟩

/-- An intent moves without a close beginning or ending. -/
theorem claim_move_still (hu : Table.Unique l.intents) {i : TradeIntentRow} (hi : i ∈ l.intents)
    {status : IntentStatus} {code : Option FailureCode}
    (h : l'.intents = (l.moveIntent i status code).2.intents)
    (hsame : i.action = .closing → status.isInFlight = i.status.isInFlight) (a q : Nat) :
    Claim l' a q ↔ Claim l a q := by
  rw [claim_move hu hi h]
  constructor
  · rintro (⟨hc, -⟩ | ⟨rfl, haction, hpair, hflight⟩)
    · exact hc
    · exact ⟨i, hi, rfl, haction, hpair, (hsame haction).symm.trans hflight⟩
  · intro hc
    by_cases ha : a = i.id
    · obtain ⟨x, hx, hxid, haction, hpair, hflight⟩ := hc
      have hxi : x = i := hu.eq hx hi (hxid.trans ha)
      rw [hxi] at haction hpair hflight
      exact .inr ⟨ha, haction, hpair, (hsame haction).trans hflight⟩
    · exact .inl ⟨hc, ha⟩

/-- The same, the positions as they were. -/
theorem Turn.move (hw : WellFormed seen l) {i : TradeIntentRow} (hi : i ∈ l.intents)
    {status : IntentStatus} {code : Option FailureCode}
    (h : l'.intents = (l.moveIntent i status code).2.intents)
    (hsame : i.action = .closing → status.isInFlight = i.status.isInFlight)
    (hp : l'.positions = l.positions) : Turn l l' :=
  .still (claim_move_still hw.intents_unique hi h hsame) (fun _ hmem => hp ▸ hmem)
    (fun _ hmem => .inl (hp ▸ hmem))

/-- A close that holds its position ends. -/
theorem Turn.settle (hw : WellFormed seen l) {i : TradeIntentRow} (hi : i ∈ l.intents)
    {status : IntentStatus} {code : Option FailureCode}
    (h : l'.intents = (l.moveIntent i status code).2.intents) (hend : status.isInFlight = false)
    {p new : PairedPositionRow} (hp : p ∈ l.positions) (hreserved : Ledger.isReserved p i)
    (hid : new.id = p.id)
    (hnew : new.status = .closed ∨ new.status = .opened ∧ new.closingIntentId = none)
    (hput : l'.positions = Table.put l.positions new) : Turn l l' := by
  refine .release hp hreserved.1 hreserved.2 (fun a q => ?_) hid hnew hput
  rw [claim_move hw.intents_unique hi h, hend]
  simp

/-- An opening intent moves and opens a position. -/
theorem Turn.open (hw : WellFormed seen l) {i : TradeIntentRow} (hi : i ∈ l.intents)
    (haction : i.action = .opening) {status : IntentStatus} {code : Option FailureCode}
    (h : l'.intents = (l.moveIntent i status code).2.intents) {p : PairedPositionRow}
    (hfree : p.status = .opened ∧ p.closingIntentId = none)
    (hp : l'.positions = l.positions ++ [p]) : Turn l l' := by
  refine .still (claim_move_still hw.intents_unique hi h fun hc => ?_) ?_ ?_
  · rw [haction] at hc
    cases hc
  · intro x hx
    rw [hp]
    exact List.mem_append_left _ hx
  · intro x hx
    rw [hp, List.mem_append, List.mem_singleton] at hx
    rcases hx with hx | rfl
    · exact .inl hx
    · exact .inr hfree

/-- A new intent, its legs not looked at. -/
theorem claim_append {i : TradeIntentRow} (h : l'.intents = l.intents ++ [i]) (a q : Nat) :
    Claim l' a q ↔ Claim l a q ∨ i.id = a ∧ i.Closes q := by
  unfold Claim
  rw [h]
  constructor
  · rintro ⟨x, hx, hid, hcloses⟩
    rcases List.mem_append.mp hx with hx | hx
    · exact .inl ⟨x, hx, hid, hcloses⟩
    · cases List.mem_singleton.mp hx
      exact .inr ⟨hid, hcloses⟩
  · rintro (⟨x, hx, hid, hcloses⟩ | ⟨hid, hcloses⟩)
    · exact ⟨x, List.mem_append_left _ hx, hid, hcloses⟩
    · exact ⟨i, List.mem_append_right _ (List.mem_singleton_self i), hid, hcloses⟩

/-- A new opening reserves nothing. -/
theorem createTradeIntent_turn {plan : OpenPlan} {r : TradeIntentRow × Bool}
    (h : Ledger.createTradeIntent plan now l = .ok (r, l')) : Turn l l' := by
  rcases Ledger.createTradeIntent_ok h with ⟨rfl, -⟩ | ⟨-, -, rfl⟩
  · exact .of_eq rfl rfl
  · refine .still (fun a q => ?_) (fun p hp => hp) (fun p hp => .inl hp)
    rw [claim_append rfl]
    constructor
    · rintro (hc | ⟨-, haction, -⟩)
      · exact hc
      · cases haction
    · exact .inl

/-- A new close reserves its position. -/
theorem createPaperCloseIntent_turn {plan : ClosePlan} {r : TradeIntentRow × Bool}
    (h : Ledger.createPaperCloseIntent plan now l = .ok (r, l')) : Turn l l' := by
  rcases Ledger.createPaperCloseIntent_ok h with ⟨rfl, -⟩ | ⟨position, hposition, hfree, -, -, rfl⟩
  · exact .of_eq rfl rfl
  · obtain ⟨hmem, hid⟩ := Table.find?_some hposition
    refine .reserve hmem hfree.1 (fun a q => ?_) rfl
    rw [claim_append rfl]
    -- The new close is of the position that was read.
    have hpair : (plan.intent l.nextId now).pairedPositionId = some position.id :=
      congrArg some hid.symm
    constructor
    · rintro (hc | ⟨rfl, -, hq, -⟩)
      · exact .inl hc
      · rw [hpair] at hq
        exact .inr ⟨rfl, (Option.some.inj hq).symm⟩
    · rintro (hc | ⟨rfl, rfl⟩)
      · exact .inl hc
      · exact .inr ⟨rfl, rfl, hpair, rfl⟩

/-- An unsettled close finds its position, and finds it reserved. -/
theorem Held.positionOf (h : Held l) (hw : WellFormed seen l) {i : TradeIntentRow}
    (hi : i ∈ l.intents) {q : Nat} (hc : i.Closes q) :
    ∃ p, l.positionOf i = some p ∧ Ledger.isReserved p i := by
  obtain ⟨p, hp, hid, hclosing, hholder⟩ := h.claimed i.id q ⟨i, hi, rfl, hc⟩
  refine ⟨p, ?_, hclosing, hholder⟩
  unfold Ledger.positionOf
  rw [hc.2.1]
  exact (Table.find?_eq_some_iff hw.positions_unique).mpr ⟨hp, hid⟩

/-- A planned close that fails releases its position. -/
theorem failPlanned_turn (hw : WellFormed seen l) (hh : Held l) {intentId : Nat} {code : FailureCode}
    {r : Bool} (h : Ledger.failPlanned intentId code l = .ok (r, l')) : Turn l l' := by
  rcases Ledger.failPlanned_ok h with rfl | ⟨i, hfind, -, hend⟩
  · exact .of_eq rfl rfl
  have hi := (Table.find?_some hfind).1
  rcases hend with ⟨p, hp, hreserved, rfl⟩ | ⟨rfl, hnone⟩
  · have hid : ({ p with status := .opened, closingIntentId := none } : PairedPositionRow).id = p.id :=
      rfl
    exact .settle hw hi rfl rfl (positionOf_some hp).1 hreserved hid (.inr ⟨rfl, rfl⟩) rfl
  · -- A close that holds nothing is none.
    refine .still (fun a q => ?_) (fun p hmem => hmem) (fun p hmem => .inl hmem)
    rw [claim_move hw.intents_unique hi rfl]
    constructor
    · rintro (⟨hc, -⟩ | ⟨-, -, -, hflight⟩)
      · exact hc
      · cases hflight
    · intro hc
      refine .inl ⟨hc, ?_⟩
      rintro rfl
      obtain ⟨x, hx, hxid, hcloses⟩ := hc
      rw [hw.intents_unique.eq hx hi hxid] at hcloses
      exact hnone ⟨hcloses.1, hh.positionOf hw hi hcloses⟩

/-- A hand-out keeps the reservation. -/
theorem prepareLiveSubmission_turn (hw : WellFormed seen l) {intentId : Nat} {adjusted : Option ℚ}
    {r : Ledger.Prepared} (h : Ledger.prepareLiveSubmission intentId adjusted l = .ok (r, l')) :
    Turn l l' := by
  rcases Ledger.prepareLiveSubmission_ok h with ⟨rfl, -⟩ | ⟨i, spot, perp, price, hq, hi, hplanned,
    -, -, -, -, -, rfl, -⟩
  · exact .of_eq rfl rfl
  · refine Turn.move hw (Table.find?_some hi).1 rfl (fun _ => ?_) rfl
    rw [hplanned]
    rfl

/-- A failed preflight releases the position of a close. -/
theorem recordLivePreflightFailure_turn (hw : WellFormed seen l) {intentId : Nat}
    {exchange : Exchange} {code : FailureCode} {u : Unit}
    (h : Ledger.recordLivePreflightFailure intentId exchange code l = .ok (u, l')) : Turn l l' := by
  obtain ⟨reason, rfl | ⟨i, hi, hplanned, rfl⟩⟩ := Ledger.recordLivePreflightFailure_ok h
  · exact .of_eq rfl rfl
  · refine Turn.move hw (Table.find?_some hi).1 rfl (fun _ => ?_) rfl
    rw [hplanned]

/-- Settling an opening brings a position that nobody has reserved. -/
theorem settleLiveOpen_turn (hw : WellFormed seen l) {intentId : Nat} {r : Option Ledger.Settled}
    (h : Ledger.settleLiveOpen intentId now l = .ok (r, l')) : Turn l l' := by
  rcases Ledger.settleLiveOpen_ok h with ⟨rfl, -⟩ | ⟨i, y, verdict, settled, hi, -, hsettleable, -,
    -, happly, -⟩
  · exact .of_eq rfl rfl
  have hmem := (Table.find?_some hi).1
  have haction : ∀ status : IntentStatus,
      i.action = .closing → status.isInFlight = i.status.isInFlight := by
    intro status hc
    rw [hsettleable.2.1] at hc
    cases hc
  cases verdict with
  | pending =>
      cases happly
      exact .of_eq rfl rfl
  | protect excess base =>
      obtain ⟨⟨i', l₁⟩, hprotect, happly⟩ := bind_eq_ok.mp happly
      cases happly
      obtain ⟨leg, -, -, rfl⟩ := Ledger.protect_ok hprotect
      exact .move hw hmem rfl (haction _) rfl
  | hedge quantity s p cost =>
      cases happly
      exact .open hw hmem hsettleable.2.1 rfl ⟨rfl, rfl⟩ rfl
  | _ =>
      cases happly
      exact .move hw hmem rfl (haction _) rfl

/-- A position is free after its close was booked: it is open again without a
holder, or closed. -/
theorem afterClose_free (position : PairedPositionRow) (o : CloseOutcome) (now : Int) :
    (position.afterClose o now).id = position.id
      ∧ ((position.afterClose o now).status = .closed
        ∨ (position.afterClose o now).status = .opened
          ∧ (position.afterClose o now).closingIntentId = none) := by
  unfold PairedPositionRow.afterClose
  dsimp only
  split
  · exact ⟨rfl, .inl rfl⟩
  · exact ⟨rfl, .inr ⟨rfl, rfl⟩⟩

theorem paperAfterClose_free (position : PairedPositionRow) (o : CloseOutcome) (now : Int) :
    (Ledger.paperAfterClose position o now).id = position.id
      ∧ ((Ledger.paperAfterClose position o now).status = .closed
        ∨ (Ledger.paperAfterClose position o now).status = .opened
          ∧ (Ledger.paperAfterClose position o now).closingIntentId = none) := by
  unfold Ledger.paperAfterClose
  dsimp only
  split
  · exact ⟨rfl, .inl rfl⟩
  · exact ⟨rfl, .inr ⟨rfl, rfl⟩⟩

/-- Settling a close releases its position, or keeps it reserved where it goes
on. -/
theorem settleLiveClose_turn (hw : WellFormed seen l) {intentId : Nat} {r : Option Ledger.Settled}
    (h : Ledger.settleLiveClose intentId now l = .ok (r, l')) : Turn l l' := by
  rcases Ledger.settleLiveClose_ok h with ⟨rfl, -⟩ | ⟨i, p, y, verdict, settled, hi, hposition,
    hsettleable, hreserved, -, hverdict, happly, -⟩
  · exact .of_eq rfl rfl
  have hmem := (Table.find?_some hi).1
  have hp := (positionOf_some hposition).1
  have hflight : i.status.isInFlight = true := by
    rcases hsettleable.2.2 with hs | hs <;> rw [hs] <;> rfl
  cases verdict with
  | pending =>
      cases happly
      exact .of_eq rfl rfl
  -- Without fills the close lets its position go.
  | noFills =>
      cases happly
      have hid : ({ p with status := .opened, closingIntentId := none } : PairedPositionRow).id
          = p.id := rfl
      exact .settle hw hmem rfl rfl hp hreserved hid (.inr ⟨rfl, rfl⟩) rfl
  | protect excess base =>
      obtain ⟨⟨i', l₁⟩, hprotect, happly⟩ := bind_eq_ok.mp happly
      cases happly
      obtain ⟨leg, -, -, rfl⟩ := Ledger.protect_ok hprotect
      exact .move hw hmem rfl (fun _ => hflight.symm) rfl
  | review =>
      cases happly
      exact .move hw hmem rfl (fun _ => hflight.symm) rfl
  -- The realization is booked, and the position is reduced or closed.
  | settle o =>
      obtain ⟨l₁, hrow, happly⟩ := bind_eq_ok.mp happly
      obtain ⟨-, -, -, -, row, -, rfl⟩ := Ledger.insertRealization_ok hrow
      cases happly
      have hend : o.status.isInFlight = false := by
        rcases closeVerdict_settled hverdict with hs | hs <;> rw [hs] <;> rfl
      obtain ⟨hid, hfree⟩ := afterClose_free p o now
      exact .settle hw hmem rfl hend hp hreserved hid hfree rfl

/-! ### Paper executions. -/

/-- A protection leg is added on paper, whatever legs and fills were written
before. -/
theorem protectPaper_turn (hw : WellFormed seen l) {l₁ : Ledger} {i i' : TradeIntentRow}
    {excess : OrderLegRow} {quantity : ℚ} {hq : 0 < quantity}
    (h : l₁.protectPaper i excess quantity now hq = .ok (i', l')) (hintents : l₁.intents = l.intents)
    (hpositions : l₁.positions = l.positions) (hi : i ∈ l.intents)
    (hflight : i.status.isInFlight = true) : Turn l l' := by
  obtain ⟨leg, -, -, rfl⟩ := Ledger.protectPaper_ok h
  have hmove : (l₁.moveIntent i .compensating i.failureCode).2.intents
      = (l.moveIntent i .compensating i.failureCode).2.intents := by
    show Table.put l₁.intents _ = Table.put l.intents _
    rw [hintents]
  exact .move hw hi hmove (fun _ => hflight.symm) hpositions

/-- The end of a paper opening brings a free position or none, whatever legs and
fills were written before. -/
theorem PaperOpened.turn (hw : WellFormed seen l) {l₁ : Ledger} {i : TradeIntentRow}
    {spot perp : OrderLegRow} (h : Ledger.PaperOpened i spot perp now l₁ l')
    (hintents : l₁.intents = l.intents) (hpositions : l₁.positions = l.positions)
    (hi : i ∈ l.intents) (haction : i.action = .opening) : Turn l l' := by
  have hput : ∀ status code, (l₁.moveIntent i status code).2.intents
      = (l.moveIntent i status code).2.intents := by
    intro status code
    show Table.put l₁.intents _ = Table.put l.intents _
    rw [hintents]
  cases h with
  | hedged hq => exact .open hw hi haction (hput _ _) ⟨rfl, rfl⟩ (congrArg (· ++ _) hpositions)
  | failed code =>
      refine .move hw hi (hput _ _) (fun hc => ?_) hpositions
      rw [haction] at hc
      cases hc

/-- A paper opening brings a free position. -/
theorem recordPaperOpenFills_turn (hw : WellFormed seen l) {intentId : Nat} {spotFill perpFill : ℚ}
    {r : Option Ledger.Settled}
    (h : Ledger.recordPaperOpenFills intentId spotFill perpFill now l = .ok (r, l')) :
    Turn l l' := by
  rcases Ledger.recordPaperOpenFills_ok h with
    rfl | ⟨i, spot, perp, hfilled, hfind, ⟨-, haction, hplanned⟩, hend⟩
  · exact .of_eq rfl rfl
  have hi := (Table.find?_some hfind).1
  rcases hend with ⟨_, _, _, _, -, hprotect⟩ | hend
  · exact protectPaper_turn hw hprotect rfl rfl hi (by rw [hplanned]; rfl)
  · exact PaperOpened.turn hw hend rfl rfl hi haction

/-- A paper compensation that fails keeps the reservation of its close. -/
theorem failPaperCompensation_turn (hw : WellFormed seen l) {i : TradeIntentRow} {c : OrderLegRow}
    (hi : i ∈ l.intents) (hcompensating : i.status = .compensating) :
    Turn l (l.failPaperCompensation i c).2 := by
  refine .move hw hi rfl (fun _ => ?_) rfl
  rw [hcompensating]
  rfl

/-- So does its compensation. -/
theorem executePaperCompensation_turn (hw : WellFormed seen l) {intentId : Nat} {succeeds : Bool}
    {r : Option Ledger.Settled}
    (h : Ledger.executePaperCompensation intentId succeeds now l = .ok (r, l')) : Turn l l' := by
  rcases Ledger.executePaperCompensation_ok h with
    rfl | ⟨i, spot, perp, c, hfind, ⟨-, haction, hcompensating⟩, -, -, hend⟩
  · exact .of_eq rfl rfl
  have hi := (Table.find?_some hfind).1
  rcases hend with rfl | hend
  · exact failPaperCompensation_turn hw hi hcompensating
  · exact PaperOpened.turn hw hend rfl rfl hi haction

/-- A close is booked on paper, whatever legs and fills were written before. -/
theorem applyPaperCloseOutcome_turn (hw : WellFormed seen l) {l₁ : Ledger} {i : TradeIntentRow}
    {p : PairedPositionRow} {spot perp : OrderLegRow} {fee : ℚ} {settled : Ledger.Settled}
    (h : l₁.applyPaperCloseOutcome i p spot perp fee now = .ok (settled, l'))
    (hintents : l₁.intents = l.intents) (hpositions : l₁.positions = l.positions)
    (hi : i ∈ l.intents) (hp : p ∈ l.positions) (hreserved : Ledger.isReserved p i) :
    Turn l l' := by
  obtain ⟨o, row, ho, -, rfl⟩ := Ledger.applyPaperCloseOutcome_ok h
  have hend : o.status.isInFlight = false := by
    simp only [Ledger.paperCloseOutcome, raiseIf_bind_eq_ok] at ho
    obtain ⟨_, -, ho⟩ := bind_eq_ok.mp ho.2
    cases ho
    dsimp only
    split <;> rfl
  obtain ⟨hid, hfree⟩ := paperAfterClose_free p o now
  have hmove : ∀ code, (l₁.moveIntent i o.status code).2.intents
      = (l.moveIntent i o.status code).2.intents := by
    intro code
    show Table.put l₁.intents _ = Table.put l.intents _
    rw [hintents]
  refine .settle hw hi (hmove _) hend hp hreserved hid hfree ?_
  show Table.put l₁.positions _ = _
  rw [hpositions]

/-- A paper close releases its position, or keeps it for the compensation. -/
theorem recordPaperCloseFills_turn (hw : WellFormed seen l) {intentId : Nat} {spotFill perpFill : ℚ}
    {r : Option Ledger.Settled}
    (h : Ledger.recordPaperCloseFills intentId spotFill perpFill now l = .ok (r, l')) :
    Turn l l' := by
  rcases Ledger.recordPaperCloseFills_ok h with
    rfl | ⟨i, p, spot, perp, hfilled, hfind, ⟨-, -, hplanned, hreserved, hposition⟩, hend⟩
  · exact .of_eq rfl rfl
  have hi := (Table.find?_some hfind).1
  rcases hend with ⟨_, _, _, _, -, hprotect⟩ | ⟨_, _, _, settled, happly⟩
  · exact protectPaper_turn hw hprotect rfl rfl hi (by rw [hplanned]; rfl)
  · exact applyPaperCloseOutcome_turn hw happly rfl rfl hi (positionOf_some hposition).1 hreserved

/-- And the compensation releases it. -/
theorem executePaperCloseCompensation_turn (hw : WellFormed seen l) {intentId : Nat}
    {succeeds : Bool} {r : Option Ledger.Settled}
    (h : Ledger.executePaperCloseCompensation intentId succeeds now l = .ok (r, l')) :
    Turn l l' := by
  rcases Ledger.executePaperCloseCompensation_ok h with
    rfl | ⟨i, p, c, hfind, ⟨-, -, hcompensating, hreserved, hposition⟩, -, hend⟩
  · exact .of_eq rfl rfl
  have hi := (Table.find?_some hfind).1
  rcases hend with rfl | ⟨_, _, _, settled, happly⟩
  · exact failPaperCompensation_turn hw hi hcompensating
  · exact applyPaperCloseOutcome_turn hw happly rfl rfl hi (positionOf_some hposition).1 hreserved

/-- What any committed transaction does to the reservations. -/
theorem TradeOp.turn (o : TradeOp) {r : o.Result} (hw : WellFormed seen l) (hh : Held l)
    (h : o.tx now l = .ok (r, l')) : Turn l l' := by
  cases o with
  | createOpen plan => exact createTradeIntent_turn h
  | createClose plan => exact createPaperCloseIntent_turn h
  | prepareSubmission intentId adjusted => exact prepareLiveSubmission_turn hw h
  | expirePlanned intentId => exact failPlanned_turn hw hh h
  | failMarketUnexecutable intentId => exact failPlanned_turn hw hh h
  | recordPreflightFailure intentId exchange code => exact recordLivePreflightFailure_turn hw h
  | settleOpen intentId => exact settleLiveOpen_turn hw h
  | settleClose intentId => exact settleLiveClose_turn hw h
  | paperOpenFills intentId spot perp => exact recordPaperOpenFills_turn hw h
  | paperCompensation intentId succeeds => exact executePaperCompensation_turn hw h
  | paperCloseFills intentId spot perp => exact recordPaperCloseFills_turn hw h
  | paperCloseCompensation intentId succeeds => exact executePaperCloseCompensation_turn hw h
  -- What is left writes single legs.
  | _ =>
      obtain ⟨hintents, hpositions, -⟩ := TradeOp.writesLeg_frame rfl h
      exact .of_eq hintents hpositions

/-! ## §4. Every sequence of transactions. -/

theorem Reachable.held {b : Books} (hb : Reachable b) : Held b.ledger := by
  induction hb with
  | init h =>
      refine ⟨fun i q hc => ?_, fun p hp => ?_, fun p hp => ?_⟩
      · obtain ⟨x, hx, -⟩ := hc
        rw [h.intents] at hx
        cases hx
      · rw [h.positions] at hp
        cases hp
      · rw [h.positions] at hp
        cases hp
  | step hb hs ih =>
      cases hs with
      | tx hi h => exact ih.turn hb.wellFormed (TradeOp.turn _ hb.wellFormed ih h)
      | control row => exact ih.turn hb.wellFormed (.of_eq rfl rfl)

/-- After every committed transaction a position is closing exactly when an
unsettled close holds it; an open one is held by none, and no position has two
unsettled closes. -/
theorem positions_reserved {b : Books} (hb : Reachable b) : Reservations b.ledger :=
  hb.held.reservations hb.wellFormed

/-- A position on its way out, and its close. -/
theorem positions_reserved_closing :
    ∃ b, Reachable b ∧ (∃ p ∈ b.ledger.positions, p.status = .closing) ∧ Reservations b.ledger := by
  obtain ⟨b, hb, hp⟩ := Books.exists_of_play (fun b => ∃ p ∈ b.ledger.positions, p.status = .closing)
    (Sample.opened ++ Sample.closing) (by decide +kernel)
  exact ⟨b, hb, hp, positions_reserved hb⟩

end BasisHawk.Paired
