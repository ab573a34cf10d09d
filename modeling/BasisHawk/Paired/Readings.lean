/-
  BasisHawk.Paired.Readings
  ─────────────────────────
  What a settlement has read when it decides.

  A reading is the intent (and the position it is to close) with its legs, of an
  intent the settlement does not pass over.  It is computed from the tables, so
  a statement about a settlement can be a statement about the tables before it.

  Main results:
    • `settleLiveOpen_eq`, `settleLiveClose_eq` — a settlement is its decision
      on the reading, applied,
    • `settleLiveClose_changed` — a settlement that writes has such a reading.
-/
import BasisHawk.Paired.Effects

namespace BasisHawk.Paired

open Domain Lib

/-! ## §1. Readings. -/

/-- What `settle_live_open` reads of an intent. -/
structure OpenReading where
  intent : TradeIntentRow
  layout : Layout
  deriving DecidableEq

/-- What `settle_live_close` reads of an intent. -/
structure CloseReading where
  intent : TradeIntentRow
  position : PairedPositionRow
  layout : Layout
  deriving DecidableEq

namespace Ledger

/-- The reading of an opening intent that is still to be settled. -/
def openReading (l : Ledger) (intentId : Nat) : Option OpenReading :=
  match Table.find? l.intents intentId with
  | none => none
  | some intent =>
      if (∀ p ∈ l.positions, p.openingIntentId ≠ intent.id) ∧ isSettleable intent .opening then
        match l.layout intent.id with
        | .ok y => some ⟨intent, y⟩
        | .error _ => none
      else none

/-- The reading of a closing intent that is still to be settled. -/
def closeReading (l : Ledger) (intentId : Nat) : Option CloseReading :=
  match Table.find? l.intents intentId with
  | none => none
  | some intent =>
      match l.positionOf intent with
      | none => none
      | some position =>
          if isSettleable intent .closing ∧ isReserved position intent then
            match l.layout intent.id with
            | .ok y => some ⟨intent, position, y⟩
            | .error _ => none
          else none

/-- What `settle_live_open` decides on its reading. -/
def openDecision (l : Ledger) (r : OpenReading) : Except Exc OpenVerdict :=
  openVerdict r.intent r.layout (l.fillsOfLeg r.layout.spot.id) (l.fillsOfIntent r.intent.id)

/-- What `settle_live_close` decides on its reading. -/
def closeDecision (l : Ledger) (r : CloseReading) : Except Exc CloseVerdict :=
  closeVerdict r.intent r.position r.layout (l.fillsOfIntent r.intent.id)

/-- The outcome a closing intent is to be booked with, where it is. -/
def decidedClose (l : Ledger) (r : CloseReading) : Option CloseOutcome :=
  match l.closeDecision r with
  | .ok (.settle o) => some o
  | _ => none

variable {l l' : Ledger} {intentId : Nat} {now : Int}

/-- A close that is decided is one whose verdict is to settle. -/
theorem decidedClose_some {r : CloseReading} {o : CloseOutcome} :
    l.decidedClose r = some o ↔ l.closeDecision r = .ok (.settle o) := by
  unfold decidedClose
  constructor
  · intro h
    split at h
    · next o' ho =>
        cases h
        exact ho
    · cases h
  · intro h
    rw [h]

/-- What the settlement of an opening reads: an intent that may be settled, with
no position yet, and its legs. -/
theorem openReading_some {r : OpenReading} :
    l.openReading intentId = some r ↔ Table.find? l.intents intentId = some r.intent
      ∧ (∀ p ∈ l.positions, p.openingIntentId ≠ r.intent.id) ∧ isSettleable r.intent .opening
      ∧ l.layout r.intent.id = .ok r.layout := by
  unfold openReading
  constructor
  · intro h
    split at h
    · cases h
    next intent hintent =>
    split at h
    · next hchecks =>
        split at h
        · next y hy =>
            cases h
            exact ⟨hintent, hchecks.1, hchecks.2, hy⟩
        · cases h
    · cases h
  · intro ⟨hintent, hnone, hsettleable, hy⟩
    rw [hintent]
    show (if _ then _ else _) = _
    rw [if_pos ⟨hnone, hsettleable⟩, hy]

/-- What the settlement of a close reads: an intent that may be settled, the
position it has reserved, and its legs. -/
theorem closeReading_some {r : CloseReading} :
    l.closeReading intentId = some r ↔ Table.find? l.intents intentId = some r.intent
      ∧ l.positionOf r.intent = some r.position ∧ isSettleable r.intent .closing
      ∧ isReserved r.position r.intent ∧ l.layout r.intent.id = .ok r.layout := by
  unfold closeReading
  constructor
  · intro h
    split at h
    · cases h
    next intent hintent =>
    split at h
    · cases h
    next position hposition =>
    split at h
    · next hchecks =>
        split at h
        · next y hy =>
            cases h
            exact ⟨hintent, hposition, hchecks.1, hchecks.2, hy⟩
        · cases h
    · cases h
  · intro ⟨hintent, hposition, hsettleable, hreserved, hy⟩
    rw [hintent]
    show (match l.positionOf r.intent with | none => none | some position => _) = _
    rw [hposition]
    show (if _ then _ else _) = _
    rw [if_pos ⟨hsettleable, hreserved⟩, hy]

/-! ## §2. A settlement is its decision, applied. -/

/-- Settling an opening in three parts: what is read, what is decided from it,
and what is applied. -/
theorem settleLiveOpen_eq {r : OpenReading} {verdict : OpenVerdict}
    (h : l.openReading intentId = some r) (hv : l.openDecision r = .ok verdict) :
    settleLiveOpen intentId now l
      = (l.applyOpen r.intent now verdict).map fun (settled, l') => (some settled, l') := by
  obtain ⟨hintent, hnone, hsettleable, hy⟩ := openReading_some.mp h
  have hfind : l.positions.find? (·.openingIntentId = r.intent.id) = none := by
    rw [List.find?_eq_none]
    intro p hp
    simpa using hnone p hp
  unfold openDecision at hv
  simp only [settleLiveOpen, hintent, hfind, hsettleable, not_true, if_false, hy]
  show (openVerdict _ _ _ _ >>= _) = _
  rw [hv]
  show (l.applyOpen r.intent now verdict >>= _) = _
  cases l.applyOpen r.intent now verdict <;> rfl

/-- Settling a close in the same three parts. -/
theorem settleLiveClose_eq {r : CloseReading} {verdict : CloseVerdict}
    (h : l.closeReading intentId = some r) (hv : l.closeDecision r = .ok verdict) :
    settleLiveClose intentId now l
      = (l.applyClose r.intent r.position now verdict).map
          fun (settled, l') => (some settled, l') := by
  obtain ⟨hintent, hposition, hsettleable, hreserved, hy⟩ := closeReading_some.mp h
  have hopen : ¬(r.intent.status.isTerminal = true
      ∨ ¬(isSettleable r.intent .closing ∧ isReserved r.position r.intent)) := by
    rw [hsettleable.open_]
    simp [hsettleable, hreserved]
  unfold closeDecision at hv
  simp only [settleLiveClose, hintent, hposition, hopen, if_false, hy]
  show (closeVerdict _ _ _ _ >>= _) = _
  rw [hv]
  show (l.applyClose r.intent r.position now verdict >>= _) = _
  cases l.applyClose r.intent r.position now verdict <;> rfl

/-- A settlement that changes something has read the intent and decided. -/
theorem settleLiveOpen_changed {i : TradeIntentRow} {p : Option PairedPositionRow}
    (h : settleLiveOpen intentId now l = .ok (some (i, p, true), l')) :
    ∃ r verdict, l.openReading intentId = some r ∧ l.openDecision r = .ok verdict
      ∧ l.applyOpen r.intent now verdict = .ok ((i, p, true), l') := by
  rcases settleLiveOpen_ok h with ⟨-, hne⟩ | ⟨intent, y, verdict, settled, hintent, hnone,
    hsettleable, hy, hverdict, happly, hsettled⟩
  · exact absurd rfl (hne i p)
  · cases hsettled
    exact ⟨⟨intent, y⟩, verdict, openReading_some.mpr ⟨hintent, hnone, hsettleable, hy⟩, hverdict,
      happly⟩

/-- A settlement that changes something has read and decided. -/
theorem settleLiveClose_changed {i : TradeIntentRow} {p : Option PairedPositionRow}
    (h : settleLiveClose intentId now l = .ok (some (i, p, true), l')) :
    ∃ r verdict, l.closeReading intentId = some r ∧ l.closeDecision r = .ok verdict
      ∧ l.applyClose r.intent r.position now verdict = .ok ((i, p, true), l') := by
  rcases settleLiveClose_ok h with ⟨-, hne⟩ | ⟨intent, position, y, verdict, settled, hintent,
    hposition, hsettleable, hreserved, hy, hverdict, happly, hsettled⟩
  · exact absurd rfl (hne i p)
  · cases hsettled
    exact ⟨⟨intent, position, y⟩, verdict,
      closeReading_some.mpr ⟨hintent, hposition, hsettleable, hreserved, hy⟩, hverdict, happly⟩

/-- The intent and the position of a settlement that has changed something, with
the ledger after it. -/
def settledBy (x : Except Exc (Option Settled × Ledger)) :
    Option (TradeIntentRow × PairedPositionRow × Ledger) :=
  match x with
  | .ok (some (i, some p, true), l') => some (i, p, l')
  | _ => none

/-- What a settlement that has changed something answers. -/
theorem settledBy_some {x : Except Exc (Option Settled × Ledger)} {i : TradeIntentRow}
    {p : PairedPositionRow} :
    settledBy x = some (i, p, l') ↔ x = .ok (some (i, some p, true), l') := by
  unfold settledBy
  constructor
  · intro h
    split at h
    · cases h
      rfl
    · cases h
  · intro h
    rw [h]

end Ledger

/-! ## §3. The primary quantities of a reading. -/

/-- The primary quantities net of the compensation. -/
def adjustedBases (y : Layout) (c : OrderLegRow) : ℚ × ℚ :=
  netOfCompensation y.spot.filledBase y.perp.filledBase
    (y.excess y.spot.filledBase y.perp.filledBase) c

/-- The compensation has undone everything: no perpetual is left closed. -/
def ClosesNothing (y : Layout) : Prop :=
  ¬numericEqual y.spot.filledBase y.perp.filledBase
    ∧ ∃ c ∈ y.compensation, (adjustedBases y c).2 = 0

instance (y : Layout) : Decidable (ClosesNothing y) :=
  inferInstanceAs (Decidable (_ ∧ ∃ c ∈ y.compensation, _))

end BasisHawk.Paired
