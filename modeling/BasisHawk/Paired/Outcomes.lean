/-
  BasisHawk.Paired.Outcomes
  ─────────────────────────
  The life of a trade intent, and what is left when it is over.

  An intent is planned, executed, perhaps compensated, and ends hedged, closed,
  failed or in manual review.  What it leaves is booked in the transaction that
  ends it: a position for a hedged open, a realization for a close.

  Main results:
    • `TradeOp.outcome` — what every transaction does to the intents and to what
      they leave,
    • `intent_life` — over any sequence of transactions an intent moves along
      `TradeIntentRow.next`, one version at a time, and never from an end,
    • `intent_booked` — a hedged open has one position and a closed close one
      realization, an intent that is not over has neither.
-/
import BasisHawk.Paired.FillBook
import BasisHawk.Paired.Origins

namespace BasisHawk.Paired

open Domain Lib Accounts
open Relation (ReflTransGen)

/-! ## §1. The life of an intent. -/

namespace TradeIntentRow

/-- The status of an intent that has done what it was planned for. -/
def goal (i : TradeIntentRow) : IntentStatus :=
  match i.action with
  | .opening => .hedged
  | .closing => .closed

/-- The statuses the transactions move an intent to.  Orders of a paper intent
fill when they are placed, so it is never executing; a failed preflight leaves
an intent planned. -/
def next (i : TradeIntentRow) : List IntentStatus :=
  match i.status, i.environment with
  | .planned, .paper => [.planned, .compensating, .failed, i.goal]
  | .planned, _ => [.planned, .executing, .failed]
  | .executing, .paper => []
  | .executing, _ => [.compensating, .manualReview, .failed, i.goal]
  | .compensating, _ => [.manualReview, .failed, i.goal]
  | _, _ => []

/-- One move: a status that follows, the next version, and the failure code that
goes with the status. -/
structure Moved (i j : TradeIntentRow) : Prop where
  row : ∃ status code, status ∈ i.next ∧ j = { i with
    status := status, failureCode := code, version := i.version + 1 }
  failed : j.status = .failed → j.failureCode.isSome
  coded : j.failureCode = none ∨ (j.failureCode = i.failureCode ∧ j.status ≠ .executing)
    ∨ j.status = .failed ∨ j.status = .planned

/-- An intent that has moved is the same intent. -/
theorem Moved.same {i j : TradeIntentRow} (h : i.Moved j) : j.SameIntent i := by
  obtain ⟨status, code, -, rfl⟩ := h.row
  exact ⟨rfl, rfl, rfl, rfl, rfl, rfl⟩

theorem Moved.version {i j : TradeIntentRow} (h : i.Moved j) : j.version = i.version + 1 := by
  obtain ⟨status, code, -, rfl⟩ := h.row
  rfl

/-- The ends of an intent. -/
theorem next_eq_nil {i : TradeIntentRow} (h : i.status = .hedged ∨ i.status = .closed
    ∨ i.status = .failed ∨ i.status = .manualReview) : i.next = [] := by
  unfold next
  rcases h with h | h | h | h <;> rw [h]

/-- No intent leaves an end. -/
theorem Moved.not_over {i j : TradeIntentRow} (h : i.Moved j) : i.next ≠ [] := by
  obtain ⟨status, code, hnext, -⟩ := h.row
  exact List.ne_nil_of_mem hnext

/-- A goal is reached by the one action. -/
theorem goal_of_mem {i : TradeIntentRow} {s : IntentStatus} (h : s ∈ i.next)
    (hs : s = .hedged ∨ s = .closed) : s = i.goal := by
  unfold next at h
  split at h <;> simp only [List.mem_cons, List.not_mem_nil, or_false] at h
  all_goals
    rcases hs with rfl | rfl
    · simp_all
    · simp_all

end TradeIntentRow

/-! ## §2. What a transaction does. -/

/-- The intents that have opened a position. -/
def openings (l : Ledger) : List Nat := l.positions.map (·.openingIntentId)

/-- The intents that have booked a close. -/
def closings (l : Ledger) : List Nat := l.realizations.map (·.closingIntentId)

variable {seen : List PairedPositionRow} {l l' : Ledger} {o : TradeOp} {now : Int}

/-- What a transaction does to the intents and to what they leave: nothing, a
new intent, or a move of one that books what it leaves. -/
inductive Outcome (l l' : Ledger) : Prop
  | still (hintents : l'.intents = l.intents) (hopenings : openings l' = openings l)
      (hclosings : closings l' = closings l)
  | plan {i : TradeIntentRow} (hid : i.id = l.nextId) (hstatus : i.status = .planned)
      (hcode : i.failureCode = none) (hintents : l'.intents = l.intents ++ [i])
      (hopenings : openings l' = openings l) (hclosings : closings l' = closings l)
  | move {i j : TradeIntentRow} (hi : i ∈ l.intents) (hmoved : i.Moved j)
      (hintents : l'.intents = Table.put l.intents j) (booked : Bool)
      (hopenings : openings l' = openings l ++ if j.status = .hedged then [i.id] else [])
      (hclosings : closings l' = closings l ++ if booked then [i.id] else [])
      (hclosed : j.status = .closed → booked = true)
      (hbooked : booked = true → i.action = .closing ∧ (j.status = .closed ∨ j.status = .failed))

/-- A move that books nothing. -/
theorem Outcome.of_move {i : TradeIntentRow} {status : IntentStatus} {code : Option FailureCode}
    (hintents : l'.intents = (l.moveIntent i status code).2.intents) (hi : i ∈ l.intents)
    (hnext : status ∈ i.next) (hgoal : status ≠ .hedged ∧ status ≠ .closed)
    (hfailed : status = .failed → code.isSome)
    (hcode : code = none ∨ (code = i.failureCode ∧ status ≠ .executing) ∨ status = .failed
      ∨ status = .planned)
    (hopenings : openings l' = openings l) (hclosings : closings l' = closings l) :
    Outcome l l' := by
  refine .move hi ⟨⟨status, code, hnext, rfl⟩, hfailed, hcode⟩ hintents false ?_ ?_
    (fun h => absurd h hgoal.2) fun h => (by cases h)
  · rw [if_neg hgoal.1, List.append_nil, hopenings]
  · rw [if_neg Bool.false_ne_true, List.append_nil, hclosings]

/-- An open that leaves a position. -/
theorem Outcome.of_hedge {i : TradeIntentRow} {p : PairedPositionRow} (hi : i ∈ l.intents)
    (hnext : .hedged ∈ i.next) (hintents : l'.intents
      = (l.moveIntent i .hedged i.failureCode).2.intents)
    (hp : l'.positions = l.positions ++ [p]) (hpi : p.openingIntentId = i.id)
    (hclosings : closings l' = closings l) : Outcome l l' := by
  refine .move hi ⟨⟨.hedged, i.failureCode, hnext, rfl⟩, fun h => (by cases h),
    .inr (.inl ⟨rfl, fun h => (by cases h)⟩)⟩ hintents false ?_ ?_
    (fun h => (by cases h)) fun h => (by cases h)
  · rw [if_pos rfl]
    unfold openings
    rw [hp, List.map_append, List.map_singleton, hpi]
  · rw [if_neg Bool.false_ne_true, List.append_nil, hclosings]

/-- A close that is booked. -/
theorem Outcome.of_book {i : TradeIntentRow} {status : IntentStatus} {code : Option FailureCode}
    {row : PnlRealizationRow} (hintents : l'.intents = (l.moveIntent i status code).2.intents)
    (hi : i ∈ l.intents) (hnext : status ∈ i.next)
    (haction : i.action = .closing) (hstatus : status = .closed ∨ status = .failed)
    (hfailed : status = .failed → code.isSome) (hcode : code = i.failureCode ∨ status = .failed)
    (hopenings : openings l' = openings l) (hr : l'.realizations = l.realizations ++ [row])
    (hri : row.closingIntentId = i.id) : Outcome l l' := by
  have hne : status ≠ .hedged ∧ status ≠ .executing := by
    rcases hstatus with rfl | rfl <;> decide
  refine .move hi ⟨⟨status, code, hnext, rfl⟩, hfailed, ?_⟩ hintents true ?_ ?_
    (fun _ => rfl) fun _ => ⟨haction, hstatus⟩
  · exact .inr (hcode.imp (fun h => ⟨h, hne.2⟩) .inl)
  · rw [if_neg hne.1, List.append_nil, hopenings]
  · rw [if_pos rfl]
    unfold closings
    rw [hr, List.map_append, List.map_singleton, hri]

/-- A position that is rewritten was opened by the same intent. -/
theorem openings_put {p new : PairedPositionRow} (h : l'.positions = Table.put l.positions new)
    (hu : Table.Unique l.positions) (hp : p ∈ l.positions) (hid : new.id = p.id)
    (hnew : new.SamePosition p) : openings l' = openings l := by
  unfold openings
  rw [h]
  refine Table.map_put fun old hold hk => ?_
  rw [hu.eq hold hp (hk.trans hid)]
  exact hnew.openingIntentId.symm

/-! ### Planning and submitting. -/

/-- A new opening begins planned, at its first version. -/
theorem createTradeIntent_outcome {plan : OpenPlan} {r : TradeIntentRow × Bool}
    (h : Ledger.createTradeIntent plan now l = .ok (r, l')) : Outcome l l' := by
  rcases Ledger.createTradeIntent_ok h with ⟨rfl, -⟩ | ⟨-, -, rfl⟩
  · exact .still rfl rfl rfl
  · exact .plan rfl rfl rfl rfl rfl rfl

/-- So does a new close. -/
theorem createPaperCloseIntent_outcome (hw : WellFormed seen l) {plan : ClosePlan}
    {r : TradeIntentRow × Bool} (h : Ledger.createPaperCloseIntent plan now l = .ok (r, l')) :
    Outcome l l' := by
  rcases Ledger.createPaperCloseIntent_ok h with ⟨rfl, -⟩ | ⟨position, hposition, -, -, -, rfl⟩
  · exact .still rfl rfl rfl
  · have hp := (Table.find?_some hposition).1
    exact .plan rfl rfl rfl rfl (openings_put rfl hw.positions_unique hp rfl ⟨rfl, rfl, rfl⟩) rfl

/-- The hand-out moves an intent from planned to executing, or finds it
executing. -/
theorem prepareLiveSubmission_outcome {intentId : Nat} {adjusted : Option ℚ} {r : Ledger.Prepared}
    (h : Ledger.prepareLiveSubmission intentId adjusted l = .ok (r, l')) : Outcome l l' := by
  rcases Ledger.prepareLiveSubmission_ok h with ⟨rfl, -⟩ | ⟨i, spot, perp, price, hq, hi, hplanned,
    hlive, -, -, -, -, rfl, -⟩
  · exact .still rfl rfl rfl
  · refine .of_move rfl (Table.find?_some hi).1 ?_ (by decide) (fun h => (by cases h))
      (.inl rfl) rfl rfl
    unfold TradeIntentRow.next
    rw [hplanned]
    cases henv : i.environment with
    | paper => exact absurd henv hlive
    | sandbox | live => simp

/-- A planned intent at an exchange may be given up. -/
theorem TradeIntentRow.planned_next {i : TradeIntentRow} (h : i.status = .planned) :
    .planned ∈ i.next ∧ .failed ∈ i.next := by
  unfold TradeIntentRow.next
  rw [h]
  cases i.environment <;> simp

/-- A planned intent fails, and books nothing. -/
theorem failPlanned_outcome (hw : WellFormed seen l) {intentId : Nat} {code : FailureCode} {r : Bool}
    (h : Ledger.failPlanned intentId code l = .ok (r, l')) : Outcome l l' := by
  rcases Ledger.failPlanned_ok h with rfl | ⟨i, hi, ⟨-, hplanned⟩, hend⟩
  · exact .still rfl rfl rfl
  have hnext := (TradeIntentRow.planned_next hplanned).2
  rcases hend with ⟨p, hp, -, rfl⟩ | ⟨rfl, -⟩
  · exact .of_move rfl (Table.find?_some hi).1 hnext (by decide) (fun _ => rfl)
      (.inr (.inr (.inl rfl)))
      (openings_put rfl hw.positions_unique (positionOf_some hp).1 rfl ⟨rfl, rfl, rfl⟩) rfl
  · exact .of_move rfl (Table.find?_some hi).1 hnext (by decide) (fun _ => rfl)
      (.inr (.inr (.inl rfl))) rfl rfl

/-- Where the preflight fails, so does the intent. -/
theorem recordLivePreflightFailure_outcome {intentId : Nat} {exchange : Exchange}
    {code : FailureCode} {u : Unit}
    (h : Ledger.recordLivePreflightFailure intentId exchange code l = .ok (u, l')) :
    Outcome l l' := by
  obtain ⟨reason, rfl | ⟨i, hi, hplanned, rfl⟩⟩ := Ledger.recordLivePreflightFailure_ok h
  · exact .still rfl rfl rfl
  · exact .of_move rfl (Table.find?_some hi).1 (TradeIntentRow.planned_next hplanned).1
      (by decide) (fun h => (by cases h)) (.inr (.inr (.inr rfl))) rfl rfl

/-! ### Settling. -/

/-- Where a settlement may move an intent. -/
theorem settleable_next {i : TradeIntentRow} {action : TradeAction}
    (h : Ledger.isSettleable i action) : .manualReview ∈ i.next ∧ .failed ∈ i.next ∧ i.goal ∈ i.next
      ∧ (i.status = .executing → .compensating ∈ i.next) := by
  obtain ⟨henv, -, hs⟩ := h
  unfold TradeIntentRow.next
  rcases hs with hs | hs <;> rw [hs] <;> rcases henv with henv | henv <;> rw [henv] <;> simp

/-- A protection moves its intent to compensating. -/
theorem protect_outcome {i i' : TradeIntentRow} {excess : OrderLegRow} {base : ℚ}
    (hi : i ∈ l.intents) (hnext : .compensating ∈ i.next)
    (h : l.protect i excess base now = .ok (i', l')) : Outcome l l' := by
  obtain ⟨leg, -, -, rfl⟩ := Ledger.protect_ok h
  exact .of_move rfl hi hnext (by decide) (fun h => (by cases h))
    (.inr (.inl ⟨rfl, by decide⟩)) rfl rfl

/-- A settled opening is hedged with one position booked, closed with none,
protected, or left for review. -/
theorem settleLiveOpen_outcome {intentId : Nat} {r : Option Ledger.Settled}
    (h : Ledger.settleLiveOpen intentId now l = .ok (r, l')) : Outcome l l' := by
  rcases Ledger.settleLiveOpen_ok h with ⟨rfl, -⟩ | ⟨i, y, verdict, settled, hfind, -, hsettleable,
    -, hverdict, happly, -⟩
  · exact .still rfl rfl rfl
  have hi := (Table.find?_some hfind).1
  obtain ⟨hreview, hfailed, hgoal, hcompensating⟩ := settleable_next hsettleable
  cases verdict with
  | pending =>
      cases happly
      exact .still rfl rfl rfl
  | noFills =>
      cases happly
      exact .of_move rfl hi hfailed (by decide) (fun _ => rfl) (.inr (.inr (.inl rfl))) rfl rfl
  | protect excess base =>
      obtain ⟨⟨i', l₁⟩, hprotect, happly⟩ := bind_eq_ok.mp happly
      cases happly
      exact protect_outcome hi (hcompensating (Ledger.openVerdict_protect hverdict).2.2) hprotect
  | review =>
      cases happly
      exact .of_move rfl hi hreview (by decide) (fun h => (by cases h))
        (.inr (.inl ⟨rfl, by decide⟩)) rfl rfl
  | neutralized =>
      cases happly
      exact .of_move rfl hi hfailed (by decide) (fun _ => rfl) (.inr (.inr (.inl rfl))) rfl rfl
  -- The one verdict with a position: `hedged` is what an opening is for.
  | hedge quantity s p cost =>
      cases happly
      have hhedged : IntentStatus.hedged = i.goal := by
        unfold TradeIntentRow.goal
        rw [hsettleable.2.1]
      exact .of_hedge hi (hhedged ▸ hgoal) rfl rfl rfl rfl

/-- A settled close books its realization as it ends, and only then. -/
theorem settleLiveClose_outcome (hw : WellFormed seen l) {intentId : Nat}
    {r : Option Ledger.Settled} (h : Ledger.settleLiveClose intentId now l = .ok (r, l')) :
    Outcome l l' := by
  rcases Ledger.settleLiveClose_ok h with ⟨rfl, -⟩ | ⟨i, position, y, verdict, settled, hfind,
    hposition, hsettleable, -, -, hverdict, happly, -⟩
  · exact .still rfl rfl rfl
  have hi := (Table.find?_some hfind).1
  have hp := (positionOf_some hposition).1
  obtain ⟨hreview, hfailed, hgoal, hcompensating⟩ := settleable_next hsettleable
  have hclosed : IntentStatus.closed = i.goal := by
    unfold TradeIntentRow.goal
    rw [hsettleable.2.1]
  cases verdict with
  | pending =>
      cases happly
      exact .still rfl rfl rfl
  -- Nothing was filled: the close failed and books nothing.
  | noFills =>
      cases happly
      exact .of_move rfl hi hfailed (by decide) (fun _ => rfl) (.inr (.inr (.inl rfl)))
        (openings_put rfl hw.positions_unique hp rfl ⟨rfl, rfl, rfl⟩) rfl
  | protect excess base =>
      obtain ⟨⟨i', l₁⟩, hprotect, happly⟩ := bind_eq_ok.mp happly
      cases happly
      exact protect_outcome hi (hcompensating (Ledger.closeVerdict_protect hverdict).2.2) hprotect
  -- An operator has to look at it; the intent keeps its code.
  | review =>
      cases happly
      exact .of_move rfl hi hreview (by decide) (fun h => (by cases h))
        (.inr (.inl ⟨rfl, by decide⟩)) rfl rfl
  | settle o =>
      have hstatus := closeVerdict_settled hverdict
      have hnext : o.status ∈ i.next := by
        rcases hstatus with hs | hs <;> rw [hs]
        · exact hclosed ▸ hgoal
        · exact hfailed
      obtain ⟨l₁, hrow, happly⟩ := bind_eq_ok.mp happly
      obtain ⟨-, -, -, -, row, hrecords, rfl⟩ := Ledger.insertRealization_ok hrow
      cases happly
      refine .of_book rfl hi hnext hsettleable.2.1 hstatus ?_ ?_
        (openings_put rfl hw.positions_unique hp (afterClose_free position o now).1
          (afterClose_same position o)) rfl hrecords.intent
      · intro hf
        unfold Ledger.closeFailureCode
        rw [if_pos hf]
        rfl
      · unfold Ledger.closeFailureCode
        split
        · next hf => exact .inr hf
        · exact .inl rfl

/-! ### Paper executions. -/

/-- Where the paper executions move an intent. -/
theorem paper_next {i : TradeIntentRow} (henv : i.environment = .paper) :
    (i.status = .planned → .compensating ∈ i.next ∧ .failed ∈ i.next ∧ i.goal ∈ i.next)
      ∧ (i.status = .compensating → .manualReview ∈ i.next ∧ .failed ∈ i.next ∧ i.goal ∈ i.next) := by
  unfold TradeIntentRow.next
  constructor
  · intro hs
    rw [hs, henv]
    simp
  · intro hs
    rw [hs, henv]
    simp

/-- A protection leg is added on paper, whatever legs and fills were written
before. -/
theorem protectPaper_outcome {l₁ : Ledger} {i i' : TradeIntentRow} {excess : OrderLegRow}
    {quantity : ℚ} {hq : 0 < quantity} (hi : i ∈ l.intents) (hnext : .compensating ∈ i.next)
    (h : l₁.protectPaper i excess quantity now hq = .ok (i', l'))
    (hintents : l₁.intents = l.intents) (hpositions : l₁.positions = l.positions)
    (hrealizations : l₁.realizations = l.realizations) : Outcome l l' := by
  obtain ⟨leg, -, -, rfl⟩ := Ledger.protectPaper_ok h
  have hput : (l₁.moveIntent i .compensating i.failureCode).2.intents
      = (l.moveIntent i .compensating i.failureCode).2.intents := by
    show Table.put l₁.intents _ = Table.put l.intents _
    rw [hintents]
  exact .of_move hput hi hnext (by decide) (fun h => (by cases h)) (.inr (.inl ⟨rfl, by decide⟩))
    (congrArg (List.map _) hpositions) (congrArg (List.map _) hrealizations)

/-- A close is booked on paper, whatever legs and fills were written before. -/
theorem applyPaperCloseOutcome_outcome (hw : WellFormed seen l) {l₁ : Ledger} {i : TradeIntentRow}
    {p : PairedPositionRow} {spot perp : OrderLegRow} {fee : ℚ} {settled : Ledger.Settled}
    (h : l₁.applyPaperCloseOutcome i p spot perp fee now = .ok (settled, l'))
    (hintents : l₁.intents = l.intents) (hpositions : l₁.positions = l.positions)
    (hrealizations : l₁.realizations = l.realizations) (hi : i ∈ l.intents) (hp : p ∈ l.positions)
    (haction : i.action = .closing) (hgoal : i.goal ∈ i.next) (hfailed : .failed ∈ i.next) :
    Outcome l l' := by
  obtain ⟨outcome, row, ho, hrecords, rfl⟩ := Ledger.applyPaperCloseOutcome_ok h
  have hstatus : outcome.status = .closed ∨ outcome.status = .failed := by
    simp only [Ledger.paperCloseOutcome, raiseIf_bind_eq_ok] at ho
    obtain ⟨_, -, ho⟩ := bind_eq_ok.mp ho.2
    cases ho
    dsimp only
    split
    · exact .inl rfl
    · exact .inr rfl
  have hclosed : IntentStatus.closed = i.goal := by
    unfold TradeIntentRow.goal
    rw [haction]
  have hnext : outcome.status ∈ i.next := by
    rcases hstatus with hs | hs <;> rw [hs]
    · exact hclosed ▸ hgoal
    · exact hfailed
  set code := if outcome.status = .failed then some FailureCode.noFills else i.failureCode with hcode
  have hmove : (l₁.moveIntent i outcome.status code).2.intents
      = (l.moveIntent i outcome.status code).2.intents := by
    show Table.put l₁.intents _ = Table.put l.intents _
    rw [hintents]
  have hput : Table.put l₁.positions (Ledger.paperAfterClose p outcome now)
      = Table.put l.positions (Ledger.paperAfterClose p outcome now) := by
    rw [hpositions]
  have hrow : l₁.realizations ++ [row] = l.realizations ++ [row] := by
    rw [hrealizations]
  -- Only a close without fills gets a code.
  refine .of_book hmove hi hnext haction hstatus (fun hf => ?_) ?_
    (openings_put hput hw.positions_unique hp (paperAfterClose_free p outcome now).1
      (paperAfterClose_same p outcome)) hrow hrecords.intent
  · rw [hcode, if_pos hf]
    rfl
  · rw [hcode]
    split
    · next hf => exact .inr hf
    · exact .inl rfl

/-- A paper opening ends hedged with its position, or failed, whatever legs and
fills were written before. -/
theorem PaperOpened.outcome {l₁ : Ledger} {i : TradeIntentRow} {spot perp : OrderLegRow}
    (h : Ledger.PaperOpened i spot perp now l₁ l') (hintents : l₁.intents = l.intents)
    (hpositions : l₁.positions = l.positions) (hrealizations : l₁.realizations = l.realizations)
    (hi : i ∈ l.intents) (haction : i.action = .opening) (hgoal : i.goal ∈ i.next)
    (hfailed : .failed ∈ i.next) : Outcome l l' := by
  have hhedged : IntentStatus.hedged = i.goal := by
    unfold TradeIntentRow.goal
    rw [haction]
  have hput : ∀ status code, (l₁.moveIntent i status code).2.intents
      = (l.moveIntent i status code).2.intents := by
    intro status code
    show Table.put l₁.intents _ = Table.put l.intents _
    rw [hintents]
  cases h with
  | hedged hq =>
      exact .of_hedge hi (hhedged ▸ hgoal) (hput _ _) (congrArg (· ++ _) hpositions) rfl
        (congrArg (List.map _) hrealizations)
  | failed code =>
      exact .of_move (hput _ _) hi hfailed (by decide) (fun _ => rfl) (.inr (.inr (.inl rfl)))
        (congrArg (List.map _) hpositions) (congrArg (List.map _) hrealizations)

/-- A paper opening is hedged with its position, fails, or goes on to a
compensation. -/
theorem recordPaperOpenFills_outcome {intentId : Nat} {spotFill perpFill : ℚ}
    {r : Option Ledger.Settled}
    (h : Ledger.recordPaperOpenFills intentId spotFill perpFill now l = .ok (r, l')) :
    Outcome l l' := by
  rcases Ledger.recordPaperOpenFills_ok h with
    rfl | ⟨i, spot, perp, hfilled, hfind, ⟨henv, haction, hstatus⟩, hend⟩
  · exact .still rfl rfl rfl
  have hi := (Table.find?_some hfind).1
  obtain ⟨hcompensating, hfailed, hgoal⟩ := (paper_next henv).1 hstatus
  rcases hend with ⟨_, _, _, _, -, hprotect⟩ | hend
  · exact protectPaper_outcome hi hcompensating hprotect rfl rfl rfl
  · exact PaperOpened.outcome hend rfl rfl rfl hi haction hgoal hfailed

/-- A paper compensation that fails leaves its intent to the operator. -/
theorem failPaperCompensation_outcome {i : TradeIntentRow} {c : OrderLegRow} (hi : i ∈ l.intents)
    (hreview : .manualReview ∈ i.next) : Outcome l (l.failPaperCompensation i c).2 :=
  .of_move rfl hi hreview (by decide) (fun h => (by cases h)) (.inr (.inl ⟨rfl, by decide⟩)) rfl rfl

/-- A paper compensation leaves its position or none, and ends the intent. -/
theorem executePaperCompensation_outcome {intentId : Nat} {succeeds : Bool}
    {r : Option Ledger.Settled}
    (h : Ledger.executePaperCompensation intentId succeeds now l = .ok (r, l')) : Outcome l l' := by
  rcases Ledger.executePaperCompensation_ok h with
    rfl | ⟨i, spot, perp, c, hfind, ⟨henv, haction, hstatus⟩, -, -, hend⟩
  · exact .still rfl rfl rfl
  have hi := (Table.find?_some hfind).1
  obtain ⟨hreview, hfailed, hgoal⟩ := (paper_next henv).2 hstatus
  rcases hend with rfl | hend
  · exact failPaperCompensation_outcome hi hreview
  · exact PaperOpened.outcome hend rfl rfl rfl hi haction hgoal hfailed

/-- A paper close books its realization, or goes on to a compensation. -/
theorem recordPaperCloseFills_outcome (hw : WellFormed seen l) {intentId : Nat}
    {spotFill perpFill : ℚ} {r : Option Ledger.Settled}
    (h : Ledger.recordPaperCloseFills intentId spotFill perpFill now l = .ok (r, l')) :
    Outcome l l' := by
  rcases Ledger.recordPaperCloseFills_ok h with
    rfl | ⟨i, p, spot, perp, hfilled, hfind, ⟨henv, haction, hstatus, -, hposition⟩, hend⟩
  · exact .still rfl rfl rfl
  have hi := (Table.find?_some hfind).1
  obtain ⟨hcompensating, hfailed, hgoal⟩ := (paper_next henv).1 hstatus
  rcases hend with ⟨_, _, _, _, -, hprotect⟩ | ⟨_, _, _, settled, happly⟩
  · exact protectPaper_outcome hi hcompensating hprotect rfl rfl rfl
  · exact applyPaperCloseOutcome_outcome hw happly rfl rfl rfl hi (positionOf_some hposition).1
      haction hgoal hfailed

/-- And the compensation books what it leaves. -/
theorem executePaperCloseCompensation_outcome (hw : WellFormed seen l) {intentId : Nat}
    {succeeds : Bool} {r : Option Ledger.Settled}
    (h : Ledger.executePaperCloseCompensation intentId succeeds now l = .ok (r, l')) :
    Outcome l l' := by
  rcases Ledger.executePaperCloseCompensation_ok h with
    rfl | ⟨i, p, c, hfind, ⟨henv, haction, hstatus, -, hposition⟩, -, hend⟩
  · exact .still rfl rfl rfl
  have hi := (Table.find?_some hfind).1
  obtain ⟨hreview, hfailed, hgoal⟩ := (paper_next henv).2 hstatus
  rcases hend with rfl | ⟨_, _, _, settled, happly⟩
  · exact failPaperCompensation_outcome hi hreview
  · exact applyPaperCloseOutcome_outcome hw happly rfl rfl rfl hi (positionOf_some hposition).1
      haction hgoal hfailed

/-- What every committed transaction does to the intents and to what they
leave. -/
theorem TradeOp.outcome (o : TradeOp) {r : o.Result} (hw : WellFormed seen l)
    (h : o.tx now l = .ok (r, l')) : Outcome l l' := by
  cases o with
  | createOpen plan => exact createTradeIntent_outcome h
  | createClose plan => exact createPaperCloseIntent_outcome hw h
  | prepareSubmission intentId adjusted => exact prepareLiveSubmission_outcome h
  | expirePlanned intentId => exact failPlanned_outcome hw h
  | failMarketUnexecutable intentId => exact failPlanned_outcome hw h
  | recordPreflightFailure intentId exchange code => exact recordLivePreflightFailure_outcome h
  | settleOpen intentId => exact settleLiveOpen_outcome h
  | settleClose intentId => exact settleLiveClose_outcome hw h
  | paperOpenFills intentId spot perp => exact recordPaperOpenFills_outcome h
  | paperCompensation intentId succeeds => exact executePaperCompensation_outcome h
  | paperCloseFills intentId spot perp => exact recordPaperCloseFills_outcome hw h
  | paperCloseCompensation intentId succeeds => exact executePaperCloseCompensation_outcome hw h
  -- What is left writes single legs.
  | _ =>
      obtain ⟨hintents, hpositions, hrealizations⟩ := TradeOp.writesLeg_frame rfl h
      exact .still hintents (congrArg (List.map _) hpositions) (congrArg (List.map _) hrealizations)

/-! ## §3. Any sequence of transactions. -/

/-- An intent that moves has not reached an end. -/
theorem TradeIntentRow.Moved.not_ended {i j : TradeIntentRow} (h : i.Moved j) :
    i.status ≠ .hedged ∧ i.status ≠ .closed ∧ i.status ≠ .failed ∧ i.status ≠ .manualReview := by
  have hne := h.not_over
  refine ⟨fun hs => ?_, fun hs => ?_, fun hs => ?_, fun hs => ?_⟩ <;>
    exact hne (TradeIntentRow.next_eq_nil (by simp [hs]))

/-- What becomes of an intent in a transaction. -/
theorem Outcome.forth (h : Outcome l l') (hw : WellFormed seen l) {i : TradeIntentRow}
    (hi : i ∈ l.intents) : i ∈ l'.intents ∨ ∃ j ∈ l'.intents, i.Moved j := by
  cases h with
  | still hintents _ _ => exact .inl (hintents ▸ hi)
  | plan _ _ _ hintents _ _ =>
      rw [hintents]
      exact .inl (List.mem_append_left _ hi)
  | @move k j hk hmoved hintents _ _ _ _ _ =>
      rw [hintents]
      have hid : j.id = k.id := hmoved.same.id
      by_cases heq : i.id = k.id
      · rw [hw.intents_unique.eq hi hk heq]
        exact .inr ⟨j, Table.mem_put.mpr (.inl ⟨rfl, k, hk, hid.symm⟩), hmoved⟩
      · exact .inl (Table.mem_put.mpr (.inr ⟨hi, fun hkey => heq (hkey.trans hid)⟩))

/-- Versions only grow. -/
theorem TradeIntentRow.moves_version {i j : TradeIntentRow} (h : ReflTransGen Moved i j) :
    i.version ≤ j.version := by
  induction h with
  | refl => exact le_refl _
  | tail _ hm ih => exact ih.trans (by rw [hm.version]; exact Nat.le_succ _)

theorem TradeIntentRow.moves_same {i j : TradeIntentRow} (h : ReflTransGen Moved i j) :
    j.SameIntent i := by
  induction h with
  | refl => exact .refl i
  | tail _ hm ih => exact hm.same.trans ih

/-- Whatever transactions there are in between, an intent is found again, moved
along `next` by one version at a time: a row of the same version is the same
row, and an intent that is hedged, closed, failed or in manual review is never
touched again. -/
theorem intent_life {b b' : Books} (hb : Reachable b) (hr : ReflTransGen Books.Step b b') :
    ∀ i ∈ b.ledger.intents, ∃ j ∈ b'.ledger.intents, j.SameIntent i
      ∧ ReflTransGen TradeIntentRow.Moved i j ∧ (j.version = i.version → j = i)
      ∧ (i.status = .hedged ∨ i.status = .closed ∨ i.status = .failed ∨ i.status = .manualReview →
          j = i) := by
  intro i hi
  have hlife : ∃ j ∈ b'.ledger.intents, ReflTransGen TradeIntentRow.Moved i j := by
    induction hr with
    | refl => exact ⟨i, hi, .refl⟩
    | @tail c c' hrun hs ih =>
        obtain ⟨j, hj, hmoves⟩ := ih
        have hc := (Kept.run hb hrun).1
        cases hs with
        | tx hinformed h =>
            rcases (TradeOp.outcome _ hc.wellFormed h).forth hc.wellFormed hj with hj' | ⟨k, hk, hm⟩
            · exact ⟨j, hj', hmoves⟩
            · exact ⟨k, hk, hmoves.tail hm⟩
        | control row => exact ⟨j, hj, hmoves⟩
  obtain ⟨j, hj, hmoves⟩ := hlife
  refine ⟨j, hj, TradeIntentRow.moves_same hmoves, hmoves, fun hv => ?_, fun hend => ?_⟩
  · rcases hmoves.cases_head with heq | ⟨k, hk, hrest⟩
    · exact heq.symm
    · have hle := TradeIntentRow.moves_version hrest
      have hstep := hk.version
      omega
  · rcases hmoves.cases_head with heq | ⟨k, hk, hrest⟩
    · exact heq.symm
    · exact absurd (TradeIntentRow.next_eq_nil hend) hk.not_over

/-- Intents and what they have left. -/
structure IntentBook (l : Ledger) : Prop where
  opened : ∀ i ∈ l.intents, (openings l).count i.id = if i.status = .hedged then 1 else 0
  closed : ∀ i ∈ l.intents, i.status ≠ .failed →
    (closings l).count i.id = if i.status = .closed then 1 else 0
  failed : ∀ i ∈ l.intents, (closings l).count i.id ≤ 1
  known : ∀ n, n ∈ openings l ∨ n ∈ closings l → ∃ i ∈ l.intents, i.id = n
  goal : ∀ i ∈ l.intents, i.status = .hedged ∨ i.status = .closed → i.status = i.goal
  coded : ∀ i ∈ l.intents, (i.status = .failed → i.failureCode.isSome)
    ∧ (i.environment ≠ .paper → i.failureCode.isSome → i.status = .failed ∨ i.status = .planned)

theorem IntentBook.initial (h : l.Initial) : IntentBook l := by
  refine ⟨fun i hi => ?_, fun i hi => ?_, fun i hi => ?_, fun n hn => ?_, fun i hi => ?_,
    fun i hi => ?_⟩
  case refine_4 =>
    unfold openings closings at hn
    rw [h.positions, h.realizations] at hn
    rcases hn with hn | hn <;> cases hn
  all_goals
    rw [h.intents] at hi
    cases hi

/-- Nothing is counted anew where intents, openings and closings are as before.
-/
theorem IntentBook.still (hb : IntentBook l) (hintents : l'.intents = l.intents)
    (hopenings : openings l' = openings l) (hclosings : closings l' = closings l) :
    IntentBook l' := by
  obtain ⟨hopened, hclosed, hfailed, hknown, hgoal, hcoded⟩ := hb
  constructor <;> rw [hintents]
  · rw [hopenings]
    exact hopened
  · rw [hclosings]
    exact hclosed
  · rw [hclosings]
    exact hfailed
  · rw [hopenings, hclosings]
    exact hknown
  · exact hgoal
  · exact hcoded

/-- A new intent has left nothing. -/
theorem IntentBook.plan (hb : IntentBook l) (hw : WellFormed seen l) {i : TradeIntentRow}
    (hid : i.id = l.nextId) (hstatus : i.status = .planned) (hcode : i.failureCode = none)
    (hintents : l'.intents = l.intents ++ [i]) (hopenings : openings l' = openings l)
    (hclosings : closings l' = closings l) : IntentBook l' := by
  -- Everything booked belongs to an intent, and this one is new.
  have hfresh : ∀ n, n ∈ openings l ∨ n ∈ closings l → n ≠ i.id := by
    intro n hn heq
    obtain ⟨k, hk, hkn⟩ := hb.known n hn
    have hlt : k.id < l.nextId := hw.intents_below k hk
    omega
  have hmem : ∀ k ∈ l'.intents, k ∈ l.intents ∨ k = i := by
    intro k hk
    rw [hintents] at hk
    rcases List.mem_append.mp hk with hk | hk
    · exact .inl hk
    · exact .inr (List.mem_singleton.mp hk)
  have hnone : (openings l).count i.id = 0 ∧ (closings l).count i.id = 0 :=
    ⟨List.count_eq_zero.mpr fun h => hfresh _ (.inl h) rfl,
      List.count_eq_zero.mpr fun h => hfresh _ (.inr h) rfl⟩
  refine ⟨fun k hk => ?_, fun k hk hf => ?_, fun k hk => ?_, fun n hn => ?_, fun k hk hs => ?_,
    fun k hk => ?_⟩
  · rw [hopenings]
    rcases hmem k hk with hk | rfl
    · exact hb.opened k hk
    · rw [hnone.1, hstatus]
      rfl
  · rw [hclosings]
    rcases hmem k hk with hk | rfl
    · exact hb.closed k hk hf
    · rw [hnone.2, hstatus]
      rfl
  · rw [hclosings]
    rcases hmem k hk with hk | rfl
    · exact hb.failed k hk
    · rw [hnone.2]
      exact Nat.zero_le 1
  · rw [hopenings, hclosings] at hn
    obtain ⟨k, hk, hkn⟩ := hb.known n hn
    rw [hintents]
    exact ⟨k, List.mem_append_left _ hk, hkn⟩
  · rcases hmem k hk with hk | rfl
    · exact hb.goal k hk hs
    · rw [hstatus] at hs
      rcases hs with hs | hs <;> cases hs
  · rcases hmem k hk with hk | rfl
    · exact hb.coded k hk
    · rw [hstatus, hcode]
      exact ⟨fun h => (by cases h), fun _ h => (by cases h)⟩

/-- One more entry of a list, counted. -/
theorem count_append_if (xs : List Nat) (c : Prop) [Decidable c] (n m : Nat) :
    (xs ++ if c then [n] else []).count m = xs.count m + if c ∧ n = m then 1 else 0 := by
  rw [List.count_append]
  by_cases hc : c
  · by_cases hn : n = m <;> simp [hc, hn]
  · simp [hc]

/-- An intent that moves leaves what its end says. -/
theorem IntentBook.move (hb : IntentBook l) {i j : TradeIntentRow}
    (hi : i ∈ l.intents) (hmoved : i.Moved j) (hintents : l'.intents = Table.put l.intents j)
    {booked : Bool}
    (hopenings : openings l' = openings l ++ if j.status = .hedged then [i.id] else [])
    (hclosings : closings l' = closings l ++ if booked then [i.id] else [])
    (hclosed : j.status = .closed → booked = true)
    (hbooked : booked = true → i.action = .closing ∧ (j.status = .closed ∨ j.status = .failed)) :
    IntentBook l' := by
  have hid : j.id = i.id := hmoved.same.id
  obtain ⟨hnothedged, hnotclosed, hnotfailed, -⟩ := hmoved.not_ended
  have hmem : ∀ k ∈ l'.intents, k = j ∨ (k ∈ l.intents ∧ i.id ≠ k.id) := by
    intro k hk
    rw [hintents] at hk
    rcases Table.mem_put.mp hk with ⟨hk, -⟩ | ⟨hk, hne⟩
    · exact .inl hk
    · exact .inr ⟨hk, fun h => hne (h.symm.trans hid.symm)⟩
  -- The intent has not ended, so nothing is booked for it yet.
  have hopen : (openings l).count i.id = 0 := by
    rw [hb.opened i hi, if_neg hnothedged]
  have hclose : (closings l).count i.id = 0 := by
    rw [hb.closed i hi hnotfailed, if_neg hnotclosed]
  -- In each field the moved intent is told from the others, which keep what they had.
  refine ⟨fun k hk => ?_, fun k hk hf => ?_, fun k hk => ?_, fun n hn => ?_, fun k hk hs => ?_,
    fun k hk => ?_⟩
  · rw [hopenings, count_append_if]
    rcases hmem k hk with rfl | ⟨hk, hne⟩
    · simp [hid, hopen]
    · simp [hne, hb.opened k hk]
  · rw [hclosings, count_append_if]
    rcases hmem k hk with rfl | ⟨hk, hne⟩
    · have hiff : booked = true ↔ k.status = .closed :=
        ⟨fun h => (hbooked h).2.resolve_right hf, hclosed⟩
      simp [hid, hclose, hiff]
    · simp [hne, hb.closed k hk hf]
  · rw [hclosings, count_append_if]
    rcases hmem k hk with rfl | ⟨hk, hne⟩
    · rw [hid, hclose]
      split <;> decide
    · simp [hne, hb.failed k hk]
  · -- Whatever is booked belongs to an intent: from before, or to the one that moved.
    have hknown : n ∈ openings l ∨ n ∈ closings l ∨ n = i.id := by
      rw [hopenings, hclosings] at hn
      rcases hn with hn | hn <;> rcases List.mem_append.mp hn with hn | hn
      · exact .inl hn
      · split at hn
        · exact .inr (.inr (List.mem_singleton.mp hn))
        · cases hn
      · exact .inr (.inl hn)
      · split at hn
        · exact .inr (.inr (List.mem_singleton.mp hn))
        · cases hn
    have hold : ∃ k ∈ l.intents, k.id = n := by
      rcases hknown with hn | hn | hn
      · exact hb.known n (.inl hn)
      · exact hb.known n (.inr hn)
      · exact ⟨i, hi, hn.symm⟩
    obtain ⟨k, hk, hkn⟩ := hold
    rw [hintents]
    by_cases hki : k.id = i.id
    · exact ⟨j, Table.mem_put.mpr (.inl ⟨rfl, i, hi, hid.symm⟩), hid.trans (hki.symm.trans hkn)⟩
    · exact ⟨k, Table.mem_put.mpr (.inr ⟨hk, fun h => hki (h.trans hid)⟩), hkn⟩
  · rcases hmem k hk with rfl | ⟨hk, -⟩
    · obtain ⟨status, code, hnext, rfl⟩ := hmoved.row
      exact show status = i.goal from TradeIntentRow.goal_of_mem hnext hs
    · exact hb.goal k hk hs
  · rcases hmem k hk with rfl | ⟨hk, -⟩
    · refine ⟨hmoved.failed, fun hlive hsome => ?_⟩
      rcases hmoved.coded with hnone | ⟨hkept, hne⟩ | hf | hp
      · rw [hnone] at hsome
        cases hsome
      · -- The code was there before, so the intent was planned.
        have henv : i.environment ≠ .paper := hmoved.same.environment ▸ hlive
        rw [hkept] at hsome
        have hplanned := ((hb.coded i hi).2 henv hsome).resolve_left hnotfailed
        obtain ⟨status, code, hnext, rfl⟩ := hmoved.row
        unfold TradeIntentRow.next at hnext
        rw [hplanned] at hnext
        cases hi_env : i.environment with
        | paper => exact absurd hi_env henv
        | sandbox | live =>
            rw [hi_env] at hnext
            simp only [List.mem_cons, List.not_mem_nil, or_false] at hnext
            rcases hnext with hs | hs | hs
            · exact .inr hs
            · exact absurd hs hne
            · exact .inl hs
      · exact .inl hf
      · exact .inr hp
    · exact hb.coded k hk

/-- In every reachable book intents and bookings agree. -/
theorem Reachable.intentBook {b : Books} (hb : Reachable b) : IntentBook b.ledger := by
  induction hb with
  | init h => exact .initial h
  | step hb hs ih =>
      cases hs with
      | tx hi h =>
          cases TradeOp.outcome _ hb.wellFormed h with
          | still hintents hopenings hclosings =>
              exact ih.still hintents hopenings hclosings
          | plan hid hstatus hcode hintents hopenings hclosings =>
              exact ih.plan hb.wellFormed hid hstatus hcode hintents hopenings hclosings
          | move hi hmoved hintents booked hopenings hclosings hclosed hbooked =>
              exact ih.move hi hmoved hintents hopenings hclosings hclosed hbooked
      | control row => exact ⟨ih.opened, ih.closed, ih.failed, ih.known, ih.goal, ih.coded⟩

/-- In every state of the books an open is hedged exactly if it has opened a
position, and then one; a close that is closed has booked one realization, one
that failed at most one, and no other intent any.  A hedged intent is an open
and a closed one a close.  A failed intent says why, and an intent at an
exchange carries a code only if it failed or still waits for its preflight. -/
theorem intent_booked {b : Books} (hb : Reachable b) :
    ∀ i ∈ b.ledger.intents,
      (openings b.ledger).count i.id = (if i.status = .hedged then 1 else 0)
      ∧ (i.status ≠ .failed →
          (closings b.ledger).count i.id = if i.status = .closed then 1 else 0)
      ∧ (closings b.ledger).count i.id ≤ 1
      ∧ (i.status = .hedged → i.action = .opening) ∧ (i.status = .closed → i.action = .closing)
      ∧ (i.status = .failed → i.failureCode.isSome)
      ∧ (i.environment ≠ .paper → i.failureCode.isSome →
          i.status = .failed ∨ i.status = .planned) := by
  intro i hi
  have h := hb.intentBook
  refine ⟨h.opened i hi, h.closed i hi, h.failed i hi, fun hs => ?_, fun hs => ?_, h.coded i hi⟩
  · have hgoal := h.goal i hi (.inl hs)
    rw [hs] at hgoal
    unfold TradeIntentRow.goal at hgoal
    cases ha : i.action with
    | opening => rfl
    | closing =>
        rw [ha] at hgoal
        cases hgoal
  · have hgoal := h.goal i hi (.inr hs)
    rw [hs] at hgoal
    unfold TradeIntentRow.goal at hgoal
    cases ha : i.action with
    | closing => rfl
    | opening =>
        rw [ha] at hgoal
        cases hgoal

/-- An open is hedged and its close closed in part. -/
theorem intent_booked_closed :
    ∃ b, Reachable b ∧ (openings b.ledger = [0] ∧ closings b.ledger = [6])
      ∧ ∀ i ∈ b.ledger.intents,
        (openings b.ledger).count i.id = (if i.status = .hedged then 1 else 0)
        ∧ (i.status ≠ .failed →
            (closings b.ledger).count i.id = if i.status = .closed then 1 else 0)
        ∧ (closings b.ledger).count i.id ≤ 1
        ∧ (i.status = .hedged → i.action = .opening) ∧ (i.status = .closed → i.action = .closing)
        ∧ (i.status = .failed → i.failureCode.isSome)
        ∧ (i.environment ≠ .paper → i.failureCode.isSome →
            i.status = .failed ∨ i.status = .planned) := by
  obtain ⟨b, hb, hp⟩ := Books.exists_of_play
    (fun b => openings b.ledger = [0] ∧ closings b.ledger = [6])
    (Sample.opened ++ Sample.closing ++ [
      (.persistFills 7 [Sample.fill .spot .sell "s" 4 110 0], 0),
      (.persistFills 8 [Sample.fill .perp .buy "p" 4 109 0], 0)] ++ Sample.closeCanceled
      ++ [(.settleClose 6, 1)]) (by decide +kernel)
  exact ⟨b, hb, hp, intent_booked hb⟩

/-- From planned over executing to hedged in two moves, and never again. -/
theorem intent_life_hedged :
    ∃ b b', Reachable b ∧ ReflTransGen Books.Step b b'
      ∧ (b.ledger.intents.map (·.version) = [1] ∧ b'.ledger.intents.map (·.version) = [3, 1])
      ∧ ∀ i ∈ b.ledger.intents, ∃ j ∈ b'.ledger.intents, j.SameIntent i
        ∧ ReflTransGen TradeIntentRow.Moved i j ∧ (j.version = i.version → j = i)
        ∧ (i.status = .hedged ∨ i.status = .closed ∨ i.status = .failed
            ∨ i.status = .manualReview → j = i) := by
  obtain ⟨b, b', hb, hr, hp⟩ := Books.exists_run
    (fun b b' => b.ledger.intents.map (·.version) = [1]
      ∧ b'.ledger.intents.map (·.version) = [3, 1])
    [(.createOpen Sample.openPlan, 0)]
    (Sample.opened.tail ++ Sample.closing.take 1) (by decide +kernel)
  exact ⟨b, b', hb, hr, hp, intent_life hb hr⟩

end BasisHawk.Paired
