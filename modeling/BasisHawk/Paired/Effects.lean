/-
  BasisHawk.Paired.Effects
  ────────────────────────
  Every transaction of the two-leg tables as a sequence of row writes.

  Main results:
    • `settleLiveOpen_ok`, `settleLiveClose_ok` — what a settlement has read and
      decided,
    • `TradeOp.writes` — each transaction is a sequence of writes,
    • `Reachable.wellFormed` — the tables are well formed at any time.
-/
import BasisHawk.Paired.WellFormed

namespace BasisHawk.Paired

open Domain Lib Accounts
open Relation (ReflTransGen)

namespace Ledger

variable {seen : List PairedPositionRow} {l l' : Ledger} {now : Int}

/-- A sequence of writes. -/
abbrev Writes (seen : List PairedPositionRow) : Ledger → Ledger → Prop :=
  ReflTransGen (Ledger.Write seen)

/-- Pausing is a write of the control alone. -/
theorem pause_writes (reason : String) : l.Writes seen (l.pause reason) :=
  .single (.control _)

/-- Moving an intent that is still open is a write. -/
theorem move_writes {l₁ : Ledger} (h : l.Writes seen l₁) {i : TradeIntentRow} (hi : i ∈ l₁.intents)
    (hopen : i.status.isTerminal = false) (status : IntentStatus) (code : Option FailureCode) :
    l.Writes seen (l₁.moveIntent i status code).2 :=
  h.tail (.move hi hopen status code)

/-- So is reserving a position or letting it go, as long as it is not closed. -/
theorem hold_writes {l₁ : Ledger} (h : l.Writes seen l₁) {p : PairedPositionRow}
    (hp : p ∈ l₁.positions) (hopen : p.status ≠ .closed) (status : PositionStatus)
    (hstatus : status ≠ .closed) (holder : Option Nat) :
    l.Writes seen { l₁ with
      positions := Table.put l₁.positions { p with status := status, closingIntentId := holder } } :=
  h.tail (.hold hp hopen status hstatus holder)

/-! ## §1. Planning. -/

/-- An intent is inserted with legs whose client order ids nobody has, all under
new identifiers. -/
theorem insertIntent_ok {i : TradeIntentRow} {legs : List OrderLegRow}
    (h : l.insertIntent i legs = .ok l') :
    (∀ o ∈ l.legs, ∀ new ∈ legs, o.clientOrderId ≠ new.clientOrderId)
      ∧ l' = { l with
          intents := l.intents ++ [i], legs := l.legs ++ legs
          nextId := l.nextId + 1 + legs.length } := by
  simp only [insertIntent, raiseIf_bind_eq_ok] at h
  obtain ⟨hids, h⟩ := h
  cases h
  exact ⟨fun o ho new hnew heq => hids ⟨o, ho, new, hnew, heq⟩, rfl⟩

/-- A new intent with two primary legs. -/
theorem planPair {i : TradeIntentRow} {a b : OrderLegRow} (hid : i.id = l.nextId)
    (hstatus : i.status.isTerminal = false) (ha : a.id = l.nextId + 1) (hb : b.id = l.nextId + 2)
    (hfits : a.Fits i ∧ b.Fits i)
    (hread : ∀ pid ∈ i.pairedPositionId, ∃ r ∈ seen, r.id = pid ∧ r.environment = i.environment
      ∧ ∀ o ∈ [a, b], o.base = r.quantity) :
    l.Write seen { l with
      intents := l.intents ++ [i], legs := l.legs ++ [a, b], nextId := l.nextId + 1 + 2 } := by
  refine .plan hid hstatus ?_ ?_ ?_ hread
  · show [a.id, b.id].Nodup
    rw [ha, hb]
    simp
  · intro o ho
    rw [List.mem_cons, List.mem_singleton] at ho
    show l.nextId < o.id ∧ o.id ≤ l.nextId + 2
    rcases ho with rfl | rfl <;> omega
  · intro o ho
    rw [List.mem_cons, List.mem_singleton] at ho
    rcases ho with rfl | rfl
    · exact hfits.1
    · exact hfits.2

/-- What a committed `create_trade_intent` has done: it has read the intent back, or
inserted it with its two legs. -/
theorem createTradeIntent_ok {plan : OpenPlan} {r : TradeIntentRow × Bool}
    (h : createTradeIntent plan now l = .ok (r, l')) :
    (l' = l ∧ r.2 = false)
      ∨ (∀ o ∈ l.legs, ∀ new ∈ plan.legs l.nextId now, o.clientOrderId ≠ new.clientOrderId)
        ∧ r = (plan.intent l.nextId now, true)
        ∧ l' = { l with
            intents := l.intents ++ [plan.intent l.nextId now]
            legs := l.legs ++ plan.legs l.nextId now, nextId := l.nextId + 1 + 2 } := by
  unfold createTradeIntent at h
  split at h
  · cases h
    exact .inl ⟨rfl, rfl⟩
  · obtain ⟨l₁, h₁, h⟩ := bind_eq_ok.mp h
    cases h
    obtain ⟨hunused, rfl⟩ := insertIntent_ok h₁
    exact .inr ⟨hunused, rfl, rfl⟩

/-- An opening intent is created by writes, or read back where its key is taken.
-/
theorem createTradeIntent_writes {plan : OpenPlan} {r : TradeIntentRow × Bool}
    (h : createTradeIntent plan now l = .ok (r, l')) : l.Writes seen l' := by
  rcases createTradeIntent_ok h with ⟨rfl, -⟩ | ⟨-, -, rfl⟩
  · exact .refl
  · refine .single (planPair rfl rfl rfl rfl ⟨?_, ?_⟩ fun pid hpid => (by cases hpid))
    · exact ⟨rfl, rfl, rfl, fun _ => plan.spot_pos.1.le⟩
    · exact ⟨rfl, rfl, rfl, fun _ => plan.perp_pos.1.le⟩

/-- Both legs of a closing plan ask for what was read. -/
theorem closePlan_base (plan : ClosePlan) (id : Nat) :
    ∀ o ∈ plan.legs id now, o.base = plan.read.quantity := by
  intro o ho
  rcases List.mem_cons.mp ho with rfl | ho
  · show plan.read.quantity * 1 = _
    rw [mul_one]
  · rw [List.mem_singleton.mp ho]
    show plan.read.quantity / plan.perpMultiplier * plan.perpMultiplier = _
    rw [div_mul_cancel₀ _ plan.multiplier_pos.ne']

/-- What a committed `create_paper_close_intent` has done: it has read the intent
back, or inserted it with its two legs and reserved the position for it. -/
theorem createPaperCloseIntent_ok {plan : ClosePlan} {r : TradeIntentRow × Bool}
    (h : createPaperCloseIntent plan now l = .ok (r, l')) :
    (l' = l ∧ r.2 = false)
      ∨ ∃ position, Table.find? l.positions plan.read.id = some position
        ∧ (position.status = .opened ∧ position.closingIntentId = none)
        ∧ (∀ o ∈ l.legs, ∀ new ∈ plan.legs l.nextId now, o.clientOrderId ≠ new.clientOrderId)
        ∧ r = (plan.intent l.nextId now, true)
        ∧ l' = { l with
            intents := l.intents ++ [plan.intent l.nextId now]
            legs := l.legs ++ plan.legs l.nextId now, nextId := l.nextId + 1 + 2
            positions := Table.put l.positions
              { position with status := .closing, closingIntentId := some l.nextId } } := by
  unfold createPaperCloseIntent at h
  split at h
  · cases h
    exact .inl ⟨rfl, rfl⟩
  · simp only [found_bind_eq_ok, raiseIf_bind_eq_ok] at h
    obtain ⟨position, hposition, hfree, h⟩ := h
    obtain ⟨l₁, h₁, h⟩ := bind_eq_ok.mp h
    cases h
    obtain ⟨hunused, rfl⟩ := insertIntent_ok h₁
    rw [not_or, not_not, not_not] at hfree
    exact .inr ⟨position, hposition, hfree, hunused, rfl, rfl⟩

/-- So is a closing one, which reserves its position at the same time. -/
theorem createPaperCloseIntent_writes {plan : ClosePlan} {r : TradeIntentRow × Bool}
    (hread : plan.read ∈ seen) (h : createPaperCloseIntent plan now l = .ok (r, l')) :
    l.Writes seen l' := by
  rcases createPaperCloseIntent_ok h with ⟨rfl, -⟩ | ⟨position, hposition, hfree, -, -, rfl⟩
  · exact .refl
  have hmem := (Table.find?_some hposition).1
  have hplan : l.Write seen { l with
      intents := l.intents ++ [plan.intent l.nextId now]
      legs := l.legs ++ plan.legs l.nextId now, nextId := l.nextId + 1 + 2 } := by
    refine planPair rfl rfl rfl rfl ⟨?_, ?_⟩ fun pid hpid => ?_
    · exact ⟨rfl, rfl, rfl, fun _ => plan.quantity_pos.le⟩
    · exact ⟨rfl, rfl, rfl, fun _ => (div_pos plan.quantity_pos plan.multiplier_pos).le⟩
    · cases hpid
      exact ⟨plan.read, hread, rfl, rfl, closePlan_base plan _⟩
  have hopen : position.status ≠ .closed := by
    rw [hfree.1]
    exact fun h => (by cases h)
  exact hold_writes (.single hplan) hmem hopen .closing (fun h => (by cases h)) _

/-! ## §2. Around a submission. -/

/-- A leg of an intent found under a name. -/
theorem find?_legsOfIntent {intentId : Nat} {name : LegName} {o : OrderLegRow}
    (h : (l.legsOfIntent intentId).find? (·.leg = name) = some o) :
    o ∈ l.legs ∧ o.tradeIntentId = intentId ∧ o.leg = name := by
  obtain ⟨hmem, hname⟩ := find?_leg h
  obtain ⟨hmem, hintent⟩ := mem_legsOfIntent.mp hmem
  exact ⟨hmem, hintent, hname⟩

/-- The two primary legs of an intent are legs of it. -/
theorem primaryLegs_ok {intentId : Nat} {spot perp : OrderLegRow}
    (h : l.primaryLegs intentId = .ok (spot, perp)) :
    (spot ∈ l.legs ∧ spot.tradeIntentId = intentId ∧ spot.leg = .primary .spot)
      ∧ perp ∈ l.legs ∧ perp.tradeIntentId = intentId ∧ perp.leg = .primary .perp := by
  simp only [primaryLegs] at h
  split at h
  · next s p hs hp =>
      split at h
      · cases h
        exact ⟨find?_legsOfIntent hs, find?_legsOfIntent hp⟩
      · cases h
  · cases h

/-- The limit is all an adjustment changes. -/
theorem adjustLimit_ok {perp perp' : OrderLegRow} {adjusted : Option ℚ}
    (h : adjustLimit perp adjusted = .ok perp') :
    ∃ price hq, perp' = { perp with limitPrice := price, quantity_pos := hq } := by
  unfold adjustLimit at h
  split at h
  · cases h
    exact ⟨_, perp.quantity_pos, rfl⟩
  · split at h
    · cases h
    · split at h
      · cases h
      · cases h
        exact ⟨_, _, rfl⟩

/-- Two different legs are written one after the other. -/
theorem putPair_writes (hw : WellFormed seen l) {a b a' b' : OrderLegRow} (ha : a ∈ l.legs)
    (hb : b ∈ l.legs) (hne : a.leg ≠ b.leg) (ha' : a'.Continues a) (hb' : b'.Continues b) :
    l.Writes seen { l with legs := Table.put (Table.put l.legs a') b' } := by
  have hkey : key b ≠ key a' := by
    intro hk
    have hid : key a = key b := ha'.id.symm.trans hk.symm
    rw [hw.legs_unique.eq ha hb hid] at hne
    exact hne rfl
  have hb₁ : b ∈ Table.put l.legs a' := Table.mem_put.mpr (.inr ⟨hb, hkey⟩)
  exact ReflTransGen.tail (.single (.leg ha ha')) (.leg hb₁ hb')

/-- What a committed `prepare_live_submission` that submits has checked. -/
theorem prepareLiveSubmission_ok {intentId : Nat} {adjusted : Option ℚ} {r : Prepared}
    (h : prepareLiveSubmission intentId adjusted l = .ok (r, l')) :
    (l' = l ∧ ∀ i legs, r ≠ some (i, legs, true)) ∨
      ∃ i spot perp price hq, Table.find? l.intents intentId = some i ∧ i.status = .planned
        ∧ i.environment ≠ .paper ∧ l.maySubmit i ∧ l.primaryLegs i.id = .ok (spot, perp)
        ∧ spot.status = .created ∧ perp.status = .created
        ∧ l' = { (l.moveIntent i .executing none).2 with
            legs := Table.put (Table.put l.legs { spot with status := .submitted })
              { perp with limitPrice := price, status := .submitted, quantity_pos := hq } }
        ∧ r = some ((l.moveIntent i .executing none).1, [{ spot with status := .submitted },
            { perp with limitPrice := price, status := .submitted, quantity_pos := hq }], true) := by
  simp only [prepareLiveSubmission, raiseIf_bind_eq_ok] at h
  obtain ⟨-, h⟩ := h
  -- No such intent: nothing is written.
  split at h
  · cases h
    exact .inl ⟨rfl, fun i legs h => (by cases h)⟩
  · next i hi =>
      rw [raiseIf_bind_eq_ok] at h
      obtain ⟨henv, h⟩ := h
      obtain ⟨⟨spot, perp⟩, hlegs, h⟩ := bind_eq_ok.mp h
      dsimp only at h
      -- Nor is it for one that is not planned, or may not be submitted now.
      split at h
      · cases h
        exact .inl ⟨rfl, fun i legs h => (by cases h)⟩
      · next hplanned =>
          split at h
          · cases h
            exact .inl ⟨rfl, fun i legs h => (by cases h)⟩
          · next hmay =>
              rw [raiseIf_bind_eq_ok] at h
              obtain ⟨hcreated, h⟩ := h
              obtain ⟨perp', hadjust, h⟩ := bind_eq_ok.mp h
              obtain ⟨_, -, h⟩ := bind_eq_ok.mp h
              -- The price guard moved the limit of the perpetual leg and nothing else.
              obtain ⟨price, hq, rfl⟩ := adjustLimit_ok hadjust
              cases h
              rw [not_or, not_not, not_not] at hcreated
              exact .inr ⟨i, spot, perp, price, hq, hi, not_not.mp hplanned, henv, not_not.mp hmay,
                hlegs, hcreated.1, hcreated.2, rfl, rfl⟩

/-- Preparing a submission starts the intent and may move the limits of its
legs. -/
theorem prepareLiveSubmission_writes (hw : WellFormed seen l) {intentId : Nat}
    {adjusted : Option ℚ} {r : Prepared}
    (h : prepareLiveSubmission intentId adjusted l = .ok (r, l')) : l.Writes seen l' := by
  rcases prepareLiveSubmission_ok h with ⟨rfl, -⟩ | ⟨i, spot, perp, price, hq, hi, hplanned, -, -,
    hlegs, -, -, rfl, -⟩
  · exact .refl
  · obtain ⟨⟨hs, -, hs_name⟩, hp, -, hp_name⟩ := primaryLegs_ok hlegs
    have hne : spot.leg ≠ perp.leg := by
      rw [hs_name, hp_name]
      exact fun h => (by cases h)
    have hmove : l.Write seen (l.moveIntent i .executing none).2 :=
      .move (Table.find?_some hi).1 (by rw [hplanned]; rfl) _ _
    have hspot : ({ spot with status := .submitted } : OrderLegRow).Continues spot :=
      .of_eq rfl rfl rfl rfl rfl rfl rfl rfl
    have hperp : ({ perp with limitPrice := price, status := .submitted, quantity_pos := hq } :
        OrderLegRow).Continues perp :=
      .of_eq rfl rfl rfl rfl rfl rfl rfl rfl
    exact .head hmove (putPair_writes (hw.write hmove) hs hp hne hspot hperp)

/-- What a committed `prepare_live_compensation` that submits has checked. -/
theorem prepareLiveCompensation_ok {intentId : Nat} {limit quantity tolerance : ℚ} {r : Prepared}
    (h : prepareLiveCompensation intentId limit quantity tolerance l = .ok (r, l')) :
    (l' = l ∧ ∀ i legs, r ≠ some (i, legs, true)) ∨
      ∃ i c hq ht, Table.find? l.intents intentId = some i ∧ i.status = .compensating
        ∧ (l.legsOfIntent i.id).filter (·.leg.isCompensation) = [c] ∧ c.status = .created
        ∧ (∃ row ∈ l.control, row.state = .paused)
        ∧ l' = { l with legs := Table.put l.legs { c with
            quantity := quantity, compensationToleranceBase := tolerance, limitPrice := limit
            status := .submitted, quantity_pos := hq, tolerance_check := ht } }
        ∧ r = some (i, [{ c with
            quantity := quantity, compensationToleranceBase := tolerance, limitPrice := limit
            status := .submitted, quantity_pos := hq, tolerance_check := ht }], true) := by
  unfold prepareLiveCompensation at h
  -- The three checks on the terms, then the intent.
  split at h
  · cases h
  next hl =>
  split at h
  · cases h
  next hq =>
  split at h
  · cases h
  next ht =>
  split at h
  · cases h
    exact .inl ⟨rfl, fun i legs h => (by cases h)⟩
  next i hi =>
    split at h
    · -- Exactly one protection leg, created, of a compensating intent under a paused control.
      next c hc =>
        split at h
        · cases h
          exact .inl ⟨rfl, fun i legs h => (by cases h)⟩
        · next hready =>
            cases h
            rw [not_or, not_or, not_not, not_not, not_not] at hready
            exact .inr ⟨i, c, ⟨lt_of_not_ge hq, lt_of_not_ge hl⟩, le_of_not_ge ht, hi, hready.1, hc,
              hready.2.1, hready.2.2, rfl, rfl⟩
    · cases h

/-- The protection leg among the legs of an intent. -/
theorem mem_of_filter_eq {intentId : Nat} {c : OrderLegRow}
    (h : (l.legsOfIntent intentId).filter (·.leg.isCompensation) = [c]) :
    c ∈ l.legs ∧ c.tradeIntentId = intentId ∧ c.leg.isCompensation = true := by
  have hc : c ∈ (l.legsOfIntent intentId).filter (·.leg.isCompensation) := by
    rw [h]
    exact List.mem_singleton_self c
  obtain ⟨hc, hname⟩ := List.mem_filter.mp hc
  obtain ⟨hmem, hintent⟩ := mem_legsOfIntent.mp hc
  exact ⟨hmem, hintent, hname⟩

/-- Preparing a compensation sets the terms of the protection leg. -/
theorem prepareLiveCompensation_writes {intentId : Nat} {limit quantity tolerance : ℚ}
    {r : Prepared} (h : prepareLiveCompensation intentId limit quantity tolerance l = .ok (r, l')) :
    l.Writes seen l' := by
  rcases prepareLiveCompensation_ok h with ⟨rfl, -⟩ | ⟨i, c, hq, ht, -, -, hc, -, -, rfl, -⟩
  · exact .refl
  · obtain ⟨hmem, -, hname⟩ := mem_of_filter_eq hc
    refine .single (.leg hmem ⟨rfl, rfl, rfl, rfl, rfl, rfl, fun hprimary => ?_⟩)
    rw [hname] at hprimary
    cases hprimary

/-- What a committed `_fail_planned` has done: nothing, or it has failed a planned
intent, and let the position go that the intent had reserved. -/
theorem failPlanned_ok {intentId : Nat} {code : FailureCode} {r : Bool}
    (h : failPlanned intentId code l = .ok (r, l')) :
    l' = l ∨ ∃ i, Table.find? l.intents intentId = some i
      ∧ (i.environment ≠ .paper ∧ i.status = .planned)
      ∧ ((∃ p, l.positionOf i = some p ∧ isReserved p i
            ∧ l' = (({ l with
                positions := Table.put l.positions
                  { p with status := .opened, closingIntentId := none } } : Ledger).moveIntent i
                .failed (some code)).2)
        ∨ (l' = (l.moveIntent i .failed (some code)).2
            ∧ ¬(i.action = .closing ∧ ∃ p, l.positionOf i = some p ∧ isReserved p i))) := by
  unfold failPlanned at h
  split at h
  · cases h
    exact .inl rfl
  next i hi =>
  split at h
  · cases h
    exact .inl rfl
  next hplanned =>
  rw [not_or, not_not] at hplanned
  cases h
  -- The intent is planned; what is left is whether it holds a position.
  refine .inr ⟨i, hi, hplanned, ?_⟩
  split
  · next position haction hposition =>
      split
      · next hreserved => exact .inl ⟨position, hposition, hreserved, rfl⟩
      · -- The position is not reserved by this intent, so it is left alone.
        next hfree =>
          refine .inr ⟨rfl, ?_⟩
          rintro ⟨-, p, hp, hreserved⟩
          rw [hposition] at hp
          cases hp
          exact hfree hreserved
  · -- An opening, or a close whose position is gone.
    next hnot =>
      refine .inr ⟨rfl, ?_⟩
      rintro ⟨haction, p, hp, -⟩
      exact hnot p haction hp

/-- A planned intent that is failed lets its position go. -/
theorem failPlanned_writes {intentId : Nat} {code : FailureCode} {r : Bool}
    (h : failPlanned intentId code l = .ok (r, l')) : l.Writes seen l' := by
  rcases failPlanned_ok h with rfl | ⟨i, hi, ⟨-, hplanned⟩, hend⟩
  · exact .refl
  have hmem := (Table.find?_some hi).1
  have hopen : i.status.isTerminal = false := by
    rw [hplanned]
    rfl
  rcases hend with ⟨p, hp, hreserved, rfl⟩ | ⟨rfl, -⟩
  · have hopen' : p.status ≠ .closed := by
      rw [hreserved.1]
      exact fun h => (by cases h)
    exact move_writes (hold_writes .refl (positionOf_some hp).1 hopen' .opened
      (fun h => (by cases h)) none) hmem hopen .failed (some code)
  · exact .single (.move hmem hopen .failed (some code))

/-- What a committed `record_live_preflight_failure` has done: it has paused the
control, and noted the code on an intent that is still planned. -/
theorem recordLivePreflightFailure_ok {intentId : Nat} {exchange : Exchange}
    {code : FailureCode} {u : Unit}
    (h : recordLivePreflightFailure intentId exchange code l = .ok (u, l')) :
    ∃ reason, l' = l.pause reason ∨ ∃ i, Table.find? l.intents intentId = some i
      ∧ i.status = .planned ∧ l' = ((l.pause reason).moveIntent i .planned (some code)).2 := by
  simp only [recordLivePreflightFailure] at h
  refine ⟨"live_order_preflight:" ++ exchange.name ++ ":" ++ code.name, ?_⟩
  split at h
  · cases h
    exact .inl rfl
  · next i hi =>
      split at h
      · next hplanned =>
          cases h
          exact .inr ⟨i, hi, hplanned, rfl⟩
      · cases h
        exact .inl rfl

/-- A failed preflight fails the intent and pauses the control. -/
theorem recordLivePreflightFailure_writes {intentId : Nat} {exchange : Exchange}
    {code : FailureCode} {u : Unit}
    (h : recordLivePreflightFailure intentId exchange code l = .ok (u, l')) :
    l.Writes seen l' := by
  obtain ⟨reason, rfl | ⟨i, hi, hplanned, rfl⟩⟩ := recordLivePreflightFailure_ok h
  · exact .single (.control _)
  · have hmem : i ∈ (l.pause reason).intents := (Table.find?_some hi).1
    refine move_writes (pause_writes reason) hmem ?_ .planned _
    rw [hplanned]
    rfl

/-! ## §3. One leg. -/

theorem orderLeg_ok {legId : Nat} {leg : OrderLegRow} (h : l.orderLeg legId = .ok leg) :
    Table.find? l.legs legId = some leg := by
  unfold orderLeg found at h
  split at h
  · next a ha =>
      cases h
      exact ha
  · cases h

/-- A submission is recorded on a leg that was handed out; the leg keeps what it
is and takes the exchange's identifier. -/
theorem recordOrderSubmission_ok {legId : Nat} {s : OrderSubmission} {u : Unit}
    (h : recordOrderSubmission legId s l = .ok (u, l')) :
    ∃ leg, Table.find? l.legs legId = some leg
      ∧ (leg.status = .submitted ∨ leg.status = .acknowledged)
      ∧ l' = { l with legs := Table.put l.legs { leg with
          exchangeOrderId := s.exchangeOrderId.or leg.exchangeOrderId, status := .acknowledged } } := by
  unfold recordOrderSubmission at h
  obtain ⟨leg, hleg, h⟩ := bind_eq_ok.mp h
  simp only [raiseIf_bind_eq_ok] at h
  obtain ⟨hstatus, -, -, h⟩ := h
  cases h
  refine ⟨leg, orderLeg_ok hleg, ?_, rfl⟩
  by_cases hs : leg.status = .submitted
  · exact .inl hs
  · exact .inr (not_not.mp fun ha => hstatus ⟨hs, ha⟩)

/-- A submission without an answer leaves the leg unknown and pauses the
control. -/
theorem markOrderSubmissionUnknown_ok {legId : Nat} {u : Unit}
    (h : markOrderSubmissionUnknown legId l = .ok (u, l')) :
    ∃ leg reason, Table.find? l.legs legId = some leg
      ∧ l' = { l with
          legs := if leg.status = .submitted then Table.put l.legs { leg with status := .unknown }
            else l.legs : Ledger }.pause reason := by
  unfold markOrderSubmissionUnknown at h
  obtain ⟨leg, hleg, h⟩ := bind_eq_ok.mp h
  cases h
  exact ⟨leg, _, orderLeg_ok hleg, rfl⟩

/-- A rejected submission ends the leg and pauses the control. -/
theorem markOrderSubmissionRejected_ok {legId : Nat} {code : String} {u : Unit}
    (h : markOrderSubmissionRejected legId code l = .ok (u, l')) :
    ∃ leg reason, Table.find? l.legs legId = some leg
      ∧ l' = { l with
          legs := if leg.status = .submitted then
              Table.put l.legs { leg with status := .failed, failureCode := some code }
            else l.legs : Ledger }.pause reason := by
  simp only [markOrderSubmissionRejected, raiseIf_bind_eq_ok] at h
  obtain ⟨leg, hleg, h⟩ := bind_eq_ok.mp h.2
  cases h
  exact ⟨leg, _, orderLeg_ok hleg, rfl⟩

/-- A leg that the exchange does not know is rejected, if it is unknown and has
no identifier from the exchange; else nothing happens. -/
theorem markUnknownOrderNotFound_ok {legId : Nat} {r : Bool}
    (h : markUnknownOrderNotFound legId l = .ok (r, l')) :
    ∃ leg, Table.find? l.legs legId = some leg
      ∧ ((l' = l ∧ (leg.status ≠ .unknown ∨ leg.exchangeOrderId ≠ none))
        ∨ (leg.status = .unknown ∧ leg.exchangeOrderId = none
          ∧ l' = { l with legs := Table.put l.legs { leg with status := .failed } })) := by
  unfold markUnknownOrderNotFound at h
  obtain ⟨leg, hleg, h⟩ := bind_eq_ok.mp h
  refine ⟨leg, orderLeg_ok hleg, ?_⟩
  split at h
  · next hs =>
      cases h
      exact .inl ⟨rfl, hs⟩
  · next hs =>
      cases h
      rw [not_or, not_not, not_not] at hs
      exact .inr ⟨hs.1, hs.2, rfl⟩

/-- Fills are stored once each, the leg takes their sum, and it adopts the order
they belong to where it had none. -/
theorem persistRemoteFills_ok {legId : Nat} {fills : List RemoteFill} {n : Nat}
    (h : persistRemoteFills legId fills l = .ok (n, l')) :
    ∃ leg link rows, Table.find? l.legs legId = some leg ∧ linkByFills leg fills = .ok link
      ∧ (∀ f ∈ rows, f.orderLegId = leg.id)
      ∧ fillsTotal (l.fillsOfLeg leg.id ++ rows) ≤ leg.quantity
      ∧ l' = { l with
          fills := l.fills ++ rows
          legs := Table.put l.legs (legByFills leg link (l.fillsOfLeg leg.id ++ rows))
          nextId := l.nextId + rows.length } := by
  unfold persistRemoteFills at h
  obtain ⟨leg, hleg, h⟩ := bind_eq_ok.mp h
  obtain ⟨valid, -, h⟩ := bind_eq_ok.mp h
  obtain ⟨link, hlink, h⟩ := bind_eq_ok.mp h
  simp only [raiseIf_bind_eq_ok, not_lt] at h
  obtain ⟨-, hle, h⟩ := h
  cases h
  refine ⟨leg, link, _, orderLeg_ok hleg, hlink, fun f hf => ?_, hle, rfl⟩
  obtain ⟨i, hi, rfl⟩ := List.mem_mapIdx.mp hf
  rfl

/-- The status that the exchange reports is written on the leg, and no quantity.
-/
theorem reconcileRemoteOrder_ok {legId : Nat} {order : RemoteOrder} {r : String}
    (h : reconcileRemoteOrder legId order l = .ok (r, l')) :
    ∃ leg, Table.find? l.legs legId = some leg ∧ checkRemoteOrder leg order = .ok ()
      ∧ l' = { l with legs := Table.put l.legs { leg with
          exchangeOrderId := some order.exchangeOrderId, status := statusByLookup leg order } } := by
  unfold reconcileRemoteOrder at h
  obtain ⟨leg, hleg, h⟩ := bind_eq_ok.mp h
  obtain ⟨u, hcheck, h⟩ := bind_eq_ok.mp h
  cases h
  exact ⟨leg, orderLeg_ok hleg, hcheck, rfl⟩

/-- A leg found is rewritten in columns no invariant speaks about. -/
theorem putLeg_writes {legId : Nat} {leg new : OrderLegRow} (h : Table.find? l.legs legId = some leg)
    (hnew : new.Continues leg) : l.Writes seen { l with legs := Table.put l.legs new } :=
  .single (.leg (Table.find?_some h).1 hnew)

/-- The same, with a pause. -/
theorem putLegIf_writes {legId : Nat} {leg new : OrderLegRow} {reason : String}
    (h : Table.find? l.legs legId = some leg) (hnew : new.Continues leg) (c : Prop) [Decidable c] :
    l.Writes seen
      ({ l with legs := if c then Table.put l.legs new else l.legs : Ledger }.pause reason) := by
  split
  · exact ReflTransGen.tail (putLeg_writes h hnew) (.control _)
  · exact .single (.control _)

/-- Storing fills is a sequence of writes. -/
theorem persistRemoteFills_writes {legId : Nat} {fills : List RemoteFill} {n : Nat}
    (h : persistRemoteFills legId fills l = .ok (n, l')) : l.Writes seen l' := by
  obtain ⟨leg, link, rows, hleg, -, -, hle, rfl⟩ := persistRemoteFills_ok h
  have hput : l.Write seen { l with
      legs := Table.put l.legs (legByFills leg link (l.fillsOfLeg leg.id ++ rows)) } :=
    .leg (Table.find?_some hleg).1 ⟨rfl, rfl, rfl, rfl, rfl, rfl, fun _ => ⟨rfl, fun _ => hle⟩⟩
  exact ReflTransGen.tail (.single hput) (.fills _ (Nat.le_add_right _ _))

/-! ## §4. Decisions. -/

/-- A protection leg undoes a primary one. -/
theorem liveCompensationLeg_ok {intent : TradeIntentRow} {excess leg : OrderLegRow} {base : ℚ}
    {id : Nat} (h : liveCompensationLeg intent excess base id now = .ok leg) :
    0 < base ∧ leg.id = id ∧ leg.tradeIntentId = intent.id ∧ leg.leg = excess.leg.protection
      ∧ leg.market = excess.market ∧ leg.side = excess.side.flip ∧ leg.status = .created
      ∧ leg.exchangeOrderId = none ∧ leg.filledQuantity = 0 := by
  unfold liveCompensationLeg at h
  split at h
  · cases h
  · next hpos =>
      cases h
      refine ⟨lt_of_not_ge hpos, rfl, rfl, rfl, rfl, ?_, rfl, rfl, rfl⟩
      show (if excess.side = .sell then Side.buy else .sell) = excess.side.flip
      cases excess.side <;> rfl

/-- The leg in excess is one of the two primary ones. -/
theorem excess_cases (y : Layout) (spotBase perpBase : ℚ) :
    y.excess spotBase perpBase = y.spot ∨ y.excess spotBase perpBase = y.perp := by
  unfold Layout.excess
  split
  · exact .inl rfl
  · exact .inr rfl

/-- Only a primary leg is ever protected. -/
theorem openVerdict_protect {intent : TradeIntentRow} {y : Layout} {spotFills fills : List FillRow}
    {excess : OrderLegRow} {base : ℚ}
    (h : openVerdict intent y spotFills fills = .ok (.protect excess base)) :
    (excess = y.spot ∨ excess = y.perp) ∧ y.compensation = none ∧ intent.status = .executing := by
  simp only [openVerdict] at h
  split at h
  · cases h
  split at h
  · cases h
  split at h
  · cases h
  -- The imbalance is protected only while executing, and before a protection leg exists.
  split at h
  · simp only [openImbalance, Except.ok.injEq] at h
    split at h
    · next hnone =>
        split at h
        · next hs =>
            cases h
            exact ⟨excess_cases _ _ _, hnone, hs⟩
        · cases h
    · split at h
      · cases h
      split at h
      · cases h
      split at h
      · cases h
      split at h
      · cases h
      split at h <;> cases h
  · -- A balanced pair is never protected.
    simp only [openBalanced, Except.ok.injEq] at h
    split at h
    · split at h <;> cases h
    · cases h

/-- The two ways an opening intent is hedged. -/
theorem openVerdict_hedge {intent : TradeIntentRow} {y : Layout} {spotFills fills : List FillRow}
    {quantity s p cost spotBase : ℚ}
    (hbase : spotBase = spotBaseAfterFee y.spot (spotBaseFee intent.baseAsset spotFills))
    (h : openVerdict intent y spotFills fills = .ok (.hedge quantity s p cost)) :
    y.isTerminal ∧ 0 ≤ spotBase ∧ y.spot.averagePrice = some s ∧ y.perp.averagePrice = some p
      ∧ ((¬numericEqual spotBase y.perp.filledBase ∧ ¬feeAwareOpenIsHedged intent y spotBase
          ∧ ∃ c adjusted fees profit, y.compensation = some c ∧ c.averagePrice ≠ none
            ∧ compensatedBaseQuantities .opening spotBase y.perp.filledBase
                (y.excess spotBase y.perp.filledBase) c = .ok adjusted
            ∧ liveFeesUsdt intent.baseAsset fills = .ok fees
            ∧ compensationPnl (y.excess spotBase y.perp.filledBase) c c.filledBase = .ok profit
            ∧ quantity = adjusted.2 ∧ cost = fees - profit)
        ∨ ((numericEqual spotBase y.perp.filledBase ∨ feeAwareOpenIsHedged intent y spotBase)
          ∧ quantity = min spotBase y.perp.filledBase
          ∧ liveFeesUsdt intent.baseAsset fills = .ok cost)) := by
  simp only [openVerdict, ← hbase] at h
  split at h
  · cases h
  next hterminal =>
  split at h
  · cases h
  next hnonneg =>
  rw [not_not] at hterminal
  rw [not_lt] at hnonneg
  split at h
  · cases h
  split at h
  · -- Unequal legs hedge only after a compensation.
    next hunbalanced =>
      simp only [openImbalance, Except.ok.injEq] at h
      split at h
      · split at h <;> cases h
      next c hc =>
      split at h
      · cases h
      split at h
      · cases h
      next haverage =>
      split at h
      · cases h
      next common fees profit hcompensated =>
      split at h
      · cases h
      split at h
      · next s' p' hs hp =>
          cases h
          unfold openCompensated at hcompensated
          obtain ⟨adjusted, hadjusted, hcompensated⟩ := bind_eq_ok.mp hcompensated
          obtain ⟨fees', hfees, hcompensated⟩ := bind_eq_ok.mp hcompensated
          obtain ⟨profit', hprofit, hcompensated⟩ := bind_eq_ok.mp hcompensated
          cases hcompensated
          exact ⟨hterminal, hnonneg, hs, hp, .inl ⟨hunbalanced.1, hunbalanced.2, c, adjusted, fees,
            profit, hc, haverage, hadjusted, hfees, hprofit, rfl, rfl⟩⟩
      · cases h
  · -- Equal ones, or ones equal up to the fee, hedge as they are.
    next hbalanced =>
      simp only [openBalanced, Except.ok.injEq] at h
      split at h
      · next s' p' hs hp =>
          split at h
          · cases h
          · next fees hfees =>
              cases h
              refine ⟨hterminal, hnonneg, hs, hp, .inr ⟨?_, rfl, hfees⟩⟩
              by_cases hn : numericEqual spotBase y.perp.filledBase
              · exact .inl hn
              · exact .inr (not_not.mp fun hf => hbalanced ⟨hn, hf⟩)
      · cases h

/-- A close is protected on the leg in excess, while it is executing and has no
protection leg yet. -/
theorem closeVerdict_protect {intent : TradeIntentRow} {position : PairedPositionRow} {y : Layout}
    {fills : List FillRow} {excess : OrderLegRow} {base : ℚ}
    (h : closeVerdict intent position y fills = .ok (.protect excess base)) :
    (excess = y.spot ∨ excess = y.perp) ∧ y.compensation = none ∧ intent.status = .executing := by
  simp only [closeVerdict] at h
  split at h
  · cases h
  split at h
  · cases h
  -- The imbalance is protected only while executing, and before a protection leg exists.
  split at h
  · simp only [closeImbalance] at h
    split at h
    · next hnone =>
        split at h
        · next hs =>
            cases h
            exact ⟨excess_cases _ _ _, hnone, hs⟩
        · cases h
    · split at h
      · cases h
      split at h
      · cases h
      split at h
      · cases h
      obtain ⟨o, -, h⟩ := bind_eq_ok.mp h
      cases h
  · -- A balanced pair is never protected.
    simp only [closeBalanced] at h
    split at h
    · cases h
    split at h
    · cases h
    obtain ⟨a, -, h⟩ := bind_eq_ok.mp h
    obtain ⟨g, -, h⟩ := bind_eq_ok.mp h
    cases h

/-- The two ways a closing intent is booked. -/
theorem closeVerdict_settle {intent : TradeIntentRow} {position : PairedPositionRow} {y : Layout}
    {fills : List FillRow} {o : CloseOutcome}
    (h : closeVerdict intent position y fills = .ok (.settle o)) :
    y.isTerminal
      ∧ ((¬numericEqual y.spot.filledBase y.perp.filledBase
          ∧ ∃ c common fees profit, y.compensation = some c ∧ c.averagePrice ≠ none
            ∧ closeCompensated intent.baseAsset position y.spot.filledBase y.perp.filledBase
                (y.excess y.spot.filledBase y.perp.filledBase) c fills = .ok (common, fees, profit)
            ∧ closeCompensatedOutcome position y c y.spot.filledBase y.perp.filledBase common fees
                profit = .ok o)
        ∨ (numericEqual y.spot.filledBase y.perp.filledBase
          ∧ y.spot.filledBase ≤ position.quantity ∧ y.spot.averagePrice ≠ none
          ∧ y.perp.averagePrice ≠ none ∧ o.quantity = y.spot.filledBase
          ∧ allocateOpeningFee position y.spot.filledBase = .ok o.openingFeeAllocation
          ∧ pairedGross position y y.spot.filledBase = .ok o.grossPnl
          ∧ liveFeesUsdt intent.baseAsset fills = .ok o.closingFees ∧ o.status = .closed)) := by
  simp only [closeVerdict] at h
  split at h
  · cases h
  next hterminal =>
  rw [not_not] at hterminal
  split at h
  · cases h
  split at h
  · -- Unequal legs are booked with their compensation.
    next hunequal =>
      simp only [closeImbalance] at h
      split at h
      · split at h <;> cases h
      next c hc =>
      split at h
      · cases h
      split at h
      · cases h
      next hprices =>
      split at h
      · cases h
      next common fees profit hcompensated =>
      obtain ⟨o', ho, h⟩ := bind_eq_ok.mp h
      cases h
      rw [not_or] at hprices
      exact ⟨hterminal, .inl ⟨hunequal, c, common, fees, profit, hc, hprices.1, hcompensated, ho⟩⟩
  · -- Equal legs are booked as they are.
    next hequal =>
      rw [not_not] at hequal
      simp only [closeBalanced] at h
      split at h
      · cases h
      next hprices =>
      rw [not_or, not_or, not_lt] at hprices
      split at h
      · cases h
      next fees hfees =>
      obtain ⟨allocation, hallocation, h⟩ := bind_eq_ok.mp h
      obtain ⟨gross, hgross, h⟩ := bind_eq_ok.mp h
      cases h
      exact ⟨hterminal, .inr ⟨hequal, hprices.1, hprices.2.1, hprices.2.2, rfl, hallocation, hgross,
        hfees, rfl⟩⟩

end Ledger

/-! ## §5. Bookings. -/

section

variable {seen : List PairedPositionRow} {l l' : Ledger} {now : Int}

/-- A close takes all remaining opening fees with the whole position, and its
share of them with a part. -/
theorem allocateOpeningFee_ok {position : PairedPositionRow} {quantity a : ℚ}
    (h : allocateOpeningFee position quantity = .ok a) :
    (numericEqual quantity position.quantity → a = position.remainingOpeningFeesUsdt)
      ∧ (¬numericEqual quantity position.quantity →
          a * position.quantity = position.remainingOpeningFeesUsdt * quantity) := by
  unfold allocateOpeningFee at h
  split at h
  · next heq =>
      cases h
      exact ⟨fun _ => rfl, fun hne => absurd heq hne⟩
  · next hne =>
      split at h
      · cases h
      · next hzero =>
          cases h
          exact ⟨fun heq => absurd heq hne, fun _ => div_mul_cancel₀ _ hzero⟩

/-- An accepted compensation leaves no primary quantity negative, and any dust
on the spot side of the books. -/
theorem compensatedBaseQuantities_ok {action : TradeAction} {spotBase perpBase : ℚ}
    {excess c : OrderLegRow} {adjusted : ℚ × ℚ}
    (h : compensatedBaseQuantities action spotBase perpBase excess c = .ok adjusted) :
    adjusted = netOfCompensation spotBase perpBase excess c ∧ 0 ≤ adjusted.1 ∧ 0 ≤ adjusted.2
      ∧ ¬unsafeDust c.compensationToleranceBase (residualDust action adjusted)
      ∧ numericEqual c.filledQuantity c.quantity
      ∧ ∃ target, c.compensationTargetBaseQuantity = some target ∧ 0 < target
        ∧ numericEqual target |spotBase - perpBase| := by
  unfold compensatedBaseQuantities at h
  split at h
  · cases h
  · next target htarget =>
      simp only [raiseIf_bind_eq_ok] at h
      obtain ⟨hcheck, hneg, hdust, h⟩ := h
      injection h with h
      subst h
      rw [not_or, not_or, not_not, not_not] at hcheck
      rw [not_or, not_lt, not_lt] at hneg
      exact ⟨rfl, hneg.1, hneg.2, hdust, hcheck.2.2, target, htarget, lt_of_not_ge hcheck.1,
        hcheck.2.1⟩

/-- Dust that counts as safe is not negative: the perpetual never holds more
than the spot. -/
theorem residualDust_nonneg {action : TradeAction} {tolerance : ℚ} {adjusted : ℚ × ℚ}
    (h : ¬unsafeDust tolerance (residualDust action adjusted)) :
    0 ≤ residualDust action adjusted := by
  unfold unsafeDust at h
  rw [not_or, not_lt] at h
  exact h.1

/-- What the compensation branch of a close has checked. -/
theorem closeCompensated_ok {baseAsset : String} {position : PairedPositionRow}
    {spotBase perpBase common fees profit : ℚ} {excess c : OrderLegRow} {fills : List FillRow}
    (h : closeCompensated baseAsset position spotBase perpBase excess c fills
      = .ok (common, fees, profit)) :
    ∃ adjusted, compensatedBaseQuantities .closing spotBase perpBase excess c = .ok adjusted
      ∧ common = adjusted.2 ∧ common ≤ position.quantity
      ∧ liveFeesUsdt baseAsset fills = .ok fees
      ∧ compensationPnl excess c c.filledBase = .ok profit := by
  unfold closeCompensated at h
  obtain ⟨adjusted, hadjusted, h⟩ := bind_eq_ok.mp h
  rw [raiseIf_bind_eq_ok] at h
  obtain ⟨hle, h⟩ := h
  obtain ⟨fees', hfees, h⟩ := bind_eq_ok.mp h
  obtain ⟨profit', hprofit, h⟩ := bind_eq_ok.mp h
  cases h
  exact ⟨adjusted, hadjusted, rfl, le_of_not_gt hle, hfees, hprofit⟩

/-- What a compensated close realizes: the common quantity with its share of the
opening fees, or nothing at all. -/
theorem closeCompensatedOutcome_ok {position : PairedPositionRow} {y : Layout} {c : OrderLegRow}
    {spotBase perpBase common fees profit : ℚ} {o : CloseOutcome}
    (h : closeCompensatedOutcome position y c spotBase perpBase common fees profit = .ok o) :
    o.quantity = common ∧ o.closingFees = fees
      ∧ ((common = 0 ∧ o.openingFeeAllocation = 0)
        ∨ (common ≠ 0 ∧ allocateOpeningFee position common = .ok o.openingFeeAllocation))
      ∧ compensatedGross position y c spotBase perpBase common profit = .ok o.grossPnl
      ∧ (o.status = .closed ∨ o.status = .failed) := by
  unfold closeCompensatedOutcome at h
  obtain ⟨allocation, hallocation, h⟩ := bind_eq_ok.mp h
  obtain ⟨gross, hgross, h⟩ := bind_eq_ok.mp h
  cases h
  refine ⟨rfl, rfl, ?_, hgross, ?_⟩
  · split at hallocation
    · next hzero =>
        cases hallocation
        exact .inl ⟨hzero, rfl⟩
    · next hne => exact .inr ⟨hne, hallocation⟩
  · show (if 0 < common then IntentStatus.closed else .failed) = _ ∨ _
    split
    · exact .inl rfl
    · exact .inr rfl

/-- `afterClose` books an outcome whose opening fees follow its quantity. -/
theorem booked_afterClose {position : PairedPositionRow} {o : CloseOutcome}
    (hlive : position.environment ≠ .paper) (hnonneg : 0 ≤ o.quantity)
    (hle : o.quantity ≤ position.quantity)
    (hwhole : numericEqual o.quantity position.quantity →
      o.openingFeeAllocation = position.remainingOpeningFeesUsdt)
    (hpart : ¬numericEqual o.quantity position.quantity →
      o.openingFeeAllocation * position.quantity
        = position.remainingOpeningFeesUsdt * o.quantity) :
    Booked position o (position.afterClose o now) := by
  have hrest : numericEqual (position.quantity - o.quantity) 0
      ↔ numericEqual o.quantity position.quantity := by
    rw [numericEqual_iff, numericEqual_iff, sub_zero, abs_sub_comm]
  have habs : |position.quantity - o.quantity| = position.quantity - o.quantity :=
    abs_of_nonneg (sub_nonneg.mpr hle)
  unfold PairedPositionRow.afterClose
  dsimp only
  split
  · -- Nothing but rounding is left, so the position is closed and its fees go with it.
    next hzero =>
      refine ⟨rfl, rfl, rfl, rfl, hnonneg, hle, rfl, rfl, rfl, .inl ⟨rfl, rfl, ?_, ?_, ?_⟩⟩
      · rw [numericEqual_iff, sub_zero, habs] at hzero
        exact hzero
      · exact fun hpaper => absurd hpaper hlive
      · exact hwhole (hrest.mp hzero)
  · -- More than that is left, and the fees are split in proportion.
    next hzero =>
      have hmore : 1 / 10 ^ 15 < position.quantity - o.quantity := by
        rw [numericEqual_iff, sub_zero, habs, not_le] at hzero
        exact hzero
      refine ⟨rfl, rfl, rfl, rfl, hnonneg, hle, rfl, rfl, rfl, .inr ⟨rfl, rfl, ?_, ?_, ?_⟩⟩
      · exact lt_trans (by norm_num) hmore
      · exact fun _ => hmore
      · exact hpart fun heq => hzero (hrest.mpr heq)

/-- A booking of `settle_live_close`.  A position too small to count has no
unequal fills to compensate. -/
theorem booked_live {intent : TradeIntentRow} {position : PairedPositionRow} {y : Layout}
    {fills : List FillRow} {o : CloseOutcome}
    (h : closeVerdict intent position y fills = .ok (.settle o))
    (hlive : position.environment ≠ .paper) (hsmall : position.quantity ≤ 1 / 10 ^ 15 →
      numericEqual y.spot.filledBase y.perp.filledBase) :
    Booked position o (position.afterClose o now)
      ∧ (o.status = .closed ∨ o.status = .failed) := by
  obtain ⟨-, ⟨hunequal, c, common, fees, profit, -, -, hcompensated, houtcome⟩
    | ⟨-, hle, -, -, hq, hallocation, -, -, hstatus⟩⟩ := Ledger.closeVerdict_settle h
  · obtain ⟨adjusted, hadjusted, rfl, hle, -, -⟩ := closeCompensated_ok hcompensated
    obtain ⟨-, -, hnonneg, -, -, -⟩ := compensatedBaseQuantities_ok hadjusted
    obtain ⟨hq, -, hallocation, -, hstatus⟩ := closeCompensatedOutcome_ok houtcome
    refine ⟨booked_afterClose hlive (hq ▸ hnonneg) (hq ▸ hle) ?_ ?_, hstatus⟩
    · intro heq
      rcases hallocation with ⟨hzero, -⟩ | ⟨-, hallocation⟩
      · -- Nothing was closed of a position that was there.
        rw [hq, hzero, numericEqual_iff, zero_sub, abs_neg] at heq
        exact absurd (hsmall ((le_abs_self _).trans heq)) hunequal
      · exact (allocateOpeningFee_ok hallocation).1 (hq ▸ heq)
    · intro hne
      rcases hallocation with ⟨hzero, ha⟩ | ⟨-, hallocation⟩
      · rw [ha, hq, hzero, zero_mul, mul_zero]
      · rw [hq] at hne ⊢
        exact (allocateOpeningFee_ok hallocation).2 hne
  · refine ⟨booked_afterClose hlive ?_ (hq ▸ hle) ?_ ?_, .inl hstatus⟩
    · rw [hq]
      exact y.spot.filledBase_nonneg
    · rw [hq]
      exact (allocateOpeningFee_ok hallocation).1
    · rw [hq]
      exact (allocateOpeningFee_ok hallocation).2

end

namespace Ledger

variable {seen : List PairedPositionRow} {l l' : Ledger} {now : Int}

/-! ## §6. Settlements. -/

/-- A leg is inserted where the intent has none of its kind. -/
theorem insertLeg_ok {leg : OrderLegRow} (h : l.insertLeg leg = .ok l') :
    (∀ o ∈ l.legs, o.tradeIntentId = leg.tradeIntentId → o.leg ≠ leg.leg)
      ∧ l' = { l with legs := l.legs ++ [leg], nextId := l.nextId + 1 } := by
  simp only [insertLeg, raiseIf_bind_eq_ok] at h
  obtain ⟨-, hname, h⟩ := h
  cases h
  exact ⟨fun o ho hintent hleg => hname ⟨o, ho, hintent, hleg⟩, rfl⟩

/-- A protection adds one leg for the excess, sets the intent compensating and
pauses the control. -/
theorem protect_ok {intent i' : TradeIntentRow} {excess : OrderLegRow} {base : ℚ}
    (h : l.protect intent excess base now = .ok (i', l')) :
    ∃ leg, liveCompensationLeg intent excess base l.nextId now = .ok leg
      ∧ i' = (l.moveIntent intent .compensating intent.failureCode).1
      ∧ l' = (({ l with legs := l.legs ++ [leg], nextId := l.nextId + 1 : Ledger }.pause
          settlementPause).moveIntent intent .compensating intent.failureCode).2 := by
  unfold protect at h
  obtain ⟨leg, hleg, h⟩ := bind_eq_ok.mp h
  obtain ⟨l₁, h₁, h⟩ := bind_eq_ok.mp h
  obtain ⟨-, rfl⟩ := insertLeg_ok h₁
  cases h
  exact ⟨leg, hleg, rfl, rfl⟩

/-- The leg that undoes a primary leg of an intent fits the intent. -/
theorem protection_fits {i : TradeIntentRow} {excess leg : OrderLegRow} (hf : excess.Fits i)
    (hname : excess.leg.isCompensation = false) (hintent : leg.tradeIntentId = i.id)
    (hleg : leg.leg = excess.leg.protection) (hmarket : leg.market = excess.market)
    (hside : leg.side = excess.side.flip) :
    leg.leg.isCompensation = true ∧ leg.Fits i := by
  have hm := hf.market
  have hs := hf.side
  cases hx : excess.leg with
  | compensation m =>
      rw [hx] at hname
      cases hname
  | primary m =>
      rw [hx] at hleg hm hs
      have hcomp : leg.leg = .compensation m := hleg
      refine ⟨by rw [hcomp]; rfl, hintent, ?_, ?_, fun h => ?_⟩
      · rw [hmarket, hcomp]
        exact hm
      · rw [hside, hcomp, hs]
        rfl
      · rw [hcomp] at h
        cases h

/-- It is a sequence of writes. -/
theorem protect_writes (hw : WellFormed seen l) {intent i' : TradeIntentRow} {y : Layout}
    {excess : OrderLegRow} {base : ℚ} (hi : intent ∈ l.intents)
    (hopen : intent.status.isTerminal = false) (hlayout : l.layout intent.id = .ok y)
    (hexcess : excess = y.spot ∨ excess = y.perp)
    (h : l.protect intent excess base now = .ok (i', l')) : l.Writes seen l' := by
  obtain ⟨leg, hleg, -, rfl⟩ := protect_ok h
  obtain ⟨hspot, hperp, -, -⟩ := layout_legs hlayout
  obtain ⟨-, hid, hintent, hname, hmarket, hside, -, -, -⟩ := liveCompensationLeg_ok hleg
  have hprimary : excess.leg.isCompensation = false := by
    rcases hexcess with rfl | rfl
    · rw [hspot]
      rfl
    · rw [hperp]
      rfl
  have hmem : excess ∈ y.legs := by
    rcases hexcess with rfl | rfl <;> simp [Layout.legs]
  obtain ⟨hmem, hmem_intent⟩ := mem_layout hlayout hmem
  have hfits := protection_fits (hw.fits hi hmem hmem_intent) hprimary hintent hname hmarket hside
  have hprotect : l.Write seen _ := .protect hid hi hfits.1 hfits.2
  exact move_writes (ReflTransGen.tail (.single hprotect) (.control _)) hi hopen .compensating _

/-- What a committed `settle_live_open` has read and decided. -/
theorem settleLiveOpen_ok {intentId : Nat} {r : Option Settled}
    (h : settleLiveOpen intentId now l = .ok (r, l')) :
    (l' = l ∧ ∀ i p, r ≠ some (i, p, true)) ∨
      ∃ intent y verdict settled, Table.find? l.intents intentId = some intent
      ∧ (∀ p ∈ l.positions, p.openingIntentId ≠ intent.id) ∧ isSettleable intent .opening
      ∧ l.layout intent.id = .ok y
      ∧ openVerdict intent y (l.fillsOfLeg y.spot.id) (l.fillsOfIntent intent.id) = .ok verdict
      ∧ l.applyOpen intent now verdict = .ok (settled, l') ∧ r = some settled := by
  unfold settleLiveOpen at h
  -- No such intent, a position from it, or an intent that cannot be settled: nothing is written.
  split at h
  · cases h
    exact .inl ⟨rfl, fun i p h => (by cases h)⟩
  next intent hintent =>
  split at h
  · cases h
    exact .inl ⟨rfl, fun i p h => (by cases h)⟩
  next hnone =>
  split at h
  · cases h
    exact .inl ⟨rfl, fun i p h => (by cases h)⟩
  next hsettleable =>
  -- The legs are read, a verdict is reached and applied.
  obtain ⟨y, hy, h⟩ := bind_eq_ok.mp h
  obtain ⟨verdict, hverdict, h⟩ := bind_eq_ok.mp h
  obtain ⟨⟨settled, l₁⟩, happly, h⟩ := bind_eq_ok.mp h
  cases h
  refine .inr ⟨intent, y, verdict, settled, hintent, fun p hp heq => ?_, not_not.mp hsettleable, hy,
    hverdict, happly, rfl⟩
  have hne := List.find?_eq_none.mp hnone p hp
  simp only [decide_eq_true_eq] at hne
  exact hne heq

theorem isSettleable.open_ {intent : TradeIntentRow} {action : TradeAction}
    (h : isSettleable intent action) : intent.status.isTerminal = false := by
  rcases h.2.2 with hs | hs <;> rw [hs] <;> rfl

/-- Settling an opening is a sequence of writes, whichever verdict it comes to.
-/
theorem settleLiveOpen_writes (hw : WellFormed seen l) {intentId : Nat} {r : Option Settled}
    (h : settleLiveOpen intentId now l = .ok (r, l')) : l.Writes seen l' := by
  rcases settleLiveOpen_ok h with ⟨rfl, -⟩ | ⟨intent, y, verdict, settled, hintent, -, hsettleable, hy,
    hverdict, happly, -⟩
  · exact .refl
  have hi := (Table.find?_some hintent).1
  have hopen := hsettleable.open_
  -- One case for each verdict.
  cases verdict with
  | pending =>
      cases happly
      exact .refl
  | noFills =>
      cases happly
      exact move_writes .refl hi hopen .failed _
  | protect excess base =>
      obtain ⟨⟨i', l₁⟩, hprotect, happly⟩ := bind_eq_ok.mp happly
      cases happly
      exact protect_writes hw hi hopen hy (openVerdict_protect hverdict).1 hprotect
  | review =>
      cases happly
      exact move_writes (pause_writes settlementPause) hi hopen .manualReview _
  | neutralized =>
      cases happly
      exact move_writes .refl hi hopen .failed _
  -- The only verdict that opens a position; its quantity is not negative in either branch.
  | hedge quantity s p cost =>
      cases happly
      have hnonneg : 0 ≤ quantity := by
        obtain ⟨-, hbase, -, -, ⟨-, -, c, adjusted, fees, profit, -, -, hadjusted, -, -, hq, -⟩
          | ⟨-, hq, -⟩⟩ := openVerdict_hedge rfl hverdict
        · rw [hq]
          exact (compensatedBaseQuantities_ok hadjusted).2.2.1
        · rw [hq]
          exact le_min hbase y.perp.filledBase_nonneg
      exact move_writes (.single (.opened rfl rfl rfl hnonneg rfl rfl rfl)) hi hopen .hedged _

/-- A committed `insert` of a realization row records the outcome. -/
theorem insertRealization_ok {position : PairedPositionRow} {intent : TradeIntentRow}
    {o : CloseOutcome} (h : l.insertRealization position intent o now = .ok l') :
    (∀ r ∈ l.realizations, r.closingIntentId ≠ intent.id) ∧ 0 ≤ o.quantity
      ∧ 0 ≤ o.openingFeeAllocation ∧ 0 ≤ o.closingFees
      ∧ ∃ row : PnlRealizationRow, row.Records position intent o
        ∧ l' = { l with realizations := l.realizations ++ [row], nextId := l.nextId + 1 } := by
  simp only [insertRealization, raiseIf_bind_eq_ok] at h
  obtain ⟨hunique, h⟩ := h
  split at h
  · cases h
  next hq =>
  split at h
  · cases h
  next ho =>
  split at h
  · cases h
  next hc =>
  cases h
  exact ⟨fun r hr heq => hunique ⟨r, hr, heq⟩, not_not.mp hq, not_not.mp ho, not_not.mp hc, _,
    ⟨rfl, rfl, rfl, rfl, rfl, rfl, rfl⟩, rfl⟩

/-- What a committed `settle_live_close` has read and decided. -/
theorem settleLiveClose_ok {intentId : Nat} {r : Option Settled}
    (h : settleLiveClose intentId now l = .ok (r, l')) :
    (l' = l ∧ ∀ i p, r ≠ some (i, p, true)) ∨
      ∃ intent position y verdict settled, Table.find? l.intents intentId = some intent
      ∧ l.positionOf intent = some position ∧ isSettleable intent .closing
      ∧ isReserved position intent ∧ l.layout intent.id = .ok y
      ∧ closeVerdict intent position y (l.fillsOfIntent intent.id) = .ok verdict
      ∧ l.applyClose intent position now verdict = .ok (settled, l') ∧ r = some settled := by
  unfold settleLiveClose at h
  split at h
  · cases h
    exact .inl ⟨rfl, fun i p h => (by cases h)⟩
  next intent hintent =>
  split at h
  · cases h
    exact .inl ⟨rfl, fun i p h => (by cases h)⟩
  next position hposition =>
  split at h
  · cases h
    exact .inl ⟨rfl, fun i p h => (by cases h)⟩
  next hchecks =>
  rw [not_or, not_not] at hchecks
  obtain ⟨y, hy, h⟩ := bind_eq_ok.mp h
  obtain ⟨verdict, hverdict, h⟩ := bind_eq_ok.mp h
  obtain ⟨⟨settled, l₁⟩, happly, h⟩ := bind_eq_ok.mp h
  cases h
  exact .inr ⟨intent, position, y, verdict, settled, hintent, hposition, hchecks.2.1, hchecks.2.2,
    hy, hverdict, happly, rfl⟩

/-- A booked close as one write. -/
theorem book_writes {intent : TradeIntentRow} {position new : PairedPositionRow} {o : CloseOutcome}
    {l₁ l₂ : Ledger} (hl : l.Writes seen l₁) (hi : intent ∈ l₁.intents)
    (hopen : intent.status.isTerminal = false) (hp : position ∈ l₁.positions)
    (hp' : position.status ≠ .closed) (hbooked : Booked position o new)
    (h : l₁.insertRealization position intent o now = .ok l₂) (status : IntentStatus)
    (hstatus : status.isTerminal = true) (code : Option FailureCode) :
    l.Writes seen ({ l₂ with positions := Table.put l₂.positions new : Ledger }.moveIntent
      intent status code).2 := by
  obtain ⟨-, -, -, -, row, hrow, rfl⟩ := insertRealization_ok h
  exact hl.tail (.book hi hopen hp hp' hbooked hrow status hstatus code)

/-- A reserved position is not closed. -/
theorem isReserved.open_ {position : PairedPositionRow} {intent : TradeIntentRow}
    (h : isReserved position intent) : position.status ≠ .closed := by
  rw [h.1]
  exact fun h => (by cases h)

/-- Settling a close is a sequence of writes. -/
theorem settleLiveClose_writes (hw : WellFormed seen l) {intentId : Nat} {r : Option Settled}
    (h : settleLiveClose intentId now l = .ok (r, l')) : l.Writes seen l' := by
  rcases settleLiveClose_ok h with ⟨rfl, -⟩ | ⟨intent, position, y, verdict, settled, hintent, hposition,
    hsettleable, hreserved, hy, hverdict, happly, -⟩
  · exact .refl
  have hi := (Table.find?_some hintent).1
  have hp := (positionOf_some hposition).1
  have hopen := hsettleable.open_
  -- One case for each verdict.
  cases verdict with
  | pending =>
      cases happly
      exact .refl
  -- Without fills the position is let go, and the intent fails.
  | noFills =>
      cases happly
      exact move_writes (hold_writes .refl hp hreserved.open_ .opened (fun h => (by cases h)) none)
        hi hopen .failed _
  | protect excess base =>
      obtain ⟨⟨i', l₁⟩, hprotect, happly⟩ := bind_eq_ok.mp happly
      cases happly
      exact protect_writes hw hi hopen hy (closeVerdict_protect hverdict).1 hprotect
  | review =>
      cases happly
      exact move_writes (pause_writes settlementPause) hi hopen .manualReview _
  -- The realization is booked, the position and the intent follow it.
  | settle o =>
      obtain ⟨l₁, hrow, happly⟩ := bind_eq_ok.mp happly
      cases happly
      have hlive : intent.environment ≠ .paper := by
        rcases hsettleable.1 with he | he <;> rw [he] <;> exact fun h => (by cases h)
      have hbooked : Booked position o (position.afterClose o now) ∧ _ :=
        booked_live hverdict ((hw.position_environment hi hposition).symm ▸ hlive)
          (hw.small hi hposition hy hlive hreserved.open_)
      obtain ⟨hbooked, hstatus⟩ := hbooked
      have hterminal : o.status.isTerminal = true := by
        rcases hstatus with hs | hs <;> rw [hs] <;> rfl
      exact book_writes .refl hi hopen hp hreserved.open_ hbooked hrow o.status hterminal _

/-! ## §7. Paper executions. -/

/-- The two legs of a paper intent are legs of it. -/
theorem paperLegs_ok {intentId : Nat} {spot perp : OrderLegRow}
    (h : l.paperLegs intentId = some (spot, perp)) :
    (spot ∈ l.legs ∧ spot.tradeIntentId = intentId ∧ spot.leg = .primary .spot)
      ∧ perp ∈ l.legs ∧ perp.tradeIntentId = intentId ∧ perp.leg = .primary .perp := by
  simp only [paperLegs] at h
  split at h
  · next s p hs hp =>
      cases h
      exact ⟨find?_legsOfIntent hs, find?_legsOfIntent hp⟩
  · cases h

/-- How a paper opening ends once its fills are stored: it has a position, or has
failed. -/
inductive PaperOpened (intent : TradeIntentRow) (spot perp : OrderLegRow) (now : Int) (l : Ledger) :
    Ledger → Prop
  | hedged {quantity fees : ℚ} (hq : 0 < quantity) :
      PaperOpened intent spot perp now l
        ((l.openPaper intent spot perp quantity fees now).2.moveIntent intent .hedged
          intent.failureCode).2
  | failed (code : FailureCode) :
      PaperOpened intent spot perp now l (l.moveIntent intent .failed (some code)).2

/-- The two legs of a paper intent with what they have filled. -/
structure PaperFilled (l : Ledger) (intent : TradeIntentRow) (spot perp : OrderLegRow)
    (spotFill perpFill : ℚ) : Prop where
  legs : l.paperLegs intent.id = some (spot, perp)
  spot_range : 0 ≤ spotFill ∧ spotFill ≤ spot.quantity
  perp_range : 0 ≤ perpFill ∧ perpFill ≤ perp.quantity

/-- The tables with both legs of a paper intent filled. -/
def PaperFilled.ledger {l : Ledger} {intent : TradeIntentRow} {spot perp : OrderLegRow}
    {spotFill perpFill : ℚ} (h : PaperFilled l intent spot perp spotFill perpFill) (now : Int) :
    Ledger :=
  l.fillPaperLegs intent spot perp (paperFilled spot spotFill h.spot_range.1)
    (paperFilled perp perpFill h.perp_range.1) spotFill perpFill now

/-- What a committed `record_paper_open_fills` has checked, and how it ends: the
larger fill is protected, or the opening ends. -/
theorem recordPaperOpenFills_ok {intentId : Nat} {spotFill perpFill : ℚ} {r : Option Settled}
    (h : recordPaperOpenFills intentId spotFill perpFill now l = .ok (r, l')) :
    l' = l ∨ ∃ (intent : TradeIntentRow) (spot perp : OrderLegRow)
        (hfilled : PaperFilled l intent spot perp spotFill perpFill),
      Table.find? l.intents intentId = some intent
      ∧ (intent.environment = .paper ∧ intent.action = .opening ∧ intent.status = .planned)
      ∧ ((∃ excess quantity hq i', (excess = spot ∨ excess = perp)
            ∧ (hfilled.ledger now).protectPaper intent excess quantity now hq = .ok (i', l'))
        ∨ PaperOpened intent spot perp now (hfilled.ledger now) l') := by
  unfold recordPaperOpenFills at h
  split at h
  · cases h
    exact .inl rfl
  next intent hintent =>
  split at h
  · cases h
    exact .inl rfl
  split at h
  · cases h
    exact .inl rfl
  next hplanned =>
  split at h
  · cases h
    exact .inl rfl
  next spot perp hlegs =>
  split at h
  · cases h
  next hrange =>
  rw [not_not] at hrange
  -- All checks passed: a paper opening that is planned, with its two legs.
  refine .inr ⟨intent, spot, perp, ⟨hlegs, hrange.1, hrange.2⟩, hintent, not_not.mp hplanned, ?_⟩
  dsimp only at h
  split at h
  · obtain ⟨⟨i', l₁⟩, hprotect, h⟩ := bind_eq_ok.mp h
    cases h
    exact .inl ⟨_, _, _, i', ite_eq_or_eq _ _ _, hprotect⟩
  · -- The fills agree: they open a position, unless there are none.
    split at h
    · next hpos =>
        cases h
        exact .inr (.hedged hpos)
    · cases h
      exact .inr (.failed _)

/-- What a committed `execute_paper_compensation` has checked, and how it ends:
the compensation fails, or it is filled and the opening ends. -/
theorem executePaperCompensation_ok {intentId : Nat} {succeeds : Bool} {r : Option Settled}
    (h : executePaperCompensation intentId succeeds now l = .ok (r, l')) :
    l' = l ∨ ∃ intent spot perp c, Table.find? l.intents intentId = some intent
      ∧ (intent.environment = .paper ∧ intent.action = .opening ∧ intent.status = .compensating)
      ∧ l.paperLegs intent.id = some (spot, perp)
      ∧ (l.legsOfIntent intent.id).filter (·.leg.isCompensation) = [c]
      ∧ (l' = (l.failPaperCompensation intent c).2
        ∨ PaperOpened intent spot perp now (l.fillPaperCompensation intent c now) l') := by
  unfold executePaperCompensation at h
  split at h
  · cases h
    exact .inl rfl
  next intent hintent =>
  split at h
  · cases h
    exact .inl rfl
  split at h
  · cases h
    exact .inl rfl
  next hcompensating =>
  split at h
  · next spot perp c hlegs hc =>
      -- All checks passed: a paper opening that is compensating, with its one protection leg.
      refine .inr ⟨intent, spot, perp, c, hintent, not_not.mp hcompensating, hlegs, hc, ?_⟩
      split at h
      · cases h
        exact .inl rfl
      · -- Filled: what the legs have left opens a position, unless nothing is left.
        dsimp only at h
        split at h
        · next hpos =>
            cases h
            exact .inr (.hedged hpos)
        · cases h
          exact .inr (.failed _)
  · cases h
    exact .inl rfl

/-- What a committed `record_paper_close_fills` has checked, and how it ends: the
larger fill is protected, or the close is booked. -/
theorem recordPaperCloseFills_ok {intentId : Nat} {spotFill perpFill : ℚ} {r : Option Settled}
    (h : recordPaperCloseFills intentId spotFill perpFill now l = .ok (r, l')) :
    l' = l ∨ ∃ (intent : TradeIntentRow) (position : PairedPositionRow) (spot perp : OrderLegRow)
        (hfilled : PaperFilled l intent spot perp spotFill perpFill),
      Table.find? l.intents intentId = some intent ∧ l.paperClosing intent position .planned
      ∧ ((∃ excess quantity hq i', (excess = spot ∨ excess = perp)
            ∧ (hfilled.ledger now).protectPaper intent excess quantity now hq = .ok (i', l'))
        ∨ ∃ spot' perp' fee settled, (hfilled.ledger now).applyPaperCloseOutcome intent position
            spot' perp' fee now = .ok (settled, l')) := by
  unfold recordPaperCloseFills at h
  split at h
  · cases h
    exact .inl rfl
  next intent hintent =>
  split at h
  · cases h
    exact .inl rfl
  next position hposition =>
  split at h
  · cases h
    exact .inl rfl
  split at h
  · cases h
    exact .inl rfl
  next hclosing =>
  split at h
  · cases h
    exact .inl rfl
  next spot perp hlegs =>
  split at h
  · cases h
  next hrange =>
  rw [not_not] at hrange
  -- All checks passed: a planned paper close of the position that it reserves.
  refine .inr ⟨intent, position, spot, perp, ⟨hlegs, hrange.1, hrange.2⟩, hintent,
    not_not.mp hclosing, ?_⟩
  dsimp only at h
  split at h
  · obtain ⟨⟨i', l₁⟩, hprotect, h⟩ := bind_eq_ok.mp h
    cases h
    exact .inl ⟨_, _, _, i', ite_eq_or_eq _ _ _, hprotect⟩
  · -- The fills agree, so the close is booked.
    obtain ⟨⟨settled, l₁⟩, happly, h⟩ := bind_eq_ok.mp h
    cases h
    exact .inr ⟨_, _, _, settled, happly⟩

/-- What a committed `execute_paper_close_compensation` has checked, and how it
ends: the compensation fails, or it is filled and the close is booked. -/
theorem executePaperCloseCompensation_ok {intentId : Nat} {succeeds : Bool} {r : Option Settled}
    (h : executePaperCloseCompensation intentId succeeds now l = .ok (r, l')) :
    l' = l ∨ ∃ intent position c, Table.find? l.intents intentId = some intent
      ∧ l.paperClosing intent position .compensating
      ∧ (l.legsOfIntent intent.id).filter (·.leg.isCompensation) = [c]
      ∧ (l' = (l.failPaperCompensation intent c).2
        ∨ ∃ spot perp fee settled, (l.fillPaperCompensation intent c now).applyPaperCloseOutcome
            intent position spot perp fee now = .ok (settled, l')) := by
  unfold executePaperCloseCompensation at h
  split at h
  · cases h
    exact .inl rfl
  next intent hintent =>
  split at h
  · cases h
    exact .inl rfl
  next position hposition =>
  split at h
  · cases h
    exact .inl rfl
  split at h
  · cases h
    exact .inl rfl
  next hclosing =>
  split at h
  · next spot perp c hlegs hc =>
      -- All checks passed: a compensating paper close of the position that it reserves.
      refine .inr ⟨intent, position, c, hintent, not_not.mp hclosing, hc, ?_⟩
      split at h
      · cases h
        exact .inl rfl
      · obtain ⟨⟨settled, l₁⟩, happly, h⟩ := bind_eq_ok.mp h
        cases h
        exact .inr ⟨_, _, _, settled, happly⟩
  · cases h
    exact .inl rfl

/-- A paper fill continues its leg: the same order, filled no further than asked
for. -/
theorem paperFilled_continues {leg : OrderLegRow} {quantity : ℚ} (hq : 0 ≤ quantity)
    (hle : leg.leg.isCompensation = false → quantity ≤ leg.quantity) :
    (paperFilled leg quantity hq).Continues leg :=
  ⟨rfl, rfl, rfl, rfl, rfl, rfl, fun hname => ⟨rfl, fun _ => hle hname⟩⟩

/-- Filling the two paper legs is a sequence of writes. -/
theorem fillPaperLegs_writes (hw : WellFormed seen l) {intent : TradeIntentRow}
    {spot perp : OrderLegRow} {spotFill perpFill : ℚ}
    (hlegs : l.paperLegs intent.id = some (spot, perp)) (hs : 0 ≤ spotFill) (hp : 0 ≤ perpFill)
    (hs_le : spotFill ≤ spot.quantity) (hp_le : perpFill ≤ perp.quantity) :
    l.Writes seen (l.fillPaperLegs intent spot perp (paperFilled spot spotFill hs)
      (paperFilled perp perpFill hp) spotFill perpFill now) := by
  obtain ⟨⟨hspot, -, hs_name⟩, hperp, -, hp_name⟩ := paperLegs_ok hlegs
  have hne : spot.leg ≠ perp.leg := by
    rw [hs_name, hp_name]
    exact fun h => (by cases h)
  have hput := putPair_writes hw hspot hperp hne (paperFilled_continues hs fun _ => hs_le)
    (paperFilled_continues hp fun _ => hp_le)
  exact hput.tail (.fills _ (Nat.le_add_right l.nextId 2))

/-- What protecting a paper intent does: one new leg, and the intent is
compensating. -/
theorem protectPaper_ok {intent i' : TradeIntentRow} {excess : OrderLegRow} {quantity : ℚ}
    {hq : 0 < quantity} (h : l.protectPaper intent excess quantity now hq = .ok (i', l')) :
    ∃ leg, leg = paperCompensationLeg intent excess quantity
        (paperCompensationId excess.clientOrderId) l.nextId now hq
      ∧ l.insertLeg leg = .ok { l with legs := l.legs ++ [leg], nextId := l.nextId + 1 }
      ∧ l' = (({ l with
          legs := l.legs ++ [leg], nextId := l.nextId + 1 } : Ledger).moveIntent intent
            .compensating intent.failureCode).2 := by
  unfold protectPaper at h
  obtain ⟨l₁, hinsert, h⟩ := bind_eq_ok.mp h
  obtain ⟨-, rfl⟩ := insertLeg_ok hinsert
  cases h
  exact ⟨_, rfl, hinsert, rfl⟩

/-- Protecting a paper intent adds one leg. -/
theorem protectPaper_writes (hw : WellFormed seen l) {l₁ : Ledger} (hl : l.Writes seen l₁)
    (hintents : l₁.intents = l.intents) {intent i' : TradeIntentRow} {excess : OrderLegRow}
    {quantity : ℚ} {hq : 0 < quantity} (hi : intent ∈ l.intents)
    (hopen : intent.status.isTerminal = false) (hexcess : excess ∈ l.legs)
    (hexcess_intent : excess.tradeIntentId = intent.id)
    (hname : excess.leg.isCompensation = false)
    (h : l₁.protectPaper intent excess quantity now hq = .ok (i', l')) : l.Writes seen l' := by
  obtain ⟨leg, rfl, -, rfl⟩ := protectPaper_ok h
  have hfits : (paperCompensationLeg intent excess quantity
      (paperCompensationId excess.clientOrderId) l₁.nextId now hq).leg.isCompensation = true
      ∧ OrderLegRow.Fits _ intent :=
    protection_fits (hw.fits hi hexcess hexcess_intent) hname rfl rfl rfl rfl
  have hi₁ : intent ∈ l₁.intents := by
    rw [hintents]
    exact hi
  exact move_writes (hl.tail (.protect rfl hi₁ hfits.1 hfits.2)) hi₁ hopen .compensating _

/-- A new paper position, its intent hedged. -/
theorem openPaper_writes {l₁ : Ledger} (hl : l.Writes seen l₁) {intent : TradeIntentRow}
    {spot perp : OrderLegRow} {quantity fees : ℚ} (hi : intent ∈ l₁.intents)
    (hopen : intent.status.isTerminal = false) (hq : 0 < quantity) :
    l.Writes seen ((l₁.openPaper intent spot perp quantity fees now).2.moveIntent intent .hedged
      intent.failureCode).2 :=
  move_writes (hl.tail (.opened rfl rfl rfl hq.le rfl rfl rfl)) hi hopen .hedged _

/-- The same for the filled legs of a paper intent. -/
theorem PaperFilled.writes (hw : WellFormed seen l) {intent : TradeIntentRow}
    {spot perp : OrderLegRow} {spotFill perpFill : ℚ}
    (h : PaperFilled l intent spot perp spotFill perpFill) : l.Writes seen (h.ledger now) :=
  fillPaperLegs_writes hw h.legs h.spot_range.1 h.perp_range.1 h.spot_range.2 h.perp_range.2

/-- Each of the two is a primary leg of the intent. -/
theorem PaperFilled.primary {intent : TradeIntentRow} {spot perp excess : OrderLegRow}
    {spotFill perpFill : ℚ} (h : PaperFilled l intent spot perp spotFill perpFill)
    (hexcess : excess = spot ∨ excess = perp) :
    excess ∈ l.legs ∧ excess.tradeIntentId = intent.id ∧ excess.leg.isCompensation = false := by
  obtain ⟨⟨hs, hs_intent, hs_name⟩, hp, hp_intent, hp_name⟩ := paperLegs_ok h.legs
  rcases hexcess with rfl | rfl
  · exact ⟨hs, hs_intent, by rw [hs_name]; rfl⟩
  · exact ⟨hp, hp_intent, by rw [hp_name]; rfl⟩

/-- The end of a paper opening is a sequence of writes. -/
theorem PaperOpened.writes {l₁ : Ledger} {intent : TradeIntentRow} {spot perp : OrderLegRow}
    (h : PaperOpened intent spot perp now l₁ l') (hl : l.Writes seen l₁)
    (hi : intent ∈ l₁.intents) (hopen : intent.status.isTerminal = false) : l.Writes seen l' := by
  cases h with
  | hedged hq => exact openPaper_writes hl hi hopen hq
  | failed code => exact move_writes hl hi hopen .failed _

/-- Recording the fills of a paper opening is a sequence of writes. -/
theorem recordPaperOpenFills_writes (hw : WellFormed seen l) {intentId : Nat}
    {spotFill perpFill : ℚ} {r : Option Settled}
    (h : recordPaperOpenFills intentId spotFill perpFill now l = .ok (r, l')) :
    l.Writes seen l' := by
  rcases recordPaperOpenFills_ok h with
    rfl | ⟨intent, spot, perp, hfilled, hintent, ⟨-, -, hplanned⟩, hend⟩
  · exact .refl
  have hi := (Table.find?_some hintent).1
  have hopen : intent.status.isTerminal = false := by
    rw [hplanned]
    rfl
  rcases hend with ⟨excess, quantity, hq, i', hexcess, hprotect⟩ | hend
  · obtain ⟨hmem, hid, hname⟩ := hfilled.primary hexcess
    exact protectPaper_writes hw (hfilled.writes hw) rfl hi hopen hmem hid hname hprotect
  · exact hend.writes (hfilled.writes hw) hi hopen

/-- Filling a paper compensation stores its fill. -/
theorem fillPaperCompensation_writes {intent : TradeIntentRow} {c : OrderLegRow}
    (hc : c ∈ l.legs) : l.Writes seen (l.fillPaperCompensation intent c now) := by
  have hput : l.Write seen { l with
      legs := Table.put l.legs (paperFilled c c.quantity c.quantity_pos.1.le) } :=
    .leg hc (paperFilled_continues _ fun _ => le_refl _)
  exact ReflTransGen.tail (.single hput) (.fills _ (Nat.le_succ l.nextId))

/-- Failing it ends leg and intent. -/
theorem failPaperCompensation_writes {intent : TradeIntentRow} {c : OrderLegRow} (hc : c ∈ l.legs)
    (hi : intent ∈ l.intents) (hopen : intent.status.isTerminal = false) :
    l.Writes seen (l.failPaperCompensation intent c).2 := by
  have hput : l.Write seen { l with legs := Table.put l.legs { c with status := .failed } } :=
    .leg hc (.of_eq rfl rfl rfl rfl rfl rfl rfl rfl)
  exact move_writes (ReflTransGen.tail (.single hput) (.control _)) hi hopen .manualReview _

/-- A paper compensation, filled or failed, is a sequence of writes. -/
theorem executePaperCompensation_writes {intentId : Nat} {succeeds : Bool} {r : Option Settled}
    (h : executePaperCompensation intentId succeeds now l = .ok (r, l')) : l.Writes seen l' := by
  rcases executePaperCompensation_ok h with
    rfl | ⟨intent, spot, perp, c, hintent, ⟨-, -, hcompensating⟩, -, hc, hend⟩
  · exact .refl
  have hi := (Table.find?_some hintent).1
  have hmem := (mem_of_filter_eq hc).1
  have hopen : intent.status.isTerminal = false := by
    rw [hcompensating]
    rfl
  rcases hend with rfl | hend
  · exact failPaperCompensation_writes hmem hi hopen
  · exact hend.writes (fillPaperCompensation_writes hmem) hi hopen

/-- `paperAfterClose` books an outcome whose opening fees follow its quantity. -/
theorem booked_paperAfterClose {position : PairedPositionRow} {o : CloseOutcome}
    (hpaper : position.environment = .paper) (hnonneg : 0 ≤ o.quantity)
    (hle : o.quantity ≤ position.quantity)
    (hwhole : o.quantity = position.quantity →
      o.openingFeeAllocation = position.remainingOpeningFeesUsdt)
    (hpart : o.quantity ≠ position.quantity →
      o.openingFeeAllocation * position.quantity
        = position.remainingOpeningFeesUsdt * o.quantity) :
    Booked position o (paperAfterClose position o now) := by
  unfold paperAfterClose
  dsimp only
  split
  · next hzero =>
      refine ⟨rfl, rfl, rfl, rfl, hnonneg, hle, rfl, rfl, rfl, .inl ⟨rfl, hzero, ?_, ?_, ?_⟩⟩
      · rw [hzero]
        norm_num
      · exact fun _ => sub_eq_zero.mp hzero
      · exact hwhole (sub_eq_zero.mp hzero).symm
  · next hzero =>
      have hpos : 0 < position.quantity - o.quantity :=
        lt_of_le_of_ne (sub_nonneg.mpr hle) fun h => hzero h.symm
      refine ⟨rfl, rfl, rfl, rfl, hnonneg, hle, rfl, rfl, rfl, .inr ⟨rfl, rfl, hpos, ?_, ?_⟩⟩
      · exact fun henv => absurd hpaper henv
      · exact hpart fun heq => hzero (sub_eq_zero.mpr heq.symm)

/-- A paper close as it is booked. -/
theorem paperCloseOutcome_booked {intent : TradeIntentRow} {position : PairedPositionRow}
    {spot perp : OrderLegRow} {fee : ℚ} {o : CloseOutcome}
    (hpaper : position.environment = .paper)
    (h : paperCloseOutcome intent position spot perp fee = .ok o) :
    Booked position o (paperAfterClose position o now) ∧ o.status.isTerminal = true := by
  simp only [paperCloseOutcome, raiseIf_bind_eq_ok, not_lt] at h
  obtain ⟨hle, h⟩ := h
  obtain ⟨allocation, hallocation, h⟩ := bind_eq_ok.mp h
  cases h
  constructor
  · refine booked_paperAfterClose hpaper (le_min spot.filled_nonneg perp.filled_nonneg) hle ?_ ?_
    · intro heq
      rw [if_pos heq] at hallocation
      cases hallocation
      rfl
    · intro hne
      rw [if_neg hne] at hallocation
      split at hallocation
      · cases hallocation
      · next hq =>
          cases hallocation
          exact div_mul_cancel₀ _ hq
  · dsimp only
    split <;> rfl

/-- What booking a paper close does: its realization is inserted, and position and
intent follow it. -/
theorem applyPaperCloseOutcome_ok {intent : TradeIntentRow} {position : PairedPositionRow}
    {spot perp : OrderLegRow} {fee : ℚ} {settled : Settled}
    (h : l.applyPaperCloseOutcome intent position spot perp fee now = .ok (settled, l')) :
    ∃ o row, paperCloseOutcome intent position spot perp fee = .ok o
      ∧ PnlRealizationRow.Records row position intent o
      ∧ l' = (({ l with
          realizations := l.realizations ++ [row], nextId := l.nextId + 1
          positions := Table.put l.positions (paperAfterClose position o now) } : Ledger).moveIntent
            intent o.status
            (if o.status = .failed then some .noFills else intent.failureCode)).2 := by
  unfold applyPaperCloseOutcome at h
  obtain ⟨o, ho, h⟩ := bind_eq_ok.mp h
  obtain ⟨l₁, hrow, h⟩ := bind_eq_ok.mp h
  obtain ⟨-, -, -, -, row, hrecords, rfl⟩ := insertRealization_ok hrow
  cases h
  exact ⟨o, row, ho, hrecords, rfl⟩

/-- Applying the outcome of a paper close books it on its position. -/
theorem applyPaperCloseOutcome_writes {l₁ : Ledger} (hl : l.Writes seen l₁)
    {intent : TradeIntentRow} {position : PairedPositionRow} {spot perp : OrderLegRow} {fee : ℚ}
    {settled : Settled} (hi : intent ∈ l₁.intents) (hopen : intent.status.isTerminal = false)
    (hp : position ∈ l₁.positions) (hp' : position.status ≠ .closed)
    (hpaper : position.environment = .paper)
    (h : l₁.applyPaperCloseOutcome intent position spot perp fee now = .ok (settled, l')) :
    l.Writes seen l' := by
  unfold applyPaperCloseOutcome at h
  obtain ⟨o, ho, h⟩ := bind_eq_ok.mp h
  obtain ⟨l₂, hrow, h⟩ := bind_eq_ok.mp h
  cases h
  obtain ⟨hbooked, hstatus⟩ := paperCloseOutcome_booked hpaper ho
  exact book_writes hl hi hopen hp hp' hbooked hrow o.status hstatus _

/-- Recording the fills of a paper close is a sequence of writes. -/
theorem recordPaperCloseFills_writes (hw : WellFormed seen l) {intentId : Nat}
    {spotFill perpFill : ℚ} {r : Option Settled}
    (h : recordPaperCloseFills intentId spotFill perpFill now l = .ok (r, l')) :
    l.Writes seen l' := by
  rcases recordPaperCloseFills_ok h with
    rfl | ⟨intent, position, spot, perp, hfilled, hintent, hclosing, hend⟩
  · exact .refl
  obtain ⟨hpaper, -, hplanned, hreserved, hposition⟩ := hclosing
  have hi := (Table.find?_some hintent).1
  have hopen : intent.status.isTerminal = false := by
    rw [hplanned]
    rfl
  rcases hend with ⟨excess, quantity, hq, i', hexcess, hprotect⟩ | ⟨_, _, _, settled, happly⟩
  · obtain ⟨hmem, hid, hname⟩ := hfilled.primary hexcess
    exact protectPaper_writes hw (hfilled.writes hw) rfl hi hopen hmem hid hname hprotect
  · exact applyPaperCloseOutcome_writes (hfilled.writes hw) hi hopen (positionOf_some hposition).1
      hreserved.open_ ((hw.position_environment hi hposition).trans hpaper) happly

/-- And so is the compensation of a paper close. -/
theorem executePaperCloseCompensation_writes (hw : WellFormed seen l) {intentId : Nat}
    {succeeds : Bool} {r : Option Settled}
    (h : executePaperCloseCompensation intentId succeeds now l = .ok (r, l')) :
    l.Writes seen l' := by
  rcases executePaperCloseCompensation_ok h with
    rfl | ⟨intent, position, c, hintent, hclosing, hc, hend⟩
  · exact .refl
  obtain ⟨hpaper, -, hcompensating, hreserved, hposition⟩ := hclosing
  have hi := (Table.find?_some hintent).1
  have hmem := (mem_of_filter_eq hc).1
  have hopen : intent.status.isTerminal = false := by
    rw [hcompensating]
    rfl
  rcases hend with rfl | ⟨_, _, _, settled, happly⟩
  · exact failPaperCompensation_writes hmem hi hopen
  · exact applyPaperCloseOutcome_writes (fillPaperCompensation_writes hmem) hi hopen
      (positionOf_some hposition).1 hreserved.open_
      ((hw.position_environment hi hposition).trans hpaper) happly

end Ledger

/-! ## §8. All transactions. -/

variable {seen : List PairedPositionRow} {l l' : Ledger} {now : Int}

/-- The transactions on single legs. -/
def TradeOp.writesLeg : TradeOp → Bool
  | .prepareCompensation .. | .recordSubmission .. | .markSubmissionUnknown ..
  | .markSubmissionRejected .. | .markUnknownNotFound .. | .persistFills ..
  | .reconcileOrder .. => true
  | _ => false

/-- They leave intents, positions and realizations as they are. -/
theorem TradeOp.writesLeg_frame {o : TradeOp} (ho : o.writesLeg = true) {r : o.Result}
    (h : o.tx now l = .ok (r, l')) :
    l'.intents = l.intents ∧ l'.positions = l.positions ∧ l'.realizations = l.realizations := by
  cases o with
  | prepareCompensation intentId limit quantity tolerance =>
      rcases Ledger.prepareLiveCompensation_ok h with ⟨rfl, -⟩ | ⟨i, c, hq, ht, -, -, -, -, -, rfl, -⟩
      · exact ⟨rfl, rfl, rfl⟩
      · exact ⟨rfl, rfl, rfl⟩
  | recordSubmission legId s =>
      obtain ⟨leg, -, -, rfl⟩ := Ledger.recordOrderSubmission_ok h
      exact ⟨rfl, rfl, rfl⟩
  | markSubmissionUnknown legId =>
      obtain ⟨leg, reason, -, rfl⟩ := Ledger.markOrderSubmissionUnknown_ok h
      exact ⟨rfl, rfl, rfl⟩
  | markSubmissionRejected legId code =>
      obtain ⟨leg, reason, -, rfl⟩ := Ledger.markOrderSubmissionRejected_ok h
      exact ⟨rfl, rfl, rfl⟩
  | markUnknownNotFound legId =>
      obtain ⟨leg, -, ⟨rfl, -⟩ | ⟨-, -, rfl⟩⟩ := Ledger.markUnknownOrderNotFound_ok h
      · exact ⟨rfl, rfl, rfl⟩
      · exact ⟨rfl, rfl, rfl⟩
  | persistFills legId fills =>
      obtain ⟨leg, link, rows, -, -, -, -, rfl⟩ := Ledger.persistRemoteFills_ok h
      exact ⟨rfl, rfl, rfl⟩
  | reconcileOrder legId order =>
      obtain ⟨leg, -, -, rfl⟩ := Ledger.reconcileRemoteOrder_ok h
      exact ⟨rfl, rfl, rfl⟩
  | _ => cases ho

/-- Every committed transaction is a sequence of row writes. -/
theorem TradeOp.writes (o : TradeOp) {r : o.Result} {b : Books} (hi : o.isInformed b)
    (hw : WellFormed b.seen b.ledger) (h : o.tx now b.ledger = .ok (r, l')) :
    b.ledger.Writes b.seen l' := by
  cases o with
  | createOpen plan => exact Ledger.createTradeIntent_writes h
  | createClose plan => exact Ledger.createPaperCloseIntent_writes hi h
  | prepareSubmission intentId adjusted => exact Ledger.prepareLiveSubmission_writes hw h
  | prepareCompensation intentId limit quantity tolerance =>
      exact Ledger.prepareLiveCompensation_writes h
  | expirePlanned intentId => exact Ledger.failPlanned_writes h
  | failMarketUnexecutable intentId => exact Ledger.failPlanned_writes h
  | recordPreflightFailure intentId exchange code =>
      exact Ledger.recordLivePreflightFailure_writes h
  -- A result of a submission is written on the leg, which stays what it is.
  | recordSubmission legId s =>
      obtain ⟨leg, hleg, -, rfl⟩ := Ledger.recordOrderSubmission_ok h
      exact Ledger.putLeg_writes hleg (.of_eq rfl rfl rfl rfl rfl rfl rfl rfl)
  | markSubmissionUnknown legId =>
      obtain ⟨leg, reason, hleg, rfl⟩ := Ledger.markOrderSubmissionUnknown_ok h
      refine Ledger.putLegIf_writes hleg ?_ (leg.status = .submitted)
      exact .of_eq rfl rfl rfl rfl rfl rfl rfl rfl
  | markSubmissionRejected legId code =>
      obtain ⟨leg, reason, hleg, rfl⟩ := Ledger.markOrderSubmissionRejected_ok h
      refine Ledger.putLegIf_writes hleg ?_ (leg.status = .submitted)
      exact .of_eq rfl rfl rfl rfl rfl rfl rfl rfl
  -- So is the status of a leg that the exchange does not know.
  | markUnknownNotFound legId =>
      obtain ⟨leg, hleg, ⟨hl, -⟩ | ⟨-, -, rfl⟩⟩ := Ledger.markUnknownOrderNotFound_ok h
      · rw [hl]
      · exact Ledger.putLeg_writes hleg (.of_eq rfl rfl rfl rfl rfl rfl rfl rfl)
  | persistFills legId fills => exact Ledger.persistRemoteFills_writes h
  | reconcileOrder legId order =>
      obtain ⟨leg, hleg, -, rfl⟩ := Ledger.reconcileRemoteOrder_ok h
      exact Ledger.putLeg_writes hleg (.of_eq rfl rfl rfl rfl rfl rfl rfl rfl)
  | settleOpen intentId => exact Ledger.settleLiveOpen_writes hw h
  | settleClose intentId => exact Ledger.settleLiveClose_writes hw h
  | paperOpenFills intentId spot perp => exact Ledger.recordPaperOpenFills_writes hw h
  | paperCompensation intentId succeeds => exact Ledger.executePaperCompensation_writes h
  | paperCloseFills intentId spot perp => exact Ledger.recordPaperCloseFills_writes hw h
  | paperCloseCompensation intentId succeeds =>
      exact Ledger.executePaperCloseCompensation_writes hw h

/-- What every write keeps, every sequence of writes keeps. -/
theorem Ledger.Writes.keeps {J : Ledger → Prop}
    (hwrite : ∀ l l' : Ledger, WellFormed seen l → J l → l.Write seen l' → J l')
    (h : l.Writes seen l') (hw : WellFormed seen l) (hj : J l) : WellFormed seen l' ∧ J l' := by
  induction h with
  | refl => exact ⟨hw, hj⟩
  | tail _ hstep ih =>
      obtain ⟨hw', hj'⟩ := ih
      exact ⟨hw'.write hstep, hwrite _ _ hw' hj' hstep⟩

/-- What is seen later has been committed before. -/
theorem WellFormed.after {b : Books} (hw : WellFormed b.seen l) :
    WellFormed (b.after l).seen (b.after l).ledger where
  intents_unique := hw.intents_unique
  legs_unique := hw.legs_unique
  positions_unique := hw.positions_unique
  intents_below := hw.intents_below
  legs_below := hw.legs_below
  positions_below := hw.positions_below
  leg_fits := hw.leg_fits
  closes := hw.closes
  sized := hw.sized
  seen_le := by
    intro r hr
    rcases List.mem_append.mp hr with hr | hr
    · exact ⟨r, hr, rfl, rfl, (hw.sized r hr).le_initial⟩
    · exact hw.seen_le r hr
  realized_intent := hw.realized_intent
  realized_position := hw.realized_position

theorem WellFormed.initial (h : l.Initial) : WellFormed [] l where
  intents_unique := by
    rw [h.intents]
    exact List.nodup_nil
  legs_unique := by
    rw [h.legs]
    exact List.nodup_nil
  positions_unique := by
    rw [h.positions]
    exact List.nodup_nil
  intents_below := by simp [Table.KeysBelow, h.intents]
  legs_below := by simp [Table.KeysBelow, h.legs]
  positions_below := by simp [Table.KeysBelow, h.positions]
  leg_fits := by simp [h.legs]
  closes := by simp [h.intents]
  sized := by simp [h.positions]
  seen_le := by simp
  realized_intent := by simp [h.realizations]
  realized_position := by simp [h.realizations]

/-- An invariant of the tables: it holds initially, and every write keeps it. -/
theorem Reachable.ledger_invariant {J : Ledger → Prop} (hinit : ∀ l : Ledger, l.Initial → J l)
    (hwrite : ∀ seen (l l' : Ledger), WellFormed seen l → J l → l.Write seen l' → J l')
    {b : Books} (hb : Reachable b) : WellFormed b.seen b.ledger ∧ J b.ledger := by
  refine Reachable.invariant (J := fun b => WellFormed b.seen b.ledger ∧ J b.ledger) ?_ ?_ ?_ hb
  · exact fun l hl => ⟨.initial hl, hinit l hl⟩
  · intro b o now r l hi htx ⟨hw, hj⟩
    obtain ⟨hw', hj'⟩ := (o.writes hi hw htx).keeps (hwrite b.seen) hw hj
    exact ⟨hw'.after, hj'⟩
  · intro b row ⟨hw, hj⟩
    exact ⟨hw.write (.control (some row)), hwrite b.seen _ _ hw hj (.control (some row))⟩

/-- Every reachable ledger is well formed: each operation is a sequence of
writes, and each write keeps it so. -/
theorem Reachable.wellFormed {b : Books} (hb : Reachable b) : WellFormed b.seen b.ledger :=
  (Reachable.ledger_invariant (J := fun _ => True) (fun _ _ => trivial)
    (fun _ _ _ _ _ _ => trivial) hb).1

end BasisHawk.Paired
