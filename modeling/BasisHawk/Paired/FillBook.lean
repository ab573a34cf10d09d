/-
  BasisHawk.Paired.FillBook
  ─────────────────────────
  The stored fills of two-leg orders, and the figures of the legs they belong
  to.

  `persist_remote_fills` stores trades and rewrites the figures of their leg in
  one transaction, and no other transaction touches the fills of a leg that is
  at an exchange.  A leg of a paper intent is filled by the paper executions.

  Main results:
    • `TradeOp.stores` — what every transaction stores of fills,
    • `Reachable.fillBook` — the figures and the status of a leg are those of
      its stored fills,
    • `fills_kept` — stored fills stay, and the figures only grow.
-/
import BasisHawk.Paired.Moves

namespace BasisHawk.Paired

open Domain Lib Accounts
open Relation (ReflTransGen)

/-! ## §1. Figures. -/

namespace OrderLegRow

/-- What the status of a leg says of the quantity it has filled.  A canceled
order may have filled in full before it was canceled. -/
def StatusAgrees (o : OrderLegRow) : Prop :=
  match o.status with
  | .created | .submitted | .acknowledged | .unknown => o.filledQuantity = 0
  | .partiallyFilled => 0 < o.filledQuantity ∧ o.filledQuantity < o.quantity
  | .filled => o.filledQuantity = o.quantity
  | .canceled | .failed => o.filledQuantity ≤ o.quantity

/-- The figures of a leg are those of its fills, each trade counted once. -/
structure Tallies (o : OrderLegRow) (fills : List FillRow) : Prop where
  filled : o.filledQuantity = Ledger.fillsTotal fills
  average : o.averagePrice = Ledger.fillsAverage fills
  trades : (fills.map (·.exchangeTradeId)).Nodup
  status : o.StatusAgrees

/-- A leg whose status agrees with its quantity is not filled beyond it. -/
theorem StatusAgrees.le {o : OrderLegRow} (h : o.StatusAgrees) : o.filledQuantity ≤ o.quantity := by
  have hpos := o.quantity_pos.1
  unfold StatusAgrees at h
  split at h
  · rw [h]
    exact hpos.le
  · rw [h]
    exact hpos.le
  · rw [h]
    exact hpos.le
  · rw [h]
    exact hpos.le
  · exact h.2.le
  · exact h.le
  · exact h
  · exact h

/-- A leg that just was created has filled nothing. -/
theorem StatusAgrees.of_unfilled {o : OrderLegRow} (hs : o.status = .created)
    (hf : o.filledQuantity = 0) : o.StatusAgrees := by
  unfold StatusAgrees
  rw [hs]
  exact hf

end OrderLegRow

/-- Every fill belongs to a leg, and the legs at an exchange agree with their
fills. -/
structure FillBook (l : Ledger) : Prop where
  owned : ∀ f ∈ l.fills, ∃ o ∈ l.legs, o.id = f.orderLegId
  tallied : ∀ o ∈ l.legs, ¬OnPaper l o.tradeIntentId → o.Tallies (l.fillsOfLeg o.id)

variable {seen : List PairedPositionRow} {l l' : Ledger} {o : TradeOp} {now : Int}

/-! ## §2. What a transaction stores. -/

/-- A transaction appends fills, of paper legs or of the leg it was called
for. -/
def Stores (o : TradeOp) (l l' : Ledger) : Prop :=
  ∃ rows, l'.fills = l.fills ++ rows ∧ ∀ f ∈ rows, ∃ leg ∈ l.legs, leg.id = f.orderLegId
    ∧ (OnPaper l leg.tradeIntentId ∨ ∃ fills, o = .persistFills leg.id fills)

theorem Stores.of_eq (h : l'.fills = l.fills) : Stores o l l' :=
  ⟨[], by rw [h, List.append_nil], fun f hf => (by cases hf)⟩

/-- Fills of legs of a paper intent. -/
theorem Stores.of_paper {intent : TradeIntentRow} (hi : intent ∈ l.intents)
    (henv : intent.environment = .paper) {rows : List FillRow} (h : l'.fills = l.fills ++ rows)
    (hrows : ∀ f ∈ rows, ∃ leg ∈ l.legs, leg.id = f.orderLegId ∧ leg.tradeIntentId = intent.id) :
    Stores o l l' := by
  refine ⟨rows, h, fun f hf => ?_⟩
  obtain ⟨leg, hleg, hid, hintent⟩ := hrows f hf
  exact ⟨leg, hleg, hid, .inl ⟨intent, hi, hintent.symm, henv⟩⟩

/-- A paper fill belongs to its leg. -/
theorem mem_paperFills {intent : TradeIntentRow} {leg : OrderLegRow} {quantity : ℚ} {id : Nat}
    {f : FillRow} (h : f ∈ paperFills intent leg quantity id now) : f.orderLegId = leg.id := by
  unfold paperFills at h
  split at h
  · rw [List.mem_singleton.mp h]
  · cases h

/-- The fills of both primary legs of a paper intent. -/
theorem paperPair_rows {intent : TradeIntentRow} {spot perp : OrderLegRow} {s p : ℚ} {n m : Nat}
    {t : Int} (h : l.paperLegs intent.id = some (spot, perp)) :
    ∀ f ∈ paperFills intent spot s n t ++ paperFills intent perp p m t,
      ∃ leg ∈ l.legs, leg.id = f.orderLegId ∧ leg.tradeIntentId = intent.id := by
  obtain ⟨⟨hspot, hs_intent, -⟩, hperp, hp_intent, -⟩ := Ledger.paperLegs_ok h
  intro f hf
  rcases List.mem_append.mp hf with hf | hf
  · exact ⟨spot, hspot, (mem_paperFills hf).symm, hs_intent⟩
  · exact ⟨perp, hperp, (mem_paperFills hf).symm, hp_intent⟩

/-- The fill of the protection leg of a paper intent. -/
theorem paperCompensation_rows {intent : TradeIntentRow} {c : OrderLegRow} {q : ℚ} {n : Nat}
    {t : Int} (h : (l.legsOfIntent intent.id).filter (·.leg.isCompensation) = [c]) :
    ∀ f ∈ paperFills intent c q n t,
      ∃ leg ∈ l.legs, leg.id = f.orderLegId ∧ leg.tradeIntentId = intent.id := by
  obtain ⟨hc, hintent, -⟩ := Ledger.mem_of_filter_eq h
  intro f hf
  exact ⟨c, hc, (mem_paperFills hf).symm, hintent⟩

/-- A protection stores no fill. -/
theorem protectPaper_fills {l₁ : Ledger} {intent i' : TradeIntentRow} {excess : OrderLegRow}
    {quantity : ℚ} {hq : 0 < quantity}
    (h : l₁.protectPaper intent excess quantity now hq = .ok (i', l')) : l'.fills = l₁.fills := by
  obtain ⟨leg, -, -, rfl⟩ := Ledger.protectPaper_ok h
  rfl

/-- Nor does the booking of a close. -/
theorem applyPaperCloseOutcome_fills {l₁ : Ledger} {intent : TradeIntentRow}
    {position : PairedPositionRow} {spot perp : OrderLegRow} {fee : ℚ} {settled : Ledger.Settled}
    (h : l₁.applyPaperCloseOutcome intent position spot perp fee now = .ok (settled, l')) :
    l'.fills = l₁.fills := by
  obtain ⟨outcome, row, -, -, rfl⟩ := Ledger.applyPaperCloseOutcome_ok h
  rfl

/-- Nor does the end of an opening. -/
theorem PaperOpened.fills {l₁ : Ledger} {intent : TradeIntentRow} {spot perp : OrderLegRow}
    (h : Ledger.PaperOpened intent spot perp now l₁ l') : l'.fills = l₁.fills := by
  cases h with
  | hedged hq => rfl
  | failed code => rfl

/-- The fills of a paper opening are stored on its two legs. -/
theorem recordPaperOpenFills_stores {intentId : Nat} {spotFill perpFill : ℚ}
    {r : Option Ledger.Settled}
    (h : Ledger.recordPaperOpenFills intentId spotFill perpFill now l = .ok (r, l')) :
    Stores o l l' := by
  rcases Ledger.recordPaperOpenFills_ok h with
    rfl | ⟨intent, spot, perp, hfilled, hintent, ⟨henv, -, -⟩, hend⟩
  · exact .of_eq rfl
  have hfills : l'.fills = (hfilled.ledger now).fills := by
    rcases hend with ⟨excess, quantity, hq, i', -, hprotect⟩ | hend
    · exact protectPaper_fills hprotect
    · exact PaperOpened.fills hend
  exact .of_paper (Table.find?_some hintent).1 henv (hfills.trans (List.append_assoc ..))
    (paperPair_rows hfilled.legs)

/-- The fill of a paper compensation is stored on its leg. -/
theorem executePaperCompensation_stores {intentId : Nat} {succeeds : Bool}
    {r : Option Ledger.Settled}
    (h : Ledger.executePaperCompensation intentId succeeds now l = .ok (r, l')) :
    Stores o l l' := by
  rcases Ledger.executePaperCompensation_ok h with
    rfl | ⟨intent, spot, perp, c, hintent, ⟨henv, -, -⟩, -, hc, rfl | hend⟩
  · exact .of_eq rfl
  · exact .of_eq rfl
  · exact .of_paper (Table.find?_some hintent).1 henv (PaperOpened.fills hend)
      (paperCompensation_rows hc)

/-- The fills of a paper close are stored on its two legs. -/
theorem recordPaperCloseFills_stores {intentId : Nat} {spotFill perpFill : ℚ}
    {r : Option Ledger.Settled}
    (h : Ledger.recordPaperCloseFills intentId spotFill perpFill now l = .ok (r, l')) :
    Stores o l l' := by
  rcases Ledger.recordPaperCloseFills_ok h with
    rfl | ⟨intent, position, spot, perp, hfilled, hintent, hclosing, hend⟩
  · exact .of_eq rfl
  have hfills : l'.fills = (hfilled.ledger now).fills := by
    rcases hend with ⟨excess, quantity, hq, i', -, hprotect⟩ | ⟨_, _, _, settled, happly⟩
    · exact protectPaper_fills hprotect
    · exact applyPaperCloseOutcome_fills happly
  exact .of_paper (Table.find?_some hintent).1 hclosing.1 (hfills.trans (List.append_assoc ..))
    (paperPair_rows hfilled.legs)

/-- And that of its compensation. -/
theorem executePaperCloseCompensation_stores {intentId : Nat} {succeeds : Bool}
    {r : Option Ledger.Settled}
    (h : Ledger.executePaperCloseCompensation intentId succeeds now l = .ok (r, l')) :
    Stores o l l' := by
  rcases Ledger.executePaperCloseCompensation_ok h with
    rfl | ⟨intent, position, c, hintent, hclosing, hc, rfl | ⟨_, _, _, settled, happly⟩⟩
  · exact .of_eq rfl
  · exact .of_eq rfl
  · exact .of_paper (Table.find?_some hintent).1 hclosing.1 (applyPaperCloseOutcome_fills happly)
      (paperCompensation_rows hc)

theorem failPlanned_fills {intentId : Nat} {code : FailureCode} {r : Bool}
    (h : Ledger.failPlanned intentId code l = .ok (r, l')) : l'.fills = l.fills := by
  rcases Ledger.failPlanned_ok h with rfl | ⟨i, -, -, ⟨p, -, -, rfl⟩ | ⟨rfl, -⟩⟩ <;> rfl

theorem protect_fills {intent i' : TradeIntentRow} {excess : OrderLegRow} {base : ℚ}
    (h : l.protect intent excess base now = .ok (i', l')) : l'.fills = l.fills := by
  obtain ⟨leg, -, -, rfl⟩ := Ledger.protect_ok h
  rfl

/-- Settling an opening reads fills and stores none. -/
theorem settleLiveOpen_fills {intentId : Nat} {r : Option Ledger.Settled}
    (h : Ledger.settleLiveOpen intentId now l = .ok (r, l')) : l'.fills = l.fills := by
  rcases Ledger.settleLiveOpen_ok h with ⟨rfl, -⟩ | ⟨intent, y, verdict, settled, -, -, -, -, -,
    happly, -⟩
  · rfl
  cases verdict with
  | protect excess base =>
      obtain ⟨⟨i', l₁⟩, hprotect, happly⟩ := bind_eq_ok.mp happly
      cases happly
      exact protect_fills hprotect
  | pending | noFills | review | neutralized | hedge =>
      cases happly
      rfl

/-- So does settling a close. -/
theorem settleLiveClose_fills {intentId : Nat} {r : Option Ledger.Settled}
    (h : Ledger.settleLiveClose intentId now l = .ok (r, l')) : l'.fills = l.fills := by
  rcases Ledger.settleLiveClose_ok h with ⟨rfl, -⟩ | ⟨intent, position, y, verdict, settled, -, -, -,
    -, -, -, happly, -⟩
  · rfl
  cases verdict with
  | protect excess base =>
      obtain ⟨⟨i', l₁⟩, hprotect, happly⟩ := bind_eq_ok.mp happly
      cases happly
      exact protect_fills hprotect
  | settle outcome =>
      obtain ⟨l₁, hrow, happly⟩ := bind_eq_ok.mp happly
      obtain ⟨-, -, -, -, row, -, rfl⟩ := Ledger.insertRealization_ok hrow
      cases happly
      rfl
  | pending | noFills | review =>
      cases happly
      rfl

/-- What every committed transaction stores of fills. -/
theorem TradeOp.stores (o : TradeOp) {r : o.Result} (h : o.tx now l = .ok (r, l')) :
    Stores o l l' := by
  cases o with
  | createOpen plan =>
      rcases Ledger.createTradeIntent_ok h with ⟨rfl, -⟩ | ⟨-, -, rfl⟩
      · exact .of_eq rfl
      · exact .of_eq rfl
  | createClose plan =>
      rcases Ledger.createPaperCloseIntent_ok h with ⟨rfl, -⟩ | ⟨position, -, -, -, -, rfl⟩
      · exact .of_eq rfl
      · exact .of_eq rfl
  | prepareSubmission intentId adjusted =>
      rcases Ledger.prepareLiveSubmission_ok h with ⟨rfl, -⟩ | ⟨i, spot, perp, price, hq, -, -, -, -,
        -, -, -, rfl, -⟩
      · exact .of_eq rfl
      · exact .of_eq rfl
  | prepareCompensation intentId limit quantity tolerance =>
      rcases Ledger.prepareLiveCompensation_ok h with ⟨rfl, -⟩ | ⟨i, c, hq, ht, -, -, -, -, -, rfl, -⟩
      · exact .of_eq rfl
      · exact .of_eq rfl
  | expirePlanned intentId => exact .of_eq (failPlanned_fills h)
  | failMarketUnexecutable intentId => exact .of_eq (failPlanned_fills h)
  | recordPreflightFailure intentId exchange code =>
      obtain ⟨reason, rfl | ⟨i, -, -, rfl⟩⟩ := Ledger.recordLivePreflightFailure_ok h
      · exact .of_eq rfl
      · exact .of_eq rfl
  | recordSubmission legId s =>
      obtain ⟨leg, -, -, rfl⟩ := Ledger.recordOrderSubmission_ok h
      exact .of_eq rfl
  | markSubmissionUnknown legId =>
      obtain ⟨leg, reason, -, rfl⟩ := Ledger.markOrderSubmissionUnknown_ok h
      exact .of_eq rfl
  | markSubmissionRejected legId code =>
      obtain ⟨leg, reason, -, rfl⟩ := Ledger.markOrderSubmissionRejected_ok h
      exact .of_eq rfl
  | markUnknownNotFound legId =>
      obtain ⟨leg, -, ⟨rfl, -⟩ | ⟨-, -, rfl⟩⟩ := Ledger.markUnknownOrderNotFound_ok h
      · exact .of_eq rfl
      · exact .of_eq rfl
  -- The only transaction that takes fills from an exchange: all of them are of its leg.
  | persistFills legId fills =>
      obtain ⟨leg, link, rows, hleg, -, hrows, -, rfl⟩ := Ledger.persistRemoteFills_ok h
      obtain ⟨hmem, hid⟩ := Table.find?_some hleg
      exact ⟨rows, rfl, fun f hf => ⟨leg, hmem, (hrows f hf).symm, .inr ⟨fills, by rw [← hid]; rfl⟩⟩⟩
  | reconcileOrder legId order =>
      obtain ⟨leg, -, -, rfl⟩ := Ledger.reconcileRemoteOrder_ok h
      exact .of_eq rfl
  -- Settlements read the fills; the paper executions write those of paper legs.
  | settleOpen intentId => exact .of_eq (settleLiveOpen_fills h)
  | settleClose intentId => exact .of_eq (settleLiveClose_fills h)
  | paperOpenFills intentId spot perp => exact recordPaperOpenFills_stores h
  | paperCompensation intentId succeeds => exact executePaperCompensation_stores h
  | paperCloseFills intentId spot perp => exact recordPaperCloseFills_stores h
  | paperCloseCompensation intentId succeeds => exact executePaperCloseCompensation_stores h

/-! ## §3. One batch of fills. -/

/-- The trades of a batch that are new are told apart from the stored ones and
from each other. -/
theorem newTrades_distinct (seen : List String) (items : List Ledger.ValidFill) :
    (∀ f ∈ Ledger.newTrades seen items, f.val.exchangeTradeId ∉ seen)
      ∧ ((Ledger.newTrades seen items).map (·.val.exchangeTradeId)).Nodup := by
  induction items generalizing seen with
  | nil => exact ⟨fun f hf => (by cases hf), List.nodup_nil⟩
  | cons item rest ih =>
      unfold Ledger.newTrades
      split
      · exact ih seen
      · next hnew =>
          obtain ⟨hfresh, hnodup⟩ := ih (item.val.exchangeTradeId :: seen)
          refine ⟨fun f hf => ?_, List.nodup_cons.mpr ⟨fun hmem => ?_, hnodup⟩⟩
          · rcases List.mem_cons.mp hf with rfl | hf
            · exact hnew
            · exact fun hseen => hfresh f hf (List.mem_cons_of_mem _ hseen)
          · obtain ⟨f, hf, heq⟩ := List.mem_map.mp hmem
            exact hfresh f hf (heq ▸ List.mem_cons_self)

/-- The rows of a batch carry its trade ids. -/
theorem fillRows_ids (items : List Ledger.ValidFill) (n legId : Nat) :
    (items.mapIdx fun i item => Ledger.fillRow (n + i) legId item).map (·.exchangeTradeId)
      = items.map (·.val.exchangeTradeId) := by
  apply List.ext_getElem?
  intro i
  simp only [List.getElem?_map, List.getElem?_mapIdx]
  cases items[i]? <;> rfl

/-- What a committed batch stores. -/
theorem persistRemoteFills_book {legId : Nat} {fills : List RemoteFill} {n : Nat}
    (h : Ledger.persistRemoteFills legId fills l = .ok (n, l')) :
    ∃ leg link rows, Table.find? l.legs legId = some leg ∧ (∀ f ∈ rows, f.orderLegId = leg.id)
      ∧ Ledger.fillsTotal (l.fillsOfLeg leg.id ++ rows) ≤ leg.quantity
      ∧ (((l.fillsOfLeg leg.id).map (·.exchangeTradeId)).Nodup →
        ((l.fillsOfLeg leg.id ++ rows).map (·.exchangeTradeId)).Nodup)
      ∧ l' = { l with
          fills := l.fills ++ rows
          legs := Table.put l.legs (Ledger.legByFills leg link (l.fillsOfLeg leg.id ++ rows))
          nextId := l.nextId + rows.length } := by
  unfold Ledger.persistRemoteFills at h
  obtain ⟨leg, hleg, h⟩ := bind_eq_ok.mp h
  obtain ⟨valid, -, h⟩ := bind_eq_ok.mp h
  obtain ⟨link, -, h⟩ := bind_eq_ok.mp h
  simp only [raiseIf_bind_eq_ok, not_lt] at h
  obtain ⟨-, hle, h⟩ := h
  cases h
  refine ⟨leg, link, _, Ledger.orderLeg_ok hleg, fun f hf => ?_, hle, fun hknown => ?_, rfl⟩
  · obtain ⟨i, hi, rfl⟩ := List.mem_mapIdx.mp hf
    rfl
  · obtain ⟨hfresh, hnodup⟩ :=
      newTrades_distinct ((l.fillsOfLeg leg.id).map (·.exchangeTradeId)) valid
    rw [List.map_append, fillRows_ids]
    refine List.nodup_append.mpr ⟨hknown, hnodup, fun a ha b hb hab => ?_⟩
    obtain ⟨f, hf, rfl⟩ := List.mem_map.mp hb
    exact hfresh f hf (hab ▸ ha)

/-- The status a leg gets with its fills agrees with them. -/
theorem legByFills_agrees {leg : OrderLegRow} {link : Option String} {fills rows : List FillRow}
    (ht : leg.Tallies fills) (hle : Ledger.fillsTotal (fills ++ rows) ≤ leg.quantity) :
    (Ledger.legByFills leg link (fills ++ rows)).StatusAgrees := by
  have hgrow : leg.filledQuantity ≤ Ledger.fillsTotal (fills ++ rows) := by
    have hrows := Ledger.fillsTotal_nonneg rows
    rw [ht.filled]
    unfold Ledger.fillsTotal at hrows ⊢
    rw [List.map_append, List.sum_append]
    exact le_add_of_nonneg_right hrows
  have hnonneg := Ledger.fillsTotal_nonneg (fills ++ rows)
  have hs := ht.status
  unfold OrderLegRow.StatusAgrees at hs ⊢
  dsimp only [Ledger.legByFills, Ledger.statusByFills]
  generalize Ledger.fillsTotal (fills ++ rows) = total at hle hgrow hnonneg ⊢
  by_cases hfull : leg.quantity ≤ total
  · rw [if_pos hfull]
    exact le_antisymm hle hfull
  rw [if_neg hfull]
  rw [not_le] at hfull
  by_cases hpart : 0 < total ∧ leg.status ≠ .canceled ∧ leg.status ≠ .failed
  · rw [if_pos hpart]
    exact ⟨hpart.1, hfull⟩
  rw [if_neg hpart]
  -- Nothing is filled, or the order is canceled or failed.
  cases hst : leg.status with
  | canceled => exact hle
  | failed => exact hle
  | filled =>
      rw [hst] at hs
      exact absurd (hs.symm.le.trans hgrow) (not_le.mpr hfull)
  | partiallyFilled =>
      rw [hst] at hs hpart
      exact absurd ⟨hs.1.trans_le hgrow, fun h => (by cases h), fun h => (by cases h)⟩ hpart
  | created | submitted | acknowledged | unknown =>
      rw [hst] at hpart
      have hzero : ¬0 < total := fun hpos => hpart ⟨hpos, fun h => (by cases h), fun h => (by cases h)⟩
      exact le_antisymm (not_lt.mp hzero) hnonneg

/-! ## §4. One transaction. -/

/-- Outside of fills a transaction leaves the figures of a leg at an exchange,
and moves its status along. -/
theorem LegMove.tallies {old new : OrderLegRow} (h : LegMove o l old new)
    (ho : ∀ fills, o ≠ .persistFills old.id fills) (hlive : ¬OnPaper l old.tradeIntentId)
    {fills : List FillRow} (ht : old.Tallies fills) : new.Tallies fills := by
  have hle := ht.status.le
  obtain ⟨hfilled, haverage, htrades, hs⟩ := ht
  cases o with
  | prepareSubmission intentId adjusted =>
      obtain ⟨-, -, hcreated, price, hq, rfl⟩ := h
      rw [OrderLegRow.StatusAgrees, hcreated] at hs
      exact ⟨hfilled, haverage, htrades, hs⟩
  | prepareCompensation intentId limit quantity tolerance =>
      obtain ⟨-, -, hcreated, q, t, p, hq, htol, rfl⟩ := h
      rw [OrderLegRow.StatusAgrees, hcreated] at hs
      exact ⟨hfilled, haverage, htrades, hs⟩
  | recordSubmission legId s =>
      obtain ⟨-, hstatus, rfl⟩ := h
      refine ⟨hfilled, haverage, htrades, ?_⟩
      rcases hstatus with hst | hst <;> (rw [OrderLegRow.StatusAgrees, hst] at hs; exact hs)
  | markSubmissionUnknown legId =>
      obtain ⟨-, hstatus, rfl⟩ := h
      rw [OrderLegRow.StatusAgrees, hstatus] at hs
      exact ⟨hfilled, haverage, htrades, hs⟩
  | markSubmissionRejected legId code =>
      obtain ⟨-, -, rfl⟩ := h
      exact ⟨hfilled, haverage, htrades, hle⟩
  | markUnknownNotFound legId =>
      obtain ⟨-, -, -, rfl⟩ := h
      exact ⟨hfilled, haverage, htrades, hle⟩
  | persistFills legId batch =>
      obtain ⟨rfl, -⟩ := h
      exact absurd rfl (ho batch)
  | reconcileOrder legId order =>
      obtain ⟨-, -, rfl⟩ := h
      refine ⟨hfilled, haverage, htrades, ?_⟩
      -- What the exchange says of the order moves its status, never what it has filled.
      unfold OrderLegRow.StatusAgrees at hs ⊢
      dsimp only [Ledger.statusByLookup]
      split_ifs with hcanceled hfailed hopen
      · exact hle
      · exact hle
      · rcases hopen with hst | hst <;> (rw [hst] at hs; exact hs)
      · exact hs
  | paperOpenFills | paperCompensation | paperCloseFills | paperCloseCompensation =>
      exact absurd h.1 hlive
  | createOpen | createClose | expirePlanned | failMarketUnexecutable | recordPreflightFailure
  | settleOpen | settleClose => exact h.elim

/-- A paper intent stays one. -/
theorem Effect.onPaper (he : Effect o l l') {intentId : Nat} (h : OnPaper l intentId) :
    OnPaper l' intentId := by
  obtain ⟨i, hi, hid, henv⟩ := h
  obtain ⟨i', hi', hsame, -⟩ := he.intent_forth hi
  exact ⟨i', hi', hsame.id.trans hid, hsame.environment.trans henv⟩

/-- The fills of a leg after new ones were stored. -/
theorem fillsOfLeg_append {rows : List FillRow} (h : l'.fills = l.fills ++ rows) (legId : Nat) :
    l'.fillsOfLeg legId = l.fillsOfLeg legId ++ rows.filter fun f => f.orderLegId = legId := by
  unfold Ledger.fillsOfLeg
  rw [h, List.filter_append]

/-- A leg that none of the new fills belongs to keeps its fills. -/
theorem fillsOfLeg_kept {rows : List FillRow} (h : l'.fills = l.fills ++ rows) {legId : Nat}
    (hne : ∀ f ∈ rows, f.orderLegId ≠ legId) : l'.fillsOfLeg legId = l.fillsOfLeg legId := by
  rw [fillsOfLeg_append h, List.filter_eq_nil_iff.mpr fun f hf => by simpa using hne f hf,
    List.append_nil]

/-- The fills of a leg that did not exist. -/
theorem FillBook.none_of_fresh (hf : FillBook l) (hw : WellFormed seen l) {legId : Nat}
    (hid : l.nextId ≤ legId) : l.fillsOfLeg legId = [] := by
  refine List.filter_eq_nil_iff.mpr fun f hmem => ?_
  obtain ⟨leg, hleg, heq⟩ := hf.owned f hmem
  have hbelow : leg.id < l.nextId := hw.legs_below leg hleg
  simp only [decide_eq_true_eq]
  omega

/-- After a batch the leg it was for has the figures of its fills. -/
theorem FillBook.persist (hf : FillBook l) (hw : WellFormed seen l) {legId : Nat}
    {fills : List RemoteFill} {n : Nat}
    (h : Ledger.persistRemoteFills legId fills l = .ok (n, l')) {old new : OrderLegRow}
    (hold : old ∈ l.legs) (hid : old.id = legId) (hlive : ¬OnPaper l old.tradeIntentId)
    (hnew : new ∈ l'.legs) (hnid : new.id = old.id) : new.Tallies (l'.fillsOfLeg new.id) := by
  obtain ⟨leg, link, rows, hleg, hown, hle, htrades, rfl⟩ := persistRemoteFills_book h
  obtain ⟨hmem, hkey⟩ := Table.find?_some hleg
  have heq : leg = old := hw.legs_unique.eq hmem hold (hkey.trans hid.symm)
  rw [heq] at hown hle htrades hnew ⊢
  have ht := hf.tallied old hold hlive
  have hrows : (rows.filter fun f => f.orderLegId = old.id) = rows :=
    List.filter_eq_self.mpr fun f hf => by simpa using hown f hf
  -- The row of the leg was put in its place.
  have hput : new = Ledger.legByFills old link (l.fillsOfLeg old.id ++ rows) := by
    rcases Table.mem_put.mp hnew with ⟨heq, -⟩ | ⟨-, hne⟩
    · exact heq
    · exact absurd hnid hne
  rw [fillsOfLeg_append rfl, hnid, hrows, hput]
  exact ⟨rfl, rfl, htrades ht.trades, legByFills_agrees ht hle⟩

/-- A transaction keeps the fills and the figures together. -/
theorem FillBook.step (hf : FillBook l) (hw : WellFormed seen l) {r : o.Result}
    (h : o.tx now l = .ok (r, l')) : FillBook l' := by
  have he := TradeOp.effect o hw h
  obtain ⟨rows, hfills, hrows⟩ := TradeOp.stores o h
  refine ⟨fun f hmem => ?_, fun new hnew hlive => ?_⟩
  · rw [hfills] at hmem
    have hleg : ∃ leg ∈ l.legs, leg.id = f.orderLegId := by
      rcases List.mem_append.mp hmem with hmem | hmem
      · exact hf.owned f hmem
      · obtain ⟨leg, hleg, hid, -⟩ := hrows f hmem
        exact ⟨leg, hleg, hid⟩
    obtain ⟨leg, hleg, hid⟩ := hleg
    obtain ⟨leg', hleg', hsame, -⟩ := he.leg_forth hleg
    exact ⟨leg', hleg', hsame.id.trans hid⟩
  -- A leg of the new ledger was there before, or has been created by this transaction.
  rcases he.leg_back hnew with ⟨old, hold, hsame, hmove⟩ | ⟨hstatus, -, hzero, hid, -⟩
  · have hlive' : ¬OnPaper l old.tradeIntentId := by
      intro hp
      apply hlive
      rw [hsame.intent]
      exact he.onPaper hp
    have ht := hf.tallied old hold hlive'
    by_cases hbatch : ∃ fills, o = .persistFills old.id fills
    · obtain ⟨fills, rfl⟩ := hbatch
      exact hf.persist hw h hold rfl hlive' hnew hsame.id
    · -- The new fills are those of paper legs, or of another leg.
      have hkept : l'.fillsOfLeg new.id = l.fillsOfLeg old.id := by
        rw [hsame.id]
        refine fillsOfLeg_kept hfills fun f hmem heq => ?_
        obtain ⟨leg, hleg, hid, hpaper⟩ := hrows f hmem
        have hlo : leg = old := hw.legs_unique.eq hleg hold (hid.trans heq)
        rw [hlo] at hpaper
        rcases hpaper with hpaper | hpersist
        · exact hlive' hpaper
        · exact hbatch hpersist
      rw [hkept]
      rcases hmove with rfl | hmove
      · exact ht
      · exact hmove.tallies (fun fills ho => hbatch ⟨fills, ho⟩) hlive' ht
  · -- A new leg has an id that no fill can name yet.
    have hnone : l'.fillsOfLeg new.id = [] := by
      rw [fillsOfLeg_kept hfills fun f hmem heq => ?_]
      · exact hf.none_of_fresh hw hid
      · obtain ⟨leg, hleg, hlid, -⟩ := hrows f hmem
        have hbelow : leg.id < l.nextId := hw.legs_below leg hleg
        omega
    rw [hnone]
    have hunpriced : new.averagePrice = none := by
      rw [new.averagePrice_none_iff, OrderLegRow.filledBase, hzero, zero_mul]
    refine ⟨hzero, ?_, List.nodup_nil, .of_unfilled hstatus hzero⟩
    rw [hunpriced, Ledger.fillsAverage, if_neg]
    exact lt_irrefl (0 : ℚ)

/-! ## §5. Any sequence of transactions. -/

/-- In every reachable book the legs agree with their fills. -/
theorem Reachable.fillBook {b : Books} (hb : Reachable b) : FillBook b.ledger := by
  induction hb with
  | init h =>
      refine ⟨fun f hf => ?_, fun o ho => ?_⟩
      · rw [h.fills] at hf
        cases hf
      · rw [h.legs] at ho
        cases ho
  | step hb hs ih =>
      cases hs with
      | tx hi h => exact ih.step hb.wellFormed h
      | control row => exact ⟨ih.owned, ih.tallied⟩

/-- What a later state of the books has kept. -/
structure Kept (l l' : Ledger) : Prop where
  fills : ∃ rows, l'.fills = l.fills ++ rows
  legs : ∀ o ∈ l.legs, ∃ o' ∈ l'.legs, o'.SameOrder o
  intents : ∀ i ∈ l.intents, ∃ i' ∈ l'.intents, i'.SameIntent i

theorem Kept.trans {l'' : Ledger} (h : Kept l l') (h' : Kept l' l'') : Kept l l'' := by
  refine ⟨?_, fun o ho => ?_, fun i hi => ?_⟩
  · obtain ⟨rows, hrows⟩ := h.fills
    obtain ⟨rows', hrows'⟩ := h'.fills
    exact ⟨rows ++ rows', by rw [hrows', hrows, List.append_assoc]⟩
  · obtain ⟨o', ho', hsame⟩ := h.legs o ho
    obtain ⟨o'', ho'', hsame'⟩ := h'.legs o' ho'
    exact ⟨o'', ho'', hsame'.trans hsame⟩
  · obtain ⟨i', hi', hsame⟩ := h.intents i hi
    obtain ⟨i'', hi'', hsame'⟩ := h'.intents i' hi'
    exact ⟨i'', hi'', hsame'.trans hsame⟩

/-- A step of the book drops no fill and changes none. -/
theorem Kept.step {b b' : Books} (hb : Reachable b) (hs : b.Step b') : Kept b.ledger b'.ledger := by
  cases hs with
  | tx hi h =>
      have he := TradeOp.effect _ hb.wellFormed h
      refine ⟨?_, fun o ho => ?_, fun i hi => ?_⟩
      · obtain ⟨rows, hrows, -⟩ := TradeOp.stores _ h
        exact ⟨rows, hrows⟩
      · obtain ⟨o', ho', hsame, -⟩ := he.leg_forth ho
        exact ⟨o', ho', hsame⟩
      · obtain ⟨i', hi', hsame, -⟩ := he.intent_forth hi
        exact ⟨i', hi', hsame⟩
  | control row =>
      exact ⟨⟨[], (List.append_nil _).symm⟩, fun o ho => ⟨o, ho, .refl o⟩,
        fun i hi => ⟨i, hi, .refl i⟩⟩

/-- What any sequence of transactions keeps. -/
theorem Kept.run {b b' : Books} (hb : Reachable b) (hr : ReflTransGen Books.Step b b') :
    Reachable b' ∧ Kept b.ledger b'.ledger := by
  induction hr with
  | refl =>
      exact ⟨hb, ⟨[], (List.append_nil _).symm⟩, fun o ho => ⟨o, ho, .refl o⟩,
        fun i hi => ⟨i, hi, .refl i⟩⟩
  | tail _ hs ih => exact ⟨.step ih.1 hs, ih.2.trans (.step ih.1 hs)⟩

/-- A leg at an exchange stays one. -/
theorem Kept.live (hk : Kept l l') (hw : WellFormed seen l) (hu : Table.Unique l'.intents)
    {o : OrderLegRow} (ho : o ∈ l.legs) (hlive : ¬OnPaper l o.tradeIntentId) :
    ¬OnPaper l' o.tradeIntentId := by
  obtain ⟨i, hi, hfits⟩ := hw.leg_fits o ho
  obtain ⟨i', hi', hsame⟩ := hk.intents i hi
  rintro ⟨j, hj, hid, henv⟩
  have hji : j = i' := hu.eq hj hi' (hid.trans (hfits.intent.trans hsame.id.symm))
  rw [hji, hsame.environment] at henv
  exact hlive ⟨i, hi, hfits.intent.symm, henv⟩

/-- Over any sequence of transactions stored fills are never changed, moved or
removed, no leg disappears or becomes another order, and a leg at an exchange
never has less filled than before. -/
theorem fills_kept {b b' : Books} (hb : Reachable b) (hr : ReflTransGen Books.Step b b') :
    (∃ rows, b'.ledger.fills = b.ledger.fills ++ rows)
      ∧ ∀ o ∈ b.ledger.legs, ∃ o' ∈ b'.ledger.legs, o'.SameOrder o
        ∧ (¬OnPaper b.ledger o.tradeIntentId → o.filledQuantity ≤ o'.filledQuantity) := by
  obtain ⟨hb', hk⟩ := Kept.run hb hr
  refine ⟨hk.fills, fun o ho => ?_⟩
  obtain ⟨o', ho', hsame⟩ := hk.legs o ho
  refine ⟨o', ho', hsame, fun hlive => ?_⟩
  have hlive' := hk.live hb.wellFormed hb'.wellFormed.intents_unique ho hlive
  rw [← hsame.intent] at hlive'
  obtain ⟨rows, hrows⟩ := hk.fills
  have hpos := Ledger.fillsTotal_nonneg (rows.filter fun f => f.orderLegId = o.id)
  rw [(hb.fillBook.tallied o ho hlive).filled, (hb'.fillBook.tallied o' ho' hlive').filled,
    hsame.id, fillsOfLeg_append hrows]
  unfold Ledger.fillsTotal at hpos ⊢
  rw [List.map_append, List.sum_append]
  exact le_add_of_nonneg_right hpos

/-- A computed sequence of operations is a run. -/
theorem Books.play_run {ops : List (TradeOp × Int)} {b b' : Books} (h : play ops b = some b') :
    ReflTransGen Books.Step b b' := by
  induction ops generalizing b with
  | nil =>
      cases h
      exact .refl
  | cons op rest ih =>
      obtain ⟨o, now⟩ := op
      unfold play at h
      split at h
      · next hi =>
          split at h
          · next r l htx => exact .head (.tx hi htx) (ih h)
          · cases h
      · cases h

/-- A state of the books and a later one, reached by lists of transactions. -/
theorem Books.exists_run (P : Books → Books → Prop) [∀ b b', Decidable (P b b')]
    (ops later : List (TradeOp × Int))
    (h : (play ops empty).any fun b => (play later b).any fun b' => P b b') :
    ∃ b b', Reachable b ∧ ReflTransGen Books.Step b b' ∧ P b b' := by
  obtain ⟨b, hb, h⟩ := (Option.any_eq_true _ _).mp h
  obtain ⟨b', hb', hp⟩ := (Option.any_eq_true _ _).mp h
  exact ⟨b, b', play_reachable (.init ⟨rfl, rfl, rfl, rfl, rfl⟩) hb, play_run hb',
    of_decide_eq_true hp⟩

/-- A second trade comes in after the first one. -/
theorem fills_kept_later :
    ∃ b b', Reachable b ∧ ReflTransGen Books.Step b b'
      ∧ (b.ledger.fills.length = 1 ∧ b'.ledger.fills.length = 2)
      ∧ (∃ rows, b'.ledger.fills = b.ledger.fills ++ rows)
      ∧ ∀ o ∈ b.ledger.legs, ∃ o' ∈ b'.ledger.legs, o'.SameOrder o
        ∧ (¬OnPaper b.ledger o.tradeIntentId → o.filledQuantity ≤ o'.filledQuantity) := by
  obtain ⟨b, b', hb, hr, hp⟩ := Books.exists_run
    (fun b b' => b.ledger.fills.length = 1 ∧ b'.ledger.fills.length = 2)
    [(.createOpen Sample.openPlan, 0), (.prepareSubmission 0 none, 0),
      (.persistFills 1 [Sample.fill .spot .buy "a" 4 100 0], 0)]
    [(.persistFills 2 [Sample.fill .perp .sell "b" 2 103 0], 0)] (by decide +kernel)
  exact ⟨b, b', hb, hr, hp, fills_kept hb hr⟩

end BasisHawk.Paired
