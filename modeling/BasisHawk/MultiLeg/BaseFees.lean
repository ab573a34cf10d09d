/-
  BasisHawk.MultiLeg.BaseFees
  ───────────────────────────
  Selling back what a spot buy has acquired.

  `_progress_compensation` sells what the primary orders of a leg have filled
  and its compensation orders have not, counted gross.  A fee that the exchange
  takes in the base asset is in the fill table only, and the available balance
  is compared with the order when it is submitted.

  Main results:
    • `compensation_covered` — the next compensation order of a spot buy is
      covered by what the leg has received exactly when the base fees fit into
      what rounding to the quantity increment leaves over,
    • `compensation_uncovered` — a compensation that the balance cannot cover.
-/
import BasisHawk.MultiLeg.GuardedPass

namespace BasisHawk.MultiLeg

open Domain Lib Accounts Database

variable {num : Numeric} {workerId : String}

/-! ## §1. What a leg has received. -/

/-- The fees in the base asset on the fills of a leg's primary orders. -/
def baseFees (db : Database) (runId : Nat) (leg : ExecutionTaskLegRow) : ℚ :=
  (((db.fillsOfLeg runId leg.id).filter fun v =>
    v.1.purpose = .primary ∧ sameUpper v.2.feeAsset leg.baseAsset).map (·.2.feeAmount)).sum

/-- What the primary orders of a leg have filled and its compensation orders
have not undone. -/
def openBase (db : Database) (runId : Nat) (leg : ExecutionTaskLegRow) : ℚ :=
  filledBaseOf (db.ordersOfRun runId) leg.id .primary
    - filledBaseOf (db.ordersOfRun runId) leg.id .compensation

/-- The base a spot buy has left: what its fills acquired, net of the fees in
the base asset, less what its compensation orders have sold. -/
def netBase (db : Database) (runId : Nat) (leg : ExecutionTaskLegRow) : ℚ :=
  openBase db runId leg - baseFees db runId leg

/-- What rounding to a whole number of increments leaves over. -/
def leftover (increment quantity : ℚ) : ℚ := quantity - truncTo increment quantity

/-- The order is at most what the leg has left; with just that available, the
check before its submission passes. -/
structure Covered (db : Database) (leg : ExecutionTaskLegRow) (a : OrderAttempt) : Prop where
  bound : a.quantity * a.baseMultiplier ≤ netBase db a.runId leg
  accepted : ∀ (client : Client) (order : ExecutionOrderRow) (answer : (o : Op) → Rep o),
    order.quantity = a.quantity → order.baseMultiplier = a.baseMultiplier →
    answer (.out (.spotAssetAvailable client leg.baseAsset)) = .ok (netBase db a.runId leg) →
      (checkInventory client leg order).eval answer = .ok ()

/-- A spot sell passes the check with enough available. -/
theorem checkInventory_eval {client : Client} {leg : ExecutionTaskLegRow} {order : ExecutionOrderRow}
    {answer : (o : Op) → Rep o} {available : ℚ}
    (hanswer : answer (.out (.spotAssetAvailable client leg.baseAsset)) = .ok available)
    (h : order.quantity * order.baseMultiplier ≤ available) :
    (checkInventory client leg order).eval answer = .ok () := by
  unfold checkInventory
  split
  · show (Prog.eval answer (Prog.bind (ask (.spotAssetAvailable client leg.baseAsset)) _)) = _
    rw [show Prog.bind (ask (.spotAssetAvailable client leg.baseAsset)) _
      = (ask (.spotAssetAvailable client leg.baseAsset) >>= fun available =>
        pyEval (raiseIf (available < order.quantity * order.baseMultiplier)
          (.value "spot inventory is insufficient for sell order"))) from rfl, Prog.eval_bind]
    have hasked : (ask (.spotAssetAvailable client leg.baseAsset)).eval answer = .ok available := by
      show (Prog.eval answer (Prog.done _)) = _
      rw [hanswer]
      rfl
    rw [hasked]
    show raiseIf _ _ = _
    unfold raiseIf
    rw [if_neg (not_lt.mpr h)]
  · rfl

theorem covered_iff {db : Database} {leg : ExecutionTaskLegRow} {a : OrderAttempt} :
    Covered db leg a ↔ a.quantity * a.baseMultiplier ≤ netBase db a.runId leg := by
  constructor
  · exact fun h => h.bound
  · intro h
    refine ⟨h, fun client order answer hq hm hanswer => checkInventory_eval hanswer ?_⟩
    rw [hq, hm]
    exact h

/-! ## §2. The next compensation order. -/

/-- A spot quantity is what is to be undone, rounded to the increment. -/
theorem nativeQuantity_spot {leg : ExecutionTaskLegRow} {pair : InstrumentPair} {base native : ℚ}
    (hspot : leg.marketType = .spot) (h : nativeQuantity leg pair base = .ok native) :
    native * baseMultiplier leg.marketType pair = truncTo pair.spotQuantityIncrement base := by
  obtain ⟨n, hn, h⟩ := bind_eq_ok.mp h
  simp only [raiseIf_bind_eq_ok] at h
  obtain ⟨-, h⟩ := h
  injection h with h
  subst h
  obtain ⟨-, rfl⟩ := floorToIncrement_ok hn
  rw [hspot]
  show truncTo pair.spotQuantityIncrement (base / 1) * 1 = _
  rw [div_one, mul_one]

/-- The rules make of a quantity what the market of the leg says, whichever copy of
the leg is asked. -/
theorem nativeQuantity_congr {leg row : ExecutionTaskLegRow} (h : row.marketType = leg.marketType)
    (pair : InstrumentPair) (base : ℚ) :
    nativeQuantity row pair base = nativeQuantity leg pair base := by
  unfold nativeQuantity
  rw [h]

/-- The next compensation order of a spot buy is sized by trading rules that the
pass has read, out of all that is left of the gross fills.  It is covered exactly
when the base fees of the leg fit into what these rules have rounded off. -/
theorem compensation_covered {s : State} (hs : Reachable num workerId System.anyStep s)
    {a : OrderAttempt} (hcreates : Creates s a) (hpurpose : a.purpose = .compensation)
    {leg : ExecutionTaskLegRow} (hleg : leg ∈ s.world.db.legs) (hid : leg.id = a.taskLegId)
    (hspot : leg.marketType = .spot) :
    ∃ pair : InstrumentPair, pair.tradingRulesComplete
      ∧ nativeQuantity leg pair (openBase s.world.db a.runId leg) = .ok a.quantity
      ∧ a.baseMultiplier = baseMultiplier leg.marketType pair
      ∧ (Covered s.world.db leg a
        ↔ baseFees s.world.db a.runId leg
          ≤ leftover pair.spotQuantityIncrement (openBase s.world.db a.runId leg)) := by
  have hwf := hs.wellFormed
  obtain ⟨w, p⟩ := s
  obtain ⟨k, rfl⟩ := hcreates
  obtain ⟨-, c, legs, l, base, pair, -, hcarries, hl, hrun, hlid, hpair, hnative, hmult, hchoice⟩ :=
    hs.pre
  rw [hpurpose] at hchoice
  obtain ⟨-, -, hnext⟩ := hchoice
  obtain ⟨-, hbase⟩ := nextCompensation_ok hnext
  -- The leg the pass carries is the row, as far as it was planned.
  obtain ⟨⟨row, hrow, hplanned, -, -⟩, -⟩ := hcarries.tracks l hl
  obtain rfl : row = leg := by
    refine hwf.legs_unique.eq hrow hleg ?_
    show row.id = leg.id
    rw [hid, hlid]
    exact planned_id hplanned
  have hmarket : row.marketType = l.marketType := congrArg (·.marketType) hplanned
  have hopen : base = openBase w.db a.runId row := by
    unfold openBase
    rw [hbase, hrun, hcarries.orders, planned_id hplanned]
  have hquantity : nativeQuantity row pair (openBase w.db a.runId row) = .ok a.quantity := by
    rw [nativeQuantity_congr hmarket, ← hopen]
    exact hnative
  have hmultiplier : a.baseMultiplier = baseMultiplier row.marketType pair := by
    rw [hmarket]
    exact hmult
  refine ⟨pair, hpair, hquantity, hmultiplier, covered_iff.trans ?_⟩
  rw [hmultiplier, nativeQuantity_spot hspot hquantity]
  unfold netBase leftover
  constructor <;> intro h <;> linarith

/-! ## §3. Concrete runs. -/

namespace Sample

/-- The anchor is filled, with a hundredth of a unit taken as fee. -/
def taxed (fee : ℚ) : Outside :=
  { known "a" "filled" 4 4 with
    fills := ⟨[⟨"t", "1", some "bh-1", "spot", "BTCUSDT", "buy", 4, 100, fee, "BTC", "taker", 0⟩],
      true, none⟩ }

/-- No quote can be had for the hedge, and the anchor is to be sold. -/
def selling (fee : ℚ) : State :=
  upTo (absent "c") isCreate
    (pass { absent "b" with quoted := false } (pass (taxed fee) acknowledged))

theorem reached_selling (fee : ℚ) : Reached System.anyStep (selling fee) := by
  have h₀ : RunsTo System.anyStep ⟨empty, none⟩ ⟨queued, none⟩ := runsTo_queued fun _ _ => trivial
  have hpass : ∀ v w, RunsTo System.anyStep ⟨w, none⟩ ⟨pass v w, none⟩ :=
    fun v w => runsTo_pass v anyStep_free (System.follows_anyStep _ w)
  have h₁ := ((h₀.trans (hpass (absent "a") _)).trans (hpass (absent "a") _)).trans
    (hpass (taxed fee) _)
  have h₂ := h₁.trans (hpass { absent "b" with quoted := false } _)
  exact System.Reach.run reached_empty
    (h₂.trans (runsTo_upTo _ _ trivial (System.follows_anyStep _ _)))

/-- Four units of the anchor are to be sold. -/
theorem creates_selling {fee : ℚ} (h : ((attempt (selling fee)).any fun a =>
      a.purpose = .compensation ∧ a.taskLegId = 1 ∧ a.runId = 3 ∧ a.quantity = 4
        ∧ a.baseMultiplier = 1) = true) :
    ∃ a, Creates (selling fee) a ∧ a.purpose = .compensation ∧ a.taskLegId = 1 ∧ a.runId = 3
      ∧ a.quantity = 4 ∧ a.baseMultiplier = 1 := by
  cases hattempt : attempt (selling fee) with
  | none =>
      rw [hattempt] at h
      cases h
  | some a =>
      rw [hattempt] at h
      exact ⟨a, creates_of_attempt hattempt, of_decide_eq_true h⟩

end Sample

/-- Four units were bought and a hundredth of one was taken as fee; all four are
to be sold. -/
theorem compensation_uncovered :
    ∃ s a leg, Sample.Reached System.anyStep s ∧ Creates s a ∧ a.purpose = .compensation
      ∧ leg ∈ s.world.db.legs ∧ leg.id = a.taskLegId ∧ leg.marketType = .spot ∧ leg.side = .buy
      ∧ ¬Covered s.world.db leg a := by
  obtain ⟨a, hcreates, hpurpose, hlegid, hrun, hquantity, hmult⟩ :=
    @Sample.creates_selling (1 / 100) (by decide +kernel)
  obtain ⟨leg, hleg, hid, hspot, hbuy, hnet⟩ := (by decide +kernel :
    ∃ leg ∈ (Sample.selling (1 / 100)).world.db.legs, leg.id = 1 ∧ leg.marketType = .spot
      ∧ leg.side = .buy ∧ netBase (Sample.selling (1 / 100)).world.db 3 leg < 4 * 1)
  refine ⟨_, a, leg, Sample.reached_selling _, hcreates, hpurpose, hleg, hid.trans hlegid.symm, hspot,
    hbuy, fun hcovered => ?_⟩
  have hbound := hcovered.bound
  rw [hquantity, hmult, hrun] at hbound
  exact absurd hbound (not_le.mpr hnet)

/-- Without a fee the order is covered. -/
theorem compensation_covered_untaxed :
    ∃ s a leg, Sample.Reached System.anyStep s ∧ Creates s a ∧ a.purpose = .compensation
      ∧ leg ∈ s.world.db.legs ∧ leg.marketType = .spot ∧ Covered s.world.db leg a := by
  obtain ⟨a, hcreates, hpurpose, hlegid, hrun, -, -⟩ :=
    @Sample.creates_selling 0 (by decide +kernel)
  obtain ⟨leg, hleg, hid, hspot, hfees, hopen⟩ := (by decide +kernel :
    ∃ leg ∈ (Sample.selling 0).world.db.legs, leg.id = 1 ∧ leg.marketType = .spot
      ∧ baseFees (Sample.selling 0).world.db 3 leg = 0
      ∧ openBase (Sample.selling 0).world.db 3 leg = 4)
  obtain ⟨pair, hpair, -, -, hiff⟩ := compensation_covered (Sample.reached_selling 0) hcreates hpurpose hleg
    (hid.trans hlegid.symm) hspot
  refine ⟨_, a, leg, Sample.reached_selling 0, hcreates, hpurpose, hleg, hspot, hiff.mpr ?_⟩
  rw [hrun, hfees, hopen]
  have hle : truncTo pair.spotQuantityIncrement 4 ≤ 4 :=
    truncTo_le (InstrumentPair.rules_pos hpair).2.1 (by norm_num)
  show 0 ≤ (4 : ℚ) - _
  linarith

end BasisHawk.MultiLeg
