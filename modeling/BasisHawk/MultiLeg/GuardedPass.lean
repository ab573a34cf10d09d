/-
  BasisHawk.MultiLeg.GuardedPass
  ──────────────────────────────
  The walk through `run_once`: every operation of a pass meets its guard.

  The parts follow the service in the order of its call tree, leaves first.

  Main results:
    • `runOnce_guarded` — the whole pass, from any well-formed tables,
    • `Reachable.pre` — the guards in every reachable state,
    • `Kept.runs`, `Kept.reachable` — induction over runs with the guards at
      hand.
-/
import Mathlib.Algebra.Order.BigOperators.Group.List
import BasisHawk.MultiLeg.Guards

namespace BasisHawk.MultiLeg

open Domain Lib Accounts Database

variable {num : Numeric}

/-! ## §1. The decisions. -/

theorem filledBaseOf_nonneg (orders : List ExecutionOrderRow) (legId : Nat) (purpose : Purpose) :
    0 ≤ filledBaseOf orders legId purpose := by
  unfold filledBaseOf
  refine List.sum_nonneg fun x hx => ?_
  obtain ⟨o, -, rfl⟩ := List.mem_map.mp hx
  exact o.filledBase_nonneg

/-- A target that can be read is the resolved quantity of the leg. -/
theorem target_ok {leg : ExecutionTaskLegRow} {t : ℚ} (h : target leg = .ok t) :
    leg.resolvedBaseQuantity = some t := by
  unfold target found at h
  split at h
  · next a ha =>
      injection h with h
      rw [ha, h]
  · cases h

/-- What `_progress` orders next: a leg short of its target, for no more than
it is short of. -/
def Short (filled : Nat → ℚ) (legs : List ExecutionTaskLegRow) (leg : ExecutionTaskLegRow)
    (deficit : ℚ) : Prop :=
  leg ∈ legs ∧ 0 < deficit ∧ ∃ t, leg.resolvedBaseQuantity = some t ∧ deficit ≤ t - filled leg.id

/-- A leg that is short among some legs is short among more. -/
theorem Short.mono {filled : Nat → ℚ} {legs legs' : List ExecutionTaskLegRow}
    {leg : ExecutionTaskLegRow} {deficit : ℚ} (h : Short filled legs leg deficit)
    (hsub : ∀ l ∈ legs, l ∈ legs') : Short filled legs' leg deficit :=
  ⟨hsub leg h.1, h.2⟩

/-- The hedge that is due is short by its deficit: what is asked for is never
more than what is missing. -/
theorem nextHedge_short {task : ExecutionTaskRow} {filled : Nat → ℚ} {anchorTarget anchorFilled : ℚ}
    (hfilled : ∀ id, 0 ≤ filled id) {leg : ExecutionTaskLegRow} {deficit : ℚ} :
    ∀ {legs : List ExecutionTaskLegRow},
      nextHedge task filled anchorTarget anchorFilled legs = .ok (some (leg, deficit)) →
        Short filled legs leg deficit
  | [], h => by cases h
  | l :: rest, h => by
      obtain ⟨t, ht, h⟩ := bind_eq_ok.mp h
      simp only [raiseIf_bind_eq_ok] at h
      obtain ⟨-, h⟩ := h
      split at h
      · -- Below the hedge trigger nothing is desired, so nothing is short.
        split at h
        · next hpos =>
            have := hfilled l.id
            exact absurd hpos (by linarith)
        · exact (nextHedge_short hfilled h).mono fun _ hl => List.mem_cons_of_mem _ hl
      · split at h
        · next hpos =>
            injection h with h
            injection h with h
            obtain ⟨rfl, rfl⟩ := Prod.mk.inj h
            refine ⟨List.mem_cons_self, hpos, t, target_ok ht, ?_⟩
            exact sub_le_sub_right (min_le_left _ _) _
        · exact (nextHedge_short hfilled h).mono fun _ hl => List.mem_cons_of_mem _ hl

/-- The same for the leg that is filled up at the end. -/
theorem nextShort_short {filled : Nat → ℚ} {leg : ExecutionTaskLegRow} {deficit : ℚ} :
    ∀ {legs : List ExecutionTaskLegRow},
      nextShort filled legs = .ok (some (leg, deficit)) → Short filled legs leg deficit
  | [], h => by cases h
  | l :: rest, h => by
      obtain ⟨t, ht, h⟩ := bind_eq_ok.mp h
      split at h
      · next hpos =>
          injection h with h
          injection h with h
          obtain ⟨rfl, rfl⟩ := Prod.mk.inj h
          exact ⟨List.mem_cons_self, hpos, t, target_ok ht, le_refl _⟩
      · exact (nextShort_short h).mono fun _ hl => List.mem_cons_of_mem _ hl

theorem anchorOf_mem {legs : List ExecutionTaskLegRow} {anchor : ExecutionTaskLegRow}
    (h : anchorOf legs = .ok anchor) : anchor ∈ legs := by
  unfold anchorOf found at h
  split at h
  · next a ha =>
      injection h with h
      exact h ▸ List.mem_of_find?_eq_some ha
  · cases h

/-- Whatever order is due next, its leg is short by the deficit and the task is
running or hedging. -/
theorem nextDeficit_short {task : ExecutionTaskRow} {legs : List ExecutionTaskLegRow}
    {orders : List ExecutionOrderRow} {phase : TaskStatus} {leg : ExecutionTaskLegRow} {deficit : ℚ}
    (h : nextDeficit task legs orders = .ok (some (phase, leg, deficit))) :
    (phase = .running ∨ phase = .hedging)
      ∧ Short (fun id => filledBaseOf orders id .primary) legs leg deficit := by
  have hsub : ∀ l ∈ legs.filter (fun l => l.role = .hedge), l ∈ legs :=
    fun l hl => List.mem_of_mem_filter hl
  obtain ⟨anchor, hanchor, h⟩ := bind_eq_ok.mp h
  obtain ⟨anchorTarget, htarget, h⟩ := bind_eq_ok.mp h
  obtain ⟨hedge, hhedge, h⟩ := bind_eq_ok.mp h
  cases hedge with
  | some p =>
      cases h
      exact ⟨.inr rfl, (nextHedge_short (fun id => filledBaseOf_nonneg _ _ _) hhedge).mono hsub⟩
  | none =>
      dsimp only at h
      split at h
      · next hpos =>
          have hmem := anchorOf_mem hanchor
          cases h
          exact ⟨.inl rfl, hmem, hpos, anchorTarget, target_ok htarget, le_refl _⟩
      · obtain ⟨short, hshort, h⟩ := bind_eq_ok.mp h
        cases short with
        | none => cases h
        | some p =>
            cases h
            exact ⟨.inr rfl, (nextShort_short hshort).mono hsub⟩

/-- What `_progress_compensation` orders next: what a leg has filled and not yet
undone. -/
theorem nextCompensation_ok {task : ExecutionTaskRow} {orders : List ExecutionOrderRow}
    {leg : ExecutionTaskLegRow} {remaining : ℚ} :
    ∀ {legs : List ExecutionTaskLegRow},
      nextCompensation task orders legs = .ok (some (leg, remaining)) →
        leg ∈ legs ∧ remaining
          = filledBaseOf orders leg.id .primary - filledBaseOf orders leg.id .compensation
  | [], h => by cases h
  | l :: rest, h => by
      simp only [nextCompensation, raiseIf_bind_eq_ok] at h
      obtain ⟨-, h⟩ := h
      split at h
      · obtain ⟨hmem, hrem⟩ := nextCompensation_ok h
        exact ⟨List.mem_cons_of_mem _ hmem, hrem⟩
      · simp only [raiseIf_bind_eq_ok] at h
        injection h.2 with h
        injection h with h
        obtain ⟨rfl, rfl⟩ := Prod.mk.inj h
        exact ⟨List.mem_cons_self, rfl⟩

/-- With nothing left to order, every leg has undone what it had filled. -/
theorem nextCompensation_none {task : ExecutionTaskRow} {orders : List ExecutionOrderRow} :
    ∀ {legs : List ExecutionTaskLegRow}, nextCompensation task orders legs = .ok none →
      ∀ l ∈ legs, filledBaseOf orders l.id .primary = filledBaseOf orders l.id .compensation
  | [], _ => fun _ h => by cases h
  | leg :: rest, h => by
      simp only [nextCompensation, raiseIf_bind_eq_ok] at h
      obtain ⟨-, h⟩ := h
      split at h
      · next hzero =>
          exact List.forall_mem_cons.mpr ⟨sub_eq_zero.mp hzero, nextCompensation_none h⟩
      · simp only [raiseIf_bind_eq_ok] at h
        injection h.2 with h
        cases h

/-! ## §2. Compensation. -/

/-- A compensating pass whose orders have all ended keeps its claim, and every
operation of it meets its guard. -/
theorem wp_progressCompensation {workerId : String} {c : Claimed}
    {legs : List ExecutionTaskLegRow} (hterm : ∀ o ∈ c.orders, o.status.isTerminal)
    (hcomp : c.task.status = .compensating) {w : World}
    (hw : At (Carries c legs) (.advancing c) w) :
    Wp num (progressCompensation workerId c legs) (KeptOnError c) w := by
  have hstable := Carries.stable c legs
  have howns : ∀ db, Carries c legs db → Owns c db := fun db h => h.toOwns
  refine wp_seq (wp_pyEval hw _) howns fun next w hw hnext => ?_
  cases next with
  | none =>
      refine wp_perform hstable hw (fun w hw => ?_) ?_
      · -- Every leg was walked through, and none had anything left to undo.
        obtain ⟨t, ht, -, hiff⟩ := hw.1.task
        refine ⟨hw.1.run, t, ht, .inr ⟨hiff.mpr hcomp, fun o ho hrun => ?_, fun l hl htask => ?_⟩⟩
        · refine hterm o ?_
          rw [← hw.1.orders]
          exact mem_ordersOfRun.mpr ⟨ho, hrun⟩
        · obtain ⟨l₀, hl₀, hid⟩ := hw.1.covers l hl htask
          rw [hw.1.orders, ← hid]
          exact nextCompensation_none hnext l₀ hl₀
      · intro amb db db' r _ hA hc e he
        exact owns_of_commit hA.toOwns hc he
  | some p =>
      obtain ⟨leg, remaining⟩ := p
      obtain ⟨hleg, hrem⟩ := nextCompensation_ok hnext
      refine wp_seq (wp_quote hstable (quoteOrder_sized _ _ _ _ _) hw) howns
        fun quote w hw hquote => ?_
      refine wp_seq (wp_yields hstable (ask_neutral .uuid trivial) hw) howns fun token w hw _ => ?_
      refine wp_createOrder hw fun w hw => ⟨?_, ?_⟩
      · obtain ⟨⟨row, hrow, hplanned, htask, -⟩, -⟩ := hw.1.tracks leg hleg
        refine ⟨c, row, hw.2, hw.1.toCurrent, rfl, hrow, planned_id hplanned, htask, hterm, hcomp, ?_⟩
        have hfit := hquote.fits.2.2
        rw [planned_id hplanned]
        show _ + quote.nativeQuantity * quote.baseMultiplier ≤ _
        linarith
      · obtain ⟨pair, hpair, hnative, hmult⟩ := hquote
        exact ⟨c, legs, leg, remaining, pair, hw.2, hw.1, hleg, rfl, rfl, hpair, hnative, hmult, rfl,
          rfl, hnext⟩

/-! ## §3. Resolving the legs. -/

/-- Asking for the markets of the legs changes nothing and answers in the order
of the legs. -/
theorem resolveMarkets_yields (quantityMode : QuantityMode) :
    ∀ legs : List ExecutionTaskLegRow,
      (resolveMarkets quantityMode legs).Yields Op.isQuote fun ms => ms.map (·.1) = legs
  | [] => .value rfl
  | leg :: rest => by
      refine (resolveLeg_yields leg quantityMode).bind fun market _ => ?_
      refine (resolveMarkets_yields quantityMode rest).bind fun others hothers => ?_
      exact .value (by rw [List.map_cons, hothers])

/-- A stored resolution keeps every tracked leg tracked. -/
theorem Tracks.put {c : Claimed} {l : ExecutionTaskLegRow} {db : Database} (hwf : WellFormed db)
    (h : Tracks c l db) {old new : ExecutionTaskLegRow} (hold : old ∈ db.legs)
    (hplanned : new.planned = old.planned) (htask : new.taskId = old.taskId)
    (hnone : old.resolvedBaseQuantity = none) :
    Tracks c l { db with legs := Table.put db.legs new } := by
  obtain ⟨⟨row, hrow, hp, ht, hres⟩, horigin⟩ := h
  refine ⟨?_, horigin⟩
  by_cases hk : row.id = new.id
  · -- The row was unresolved, so the leg the pass carries is too.
    have hrowold : row = old := hwf.legs_unique.eq hrow hold (hk.trans (planned_id hplanned))
    subst hrowold
    refine ⟨new, Table.mem_put.mpr (.inl ⟨rfl, row, hold, hk⟩), hplanned.trans hp, htask.trans ht, ?_⟩
    rcases hres with hres | hres
    · exact .inl hres
    · exact .inl (hres.symm.trans hnone)
  · exact ⟨row, Table.mem_put.mpr (.inr ⟨hrow, hk⟩), hp, ht, hres⟩

/-- The leg a pass goes on with after its quantity is stored. -/
theorem Tracks.resolved {c : Claimed} {leg : ExecutionTaskLegRow} {db db' : Database}
    (hwf : WellFormed db) (h : Tracks c leg db) (hnone : leg.resolvedBaseQuantity = none)
    {base ratio : ℚ} {row' : ExecutionTaskLegRow}
    (hok : resolveExecutionTaskLegQuantity num leg.id base ratio db = .ok (row', db')) :
    Tracks c { leg with
      resolvedBaseQuantity := row'.resolvedBaseQuantity
      signedBaseRatio := row'.signedBaseRatio } db' := by
  obtain ⟨⟨row, hrow, hp, ht, -⟩, l₀, hl₀, hid, horigin⟩ := h
  have hl₀none : l₀.resolvedBaseQuantity = none := by
    rcases horigin with h | h
    · exact h
    · exact h.trans hnone
  refine ⟨?_, l₀, hl₀, hid, .inl hl₀none⟩
  obtain ⟨old, hold, hcases⟩ := resolveExecutionTaskLegQuantity_ok hok
  have hold' : old = row := by
    obtain ⟨hold, hoid⟩ := Table.find?_some hold
    exact hwf.legs_unique.eq hold hrow (hoid.trans (planned_id hp).symm)
  subst hold'
  rcases hcases with ⟨rfl, rfl, -⟩ | ⟨-, hnew, rfl⟩
  · exact ⟨row', hrow, hp, ht, .inr rfl⟩
  · refine ⟨row', Table.mem_put.mpr (.inl ⟨rfl, old, hrow, ?_⟩), ?_, ?_, .inr rfl⟩
    · rw [hnew]
      rfl
    · rw [hnew]
      exact hp
    · rw [hnew]
      exact ht

/-- Storing one leg's quantity, with the pass going on with the stored row. -/
theorem Carries.resolve {c : Claimed} {kept rest : List ExecutionTaskLegRow}
    {leg : ExecutionTaskLegRow} {db db' : Database} (hwf : WellFormed db)
    (h : Carries c (kept ++ leg :: rest) db) (hnone : leg.resolvedBaseQuantity = none)
    {base ratio : ℚ} {row' : ExecutionTaskLegRow}
    (hok : resolveExecutionTaskLegQuantity num leg.id base ratio db = .ok (row', db')) :
    Carries c (kept ++ { leg with
      resolvedBaseQuantity := row'.resolvedBaseQuantity
      signedBaseRatio := row'.signedBaseRatio } :: rest) db' := by
  -- The other legs are tracked as before.
  have hothers : ∀ l, Tracks c l db → Tracks c l db' := by
    intro l hl
    obtain ⟨old, hold, ⟨-, rfl, -⟩ | ⟨hold', hnew, rfl⟩⟩ := resolveExecutionTaskLegQuantity_ok hok
    · exact hl
    · exact hl.put hwf (Table.find?_some hold).1 (by rw [hnew]; rfl) (by rw [hnew]) hold'
  have hcurrent : Current c db' := by
    obtain ⟨old, -, ⟨-, rfl, -⟩ | ⟨-, -, rfl⟩⟩ := resolveExecutionTaskLegQuantity_ok hok
    · exact h.toCurrent
    · exact ⟨⟨h.task, h.run⟩, h.orders⟩
  -- No leg is added and none changes its task.
  have hcovers : db'.nextId = db.nextId ∧ ∀ l ∈ db'.legs, ∃ l₀ ∈ db.legs,
      l₀.id = l.id ∧ l₀.taskId = l.taskId := by
    obtain ⟨old, hold, ⟨-, rfl, -⟩ | ⟨-, hnew, rfl⟩⟩ := resolveExecutionTaskLegQuantity_ok hok
    · exact ⟨rfl, fun l hl => ⟨l, hl, rfl, rfl⟩⟩
    · refine ⟨rfl, Table.forall_put (fun l hl => ⟨l, hl, rfl, rfl⟩) ?_⟩
      exact ⟨old, (Table.find?_some hold).1, by rw [hnew], by rw [hnew]⟩
  refine ⟨hcurrent, fun l hl => ?_, by rw [hcovers.1]; exact h.below, fun l hl htask => ?_⟩
  · -- A leg that was kept, the one resolved now, or one still to come.
    rcases List.mem_append.mp hl with hl | hl
    · exact hothers l (h.tracks l (List.mem_append.mpr (.inl hl)))
    rcases List.mem_cons.mp hl with rfl | hl
    · exact (h.tracks leg (List.mem_append.mpr (.inr List.mem_cons_self))).resolved hwf hnone hok
    · exact hothers l (h.tracks l (List.mem_append.mpr (.inr (List.mem_cons_of_mem _ hl))))
  · obtain ⟨l₀, hl₀, hid, htask₀⟩ := hcovers.2 l hl
    obtain ⟨l₁, hl₁, hid₁⟩ := h.covers l₀ hl₀ (htask₀.trans htask)
    rw [hid] at hid₁
    rcases List.mem_append.mp hl₁ with hl₁ | hl₁
    · exact ⟨l₁, List.mem_append.mpr (.inl hl₁), hid₁⟩
    rcases List.mem_cons.mp hl₁ with rfl | hl₁
    · exact ⟨_, List.mem_append.mpr (.inr List.mem_cons_self), hid₁⟩
    · exact ⟨l₁, List.mem_append.mpr (.inr (List.mem_cons_of_mem _ hl₁)), hid₁⟩

/-- What `storeResolved` leaves: the legs it returns are tracked, and resolved. -/
def Stored (c : Claimed) (p : Pass) (kept : List ExecutionTaskLegRow)
    (r : Except Exc (List ExecutionTaskLegRow)) (w : World) : Prop :=
  match r with
  | .ok legs => At (Carries c (kept ++ legs)) p w ∧ ∀ l ∈ legs, l.resolvedBaseQuantity ≠ none
  | .error _ => Owns c w.db

/-- A leg that has been resolved reads back with its quantity. -/
theorem resolved_some {num : Numeric} {id : Nat} {base ratio : ℚ} {row : ExecutionTaskLegRow}
    {db db' : Database}
    (h : resolveExecutionTaskLegQuantity num id base ratio db = .ok (row, db')) :
    row.resolvedBaseQuantity ≠ none := by
  obtain ⟨old, -, ⟨rfl, -, hsome⟩ | ⟨-, rfl, -⟩⟩ := resolveExecutionTaskLegQuantity_ok h
  · exact Option.ne_none_iff_isSome.mpr hsome
  · exact Option.some_ne_none _

/-- Going on with the rest of the loop, one more leg being settled. -/
private theorem wp_storeRest {c : Claimed} {p : Pass} {anchor : ℚ} {leg : ExecutionTaskLegRow}
    {ms : List (ExecutionTaskLegRow × ResolvedLegMarket)} {kept : List ExecutionTaskLegRow}
    {w : World} (hleg : leg.resolvedBaseQuantity ≠ none)
    (ih : Wp num (storeResolved num anchor ms) (Stored c p (kept ++ [leg])) w) :
    Wp num (storeResolved num anchor ms >>= fun others => return leg :: others)
      (Stored c p kept) w := by
  refine System.wp_bind _ _ _ (System.wp_mono _ (fun r w hr => ?_) w ih)
  cases r with
  | error e => exact hr
  | ok others =>
      obtain ⟨hall, hothers⟩ : At (Carries c (kept ++ [leg] ++ others)) p w
        ∧ ∀ l ∈ others, l.resolvedBaseQuantity ≠ none := hr
      rw [← List.append_cons] at hall
      exact ⟨hall, List.forall_mem_cons.mpr ⟨hleg, hothers⟩⟩

/-- Storing what was resolved, leg by leg: the legs that are done are carried
along with the quantities they have got. -/
theorem wp_storeResolved {c : Claimed} {p : Pass} (anchor : ℚ) :
    ∀ (ms : List (ExecutionTaskLegRow × ResolvedLegMarket)) (kept : List ExecutionTaskLegRow)
      {w : World}, At (Carries c (kept ++ ms.map (·.1))) p w →
      Wp num (storeResolved num anchor ms) (Stored c p kept) w
  | [], kept, w, hw => ⟨hw, fun _ hl => absurd hl List.not_mem_nil⟩
  | (leg, market) :: rest, kept, w, hw => by
      have hsplit : ∀ leg' : ExecutionTaskLegRow,
          kept ++ leg' :: rest.map (·.1) = (kept ++ [leg']) ++ rest.map (·.1) :=
        fun leg' => List.append_cons kept leg' _
      unfold storeResolved
      dsimp only
      split
      · next hnone =>
          refine System.wp_bind _ _ _ (wp_perform (Carries.stable c _) hw (fun _ _ => trivial) ?_)
          intro amb db db' r hwf hA hc
          rcases commit_cases hc with ⟨row', rfl, hok⟩ | ⟨e, rfl, -, rfl⟩
          · have hA' := hA.resolve hwf hnone hok
            have hrow : row'.resolvedBaseQuantity ≠ none := resolved_some hok
            rw [hsplit] at hA'
            exact wp_storeRest hrow (wp_storeResolved anchor rest _ ⟨hA', rfl⟩)
          · exact hA.toOwns
      · next quantity hsome =>
          split
          · exact hw.1.toOwns
          · rw [List.map_cons, hsplit] at hw
            exact wp_storeRest (by rw [hsome]; exact Option.some_ne_none quantity)
              (wp_storeResolved anchor rest _ hw)

/-- The resolution of all legs, on every one of its paths: stored, stored
before, or raised. -/
theorem wp_resolveLegs {c : Claimed} {p : Pass} {w : World} (hw : At (Carries c c.legs) p w) :
    Wp num (resolveLegs num c.task c.legs) (Stored c p []) w := by
  have hstable := Carries.stable c c.legs
  refine System.wp_bind _ _ _ (System.wp_mono _ (fun r w hr => ?_) w
    (wp_quote hstable (resolveMarkets_yields c.task.quantityMode c.legs) hw))
  cases r with
  | error e => exact hr.1.1.toOwns
  | ok markets =>
      obtain ⟨hw, hmarkets⟩ := hr
      have hmarkets := hmarkets markets rfl
      refine System.wp_bind _ _ _ (System.wp_mono _ (fun r w hr => ?_) w (wp_pyEval hw _))
      cases r with
      | error e => exact hr.1.1.toOwns
      | ok anchor =>
          have hw := hr.1
          rw [← hmarkets] at hw
          refine System.wp_bind _ _ _ (System.wp_mono _ (fun r w hr => ?_) w
            (wp_storeResolved anchor markets [] hw))
          cases r with
          | error e => exact hr
          | ok legs =>
              obtain ⟨hcarries, hresolved⟩ := hr
              refine System.wp_bind _ _ _ (System.wp_mono _ (fun r w hr => ?_) w
                (wp_pyEval (A := Carries c legs) hcarries _))
              cases r with
              | error e => exact hr.1.1.toOwns
              | ok _ => exact ⟨hr.1, hresolved⟩

/-! ## §4. An active order. -/

/-- The transactions on one order keep the task and its run. -/
theorem Owns.of_tables {c : Claimed} {db db' : Database} (h : Owns c db)
    (htasks : db'.tasks = db.tasks) (hruns : db'.runs = db.runs) : Owns c db' := by
  obtain ⟨task, run⟩ := h
  constructor
  · rw [htasks]
    exact task
  · rw [hruns]
    exact run

/-- The task stays the worker's whatever becomes of the order. -/
abbrev StillOwns {α : Type} (c : Claimed) (_ : Except Exc α) (w : World) : Prop := Owns c w.db

/-- An operation that leaves tasks and runs alone keeps whatever is stable and
owned. -/
theorem wp_spare {c : Claimed} {o : DbOp} (ho : o.sparesTask) {A : Database → Prop}
    (hA : DbStable A) (howns : ∀ db, A db → Owns c db) {p : Pass} {w : World} (hw : At A p w)
    (hpre : ∀ w, At A p w → Pre (.db o) w) : Wp num (perform o) (StillOwns c) w := by
  refine wp_perform hA hw hpre fun amb db db' r _ hA hc => ?_
  rcases commit_cases hc with ⟨a, rfl, hok⟩ | ⟨e, rfl, -, rfl⟩
  · obtain ⟨htasks, hruns⟩ := DbOp.sparesTask_tx hok ho
    exact (howns _ hA).of_tables htasks hruns
  · exact howns _ hA

/-- Sequencing inside the handling of an order. -/
theorem wp_then {α β : Type} {c : Claimed} {p : Worker α} {f : α → Worker β} {w : World}
    {Q : Except Exc α → World → Prop} (hp : Wp num p Q w)
    (herr : ∀ e w, Q (.error e) w → Owns c w.db)
    (hf : ∀ a w, Q (.ok a) w → Wp num (f a) (StillOwns c) w) :
    Wp num (p >>= f) (StillOwns c) w := by
  refine System.wp_bind p f _ (System.wp_mono p (fun r w hr => ?_) w hp)
  cases r with
  | ok a => exact hf a w hr
  | error e => exact herr e w hr

/-- A marking at the end of a pass. -/
theorem wp_mark {c : Claimed} {o : DbOp} (ho : o.sparesTask) (hpre : ∀ w, Pre (.db o) w) {w : World}
    (hw : Owns c w.db) : Wp num (do let _ ← perform o; return ()) (StillOwns c) w :=
  wp_then (wp_spare (p := w.pass) ho (Owns.stable c) (fun _ h => h) ⟨hw, rfl⟩ fun w _ => hpre w)
    (fun _ _ h => h) fun _ _ h => h

/-- An active order of the claimed run with its leg. -/
structure Handles (c : Claimed) (legs : List ExecutionTaskLegRow) (leg : ExecutionTaskLegRow)
    (o : ExecutionOrderRow) : Prop where
  order : o ∈ c.orders
  active : o.status.isActive
  leg_mem : leg ∈ legs
  leg_id : leg.id = o.taskLegId

/-- Neutral calls before a submission. -/
theorem wp_neutral {α β : Type} {c : Claimed} {A : Database → Prop} (hA : DbStable A)
    (howns : ∀ db, A db → Owns c db) {p : Pass} {m : Worker α} {f : α → Worker β} {P : α → Prop}
    (hm : m.Yields Op.isNeutral P) {w : World} (hw : At A p w)
    (hf : ∀ a w, At A p w → P a → Wp num (f a) (StillOwns c) w) :
    Wp num (m >>= f) (StillOwns c) w :=
  wp_then (wp_yields hA hm hw) (fun _ _ h => howns _ h.1.1) fun a w h => hf a w h.1 (h.2 a rfl)

theorem checkInventory_yields (client : Client) (leg : ExecutionTaskLegRow)
    (order : ExecutionOrderRow) :
    (checkInventory client leg order).Yields Op.isNeutral fun _ => True := by
  unfold checkInventory
  split
  · exact (ask_neutral (.spotAssetAvailable ..) trivial).bind fun _ _ => .done fun _ _ => trivial
  · exact .value trivial

theorem checkMarket_yields (client : Client) (leg : ExecutionTaskLegRow)
    (snapshot : AccountSnapshot) :
    (checkMarket client leg snapshot).Yields Op.isNeutral fun _ => True := by
  unfold checkMarket
  split
  · unfold confirmPerp
    split
    · exact .raise
    · dsimp only
      split
      · exact .raise
      · split
        · exact .raise
        · refine (ask_neutral (.configurePerp ..) trivial).bind fun configuration _ => ?_
          split
          · exact .raise
          · exact .value trivial
  · exact .value trivial

/-- Submitting an order that is created or unknown: every operation meets its
guard, whether the exchange answers, rejects or raises. -/
theorem wp_submitOrder {client : Client} {c : Claimed} {legs : List ExecutionTaskLegRow}
    {leg : ExecutionTaskLegRow} {o : ExecutionOrderRow} (h : Handles c legs leg o)
    (hstatus : o.status = .created ∨ o.status = .unknown) {w : World}
    (hw : At (Carries c legs) (.submitting c o) w) :
    Wp num (submitOrder client leg o) (StillOwns c) w := by
  have hstable := Carries.stable c legs
  have howns : ∀ db, Carries c legs db → Owns c db := fun db h => h.toOwns
  refine wp_neutral hstable howns (ask_neutral (.snapshot _) trivial) hw fun snapshot w hw _ => ?_
  refine wp_neutral hstable howns (pyEval_yields _) hw fun _ w hw _ => ?_
  refine wp_neutral hstable howns (checkInventory_yields ..) hw fun _ w hw _ => ?_
  refine wp_neutral hstable howns (checkMarket_yields ..) hw fun _ w hw _ => ?_
  refine wp_neutral hstable howns (pyEval_yields _) hw fun request w hw hrequest => ?_
  obtain ⟨hrequest, -⟩ := PrivateOrderRequest.validate_ok hrequest
  refine System.wp_resume _ _ _ w (wp_ask hstable hw (fun w hw => ?_) fun w r hw => ?_)
  · obtain ⟨⟨row, hrow, hplanned, htask, -⟩, -⟩ := hw.1.tracks leg h.leg_mem
    exact ⟨c, o, leg, snapshot, hw.2, hw.1.toCurrent, h.order, hstatus, ⟨row, hrow, hplanned, htask⟩,
      h.leg_id, hrequest⟩
  · cases r with
    | ok submission => exact wp_mark (o := .markSubmitted ..) trivial (fun _ => trivial) hw.1.toOwns
    | error e =>
        dsimp only
        split
        · exact wp_mark (o := .markUnknown _) trivial (fun _ => trivial) hw.1.toOwns
        · exact hw.1.toOwns

/-- Chasing a maker order cancels it or leaves it, and the task stays with the
worker. -/
theorem wp_chaseMaker {client : Client} {c : Claimed} {leg : ExecutionTaskLegRow}
    {o : ExecutionOrderRow} {remote : RemoteOrder} {observed : ExecutionOrderRow} {w : World}
    (hw : Owns c w.db) :
    Wp num (chaseMaker client c.task leg o remote observed) (StillOwns c) w := by
  have hstable := Owns.stable c
  have howns : ∀ db, Owns c db → Owns c db := fun _ h => h
  unfold chaseMaker
  dsimp only
  refine wp_neutral (P := fun _ => True) (p := w.pass) hstable howns
    (Prog.Ensures.resume ((quoteOrder_yields _ _ _ _ _).mono (fun _ ho => ho.isNeutral)
      fun _ hr => hr) fun r _ => ?_) ⟨hw, rfl⟩ fun quote w hw _ => ?_
  · -- Only a missing order book is no failure of the step.
    cases r with
    | ok quote => exact fun _ _ => trivial
    | error e =>
        dsimp only
        split <;> exact fun _ _ => trivial
  cases quote with
  | none => exact hw.1
  | some quote =>
      refine wp_neutral hstable howns (pyEval_yields _) hw fun outside w hw _ => ?_
      cases outside with
      | false => exact hw.1
      | true =>
          refine wp_neutral hstable howns (ask_neutral (.cancelOrder ..) trivial) hw
            fun _ w hw _ => ?_
          exact wp_mark (o := .markCancelPending _) trivial (fun _ => trivial) hw.1

/-- A complete lookup that finds nothing leads to a submission of the same
order. -/
theorem wp_orderAbsent {client : Client} {c : Claimed} {legs : List ExecutionTaskLegRow}
    {leg : ExecutionTaskLegRow} {o : ExecutionOrderRow} (h : Handles c legs leg o)
    {lookup : RemoteOrderLookup} (hcomplete : lookup.complete) (hnone : lookup.order = none)
    {w : World} (hw : At (Carries c legs) (Pass.afterLookup c o lookup) w) :
    Wp num (orderAbsent client leg o) (StillOwns c) w := by
  have hstable := Carries.stable c legs
  unfold Pass.afterLookup at hw
  rw [hcomplete, hnone] at hw
  unfold orderAbsent
  -- A cancellation was asked for: the fills decide, and no fills end the order.
  by_cases hcancel : o.status = .cancelPending
  · rw [if_pos hcancel]
    have hpass : At (Carries c legs) (.weighing c o none) w := by simpa [hcancel] using hw
    refine wp_then (wp_ask (Q := fun r w => At (Carries c legs)
      (Pass.heard (.weighing c o none) (.fillsForOrder ..) r) w) hstable hpass (fun _ _ => trivial)
      fun w r hw => hw) (fun _ _ h => h.1.toOwns) fun batch w hw => ?_
    by_cases hbatch : batch.complete
    · have hpass : At (Carries c legs) (.recording c o none batch) w := by
        simpa [Pass.heard, hbatch] using hw
      rw [if_neg (by simpa using hbatch)]
      refine wp_then (wp_spare (o := .observe _) trivial hstable (fun _ h => h.toOwns) hpass
        fun w hw => ?_) (fun _ _ h => h) fun _ _ h => h
      exact ⟨c, o, none, batch, hw.2, hw.1.toCurrent, h.order, h.active, fun _ => hcancel, rfl⟩
    · rw [if_pos (by simpa using hbatch)]
      exact wp_mark (o := .markUnknown _) trivial (fun _ => trivial) hw.1.toOwns
  · -- No cancellation: an order that may be missing is submitted again.
    rw [if_neg hcancel]
    split
    · exact wp_mark (o := .markUnknown _) trivial (fun _ => trivial) hw.1.toOwns
    · next hs =>
        have hstatus : o.status = .created ∨ o.status = .unknown := by
          by_cases hc : o.status = .created
          · exact .inl hc
          · exact .inr (not_not.mp fun hu => hs ⟨hc, hu⟩)
        have hpass : At (Carries c legs) (.submitting c o) w := by
          simpa [hcancel, hstatus] using hw
        exact wp_submitOrder h hstatus hpass

/-- An order that is found is observed, and a maker order that is still open is
looked after. -/
theorem wp_orderFound {client : Client} {c : Claimed} {legs : List ExecutionTaskLegRow}
    {leg : ExecutionTaskLegRow} {o : ExecutionOrderRow} (h : Handles c legs leg o)
    {remote : RemoteOrder} {w : World} (hw : At (Carries c legs) (.weighing c o (some remote)) w) :
    Wp num (orderFound client c.task leg o remote) (StillOwns c) w := by
  have hstable := Carries.stable c legs
  refine wp_then (wp_ask (Q := fun r w => At (Carries c legs)
    (Pass.heard (.weighing c o (some remote)) (.fillsForOrder ..) r) w) hstable hw
    (fun _ _ => trivial) fun w r hw => hw) (fun _ _ h => h.1.toOwns) fun batch w hw => ?_
  by_cases hbatch : batch.complete
  · have hpass : At (Carries c legs) (.recording c o (some remote) batch) w := by
      simpa [Pass.heard, hbatch] using hw
    rw [if_neg (by simpa using hbatch)]
    refine wp_then (wp_spare (o := .observe _) trivial hstable (fun _ h => h.toOwns) hpass
      fun w hw => ?_) (fun _ _ h => h) fun observed w hw => ?_
    · exact ⟨c, o, some remote, batch, hw.2, hw.1.toCurrent, h.order, h.active,
        fun hn => (by cases hn), rfl⟩
    · split
      · exact wp_chaseMaker hw
      · exact hw
  · rw [if_pos (by simpa using hbatch)]
    exact wp_mark (o := .markUnknown _) trivial (fun _ => trivial) hw.1.toOwns

/-- The lookup of an order and the three ways it can go on. -/
theorem wp_lookupOrder {client : Client} {c : Claimed} {legs : List ExecutionTaskLegRow}
    {leg : ExecutionTaskLegRow} {o : ExecutionOrderRow} (h : Handles c legs leg o) {w : World}
    (hw : At (Carries c legs) (.examining c o) w) :
    Wp num (lookupOrder client c.task leg o) (StillOwns c) w := by
  have hstable := Carries.stable c legs
  refine wp_then (wp_ask (Q := fun r w => At (Carries c legs)
    (Pass.heard (.examining c o) (.orderByClientId ..) r) w) hstable hw (fun w hw => ?_)
    fun w r hw => hw) (fun _ _ h => h.1.toOwns) fun lookup w hw => ?_
  · exact ⟨c, o, hw.2, hw.1.toCurrent, h.order, h.active, rfl⟩
  · have hpass : At (Carries c legs) (Pass.afterLookup c o lookup) w := hw
    by_cases hcomplete : lookup.complete
    · rw [if_neg (by simpa using hcomplete)]
      cases horder : lookup.order with
      | none => exact wp_orderAbsent h hcomplete horder hpass
      | some remote =>
          refine wp_orderFound h ?_
          simpa [Pass.afterLookup, hcomplete, horder] using hpass
    · rw [if_pos (by simpa using hcomplete)]
      exact wp_mark (o := .markUnknown _) trivial (fun _ => trivial) hw.1.toOwns

theorem openClient_yields (task : ExecutionTaskRow) (leg : ExecutionTaskLegRow) :
    (openClient task leg).Yields Op.isNeutral fun _ => True := by
  unfold openClient
  split
  · exact .raise
  · refine (ask_neutral (.accountSummary _) trivial).bind fun summary _ => ?_
    refine (ask_neutral (.hasSecrets _) trivial).bind fun secrets _ => ?_
    cases summary with
    | none => exact .raise
    | some summary =>
        dsimp only
        split
        · exact .raise
        · split
          · exact .raise
          · exact (ask_neutral (.openClient _) trivial).bind fun _ _ => .value trivial

/-- A pass that has an order to look after, from the opening of the client on.
-/
theorem wp_progressOrder {c : Claimed} {legs : List ExecutionTaskLegRow}
    {leg : ExecutionTaskLegRow} {o : ExecutionOrderRow} (h : Handles c legs leg o) {w : World}
    (hw : At (Carries c legs) (.examining c o) w) :
    Wp num (progressOrder c.task leg o) (StillOwns c) w := by
  refine wp_neutral (Carries.stable c legs) (fun _ h => h.toOwns) (openClient_yields ..) hw
    fun client w hw _ => ?_
  refine System.wp_resume _ _ _ w (System.wp_mono _ (fun r w hr => ?_) w (wp_lookupOrder h hw))
  refine System.wp_resume _ _ _ w (System.wp_mono _ (fun r' w hr' => ?_) w
    (wp_yields (Owns.stable c) (ask_neutral (.close client) trivial) (p := w.pass) ⟨hr, rfl⟩))
  cases r' with
  | ok _ => exact hr'.1.1
  | error e => exact hr'.1.1

/-! ## §5. The pass. -/

theorem started_of_not_compensating {s : TaskStatus} (hs : s.isStarted) (hc : s ≠ .compensating) :
    s = .running ∨ s = .hedging := by
  cases s <;> simp_all [TaskStatus.isStarted]

/-- Entering a phase keeps what the pass knows. -/
theorem Carries.setPhase {c : Claimed} {legs : List ExecutionTaskLegRow} {db db' : Database}
    (h : Carries c legs db) (hc : c.task.status ≠ .compensating) {phase : TaskStatus}
    (hphase : phase = .running ∨ phase = .hedging) {u : Unit}
    (hok : setExecutionTaskPhase c.task.id phase db = .ok (u, db')) : Carries c legs db' := by
  obtain ⟨row, hrow, hst, -, ⟨-, rfl⟩ | ⟨row', rfl, hid, hst', -⟩⟩ := setExecutionTaskPhase_ok hok
  · exact h
  · obtain ⟨hmem, hrid⟩ := Table.find?_some hrow
    have hkey : key row' = c.task.id := hid.trans hrid
    refine ⟨⟨⟨⟨row', ?_, by rw [hst']; exact hst, ?_⟩, h.run⟩, h.orders⟩, h.tracks, h.below,
      h.covers⟩
    · rw [← hkey]
      exact Table.find?_put_self ⟨row, hmem, hid.symm⟩
    · rw [hst']
      refine ⟨fun hcomp => ?_, fun hcomp => absurd hcomp hc⟩
      rcases hphase with rfl | rfl <;> cases hcomp

/-- The order a task with a deficit gets. -/
theorem Short.needsOrder {c : Claimed} {legs : List ExecutionTaskLegRow}
    {leg : ExecutionTaskLegRow} {deficit : ℚ} {db : Database} (h : Carries c legs db)
    (hc : c.task.status ≠ .compensating) (hterm : ∀ o ∈ c.orders, o.status.isTerminal)
    (hshort : Short (fun id => filledBaseOf c.orders id .primary) legs leg deficit) :
    NeedsOrder c := by
  obtain ⟨hleg, hpos, t, ht, hle⟩ := hshort
  obtain ⟨-, l₀, hl₀, hid, horigin⟩ := h.tracks leg hleg
  refine ⟨hc, hterm, l₀, hl₀, fun t' ht' => ?_⟩
  rcases horigin with hnone | hsame
  · rw [hnone] at ht'
    cases ht'
  · rw [ht', ht] at hsame
    injection hsame with hsame
    rw [hid, hsame]
    linarith

/-- The legs a pass goes on with are resolved as `_progress` takes them. -/
theorem wp_progressResolved {workerId : String} {c : Claimed} {legs : List ExecutionTaskLegRow}
    (hresolved : c.task.status ≠ .compensating → ∀ l ∈ legs, l.resolvedBaseQuantity ≠ none)
    {w : World} (hw : At (Carries c legs) (Pass.ofClaim c) w) :
    Wp num (progressResolved workerId c legs) (KeptOnError c) w := by
  have hstable := Carries.stable c legs
  have howns : ∀ db, Carries c legs db → Owns c db := fun db h => h.toOwns
  unfold progressResolved
  unfold Pass.ofClaim at hw
  -- An active order is progressed before anything new is created.
  cases hactive : c.orders.find? (fun o => o.status.isActive) with
  | some active =>
      rw [hactive] at hw
      refine wp_seq (wp_pyEval hw _) howns fun leg w hw hleg => ?_
      refine System.wp_mono _ (fun r w hr e _ => hr) w (wp_progressOrder ?_ hw)
      unfold found at hleg
      split at hleg
      · next l hl =>
          injection hleg with hleg
          subst hleg
          exact ⟨List.mem_of_find?_eq_some hactive, by simpa using List.find?_some hactive,
            List.mem_of_find?_eq_some hl, by simpa using List.find?_some hl⟩
      · cases hleg
  | none =>
      rw [hactive] at hw
      -- Without one all orders of the run have ended.
      have hterm : ∀ o ∈ c.orders, o.status.isTerminal := by
        intro o ho
        have := List.find?_eq_none.mp hactive o ho
        rw [OrderStatus.isActive_eq_not_isTerminal] at this
        simpa using this
      dsimp only
      split
      · next hcomp => exact wp_progressCompensation hterm hcomp hw
      · next hcomp =>
          refine wp_seq (wp_pyEval hw _) howns fun next w hw hnext => ?_
          cases next with
          | none =>
              refine System.wp_bind _ _ _ (wp_perform hstable hw (fun _ _ => trivial) ?_)
              intro amb db db' r _ hA hc
              cases r with
              | ok done => exact fun e he => by cases he
              | error e => exact fun _ _ => owns_of_commit hA.toOwns hc rfl
          -- The phase is written first, then the order of the leg that is short.
          | some next =>
              obtain ⟨phase, leg, deficit⟩ := next
              obtain ⟨hphase, hshort⟩ := nextDeficit_short hnext
              refine System.wp_bind _ _ _ (wp_perform hstable hw (fun w hw => ⟨hphase, ?_⟩) ?_)
              · obtain ⟨t, ht, hst, hiff⟩ := hw.1.task
                exact ⟨t, ht, started_of_not_compensating hst fun h => hcomp (hiff.mp h)⟩
              · intro amb db db' r _ hA hc
                rcases commit_cases hc with ⟨u, rfl, hok⟩ | ⟨e, rfl, -, rfl⟩
                · have hA' := hA.setPhase hcomp hphase hok
                  have hneeds := hshort.needsOrder hA hcomp hterm
                  obtain ⟨hleg, -, hdeficit⟩ := hshort
                  exact wp_createNextOrder hleg hneeds hdeficit hnext (hresolved hcomp) ⟨hA', rfl⟩
                · exact fun _ _ => hA.toOwns

/-- The whole step of a claimed task meets the guards of all its operations. -/
theorem wp_progress {workerId : String} {c : Claimed} {w : World}
    (hw : At (Carries c c.legs) (Pass.ofClaim c) w) :
    Wp num (progress num workerId c) (KeptOnError c) w := by
  unfold progress
  split
  · next hcomp => exact wp_progressResolved (fun hne => absurd hcomp hne) hw
  · refine System.wp_bind _ _ _ (System.wp_mono _ (fun r w hr => ?_) w (wp_resolveLegs hw))
    cases r with
    | error e => exact fun _ _ => hr
    | ok legs => exact wp_progressResolved (fun _ => hr.2) hr.1

/-- So does the handler of a step that has raised. -/
theorem wp_afterFailure {workerId : String} {c : Claimed} {w : World} (hw : Owns c w.db) :
    Wp num (afterFailure workerId c) (fun _ _ => True) w := by
  refine System.wp_bind _ _ _ (wp_perform (p := w.pass) (Owns.stable c) ⟨hw, rfl⟩
    (fun _ _ => trivial) ?_)
  intro amb db db' r _ hA hc
  rcases commit_cases hc with ⟨current, rfl, hok⟩ | ⟨e, rfl, -⟩
  · injection hok with hok
    obtain ⟨hcurrent, rfl⟩ := Prod.mk.inj hok
    have hstable : DbStable fun db => Owns c db ∧ db.ordersOfRun c.run.id = current := by
      intro a w h
      refine ⟨Owns.stable c a w h.1, ?_⟩
      rw [← h.2]
      unfold ordersOfRun
      rw [(act_frame a w).2.1]
    have hat : At (fun db => Owns c db ∧ db.ordersOfRun c.run.id = current) .idle
        ⟨db, amb, .idle⟩ := ⟨⟨hA, hcurrent⟩, rfl⟩
    dsimp only
    split
    · next hcond =>
        obtain ⟨hcomp, hexposed, hcertain⟩ := hcond
        refine System.wp_bind _ _ _ (wp_perform hstable hat (fun w hw => ?_) ?_)
        · obtain ⟨⟨⟨⟨t, ht, hst, hiff⟩, r, hr, htask⟩, horders⟩, -⟩ := hw
          have hmem : ∀ o, o ∈ current ↔ o ∈ w.db.orders ∧ o.runId = c.run.id := by
            intro o
            rw [← horders]
            exact mem_ordersOfRun
          refine ⟨⟨t, ht, started_of_not_compensating hst fun h => hcomp (hiff.mp h)⟩,
            ⟨r, hr, htask⟩, ?_, ?_⟩
          · obtain ⟨o, ho, hp⟩ := List.any_eq_true.mp hexposed
            rw [decide_eq_true_eq] at hp
            exact ⟨o, ((hmem o).mp ho).1, ((hmem o).mp ho).2, hp⟩
          · intro o ho hrun hunc
            exact hcertain (List.any_eq_true.mpr ⟨o, (hmem o).mpr ⟨ho, hrun⟩, hunc⟩)
        · intro amb db db' r _ _ _
          cases r <;> exact trivial
    · next hcond =>
        refine System.wp_bind _ _ _ (wp_perform hstable hat (fun w hw => ?_) ?_)
        · obtain ⟨⟨⟨⟨t, ht, hst, hiff⟩, hrun⟩, horders⟩, -⟩ := hw
          have hmem : ∀ o, o ∈ current ↔ o ∈ w.db.orders ∧ o.runId = c.run.id := by
            intro o
            rw [← horders]
            exact mem_ordersOfRun
          -- A manual review is asked for unless all three are false.
          cases hreview : decide (c.task.status = .compensating
              ∨ (current.any fun o => o.purpose = .primary ∧ 0 < o.filledQuantity) = true
              ∨ (current.any fun o => o.status.isUncertain) = true) with
          | true => exact ⟨t, ht, hst⟩
          | false =>
              rw [decide_eq_false_iff_not, not_or, not_or] at hreview
              obtain ⟨hcomp, hexposed, hcertain⟩ := hreview
              refine ⟨hrun, t, ht, .inl ⟨started_of_not_compensating hst fun h => hcomp (hiff.mp h),
                fun o ho hrun => ⟨fun hunc => ?_, fun hp => ?_⟩⟩⟩
              · exact hcertain (List.any_eq_true.mpr ⟨o, (hmem o).mpr ⟨ho, hrun⟩, hunc⟩)
              · by_contra hne
                refine hexposed (List.any_eq_true.mpr ⟨o, (hmem o).mpr ⟨ho, hrun⟩, ?_⟩)
                rw [decide_eq_true_eq]
                exact ⟨hp, lt_of_le_of_ne o.filled_check.1 (Ne.symm hne)⟩
        · intro amb db db' r _ _ _
          cases r <;> exact trivial
  · exact trivial

/-- The run of a claim is there, and the tasks stay for the moment. -/
theorem claim_tasks (workerId : String) (amb : Ambient) (db : Database) (taskId : Nat) :
    (db.claimRun taskId workerId amb).2.tasks = db.tasks
      ∧ (db.claimRun taskId workerId amb).1 ∈ (db.claimRun taskId workerId amb).2.runs
      ∧ (db.claimRun taskId workerId amb).1.taskId = taskId := by
  rcases claimRun_cases amb db taskId workerId with
    ⟨old, hold, -, hid, htask, -, heq⟩ | ⟨-, -, htask, -, heq⟩
  · refine ⟨by rw [heq], ?_, htask⟩
    rw [heq]
    exact Table.mem_put.mpr (.inl ⟨rfl, old, hold, hid.symm⟩)
  · refine ⟨by rw [heq], ?_, htask⟩
    rw [heq]
    exact List.mem_append.mpr (.inr (List.mem_singleton.mpr rfl))

/-- The claimed task is the row the claim leaves, and it is started. -/
theorem claim_task {workerId : String} {amb : Ambient} {db db' : Database} {c : Claimed}
    (hok : claimLiveExecutionTask workerId amb db = .ok (some c, db')) :
    Table.find? db'.tasks c.task.id = some c.task ∧ c.task.status.isStarted := by
  rcases claimLiveExecutionTask_ok hok with ⟨hnone, -⟩ | ⟨row, hrow, hst, -, hdb, hclaimed⟩
  · cases hnone
  · injection hclaimed with hclaimed
    subst hclaimed
    refine ⟨?_, ?_⟩
    · rw [hdb]
      show Table.find? (Table.put (db.claimRun row.id workerId amb).2.tasks (startTask row))
        (key (startTask row)) = _
      rw [(claim_tasks workerId amb db row.id).1]
      exact Table.find?_put_self ⟨row, hrow, (startTask_id row).symm⟩
    · show (startTask row).status.isStarted
      unfold startTask
      split
      · rfl
      · next hq => exact hst.resolve_left hq

/-- What a claim establishes for the pass. -/
theorem claim_carries {workerId : String} {amb : Ambient} {db db' : Database} {c : Claimed}
    (hwf : WellFormed db) (hok : claimLiveExecutionTask workerId amb db = .ok (some c, db')) :
    Carries c c.legs db' := by
  obtain ⟨htask, hstarted⟩ := claim_task hok
  rcases claimLiveExecutionTask_ok hok with ⟨hnone, -⟩ | ⟨row, hrow, hst, -, hdb, hclaimed⟩
  · cases hnone
  · have hwf' : WellFormed db' := hdb ▸ hwf.claim hrow hst workerId amb
    injection hclaimed with hclaimed
    subst hclaimed
    obtain ⟨-, hrunmem, hruntask⟩ := claim_tasks workerId amb db row.id
    have hrunmem' : (db.claimRun row.id workerId amb).1 ∈ db'.runs := by
      rw [hdb]
      exact hrunmem
    refine ⟨⟨⟨⟨startTask row, htask, hstarted, Iff.rfl⟩,
      (db.claimRun row.id workerId amb).1, ?_, ?_⟩, rfl⟩, fun l hl => ?_,
      hwf'.tasks_below _ (Table.find?_some htask).1, fun l hl htask => ⟨l, mem_legsOfTask.mpr
        ⟨hl, htask.trans (startTask_id row)⟩, rfl⟩⟩
    · exact (Table.find?_eq_some_iff hwf'.runs_unique).mpr ⟨hrunmem', rfl⟩
    · exact hruntask.trans (startTask_id row).symm
    · obtain ⟨hmem, htask⟩ := mem_legsOfTask.mp hl
      exact ⟨⟨l, hmem, rfl, htask.trans (startTask_id row).symm, .inr rfl⟩, l, hl, rfl, .inr rfl⟩

/-- Every operation of a pass meets its guard. -/
theorem runOnce_guarded (workerId : String) (w : World) :
    Wp num (runOnce num workerId) (fun _ _ => True) w := by
  refine System.wp_bind _ _ _ (wp_perform (A := fun _ => True) (p := w.pass) (fun _ _ _ => trivial)
    ⟨trivial, rfl⟩ (fun _ _ => trivial) ?_)
  intro amb db db' r hwf _ hc
  rcases commit_cases hc with ⟨claimed, rfl, hok⟩ | ⟨e, rfl, -⟩
  · cases claimed with
    | none => exact trivial
    | some c =>
        have hcarries := claim_carries hwf hok
        refine System.wp_resume _ _ _ _ (System.wp_mono _ (fun r w hr => ?_) _
          (wp_progress ⟨hcarries, rfl⟩))
        cases r with
        | ok _ =>
            refine System.wp_bind _ _ _ (wp_perform (A := fun _ => True) (p := w.pass)
              (fun _ _ _ => trivial) ⟨trivial, rfl⟩ (fun _ _ => trivial) ?_)
            intro amb db db' r _ _ _
            cases r <;> exact trivial
        | error e =>
            dsimp only
            split
            · exact wp_afterFailure (hr e rfl)
            · exact trivial
  · exact trivial

/-! ## §6. Where a pass can stand. -/

/-- Only a complete and empty lookup of an order that may be missing leads a
pass to a submission. -/
theorem heard_submitting {w : World} {o : OutOp} {r : Except Exc o.Answer} {c : Claimed}
    {x : ExecutionOrderRow} (hpre : Pre (.out o) w) (h : w.pass.heard o r = .submitting c x) :
    w.pass = .submitting c x
      ∨ (absentOrder (.call (.out o) r) = some x.clientOrderId ∧ Current c w.db ∧ x ∈ c.orders
          ∧ (x.status = .created ∨ x.status = .unknown)) := by
  cases o with
  -- The lookup: complete, empty, and of an order that is not being canceled.
  | orderByClientId client market symbol cid =>
      cases r with
      | error e => cases h
      | ok lookup =>
          obtain ⟨c', o', hpass, hcur, ho', -, rfl⟩ := hpre
          simp only [Pass.heard, hpass, Pass.afterLookup] at h
          split at h
          · cases h
          · next hcomplete =>
              split at h
              · cases h
              · next hnone =>
                  split at h
                  · cases h
                  · split at h
                    · next hst =>
                        cases h
                        refine .inr ⟨?_, hcur, ho', hst⟩
                        simp only [absentOrder, hnone]
                        rw [if_pos ⟨by simpa using hcomplete, trivial⟩]
                    · cases h
  -- The fills of an order never lead to a submission.
  | fillsForOrder client ref since =>
      cases r with
      | error e => cases h
      | ok batch =>
          simp only [Pass.heard] at h
          split at h
          · split at h <;> cases h
          · exact .inl h
  | placeOrder client request => cases h
  | _ => exact .inl h

/-- A claim advances the task that it has claimed. -/
theorem Pass.ofClaim_advancing {c c' : Claimed} (h : Pass.ofClaim c' = .advancing c) : c' = c := by
  unfold Pass.ofClaim at h
  split at h <;> injection h

/-- A transaction never leads a pass to a submission. -/
theorem wrote_submitting {p : Pass} {o : DbOp} {r : Except Exc o.Result} {c : Claimed}
    {x : ExecutionOrderRow} (h : p.wrote o r = .submitting c x) : p = .submitting c x := by
  unfold Pass.wrote at h
  split at h
  · next c' =>
      unfold Pass.ofClaim at h
      split at h <;> cases h
  · exact h
  · exact h
  · cases h

/-- No answer leads a pass back to where nothing is decided. -/
theorem heard_advancing {p : Pass} {o : OutOp} {r : Except Exc o.Answer} {c : Claimed}
    (h : p.heard o r = .advancing c) : p = .advancing c := by
  cases o with
  | orderByClientId client market symbol cid =>
      cases r with
      | error e => cases h
      | ok lookup =>
          simp only [Pass.heard] at h
          split at h
          · unfold Pass.afterLookup at h
            split at h
            · cases h
            · split at h
              · cases h
              · split at h
                · cases h
                · split at h <;> cases h
          · exact h
  | fillsForOrder client ref since =>
      cases r with
      | error e => cases h
      | ok batch =>
          simp only [Pass.heard] at h
          split at h
          · split at h <;> cases h
          · exact h
  | placeOrder client request => cases h
  | _ => exact h

/-- What an observation is about is active. -/
theorem observed_active {ob : Observation} {w : World} (hwf : WellFormed w.db)
    (h : ObserveGuard ob w) {o : ExecutionOrderRow} (ho : o ∈ w.db.orders)
    (hid : o.id = ob.orderId) : o.status.isActive := by
  obtain ⟨c, x, remote, batch, -, hcur, hx, hactive, -, hob⟩ := h
  rw [← hcur.orders] at hx
  have hsame : o = x := by
    refine hwf.orders_unique.eq ho (mem_ordersOfRun.mp hx).1 ?_
    show o.id = x.id
    rw [hid, hob]
    cases remote <;> rfl
  rw [hsame]
  exact hactive

/-! ## §7. Every run. -/

section Runs

variable {workerId : String} {allow : World → Label Op Rep Act → Prop}

/-- The tables stay well formed. -/
theorem Reachable.wellFormed {s : State} (hs : Reachable num workerId allow s) :
    WellFormed s.world.db :=
  (hs.guarded (wellFormed_preserved num Pre) (fun _ h => wellFormed_initial h)
    fun w _ => runOnce_guarded workerId w).1

/-- The operation the worker is about to perform meets its guard. -/
theorem Reachable.pre {w : World} {o : Op} {k : Rep o → Worker PassResult}
    (hs : Reachable num workerId allow ⟨w, some (.call o k)⟩) : Pre o w :=
  System.Reach.pre (wellFormed_preserved num Pre) (fun _ h => wellFormed_initial h)
    (fun w _ => runOnce_guarded workerId w) hs

/-- From one state to another by allowed steps. -/
abbrev Runs (num : Numeric) (workerId : String) (allow : World → Label Op Rep Act → Prop) :
    State → State → Prop :=
  (system num).Run (runOnce num workerId) allow

/-- What every allowed step keeps, the guards given. -/
structure Kept (num : Numeric) (allow : World → Label Op Rep Act → Prop) (J : World → Prop) :
    Prop where
  act : ∀ (a : Act) w, allow w (.act a) → WellFormed w.db → J w → J (a.apply w)
  db : ∀ (o : DbOp) w r db', commit (o.tx num w.ambient) w.db = (r, db') →
    allow w (.call (.db o) r) → Pre (.db o) w → WellFormed w.db → J w →
      J { w with db := db', pass := w.pass.wrote o r }
  out : ∀ (o : OutOp) w r, allow w (.call (.out o) r) → Pre (.out o) w → WellFormed w.db →
    J w → J { w with pass := w.pass.heard o r }
  idle : ∀ w, J w → J { w with pass := .idle }

/-- Induction along a run, with well-formed tables and the guards at hand. -/
theorem Kept.runs {J : World → Prop} (hJ : Kept num allow J) {s s' : State}
    (hs : Reachable num workerId allow s) (hr : Runs num workerId allow s s') (h : J s.world) :
    J s'.world := by
  refine System.Run.invariant (I := fun w => WellFormed w.db) (wellFormed_preserved num Pre)
    (fun _ h => wellFormed_initial h) (fun w _ => runOnce_guarded workerId w) ?_ ?_
    (fun w _ h => hJ.idle w h) hs hr h
  · intro a w w' hw ha hI hj
    rw [show w' = a.apply w from hw]
    exact hJ.act a w ha hI hj
  · intro o w r w' he ha hpre hI hj
    cases o with
    | db o =>
        obtain ⟨db', hc, rfl⟩ := he
        exact hJ.db o w r db' hc ha hpre hI hj
    | out o =>
        rw [show w' = { w with pass := w.pass.heard o r } from he]
        exact hJ.out o w r ha hpre hI hj

/-- Induction over all runs. -/
theorem Kept.reachable {J : World → Prop} (hJ : Kept num allow J) (hinit : ∀ w, Initial w → J w)
    {s : State} (hs : Reachable num workerId allow s) : J s.world := by
  obtain ⟨w, hw, hr⟩ := System.Reach.exists_run hs
  exact hJ.runs (.init hw) hr (hinit w hw)

end Runs

end BasisHawk.MultiLeg
