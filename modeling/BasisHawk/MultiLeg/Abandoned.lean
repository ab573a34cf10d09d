/-
  BasisHawk.MultiLeg.Abandoned
  ────────────────────────────
  When a task is failed without asking for a manual review.

  The handler of a failed pass decides from the recorded statuses alone, and
  `created` is not among those it takes for undecided.  An order that reached
  the exchange before the worker could record its submission is `created`
  still.

  Main results:
    • `abandoned_flat` — a task is given up only when nothing of it is left at
      the exchange and every leg is undone, in runs that `Accountable` allows,
    • `abandoned_live` — a task is given up with its anchor order live.
-/
import BasisHawk.MultiLeg.Compensation
import BasisHawk.MultiLeg.TradeLag

namespace BasisHawk.MultiLeg

open Domain Lib Accounts Database

variable {num : Numeric} {workerId : String}

/-! ## §1. The property and the condition. -/

/-- Nothing is executed under the client order id any more. -/
def Venue.Over (v : Venue) (clientOrderId : String) : Prop :=
  ∀ s ∈ v.standing clientOrderId, s.ended ∨ s.executed = s.quantity

instance (v : Venue) (cid : String) : Decidable (v.Over cid) :=
  inferInstanceAs (Decidable (∀ s ∈ v.standing cid, _))

/-- No order of the run is live, or filled beyond what the ledger records, and
every leg of the task has undone what it had filled. -/
structure Flat (v : Venue) (taskId runId : Nat) : Prop where
  ended : ∀ o ∈ v.world.db.orders, o.runId = runId → v.Over o.clientOrderId
  listed : ∀ o ∈ v.world.db.orders, o.runId = runId →
    v.executed o.clientOrderId ≤ o.filledQuantity
  undone : ∀ l ∈ v.world.db.legs, l.taskId = taskId →
    filledBaseOf (v.world.db.ordersOfRun runId) l.id .primary
      = filledBaseOf (v.world.db.ordersOfRun runId) l.id .compensation

/-- The run a step gives up without asking for a manual review. -/
def abandonedRun : Label Op Rep VenueAct → Option Nat
  | .call (.db (.failRun _ runId _ _ false)) _ => some runId
  | _ => none

/-- Whenever an order's end is recorded, the exchange has ended it and the
trades just listed are all of its trades; and when a run is given up, none of
its created orders has been accepted by the exchange. -/
def Accountable (v : Venue) (l : Label Op Rep VenueAct) : Prop :=
  (∀ ob ∈ recorded l, ob.status.isTerminal → ∀ o ∈ v.world.db.orders, o.id = ob.orderId →
      v.Over o.clientOrderId ∧ v.executed o.clientOrderId = ob.filledQuantity)
    ∧ ∀ runId ∈ abandonedRun l, ∀ o ∈ v.world.db.orders, o.runId = runId → o.status = .created →
      v.standing o.clientOrderId = none

instance (v : Venue) (cid : String) : Decidable (v.standing cid = none) :=
  decidable_of_iff _ Option.isNone_iff_eq_none

instance (v : Venue) (l : Label Op Rep VenueAct) : Decidable (Accountable v l) :=
  inferInstanceAs (Decidable ((∀ ob ∈ recorded l, _ → ∀ o ∈ v.world.db.orders, _)
    ∧ ∀ runId ∈ abandonedRun l, ∀ o ∈ v.world.db.orders, _))

/-! ## §2. An order that has ended stays as it was recorded. -/

/-- What is recorded of an ended order is all that became of it. -/
def Ended (v : Venue) : Prop :=
  ∀ o ∈ v.world.db.orders, o.status.isTerminal →
    v.Over o.clientOrderId ∧ v.executed o.clientOrderId = o.filledQuantity

/-- What the exchange knows of an ended order does not change. -/
theorem Ended.of_standing {v v' : Venue} (h : Ended v)
    (horders : v'.world.db.orders = v.world.db.orders)
    (hkeep : ∀ o ∈ v.world.db.orders, o.status.isTerminal → v.Over o.clientOrderId →
      v'.Over o.clientOrderId ∧ v'.executed o.clientOrderId = v.executed o.clientOrderId) :
    Ended v' := by
  intro o ho hterm
  rw [horders] at ho
  obtain ⟨hover, hexec⟩ := h o ho hterm
  obtain ⟨hover', hexec'⟩ := hkeep o ho hterm hover
  exact ⟨hover', hexec'.trans hexec⟩

/-- Standing elsewhere is of no concern. -/
theorem Venue.update_of_ne {v : Venue} {cid cid' : String} {s : Option Standing} (hne : cid ≠ cid')
    (h : v.Over cid) :
    Venue.Over { v with standing := Function.update v.standing cid' s } cid
      ∧ Venue.executed { v with standing := Function.update v.standing cid' s } cid
        = v.executed cid := by
  have hstanding : Function.update v.standing cid' s cid = v.standing cid :=
    Function.update_of_ne hne _ _
  unfold Venue.Over Venue.executed
  dsimp only
  rw [hstanding]
  exact ⟨h, rfl⟩

/-- The venue moves on its own: orders end there and nothing that has ended
comes back. -/
theorem Ended.act {a : VenueAct} {v v' : Venue} (henv : venueEnv a v v') (h : Ended v) :
    Ended v' := by
  cases a with
  | other a =>
      obtain rfl : v' = { v with world := a.apply v.world } := henv
      exact h.of_standing (act_frame a v.world).2.1 fun o _ _ hover => ⟨hover, rfl⟩
  | execute cid trade =>
      obtain ⟨s, hs, hopen, hpos, hroom, rfl⟩ := henv
      refine h.of_standing rfl fun o _ _ hover => ?_
      by_cases hcid : o.clientOrderId = cid
      · -- There is no room left for a trade.
        rcases hover s (by rw [hcid]; exact hs) with hended | hfull
        · rw [hopen] at hended
          cases hended
        · rw [hfull] at hroom
          linarith
      · exact Venue.update_of_ne hcid hover
  | close cid =>
      obtain ⟨s, hs, rfl⟩ := henv
      refine h.of_standing rfl fun o _ _ hover => ?_
      by_cases hcid : o.clientOrderId = cid
      · subst hcid
        constructor
        · intro s' hs'
          have hself : Function.update v.standing o.clientOrderId (some { s with ended := true })
              o.clientOrderId = some { s with ended := true } := Function.update_self _ _ _
          obtain rfl := Option.some.inj (hself.symm.trans hs')
          exact .inl rfl
        · unfold Venue.executed
          dsimp only
          rw [Function.update_self, hs]
          rfl
      · exact Venue.update_of_ne hcid hover

/-- A request of the worker to the venue: a new order is placed for a row that
is there, and a cancelled one ends. -/
theorem Ended.out {o : OutOp} {v v' : Venue} {r : Except Exc o.Answer}
    (hexec : venueExec num (.out o) v r v') (hpre : Pre (.out o) v.world)
    (hwf : WellFormed v.world.db) (h : Ended v) : Ended v' := by
  obtain ⟨hworld, -, hsettles⟩ := hexec
  obtain ⟨world', standing'⟩ := v'
  obtain rfl : world' = { v.world with pass := v.world.pass.heard o r } := hworld
  have hkeep : standing' = v.standing →
      Ended ⟨{ v.world with pass := v.world.pass.heard o r }, standing'⟩ := by
    rintro rfl
    exact h
  cases o with
  | placeOrder client request =>
      obtain ⟨c, x, leg, snapshot, -, hcur, hx, hst, -, -, hreq⟩ := hpre
      have hx' : x ∈ v.world.db.orders := by
        rw [← hcur.orders] at hx
        exact (mem_ordersOfRun.mp hx).1
      have hplace : standing' = v.place request →
          Ended ⟨{ v.world with pass := v.world.pass.heard (.placeOrder client request) r },
            standing'⟩ := by
        rintro rfl
        refine h.of_standing rfl fun o ho hterm hover => ?_
        -- The order placed has not ended, and client order ids are unique.
        refine Venue.update_of_ne (fun hcid => ?_) hover
        rw [hreq] at hcid
        obtain rfl : o = x := List.inj_on_of_nodup_map hwf.client_ids ho hx' hcid
        rcases hst with hst | hst <;> rw [hst] at hterm <;> cases hterm
      cases r with
      | ok submission => exact hplace hsettles
      | error e => exact hsettles.elim hkeep hplace
  | _ => exact hkeep hsettles

/-- A transaction that is accounted for keeps every abandoned run without an
open order at the venue. -/
theorem Ended.tx {o : DbOp} {v : Venue} {r : o.Result} {db' : Database} {pass : Pass}
    (hok : o.tx num v.world.ambient v.world.db = .ok (r, db'))
    (ha : Accountable v (.call (.db o) (.ok r))) (h : Ended v) :
    Ended { v with world := { v.world with db := db', pass := pass } } := by
  intro x hx hterm
  cases DbOp.ordersEffect hok with
  | same heq => exact h x (heq ▸ hx) hterm
  | created heq _ _ _ _ hst =>
      rw [show db'.orders = _ from heq] at hx
      rcases List.mem_append.mp hx with hx | hx
      · exact h x hx hterm
      · rw [List.mem_singleton.mp hx, hst] at hterm
        cases hterm
  | marked heq _ _ _ hst =>
      rw [show db'.orders = _ from heq] at hx
      rcases Table.mem_put.mp hx with ⟨rfl, -⟩ | ⟨hx, -⟩
      · rcases hst with hst | hst | hst <;> rw [hst] at hterm <;> cases hterm
      · exact h x hx hterm
  | @observed ob _ _ old new heq hmem hid hsame hst _ hfilled _ _ =>
      rw [show db'.orders = _ from heq] at hx
      rcases Table.mem_put.mp hx with ⟨rfl, -⟩ | ⟨hx, -⟩
      · rw [hst] at hterm
        rw [hsame.clientOrderId, hfilled]
        exact ha.1 ob rfl hterm old hmem hid
      · exact h x hx hterm

/-- In every run that records ends in time, ended orders stay as recorded. -/
theorem VenueReachable.ended {s : VenueState}
    (hs : VenueReachable num workerId Accountable s) : Ended s.world := by
  refine System.Reach.history (venue_projects num) (wellFormed_preserved num Pre)
    (fun _ h => wellFormed_initial h) (fun w _ => runOnce_guarded workerId w)
    (fun _ h => VenueInitial.world h) (fun v hv o ho => ?_)
    (fun a v v' henv _ _ h => h.act henv) ?_ (fun v h => h) hs
  · rw [hv.world.orders] at ho
    cases ho
  · intro o v r v' hexec ha hpre hwf h
    cases o with
    | db o =>
        obtain ⟨⟨db', hc, hworld⟩, hstanding⟩ := hexec
        obtain ⟨world', standing'⟩ := v'
        obtain rfl : standing' = v.standing := hstanding
        obtain rfl : world' = _ := hworld
        rcases commit_cases hc with ⟨a, rfl, hok⟩ | ⟨e, rfl, -, rfl⟩
        · exact h.tx hok ha
        · exact h
    | out o => exact h.out hexec hpre hwf

/-! ## §3. Compensation orders belong to tasks that have left trading. -/

/-- A compensation order's task is compensating, or past it. -/
def Undoing (db : Database) : Prop :=
  ∀ o ∈ db.orders, o.purpose = .compensation → ∀ r ∈ db.runs, r.id = o.runId →
    PastTrading r.taskId db

/-- A transaction keeps the orders of a compensating task to those that unwind
it. -/
theorem Undoing.tx {o : DbOp} {w : World} {r : o.Result} {db' : Database}
    (hok : o.tx num w.ambient w.db = .ok (r, db')) (hpre : Pre (.db o) w) (hwf : WellFormed w.db)
    (h : Undoing w.db) : Undoing db' := by
  have hwf' : WellFormed db' := hwf.tx hok
  -- An order that was there before, with its run.
  have hold : ∀ x ∈ w.db.orders, x.purpose = .compensation → ∀ r ∈ db'.runs, r.id = x.runId →
      PastTrading r.taskId db' := by
    intro x hx hp r hr hid
    rcases DbOp.runsEffect hok r hr with ⟨r₀, hr₀, hid₀, htask₀⟩ | hfresh
    · rw [← htask₀]
      exact (h x hx hp r₀ hr₀ (hid₀.trans hid)).tx hok hpre hwf hwf'
    · obtain ⟨r₀, hr₀, -, -, hid₀, -⟩ := hwf.order_owner x hx
      have hbelow : r₀.id < w.db.nextId := hwf.runs_below r₀ hr₀
      rw [hid₀, ← hid, hfresh] at hbelow
      omega
  intro x hx hp
  cases DbOp.ordersEffect hok with
  | same heq => exact hold x (heq ▸ hx) hp
  | created heq hrun _ _ hpurpose =>
      rw [heq] at hx
      rcases List.mem_append.mp hx with hx | hx
      · exact hold x hx hp
      · obtain rfl := List.mem_singleton.mp hx
        intro r hr hid
        have hcreate : CreateGuard _ w := hpre.1
        obtain ⟨c, leg, -, hcur, hcrun, -, -, -, -, hguard⟩ := hcreate
        rw [← hpurpose, hp] at hguard
        obtain ⟨t, ht, -, hiff⟩ := hcur.task
        obtain ⟨r₀, hr₀, htask₀⟩ := hcur.run
        obtain ⟨hr₀mem, hr₀id⟩ := Table.find?_some hr₀
        rw [(DbOp.sparesTask_tx hok trivial).2] at hr
        obtain rfl : r = r₀ := by
          refine hwf.runs_unique.eq hr hr₀mem ?_
          show r.id = key r₀
          rw [hid, hrun, hcrun]
          exact hr₀id.symm
        have hpast : PastTrading r.taskId w.db := by
          refine ⟨t, by rw [htask₀]; exact ht, ?_⟩
          rw [hiff.mpr hguard.1]
          rfl
        exact hpast.tx hok hpre hwf hwf'
  | marked heq hmem hsame =>
      rw [heq] at hx
      rcases Table.mem_put.mp hx with ⟨rfl, -⟩ | ⟨hx, -⟩
      · intro r hr hid
        exact hold _ hmem (hsame.purpose ▸ hp) r hr (hid.trans hsame.runId)
      · exact hold x hx hp
  | observed heq hmem _ hsame =>
      rw [heq] at hx
      rcases Table.mem_put.mp hx with ⟨rfl, -⟩ | ⟨hx, -⟩
      · intro r hr hid
        exact hold _ hmem (hsame.purpose ▸ hp) r hr (hid.trans hsame.runId)
      · exact hold x hx hp

/-- The step lemma for a whole run: no other actor creates orders. -/
theorem undoing_kept {allow : World → Label Op Rep Act → Prop} :
    Kept num allow fun w => Undoing w.db where
  act := fun a w ha hwf h o ho hp r hr hid => by
    obtain ⟨hruns, horders, -⟩ := act_frame a w
    rw [hruns] at hr
    rw [horders] at ho
    have hkept : Kept num allow fun w => WellFormed w.db ∧ PastTrading r.taskId w.db :=
      pastTrading_kept r.taskId
    exact (hkept.act a w ha hwf ⟨hwf, h o ho hp r hr hid⟩).2
  db := fun o w r db' hc _ hpre hwf h => by
    rcases commit_cases hc with ⟨a, rfl, hok⟩ | ⟨e, -, -, rfl⟩
    · exact h.tx hok hpre hwf
    · exact h
  out := fun _ _ _ _ _ _ h => h
  idle := fun _ h => h

theorem Reachable.undoing {allow : World → Label Op Rep Act → Prop} {s : State}
    (hs : Reachable num workerId allow s) : Undoing s.world.db := by
  refine undoing_kept.reachable (fun w hw o ho => ?_) hs
  rw [hw.orders] at ho
  cases ho

/-! ## §4. A task is given up only when flat. -/

/-- What the guard of a failure without review says of the run's orders: they
have ended, or are created still. -/
theorem FailGuard.ended_or_created {taskId runId : Nat} {db : Database}
    (h : FailGuard taskId runId db) {o : ExecutionOrderRow} (ho : o ∈ db.orders)
    (hrun : o.runId = runId) : o.status.isTerminal ∨ o.status = .created := by
  obtain ⟨-, t, -, ⟨-, hcertain⟩ | ⟨-, hterm, -⟩⟩ := h
  · by_cases hterm : o.status.isTerminal
    · exact .inl hterm
    · have hactive : o.status.isActive := by
        rw [OrderStatus.isActive_eq_not_isTerminal]
        simpa using hterm
      rcases (OrderStatus.isActive_iff _).mp hactive with hunc | hcreated
      · exact absurd hunc (hcertain o ho hrun).1
      · exact .inr hcreated
  · exact .inl (hterm o ho hrun)

/-- And of its legs: what they had filled is undone. -/
theorem FailGuard.undone {taskId runId : Nat} {db : Database} (hundoing : Undoing db)
    (h : FailGuard taskId runId db) {l : ExecutionTaskLegRow}
    (hl : l ∈ db.legs) (htask : l.taskId = taskId) :
    filledBaseOf (db.ordersOfRun runId) l.id .primary
      = filledBaseOf (db.ordersOfRun runId) l.id .compensation := by
  obtain ⟨⟨r, hr, hrtask⟩, t, ht, ⟨hphase, hnothing⟩ | ⟨-, -, hundone⟩⟩ := h
  · obtain ⟨hrmem, hrid⟩ := Table.find?_some hr
    have hprimary : filledBaseOf (db.ordersOfRun runId) l.id .primary = 0 := by
      refine List.sum_eq_zero fun x hx => ?_
      obtain ⟨o, ho, rfl⟩ := List.mem_map.mp hx
      obtain ⟨ho, hp⟩ := List.mem_filter.mp ho
      rw [decide_eq_true_eq] at hp
      obtain ⟨hmem, hrun⟩ := mem_ordersOfRun.mp ho
      show o.filledQuantity * o.baseMultiplier = 0
      rw [(hnothing o hmem hrun).2 hp.2, zero_mul]
    have hnone : (db.ordersOfRun runId).filter
        (fun o => o.taskLegId = l.id ∧ o.purpose = .compensation) = [] := by
      refine List.filter_eq_nil_iff.mpr fun o ho hp => ?_
      rw [decide_eq_true_eq] at hp
      obtain ⟨hmem, hrun⟩ := mem_ordersOfRun.mp ho
      obtain ⟨t', ht', hpast⟩ := hundoing o hmem hp.2 r hrmem (hrid.trans hrun.symm)
      rw [hrtask, ht] at ht'
      cases ht'
      rcases hphase with hphase | hphase <;> rw [hphase] at hpast <;> cases hpast
    unfold filledBaseOf at hprimary ⊢
    rw [hprimary, hnone]
    rfl
  · exact hundone l hl htask

/-- A task is failed without a manual review only when nothing of it is left at
the exchange and every leg is undone, in runs that `Accountable` allows. -/
theorem abandoned_flat {v : Venue} {taskId runId : Nat} {code worker : String}
    {k : Except Exc Unit → Worker PassResult} {r : Except Exc Unit}
    (hs : VenueReachable num workerId Accountable
      ⟨v, some (.call (.db (.failRun taskId runId code worker false)) k)⟩)
    (ha : Accountable v (.call (.db (.failRun taskId runId code worker false)) r)) :
    Flat v taskId runId := by
  have hplain := System.Reach.project (venue_projects num) (fun _ h => VenueInitial.world h) hs
  have hguard : FailGuard taskId runId v.world.db := Reachable.pre hplain
  have hended := hs.ended
  refine ⟨fun o ho hrun => ?_, fun o ho hrun => ?_, fun l hl htask => ?_⟩
  · rcases hguard.ended_or_created ho hrun with hterm | hcreated
    · exact (hended o ho hterm).1
    · intro s hst
      rw [ha.2 runId rfl o ho hrun hcreated] at hst
      cases hst
  · rcases hguard.ended_or_created ho hrun with hterm | hcreated
    · exact (hended o ho hterm).2.le
    · unfold Venue.executed
      rw [ha.2 runId rfl o ho hrun hcreated]
      exact o.filled_check.1
  · exact hguard.undone (Reachable.undoing hplain) hl htask

/-! ## §5. Concrete runs. -/

/-- The task and run the worker is about to fail without a manual review. -/
def abandoning (s : VenueState) : Option (Nat × Nat) :=
  match s.pass with
  | some (.call (.db (.failRun taskId runId _ _ false)) _) => some (taskId, runId)
  | _ => none

/-- A run is about to be abandoned where the worker is about to fail it without
a review. -/
theorem VenueReachable.abandoning {allow : Venue → Label Op Rep VenueAct → Prop} {s : VenueState}
    (hs : VenueReachable num workerId allow s) {taskId runId : Nat}
    (h : abandoning s = some (taskId, runId)) :
    ∃ code worker k, VenueReachable num workerId allow
      ⟨s.world, some (.call (.db (.failRun taskId runId code worker false)) k)⟩ := by
  obtain ⟨v, p⟩ := s
  unfold MultiLeg.abandoning at h
  split at h
  · next code worker k hpass =>
      cases h
      obtain rfl : p = _ := hpass
      exact ⟨code, worker, k, hs⟩
  · cases h

namespace Sample

/-- The answers of a pass at the exchange without any market data. -/
def unquotedAnswers : (o : Op) → Venue → Rep o × Venue
  | .out (.latestOpportunities _), v => (.ok [], v)
  | o, v => venueAnswers "a" 0 o v

/-- The answers of the sample are answers that the venue can give. -/
theorem exec_unquotedAnswers (o : Op) (v : Venue) :
    (venue numeric).exec o v (unquotedAnswers o v).1 (unquotedAnswers o v).2 := by
  cases o with
  | db o => exact exec_venueAnswers "a" 0 (.db o) v
  | out o =>
      cases o with
      | latestOpportunities exchange => exact ⟨rfl, trivial, rfl⟩
      | _ => exact exec_venueAnswers "a" 0 (.out _) v

/-- A failure. -/
def isFail : Op → Bool
  | .db (.failRun ..) => true
  | _ => false

/-- The record of a submission. -/
def isMarkSubmitted : Op → Bool
  | .db (.markSubmitted ..) => true
  | _ => false

/-- A pass without market data, up to the failure of its task. -/
def failing (v : Venue) : VenueState :=
  System.play unquotedAnswers isFail (runOnce numeric "worker") v

/-- The worker crashes after the exchange has taken the anchor order up. -/
def accepted : VenueState :=
  System.play (venueAnswers "a" 0) isMarkSubmitted (runOnce numeric "worker")
    (venuePass "a" 0 atVenue)

/-- The condition speaks only of orders that a step records as ended and of runs
that a step abandons. -/
theorem accountable_of_none {v : Venue} {l : Label Op Rep VenueAct} (hrecorded : recorded l = none)
    (habandoned : abandonedRun l = none) : Accountable v l := by
  unfold Accountable
  rw [hrecorded, habandoned]
  refine ⟨fun ob hob => ?_, fun cid hcid => ?_⟩
  · cases hob
  · cases hcid

theorem accountable_free (v : Venue) : Accountable v .start ∧ Accountable v .crash :=
  ⟨accountable_of_none rfl rfl, accountable_of_none rfl rfl⟩

end Sample

/-- An anchor order that was created and never submitted is given up. -/
theorem abandoned_flat_created :
    ∃ v taskId runId, (∃ o ∈ v.world.db.orders, o.runId = runId ∧ o.status = .created)
      ∧ Flat v taskId runId := by
  have h₀ : VenueReachable Sample.numeric "worker" Accountable ⟨Sample.atVenue, none⟩ :=
    Sample.venueReached_atVenue fun _ _ => Sample.accountable_of_none rfl rfl
  have h₁ := System.Reach.run h₀ (Sample.venueRunsTo_pass "a" 0 Sample.accountable_free
    (by decide +kernel))
  have h₂ : VenueReachable Sample.numeric "worker" Accountable
      (Sample.failing (Sample.venuePass "a" 0 Sample.atVenue)) :=
    System.Reach.run h₁ (System.Run.pass Sample.exec_unquotedAnswers (Sample.accountable_free _).1
      (by decide +kernel))
  obtain ⟨code, worker, k, hs⟩ := h₂.abandoning (by decide +kernel :
    abandoning (Sample.failing (Sample.venuePass "a" 0 Sample.atVenue)) = some (0, 3))
  have hnone : ∀ o ∈ (Sample.failing (Sample.venuePass "a" 0 Sample.atVenue)).world.world.db.orders,
      o.runId = 3 → o.status = .created →
        (Sample.failing (Sample.venuePass "a" 0 Sample.atVenue)).world.standing o.clientOrderId
          = none := by decide +kernel
  refine ⟨_, 0, 3, by decide +kernel,
    abandoned_flat hs (r := .ok ()) ⟨fun ob hob => ?_, fun runId hrun => ?_⟩⟩
  · cases hob
  · cases hrun
    exact hnone

/-- The anchor order has reached the exchange; the worker gives its task up
while it is live. -/
theorem abandoned_live :
    ¬∀ v taskId runId code worker k, VenueReachable Sample.numeric "worker" System.anyStep
        ⟨v, some (.call (.db (.failRun taskId runId code worker false)) k)⟩ →
      Flat v taskId runId := by
  intro h
  have h₀ : VenueReachable Sample.numeric "worker" System.anyStep ⟨Sample.atVenue, none⟩ :=
    Sample.venueReached_atVenue fun _ _ => trivial
  have h₁ := System.Reach.run h₀ (Sample.venueRunsTo_pass "a" 0 Sample.venue_anyStep_free
    (by decide +kernel))
  have h₂ : VenueReachable Sample.numeric "worker" System.anyStep Sample.accepted :=
    System.Reach.run h₁ (System.Run.pass (Sample.exec_venueAnswers "a" 0) trivial
      (by decide +kernel))
  have h₃ := System.Reach.run h₂ (System.Run.leave (System.play_isSome _ _) trivial)
  have h₄ : VenueReachable Sample.numeric "worker" System.anyStep
      (Sample.failing ((venue Sample.numeric).idle Sample.accepted.world)) :=
    System.Reach.run h₃ (System.Run.pass Sample.exec_unquotedAnswers trivial (by decide +kernel))
  obtain ⟨code, worker, k, hs⟩ := h₄.abandoning (by decide +kernel : abandoning
    (Sample.failing ((venue Sample.numeric).idle Sample.accepted.world)) = some (0, 3))
  have hlive : ∃ o ∈ (Sample.failing ((venue Sample.numeric).idle
      Sample.accepted.world)).world.world.db.orders, o.runId = 3
        ∧ ¬(Sample.failing ((venue Sample.numeric).idle Sample.accepted.world)).world.Over
          o.clientOrderId := by decide +kernel
  obtain ⟨o, ho, hrun, hlive⟩ := hlive
  exact hlive ((h _ _ _ _ _ _ hs).ended o ho hrun)

end BasisHawk.MultiLeg
