/-
  BasisHawk.MultiLeg.Restoring
  ────────────────────────────
  What the orders of a leg do to the position sides of the account.

  A perpetual request names a position side and, through its reduce-only flag,
  whether it opens or reduces that side.  A compensation order is reduce-only on
  every perpetual leg, so it reduces the side that an opening primary order has
  opened; of a reduce-only primary order it would have to be an opening.

  Main results:
    • `stamped_kept` — side and reduce-only flag of every order, by its purpose,
    • `compensation_restores` — compensating in full restores every balance
      exactly on spot legs and on legs that are not reduce-only,
    • `compensation_reduces_other_side` — a leg that ends up reduced twice.
-/
import BasisHawk.MultiLeg.GuardedPass

namespace BasisHawk.MultiLeg

open Domain Lib Accounts Database

variable {num : Numeric} {workerId : String}

/-! ## §1. What a fill does. -/

/-- The balances of one base asset and symbol. -/
structure Balances where
  spot : ℚ
  long : ℚ
  short : ℚ
  deriving DecidableEq

/-- A balance. -/
inductive Book where
  | spot | long | short
  deriving DecidableEq

/-- The balances changed in one of them. -/
def Balances.add (b : Balances) (book : Book) (x : ℚ) : Balances :=
  match book with
  | .spot => { b with spot := b.spot + x }
  | .long => { b with long := b.long + x }
  | .short => { b with short := b.short + x }

@[simp] theorem Balances.add_zero (b : Balances) (book : Book) : b.add book 0 = b := by
  cases book <;> simp [Balances.add]

/-- Two changes of one book add up. -/
theorem Balances.add_add (b : Balances) (book : Book) (x y : ℚ) :
    (b.add book x).add book y = b.add book (x + y) := by
  cases book <;> simp [Balances.add, add_assoc]

/-- Changes of different books do not get in each other's way, so the order of
the fills does not matter. -/
theorem Balances.add_comm (b : Balances) (book book' : Book) (x y : ℚ) :
    (b.add book x).add book' y = (b.add book' y).add book x := by
  cases book <;> cases book' <;> simp [Balances.add, add_right_comm]

/-- The balance of a position side. -/
def sideBook : PerpPositionSide → Book
  | .long => .long
  | .short => .short

/-- The balance a request addresses.  A perpetual request of the executor always
names its position side. -/
def addressed (r : PrivateOrderRequest) : Option Book :=
  match r.market with
  | .spot => some .spot
  | .perp => r.positionSide.map sideBook

/-- Whether a request adds to it. -/
def addsTo (r : PrivateOrderRequest) : Bool :=
  match r.market with
  | .spot => r.side == .buy
  | .perp => !r.reduceOnly

/-- `+1` for an addition, `-1` for a reduction. -/
def unit (adds : Bool) : ℚ := if adds then 1 else -1

/-- A fill of a request. -/
def Balances.fill (b : Balances) (r : PrivateOrderRequest) (base : ℚ) : Balances :=
  match addressed r with
  | some book => b.add book (unit (addsTo r) * base)
  | none => b

/-- The second request addresses what the first one does, the other way. -/
def Undoes (first second : PrivateOrderRequest) : Prop :=
  addressed second = addressed first ∧ addsTo second = !addsTo first

/-! ## §2. The direction of an order. -/

/-- The side of a leg's orders of the purpose. -/
def purposeSide (leg : ExecutionTaskLegRow) : Purpose → Side
  | .primary => leg.side
  | .compensation => reverseSide leg.side

/-- Their reduce-only flag. -/
def purposeReduces (leg : ExecutionTaskLegRow) : Purpose → Bool
  | .primary => leg.reduceOnly
  | .compensation => decide (leg.marketType = .perpetual)

/-- An order has the direction of its purpose. -/
def Directed (leg : ExecutionTaskLegRow) (purpose : Purpose) (side : Side) (reduceOnly : Bool) :
    Prop :=
  side = purposeSide leg purpose ∧ reduceOnly = purposeReduces leg purpose

/-- The direction of an order is read off the plan of its leg, which does not
change. -/
theorem Directed.of_planned {leg leg' : ExecutionTaskLegRow} {purpose : Purpose} {side : Side}
    {reduceOnly : Bool} (h : Directed leg purpose side reduceOnly) (hp : leg'.planned = leg.planned) :
    Directed leg' purpose side reduceOnly := by
  have hside : leg'.side = leg.side := (congrArg (·.side) hp : leg'.planned.side = leg.planned.side)
  have hreduce : leg'.reduceOnly = leg.reduceOnly :=
    (congrArg (·.reduceOnly) hp : leg'.planned.reduceOnly = leg.planned.reduceOnly)
  have hmarket : leg'.marketType = leg.marketType :=
    (congrArg (·.marketType) hp : leg'.planned.marketType = leg.planned.marketType)
  obtain ⟨hs, hr⟩ := h
  cases purpose with
  | primary => exact ⟨hs.trans hside.symm, hr.trans hreduce.symm⟩
  | compensation =>
      refine ⟨hs.trans ?_, hr.trans ?_⟩
      · show reverseSide leg.side = reverseSide leg'.side
        rw [hside]
      · show decide (leg.marketType = .perpetual) = decide (leg'.marketType = .perpetual)
        rw [hmarket]

/-- Every order has the direction of its purpose. -/
def Stamped (db : Database) : Prop :=
  ∀ o ∈ db.orders, ∀ l ∈ db.legs, l.id = o.taskLegId → Directed l o.purpose o.side o.reduceOnly

/-- Other actors create no orders. -/
theorem Stamped.other {w : World} (hwf : WellFormed w.db) (h : Stamped w.db) (a : Act) :
    Stamped (a.apply w).db := by
  intro o ho l hl hid
  rw [(act_frame a w).2.1] at ho
  rcases act_legs a l hl with hl | ⟨hfresh, -⟩
  · exact h o ho l hl hid
  · exact absurd hid.symm (hwf.leg_of_order_ne hfresh o ho)

/-- An attempt has the direction of its purpose. -/
theorem ChoiceGuard.directed {a : OrderAttempt} {w : World} (hwf : WellFormed w.db)
    (h : ChoiceGuard a w) {l : ExecutionTaskLegRow} (hl : l ∈ w.db.legs) (hid : l.id = a.taskLegId) :
    Directed l a.purpose a.side a.reduceOnly := by
  obtain ⟨c, legs, leg, base, pair, -, hcarries, hleg, -, hlid, -, -, -, hchoice⟩ := h
  obtain ⟨⟨row, hrow, hplanned, -, -⟩, -⟩ := hcarries.tracks leg hleg
  obtain rfl : row = l := by
    refine hwf.legs_unique.eq hrow hl ?_
    show row.id = l.id
    rw [hid, hlid]
    exact planned_id hplanned
  refine Directed.of_planned ?_ hplanned
  unfold Directed
  cases hp : a.purpose with
  | primary =>
      rw [hp] at hchoice
      exact ⟨hchoice.1, hchoice.2.1⟩
  | compensation =>
      rw [hp] at hchoice
      exact ⟨hchoice.1, hchoice.2.1⟩

/-- The worker creates orders with the side and the reduce-only mark of their
purpose, and no transaction changes either. -/
theorem Stamped.tx {o : DbOp} {w : World} {r : o.Result} {db' : Database}
    (hok : o.tx num w.ambient w.db = .ok (r, db')) (hpre : Pre (.db o) w) (hwf : WellFormed w.db)
    (h : Stamped w.db) : Stamped db' := by
  -- Every leg was planned the way it still is.
  have hlegs : ∀ l ∈ db'.legs, ∃ l₀ ∈ w.db.legs, l.planned = l₀.planned := by
    intro l hl
    rcases DbOp.legsEffect hok hl with hl | ⟨-, l₀, hl₀, hplanned, -⟩
    · exact ⟨l, hl, rfl⟩
    · exact ⟨l₀, hl₀, hplanned⟩
  have hold : ∀ x ∈ w.db.orders, ∀ l ∈ db'.legs, l.id = x.taskLegId →
      Directed l x.purpose x.side x.reduceOnly := by
    intro x hx l hl hid
    obtain ⟨l₀, hl₀, hplanned⟩ := hlegs l hl
    exact (h x hx l₀ hl₀ ((planned_id hplanned).symm.trans hid)).of_planned hplanned
  have hkept : ∀ {old new : ExecutionOrderRow}, old ∈ w.db.orders → SameOrder old new →
      ∀ l ∈ db'.legs, l.id = new.taskLegId → Directed l new.purpose new.side new.reduceOnly := by
    intro old new hmem hsame l hl hid
    rw [hsame.purpose, hsame.side, hsame.reduceOnly]
    exact hold old hmem l hl (hid.trans hsame.taskLegId)
  intro x hx l hl hid
  cases DbOp.ordersEffect hok with
  | same heq => exact hold x (heq ▸ hx) l hl hid
  | created heq _ hleg _ hpurpose _ _ _ _ _ hside hreduce =>
      rw [heq] at hx
      rcases List.mem_append.mp hx with hx | hx
      · exact hold x hx l hl hid
      · obtain rfl := List.mem_singleton.mp hx
        obtain ⟨l₀, hl₀, hplanned⟩ := hlegs l hl
        rw [hpurpose, hside, hreduce]
        refine (hpre.2.directed hwf hl₀ ?_).of_planned hplanned
        rw [← hleg, ← hid]
        exact (planned_id hplanned).symm
  | marked heq hmem hsame _ _ _ _ =>
      rw [heq] at hx
      rcases Table.mem_put.mp hx with ⟨rfl, -⟩ | ⟨hx, -⟩
      · exact hkept hmem hsame l hl hid
      · exact hold x hx l hl hid
  | observed heq hmem _ hsame _ _ _ _ _ =>
      rw [heq] at hx
      rcases Table.mem_put.mp hx with ⟨rfl, -⟩ | ⟨hx, -⟩
      · exact hkept hmem hsame l hl hid
      · exact hold x hx l hl hid

/-- The step lemma for a whole run. -/
theorem stamped_kept {allow : World → Label Op Rep Act → Prop} :
    Kept num allow fun w => Stamped w.db where
  act := fun a w _ hwf h => h.other hwf a
  db := fun o w r db' hc _ hpre hwf h => by
    rcases commit_cases hc with ⟨a, rfl, hok⟩ | ⟨e, -, -, rfl⟩
    · exact h.tx hok hpre hwf
    · exact h
  out := fun _ _ _ _ _ _ h => h
  idle := fun _ h => h

/-- In every reachable state each order is directed as its purpose says. -/
theorem Reachable.stamped {allow : World → Label Op Rep Act → Prop} {s : State}
    (hs : Reachable num workerId allow s) : Stamped s.world.db :=
  stamped_kept.reachable (fun w hw o ho => by rw [hw.orders] at ho; cases ho) hs

/-! ## §3. The balances after a compensation. -/

/-- A fill of one of the leg's orders, submitted on some snapshot. -/
structure LegFill where
  order : ExecutionOrderRow
  snapshot : AccountSnapshot
  base : ℚ

/-- The request whose fill it is. -/
def LegFill.request (leg : ExecutionTaskLegRow) (f : LegFill) : PrivateOrderRequest :=
  requestFor leg f.order f.snapshot (requestedMargin leg)

/-- The base that the fills of one purpose add up to. -/
def totalOf (purpose : Purpose) (fills : List LegFill) : ℚ :=
  ((fills.filter (·.order.purpose = purpose)).map (·.base)).sum

/-- The balances after the fills. -/
def executed (leg : ExecutionTaskLegRow) (fills : List LegFill) (b : Balances) : Balances :=
  fills.foldl (fun b f => b.fill (f.request leg) f.base) b

/-- The fills leave every balance as it was, and every compensation order of the
leg undoes what a primary one does. -/
structure Restores (db : Database) (leg : ExecutionTaskLegRow) (fills : List LegFill) : Prop where
  balances : ∀ b, executed leg fills b = b
  undoes : ∀ o ∈ db.orders, ∀ o' ∈ db.orders, o.taskLegId = leg.id → o'.taskLegId = leg.id →
    o.purpose = .primary → o'.purpose = .compensation → ∀ snapshot snapshot',
      Undoes (requestFor leg o snapshot (requestedMargin leg))
        (requestFor leg o' snapshot' (requestedMargin leg))

/-- The balance that the orders of a purpose address. -/
def purposeBook (leg : ExecutionTaskLegRow) (purpose : Purpose) : Book :=
  match leg.marketType with
  | .spot => .spot
  | .perpetual => sideBook (positionSide (purposeSide leg purpose) (purposeReduces leg purpose))

/-- Whether they add to it. -/
def purposeAdds (leg : ExecutionTaskLegRow) (purpose : Purpose) : Bool :=
  match leg.marketType with
  | .spot => purposeSide leg purpose == .buy
  | .perpetual => !purposeReduces leg purpose

/-- What is sent for an order addresses the book of its leg and adds to it or
takes from it, as its purpose says. -/
theorem addressed_requestFor {leg : ExecutionTaskLegRow} {o : ExecutionOrderRow}
    (h : Directed leg o.purpose o.side o.reduceOnly) (snapshot : AccountSnapshot)
    (margin : PerpMarginMode) :
    addressed (requestFor leg o snapshot margin) = some (purposeBook leg o.purpose)
      ∧ addsTo (requestFor leg o snapshot margin) = purposeAdds leg o.purpose := by
  obtain ⟨hside, hreduce⟩ := h
  unfold addressed addsTo requestFor purposeBook purposeAdds
  rw [hside, hreduce]
  cases leg.marketType <;> exact ⟨rfl, rfl⟩

/-- A fill moves the balance of its book by its base quantity, up or down. -/
theorem fill_request {leg : ExecutionTaskLegRow} {f : LegFill}
    (h : Directed leg f.order.purpose f.order.side f.order.reduceOnly) (b : Balances) :
    b.fill (f.request leg) f.base
      = b.add (purposeBook leg f.order.purpose) (unit (purposeAdds leg f.order.purpose) * f.base) := by
  obtain ⟨hbook, hadds⟩ := addressed_requestFor h f.snapshot (requestedMargin leg)
  unfold Balances.fill LegFill.request
  rw [hbook, hadds]

/-- The total of a purpose, one fill more. -/
theorem totalOf_cons (purpose : Purpose) (f : LegFill) (fills : List LegFill) :
    totalOf purpose (f :: fills)
      = (if f.order.purpose = purpose then f.base else 0) + totalOf purpose fills := by
  unfold totalOf
  by_cases h : f.order.purpose = purpose
  · rw [List.filter_cons_of_pos (by simpa using h), if_pos h, List.map_cons, List.sum_cons]
  · rw [List.filter_cons_of_neg (by simpa using h), if_neg h, zero_add]

/-- The fills of one leg come down to two changes, one for each purpose. -/
theorem executed_eq {leg : ExecutionTaskLegRow} {fills : List LegFill}
    (h : ∀ f ∈ fills, Directed leg f.order.purpose f.order.side f.order.reduceOnly) (b : Balances) :
    executed leg fills b
      = (b.add (purposeBook leg .primary)
            (unit (purposeAdds leg .primary) * totalOf .primary fills)).add
          (purposeBook leg .compensation)
            (unit (purposeAdds leg .compensation) * totalOf .compensation fills) := by
  induction fills generalizing b with
  | nil => simp [executed, totalOf]
  | cons f fills ih =>
      have ih := ih (fun g hg => h g (List.mem_cons_of_mem _ hg))
      show executed leg fills (b.fill (f.request leg) f.base) = _
      rw [ih, fill_request (h f List.mem_cons_self), totalOf_cons, totalOf_cons]
      cases hp : f.order.purpose with
      | primary =>
          rw [if_pos rfl, if_neg (by decide), zero_add, Balances.add_add, ← mul_add]
      | compensation =>
          rw [if_neg (by decide), if_pos rfl, zero_add, Balances.add_comm b, Balances.add_add,
            ← mul_add]

/-- The orders of the two purposes undo each other exactly on spot legs and on
legs that are not reduce-only. -/
theorem purposes_undo_iff (leg : ExecutionTaskLegRow) :
    (purposeBook leg .compensation = purposeBook leg .primary
        ∧ purposeAdds leg .compensation = !purposeAdds leg .primary)
      ↔ leg.marketType = .spot ∨ leg.reduceOnly = false := by
  unfold purposeBook purposeAdds purposeSide purposeReduces
  cases leg.marketType <;> cases leg.side <;> cases leg.reduceOnly <;> decide

/-- Changes of two balances that cancel out. -/
theorem add_add_eq_iff {book book' : Book} {x y : ℚ} (hx : x ≠ 0) :
    (∀ b : Balances, (b.add book x).add book' y = b) ↔ book' = book ∧ x + y = 0 := by
  constructor
  · intro h
    have h := h ⟨0, 0, 0⟩
    cases book <;> cases book' <;> simp_all [Balances.add]
  · rintro ⟨rfl, hsum⟩ b
    rw [Balances.add_add, hsum, Balances.add_zero]

theorem unit_ne_zero (adds : Bool) : unit adds ≠ 0 := by
  cases adds <;> norm_num [unit]

/-- A purchase and a sale cancel, two of the same direction do not. -/
theorem unit_add_eq_zero_iff (adds adds' : Bool) :
    unit adds + unit adds' = 0 ↔ adds' = !adds := by
  cases adds <;> cases adds' <;> norm_num [unit]

/-- When the compensation orders of a leg have filled what its primary orders
had, every balance is what it was before — exactly on spot legs and on legs
that are not reduce-only. -/
theorem compensation_restores {s : State} (hs : Reachable num workerId System.anyStep s)
    {leg : ExecutionTaskLegRow} (hleg : leg ∈ s.world.db.legs) {fills : List LegFill}
    (hfills : ∀ f ∈ fills, f.order ∈ s.world.db.orders ∧ f.order.taskLegId = leg.id) {base : ℚ}
    (hprimary : totalOf .primary fills = base) (hcompensation : totalOf .compensation fills = base)
    (hbase : 0 < base) :
    Restores s.world.db leg fills ↔ leg.marketType = .spot ∨ leg.reduceOnly = false := by
  -- Every order is stamped with the side and the flag of its purpose.
  have hdirected : ∀ o ∈ s.world.db.orders, o.taskLegId = leg.id →
      Directed leg o.purpose o.side o.reduceOnly :=
    fun o ho hid => hs.stamped o ho leg hleg hid.symm
  have hexecuted := @executed_eq leg fills
    fun f hf => hdirected f.order (hfills f hf).1 (hfills f hf).2
  rw [hprimary, hcompensation] at hexecuted
  have hne : unit (purposeAdds leg .primary) * base ≠ 0 :=
    mul_ne_zero (unit_ne_zero _) hbase.ne'
  -- Both purposes have traded `base`, so only the signs and the books decide.
  have hbalances : (∀ b, executed leg fills b = b)
      ↔ purposeBook leg .compensation = purposeBook leg .primary
        ∧ purposeAdds leg .compensation = !purposeAdds leg .primary := by
    simp only [hexecuted]
    rw [add_add_eq_iff hne, ← add_mul, mul_eq_zero, or_iff_left hbase.ne', unit_add_eq_zero_iff]
  rw [← purposes_undo_iff, ← hbalances]
  -- The orders of one purpose all address the same book in the same direction.
  refine ⟨fun h => h.balances, fun h => ⟨h, ?_⟩⟩
  intro o ho o' ho' hid hid' hp hp' snapshot snapshot'
  obtain ⟨hbook, hadds⟩ := hbalances.mp h
  obtain ⟨hb, ha⟩ := addressed_requestFor (hdirected o ho hid) snapshot (requestedMargin leg)
  obtain ⟨hb', ha'⟩ := addressed_requestFor (hdirected o' ho' hid') snapshot' (requestedMargin leg)
  rw [hp] at hb ha
  rw [hp'] at hb' ha'
  refine ⟨?_, ?_⟩
  · rw [hb, hb', hbook]
  · rw [ha, ha', hadds]

/-! ## §4. Concrete runs. -/

namespace Sample

/-- A perpetual buy of four units as the anchor. -/
def perpAnchor (reduceOnly : Bool) : ExecutionTaskLegRow :=
  { anchor with
    marketType := .perpetual, marginMode := some .isolated, reduceOnly := reduceOnly
    margin_check := .inr ⟨rfl, rfl, by decide, by decide⟩ }

def perpPlan (reduceOnly : Bool) : TaskPlan where
  task := task
  legs := [perpAnchor reduceOnly, hedge]
  leg_count := ⟨le_refl 2, (by decide : 2 ≤ 16)⟩
  one_anchor := by cases reduceOnly <;> decide

/-- The task is planned, preflighted and queued. -/
def perpQueued (reduceOnly : Bool) : World :=
  Act.apply (.queue 0 2) (Act.apply (.preflightReady 0 1 100)
    (Act.apply (.createTask (perpPlan reduceOnly)) empty))

/-- The anchor is filled, no quote can be had for the hedge, and the order that
undoes the anchor is created. -/
def perpUndone (reduceOnly : Bool) : World :=
  pass (absent "c") (pass { absent "b" with quoted := false } (pass (known "a" "filled" 4 4)
    (pass (absent "a") (pass (absent "a") (perpQueued reduceOnly)))))

theorem reached_perpUndone (reduceOnly : Bool) :
    Reached System.anyStep ⟨perpUndone reduceOnly, none⟩ := by
  have hact : ∀ a w, RunsTo System.anyStep ⟨w, none⟩ ⟨Act.apply a w, none⟩ :=
    fun a w => runsTo_act a trivial
  have hpass : ∀ v w, RunsTo System.anyStep ⟨w, none⟩ ⟨pass v w, none⟩ :=
    fun v w => runsTo_pass v anyStep_free (System.follows_anyStep _ w)
  have h₀ := ((hact (.createTask (perpPlan reduceOnly)) empty).trans
    (hact (.preflightReady 0 1 100) _)).trans (hact (.queue 0 2) _)
  have h₁ := ((h₀.trans (hpass (absent "a") _)).trans (hpass (absent "a") _)).trans
    (hpass (known "a" "filled" 4 4) _)
  have h₂ := (h₁.trans (hpass { absent "b" with quoted := false } _)).trans (hpass (absent "c") _)
  exact System.Reach.run reached_empty h₂

/-- Each order of the leg filled with four units. -/
def fourEach (db : Database) (legId : Nat) : List LegFill :=
  (db.orders.filter (·.taskLegId = legId)).map fun o => ⟨o, snapshot, 4⟩

theorem mem_fourEach {db : Database} {legId : Nat} {f : LegFill} (h : f ∈ fourEach db legId) :
    f.order ∈ db.orders ∧ f.order.taskLegId = legId := by
  obtain ⟨o, ho, rfl⟩ := List.mem_map.mp h
  obtain ⟨hmem, hid⟩ := List.mem_filter.mp ho
  exact ⟨hmem, of_decide_eq_true hid⟩

end Sample

/-- A reduce-only buy reduces the short side; the reduce-only sell that is to
undo it reduces the long side. -/
theorem compensation_reduces_other_side :
    ∃ s leg fills, Sample.Reached System.anyStep s ∧ leg ∈ s.world.db.legs
      ∧ (∀ f ∈ fills, f.order ∈ s.world.db.orders ∧ f.order.taskLegId = leg.id)
      ∧ totalOf .primary fills = 4 ∧ totalOf .compensation fills = 4
      ∧ ¬Restores s.world.db leg fills := by
  obtain ⟨leg, hleg, hid, hbad, hp, hc⟩ := (by decide +kernel :
    ∃ leg ∈ (Sample.perpUndone true).db.legs, leg.id = 1
      ∧ executed leg (Sample.fourEach (Sample.perpUndone true).db 1) ⟨0, 0, 0⟩ = ⟨0, -4, -4⟩
      ∧ totalOf .primary (Sample.fourEach (Sample.perpUndone true).db 1) = 4
      ∧ totalOf .compensation (Sample.fourEach (Sample.perpUndone true).db 1) = 4)
  have hfills : ∀ f ∈ Sample.fourEach (Sample.perpUndone true).db 1,
      f.order ∈ (Sample.perpUndone true).db.orders ∧ f.order.taskLegId = leg.id := by
    intro f hf
    rw [hid]
    exact Sample.mem_fourEach hf
  refine ⟨⟨Sample.perpUndone true, none⟩, leg, _, Sample.reached_perpUndone true, hleg, hfills, hp, hc,
    fun h => ?_⟩
  have hstart := h.balances ⟨0, 0, 0⟩
  rw [hbad] at hstart
  exact absurd hstart (by decide)

/-- An opening leg is restored. -/
theorem compensation_restores_opening :
    ∃ s leg fills, Sample.Reached System.anyStep s ∧ leg ∈ s.world.db.legs
      ∧ leg.marketType = .perpetual ∧ totalOf .primary fills = 4
      ∧ totalOf .compensation fills = 4 ∧ Restores s.world.db leg fills := by
  obtain ⟨leg, hleg, hid, hperp, hopens, hp, hc⟩ := (by decide +kernel :
    ∃ leg ∈ (Sample.perpUndone false).db.legs, leg.id = 1 ∧ leg.marketType = .perpetual
      ∧ leg.reduceOnly = false
      ∧ totalOf .primary (Sample.fourEach (Sample.perpUndone false).db 1) = 4
      ∧ totalOf .compensation (Sample.fourEach (Sample.perpUndone false).db 1) = 4)
  have hfills : ∀ f ∈ Sample.fourEach (Sample.perpUndone false).db 1,
      f.order ∈ (Sample.perpUndone false).db.orders ∧ f.order.taskLegId = leg.id := by
    intro f hf
    rw [hid]
    exact Sample.mem_fourEach hf
  exact ⟨⟨Sample.perpUndone false, none⟩, leg, _, Sample.reached_perpUndone false, hleg, hperp, hp, hc,
    (compensation_restores (Sample.reached_perpUndone false) hleg hfills hp hc (by norm_num)).mpr
      (.inr hopens)⟩

end BasisHawk.MultiLeg
