/-
  BasisHawk.MultiLeg.TradeLag
  ───────────────────────────
  What the multi-leg executor really trades, when the trade lists of the
  exchange may lag behind.

  The size of the next order comes from the recorded fills, the end of an order
  from its status.  `Venue` adds to the worker's world what the exchange has
  really executed; no operation reads it, but the exchange's answers are
  consistent with it.

  Main results:
    • `executed_le_target` — no leg is executed beyond its resolved quantity,
      in runs in which every order ends with all of its trades listed,
    • `executed_beyond_target` — an order that ends with its trades not listed
      yet is traded a second time.
-/
import Mathlib.Data.List.Perm.Basic
import BasisHawk.MultiLeg.GuardedPass

namespace BasisHawk.MultiLeg

open Domain Lib Accounts Database

variable {num : Numeric} {workerId : String}

/-! ## §1. The exchange. -/

/-- What the exchange knows of one client order id. -/
structure Standing where
  quantity : ℚ
  trades : List RemoteFill
  ended : Bool

/-- What has really been executed. -/
def Standing.executed (s : Standing) : ℚ := (s.trades.map (·.quantity)).sum

/-- The worker's world next to the truth of the exchange. -/
structure Venue where
  world : World
  standing : String → Option Standing

namespace Venue

/-- What has really been executed under a client order id. -/
def executed (v : Venue) (clientOrderId : String) : ℚ :=
  match v.standing clientOrderId with
  | some s => s.executed
  | none => 0

/-- The trades under a client order id. -/
def trades (v : Venue) (clientOrderId : String) : List RemoteFill :=
  match v.standing clientOrderId with
  | some s => s.trades
  | none => []

/-- The exchange takes an order up, unless it knows the client order id. -/
def place (v : Venue) (request : PrivateOrderRequest) : String → Option Standing :=
  Function.update v.standing request.clientOrderId
    (some ((v.standing request.clientOrderId).getD ⟨request.quantity, [], false⟩))

end Venue

/-- A status word after which nothing is executed any more. -/
def reportsEnd (status : String) : Bool :=
  normalizeStatus status ∈ ["filled", "closed", "done", "canceled", "cancelled"]

/-- The answers the exchange may give: an order reported at its end has ended,
and a complete list of trades may leave some out, but adds none. -/
def Consistent (v : Venue) : (o : OutOp) → Except Exc o.Answer → Prop
  | .orderByClientId _ _ _ clientOrderId, .ok lookup =>
      ∀ remote ∈ lookup.order, reportsEnd remote.status →
        ∃ s, v.standing clientOrderId = some s ∧ s.ended
  | .fillsForOrder _ ref _, .ok batch =>
      batch.complete → batch.fills.Subperm (v.trades ref.clientOrderId)
  | _, _ => True

/-- What the exchange knows after an operation: an order whose submission
raised may have arrived or not. -/
def Settles (v : Venue) : (o : OutOp) → Except Exc o.Answer → (String → Option Standing) → Prop
  | .placeOrder _ request, .ok _, standing => standing = v.place request
  | .placeOrder _ request, .error _, standing =>
      standing = v.standing ∨ standing = v.place request
  | _, _, standing => standing = v.standing

/-- The other actors, and the exchange executing and ending orders. -/
inductive VenueAct where
  | other (a : Act)
  | execute (clientOrderId : String) (trade : RemoteFill)
  | close (clientOrderId : String)

/-- An order is executed within its quantity, and not after its end. -/
def venueEnv : VenueAct → Venue → Venue → Prop
  | .other a, v, v' => v' = { v with world := a.apply v.world }
  | .execute cid trade, v, v' =>
      ∃ s, v.standing cid = some s ∧ s.ended = false ∧ 0 < trade.quantity
        ∧ s.executed + trade.quantity ≤ s.quantity
        ∧ v' = { v with standing :=
            Function.update v.standing cid (some { s with trades := s.trades ++ [trade] }) }
  | .close cid, v, v' =>
      ∃ s, v.standing cid = some s
        ∧ v' = { v with standing := Function.update v.standing cid (some { s with ended := true }) }

def venueExec (num : Numeric) : (o : Op) → Venue → Rep o → Venue → Prop
  | .db o, v, r, v' => exec num (.db o) v.world r v'.world ∧ v'.standing = v.standing
  | .out o, v, r, v' =>
      exec num (.out o) v.world r v'.world ∧ Consistent v o r ∧ Settles v o r v'.standing

/-- The worker, the other actors and the exchange. -/
def venue (num : Numeric) : System Op Rep VenueAct Venue where
  exec := venueExec num
  env := venueEnv
  idle := fun v => { v with world := { v.world with pass := .idle } }

/-- Without the truth of the exchange this is the worker's system. -/
theorem venue_projects (num : Numeric) : System.Projects (venue num) (system num) Venue.world where
  act := by
    intro a v v' h
    cases a with
    | other a =>
        rw [show v' = { v with world := a.apply v.world } from h]
        exact .single ⟨a, rfl⟩
    | execute cid trade =>
        obtain ⟨s, -, -, -, -, rfl⟩ := h
        exact .refl
    | close cid =>
        obtain ⟨s, -, rfl⟩ := h
        exact .refl
  call := by
    intro o v r v' h
    cases o with
    | db o => exact h.1
    | out o => exact h.1
  idle := fun _ => rfl

/-- No task has been planned and no order placed yet. -/
structure VenueInitial (v : Venue) : Prop where
  world : Initial v.world
  standing : ∀ cid, v.standing cid = none

/-- The configurations of the worker at the exchange. -/
abbrev VenueState : Type := Config Op Rep Exc PassResult Venue

/-- The configurations reached by runs whose every step is allowed. -/
abbrev VenueReachable (num : Numeric) (workerId : String)
    (allow : Venue → Label Op Rep VenueAct → Prop) : VenueState → Prop :=
  (venue num).Reach (runOnce num workerId) VenueInitial allow

/-! ## §2. The condition and the bound. -/

/-- The observation a step records. -/
def recorded : Label Op Rep VenueAct → Option Observation
  | .call (.db (.observe ob)) (.ok _) => some ob
  | _ => none

/-- The order a step executes. -/
def executedOrder : Label Op Rep VenueAct → Option String
  | .act (.execute cid _) => some cid
  | _ => none

/-- Whenever a primary order's end is recorded, the trades just listed are all
that has been executed; and nothing is executed after a recorded end. -/
def FullyListed (v : Venue) (l : Label Op Rep VenueAct) : Prop :=
  (∀ ob ∈ recorded l, ob.status.isTerminal → ∀ o ∈ v.world.db.orders, o.id = ob.orderId →
      o.purpose = .primary → v.executed o.clientOrderId = ob.filledQuantity)
    ∧ ∀ cid ∈ executedOrder l, ∀ o ∈ v.world.db.orders, o.clientOrderId = cid →
      o.purpose = .primary → ¬o.status.isTerminal

instance (v : Venue) (l : Label Op Rep VenueAct) : Decidable (FullyListed v l) :=
  inferInstanceAs (Decidable ((∀ ob ∈ recorded l, _ → ∀ o ∈ v.world.db.orders, _)
    ∧ ∀ cid ∈ executedOrder l, ∀ o ∈ v.world.db.orders, _))

/-- The order is a primary order of the leg. -/
def ExecutionOrderRow.isPrimaryOf (legId : Nat) (o : ExecutionOrderRow) : Prop :=
  o.taskLegId = legId ∧ o.purpose = .primary

instance (legId : Nat) : DecidablePred (ExecutionOrderRow.isPrimaryOf legId) :=
  fun o => inferInstanceAs (Decidable (o.taskLegId = legId ∧ o.purpose = .primary))

/-- The base quantity a leg's primary orders have really executed. -/
def Venue.executedBase (v : Venue) (legId : Nat) : ℚ :=
  (v.world.db.orders.map fun o =>
    if o.isPrimaryOf legId then v.executed o.clientOrderId * o.baseMultiplier else 0).sum

/-- What an order may still come to: what it has filled once it has ended, all
of it before. -/
def ExecutionOrderRow.commitment (o : ExecutionOrderRow) : ℚ :=
  if o.status.isTerminal then o.filledBase else o.quantity * o.baseMultiplier

/-- The order's share of a leg's commitment. -/
def ExecutionOrderRow.commitmentTo (legId : Nat) (o : ExecutionOrderRow) : ℚ :=
  if o.isPrimaryOf legId then o.commitment else 0

theorem ExecutionOrderRow.commitmentTo_nonneg (legId : Nat) (o : ExecutionOrderRow) :
    0 ≤ o.commitmentTo legId := by
  unfold ExecutionOrderRow.commitmentTo ExecutionOrderRow.commitment
  split
  · split
    · exact o.filledBase_nonneg
    · exact mul_nonneg o.quantity_check.1.le o.quantity_check.2.le
  · exact le_refl 0

/-- What a leg's primary orders may still come to. -/
def committed (db : Database) (legId : Nat) : ℚ :=
  (db.orders.map (·.commitmentTo legId)).sum

/-- A leg's orders stay within its target; before it has one there are none. -/
def WithinTarget (db : Database) (l : ExecutionTaskLegRow) : Prop :=
  match l.resolvedBaseQuantity with
  | some t => committed db l.id ≤ t
  | none => ∀ o ∈ db.orders, ¬o.isPrimaryOf l.id

/-- The tables account for what the exchange has executed. -/
structure Accounted (v : Venue) : Prop where
  known : ∀ cid s, v.standing cid = some s →
    ∃ o ∈ v.world.db.orders, o.clientOrderId = cid ∧ s.quantity = o.quantity
  bounded : ∀ cid s, v.standing cid = some s → s.executed ≤ s.quantity
  settled : ∀ o ∈ v.world.db.orders, o.purpose = .primary → o.status.isTerminal →
    v.executed o.clientOrderId = o.filledQuantity
  within : ∀ l ∈ v.world.db.legs, WithinTarget v.world.db l

/-! ## §3. The tables. -/

/-- The orders of a leg are those of the one run of its task. -/
theorem mem_current {db : Database} (hwf : WellFormed db) {c : Claimed} (hcur : Current c db)
    {l : ExecutionTaskLegRow} (hl : l ∈ db.legs) (htask : l.taskId = c.task.id)
    {o : ExecutionOrderRow} (ho : o ∈ db.orders) (hleg : o.taskLegId = l.id) :
    o ∈ c.orders ∧ o.runId = c.run.id := by
  obtain ⟨run, hrun, hruntask⟩ := hcur.run
  obtain ⟨hrunmem, hrunid⟩ := Table.find?_some hrun
  obtain ⟨r, hr, l', hl', hrid, hlid, hltask⟩ := hwf.order_owner o ho
  obtain rfl : l' = l := hwf.legs_unique.eq hl' hl (hlid.trans hleg)
  have hsame : r = run := hwf.run_of_task r hr run hrunmem (by rw [← hltask, htask, hruntask])
  have horun : o.runId = c.run.id := by
    rw [← hrid, hsame]
    exact hrunid
  rw [← hcur.orders]
  exact ⟨mem_ordersOfRun.mpr ⟨ho, horun⟩, horun⟩

/-- What the pass has read of a leg is what the table holds. -/
theorem filledBaseOf_current {db : Database} (hwf : WellFormed db) {c : Claimed}
    (hcur : Current c db) {l : ExecutionTaskLegRow} (hl : l ∈ db.legs)
    (htask : l.taskId = c.task.id) (purpose : Purpose) :
    filledBaseOf c.orders l.id purpose = filledBaseOf db.orders l.id purpose := by
  rw [← hcur.orders, filledBaseOf_ordersOfRun]
  unfold filledBaseOf
  rw [List.filter_filter]
  congr 2
  refine List.filter_congr fun o ho => ?_
  by_cases hleg : o.taskLegId = l.id
  · rw [decide_eq_true (mem_current hwf hcur hl htask ho hleg).2, Bool.and_true]
  · rw [decide_eq_false fun h => hleg h.1, Bool.false_and]

/-- What a leg's primary orders have filled. -/
abbrev filledOf (db : Database) (legId : Nat) : ℚ := filledBaseOf db.orders legId .primary

/-- The order's share of what its leg has filled. -/
def ExecutionOrderRow.filledTo (legId : Nat) (o : ExecutionOrderRow) : ℚ :=
  if o.isPrimaryOf legId then o.filledBase else 0

/-- The filled quantity of a leg is the sum over its orders. -/
theorem filledOf_eq (db : Database) (legId : Nat) :
    filledOf db legId = (db.orders.map (·.filledTo legId)).sum := by
  unfold filledOf filledBaseOf
  rw [Table.sum_filter]
  refine congrArg List.sum (List.map_congr_left fun o _ => ?_)
  unfold ExecutionOrderRow.filledTo
  by_cases h : o.isPrimaryOf legId
  · rw [if_pos h]
    exact if_pos (decide_eq_true h)
  · rw [if_neg h]
    exact if_neg fun hp => h (of_decide_eq_true hp)

/-- When all orders of a leg's run have ended, the leg's commitment is what
they have filled. -/
theorem committed_eq_filled {db : Database} (hwf : WellFormed db) {c : Claimed}
    (hcur : Current c db) {l : ExecutionTaskLegRow} (hl : l ∈ db.legs)
    (htask : l.taskId = c.task.id) (hterm : ∀ o ∈ c.orders, o.status.isTerminal) :
    committed db l.id = filledBaseOf c.orders l.id .primary := by
  rw [filledBaseOf_current hwf hcur hl htask]
  refine Eq.trans ?_ (filledOf_eq db l.id).symm
  refine congrArg List.sum (List.map_congr_left fun o ho => ?_)
  unfold ExecutionOrderRow.commitmentTo ExecutionOrderRow.filledTo ExecutionOrderRow.commitment
  by_cases hp : o.isPrimaryOf l.id
  · rw [if_pos hp, if_pos hp, if_pos (hterm o (mem_current hwf hcur hl htask ho hp.1).1)]
  · rw [if_neg hp, if_neg hp]

/-- An order of another leg, or one that unwinds, commits nothing to this one.
-/
theorem commitmentTo_of_ne {legId : Nat} {o : ExecutionOrderRow} (h : ¬o.isPrimaryOf legId) :
    o.commitmentTo legId = 0 := if_neg h

/-- An order that is written stays on its leg and keeps its purpose. -/
theorem SameOrder.isPrimaryOf_iff {old new : ExecutionOrderRow} (h : SameOrder old new)
    (legId : Nat) : new.isPrimaryOf legId ↔ old.isPrimaryOf legId := by
  unfold ExecutionOrderRow.isPrimaryOf
  rw [h.taskLegId, h.purpose]

/-- An observation is applied to an order that was open when the pass read it.
-/
theorem observed_open {ob : Observation} {w : World} (hwf : WellFormed w.db)
    (h : ObserveGuard ob w) {o : ExecutionOrderRow} (ho : o ∈ w.db.orders)
    (hid : o.id = ob.orderId) : o.status.isTerminal = false := by
  have hactive := observed_active hwf h ho hid
  rw [OrderStatus.isActive_eq_not_isTerminal] at hactive
  simpa using hactive

/-- A marking keeps the commitment of an order. -/
theorem commitment_marked {old new : ExecutionOrderRow} (hsame : SameOrder old new)
    (hold : old.status.isTerminal = false) (hnew : new.status.isTerminal = false) :
    new.commitment = old.commitment := by
  unfold ExecutionOrderRow.commitment
  rw [hnew, hold, hsame.quantity, hsame.baseMultiplier, if_neg Bool.false_ne_true,
    if_neg Bool.false_ne_true]

/-- An observation does not raise it. -/
theorem commitment_observed {old new : ExecutionOrderRow} (hsame : SameOrder old new)
    (hold : old.status.isTerminal = false) (hfilled : new.filledQuantity ≤ old.quantity) :
    new.commitment ≤ old.commitment := by
  unfold ExecutionOrderRow.commitment
  rw [hold, if_neg Bool.false_ne_true]
  by_cases hterm : new.status.isTerminal
  · rw [if_pos hterm]
    unfold ExecutionOrderRow.filledBase
    rw [hsame.baseMultiplier]
    exact mul_le_mul_of_nonneg_right hfilled old.quantity_check.2.le
  · rw [if_neg hterm, hsame.quantity, hsame.baseMultiplier]

/-- An order that changes its row without raising its commitment raises no leg's. -/
theorem committed_put {db db' : Database} (hwf : WellFormed db) {old new : ExecutionOrderRow}
    (hold : old ∈ db.orders) (hsame : SameOrder old new) (hle : new.commitment ≤ old.commitment)
    (heq : db'.orders = Table.put db.orders new) (legId : Nat) :
    committed db' legId ≤ committed db legId := by
  have hshare : new.commitmentTo legId ≤ old.commitmentTo legId := by
    unfold ExecutionOrderRow.commitmentTo
    by_cases hp : old.isPrimaryOf legId
    · rw [if_pos ((hsame.isPrimaryOf_iff _).mpr hp), if_pos hp]
      exact hle
    · rw [if_neg fun h => hp ((hsame.isPrimaryOf_iff _).mp h), if_neg hp]
  have hsum : committed db' legId
      = committed db legId - old.commitmentTo legId + new.commitmentTo legId := by
    unfold committed
    rw [heq]
    exact Table.sum_put _ hwf.orders_unique hold hsame.id.symm
  linarith

/-- An order that changes its row makes no leg's first one. -/
theorem noOrder_put {db db' : Database} {old new : ExecutionOrderRow} (hold : old ∈ db.orders)
    (hsame : SameOrder old new) (heq : db'.orders = Table.put db.orders new) {legId : Nat}
    (h : ∀ o ∈ db.orders, ¬o.isPrimaryOf legId) : ∀ o ∈ db'.orders, ¬o.isPrimaryOf legId := by
  intro o ho
  rw [heq] at ho
  rcases Table.mem_put.mp ho with ⟨rfl, -⟩ | ⟨ho, -⟩
  · exact fun hp => h old hold ((hsame.isPrimaryOf_iff _).mp hp)
  · exact h o ho

/-- Such an order keeps every leg within its target. -/
theorem WithinTarget.put {db db' : Database} (hwf : WellFormed db) {l : ExecutionTaskLegRow}
    (h : WithinTarget db l) {old new : ExecutionOrderRow} (hold : old ∈ db.orders)
    (hsame : SameOrder old new) (hle : new.commitment ≤ old.commitment)
    (heq : db'.orders = Table.put db.orders new) : WithinTarget db' l := by
  unfold WithinTarget at h ⊢
  cases hres : l.resolvedBaseQuantity with
  | none =>
      rw [hres] at h
      exact noOrder_put hold hsame heq h
  | some t =>
      rw [hres] at h
      exact (committed_put hwf hold hsame hle heq l.id).trans h

/-- A leg the other actors add has no orders yet. -/
theorem WithinTarget.other {w : World} (hwf : WellFormed w.db)
    (h : ∀ l ∈ w.db.legs, WithinTarget w.db l) (a : Act) :
    ∀ l ∈ (a.apply w).db.legs, WithinTarget (a.apply w).db l := by
  intro l hl
  unfold WithinTarget committed
  rw [(act_frame a w).2.1]
  rcases act_legs a l hl with hl | ⟨hfresh, hnone⟩
  · exact h l hl
  · rw [hnone]
    exact fun o ho hp => hwf.leg_of_order_ne hfresh o ho hp.1

/-- What a transaction does to the legs keeps them within their targets, given
that the orders stay. -/
theorem WithinTarget.legs {o : DbOp} {amb : Ambient} {r : o.Result} {db db' : Database}
    (hok : o.tx num amb db = .ok (r, db')) (horders : db'.orders = db.orders)
    (h : ∀ l ∈ db.legs, WithinTarget db l) : ∀ l ∈ db'.legs, WithinTarget db' l := by
  have hkeep : ∀ l, WithinTarget db l → WithinTarget db' l := by
    intro l hl
    unfold WithinTarget committed at hl ⊢
    rw [horders]
    exact hl
  intro l hl
  rcases DbOp.legsEffect hok hl with hl | ⟨-, old, hold, hplanned, hnone, base, hpos, hres⟩
  · exact hkeep l (h l hl)
  · have hid := planned_id hplanned
    -- A leg is resolved before it has any order.
    have hnoorder := h old hold
    unfold WithinTarget at hnoorder ⊢
    rw [hnone] at hnoorder
    rw [hres]
    have hzero : committed db' l.id = 0 := by
      unfold committed
      rw [horders]
      refine List.sum_eq_zero fun x hx => ?_
      obtain ⟨o, ho, rfl⟩ := List.mem_map.mp hx
      rw [hid]
      exact commitmentTo_of_ne (hnoorder o ho)
    show committed db' l.id ≤ num.store base
    rw [hzero]
    exact num.store_nonneg base hpos.le

/-! ## §4. The steps. -/

/-- Placing an order executes nothing. -/
theorem executed_place {v v' : Venue} {request : PrivateOrderRequest}
    (h : v'.standing = v.place request) (cid : String) : v'.executed cid = v.executed cid := by
  unfold Venue.executed
  rw [h]
  unfold Venue.place
  by_cases hc : cid = request.clientOrderId
  · subst hc
    rw [Function.update_self]
    cases v.standing request.clientOrderId with
    | none => rfl
    | some s => rfl
  · rw [Function.update_of_ne hc]

/-- What is recorded of an order whose end has not been recorded is at most what
it was placed for. -/
theorem Accounted.executed_le {v : Venue} (hwf : WellFormed v.world.db) (h : Accounted v)
    {o : ExecutionOrderRow} (ho : o ∈ v.world.db.orders) :
    v.executed o.clientOrderId ≤ o.quantity := by
  unfold Venue.executed
  cases hs : v.standing o.clientOrderId with
  | none => exact o.quantity_check.1.le
  | some s =>
      obtain ⟨o', ho', hcid, hquantity⟩ := h.known _ s hs
      have hsame : o' = o := List.inj_on_of_nodup_map hwf.client_ids ho' ho hcid
      rw [← hsame, ← hquantity]
      exact h.bounded _ s hs

/-- The exchange changes what it knows of one order: its quantity stays, it is
not executed beyond that, and once its end is recorded not at all. -/
theorem Accounted.update {v : Venue} (h : Accounted v) {cid : String} {s s' : Standing}
    (hs : v.standing cid = some s) (hquantity : s'.quantity = s.quantity)
    (hle : s'.executed ≤ s'.quantity)
    (hkeep : s'.executed = s.executed ∨ ∀ o ∈ v.world.db.orders, o.clientOrderId = cid →
      o.purpose = .primary → ¬o.status.isTerminal) :
    Accounted { v with standing := Function.update v.standing cid (some s') } := by
  -- Another order stands where it stood.
  have hcases : ∀ cid₁ s₁, Function.update v.standing cid (some s') cid₁ = some s₁ →
      (cid₁ = cid ∧ s₁ = s') ∨ v.standing cid₁ = some s₁ := by
    intro cid₁ s₁ h₁
    by_cases hc : cid₁ = cid
    · rw [hc, Function.update_self] at h₁
      injection h₁ with h₁
      exact .inl ⟨hc, h₁.symm⟩
    · rw [Function.update_of_ne hc] at h₁
      exact .inr h₁
  refine ⟨?_, ?_, ?_, h.within⟩
  · intro cid₁ s₁ h₁
    rcases hcases cid₁ s₁ h₁ with ⟨rfl, rfl⟩ | h₁
    · rw [hquantity]
      exact h.known cid₁ s hs
    · exact h.known cid₁ s₁ h₁
  · intro cid₁ s₁ h₁
    rcases hcases cid₁ s₁ h₁ with ⟨rfl, rfl⟩ | h₁
    · exact hle
    · exact h.bounded cid₁ s₁ h₁
  · -- An order that is recorded as ended has executed what was recorded.
    intro o ho hp hterm
    have hbefore := h.settled o ho hp hterm
    unfold Venue.executed at hbefore ⊢
    show (match Function.update v.standing cid (some s') o.clientOrderId with
      | some s => s.executed
      | none => 0) = o.filledQuantity
    by_cases hc : o.clientOrderId = cid
    · rw [hc, hs] at hbefore
      rw [hc, Function.update_self]
      show s'.executed = o.filledQuantity
      rcases hkeep with hkeep | hnone
      · rw [hkeep]
        exact hbefore
      · exact absurd hterm (hnone o ho hc hp)
    · rw [Function.update_of_ne hc]
      exact hbefore

/-- The other actors keep the account. -/
theorem Accounted.other {v : Venue} (hwf : WellFormed v.world.db) (h : Accounted v) (a : Act) :
    Accounted { v with world := a.apply v.world } := by
  have horders : (a.apply v.world).db.orders = v.world.db.orders := (act_frame a v.world).2.1
  refine ⟨?_, h.bounded, ?_, ?_⟩
  · intro cid s hs
    show ∃ o ∈ (a.apply v.world).db.orders, _
    rw [horders]
    exact h.known cid s hs
  · intro o ho
    exact h.settled o (horders ▸ ho)
  · exact WithinTarget.other hwf h.within a

/-- The other actors and the exchange keep the account. -/
theorem Accounted.act {a : VenueAct} {v v' : Venue} (henv : venueEnv a v v')
    (ha : FullyListed v (.act a)) (hwf : WellFormed v.world.db) (h : Accounted v) :
    Accounted v' := by
  cases a with
  | other a =>
      obtain rfl : v' = { v with world := a.apply v.world } := henv
      exact h.other hwf a
  | execute cid trade =>
      obtain ⟨s, hs, -, -, hle, rfl⟩ := henv
      refine h.update hs rfl ?_ (.inr (ha.2 cid rfl))
      unfold Standing.executed at hle ⊢
      rw [List.map_append, List.sum_append]
      simpa using hle
  | close cid =>
      obtain ⟨s, hs, rfl⟩ := henv
      exact h.update hs rfl (h.bounded cid s hs) (.inl rfl)

/-- A new primary order fits into what its leg is short of. -/
theorem WithinTarget.create {w : World} {a : OrderAttempt} (hwf : WellFormed w.db)
    (hpre : CreateGuard a w) {row : ExecutionOrderRow} {db' : Database}
    (heq : db'.orders = w.db.orders ++ [row]) (hleg : row.taskLegId = a.taskLegId)
    (hpurpose : row.purpose = a.purpose) (hstatus : row.status = .created)
    (hquantity : row.quantity = a.quantity) (hmultiplier : row.baseMultiplier = a.baseMultiplier)
    {l : ExecutionTaskLegRow} (hl : l ∈ w.db.legs) (h : WithinTarget w.db l) :
    WithinTarget db' l := by
  obtain ⟨c, leg, -, hcur, -, hlegmem, hlegid, hlegtask, hterm, hguard⟩ := hpre
  -- The guard of a creation bounds what its own leg has committed; other legs keep theirs.
  by_cases hp : row.isPrimaryOf l.id
  · obtain rfl : leg = l := by
      refine hwf.legs_unique.eq hlegmem hl ?_
      show leg.id = l.id
      rw [hlegid, ← hleg]
      exact hp.1
    rw [← hpurpose, hp.2] at hguard
    obtain ⟨-, t, ht, hfits⟩ := hguard
    rw [← committed_eq_filled hwf hcur hl hlegtask hterm] at hfits
    unfold WithinTarget
    rw [ht]
    show committed db' leg.id ≤ t
    unfold committed at hfits ⊢
    rw [heq, List.map_append, List.sum_append, List.map_singleton, List.sum_singleton]
    have hshare : row.commitmentTo leg.id = a.quantity * a.baseMultiplier := by
      unfold ExecutionOrderRow.commitmentTo ExecutionOrderRow.commitment
      rw [if_pos hp, hstatus, hquantity, hmultiplier]
      rfl
    rw [hshare]
    exact hfits
  · unfold WithinTarget at h ⊢
    cases hres : l.resolvedBaseQuantity with
    | none =>
        rw [hres] at h
        intro o ho
        rw [heq] at ho
        rcases List.mem_append.mp ho with ho | ho
        · exact h o ho
        · rw [List.mem_singleton.mp ho]
          exact hp
    | some t =>
        rw [hres] at h
        show committed db' l.id ≤ t
        unfold committed
        rw [heq, List.map_append, List.sum_append, List.map_singleton, List.sum_singleton,
          commitmentTo_of_ne hp, add_zero]
        exact h

/-- Another version of an order row keeps the account: its commitment does not
grow, and if it has ended, what it has filled is what was executed. -/
theorem Accounted.putOrder {v : Venue} (hwf : WellFormed v.world.db) (h : Accounted v)
    {old new : ExecutionOrderRow} (hold : old ∈ v.world.db.orders) (hsame : SameOrder old new)
    (hle : new.commitment ≤ old.commitment)
    (hsettled : new.purpose = .primary → new.status.isTerminal →
      v.executed new.clientOrderId = new.filledQuantity)
    {db' : Database} {pass : Pass} (horders : db'.orders = Table.put v.world.db.orders new)
    (hlegs : ∀ l ∈ db'.legs, l ∈ v.world.db.legs) :
    Accounted { v with world := { v.world with db := db', pass := pass } } := by
  refine ⟨?_, h.bounded, ?_, ?_⟩
  · intro cid s hs
    obtain ⟨o, ho, hcid, hquantity⟩ := h.known cid s hs
    show ∃ o ∈ db'.orders, _
    rw [horders]
    by_cases ho' : o = old
    · rw [ho'] at hcid hquantity
      exact ⟨new, Table.mem_put.mpr (.inl ⟨rfl, old, hold, hsame.id.symm⟩),
        hsame.clientOrderId.trans hcid, hquantity.trans hsame.quantity.symm⟩
    · exact ⟨o, (Table.mem_put_of_unique hwf.orders_unique hold hsame.id.symm).mpr (.inr ⟨ho, ho'⟩),
        hcid, hquantity⟩
  · intro o ho hp hterm
    rw [show db'.orders = _ from horders] at ho
    rcases Table.mem_put.mp ho with ⟨rfl, -⟩ | ⟨ho, -⟩
    · exact hsettled hp hterm
    · exact h.settled o ho hp hterm
  · intro l hl
    exact (h.within l (hlegs l hl)).put hwf hold hsame hle horders

/-- A new order keeps the account: the exchange does not know it yet. -/
theorem Accounted.create {v : Venue} (hwf : WellFormed v.world.db) (h : Accounted v)
    {a : OrderAttempt} (hpre : CreateGuard a v.world) {row : ExecutionOrderRow} {db' : Database}
    {pass : Pass} (heq : db'.orders = v.world.db.orders ++ [row])
    (hleg : row.taskLegId = a.taskLegId) (hpurpose : row.purpose = a.purpose)
    (hstatus : row.status = .created) (hquantity : row.quantity = a.quantity)
    (hmultiplier : row.baseMultiplier = a.baseMultiplier)
    (hlegs : ∀ l ∈ db'.legs, l ∈ v.world.db.legs) :
    Accounted { v with world := { v.world with db := db', pass := pass } } := by
  refine ⟨?_, h.bounded, ?_, ?_⟩
  · intro cid s hs
    obtain ⟨o, ho, hrest⟩ := h.known cid s hs
    refine ⟨o, ?_, hrest⟩
    show o ∈ db'.orders
    rw [heq]
    exact List.mem_append.mpr (.inl ho)
  · intro o ho hp hterm
    rw [show db'.orders = _ from heq] at ho
    rcases List.mem_append.mp ho with ho | ho
    · exact h.settled o ho hp hterm
    · rw [List.mem_singleton.mp ho, hstatus] at hterm
      cases hterm
  · intro l hl
    exact WithinTarget.create hwf hpre heq hleg hpurpose hstatus hquantity hmultiplier
      (hlegs l hl) (h.within l (hlegs l hl))

/-- The transactions of the worker keep the account. -/
theorem Accounted.tx {o : DbOp} {v : Venue} {r : o.Result} {db' : Database} {pass : Pass}
    (hok : o.tx num v.world.ambient v.world.db = .ok (r, db'))
    (ha : FullyListed v (.call (.db o) (.ok r))) (hpre : Pre (.db o) v.world)
    (hwf : WellFormed v.world.db) (h : Accounted v) :
    Accounted { v with world := { v.world with db := db', pass := pass } } := by
  by_cases horders : db'.orders = v.world.db.orders
  · refine ⟨?_, h.bounded, ?_, WithinTarget.legs hok horders h.within⟩
    · intro cid s hs
      show ∃ o ∈ db'.orders, _
      rw [horders]
      exact h.known cid s hs
    · intro o ho
      exact h.settled o (horders ▸ ho)
  · -- A transaction that writes to the orders leaves the legs alone.
    have hlegs : ∀ l ∈ db'.legs, l ∈ v.world.db.legs := by
      intro l hl
      rcases DbOp.legsEffect hok hl with hl | ⟨heq, -⟩
      · exact hl
      · exact absurd heq horders
    cases DbOp.ordersEffect hok with
    | same heq => exact absurd heq horders
    | created heq hrun hleg hcid hpurpose hst hquantity hmultiplier hfilled =>
        exact h.create hwf hpre.1 heq hleg hpurpose hst hquantity hmultiplier hlegs
    | @marked _ _ _ old new heq hmem hsame hactive hst hfilled _ =>
        have hnew : new.status.isTerminal = false := by
          rcases hst with hst | hst | hst <;> rw [hst] <;> rfl
        refine h.putOrder hwf hmem hsame (commitment_marked hsame hactive hnew).le (fun _ hterm => ?_)
          heq hlegs
        rw [hnew] at hterm
        cases hterm
    | @observed ob _ _ old new heq hmem hid hsame hst _ hfilled hbounds _ =>
        refine h.putOrder hwf hmem hsame (commitment_observed hsame (observed_open hwf hpre hmem hid)
          (hfilled.trans_le hbounds.2)) (fun hp hterm => ?_) heq hlegs
        rw [hst] at hterm
        rw [hsame.clientOrderId, hfilled]
        exact ha.1 ob rfl hterm old hmem hid (hsame.purpose.symm.trans hp)

/-- The account speaks of the tables and the exchange only. -/
theorem Accounted.pass {v : Venue} (h : Accounted v) (pass : Pass) :
    Accounted { v with world := { v.world with pass := pass } } :=
  ⟨h.known, h.bounded, h.settled, h.within⟩

/-- Placing an order of the tables keeps the account. -/
theorem Accounted.place {v : Venue} (h : Accounted v) {request : PrivateOrderRequest}
    {x : ExecutionOrderRow} (hx : x ∈ v.world.db.orders)
    (hcid : request.clientOrderId = x.clientOrderId) (hquantity : request.quantity = x.quantity) :
    Accounted { v with standing := v.place request } := by
  -- Placing again an order that the exchange knows changes nothing.
  have hcases : ∀ cid s, v.place request cid = some s →
      v.standing cid = some s ∨ (cid = request.clientOrderId ∧ s = ⟨request.quantity, [], false⟩) := by
    intro cid s hs
    unfold Venue.place at hs
    by_cases hc : cid = request.clientOrderId
    · subst hc
      rw [Function.update_self] at hs
      injection hs with hs
      cases hst : v.standing request.clientOrderId with
      | some s₀ =>
          rw [hst] at hs
          exact .inl (congrArg some hs)
      | none =>
          rw [hst] at hs
          exact .inr ⟨rfl, hs.symm⟩
    · rw [Function.update_of_ne hc] at hs
      exact .inl hs
  refine ⟨?_, ?_, ?_, h.within⟩
  · intro cid s hs
    rcases hcases cid s hs with hs | ⟨rfl, rfl⟩
    · exact h.known cid s hs
    · exact ⟨x, hx, hcid.symm, hquantity⟩
  · intro cid s hs
    rcases hcases cid s hs with hs | ⟨rfl, rfl⟩
    · exact h.bounded cid s hs
    · show (0 : ℚ) ≤ request.quantity
      rw [hquantity]
      exact x.quantity_check.1.le
  · intro o ho hp hterm
    rw [executed_place (v := v) rfl]
    exact h.settled o ho hp hterm

/-- The worker's calls to the exchange keep the account. -/
theorem Accounted.out {o : OutOp} {v v' : Venue} {r : Except Exc o.Answer}
    (hexec : venueExec num (.out o) v r v') (hpre : Pre (.out o) v.world) (h : Accounted v) :
    Accounted v' := by
  obtain ⟨hworld, -, hsettles⟩ := hexec
  obtain ⟨world', standing'⟩ := v'
  obtain rfl : world' = { v.world with pass := v.world.pass.heard o r } := hworld
  have hkeep : standing' = v.standing →
      Accounted ⟨{ v.world with pass := v.world.pass.heard o r }, standing'⟩ := by
    rintro rfl
    exact h.pass (v.world.pass.heard o r)
  cases o with
  | placeOrder client request =>
      obtain ⟨c, x, leg, snapshot, -, hcur, hx, -, -, -, hreq⟩ := hpre
      have hx' : x ∈ v.world.db.orders := by
        rw [← hcur.orders] at hx
        exact (mem_ordersOfRun.mp hx).1
      have hplace : standing' = v.place request → Accounted ⟨{ v.world with
          pass := v.world.pass.heard (.placeOrder client request) r }, standing'⟩ := by
        rintro rfl
        exact (h.place hx' (by rw [hreq]; rfl) (by rw [hreq]; rfl)).pass _
      cases r with
      | ok submission => exact hplace hsettles
      | error e =>
          rcases hsettles with heq | heq
          · exact hkeep heq
          · exact hplace heq
  | _ => exact hkeep hsettles

/-! ## §5. Every run. -/

/-- The books and the venue agree where neither has seen an order. -/
theorem accounted_initial {v : Venue} (h : VenueInitial v) : Accounted v where
  known := fun cid s hs => by rw [h.standing cid] at hs; cases hs
  bounded := fun cid s hs => by rw [h.standing cid] at hs; cases hs
  settled := fun o ho => by rw [h.world.orders] at ho; cases ho
  within := fun l hl => by rw [h.world.legs] at hl; cases hl

theorem VenueReachable.wellFormed {allow : Venue → Label Op Rep VenueAct → Prop} {s : VenueState}
    (hs : VenueReachable num workerId allow s) : WellFormed s.world.world.db :=
  Reachable.wellFormed
    (System.Reach.project (venue_projects num) (fun _ h => VenueInitial.world h) hs)

theorem VenueReachable.accounted {s : VenueState}
    (hs : VenueReachable num workerId FullyListed s) : Accounted s.world := by
  refine System.Reach.history (venue_projects num) (wellFormed_preserved num Pre)
    (fun _ h => wellFormed_initial h) (fun w _ => runOnce_guarded workerId w)
    (fun _ h => VenueInitial.world h) (fun _ h => accounted_initial h)
    (fun a v v' henv ha hwf h => h.act henv ha hwf) ?_ (fun v h => h.pass .idle) hs
  intro o v r v' hexec ha hpre hwf h
  cases o with
  | db o =>
      obtain ⟨⟨db', hc, hworld⟩, hstanding⟩ := hexec
      obtain ⟨world', standing'⟩ := v'
      obtain rfl : standing' = v.standing := hstanding
      obtain rfl : world' = _ := hworld
      rcases commit_cases hc with ⟨a, rfl, hok⟩ | ⟨e, rfl, -, rfl⟩
      · exact h.tx hok ha hpre hwf
      · exact h.pass _
  | out o => exact h.out hexec hpre

/-- No leg is executed beyond its resolved quantity, in runs in which every
order ends with all of its trades listed. -/
theorem executed_le_target {s : VenueState} (hs : VenueReachable num workerId FullyListed s)
    {leg : ExecutionTaskLegRow} (hleg : leg ∈ s.world.world.db.legs) {t : ℚ}
    (ht : leg.resolvedBaseQuantity = some t) : s.world.executedBase leg.id ≤ t := by
  have hacc := hs.accounted
  have hwf := hs.wellFormed
  have hwithin : committed s.world.world.db leg.id ≤ t := by
    have := hacc.within leg hleg
    unfold WithinTarget at this
    rw [ht] at this
    exact this
  refine le_trans (List.sum_le_sum fun o ho => ?_) hwithin
  unfold ExecutionOrderRow.commitmentTo
  by_cases hp : o.isPrimaryOf leg.id
  · rw [if_pos hp, if_pos hp]
    unfold ExecutionOrderRow.commitment
    by_cases hterm : o.status.isTerminal
    · rw [if_pos hterm, hacc.settled o ho hp.2 hterm]
      exact le_refl _
    · rw [if_neg hterm]
      exact mul_le_mul_of_nonneg_right (hacc.executed_le hwf ho) o.quantity_check.2.le
  · rw [if_neg hp, if_neg hp]

/-! ## §6. Concrete runs. -/

namespace Sample

/-- The exchange answers from what it knows, listing the first trades only. -/
def venueOutside (token : String) (listed : Nat) (v : Venue) : (o : OutOp) → Except Exc o.Answer
  | .orderByClientId _ _ _ cid => .ok ⟨(v.standing cid).map fun s =>
      ⟨"1", some cid, "spot", "BTCUSDT", "buy", if s.ended then "filled" else "open", 100,
        s.quantity, s.executed, false⟩, true, none⟩
  | .fillsForOrder _ ref _ => .ok ⟨(v.trades ref.clientOrderId).take listed, true, none⟩
  | o => outside (absent token) o

/-- The answers of a pass at the exchange. -/
def venueAnswers (token : String) (listed : Nat) : (o : Op) → Venue → Rep o × Venue
  | .db o, v =>
      let r := commit (o.tx numeric v.world.ambient) v.world.db
      (r.1, { v with world := { v.world with db := r.2, pass := v.world.pass.wrote o r.1 } })
  | .out o, v =>
      let r := venueOutside token listed v o
      (r, ⟨{ v.world with pass := v.world.pass.heard o r },
        match o with
        | .placeOrder _ request => v.place request
        | _ => v.standing⟩)

/-- The answers of the sample are answers that the venue can give. -/
theorem exec_venueAnswers (token : String) (listed : Nat) (o : Op) (v : Venue) :
    (venue numeric).exec o v (venueAnswers token listed o v).1 (venueAnswers token listed o v).2 := by
  cases o with
  | db o => exact ⟨⟨_, rfl, rfl⟩, rfl⟩
  | out o =>
      cases o with
      | orderByClientId client market symbol cid =>
          refine ⟨rfl, ?_, rfl⟩
          rintro remote hremote hend
          obtain ⟨s, hs, rfl⟩ := Option.map_eq_some_iff.mp hremote
          refine ⟨s, hs, ?_⟩
          by_contra hopen
          rw [show s.ended = false by simpa using hopen] at hend
          have hword : reportsEnd "open" = false := by decide
          rw [show reportsEnd "open" = true from hend] at hword
          cases hword
      | fillsForOrder client ref since =>
          exact ⟨rfl, fun _ => (List.take_sublist _ _).subperm, rfl⟩
      | _ => exact ⟨rfl, trivial, rfl⟩

/-- One whole pass at the exchange. -/
def venuePass (token : String) (listed : Nat) (v : Venue) : Venue :=
  (venue numeric).idle (System.play (venueAnswers token listed) (fun _ => false)
    (runOnce numeric "worker") v).world

/-- A trade of the given quantity. -/
def trade (cid : String) (quantity : ℚ) : RemoteFill :=
  ⟨"t", "1", some cid, "spot", "BTCUSDT", "buy", quantity, 100, 0, "USDT", "taker", 0⟩

/-- The exchange executes an order and ends it. -/
def executeAndClose (cid : String) (quantity : ℚ) (v : Venue) : Venue :=
  match v.standing cid with
  | some s => ⟨v.world,
      Function.update v.standing cid (some ⟨s.quantity, s.trades ++ [trade cid quantity], true⟩)⟩
  | none => v

/-- The order is open, and there is room for the quantity. -/
def mayExecute (cid : String) (quantity : ℚ) (v : Venue) : Bool :=
  (v.standing cid).any fun s => !s.ended && decide (0 < quantity ∧ s.executed + quantity ≤ s.quantity)

abbrev VenueRunsTo (allow : Venue → Label Op Rep VenueAct → Prop) (s s' : VenueState) : Prop :=
  (venue numeric).Run (runOnce numeric "worker") allow s s'

variable {allow : Venue → Label Op Rep VenueAct → Prop}

theorem venueRunsTo_act {v v' : Venue} {a : VenueAct} (henv : venueEnv a v v')
    (ha : allow v (.act a)) : VenueRunsTo allow ⟨v, none⟩ ⟨v', none⟩ :=
  .single ⟨_, .act henv, ha⟩

/-- The venue executes an order and closes it, each step under the condition. -/
theorem venueRunsTo_execute {v : Venue} (cid : String) (quantity : ℚ)
    (hmay : mayExecute cid quantity v) (hexecute : ∀ trade, allow v (.act (.execute cid trade)))
    (hclose : ∀ v, allow v (.act (.close cid))) :
    VenueRunsTo allow ⟨v, none⟩ ⟨executeAndClose cid quantity v, none⟩ := by
  unfold mayExecute at hmay
  unfold executeAndClose
  cases hs : v.standing cid with
  | none =>
      rw [hs] at hmay
      cases hmay
  | some s =>
      rw [hs, Option.any_some, Bool.and_eq_true, decide_eq_true_eq] at hmay
      obtain ⟨hopen, hpos, hroom⟩ := hmay
      have hfirst : venueEnv (.execute cid (trade cid quantity)) v
          { v with standing := Function.update v.standing cid (some { s with
              trades := s.trades ++ [trade cid quantity] }) } :=
        ⟨s, hs, by simpa using hopen, hpos, hroom, rfl⟩
      refine (venueRunsTo_act hfirst (hexecute _)).trans (venueRunsTo_act (a := .close cid)
        ⟨_, Function.update_self _ _ _, ?_⟩ (hclose _))
      show Venue.mk _ _ = Venue.mk _ _
      rw [Function.update_idem]

/-- The task is queued; the exchange knows nothing. -/
def atVenue : Venue := ⟨queued, fun _ => none⟩

theorem venue_anyStep_free (v : Venue) : System.anyStep v (.start : Label Op Rep VenueAct)
    ∧ System.anyStep v (.crash : Label Op Rep VenueAct) := ⟨trivial, trivial⟩

theorem venueReached_atVenue (h : ∀ v a, allow v (.act (.other a))) :
    VenueReachable numeric "worker" allow ⟨atVenue, none⟩ := by
  have hinit : VenueReachable numeric "worker" allow ⟨⟨empty, fun _ => none⟩, none⟩ :=
    .init ⟨empty_initial, fun _ => rfl⟩
  refine System.Reach.run hinit (((venueRunsTo_act (a := .other (.createTask plan)) rfl (h _ _)).trans
    (venueRunsTo_act (a := .other (.preflightReady 0 1 100)) rfl (h _ _))).trans
    (venueRunsTo_act (a := .other (.queue 0 2)) rfl (h _ _)))

variable [∀ v l, Decidable (allow v l)]

/-- One pass of the sample's worker is a run of worker and venue. -/
theorem venueRunsTo_pass {v : Venue} (token : String) (listed : Nat)
    (hfree : ∀ v, allow v .start ∧ allow v .crash)
    (hf : System.follows (venueAnswers token listed) (fun _ => false) allow
      (runOnce numeric "worker") v) :
    VenueRunsTo allow ⟨v, none⟩ ⟨venuePass token listed v, none⟩ :=
  (System.Run.pass (exec_venueAnswers token listed) (hfree v).1 hf).trans
    (System.Run.leave (System.play_isSome _ _) (hfree _).2)

/-- The anchor order is submitted, executed and ended. -/
def executedOnce : Venue := executeAndClose "bh-a" 4 (venuePass "a" 0 (venuePass "a" 0 atVenue))

/-- Its end is recorded with no trades, and a second one is executed. -/
def executedTwice : Venue :=
  executeAndClose "bh-b" 4
    (venuePass "b" 0 (venuePass "b" 0 (venuePass "a" 0 executedOnce)))

/-- Its end is recorded with its trade. -/
def listedOnce : Venue := venuePass "a" 1 executedOnce

/-- The condition speaks only of lookups that end an order and of executions. -/
theorem fullyListed_of_none {v : Venue} {l : Label Op Rep VenueAct} (hrecorded : recorded l = none)
    (hexecuted : executedOrder l = none) : FullyListed v l := by
  unfold FullyListed
  rw [hrecorded, hexecuted]
  refine ⟨fun ob hob => ?_, fun cid hcid => ?_⟩
  · cases hob
  · cases hcid

/-- An execution of an order that is still open in the books cannot have been
missed. -/
theorem fullyListed_execute {v : Venue} {cid : String} (trade : RemoteFill)
    (h : ∀ o ∈ v.world.db.orders, o.clientOrderId = cid → o.purpose = .primary →
      ¬o.status.isTerminal) : FullyListed v (.act (.execute cid trade)) := by
  refine ⟨fun ob hob => ?_, fun cid' hcid => ?_⟩
  · cases hob
  · cases hcid
    exact h

theorem fullyListed_free (v : Venue) : FullyListed v .start ∧ FullyListed v .crash :=
  ⟨fullyListed_of_none rfl rfl, fullyListed_of_none rfl rfl⟩

end Sample

/-- The anchor's four units, listed in time, stay its four units. -/
theorem executed_le_target_listed :
    ∃ s leg t, VenueReachable Sample.numeric "worker" FullyListed s
      ∧ leg ∈ s.world.world.db.legs ∧ leg.resolvedBaseQuantity = some t
      ∧ 0 < s.world.executedBase leg.id ∧ s.world.executedBase leg.id ≤ t := by
  have h₀ : VenueReachable Sample.numeric "worker" FullyListed ⟨Sample.atVenue, none⟩ :=
    Sample.venueReached_atVenue fun _ _ => Sample.fullyListed_of_none rfl rfl
  have h₁ := System.Reach.run h₀ ((Sample.venueRunsTo_pass "a" 0 Sample.fullyListed_free
    (by decide +kernel)).trans (Sample.venueRunsTo_pass "a" 0 Sample.fullyListed_free
    (by decide +kernel)))
  have h₂ := System.Reach.run h₁ (Sample.venueRunsTo_execute "bh-a" 4 (by decide +kernel)
    (fun trade => Sample.fullyListed_execute trade (by decide +kernel))
    (fun _ => Sample.fullyListed_of_none rfl rfl))
  have h₃ : VenueReachable Sample.numeric "worker" FullyListed ⟨Sample.listedOnce, none⟩ :=
    System.Reach.run h₂ (Sample.venueRunsTo_pass "a" 1 Sample.fullyListed_free (by decide +kernel))
  obtain ⟨leg, hleg, hres, hpos⟩ := (by decide +kernel :
    ∃ leg ∈ Sample.listedOnce.world.db.legs, leg.resolvedBaseQuantity = some 4
      ∧ 0 < Sample.listedOnce.executedBase leg.id)
  exact ⟨_, leg, 4, h₃, hleg, hres, hpos, executed_le_target h₃ hleg hres⟩

/-- The anchor order is reported filled before its trade is listed; four more
units are bought. -/
theorem executed_beyond_target :
    ¬∀ s, VenueReachable Sample.numeric "worker" System.anyStep s →
      ∀ leg ∈ s.world.world.db.legs, ∀ t, leg.resolvedBaseQuantity = some t →
        s.world.executedBase leg.id ≤ t := by
  intro h
  have h₀ : VenueReachable Sample.numeric "worker" System.anyStep ⟨Sample.atVenue, none⟩ :=
    Sample.venueReached_atVenue fun _ _ => trivial
  have h₁ := System.Reach.run h₀ ((Sample.venueRunsTo_pass "a" 0 Sample.venue_anyStep_free
    (by decide +kernel)).trans (Sample.venueRunsTo_pass "a" 0 Sample.venue_anyStep_free
    (by decide +kernel)))
  have h₂ := System.Reach.run h₁ (Sample.venueRunsTo_execute "bh-a" 4 (by decide +kernel)
    (fun _ => trivial) (fun _ => trivial))
  have h₃ := System.Reach.run h₂ (((Sample.venueRunsTo_pass "a" 0 Sample.venue_anyStep_free
    (by decide +kernel)).trans (Sample.venueRunsTo_pass "b" 0 Sample.venue_anyStep_free
    (by decide +kernel))).trans (Sample.venueRunsTo_pass "b" 0 Sample.venue_anyStep_free
    (by decide +kernel)))
  have h₄ : VenueReachable Sample.numeric "worker" System.anyStep ⟨Sample.executedTwice, none⟩ :=
    System.Reach.run h₃ (Sample.venueRunsTo_execute "bh-b" 4 (by decide +kernel)
      (fun _ => trivial) (fun _ => trivial))
  obtain ⟨leg, hleg, hres, hover⟩ := (by decide +kernel :
    ∃ leg ∈ Sample.executedTwice.world.db.legs, leg.resolvedBaseQuantity = some 4
      ∧ 4 < Sample.executedTwice.executedBase leg.id)
  exact absurd (h _ h₄ leg hleg 4 hres) (not_le.mpr hover)

end BasisHawk.MultiLeg
