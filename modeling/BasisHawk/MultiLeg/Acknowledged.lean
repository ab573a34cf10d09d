/-
  BasisHawk.MultiLeg.Acknowledged
  ───────────────────────────────
  An acknowledged order is not submitted again — as long as the exchange never
  denies, in a complete lookup, an order whose row is `unknown` although it was
  acknowledged.

  `_progress_order` decides by the local status alone: a lookup that does not
  find a `submitted` order makes it `unknown`, and the next one that does not
  find the `unknown` order submits it again.

  Main results:
    • `acknowledged_submitted_once` — the law, for runs without such a lookup,
    • `acknowledged_resubmitted` — two such lookups in a row break it.
-/
import BasisHawk.MultiLeg.GuardedPass

namespace BasisHawk.MultiLeg

open Domain Lib Accounts Database

variable {num : Numeric} {workerId : String} {allow : World → Label Op Rep Act → Prop}

/-! ## §1. The condition. -/

/-- No complete lookup denies an order whose row is `unknown` after an
acknowledgement. -/
def NoFalseAbsence (w : World) (l : Label Op Rep Act) : Prop :=
  ∀ o ∈ w.db.orders, absentOrder l = some o.clientOrderId → o.status = .unknown →
    o.submittedAt = none

instance (w : World) (l : Label Op Rep Act) : Decidable (NoFalseAbsence w l) :=
  inferInstanceAs (Decidable (∀ o ∈ w.db.orders, _))

/-- The condition speaks only of lookups that find an order absent. -/
theorem noFalseAbsence_of_none {w : World} {l : Label Op Rep Act} (h : absentOrder l = none) :
    NoFalseAbsence w l := by
  intro o _ habsent
  rw [h] at habsent
  cases habsent

/-! ## §2. An acknowledgement stays. -/

/-- Some row under the client order id is acknowledged. -/
def Acked (cid : String) (db : Database) : Prop :=
  ∃ o ∈ db.orders, o.clientOrderId = cid ∧ o.submittedAt.isSome

/-- Another version of a row keeps an acknowledgement if it keeps the row's. -/
theorem Acked.put {cid : String} {db db' : Database} (hwf : WellFormed db) (h : Acked cid db)
    {old new : ExecutionOrderRow} (hold : old ∈ db.orders) (hsame : SameOrder old new)
    (hsub : old.submittedAt.isSome → new.submittedAt.isSome)
    (hdb' : db'.orders = Table.put db.orders new) : Acked cid db' := by
  obtain ⟨o, ho, hoc, hos⟩ := h
  unfold Acked
  rw [hdb']
  by_cases hk : o = old
  · subst hk
    exact ⟨new, Table.mem_put.mpr (.inl ⟨rfl, o, hold, hsame.id.symm⟩),
      hsame.clientOrderId.trans hoc, hsub hos⟩
  · exact ⟨o, (Table.mem_put_of_unique hwf.orders_unique hold hsame.id.symm).mpr (.inr ⟨ho, hk⟩),
      hoc, hos⟩

/-- An order that was acknowledged stays out of the states from which it could
be submitted again, whatever a transaction does to the orders. -/
theorem Acked.effect {cid : String} {o : DbOp} {db db' : Database} (hwf : WellFormed db)
    (h : Acked cid db) (heff : OrdersEffect o db db') : Acked cid db' := by
  cases heff with
  | same heq =>
      unfold Acked
      rw [heq]
      exact h
  | created heq =>
      obtain ⟨o, ho, hrest⟩ := h
      exact ⟨o, by rw [heq]; exact List.mem_append.mpr (.inl ho), hrest⟩
  | marked heq hold hsame _ _ _ hsub => exact h.put hwf hold hsame hsub heq
  | observed heq hold _ hsame _ _ _ _ hsub =>
      exact h.put hwf hold hsame (fun hs => by rw [hsub]; exact hs) heq

/-- The step lemma of the invariant for one client order id. -/
theorem acked_kept (cid : String) : Kept num allow fun w => Acked cid w.db where
  act := fun a w _ _ h => by
    unfold Acked
    rw [(act_frame a w).2.1]
    exact h
  db := fun o w r db' hc _ _ hwf h =>
    commit_preserves (fun _ _ hok => h.effect hwf (DbOp.ordersEffect hok)) h hc
  out := fun _ _ _ _ _ _ h => h
  idle := fun _ h => h

/-! ## §3. What is submitted was never acknowledged. -/

/-- The order the pass is about to submit was never acknowledged. -/
def SubmitsFresh (w : World) : Prop := ∀ c o, w.pass = .submitting c o → o.submittedAt = none

/-- A worker that is about to submit an order has not had it acknowledged
before. -/
theorem submitsFresh_kept : Kept num NoFalseAbsence SubmitsFresh where
  act := fun a w _ _ h c o hp => h c o ((act_frame a w).2.2.2.2.symm.trans hp)
  db := fun o w r db' _ _ _ _ h c x hp => h c x (wrote_submitting hp)
  out := fun o w r ha hpre hwf h c x hp => by
    rcases heard_submitting hpre hp with hp | ⟨habsent, hcur, hx, hst | hst⟩
    · exact h c x hp
    · rw [← hcur.orders] at hx
      exact hwf.created_fresh _ (mem_ordersOfRun.mp hx).1 hst
    · rw [← hcur.orders] at hx
      exact ha _ (mem_ordersOfRun.mp hx).1 habsent hst
  idle := fun w h c x hp => by cases hp

/-- Once an order is acknowledged it is never submitted again, in a run whose
complete lookups never deny an acknowledged order that is `unknown`. -/
theorem acknowledged_submitted_once {s s' : State}
    (hs : Reachable num workerId NoFalseAbsence s) (hr : Runs num workerId NoFalseAbsence s s')
    {o : ExecutionOrderRow} (ho : o ∈ s.world.db.orders) (hack : o.submittedAt.isSome)
    {request : PrivateOrderRequest} (hsub : Submits s' request) :
    request.clientOrderId ≠ o.clientOrderId := by
  intro hcid
  have hs' : Reachable num workerId NoFalseAbsence s' := System.Reach.run hs hr
  have hacked : Acked o.clientOrderId s'.world.db :=
    (acked_kept o.clientOrderId).runs hs hr ⟨o, ho, rfl, hack⟩
  have hfresh : SubmitsFresh s'.world :=
    submitsFresh_kept.reachable (fun w hw c x hp => by rw [hw.pass] at hp; cases hp) hs'
  obtain ⟨w', p'⟩ := s'
  obtain ⟨client, k, rfl⟩ := hsub
  obtain ⟨c, x, leg, snapshot, hpass, hcur, hx, -, -, -, hreq⟩ := hs'.pre
  obtain ⟨o', ho', hoc, hos⟩ := hacked
  rw [← hcur.orders] at hx
  have hxcid : x.clientOrderId = o'.clientOrderId := by
    rw [hoc, ← hcid, hreq]
    rfl
  -- Client order ids are unique, so the acknowledged row is the one submitted.
  have hsame : x = o' :=
    List.inj_on_of_nodup_map hs'.wellFormed.client_ids (mem_ordersOfRun.mp hx).1 ho' hxcid
  rw [← hsame, hfresh c x hpass] at hos
  cases hos

/-! ## §4. Concrete runs. -/

namespace Sample

/-- The hedge of the filled anchor is created. -/
def hedged : World := pass (absent "b") anchored

theorem noFalseAbsence_free (w : World) :
    NoFalseAbsence w .start ∧ NoFalseAbsence w .crash :=
  ⟨noFalseAbsence_of_none rfl, noFalseAbsence_of_none rfl⟩

/-- The anchor order of the sample is submitted and acknowledged. -/
theorem runsTo_acknowledged : RunsTo NoFalseAbsence ⟨empty, none⟩ ⟨acknowledged, none⟩ := by
  have h₀ : RunsTo NoFalseAbsence ⟨empty, none⟩ ⟨queued, none⟩ :=
    runsTo_queued fun _ _ => noFalseAbsence_of_none rfl
  have h₁ : RunsTo NoFalseAbsence ⟨queued, none⟩ ⟨pass (absent "a") queued, none⟩ :=
    runsTo_pass _ noFalseAbsence_free (by decide +kernel)
  exact (h₀.trans h₁).trans (runsTo_pass _ noFalseAbsence_free (by decide +kernel))

/-- And the hedge follows in a second pass, with no order looked up in vain. -/
theorem runsTo_hedged : RunsTo NoFalseAbsence ⟨acknowledged, none⟩ ⟨hedged, none⟩ :=
  (runsTo_pass (known "a" "filled" 4 4) noFalseAbsence_free (by decide +kernel)).trans
    (runsTo_pass (absent "b") noFalseAbsence_free (by decide +kernel))

end Sample

/-- The hedge of an acknowledged and filled anchor order is submitted under an
id of its own. -/
theorem acknowledged_submitted_once_hedge :
    ∃ s s' request o, Sample.Reached NoFalseAbsence s ∧ Sample.RunsTo NoFalseAbsence s s'
      ∧ o ∈ s.world.db.orders ∧ o.submittedAt.isSome ∧ Submits s' request
      ∧ request.clientOrderId ≠ o.clientOrderId := by
  have hs : Sample.Reached NoFalseAbsence ⟨Sample.acknowledged, none⟩ :=
    System.Reach.run Sample.reached_empty Sample.runsTo_acknowledged
  have hr := Sample.runsTo_hedged.trans (Sample.runsTo_upTo (Sample.absent "b") isPlace
    (noFalseAbsence_of_none rfl) (by decide +kernel))
  obtain ⟨request, hsub, -⟩ := submits_of_submitted "bh-b" (by decide +kernel :
    submitted (Sample.upTo (Sample.absent "b") isPlace Sample.hedged) = some "bh-b")
  obtain ⟨o, ho, hack⟩ := (by decide +kernel :
    ∃ o ∈ Sample.acknowledged.db.orders, o.submittedAt.isSome)
  exact ⟨_, _, request, o, hs, hr, ho, hack, hsub,
    acknowledged_submitted_once hs hr ho hack hsub⟩

/-- Two lookups in a row that deny the acknowledged order submit it again. -/
theorem acknowledged_resubmitted :
    ¬∀ s s', Sample.Reached System.anyStep s → Sample.RunsTo System.anyStep s s' →
      ∀ o ∈ s.world.db.orders, o.submittedAt.isSome → ∀ request, Submits s' request →
        request.clientOrderId ≠ o.clientOrderId := by
  intro h
  have hqueued : Sample.Reached System.anyStep ⟨Sample.queued, none⟩ :=
    System.Reach.run Sample.reached_empty (Sample.runsTo_queued fun _ _ => trivial)
  have hack : Sample.Reached System.anyStep ⟨Sample.acknowledged, none⟩ :=
    System.Reach.run hqueued
      ((Sample.runsTo_pass (Sample.absent "a") Sample.anyStep_free (by decide +kernel)).trans
        (Sample.runsTo_pass (Sample.absent "a") Sample.anyStep_free (by decide +kernel)))
  -- The first lookup makes the order `unknown`, the second submits it.
  have hr := (Sample.runsTo_pass (Sample.absent "a") Sample.anyStep_free
      (by decide +kernel : System.follows _ _ System.anyStep _ Sample.acknowledged)).trans
    (Sample.runsTo_upTo (Sample.absent "a") isPlace trivial (by decide +kernel))
  obtain ⟨request, hsub, hcid⟩ := submits_of_submitted "bh-a" (by decide +kernel :
    submitted (Sample.upTo (Sample.absent "a") isPlace
      (Sample.pass (Sample.absent "a") Sample.acknowledged)) = some "bh-a")
  obtain ⟨o, ho, hsome, hoc⟩ := (by decide +kernel :
    ∃ o ∈ Sample.acknowledged.db.orders, o.submittedAt.isSome ∧ o.clientOrderId = "bh-a")
  exact h _ _ hack hr o ho hsome request hsub (hcid.trans hoc.symm)

end BasisHawk.MultiLeg
