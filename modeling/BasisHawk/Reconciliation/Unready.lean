/-
  BasisHawk.Reconciliation.Unready
  ────────────────────────────────
  What the two-leg services still place while the execution is not ready.

  `prepare_live_submission` looks at the control row in the transaction that
  hands the legs out, and so does `prepare_live_compensation`.  An order that
  was handed out before is placed whatever the row says afterwards.

  Main results:
    • `handedOut_exempt` — what is handed out while the row is not `ready`,
    • `unready_places_exempt` — over any run during which it never is, the
      services place what was in hand, protection orders and emergency closes.
-/
import BasisHawk.Reconciliation.AtMostOnce

namespace BasisHawk.Reconciliation

open Domain Lib Accounts Paired

/-! ## §1. Orders a pause does not hold back. -/

/-- The order protects against an imbalance. -/
def Protects (l : Ledger) (clientOrderId : String) : Prop :=
  ∃ leg ∈ l.legs, leg.clientOrderId = clientOrderId ∧ leg.leg.isCompensation = true

/-- The order is one of an emergency close. -/
def ClosesInEmergency (l : Ledger) (clientOrderId : String) : Prop :=
  ∃ leg ∈ l.legs, leg.clientOrderId = clientOrderId
    ∧ ∃ i ∈ l.intents, i.id = leg.tradeIntentId ∧ i.emergency = true ∧ i.action = .closing

/-- An order that protects goes on protecting, whatever an operation does. -/
theorem Protects.effect {o : TradeOp} {l l' : Ledger} (he : Effect o l l') {cid : String}
    (h : Protects l cid) : Protects l' cid := by
  obtain ⟨leg, hleg, hcid, hname⟩ := h
  obtain ⟨new, hnew, hsame, -⟩ := he.leg_forth hleg
  exact ⟨new, hnew, hsame.clientOrderId.trans hcid, by rw [hsame.leg]; exact hname⟩

/-- So does an order of an emergency close. -/
theorem ClosesInEmergency.effect {o : TradeOp} {l l' : Ledger} (he : Effect o l l') {cid : String}
    (h : ClosesInEmergency l cid) : ClosesInEmergency l' cid := by
  obtain ⟨leg, hleg, hcid, i, hi, hid, hemergency, haction⟩ := h
  obtain ⟨new, hnew, hsame, -⟩ := he.leg_forth hleg
  obtain ⟨j, hj, hsame', -⟩ := he.intent_forth hi
  refine ⟨new, hnew, hsame.clientOrderId.trans hcid, j, hj, ?_, ?_, ?_⟩
  · rw [hsame'.id, hid, hsame.intent]
  · rw [hsame'.emergency, hemergency]
  · rw [hsame'.action, haction]

/-- The order was placed or in hand before, or is one that a pause does not
hold back. -/
def Accounted (before : List String) (l : Ledger) (clientOrderId : String) : Prop :=
  clientOrderId ∈ before ∨ Protects l clientOrderId ∨ ClosesInEmergency l clientOrderId

/-- So an order that is accounted for stays so. -/
theorem Accounted.effect {before : List String} {o : TradeOp} {l l' : Ledger} (he : Effect o l l')
    {cid : String} (h : Accounted before l cid) : Accounted before l' cid :=
  h.imp_right fun h => h.imp (.effect he) (.effect he)

/-- Also while others act. -/
theorem Accounted.foreign {before : List String} {l l' : Ledger} (hf : ForeignStep l l')
    {cid : String} (h : Accounted before l cid) : Accounted before l' cid := by
  rcases hf with ⟨o, -, he⟩ | ⟨c, rfl⟩
  · exact h.effect he
  · exact h

/-! ## §2. What is handed out. -/

/-- While the control row is not `ready` a transaction hands out protection
legs and the legs of emergency closes, and these only if the row says
`paused`. -/
theorem handedOut_exempt {w w' : World} {o : TradeOp} {r : Except Exc o.Result}
    (he : w.traded o = (r, w')) (hready : ¬w.control.Ready) {legs : List OrderLegRow}
    (hlegs : preparedLegs o r = some legs) {leg : OrderLegRow} (hleg : leg ∈ legs) :
    w.control.Paused
      ∧ (Protects w.ledger leg.clientOrderId ∨ ClosesInEmergency w.ledger leg.clientOrderId) := by
  have hcommit : transact o w.now w.books = (r, w'.books) := by
    cases he
    rfl
  rcases transact_cases hcommit with ⟨x, l, htx, rfl, -⟩ | ⟨e, -, rfl, -⟩
  · cases o with
    | prepareSubmission intentId adjusted =>
        rcases Ledger.prepareLiveSubmission_ok htx with ⟨-, hno⟩ | ⟨i, spot, perp, price, hq, hfind, -,
          -, hmay, hprimary, -, -, -, rfl⟩
        · obtain ⟨i, hr⟩ := handedOut_some.mp hlegs
          exact absurd hr (hno i legs)
        cases hlegs
        obtain ⟨⟨hspot, hs_intent, -⟩, hperp, hp_intent, -⟩ := Ledger.primaryLegs_ok hprimary
        have hi := (Table.find?_some hfind).1
        -- A submission passes in the state `ready`, or in `paused` for an emergency close.
        obtain ⟨row, hrow, hstate | ⟨hpaused, hemergency, haction⟩⟩ := hmay
        · exact absurd ⟨row, hrow, hstate⟩ hready
        refine ⟨⟨row, hrow, hpaused⟩, .inr ?_⟩
        rcases List.mem_cons.mp hleg with rfl | hleg
        · exact ⟨spot, hspot, rfl, i, hi, hs_intent.symm, hemergency, haction⟩
        · rw [List.mem_singleton.mp hleg]
          exact ⟨perp, hperp, rfl, i, hi, hp_intent.symm, hemergency, haction⟩
    | prepareCompensation intentId limit quantity tolerance =>
        rcases Ledger.prepareLiveCompensation_ok htx with ⟨-, hno⟩ | ⟨i, c, hq, ht, -, -, hc, -,
          hpaused, -, rfl⟩
        · obtain ⟨i, hr⟩ := handedOut_some.mp hlegs
          exact absurd hr (hno i legs)
        cases hlegs
        obtain ⟨hmem, -, hname⟩ := Ledger.mem_of_filter_eq hc
        rw [List.mem_singleton.mp hleg]
        exact ⟨hpaused, .inl ⟨c, hmem, rfl, hname⟩⟩
    -- No other transaction hands out legs.
    | _ => cases hlegs
  · cases o <;> cases hlegs

/-! ## §3. Runs. -/

/-- All orders in hand or placed are accounted for. -/
def AllAccounted (before : List String) (w : World) : Prop :=
  ∀ cid, cid ∈ w.hand.prepared ∨ cid ∈ w.history.placed → Accounted before w.ledger cid

/-- The step lemma: as long as the control is not ready, every order handed out
or placed is accounted for. -/
theorem allAccounted_kept (before : List String) :
    Kept (fun w _ => ¬w.control.Ready) (AllAccounted before) where
  act := by
    intro a w hp _ hs h cid hcid
    have hf := Act.foreignStep hs.reachable hp
    have hhistory : (a.apply w).history = w.history := by
      cases a <;> rfl
    rw [(Act.apply_pass a w).2, hhistory] at hcid
    exact (h cid hcid).foreign hf
  trade := by
    intro o w r w' he hready _ hs heffect h cid hcid
    have hhistory : w'.history.placed = w.history.placed := by
      cases he
      cases o <;> rfl
    have hhand : w'.hand = w.hand.wrote o r := (traded_pass he).2
    rw [hhand, hhistory] at hcid
    -- An order in hand was in hand before, or this transaction has handed it out.
    rcases hcid with hcid | hcid
    · rcases wrote_prepared_cases w.hand o r with hsame | ⟨legs, hlegs, hnew⟩
      · rw [hsame] at hcid
        exact (h cid (.inl hcid)).effect heffect
      · rw [hnew] at hcid
        obtain ⟨leg, hleg, rfl⟩ := List.mem_map.mp hcid
        have hexempt := (handedOut_exempt he hready hlegs hleg).2
        exact .inr (hexempt.imp (.effect heffect) (.effect heffect))
    · exact (h cid (.inr hcid)).effect heffect
  query := by
    intro q w _ _ _ h cid hcid
    have hhand : (w.hand.looked q).prepared = w.hand.prepared := by
      cases q <;> rfl
    refine h cid ?_
    rw [← hhand]
    exact hcid
  control := fun state reason w _ _ _ h => h
  place := by
    intro a order r w arrives _ hprepared _ h cid hcid
    rcases hcid with hcid | hcid
    · exact h cid (.inl (List.mem_filter.mp hcid).1)
    · -- What is placed now was in hand.
      rcases List.mem_cons.mp hcid with rfl | hcid
      · exact h _ (.inl hprepared)
      · exact h cid (.inr hcid)
  out := by
    intro o r w _ _ _ h cid hcid
    have hhand : (w.hand.heard o r).prepared = w.hand.prepared := by
      unfold Hand.heard
      split <;> rfl
    refine h cid ?_
    rw [← hhand]
    exact hcid
  idle := fun w h cid hcid => h cid (.inr (hcid.resolve_left fun hmem => by cases hmem))

/-- What every step in a world of some kind keeps is kept over a run of the
services through such worlds. -/
theorem services_keep {P : World → Prop} {J : World → Prop} (hk : Kept (fun w _ => P w) J)
    {s s' : ServicesState} (hs : ServicesReachable s)
    (hr : services.Run anyPass (fun w _ => P w) s s') (hJ : J s.world) : J s'.world := by
  refine System.Run.invariant_from (preserves.choosing Entry) (fun _ => sound_of_initial)
    services_guarded ?_ ?_ (fun w _ hJ => hk.idle w hJ) hs hr hJ
  · intro a w w' h hP hsound hJ
    have hw' : w' = a.apply w := h.2
    rw [hw']
    exact hk.act a w h.1 hP hsound hJ
  · intro o w r w' he hP hpre hsound hJ
    cases o with
    | inl o => exact hk.call he hP hpre hsound hJ
    | inr u =>
        have hw' : w' = system.idle w := he
        rw [hw']
        exact hk.idle w hJ

/-- While the execution is not ready, over any run of the two-leg services with
crashes and with other actors at work, every order they place was in their
hands when the run began, or protects against an imbalance, or belongs to an
emergency close. -/
theorem unready_places_exempt {s s' : ServicesState} (hs : ServicesReachable s)
    (hr : services.Run anyPass (fun w _ => ¬w.control.Ready) s s') :
    ∀ cid ∈ s'.world.history.placed, cid ∈ s.world.history.placed
      ∨ cid ∈ s.world.hand.prepared ∨ Protects s'.world.ledger cid
      ∨ ClosesInEmergency s'.world.ledger cid := by
  have hbegin : AllAccounted (s.world.history.placed ++ s.world.hand.prepared) s.world := by
    intro cid hcid
    refine .inl (List.mem_append.mpr ?_)
    exact hcid.symm
  have hend := services_keep (allAccounted_kept _) hs hr hbegin
  intro cid hcid
  rcases hend cid (.inr hcid) with hbefore | hexempt
  · rcases List.mem_append.mp hbefore with hbefore | hbefore
    · exact .inl hbefore
    · exact .inr (.inl hbefore)
  · exact .inr (.inr hexempt)

namespace Sample

/-- The operation that places an order. -/
def isPlacing : Op ⊕ Unit → Bool
  | .inl (.out (.placeLimitIoc ..)) => true
  | _ => false

/-- Both orders of a pair are handed out, and then the execution is paused. -/
def pausedInHand : ServicesState :=
  let s := System.play (serviceAnswers calm .liveExecution) isPlacing anyPass planned
  { s with world := (Act.control (.pause "requested")).apply s.world }

theorem reached_planned : ServicesReachable ⟨planned, none⟩ := by
  have hempty : ServicesReachable ⟨empty, none⟩ := .init empty_initial
  have henv : services.env (.trade (.createOpen Paired.Sample.openPlan))
      (passed calm .reconciliation empty) planned := ⟨⟨rfl, trivial⟩, rfl⟩
  exact (reached_passed hempty).run (System.Run.act henv trivial)

theorem reached_pausedInHand : ServicesReachable pausedInHand := by
  have hpass : services.Run anyPass System.anyStep ⟨planned, none⟩
      (System.play (serviceAnswers calm .liveExecution) isPlacing anyPass planned) :=
    System.Run.pass (exec_serviceAnswers calm .liveExecution) trivial
      (System.follows_anyStep _ planned)
  have henv : services.env (.control (.pause "requested"))
      (System.play (serviceAnswers calm .liveExecution) isPlacing anyPass planned).world
      pausedInHand.world := ⟨trivial, rfl⟩
  exact (reached_planned.run hpass).run (System.Run.act henv trivial)

end Sample

/-- The pause comes too late for two orders, and for no more. -/
theorem unready_places_in_hand :
    ∃ s s', ServicesReachable s ∧ services.Run anyPass (fun w _ => ¬w.control.Ready) s s'
      ∧ (s.world.history.placed = [] ∧ s'.world.history.placed.length = 2)
      ∧ ∀ cid ∈ s'.world.history.placed, cid ∈ s.world.history.placed
        ∨ cid ∈ s.world.hand.prepared ∨ Protects s'.world.ledger cid
        ∨ ClosesInEmergency s'.world.ledger cid := by
  have hr : services.Run anyPass (fun w _ => ¬w.control.Ready) Sample.pausedInHand
      (System.resume (Sample.serviceAnswers Sample.calm .liveExecution) (fun _ => false)
        Sample.pausedInHand) :=
    System.Run.resume (Sample.exec_serviceAnswers Sample.calm .liveExecution) (by decide +kernel)
  exact ⟨_, _, Sample.reached_pausedInHand, hr, by decide +kernel,
    unready_places_exempt Sample.reached_pausedInHand hr⟩

end BasisHawk.Reconciliation
