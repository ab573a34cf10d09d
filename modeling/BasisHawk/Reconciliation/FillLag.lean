/-
  BasisHawk.Reconciliation.FillLag
  ────────────────────────────────
  What a settlement has seen of an order's trades, against what the exchange
  has said of the order.

  The status of an order and its trades come from two endpoints.  The trades
  may lag behind, and a batch that says it is complete is believed.

  Main results:
    • `persistRemoteFills_total`: the quantity a leg has once a batch is stored,
    • `tracked_kept`: the stored trades of a fetched leg come to what was
      reported of its order,
    • `settled_as_reported`: so they do when the intent is settled,
    • `settled_short`: a batch that lags behind is settled as it is.
-/
import BasisHawk.Paired.Exposure
import BasisHawk.Reconciliation.GuardedPass

namespace BasisHawk.Reconciliation

open Domain Lib Accounts Paired

/-! ## §1. The quantity of a batch. -/

/-- The trades of a batch that are not stored yet, each once. -/
def freshTrades (seen : List String) : List RemoteFill → List RemoteFill
  | [] => []
  | item :: rest =>
      if item.exchangeTradeId ∈ seen then freshTrades seen rest
      else item :: freshTrades (item.exchangeTradeId :: seen) rest

/-- What the stored trades of a leg and those of a batch come to. -/
def batchTotal (l : Ledger) (legId : Nat) (fills : List RemoteFill) : ℚ :=
  Ledger.fillsTotal (l.fillsOfLeg legId)
    + ((freshTrades ((l.fillsOfLeg legId).map (·.exchangeTradeId)) fills).map (·.quantity)).sum

/-- A checked batch consists of the fills it was given. -/
theorem checkRemoteFills_val {leg : OrderLegRow} {fills : List RemoteFill} :
    ∀ {valid : List Ledger.ValidFill}, Ledger.checkRemoteFills leg fills = .ok valid →
      valid.map (·.val) = fills := by
  induction fills with
  | nil =>
      intro valid h
      cases h
      rfl
  | cons item rest ih =>
      intro valid h
      unfold Ledger.checkRemoteFills at h
      obtain ⟨first, hfirst, h⟩ := bind_eq_ok.mp h
      obtain ⟨others, hothers, h⟩ := bind_eq_ok.mp h
      cases h
      have hval : first.val = item := by
        simp only [Ledger.checkRemoteFill, raiseIf_bind_eq_ok] at hfirst
        have hfirst := hfirst.2
        split at hfirst
        · cases hfirst
        · simp only [raiseIf_bind_eq_ok] at hfirst
          cases hfirst.2.2.2.2.2
          rfl
      rw [List.map_cons, hval, ih hothers]

/-- The new trades of a checked batch are those of the fills in it. -/
theorem newTrades_val (valid : List Ledger.ValidFill) :
    ∀ seen, (Ledger.newTrades seen valid).map (·.val) = freshTrades seen (valid.map (·.val)) := by
  induction valid with
  | nil => intro seen; rfl
  | cons item rest ih =>
      intro seen
      rw [List.map_cons]
      unfold Ledger.newTrades freshTrades
      split
      · exact ih seen
      · rw [List.map_cons, ih]

/-- The rows of new trades have the quantities of the trades. -/
theorem fillRows_quantity (items : List Ledger.ValidFill) (n legId : Nat) :
    (items.mapIdx fun i item => Ledger.fillRow (n + i) legId item).map (·.quantity)
      = (items.map (·.val)).map (·.quantity) := by
  apply List.ext_getElem?
  intro i
  simp only [List.getElem?_map, List.getElem?_mapIdx]
  cases items[i]? <;> rfl

/-- The quantity of a leg once a batch is stored. -/
theorem persistRemoteFills_total {l l' : Ledger} {legId : Nat} {fills : List RemoteFill} {n : Nat}
    (h : Ledger.persistRemoteFills legId fills l = .ok (n, l')) :
    ∃ new ∈ l'.legs, new.id = legId ∧ new.filledQuantity = batchTotal l legId fills := by
  unfold Ledger.persistRemoteFills at h
  obtain ⟨leg, hleg, h⟩ := bind_eq_ok.mp h
  obtain ⟨valid, hvalid, h⟩ := bind_eq_ok.mp h
  obtain ⟨link, -, h⟩ := bind_eq_ok.mp h
  simp only [raiseIf_bind_eq_ok] at h
  obtain ⟨-, -, h⟩ := h
  cases h
  obtain ⟨hmem, hid⟩ := Table.find?_some (Ledger.orderLeg_ok hleg)
  have hid : leg.id = legId := hid
  refine ⟨_, Table.mem_put.mpr (.inl ⟨rfl, leg, hmem, rfl⟩), hid, ?_⟩
  show Ledger.fillsTotal (_ ++ _) = _
  unfold batchTotal Ledger.fillsTotal
  rw [List.map_append, List.sum_append, fillRows_quantity, newTrades_val,
    checkRemoteFills_val hvalid, hid]

/-! ## §2. The condition. -/

/-- The exchange is consistent: the order it finds under the client order id of
a leg is the leg's. -/
def OrdersAgree (w : World) : Label Op Rep Act → Prop
  | .call (.trade (.reconcileOrder legId order)) _ =>
      ∀ leg ∈ w.ledger.legs, leg.id = legId → Ledger.checkRemoteOrder leg order = .ok ()
  | _ => True

/-- A complete batch of trades does not lag behind the last lookup of the order,
and the base-asset fees of an opening spot leg do not take exactly what it has
bought. -/
def FillsTimely (w : World) : Label Op Rep Act → Prop
  | .call (.trade (.persistFills legId fills)) _ =>
      w.hand.complete → ∀ q ∈ w.history.reported legId, q ≤ batchTotal w.ledger legId fills
  | .call (.trade (.settleOpen intentId)) _ =>
      ∀ i ∈ w.ledger.intents, i.id = intentId → ∀ leg ∈ w.ledger.legs,
        leg.tradeIntentId = intentId → leg.leg = .primary .spot → leg.filledBase ≠ 0 →
        spotBaseAfterFee leg (spotBaseFee i.baseAsset (w.ledger.fillsOfLeg leg.id)) ≠ 0
  | _ => True

/-- Both. -/
def FillsCovered (w : World) (l : Label Op Rep Act) : Prop := OrdersAgree w l ∧ FillsTimely w l

instance (w : World) : ∀ l, Decidable (OrdersAgree w l)
  | .act _ | .start | .finish | .crash => isTrue trivial
  | .call (.query _) _ | .call (.setControl ..) _ | .call (.out _) _ => isTrue trivial
  | .call (.trade o) _ => by
      unfold OrdersAgree
      split
      · infer_instance
      · exact isTrue trivial

instance (w : World) : ∀ l, Decidable (FillsTimely w l)
  | .act _ | .start | .finish | .crash => isTrue trivial
  | .call (.query _) _ | .call (.setControl ..) _ | .call (.out _) _ => isTrue trivial
  | .call (.trade o) _ => by
      unfold FillsTimely
      split
      · infer_instance
      · infer_instance
      · exact isTrue trivial

instance (w : World) (l : Label Op Rep Act) : Decidable (FillsCovered w l) :=
  inferInstanceAs (Decidable (_ ∧ _))

/-! ## §3. Fetched legs have the trades that were reported. -/

/-- What a transaction of the worker keeps of a leg. -/
theorem legMove_keeps {o : TradeOp} {l : Ledger} {old new : OrderLegRow} (h : LegMove o l old new)
    (ho : isForeign o = false) :
    (old.exchangeOrderId ≠ none → new.exchangeOrderId ≠ none)
      ∧ ((∀ fills, o ≠ .persistFills old.id fills) → new.filledQuantity = old.filledQuantity) := by
  cases o with
  | prepareSubmission =>
      obtain ⟨-, -, -, price, hq, rfl⟩ := h
      exact ⟨id, fun _ => rfl⟩
  | prepareCompensation =>
      obtain ⟨-, -, -, quantity, tolerance, limit, hq, ht, rfl⟩ := h
      exact ⟨id, fun _ => rfl⟩
  -- A submission links the leg if it was answered with an order.
  | recordSubmission legId s =>
      obtain ⟨-, -, rfl⟩ := h
      refine ⟨fun hx => ?_, fun _ => rfl⟩
      cases hs : s.exchangeOrderId with
      | none => exact hx
      | some x => exact fun h => (by cases h)
  | markSubmissionUnknown =>
      obtain ⟨-, -, rfl⟩ := h
      exact ⟨id, fun _ => rfl⟩
  | markSubmissionRejected =>
      obtain ⟨-, -, rfl⟩ := h
      exact ⟨id, fun _ => rfl⟩
  | markUnknownNotFound =>
      obtain ⟨-, -, -, rfl⟩ := h
      exact ⟨id, fun _ => rfl⟩
  -- Fills link it too, and never unlink it.
  | persistFills legId fills =>
      obtain ⟨rfl, link, rows, hlink, rfl⟩ := h
      refine ⟨fun hx => ?_, fun hne => absurd rfl (hne fills)⟩
      obtain ⟨x, hx⟩ := Option.ne_none_iff_exists'.mp hx
      unfold Ledger.linkByFills at hlink
      rw [hx] at hlink
      cases hlink
      exact fun h => (by cases h)
  -- So does a reported order.
  | reconcileOrder legId order =>
      obtain ⟨rfl, -, rfl⟩ := h
      exact ⟨fun _ h => (by cases h), fun _ => rfl⟩
  | paperOpenFills => cases ho
  | paperCompensation => cases ho
  | paperCloseFills => cases ho
  | paperCloseCompensation => cases ho
  | _ => cases h

/-- A leg of an account through a transaction. -/
theorem HasLeg.trade {a : Account} {legId : Nat} {P P' : OrderLegRow → Prop} {o : TradeOp}
    {l l' : Ledger} (he : Effect o l l') (h : HasLeg a legId P l) (hsame : ∀ row, P row → P' row)
    (hmove : ∀ old new, old.id = legId → LegMove o l old new → P old → P' new) :
    HasLeg a legId P' l' := by
  obtain ⟨row, hrow, hid, howned, hP⟩ := h
  obtain ⟨new, hnew, hsameOrder, heq | hm⟩ := he.leg_forth hrow
  · rw [heq] at hnew
    exact ⟨row, hnew, hid, howned.effect he rfl, hsame row hP⟩
  · exact ⟨new, hnew, hsameOrder.id.trans hid, howned.effect he hsameOrder.intent,
      hmove row new hid hm hP⟩

/-- The stored trades of a fetched leg come to what was reported of its order,
and an order that was reported is linked. -/
structure Tracked (w : World) : Prop where
  fetched : ∀ legId ∈ w.hand.fetched, ∃ a, HasLeg a legId
    (fun leg => ∀ q ∈ w.history.reported legId, q ≤ leg.filledQuantity) w.ledger
  linked : ∀ legId, ∀ q ∈ w.history.reported legId, ∃ a, HasLeg a legId
    (fun leg => leg.exchangeOrderId ≠ none) w.ledger

/-- Only two transactions change what is fetched. -/
theorem wrote_fetched {h : Hand} {o : TradeOp} {r : Except Exc o.Result}
    (hr : ∀ legId order, o ≠ .reconcileOrder legId order)
    (hp : ∀ legId fills, o ≠ .persistFills legId fills) : (h.wrote o r).fetched = h.fetched := by
  cases o with
  | reconcileOrder legId order => exact absurd rfl (hr legId order)
  | persistFills legId fills => exact absurd rfl (hp legId fills)
  | _ =>
      cases r <;> first
        | rfl
        | (simp only [Hand.wrote]
           split <;> rfl)

/-- An order that passes its checks is linked to its leg. -/
theorem reconcileRemoteOrder_linked {w w' : World} {legId : Nat} {order : RemoteOrder}
    {r : Except Exc String} (hs : Sound w)
    (he : w.traded (.reconcileOrder legId order) = (r, w')) {leg : OrderLegRow}
    (hleg : leg ∈ w.ledger.legs) (hid : leg.id = legId)
    (hcheck : Ledger.checkRemoteOrder leg order = .ok ()) :
    ∃ new ∈ w'.ledger.legs, new.id = legId ∧ new.exchangeOrderId ≠ none := by
  have hfind : Table.find? w.ledger.legs legId = some leg :=
    (Table.find?_eq_some_iff hs.wellFormed.legs_unique).mpr ⟨hleg, hid⟩
  have hcommit : transact (.reconcileOrder legId order) w.now w.books = (r, w'.books) := by
    cases he
    rfl
  rcases transact_cases hcommit with ⟨x, l, htx, -, hbooks⟩ | ⟨e, htx, -, -⟩
  · obtain ⟨row, hrow, -, rfl⟩ := Ledger.reconcileRemoteOrder_ok htx
    obtain ⟨hmem, hrow_id⟩ := Table.find?_some hrow
    show ∃ new ∈ w'.books.ledger.legs, _
    rw [hbooks]
    exact ⟨_, Table.mem_put.mpr (.inl ⟨rfl, row, hmem, rfl⟩), hrow_id, fun h => by cases h⟩
  · -- The order is the leg's, so nothing is raised.
    have htx : Ledger.reconcileRemoteOrder legId order w.ledger = .error e := htx
    simp only [Ledger.reconcileRemoteOrder, Ledger.orderLeg, found, hfind, hcheck, bind,
      Except.bind] at htx
    cases htx

/-- A leg of the account under this id is the leg itself. -/
theorem HasLeg.of_mem {seen : List PairedPositionRow} {l : Ledger} (hw : WellFormed seen l)
    {a : Account} {P : OrderLegRow → Prop} {leg : OrderLegRow} (hleg : leg ∈ l.legs)
    (h : HasLeg a leg.id P l) : P leg := by
  obtain ⟨row, hrow, hid, -, hP⟩ := h
  have hsame : row = leg := hw.legs_unique.eq hrow hleg hid
  rw [← hsame]
  exact hP

/-- The leg a transaction has brought up to date. -/
theorem LegGuard.written {legId : Nat} {P : OrderLegRow → Prop} {o : TradeOp} {w w' : World}
    {r : Except Exc o.Result} (hs : Sound w) (hpre : Pre (.trade o) w) (he : w.traded o = (r, w'))
    (heffect : Effect o w.ledger w'.ledger) (hguard : LegGuard legId w)
    (hnew : ∃ new ∈ w'.ledger.legs, new.id = legId ∧ P new) :
    ∃ a, HasLeg a legId P w'.ledger := by
  obtain ⟨a, -, leg, hleg, hid, howned, -⟩ := hguard
  obtain ⟨new, hnew_mem, hnew_id, hP⟩ := hnew
  obtain ⟨row, hrow, hsame, -⟩ := heffect.leg_forth hleg
  have hrow_new : row = new := (hs.trade hpre he).wellFormed.legs_unique.eq hrow hnew_mem
    ((hsame.id.trans hid).trans hnew_id.symm)
  refine ⟨a, new, hnew_mem, hnew_id, ?_, hP⟩
  rw [← hrow_new]
  exact howned.effect heffect hsame.intent

section Trades

variable {w w' : World} {o : TradeOp} {r : Except Exc o.Result}

/-- A link is never lost. -/
theorem Tracked.linked_trade (h : Tracked w) (hforeign : isForeign o = false)
    (heffect : Effect o w.ledger w'.ledger) : ∀ legId, ∀ q ∈ w.history.reported legId,
      ∃ a, HasLeg a legId (fun leg => leg.exchangeOrderId ≠ none) w'.ledger := by
  intro legId q hq
  obtain ⟨a, hleg⟩ := h.linked legId q hq
  exact ⟨a, hleg.trade heffect (fun _ hP => hP) fun old new _ hm hP =>
    (legMove_keeps hm hforeign).1 hP⟩

/-- Nor is a trade of a leg that the transaction stores no trades of. -/
theorem Tracked.fetched_trade (h : Tracked w) (hforeign : isForeign o = false)
    (heffect : Effect o w.ledger w'.ledger) : ∀ legId ∈ w.hand.fetched,
      (∀ fills, o ≠ .persistFills legId fills) → ∃ a, HasLeg a legId
        (fun leg => ∀ q ∈ w.history.reported legId, q ≤ leg.filledQuantity) w'.ledger := by
  intro legId hmem hne
  obtain ⟨a, hleg⟩ := h.fetched legId hmem
  refine ⟨a, hleg.trade heffect (fun _ hP => hP) fun old new hid hm hP => ?_⟩
  rw [(legMove_keeps hm hforeign).2 fun fills => hid ▸ hne fills]
  exact hP

end Trades

section Traded

variable {w w' : World}

/-- An operation on the tables writes its own line in the history. -/
theorem traded_history {o : TradeOp} {r : Except Exc o.Result} (he : w.traded o = (r, w')) :
    w'.history = w.history.wrote o := by
  cases he
  rfl

/-- A reported order is linked, and what was fetched of it is out of date. -/
theorem Tracked.reconcileOrder {legId : Nat} {order : RemoteOrder}
    {r : Except Exc (TradeOp.reconcileOrder legId order).Result} (h : Tracked w) (hs : Sound w)
    (hpre : Pre (.trade (.reconcileOrder legId order)) w)
    (he : w.traded (.reconcileOrder legId order) = (r, w'))
    (heffect : Effect (.reconcileOrder legId order) w.ledger w'.ledger)
    (hchecked : ∀ leg ∈ w.ledger.legs, leg.id = legId → Ledger.checkRemoteOrder leg order = .ok ()) :
    Tracked w' := by
  have hforeign := (pre_trade hpre).1
  have hreported : w'.history.reported
      = Function.update w.history.reported legId (some order.filledQuantity) := by
    rw [traded_history he]
    rfl
  have hfetched : w'.hand.fetched = w.hand.fetched.filter (· ≠ legId) := by
    rw [(traded_pass he).2]
    rfl
  constructor
  · -- What was fetched of the other orders is in line as before.
    intro x hx
    rw [hfetched] at hx
    obtain ⟨hx, hne⟩ := List.mem_filter.mp hx
    have hne : x ≠ legId := by simpa using hne
    rw [hreported, Function.update_of_ne hne]
    exact h.fetched_trade hforeign heffect x hx fun fills h => by cases h
  · -- The order in hand was just reported, and the others keep what was reported of them.
    intro x q hq
    by_cases hx : x = legId
    · have hguard : LegGuard legId w := hpre
      obtain ⟨a, -, leg, hleg, hid, -⟩ := hguard
      rw [hx]
      exact LegGuard.written hs hpre he heffect hpre
        (reconcileRemoteOrder_linked hs he hleg hid (hchecked leg hleg hid))
    · rw [hreported, Function.update_of_ne hx] at hq
      exact h.linked_trade hforeign heffect x q hq

/-- A batch that is complete brings its leg up to what was reported, and any batch
leaves the other legs alone. -/
theorem Tracked.persistFills {legId : Nat} {fills : List RemoteFill}
    {r : Except Exc (TradeOp.persistFills legId fills).Result} (h : Tracked w) (hs : Sound w)
    (hpre : Pre (.trade (.persistFills legId fills)) w)
    (he : w.traded (.persistFills legId fills) = (r, w'))
    (heffect : Effect (.persistFills legId fills) w.ledger w'.ledger)
    (htimely : w.hand.complete → ∀ q ∈ w.history.reported legId, q ≤ batchTotal w.ledger legId fills) :
    Tracked w' := by
  have hforeign := (pre_trade hpre).1
  have hreported : w'.history.reported = w.history.reported := by
    rw [traded_history he]
    rfl
  have hhand : w'.hand = w.hand.wrote (.persistFills legId fills) r := (traded_pass he).2
  have hcommit : transact (.persistFills legId fills) w.now w.books = (r, w'.books) := by
    cases he
    rfl
  refine ⟨?_, hreported ▸ h.linked_trade hforeign heffect⟩
  rw [hreported]
  intro x hx
  rcases transact_cases hcommit with ⟨n, l, htx, rfl, hbooks⟩ | ⟨e, -, rfl, hbooks⟩
  · have hledger : w'.ledger = l := by
      show w'.books.ledger = l
      rw [hbooks]
      rfl
    rw [hhand] at hx
    rcases List.mem_append.mp (show x ∈ (if w.hand.complete then [legId] else [])
      ++ w.hand.fetched.filter (· ≠ legId) from hx) with hx | hx
    · split at hx
      · next hcomplete =>
          rw [List.mem_singleton.mp hx]
          obtain ⟨new, hnew_mem, hnew_id, htotal⟩ := persistRemoteFills_total htx
          rw [← hledger] at hnew_mem
          refine LegGuard.written hs hpre he heffect hpre ⟨new, hnew_mem, hnew_id, fun q hq => ?_⟩
          rw [htotal]
          exact htimely hcomplete q hq
      · cases hx
    · obtain ⟨hx, hne⟩ := List.mem_filter.mp hx
      have hne : x ≠ legId := by simpa using hne
      refine h.fetched_trade hforeign heffect x hx fun fills' heq => ?_
      cases heq
      exact hne rfl
  · -- Nothing was committed.
    have hledger : w'.ledger = w.ledger := by
      show w'.books.ledger = _
      rw [hbooks]
    rw [hhand] at hx
    rw [hledger]
    exact h.fetched x hx

/-- No other transaction changes what was reported or fetched. -/
theorem Tracked.other {o : TradeOp} {r : Except Exc o.Result} (h : Tracked w)
    (hforeign : isForeign o = false) (he : w.traded o = (r, w'))
    (heffect : Effect o w.ledger w'.ledger) (hr : ∀ legId order, o ≠ .reconcileOrder legId order)
    (hp : ∀ legId fills, o ≠ .persistFills legId fills) : Tracked w' := by
  have hreported : w'.history.reported = w.history.reported := by
    rw [traded_history he]
    cases o <;> first | rfl | exact absurd rfl (hr _ _)
  have hfetched : w'.hand.fetched = w.hand.fetched := by
    rw [(traded_pass he).2]
    exact wrote_fetched hr hp
  constructor
  · rw [hfetched, hreported]
    exact fun x hx => h.fetched_trade hforeign heffect x hx (hp x)
  · rw [hreported]
    exact h.linked_trade hforeign heffect

end Traded

/-- Every step of a covered run keeps what is fetched in line with what was
reported. -/
theorem tracked_kept : Kept FillsCovered Tracked where
  -- Others keep every leg, and fill none of the worker's.
  act := by
    intro a w hp _ hs h
    have hf := Act.foreignStep hs.reachable hp
    have hhistory : (a.apply w).history = w.history := by
      cases a <;> rfl
    refine ⟨?_, ?_⟩
    · rw [hhistory, (Act.apply_pass a w).2]
      intro legId hmem
      obtain ⟨b, hleg⟩ := h.fetched legId hmem
      exact ⟨b, hasLeg_stable (h := w.hand) hs.wellFormed hf hleg⟩
    · rw [hhistory]
      intro legId q hq
      obtain ⟨b, hleg⟩ := h.linked legId q hq
      exact ⟨b, hasLeg_stable (h := w.hand) hs.wellFormed hf hleg⟩
  -- Of the transactions only two change what was reported or fetched.
  trade := by
    intro o w r w' he ha hpre hs heffect h
    by_cases hr : ∃ legId order, o = .reconcileOrder legId order
    · obtain ⟨legId, order, rfl⟩ := hr
      exact h.reconcileOrder hs hpre he heffect ha.1
    · by_cases hp : ∃ legId fills, o = .persistFills legId fills
      · obtain ⟨legId, fills, rfl⟩ := hp
        exact h.persistFills hs hpre he heffect ha.2
      · exact h.other (pre_trade hpre).1 he heffect (fun legId order heq => hr ⟨legId, order, heq⟩)
          fun legId fills heq => hp ⟨legId, fills, heq⟩
  -- A new list of orders forgets what was fetched.
  query := by
    intro q w _ _ _ h
    refine ⟨?_, h.linked⟩
    show ∀ legId ∈ (w.hand.looked q).fetched, _
    cases q with
    | orderLegsForReconciliation a =>
        intro legId hmem
        cases hmem
    | _ => exact h.fetched
  control := fun state reason w _ _ _ h => ⟨h.fetched, h.linked⟩
  place := fun a order r w arrives _ _ _ h => ⟨h.fetched, h.linked⟩
  -- Answers of the exchange bring no fills by themselves.
  out := by
    intro o r w _ _ _ h
    have hhand : (w.hand.heard o r).fetched = w.hand.fetched := by
      unfold Hand.heard
      split <;> rfl
    refine ⟨?_, h.linked⟩
    show ∀ legId ∈ (w.hand.heard o r).fetched, _
    rw [hhand]
    exact h.fetched
  idle := fun w h => ⟨fun legId hmem => (by cases hmem), h.linked⟩

/-- In every run that keeps the condition the history accounts for the books. -/
theorem Reachable.tracked {s : State} (hs : Reachable FillsCovered s) : Tracked s.world := by
  refine tracked_kept.reachable (fun w hw => ⟨fun legId hmem => ?_, fun legId q hq => ?_⟩) hs
  · rw [hw.hand] at hmem
    cases hmem
  · rw [hw.history] at hq
    cases hq

/-! ## §4. Settlements. -/

/-- A settlement changes the status of an intent. -/
structure Settles (l l' : Ledger) (o : TradeOp) (i i' : TradeIntentRow) : Prop where
  kind : o = .settleOpen i.id ∨ o = .settleClose i.id
  before : i ∈ l.intents
  after : i' ∈ l'.intents
  same : i'.id = i.id
  moved : i'.status ≠ i.status

section Settles

variable {seen : List PairedPositionRow} {l l' : Ledger} {now : Int}

/-- An intent without fills has nothing on its books. -/
theorem openVerdict_noFills {intent : TradeIntentRow} {y : Layout} {spotFills fills : List FillRow}
    (h : openVerdict intent y spotFills fills = .ok .noFills) :
    spotBaseAfterFee y.spot (spotBaseFee intent.baseAsset spotFills) = 0
      ∧ y.perp.filledBase = 0 := by
  simp only [openVerdict] at h
  split at h
  · cases h
  split at h
  · cases h
  split at h
  · next hnone => exact hnone
  split at h
  · simp only [openImbalance, Except.ok.injEq] at h
    split at h
    · split at h <;> cases h
    · split at h
      · cases h
      split at h
      · cases h
      split at h
      · cases h
      split at h
      · cases h
      split at h <;> cases h
  · simp only [openBalanced, Except.ok.injEq] at h
    split at h
    · split at h <;> cases h
    · cases h

/-- A primary leg of a layout is one of its two. -/
theorem layout_primary_cases {intentId : Nat} {y : Layout} (hy : l.layout intentId = .ok y)
    {leg : OrderLegRow} (hleg : leg ∈ l.legs) (hintent : leg.tradeIntentId = intentId)
    (hname : leg.leg.isCompensation = false) : leg = y.spot ∨ leg = y.perp := by
  obtain ⟨-, -, hcomp, hperm⟩ := layout_legs hy
  have hmem : leg ∈ y.legs := hperm.mem_iff.mpr (mem_legsOfIntent.mpr ⟨hleg, hintent⟩)
  unfold Layout.legs at hmem
  rcases List.mem_cons.mp hmem with rfl | hmem
  · exact .inl rfl
  rcases List.mem_cons.mp hmem with rfl | hmem
  · exact .inr rfl
  · have hc := hcomp leg (by simpa using hmem)
    rw [hname] at hc
    cases hc

/-- The row of a moved intent. -/
theorem moveIntent_row {i i' : TradeIntentRow} {status : IntentStatus} {code : Option FailureCode}
    (h : i' ∈ (l.moveIntent i status code).2.intents) (hid : i'.id = i.id) :
    i'.status = status ∧ i'.failureCode = code := by
  rcases Table.mem_put.mp h with ⟨rfl, -⟩ | ⟨-, hne⟩
  · exact ⟨rfl, rfl⟩
  · exact absurd hid hne

theorem protect_row {intent moved i' : TradeIntentRow} {excess : OrderLegRow} {base : ℚ}
    (h : l.protect intent excess base now = .ok (moved, l')) (hi' : i' ∈ l'.intents)
    (hid : i'.id = intent.id) : i'.status = .compensating := by
  unfold Ledger.protect at h
  obtain ⟨leg, -, h⟩ := bind_eq_ok.mp h
  obtain ⟨l₁, -, h⟩ := bind_eq_ok.mp h
  cases h
  exact (moveIntent_row hi' hid).1

/-- Where nothing is written, no intent changes its status. -/
theorem not_moved (hw : WellFormed seen l) {i i' : TradeIntentRow} (hi : i ∈ l.intents)
    (hi' : i' ∈ l.intents) (hid : i'.id = i.id) (hmoved : i'.status ≠ i.status) : False := by
  have hsame : i' = i := hw.intents_unique.eq hi' hi hid
  rw [hsame] at hmoved
  exact hmoved rfl

/-- An opening intent fails for want of fills only if nothing is left of the
spot leg's, and the perpetual leg has none. -/
theorem settleLiveOpen_noFills (hw : WellFormed seen l) {i i' : TradeIntentRow}
    {r : Option Ledger.Settled} (h : Ledger.settleLiveOpen i.id now l = .ok (r, l'))
    (hi : i ∈ l.intents) (hi' : i' ∈ l'.intents) (hid : i'.id = i.id)
    (hmoved : i'.status ≠ i.status) (hfailed : i'.status = .failed)
    (hcode : i'.failureCode = some .noFills) :
    ∃ y, l.layout i.id = .ok y ∧ y.perp.filledBase = 0
      ∧ spotBaseAfterFee y.spot (spotBaseFee i.baseAsset (l.fillsOfLeg y.spot.id)) = 0 := by
  rcases Ledger.settleLiveOpen_ok h with ⟨rfl, -⟩ | ⟨intent, y, verdict, settled, hfind, -, -, hy,
    hverdict, happly, -⟩
  · exact absurd hmoved fun h => not_moved hw hi hi' hid h
  have hintent : intent = i := by
    obtain ⟨hmem, hkey⟩ := Table.find?_some hfind
    exact hw.intents_unique.eq hmem hi hkey
  rw [hintent] at hy hverdict happly
  -- Of the verdicts one only fails the intent with this code.
  cases verdict with
  | noFills =>
      obtain ⟨hspot, hperp⟩ := openVerdict_noFills hverdict
      exact ⟨y, hy, hperp, hspot⟩
  | pending =>
      cases happly
      exact absurd hmoved fun h => not_moved hw hi hi' hid h
  | protect excess base =>
      obtain ⟨⟨moved, l₁⟩, hprotect, happly⟩ := bind_eq_ok.mp happly
      cases happly
      rw [protect_row hprotect hi' hid] at hfailed
      cases hfailed
  | review =>
      cases happly
      have hrow := (moveIntent_row (l := l.pause Ledger.settlementPause) hi' hid).1
      rw [hrow] at hfailed
      cases hfailed
  | neutralized =>
      cases happly
      have hrow := (moveIntent_row hi' hid).2
      rw [hrow] at hcode
      cases hcode
  | hedge quantity s p cost =>
      cases happly
      have hrow := (moveIntent_row (l := { l with positions := _, nextId := _ }) hi' hid).1
      rw [hrow] at hfailed
      cases hfailed

/-- A closing intent fails for want of fills only if its legs have none. -/
theorem settleLiveClose_noFills (hw : WellFormed seen l) {i i' : TradeIntentRow}
    {r : Option Ledger.Settled} (h : Ledger.settleLiveClose i.id now l = .ok (r, l'))
    (hi : i ∈ l.intents) (hi' : i' ∈ l'.intents) (hid : i'.id = i.id)
    (hmoved : i'.status ≠ i.status) (hfailed : i'.status = .failed)
    (hcode : i'.failureCode = some .noFills) :
    ∃ y, l.layout i.id = .ok y ∧ y.perp.filledBase = 0 ∧ y.spot.filledBase = 0 := by
  rcases Ledger.settleLiveClose_ok h with ⟨rfl, -⟩ | ⟨intent, position, y, verdict, settled, hfind, -,
    -, -, hy, hverdict, happly, -⟩
  · exact absurd hmoved fun h => not_moved hw hi hi' hid h
  have hintent : intent = i := by
    obtain ⟨hmem, hkey⟩ := Table.find?_some hfind
    exact hw.intents_unique.eq hmem hi hkey
  rw [hintent] at hy hverdict happly
  -- Of the verdicts one only fails the intent with this code.
  cases verdict with
  | noFills =>
      obtain ⟨hspot, hperp⟩ := closeVerdict_noFills hverdict
      exact ⟨y, hy, hperp, hspot⟩
  | pending =>
      cases happly
      exact absurd hmoved fun h => not_moved hw hi hi' hid h
  | protect excess base =>
      obtain ⟨⟨moved, l₁⟩, hprotect, happly⟩ := bind_eq_ok.mp happly
      cases happly
      rw [protect_row hprotect hi' hid] at hfailed
      cases hfailed
  | review =>
      cases happly
      have hrow := (moveIntent_row (l := l.pause Ledger.settlementPause) hi' hid).1
      rw [hrow] at hfailed
      cases hfailed
  | settle o =>
      obtain ⟨l₁, -, happly⟩ := bind_eq_ok.mp happly
      cases happly
      obtain ⟨hstatus, hrow⟩ := moveIntent_row (l := { l₁ with positions := _ }) hi' hid
      rw [hstatus] at hfailed
      rw [hrow, Ledger.closeFailureCode, if_pos hfailed] at hcode
      cases hcode

end Settles

/-- In a run in which no complete batch of trades lags behind the last lookup of
its order, an intent is settled only with at least the quantities that were
reported of its primary legs, and never for want of fills if one was reported
with any. -/
theorem settled_as_reported {s s' : State} (hs : Reachable FillsCovered s) {o : TradeOp}
    {r : Except Exc o.Result} (hstep : system.Step runOnce s (.call (.trade o) r) s')
    (ha : FillsCovered s.world (.call (.trade o) r)) {i i' : TradeIntentRow}
    (hsettles : Settles s.world.ledger s'.world.ledger o i i') :
    ∀ leg ∈ s.world.ledger.legs, leg.tradeIntentId = i.id → leg.leg.isCompensation = false →
      ∀ q ∈ s.world.history.reported leg.id,
        q ≤ leg.filledQuantity ∧ (i'.status = .failed → i'.failureCode = some .noFills → q ≤ 0) := by
  have hsound := hs.sound
  have htracked := hs.tracked
  have hw := hsound.wellFormed
  cases hstep with
  | @call o w r w' k he =>
  have hpre : Pre (.trade o) w := hs.pre
  have hcommit : transact o w.now w.books = (r, w'.books) := by
    have he : w.traded o = (r, w') := he
    cases he
    rfl
  have hguard : SettleGuard i.id w := by
    rcases hsettles.kind with rfl | rfl
    · exact hpre
    · exact hpre
  obtain ⟨a, -, -, hfetched⟩ := hguard
  intro leg hleg hintent hname q hq
  have hle : q ≤ leg.filledQuantity := by
    rcases hfetched leg hleg hintent hname with hmem | hnone
    · obtain ⟨b, hrow⟩ := htracked.fetched leg.id hmem
      exact hrow.of_mem hw hleg q hq
    · obtain ⟨b, hrow⟩ := htracked.linked leg.id q hq
      exact absurd hnone (hrow.of_mem hw hleg)
  refine ⟨hle, fun hfailed hcode => hle.trans ?_⟩
  -- Neither primary leg has filled.
  have hzero : leg.filledBase = 0 := by
    rcases transact_cases hcommit with ⟨x, l, htx, -, hbooks⟩ | ⟨e, -, -, hbooks⟩
    · have hafter : i' ∈ l.intents := by
        have hmem : i' ∈ w'.books.ledger.intents := hsettles.after
        rw [hbooks] at hmem
        exact hmem
      rcases hsettles.kind with rfl | rfl
      · obtain ⟨y, hy, hperp, hspot⟩ := settleLiveOpen_noFills hw htx hsettles.before hafter
          hsettles.same hsettles.moved hfailed hcode
        rcases layout_primary_cases hy hleg hintent hname with rfl | rfl
        · by_contra hne
          exact ha.2 i hsettles.before rfl y.spot hleg hintent (layout_legs hy).1 hne hspot
        · exact hperp
      · obtain ⟨y, hy, hperp, hspot⟩ := settleLiveClose_noFills hw htx hsettles.before hafter
          hsettles.same hsettles.moved hfailed hcode
        rcases layout_primary_cases hy hleg hintent hname with rfl | rfl
        · exact hspot
        · exact hperp
    · have hmem : i' ∈ w'.books.ledger.intents := hsettles.after
      rw [hbooks] at hmem
      exact absurd hsettles.moved fun h => not_moved hw hsettles.before hmem hsettles.same h
  have hpos := leg.filledBase_pos_iff
  rw [hzero] at hpos
  exact le_of_not_gt fun h => lt_irrefl 0 (hpos.mpr h)

/-! ## §5. Concrete runs. -/

namespace Sample

/-- The orders are canceled with `filled` on each, and these are the trades. -/
def traded (filled : ℚ) (fills : Market → List RemoteFill) : (o : OutOp) → Except Exc o.Answer
  | .orderByClientId _ m _ clientOrderId =>
      let side : Side := if m = .spot then .buy else .sell
      .ok ⟨some { Paired.Sample.canceled m side clientOrderId 10 false with
        filledQuantity := filled }, true, none⟩
  | .fillsForOrder _ m .. => .ok ⟨fills m, true, none⟩
  | o => outside calm o

/-- A pair is planned once the execution is ready. -/
def plannedPair : World :=
  (Act.trade (.createOpen Paired.Sample.openPlan)).apply
    (system.idle (upTo calm (fun _ => false) empty).world)

/-- The pass that submits the pair, up to its settlement. -/
def settling (filled : ℚ) (fills : Market → List RemoteFill) : State :=
  System.play (answer (traded filled fills) true) (fun o => o matches .trade (.settleOpen _)) runOnce
    plannedPair

variable {allow : World → Label Op Rep Act → Prop} [∀ w l, Decidable (allow w l)]

theorem reached_settling {filled : ℚ} {fills : Market → List RemoteFill}
    (hready : System.follows (answers calm) (fun _ => false) allow runOnce empty)
    (hfree : ∀ w, allow w .start ∧ allow w .crash ∧ ∀ a, allow w (.act a))
    (hf : System.follows (answer (traded filled fills) true)
      (fun o => o matches .trade (.settleOpen _)) allow runOnce plannedPair) :
    Reachable allow (settling filled fills) := by
  have hpass := reached_empty.run (runsTo_upTo calm (fun _ => false) (hfree _).1 hready)
  have hidle := hpass.run (System.Run.leave (System.play_isSome _ _) (hfree _).2.1)
  have hplan := hidle.run (runsTo_meanwhile (.trade (.createOpen Paired.Sample.openPlan))
    ⟨rfl, trivial⟩ ((hfree _).2.2 _))
  exact hplan.run (System.Run.pass (exec_answer (traded filled fills) true) (hfree _).1 hf)

/-- All trades are there. -/
def whole : Market → List RemoteFill
  | .spot => [Paired.Sample.fill .spot .buy "s" 10 100 0]
  | .perp => [Paired.Sample.fill .perp .sell "p" 10 100 0]

/-- The settlement comes next. -/
theorem next_settling {filled : ℚ} {fills : Market → List RemoteFill}
    (h : (System.next (settling filled fills)).any (· matches .trade (.settleOpen 0)) = true) :
    System.next (settling filled fills) = some (.trade (.settleOpen 0)) := by
  cases hnext : System.next (settling filled fills) with
  | none =>
      rw [hnext] at h
      cases h
  | some o =>
      rw [hnext, Option.any_some] at h
      split at h
      · rfl
      · cases h

end Sample

theorem fillsCovered_free (w : World) : FillsCovered w .start ∧ FillsCovered w .crash
    ∧ ∀ a, FillsCovered w (.act a) :=
  ⟨⟨trivial, trivial⟩, ⟨trivial, trivial⟩, fun _ => ⟨trivial, trivial⟩⟩

/-- Both legs were reported filled, and settled as such. -/
theorem settled_as_reported_whole : ∃ s : State, Reachable FillsCovered s
    ∧ ∃ leg ∈ s.world.ledger.legs, s.world.history.reported leg.id = some 10
      ∧ 10 ≤ leg.filledQuantity := by
  have hs : Reachable FillsCovered (Sample.settling 10 Sample.whole) :=
    Sample.reached_settling (by decide +kernel) fillsCovered_free (by decide +kernel)
  have hnext := @Sample.next_settling 10 Sample.whole (by decide +kernel)
  obtain ⟨s', hstep, hworld⟩ : ∃ s', system.Step runOnce (Sample.settling 10 Sample.whole)
      (.call (.trade (.settleOpen 0))
        ((Sample.settling 10 Sample.whole).world.traded (.settleOpen 0)).1) s'
      ∧ s'.world = ((Sample.settling 10 Sample.whole).world.traded (.settleOpen 0)).2 :=
    System.Step.of_next hnext rfl
  -- The planned intent becomes hedged.
  have hrows : ∃ i ∈ (Sample.settling 10 Sample.whole).world.ledger.intents,
      ∃ i' ∈ ((Sample.settling 10 Sample.whole).world.traded (.settleOpen 0)).2.ledger.intents,
        i.id = 0 ∧ i'.id = i.id ∧ i'.status ≠ i.status := by decide +kernel
  obtain ⟨i, hi, i', hi', hid, hsame, hmoved⟩ := hrows
  have hsettles : Settles (Sample.settling 10 Sample.whole).world.ledger s'.world.ledger
      (.settleOpen 0) i i' := by
    rw [hworld]
    exact ⟨.inl (by rw [hid]), hi, hi', hsame, hmoved⟩
  have hlegs : ∃ leg ∈ (Sample.settling 10 Sample.whole).world.ledger.legs, leg.tradeIntentId = 0
      ∧ leg.leg.isCompensation = false
      ∧ (Sample.settling 10 Sample.whole).world.history.reported leg.id = some 10 := by
    decide +kernel
  obtain ⟨leg, hleg, hintent, hname, hreported⟩ := hlegs
  exact ⟨_, hs, leg, hleg, hreported,
    (settled_as_reported hs hstep (by decide +kernel) hsettles leg hleg (hintent.trans hid.symm)
      hname 10 hreported).1⟩

/-- Both orders are reported canceled with four units filled, their trades lag
behind, and the intent fails for want of fills. -/
theorem settled_short :
    ¬∀ (s s' : State) (o : TradeOp) (r : Except Exc o.Result) (i i' : TradeIntentRow),
      Reachable OrdersAgree s → system.Step runOnce s (.call (.trade o) r) s' →
      Settles s.world.ledger s'.world.ledger o i i' →
      ∀ leg ∈ s.world.ledger.legs, leg.tradeIntentId = i.id → leg.leg.isCompensation = false →
        ∀ q ∈ s.world.history.reported leg.id, q ≤ leg.filledQuantity := by
  intro h
  -- The pass has looked up both orders, and got no trades.
  have hs : Reachable OrdersAgree (Sample.settling 4 fun _ => []) :=
    Sample.reached_settling (by decide +kernel) (fun _ => ⟨trivial, trivial, fun _ => trivial⟩)
      (by decide +kernel)
  have hnext := @Sample.next_settling 4 (fun _ => []) (by decide +kernel)
  obtain ⟨s', hstep, hworld⟩ : ∃ s', system.Step runOnce (Sample.settling 4 fun _ => [])
      (.call (.trade (.settleOpen 0))
        ((Sample.settling 4 fun _ => []).world.traded (.settleOpen 0)).1) s'
      ∧ s'.world = ((Sample.settling 4 fun _ => []).world.traded (.settleOpen 0)).2 :=
    System.Step.of_next hnext rfl
  -- Its settlement fails the intent.
  have hrows : ∃ i ∈ (Sample.settling 4 fun _ => []).world.ledger.intents,
      ∃ i' ∈ ((Sample.settling 4 fun _ => []).world.traded (.settleOpen 0)).2.ledger.intents,
        i.id = 0 ∧ i'.id = i.id ∧ i'.status ≠ i.status := by decide +kernel
  -- While a leg stores less than the four units that were reported of it.
  have hlegs : ∃ leg ∈ (Sample.settling 4 fun _ => []).world.ledger.legs, leg.tradeIntentId = 0
      ∧ leg.leg.isCompensation = false
      ∧ (Sample.settling 4 fun _ => []).world.history.reported leg.id = some 4
      ∧ ¬4 ≤ leg.filledQuantity := by decide +kernel
  obtain ⟨i, hi, i', hi', hid, hsame, hmoved⟩ := hrows
  obtain ⟨leg, hleg, hintent, hname, hreported, hshort⟩ := hlegs
  have hsettles : Settles (Sample.settling 4 fun _ => []).world.ledger s'.world.ledger
      (.settleOpen 0) i i' := by
    rw [hworld]
    exact ⟨.inl (by rw [hid]), hi, hi', hsame, hmoved⟩
  exact hshort (h _ _ _ _ _ _ hs hstep hsettles leg hleg (hintent.trans hid.symm) hname 4 hreported)

end BasisHawk.Reconciliation
