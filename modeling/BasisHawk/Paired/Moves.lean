/-
  BasisHawk.Paired.Moves
  ──────────────────────
  What one transaction does to a leg, to an intent and to the control state.

  `Paired.Effects` says of every transaction that it is a sequence of row
  writes; here it is said which rows, from what to what.  A transaction
  rewrites some legs, each as `LegMove` says, and adds new ones; likewise for
  intents.

  Main results:
    • `TradeOp.effect` — the effect of every transaction,
    • `Effect.leg_back`, `Effect.leg_forth` — where a leg comes from and what
      becomes of it,
    • `Effect.client_ids` — client order ids stay unique.
-/
import BasisHawk.Paired.Effects

namespace BasisHawk.Paired

open Domain Lib Accounts

/-! ## §1. Rows that are rewritten. -/

/-- The columns of a leg that no transaction changes. -/
structure OrderLegRow.SameOrder (new old : OrderLegRow) : Prop where
  id : new.id = old.id
  intent : new.tradeIntentId = old.tradeIntentId
  leg : new.leg = old.leg
  market : new.market = old.market
  symbol : new.symbol = old.symbol
  side : new.side = old.side
  clientOrderId : new.clientOrderId = old.clientOrderId
  reduceOnly : new.reduceOnly = old.reduceOnly
  multiplier : new.baseMultiplier = old.baseMultiplier
  createdAt : new.createdAt = old.createdAt

theorem OrderLegRow.SameOrder.refl (o : OrderLegRow) : o.SameOrder o :=
  ⟨rfl, rfl, rfl, rfl, rfl, rfl, rfl, rfl, rfl, rfl⟩

/-- What stays the same of an order stays so over several steps. -/
theorem OrderLegRow.SameOrder.trans {a b c : OrderLegRow} (h : a.SameOrder b)
    (h' : b.SameOrder c) : a.SameOrder c :=
  ⟨h.id.trans h'.id, h.intent.trans h'.intent, h.leg.trans h'.leg, h.market.trans h'.market,
    h.symbol.trans h'.symbol, h.side.trans h'.side, h.clientOrderId.trans h'.clientOrderId,
    h.reduceOnly.trans h'.reduceOnly, h.multiplier.trans h'.multiplier,
    h.createdAt.trans h'.createdAt⟩

/-- The columns of an intent that no transaction changes. -/
structure TradeIntentRow.SameIntent (new old : TradeIntentRow) : Prop where
  id : new.id = old.id
  exchange : new.exchange = old.exchange
  environment : new.environment = old.environment
  action : new.action = old.action
  emergency : new.emergency = old.emergency
  createdAt : new.createdAt = old.createdAt

theorem TradeIntentRow.SameIntent.refl (i : TradeIntentRow) : i.SameIntent i :=
  ⟨rfl, rfl, rfl, rfl, rfl, rfl⟩

/-- What stays the same of an intent stays so over several steps. -/
theorem TradeIntentRow.SameIntent.trans {a b c : TradeIntentRow} (h : a.SameIntent b)
    (h' : b.SameIntent c) : a.SameIntent c :=
  ⟨h.id.trans h'.id, h.exchange.trans h'.exchange, h.environment.trans h'.environment,
    h.action.trans h'.action, h.emergency.trans h'.emergency, h.createdAt.trans h'.createdAt⟩

/-- The intent of a leg is a paper one. -/
def OnPaper (l : Ledger) (intentId : Nat) : Prop :=
  ∃ i ∈ l.intents, i.id = intentId ∧ i.environment = .paper

/-- How a transaction rewrites a leg. -/
def LegMove (o : TradeOp) (l : Ledger) (old new : OrderLegRow) : Prop :=
  match o with
  | .prepareSubmission intentId _ =>
      old.tradeIntentId = intentId ∧ old.leg.isCompensation = false ∧ old.status = .created
        ∧ ∃ price hq, new = { old with
          limitPrice := price, status := .submitted, quantity_pos := hq }
  | .prepareCompensation intentId .. =>
      old.tradeIntentId = intentId ∧ old.leg.isCompensation = true ∧ old.status = .created
        ∧ ∃ quantity tolerance limit hq ht, new = { old with
            quantity := quantity, compensationToleranceBase := tolerance, limitPrice := limit
            status := .submitted, quantity_pos := hq, tolerance_check := ht }
  | .recordSubmission legId s =>
      old.id = legId ∧ (old.status = .submitted ∨ old.status = .acknowledged)
        ∧ new = { old with
            exchangeOrderId := s.exchangeOrderId.or old.exchangeOrderId, status := .acknowledged }
  | .markSubmissionUnknown legId =>
      old.id = legId ∧ old.status = .submitted ∧ new = { old with status := .unknown }
  | .markSubmissionRejected legId code =>
      old.id = legId ∧ old.status = .submitted
        ∧ new = { old with status := .failed, failureCode := some code }
  | .markUnknownNotFound legId =>
      old.id = legId ∧ old.status = .unknown ∧ old.exchangeOrderId = none
        ∧ new = { old with status := .failed }
  | .persistFills legId fills =>
      old.id = legId ∧ ∃ link rows, Ledger.linkByFills old fills = .ok link
        ∧ new = Ledger.legByFills old link (l.fillsOfLeg old.id ++ rows)
  | .reconcileOrder legId order =>
      old.id = legId ∧ Ledger.checkRemoteOrder old order = .ok () ∧ new = { old with
        exchangeOrderId := some order.exchangeOrderId, status := Ledger.statusByLookup old order }
  | .paperOpenFills .. | .paperCompensation .. | .paperCloseFills .. | .paperCloseCompensation .. =>
      OnPaper l old.tradeIntentId ∧ new.status ≠ .created
  | .createOpen _ | .createClose _ | .expirePlanned _ | .failMarketUnexecutable _
  | .recordPreflightFailure .. | .settleOpen _ | .settleClose _ => False

/-- The intent a transaction adds a leg to. -/
def AddsLeg (o : TradeOp) (l : Ledger) (new : OrderLegRow) : Prop :=
  match o with
  | .createOpen _ | .createClose _ =>
      new.leg.isCompensation = false ∧ new.tradeIntentId = l.nextId
  | .settleOpen intentId | .settleClose intentId =>
      new.leg.isCompensation = true ∧ new.tradeIntentId = intentId
  | .paperOpenFills .. | .paperCloseFills .. => OnPaper l new.tradeIntentId
  | _ => False

/-- How a transaction rewrites an intent. -/
def IntentMove (o : TradeOp) (l' : Ledger) (old new : TradeIntentRow) : Prop :=
  match o with
  | .prepareSubmission intentId _ =>
      old.id = intentId ∧ old.environment ≠ .paper ∧ old.status = .planned
        ∧ new.status = .executing
  | .expirePlanned intentId | .failMarketUnexecutable intentId =>
      old.id = intentId ∧ old.environment ≠ .paper ∧ old.status = .planned ∧ new.status = .failed
  | .recordPreflightFailure intentId .. =>
      old.id = intentId ∧ old.status = .planned ∧ new.status = .planned
  | .settleOpen intentId | .settleClose intentId =>
      old.id = intentId ∧ old.environment ≠ .paper
        ∧ (old.status = .executing ∨ old.status = .compensating)
        ∧ (new.status = .compensating → ∃ row ∈ l'.control, row.state = .paused)
  | .paperOpenFills .. | .paperCompensation .. | .paperCloseFills .. | .paperCloseCompensation .. =>
      old.environment = .paper
  | _ => False

/-- Rows rewritten one by one, the others as they were. -/
def Rewritten {ρ : Type} (same move : ρ → ρ → Prop) (rows rows' : List ρ) : Prop :=
  ∃ f : ρ → ρ, rows' = rows.map f ∧ ∀ x ∈ rows, same (f x) x ∧ (f x = x ∨ move x (f x))

section Rewritten

variable {ρ : Type} {same move : ρ → ρ → Prop} {rows rows' : List ρ}

theorem Rewritten.refl (hsame : ∀ x, same x x) : Rewritten same move rows rows :=
  ⟨id, (List.map_id rows).symm, fun x _ => ⟨hsame x, .inl rfl⟩⟩

/-- One more row is rewritten, one that was not before. -/
theorem Rewritten.put [Keyed ρ] (h : Rewritten same move rows rows') {new : ρ}
    (hnew : ∀ x ∈ rows, key x = key new → same new x ∧ move x new)
    (hkey : ∀ x y, same x y → key x = key y) : Rewritten same move rows (Table.put rows' new) := by
  obtain ⟨f, rfl, hf⟩ := h
  refine ⟨fun x => if key (f x) = key new then new else f x, ?_, fun x hx => ?_⟩
  · unfold Table.put
    rw [List.map_map]
    rfl
  · obtain ⟨hsame, hmove⟩ := hf x hx
    dsimp only
    split
    · next hk =>
        obtain ⟨hs, hm⟩ := hnew x hx ((hkey _ _ hsame).symm.trans hk)
        exact ⟨hs, .inr hm⟩
    · exact ⟨hsame, hmove⟩

end Rewritten

/-! ## §2. Effects. -/

/-- New legs are not at the exchange, and their client order ids are unused. -/
structure NewLegs (o : TradeOp) (l : Ledger) (new : List OrderLegRow) : Prop where
  created : ∀ n ∈ new, n.status = .created ∧ n.exchangeOrderId = none ∧ n.filledQuantity = 0
  fresh : ∀ n ∈ new, l.nextId ≤ n.id ∧ AddsLeg o l n
  unused : ∀ n ∈ new, ∀ x ∈ l.legs, x.clientOrderId ≠ n.clientOrderId
  distinct : (new.map (·.clientOrderId)).Nodup

theorem NewLegs.nil {o : TradeOp} {l : Ledger} : NewLegs o l [] :=
  ⟨fun n hn => (by cases hn), fun n hn => (by cases hn), fun n hn => (by cases hn), List.nodup_nil⟩

/-- What a transaction does. -/
structure Effect (o : TradeOp) (l l' : Ledger) : Prop where
  legs : ∃ moved new, Rewritten OrderLegRow.SameOrder (LegMove o l) l.legs moved
    ∧ l'.legs = moved ++ new ∧ NewLegs o l new
  intents : ∃ moved new, Rewritten TradeIntentRow.SameIntent (IntentMove o l') l.intents moved
    ∧ l'.intents = moved ++ new ∧ ∀ i ∈ new, i.status = .planned ∧ i.id = l.nextId
  control : l'.control = l.control ∨ ∃ row ∈ l'.control, row.state = .paused

section

variable {o : TradeOp} {l l' : Ledger}

/-- Where a leg comes from. -/
theorem Effect.leg_back (h : Effect o l l') {new : OrderLegRow} (hnew : new ∈ l'.legs) :
    (∃ old ∈ l.legs, new.SameOrder old ∧ (new = old ∨ LegMove o l old new))
      ∨ (new.status = .created ∧ new.exchangeOrderId = none ∧ new.filledQuantity = 0
        ∧ l.nextId ≤ new.id ∧ AddsLeg o l new) := by
  obtain ⟨moved, added, ⟨f, rfl, hf⟩, heq, hadded⟩ := h.legs
  rw [heq] at hnew
  rcases List.mem_append.mp hnew with hnew | hnew
  · obtain ⟨old, hold, rfl⟩ := List.mem_map.mp hnew
    exact .inl ⟨old, hold, hf old hold⟩
  · obtain ⟨hs, hx, hq⟩ := hadded.created new hnew
    obtain ⟨hid, hadds⟩ := hadded.fresh new hnew
    exact .inr ⟨hs, hx, hq, hid, hadds⟩

/-- What becomes of a leg. -/
theorem Effect.leg_forth (h : Effect o l l') {old : OrderLegRow} (hold : old ∈ l.legs) :
    ∃ new ∈ l'.legs, new.SameOrder old ∧ (new = old ∨ LegMove o l old new) := by
  obtain ⟨moved, added, ⟨f, rfl, hf⟩, heq, -⟩ := h.legs
  rw [heq]
  exact ⟨f old, List.mem_append.mpr (.inl (List.mem_map_of_mem hold)), hf old hold⟩

/-- Where an intent comes from. -/
theorem Effect.intent_back (h : Effect o l l') {new : TradeIntentRow} (hnew : new ∈ l'.intents) :
    (∃ old ∈ l.intents, new.SameIntent old ∧ (new = old ∨ IntentMove o l' old new))
      ∨ (new.status = .planned ∧ new.id = l.nextId) := by
  obtain ⟨moved, added, ⟨f, rfl, hf⟩, heq, hadded⟩ := h.intents
  rw [heq] at hnew
  rcases List.mem_append.mp hnew with hnew | hnew
  · obtain ⟨old, hold, rfl⟩ := List.mem_map.mp hnew
    exact .inl ⟨old, hold, hf old hold⟩
  · exact .inr (hadded new hnew)

/-- What becomes of an intent. -/
theorem Effect.intent_forth (h : Effect o l l') {old : TradeIntentRow} (hold : old ∈ l.intents) :
    ∃ new ∈ l'.intents, new.SameIntent old ∧ (new = old ∨ IntentMove o l' old new) := by
  obtain ⟨moved, added, ⟨f, rfl, hf⟩, heq, -⟩ := h.intents
  rw [heq]
  exact ⟨f old, List.mem_append.mpr (.inl (List.mem_map_of_mem hold)), hf old hold⟩

/-- Client order ids stay unique. -/
theorem Effect.client_ids (h : Effect o l l') (hu : (l.legs.map (·.clientOrderId)).Nodup) :
    (l'.legs.map (·.clientOrderId)).Nodup := by
  obtain ⟨moved, added, ⟨f, rfl, hf⟩, heq, hadded⟩ := h.legs
  have hmap : (l.legs.map f).map (·.clientOrderId) = l.legs.map (·.clientOrderId) := by
    rw [List.map_map]
    exact List.map_congr_left fun x hx => (hf x hx).1.clientOrderId
  rw [heq, List.map_append, hmap]
  refine List.nodup_append.mpr ⟨hu, hadded.distinct, fun a ha b hb => ?_⟩
  obtain ⟨x, hx, rfl⟩ := List.mem_map.mp ha
  obtain ⟨n, hn, rfl⟩ := List.mem_map.mp hb
  exact hadded.unused n hn x hx

/-- Nothing is written. -/
theorem Effect.refl : Effect o l l where
  legs := ⟨l.legs, [], .refl OrderLegRow.SameOrder.refl, (List.append_nil _).symm, .nil⟩
  intents := ⟨l.intents, [], .refl TradeIntentRow.SameIntent.refl, (List.append_nil _).symm,
    fun i hi => (by cases hi)⟩
  control := .inl rfl

/-- Only legs are rewritten. -/
theorem Effect.of_legs {legs : List OrderLegRow} (hl : l'.legs = legs)
    (hlegs : Rewritten OrderLegRow.SameOrder (LegMove o l) l.legs legs)
    (hi : l'.intents = l.intents)
    (hc : l'.control = l.control ∨ ∃ row ∈ l'.control, row.state = .paused) : Effect o l l' where
  legs := ⟨legs, [], hlegs, by rw [hl, List.append_nil], .nil⟩
  intents := ⟨l.intents, [], .refl TradeIntentRow.SameIntent.refl, by rw [hi, List.append_nil],
    fun i hi => (by cases hi)⟩
  control := hc

/-- One leg is rewritten. -/
theorem Rewritten.leg {seen : List PairedPositionRow} (hw : WellFormed seen l) {legId : Nat}
    {old new : OrderLegRow} (hold : Table.find? l.legs legId = some old) (hsame : new.SameOrder old)
    (hmove : LegMove o l old new) :
    Rewritten OrderLegRow.SameOrder (LegMove o l) l.legs (Table.put l.legs new) := by
  refine Rewritten.put (.refl OrderLegRow.SameOrder.refl) (fun x hx hk => ?_) fun _ _ h => h.id
  have hxo : x = old := hw.legs_unique.eq hx (Table.find?_some hold).1 (hk.trans hsame.id)
  rw [hxo]
  exact ⟨hsame, hmove⟩

/-- One intent is moved. -/
theorem Rewritten.intent {seen : List PairedPositionRow} (hw : WellFormed seen l)
    {i : TradeIntentRow} (hi : i ∈ l.intents) {status : IntentStatus} {code : Option FailureCode}
    (hmove : ∀ new : TradeIntentRow, new.status = status → new.SameIntent i →
      IntentMove o l' i new) :
    Rewritten TradeIntentRow.SameIntent (IntentMove o l') l.intents
      (l.moveIntent i status code).2.intents := by
  refine Rewritten.put (.refl TradeIntentRow.SameIntent.refl) (fun x hx hk => ?_) fun _ _ h => h.id
  have hxi : x = i := hw.intents_unique.eq hx hi hk
  subst hxi
  exact ⟨⟨rfl, rfl, rfl, rfl, rfl, rfl⟩, hmove _ rfl ⟨rfl, rfl, rfl, rfl, rfl, rfl⟩⟩

/-- Only one intent is moved. -/
theorem Effect.of_intent {seen : List PairedPositionRow} (hw : WellFormed seen l)
    {i : TradeIntentRow} (hi : i ∈ l.intents) {status : IntentStatus} {code : Option FailureCode}
    (hl : l'.legs = l.legs) (hl' : l'.intents = (l.moveIntent i status code).2.intents)
    (hc : l'.control = l.control ∨ ∃ row ∈ l'.control, row.state = .paused)
    (hmove : ∀ new : TradeIntentRow, new.status = status → new.SameIntent i →
      IntentMove o l' i new) : Effect o l l' where
  legs := ⟨l.legs, [], .refl OrderLegRow.SameOrder.refl, by rw [hl, List.append_nil], .nil⟩
  intents := ⟨_, [], Rewritten.intent hw hi hmove, by rw [hl', List.append_nil],
    fun i hi => (by cases hi)⟩
  control := hc

end

/-! ## §3. Planning and submission. -/

variable {seen : List PairedPositionRow} {l l' : Ledger} {now : Int}

/-- Two new primary legs of a new intent. -/
theorem NewLegs.pair {o : TradeOp} {a b : OrderLegRow}
    (ha : a.status = .created ∧ a.exchangeOrderId = none ∧ a.filledQuantity = 0)
    (hb : b.status = .created ∧ b.exchangeOrderId = none ∧ b.filledQuantity = 0)
    (hia : l.nextId ≤ a.id ∧ AddsLeg o l a) (hib : l.nextId ≤ b.id ∧ AddsLeg o l b)
    (hunused : ∀ x ∈ l.legs, ∀ n ∈ [a, b], x.clientOrderId ≠ n.clientOrderId)
    (hne : a.clientOrderId ≠ b.clientOrderId) : NewLegs o l [a, b] where
  created := by
    intro n hn
    rw [List.mem_cons, List.mem_singleton] at hn
    rcases hn with rfl | rfl
    · exact ha
    · exact hb
  fresh := by
    intro n hn
    rw [List.mem_cons, List.mem_singleton] at hn
    rcases hn with rfl | rfl
    · exact hia
    · exact hib
  unused := fun n hn x hx => hunused x hx n hn
  distinct := by
    show [a.clientOrderId, b.clientOrderId].Nodup
    rw [List.nodup_cons]
    exact ⟨fun h => hne (List.mem_singleton.mp h), List.nodup_singleton _⟩

/-- A plan adds an intent and its two legs. -/
theorem Effect.of_plan {o : TradeOp} {i : TradeIntentRow} {legs : List OrderLegRow}
    (hlegs : NewLegs o l legs) (hi : i.status = .planned ∧ i.id = l.nextId)
    (hl : l'.legs = l.legs ++ legs) (hl' : l'.intents = l.intents ++ [i])
    (hc : l'.control = l.control) : Effect o l l' where
  legs := ⟨l.legs, legs, .refl OrderLegRow.SameOrder.refl, hl, hlegs⟩
  intents := ⟨l.intents, [i], .refl TradeIntentRow.SameIntent.refl, hl', fun j hj => by
    rw [List.mem_singleton.mp hj]
    exact hi⟩
  control := .inl hc

/-- A new opening adds an intent with its two legs and moves nothing. -/
theorem createTradeIntent_effect {plan : OpenPlan} {r : TradeIntentRow × Bool}
    (h : Ledger.createTradeIntent plan now l = .ok (r, l')) : Effect (.createOpen plan) l l' := by
  rcases Ledger.createTradeIntent_ok h with ⟨rfl, -⟩ | ⟨hunused, -, rfl⟩
  · exact .refl
  · refine .of_plan (.pair ⟨rfl, rfl, rfl⟩ ⟨rfl, rfl, rfl⟩ ⟨Nat.le_add_right _ 1, rfl, rfl⟩
      ⟨Nat.le_add_right _ 2, rfl, rfl⟩ hunused ?_) ⟨rfl, rfl⟩ rfl rfl rfl
    exact primaryClientOrderId_ne plan.environment plan.exchange plan.token

/-- A new close adds an intent with its two legs, and its position is reserved.
-/
theorem createPaperCloseIntent_effect {plan : ClosePlan} {r : TradeIntentRow × Bool}
    (h : Ledger.createPaperCloseIntent plan now l = .ok (r, l')) :
    Effect (.createClose plan) l l' := by
  rcases Ledger.createPaperCloseIntent_ok h with ⟨rfl, -⟩ | ⟨position, -, -, hunused, -, rfl⟩
  · exact .refl
  · refine .of_plan (.pair ⟨rfl, rfl, rfl⟩ ⟨rfl, rfl, rfl⟩ ⟨Nat.le_add_right _ 1, rfl, rfl⟩
      ⟨Nat.le_add_right _ 2, rfl, rfl⟩ hunused ?_) ⟨rfl, rfl⟩ rfl rfl rfl
    exact primaryClientOrderId_ne plan.read.environment plan.read.exchange plan.token

/-- A submission is handed out: the intent is executing, and the legs keep what
they are. -/
theorem prepareLiveSubmission_effect (hw : WellFormed seen l) {intentId : Nat}
    {adjusted : Option ℚ} {r : Ledger.Prepared}
    (h : Ledger.prepareLiveSubmission intentId adjusted l = .ok (r, l')) :
    Effect (.prepareSubmission intentId adjusted) l l' := by
  rcases Ledger.prepareLiveSubmission_ok h with ⟨rfl, -⟩ | ⟨i, spot, perp, price, hq, hi, hplanned,
    henv, -, hlegs, hspot, hperp, rfl, -⟩
  · exact .refl
  · obtain ⟨hmem, hid⟩ := Table.find?_some hi
    have hid : i.id = intentId := hid
    obtain ⟨⟨hs, hs_intent, hs_name⟩, hp, hp_intent, hp_name⟩ := Ledger.primaryLegs_ok hlegs
    -- The two legs are different rows, so each is rewritten once.
    refine ⟨⟨_, [], Rewritten.put (Rewritten.put (.refl OrderLegRow.SameOrder.refl) ?_
      fun _ _ h => h.id) ?_ fun _ _ h => h.id, (List.append_nil _).symm, .nil⟩,
      ⟨_, [], Rewritten.intent hw hmem ?_, (List.append_nil _).symm, fun i hi => (by cases hi)⟩,
      .inl rfl⟩
    · intro x hx hk
      have hxs : x = spot := hw.legs_unique.eq hx hs hk
      rw [hxs]
      exact ⟨⟨rfl, rfl, rfl, rfl, rfl, rfl, rfl, rfl, rfl, rfl⟩, hs_intent.trans hid,
        by rw [hs_name]; rfl, hspot, spot.limitPrice, spot.quantity_pos, rfl⟩
    · intro x hx hk
      have hxp : x = perp := hw.legs_unique.eq hx hp hk
      rw [hxp]
      exact ⟨⟨rfl, rfl, rfl, rfl, rfl, rfl, rfl, rfl, rfl, rfl⟩, hp_intent.trans hid,
        by rw [hp_name]; rfl, hperp, price, hq, rfl⟩
    · exact fun new hnew _ => ⟨hid, henv, hplanned, hnew⟩

/-- A protection leg is handed out with the terms that were asked for. -/
theorem prepareLiveCompensation_effect (hw : WellFormed seen l) {intentId : Nat}
    {limit quantity tolerance : ℚ} {r : Ledger.Prepared}
    (h : Ledger.prepareLiveCompensation intentId limit quantity tolerance l = .ok (r, l')) :
    Effect (.prepareCompensation intentId limit quantity tolerance) l l' := by
  rcases Ledger.prepareLiveCompensation_ok h with ⟨rfl, -⟩ | ⟨i, c, hq, ht, hi, -, hc, hcreated, -,
    rfl, -⟩
  · exact .refl
  · obtain ⟨hmem, hintent, hname⟩ := Ledger.mem_of_filter_eq hc
    have hid : i.id = intentId := (Table.find?_some hi).2
    refine .of_legs rfl (Rewritten.put (.refl OrderLegRow.SameOrder.refl) (fun x hx hk => ?_)
      fun _ _ h => h.id) rfl (.inl rfl)
    have hxc : x = c := hw.legs_unique.eq hx hmem hk
    rw [hxc]
    exact ⟨⟨rfl, rfl, rfl, rfl, rfl, rfl, rfl, rfl, rfl, rfl⟩, hintent.trans hid, hname, hcreated,
      quantity, tolerance, limit, hq, ht, rfl⟩

/-- An intent that is given up. -/
theorem failPlanned_effect {o : TradeOp} (hw : WellFormed seen l) {intentId : Nat}
    {code : FailureCode} {r : Bool} (h : Ledger.failPlanned intentId code l = .ok (r, l'))
    (hmove : ∀ l' (old new : TradeIntentRow), old.id = intentId → old.environment ≠ .paper →
      old.status = .planned → new.status = .failed → IntentMove o l' old new) : Effect o l l' := by
  rcases Ledger.failPlanned_ok h with rfl | ⟨i, hi, ⟨hlive, hplanned⟩, hend⟩
  · exact .refl
  obtain ⟨hmem, hid⟩ := Table.find?_some hi
  -- Whether it holds a position or not, the intent and nothing else is moved.
  rcases hend with ⟨p, -, -, rfl⟩ | ⟨rfl, -⟩ <;>
    exact .of_intent hw hmem rfl rfl (.inl rfl) fun new hnew _ => hmove _ _ _ hid hlive hplanned hnew

/-- A preflight that fails ends the intent before any order of it was sent. -/
theorem recordLivePreflightFailure_effect (hw : WellFormed seen l) {intentId : Nat}
    {exchange : Exchange} {code : FailureCode} {u : Unit}
    (h : Ledger.recordLivePreflightFailure intentId exchange code l = .ok (u, l')) :
    Effect (.recordPreflightFailure intentId exchange code) l l' := by
  obtain ⟨reason, rfl | ⟨i, hi, hplanned, rfl⟩⟩ := Ledger.recordLivePreflightFailure_ok h
  · exact .of_legs rfl (.refl OrderLegRow.SameOrder.refl) rfl (.inr ⟨_, rfl, rfl⟩)
  · obtain ⟨hmem, hid⟩ := Table.find?_some hi
    exact .of_intent hw hmem rfl rfl (.inr ⟨_, rfl, rfl⟩) fun new hnew _ => ⟨hid, hplanned, hnew⟩

/-! ## §4. One leg. -/

/-- One leg is rewritten in other columns than those of its order. -/
theorem Effect.of_leg {o : TradeOp} (hw : WellFormed seen l) {legId : Nat} {old new : OrderLegRow}
    (hold : Table.find? l.legs legId = some old) (hl : l'.legs = Table.put l.legs new)
    (hi : l'.intents = l.intents) (hc : l'.control = l.control) (hsame : new.SameOrder old)
    (hmove : LegMove o l old new) : Effect o l l' :=
  .of_legs hl (Rewritten.leg hw hold hsame hmove) hi (.inl hc)

/-- One leg is rewritten if it is still submitted, with a pause. -/
theorem Effect.of_legIf {o : TradeOp} (hw : WellFormed seen l) {legId : Nat}
    {old new : OrderLegRow} {reason : String} (hold : Table.find? l.legs legId = some old)
    (c : Prop) [Decidable c] (hsame : new.SameOrder old) (hmove : c → LegMove o l old new) :
    Effect o l
      ({ l with legs := if c then Table.put l.legs new else l.legs : Ledger }.pause reason) := by
  refine .of_legs rfl ?_ rfl (.inr ⟨_, rfl, rfl⟩)
  split
  · next hc => exact Rewritten.leg hw hold hsame (hmove hc)
  · exact .refl OrderLegRow.SameOrder.refl

/-! ## §5. Settlements. -/

theorem insertLeg_unused {leg : OrderLegRow} (h : l.insertLeg leg = .ok l') :
    ∀ x ∈ l.legs, x.clientOrderId ≠ leg.clientOrderId := by
  simp only [Ledger.insertLeg, raiseIf_bind_eq_ok] at h
  exact fun x hx heq => h.1 ⟨x, hx, heq⟩

/-- The one leg that a protection adds is new in every respect. -/
theorem NewLegs.single {o : TradeOp} {n : OrderLegRow}
    (hn : n.status = .created ∧ n.exchangeOrderId = none ∧ n.filledQuantity = 0)
    (hid : l.nextId ≤ n.id ∧ AddsLeg o l n)
    (hunused : ∀ x ∈ l.legs, x.clientOrderId ≠ n.clientOrderId) : NewLegs o l [n] where
  created := by
    intro m hm
    rw [List.mem_singleton.mp hm]
    exact hn
  fresh := by
    intro m hm
    rw [List.mem_singleton.mp hm]
    exact hid
  unused := by
    intro m hm
    rw [List.mem_singleton.mp hm]
    exact hunused
  distinct := List.nodup_singleton _

/-- A protection leg is added, its intent moved and the execution paused. -/
theorem protect_effect {o : TradeOp} (hw : WellFormed seen l) {intent i' : TradeIntentRow}
    {excess : OrderLegRow} {base : ℚ} (hi : intent ∈ l.intents)
    (hname : excess.leg.isCompensation = false)
    (h : l.protect intent excess base now = .ok (i', l'))
    (hadds : ∀ n : OrderLegRow, n.leg.isCompensation = true → n.tradeIntentId = intent.id →
      AddsLeg o l n)
    (hmove : ∀ l' (new : TradeIntentRow), (∃ row ∈ l'.control, row.state = .paused) →
      IntentMove o l' intent new) : Effect o l l' := by
  unfold Ledger.protect at h
  obtain ⟨leg, hleg, h⟩ := bind_eq_ok.mp h
  obtain ⟨l₁, h₁, h⟩ := bind_eq_ok.mp h
  have hunused := insertLeg_unused h₁
  obtain ⟨-, rfl⟩ := Ledger.insertLeg_ok h₁
  cases h
  unfold liveCompensationLeg at hleg
  split at hleg
  · cases hleg
  · cases hleg
    have hcomp : excess.leg.protection.isCompensation = true := by
      cases hx : excess.leg with
      | primary m => rfl
      | compensation m =>
          rw [hx] at hname
          cases hname
    refine ⟨⟨l.legs, _, .refl OrderLegRow.SameOrder.refl, rfl,
      .single ⟨rfl, rfl, rfl⟩ ⟨le_refl _, hadds _ hcomp rfl⟩ hunused⟩,
      ⟨_, [], Rewritten.intent hw hi fun new _ _ => hmove _ new ⟨_, rfl, rfl⟩,
        (List.append_nil _).symm, fun i hi => (by cases hi)⟩, .inr ⟨_, rfl, rfl⟩⟩

/-- The excess leg of a valid layout is a primary one. -/
theorem layout_primary {intentId : Nat} {y : Layout} (hy : l.layout intentId = .ok y)
    {excess : OrderLegRow} (hexcess : excess = y.spot ∨ excess = y.perp) :
    excess.leg.isCompensation = false := by
  obtain ⟨hspot, hperp, -, -⟩ := layout_legs hy
  rcases hexcess with rfl | rfl
  · rw [hspot]
    rfl
  · rw [hperp]
    rfl

/-- Settling an opening moves the intent along its life, and adds a protection
leg at most. -/
theorem settleLiveOpen_effect (hw : WellFormed seen l) {intentId : Nat}
    {r : Option Ledger.Settled} (h : Ledger.settleLiveOpen intentId now l = .ok (r, l')) :
    Effect (.settleOpen intentId) l l' := by
  rcases Ledger.settleLiveOpen_ok h with ⟨rfl, -⟩ | ⟨intent, y, verdict, settled, hintent, -,
    hsettleable, hy, hverdict, happly, -⟩
  · exact .refl
  obtain ⟨hmem, hid⟩ := Table.find?_some hintent
  have hid : intent.id = intentId := hid
  have hlive : intent.environment ≠ .paper := by
    rcases hsettleable.1 with he | he <;> rw [he] <;> exact fun h => (by cases h)
  have hopen := hsettleable.2.2
  -- One case for each verdict; only `protect` adds a leg.
  cases verdict with
  | pending =>
      cases happly
      exact .refl
  | protect excess base =>
      obtain ⟨⟨i', l₁⟩, hprotect, happly⟩ := bind_eq_ok.mp happly
      cases happly
      exact protect_effect hw hmem (layout_primary hy (Ledger.openVerdict_protect hverdict).1)
        hprotect (fun n hn hni => ⟨hn, hni.trans hid⟩) fun l' new hp => ⟨hid, hlive, hopen, fun _ => hp⟩
  -- A review pauses the control with the move.
  | review =>
      cases happly
      exact .of_intent hw hmem rfl rfl (.inr ⟨_, rfl, rfl⟩) fun new hnew _ =>
        ⟨hid, hlive, hopen, fun _ => ⟨_, rfl, rfl⟩⟩
  | noFills =>
      cases happly
      exact .of_intent hw hmem rfl rfl (.inl rfl) fun new hnew _ =>
        ⟨hid, hlive, hopen, fun hc => by rw [hnew] at hc; cases hc⟩
  | neutralized =>
      cases happly
      exact .of_intent hw hmem rfl rfl (.inl rfl) fun new hnew _ =>
        ⟨hid, hlive, hopen, fun hc => by rw [hnew] at hc; cases hc⟩
  | hedge quantity s p cost =>
      cases happly
      exact .of_intent hw hmem rfl rfl (.inl rfl) fun new hnew _ =>
        ⟨hid, hlive, hopen, fun hc => by rw [hnew] at hc; cases hc⟩

/-- A booked close ends the intent. -/
theorem closeVerdict_settled {intent : TradeIntentRow} {position : PairedPositionRow} {y : Layout}
    {fills : List FillRow} {o : CloseOutcome}
    (h : closeVerdict intent position y fills = .ok (.settle o)) :
    o.status = .closed ∨ o.status = .failed := by
  obtain ⟨-, ⟨-, c, common, fees, profit, -, -, -, houtcome⟩ | ⟨-, -, -, -, -, -, -, -, hstatus⟩⟩ :=
    Ledger.closeVerdict_settle h
  · obtain ⟨-, -, -, -, hstatus⟩ := closeCompensatedOutcome_ok houtcome
    exact hstatus
  · exact .inl hstatus

/-- So does settling a close. -/
theorem settleLiveClose_effect (hw : WellFormed seen l) {intentId : Nat}
    {r : Option Ledger.Settled} (h : Ledger.settleLiveClose intentId now l = .ok (r, l')) :
    Effect (.settleClose intentId) l l' := by
  rcases Ledger.settleLiveClose_ok h with ⟨rfl, -⟩ | ⟨intent, position, y, verdict, settled, hintent,
    -, hsettleable, -, hy, hverdict, happly, -⟩
  · exact .refl
  obtain ⟨hmem, hid⟩ := Table.find?_some hintent
  have hid : intent.id = intentId := hid
  have hlive : intent.environment ≠ .paper := by
    rcases hsettleable.1 with he | he <;> rw [he] <;> exact fun h => (by cases h)
  have hopen := hsettleable.2.2
  -- One case for each verdict; only `protect` adds a leg.
  cases verdict with
  | pending =>
      cases happly
      exact .refl
  | protect excess base =>
      obtain ⟨⟨i', l₁⟩, hprotect, happly⟩ := bind_eq_ok.mp happly
      cases happly
      exact protect_effect hw hmem (layout_primary hy (Ledger.closeVerdict_protect hverdict).1)
        hprotect (fun n hn hni => ⟨hn, hni.trans hid⟩) fun l' new hp => ⟨hid, hlive, hopen, fun _ => hp⟩
  | review =>
      cases happly
      exact .of_intent hw hmem rfl rfl (.inr ⟨_, rfl, rfl⟩) fun new hnew _ =>
        ⟨hid, hlive, hopen, fun _ => ⟨_, rfl, rfl⟩⟩
  | noFills =>
      cases happly
      exact .of_intent hw hmem rfl rfl (.inl rfl) fun new hnew _ =>
        ⟨hid, hlive, hopen, fun hc => by rw [hnew] at hc; cases hc⟩
  -- A booked close ends in `closed` or goes to review, and is not compensating.
  | settle o =>
      have hstatus : o.status ≠ .compensating := by
        rcases closeVerdict_settled hverdict with hs | hs <;> rw [hs] <;> exact fun h => (by cases h)
      obtain ⟨l₁, hrow, happly⟩ := bind_eq_ok.mp happly
      obtain ⟨-, -, -, -, row, -, rfl⟩ := Ledger.insertRealization_ok hrow
      cases happly
      exact .of_intent hw hmem rfl rfl (.inl rfl) fun new hnew _ =>
        ⟨hid, hlive, hopen, fun hc => absurd (hnew.symm.trans hc) hstatus⟩

/-! ## §6. Paper executions. -/

/-- A transaction of the paper executor. -/
def TradeOp.isPaper : TradeOp → Bool
  | .paperOpenFills .. | .paperCompensation .. | .paperCloseFills .. | .paperCloseCompensation .. =>
      true
  | _ => false

/-- A leg of a paper intent may move as it likes: nothing of it is at an
exchange. -/
theorem legMove_of_paper {o : TradeOp} (ho : o.isPaper) {old new : OrderLegRow}
    (h : OnPaper l old.tradeIntentId) (hs : new.status ≠ .created) : LegMove o l old new := by
  cases o <;> first | exact ⟨h, hs⟩ | cases ho

/-- So may the intent. -/
theorem intentMove_of_paper {o : TradeOp} (ho : o.isPaper) {old new : TradeIntentRow}
    (h : old.environment = .paper) : IntentMove o l old new := by
  cases o <;> first | exact h | cases ho

/-- Legs of a paper intent are rewritten, and its status changes. -/
theorem Effect.of_paper {o : TradeOp} (hw : WellFormed seen l) (ho : o.isPaper)
    {intent : TradeIntentRow} (hi : intent ∈ l.intents) (henv : intent.environment = .paper)
    {status : IntentStatus} {code : Option FailureCode} {moved new : List OrderLegRow}
    (hmoved : Rewritten OrderLegRow.SameOrder (LegMove o l) l.legs moved) (hnew : NewLegs o l new)
    (hl : l'.legs = moved ++ new) (hl' : l'.intents = (l.moveIntent intent status code).2.intents)
    (hc : l'.control = l.control ∨ ∃ row ∈ l'.control, row.state = .paused) : Effect o l l' where
  legs := ⟨moved, new, hmoved, hl, hnew⟩
  intents := ⟨_, [], Rewritten.intent hw hi fun _ _ _ => intentMove_of_paper ho henv,
    by rw [hl', List.append_nil], fun i hi => (by cases hi)⟩
  control := hc

theorem paperFilled_same (leg : OrderLegRow) (quantity : ℚ) (hq : 0 ≤ quantity) :
    (paperFilled leg quantity hq).SameOrder leg :=
  ⟨rfl, rfl, rfl, rfl, rfl, rfl, rfl, rfl, rfl, rfl⟩

theorem paperFailed_same (leg : OrderLegRow) :
    ({ leg with status := .failed } : OrderLegRow).SameOrder leg :=
  ⟨rfl, rfl, rfl, rfl, rfl, rfl, rfl, rfl, rfl, rfl⟩

theorem paperFilled_status (leg : OrderLegRow) (quantity : ℚ) (hq : 0 ≤ quantity) :
    (paperFilled leg quantity hq).status ≠ .created := by
  intro h
  unfold paperFilled at h
  dsimp only at h
  split at h
  · cases h
  · split at h <;> cases h

/-- A leg of a paper intent is rewritten. -/
theorem Rewritten.paper {o : TradeOp} (hw : WellFormed seen l) (ho : o.isPaper)
    {intent : TradeIntentRow} (hi : intent ∈ l.intents) (henv : intent.environment = .paper)
    {moved : List OrderLegRow}
    (hmoved : Rewritten OrderLegRow.SameOrder (LegMove o l) l.legs moved) {old new : OrderLegRow}
    (hold : old ∈ l.legs) (hintent : old.tradeIntentId = intent.id) (hsame : new.SameOrder old)
    (hs : new.status ≠ .created) :
    Rewritten OrderLegRow.SameOrder (LegMove o l) l.legs (Table.put moved new) := by
  refine Rewritten.put hmoved (fun x hx hk => ?_) fun _ _ h => h.id
  have hxo : x = old := hw.legs_unique.eq hx hold (hk.trans hsame.id)
  rw [hxo]
  exact ⟨hsame, legMove_of_paper ho ⟨intent, hi, hintent.symm, henv⟩ hs⟩

/-- Both primary legs of a paper intent are filled. -/
theorem Rewritten.paperLegs {o : TradeOp} (hw : WellFormed seen l) (ho : o.isPaper)
    {intent : TradeIntentRow} (hi : intent ∈ l.intents) (henv : intent.environment = .paper)
    {spot perp : OrderLegRow} (hlegs : l.paperLegs intent.id = some (spot, perp)) {qs qp : ℚ}
    (hs : 0 ≤ qs) (hp : 0 ≤ qp) :
    Rewritten OrderLegRow.SameOrder (LegMove o l) l.legs
      (Table.put (Table.put l.legs (paperFilled spot qs hs)) (paperFilled perp qp hp)) := by
  obtain ⟨⟨hspot, hs_intent, -⟩, hperp, hp_intent, -⟩ := Ledger.paperLegs_ok hlegs
  have hfirst : Rewritten OrderLegRow.SameOrder (LegMove o l) l.legs
      (Table.put l.legs (paperFilled spot qs hs)) :=
    Rewritten.paper hw ho hi henv (.refl OrderLegRow.SameOrder.refl) hspot hs_intent
      (paperFilled_same spot qs hs) (paperFilled_status spot qs hs)
  exact Rewritten.paper hw ho hi henv hfirst hperp hp_intent (paperFilled_same perp qp hp)
    (paperFilled_status perp qp hp)

/-- After its legs were filled a paper intent is protected. -/
theorem protectPaper_effect {o : TradeOp} (hw : WellFormed seen l) (ho : o.isPaper)
    {l₁ : Ledger} {intent i' : TradeIntentRow} (hi : intent ∈ l.intents)
    (henv : intent.environment = .paper) {excess : OrderLegRow} {quantity : ℚ} {hq : 0 < quantity}
    (h : l₁.protectPaper intent excess quantity now hq = .ok (i', l'))
    (hmoved : Rewritten OrderLegRow.SameOrder (LegMove o l) l.legs l₁.legs)
    (hintents : l₁.intents = l.intents) (hcontrol : l₁.control = l.control)
    (hnext : l.nextId ≤ l₁.nextId)
    (hadds : ∀ n : OrderLegRow, n.tradeIntentId = intent.id → AddsLeg o l n) : Effect o l l' := by
  obtain ⟨leg, rfl, hinsert, rfl⟩ := Ledger.protectPaper_ok h
  have hunused := insertLeg_unused hinsert
  obtain ⟨f, hf, hsame⟩ := hmoved
  have hmove : (l₁.moveIntent intent .compensating intent.failureCode).2.intents
      = (l.moveIntent intent .compensating intent.failureCode).2.intents := by
    show Table.put l₁.intents _ = Table.put l.intents _
    rw [hintents]
  refine .of_paper hw ho hi henv ⟨f, hf, hsame⟩
    (.single ⟨rfl, rfl, rfl⟩ ⟨hnext, hadds _ rfl⟩ fun x hx hcid => ?_) rfl hmove (.inl hcontrol)
  refine hunused (f x) ?_ ((hsame x hx).1.clientOrderId.trans hcid)
  rw [hf]
  exact List.mem_map_of_mem hx

/-- After its legs were filled the end of a paper opening moves its intent. -/
theorem PaperOpened.effect {o : TradeOp} (hw : WellFormed seen l) (ho : o.isPaper) {l₁ : Ledger}
    {intent : TradeIntentRow} {spot perp : OrderLegRow}
    (h : Ledger.PaperOpened intent spot perp now l₁ l') (hi : intent ∈ l.intents)
    (henv : intent.environment = .paper)
    (hmoved : Rewritten OrderLegRow.SameOrder (LegMove o l) l.legs l₁.legs)
    (hintents : l₁.intents = l.intents) (hcontrol : l₁.control = l.control) : Effect o l l' := by
  have hmove : ∀ status code, (l₁.moveIntent intent status code).2.intents
      = (l.moveIntent intent status code).2.intents := by
    intro status code
    show Table.put l₁.intents _ = Table.put l.intents _
    rw [hintents]
  cases h with
  | hedged hq =>
      exact .of_paper hw ho hi henv hmoved .nil (List.append_nil _).symm (hmove _ _) (.inl hcontrol)
  | failed code =>
      exact .of_paper hw ho hi henv hmoved .nil (List.append_nil _).symm (hmove _ _) (.inl hcontrol)

/-- The fills of a paper opening end its legs. -/
theorem recordPaperOpenFills_effect (hw : WellFormed seen l) {intentId : Nat}
    {spotFill perpFill : ℚ} {r : Option Ledger.Settled}
    (h : Ledger.recordPaperOpenFills intentId spotFill perpFill now l = .ok (r, l')) :
    Effect (.paperOpenFills intentId spotFill perpFill) l l' := by
  rcases Ledger.recordPaperOpenFills_ok h with
    rfl | ⟨intent, spot, perp, hfilled, hintent, ⟨henv, -, -⟩, hend⟩
  · exact .refl
  have hi := (Table.find?_some hintent).1
  have hmoved := Rewritten.paperLegs (o := .paperOpenFills intentId spotFill perpFill) hw rfl hi henv
    hfilled.legs hfilled.spot_range.1 hfilled.perp_range.1
  rcases hend with ⟨excess, quantity, hq, i', -, hprotect⟩ | hend
  · exact protectPaper_effect hw rfl hi henv hprotect hmoved rfl rfl (Nat.le_add_right _ 2)
      fun n hn => ⟨intent, hi, hn.symm, henv⟩
  · exact PaperOpened.effect hw rfl hend hi henv hmoved rfl rfl

/-- The protection leg of a paper intent is rewritten. -/
theorem Rewritten.paperCompensation {o : TradeOp} (hw : WellFormed seen l) (ho : o.isPaper)
    {intent : TradeIntentRow} (hi : intent ∈ l.intents) (henv : intent.environment = .paper)
    {c new : OrderLegRow} (hc : (l.legsOfIntent intent.id).filter (·.leg.isCompensation) = [c])
    (hsame : new.SameOrder c) (hs : new.status ≠ .created) :
    Rewritten OrderLegRow.SameOrder (LegMove o l) l.legs (Table.put l.legs new) := by
  obtain ⟨hmem, hintent, -⟩ := Ledger.mem_of_filter_eq hc
  exact Rewritten.paper hw ho hi henv (.refl OrderLegRow.SameOrder.refl) hmem hintent hsame hs

/-- A paper compensation that fails ends its leg and goes to review. -/
theorem failPaperCompensation_effect {o : TradeOp} (hw : WellFormed seen l) (ho : o.isPaper)
    {intent : TradeIntentRow} (hi : intent ∈ l.intents) (henv : intent.environment = .paper)
    {c : OrderLegRow} (hc : (l.legsOfIntent intent.id).filter (·.leg.isCompensation) = [c]) :
    Effect o l (l.failPaperCompensation intent c).2 := by
  have hmoved := Rewritten.paperCompensation hw ho hi henv hc (paperFailed_same c)
    fun h => (by cases h)
  exact .of_paper hw ho hi henv hmoved .nil (List.append_nil _).symm rfl (.inr ⟨_, rfl, rfl⟩)

/-- One that is filled ends its leg. -/
theorem fillPaperCompensation_moved {o : TradeOp} (hw : WellFormed seen l) (ho : o.isPaper)
    {intent : TradeIntentRow} (hi : intent ∈ l.intents) (henv : intent.environment = .paper)
    {c : OrderLegRow} (hc : (l.legsOfIntent intent.id).filter (·.leg.isCompensation) = [c]) :
    Rewritten OrderLegRow.SameOrder (LegMove o l) l.legs
      (l.fillPaperCompensation intent c now).legs :=
  Rewritten.paperCompensation hw ho hi henv hc (paperFilled_same c c.quantity c.quantity_pos.1.le)
    (paperFilled_status _ _ _)

/-- So does a paper compensation. -/
theorem executePaperCompensation_effect (hw : WellFormed seen l) {intentId : Nat}
    {succeeds : Bool} {r : Option Ledger.Settled}
    (h : Ledger.executePaperCompensation intentId succeeds now l = .ok (r, l')) :
    Effect (.paperCompensation intentId succeeds) l l' := by
  rcases Ledger.executePaperCompensation_ok h with
    rfl | ⟨intent, spot, perp, c, hintent, ⟨henv, -, -⟩, -, hc, hend⟩
  · exact .refl
  have hi := (Table.find?_some hintent).1
  rcases hend with rfl | hend
  · exact failPaperCompensation_effect hw rfl hi henv hc
  · exact PaperOpened.effect hw rfl hend hi henv (fillPaperCompensation_moved hw rfl hi henv hc)
      rfl rfl

/-- After its legs were filled a booked paper close moves its intent. -/
theorem applyPaperCloseOutcome_effect {o : TradeOp} (hw : WellFormed seen l) (ho : o.isPaper)
    {l₁ : Ledger} {intent : TradeIntentRow} {position : PairedPositionRow}
    {spot perp : OrderLegRow} {fee : ℚ} {settled : Ledger.Settled}
    (h : l₁.applyPaperCloseOutcome intent position spot perp fee now = .ok (settled, l'))
    (hi : intent ∈ l.intents) (henv : intent.environment = .paper)
    (hmoved : Rewritten OrderLegRow.SameOrder (LegMove o l) l.legs l₁.legs)
    (hintents : l₁.intents = l.intents) (hcontrol : l₁.control = l.control) : Effect o l l' := by
  obtain ⟨outcome, row, -, -, rfl⟩ := Ledger.applyPaperCloseOutcome_ok h
  have hmove : ∀ status code, (l₁.moveIntent intent status code).2.intents
      = (l.moveIntent intent status code).2.intents := by
    intro status code
    show Table.put l₁.intents _ = Table.put l.intents _
    rw [hintents]
  exact .of_paper hw ho hi henv hmoved .nil (List.append_nil _).symm (hmove _ _) (.inl hcontrol)

/-- The fills of a paper close end its legs. -/
theorem recordPaperCloseFills_effect (hw : WellFormed seen l) {intentId : Nat}
    {spotFill perpFill : ℚ} {r : Option Ledger.Settled}
    (h : Ledger.recordPaperCloseFills intentId spotFill perpFill now l = .ok (r, l')) :
    Effect (.paperCloseFills intentId spotFill perpFill) l l' := by
  rcases Ledger.recordPaperCloseFills_ok h with
    rfl | ⟨intent, position, spot, perp, hfilled, hintent, hclosing, hend⟩
  · exact .refl
  have henv := hclosing.1
  have hi := (Table.find?_some hintent).1
  have hmoved := Rewritten.paperLegs (o := .paperCloseFills intentId spotFill perpFill) hw rfl hi henv
    hfilled.legs hfilled.spot_range.1 hfilled.perp_range.1
  rcases hend with ⟨excess, quantity, hq, i', -, hprotect⟩ | ⟨_, _, _, settled, happly⟩
  · exact protectPaper_effect hw rfl hi henv hprotect hmoved rfl rfl (Nat.le_add_right _ 2)
      fun n hn => ⟨intent, hi, hn.symm, henv⟩
  · exact applyPaperCloseOutcome_effect hw rfl happly hi henv hmoved rfl rfl

/-- And so does its compensation. -/
theorem executePaperCloseCompensation_effect (hw : WellFormed seen l) {intentId : Nat}
    {succeeds : Bool} {r : Option Ledger.Settled}
    (h : Ledger.executePaperCloseCompensation intentId succeeds now l = .ok (r, l')) :
    Effect (.paperCloseCompensation intentId succeeds) l l' := by
  rcases Ledger.executePaperCloseCompensation_ok h with
    rfl | ⟨intent, position, c, hintent, hclosing, hc, hend⟩
  · exact .refl
  have henv := hclosing.1
  have hi := (Table.find?_some hintent).1
  rcases hend with rfl | ⟨_, _, _, settled, happly⟩
  · exact failPaperCompensation_effect hw rfl hi henv hc
  · exact applyPaperCloseOutcome_effect hw rfl happly hi henv
      (fillPaperCompensation_moved hw rfl hi henv hc) rfl rfl

/-! ## §7. All transactions. -/

/-- What every committed transaction does. -/
theorem TradeOp.effect (o : TradeOp) {r : o.Result} (hw : WellFormed seen l)
    (h : o.tx now l = .ok (r, l')) : Effect o l l' := by
  cases o with
  | createOpen plan => exact createTradeIntent_effect h
  | createClose plan => exact createPaperCloseIntent_effect h
  | prepareSubmission intentId adjusted => exact prepareLiveSubmission_effect hw h
  | prepareCompensation intentId limit quantity tolerance =>
      exact prepareLiveCompensation_effect hw h
  | expirePlanned intentId =>
      exact failPlanned_effect hw h fun _ _ _ hid henv hp hf => ⟨hid, henv, hp, hf⟩
  | failMarketUnexecutable intentId =>
      exact failPlanned_effect hw h fun _ _ _ hid henv hp hf => ⟨hid, henv, hp, hf⟩
  | recordPreflightFailure intentId exchange code => exact recordLivePreflightFailure_effect hw h
  -- Each of these moves one leg.
  | recordSubmission legId s =>
      obtain ⟨leg, hleg, hstatus, rfl⟩ := Ledger.recordOrderSubmission_ok h
      exact .of_leg hw hleg rfl rfl rfl ⟨rfl, rfl, rfl, rfl, rfl, rfl, rfl, rfl, rfl, rfl⟩
        ⟨(Table.find?_some hleg).2, hstatus, rfl⟩
  | markSubmissionUnknown legId =>
      obtain ⟨leg, reason, hleg, rfl⟩ := Ledger.markOrderSubmissionUnknown_ok h
      exact .of_legIf hw hleg (leg.status = .submitted)
        ⟨rfl, rfl, rfl, rfl, rfl, rfl, rfl, rfl, rfl, rfl⟩
        fun hs => ⟨(Table.find?_some hleg).2, hs, rfl⟩
  | markSubmissionRejected legId code =>
      obtain ⟨leg, reason, hleg, rfl⟩ := Ledger.markOrderSubmissionRejected_ok h
      exact .of_legIf hw hleg (leg.status = .submitted)
        ⟨rfl, rfl, rfl, rfl, rfl, rfl, rfl, rfl, rfl, rfl⟩
        fun hs => ⟨(Table.find?_some hleg).2, hs, rfl⟩
  | markUnknownNotFound legId =>
      obtain ⟨leg, hleg, ⟨rfl, -⟩ | ⟨hs, hx, rfl⟩⟩ := Ledger.markUnknownOrderNotFound_ok h
      · exact .refl
      · exact .of_leg hw hleg rfl rfl rfl ⟨rfl, rfl, rfl, rfl, rfl, rfl, rfl, rfl, rfl, rfl⟩
          ⟨(Table.find?_some hleg).2, hs, hx, rfl⟩
  | persistFills legId fills =>
      obtain ⟨leg, link, rows, hleg, hlink, -, -, rfl⟩ := Ledger.persistRemoteFills_ok h
      exact .of_leg hw hleg rfl rfl rfl ⟨rfl, rfl, rfl, rfl, rfl, rfl, rfl, rfl, rfl, rfl⟩
        ⟨(Table.find?_some hleg).2, link, rows, hlink, rfl⟩
  | reconcileOrder legId order =>
      obtain ⟨leg, hleg, hcheck, rfl⟩ := Ledger.reconcileRemoteOrder_ok h
      exact .of_leg hw hleg rfl rfl rfl ⟨rfl, rfl, rfl, rfl, rfl, rfl, rfl, rfl, rfl, rfl⟩
        ⟨(Table.find?_some hleg).2, hcheck, rfl⟩
  | settleOpen intentId => exact settleLiveOpen_effect hw h
  | settleClose intentId => exact settleLiveClose_effect hw h
  | paperOpenFills intentId spot perp => exact recordPaperOpenFills_effect hw h
  | paperCompensation intentId succeeds => exact executePaperCompensation_effect hw h
  | paperCloseFills intentId spot perp => exact recordPaperCloseFills_effect hw h
  | paperCloseCompensation intentId succeeds => exact executePaperCloseCompensation_effect hw h

/-- Client order ids are unique at any time. -/
theorem Reachable.client_ids {b : Books} (hb : Reachable b) :
    (b.ledger.legs.map (·.clientOrderId)).Nodup := by
  induction hb with
  | init h =>
      rw [h.legs]
      exact List.nodup_nil
  | step hb hs ih =>
      cases hs with
      | tx hi h => exact (TradeOp.effect _ hb.wellFormed h).client_ids ih
      | control row => exact ih

end BasisHawk.Paired
