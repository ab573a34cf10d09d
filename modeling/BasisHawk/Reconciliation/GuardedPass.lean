/-
  BasisHawk.Reconciliation.GuardedPass
  ────────────────────────────────────
  The walk through `run_once`: every operation of a pass meets its guard.

  The parts follow the service in the order of its call tree, leaves first:
  one order leg, the settlements, one account, the pass.

  Main results:
    • `runOnce_guarded` — the whole pass, from any sound world,
    • `Reachable.sound`, `Reachable.pre` — the invariant and the guards in
      every reachable state,
    • `Kept.runs`, `Kept.reachable` — induction over runs with the guards at
      hand.
-/
import BasisHawk.Reconciliation.ExecutorPass

namespace BasisHawk.Reconciliation

open Domain Lib Accounts Paired

/-! ## §1. One order leg. -/

/-- A leg of the account with this id, and what is known of it. -/
def HasLeg (a : Account) (legId : Nat) (P : OrderLegRow → Prop) (l : Ledger) : Prop :=
  ∃ row ∈ l.legs, row.id = legId ∧ Owned a l row ∧ P row

/-- What the loop over the legs keeps: the legs still to come are as they were
read, those done have their trades stored if `ok`, and no other primary leg of
these intents exists. -/
structure Legs (a : Account) (ids intents : List Nat) (todo : List OrderLegRow) (done : List Nat)
    (ok : Prop) (l : Ledger) (h : Hand) : Prop where
  pending : ∀ row ∈ todo, row ∈ l.legs ∧ Owned a l row
  stored : ∀ legId ∈ done, HasLeg a legId (fun row => ok → IsFetched h row) l
  known : ∀ i ∈ intents, ∃ row ∈ l.intents, row.id = i ∧ a.owns row
  covers : ∀ row ∈ l.legs, row.tradeIntentId ∈ intents → row.leg.isCompensation = false →
    row.id ∈ ids

section Legs

variable {a : Account} {ids intents : List Nat} {todo : List OrderLegRow} {done : List Nat}
  {ok ok' : Prop} {l l' : Ledger} {h h' : Hand} {P : OrderLegRow → Prop} {legId : Nat}

/-- Others leave the leg that the loop has in hand alone. -/
theorem hasLeg_stable : TableStable fun l _ => HasLeg a legId P l := by
  rintro seen l l' h hw hf ⟨row, hrow, hid, howned, hP⟩
  exact ⟨row, hf.leg hw hrow howned, hid, hf.owned howned, hP⟩

/-- What the loop over the legs keeps is stable: others add no primary leg to
these intents. -/
theorem legs_stable : TableStable (Legs a ids intents todo done ok) := by
  intro seen l l' h hw hf hl
  refine ⟨fun row hrow => ?_, fun legId hid => ?_, fun i hi => ?_, fun row hrow hi hname => ?_⟩
  · obtain ⟨hmem, howned⟩ := hl.pending row hrow
    exact ⟨hf.leg hw hmem howned, hf.owned howned⟩
  · exact hasLeg_stable (h := h) hw hf (hl.stored legId hid)
  · exact hf.intent (hl.known i hi)
  · obtain ⟨i, hmem, hid, howns⟩ := hl.known _ hi
    exact hl.covers row (hf.leg_back hw hrow hmem hid howns) hi hname

/-- What holds stably on two counts holds stably on both. -/
theorem TableStable.and {A B : Ledger → Hand → Prop} (hA : TableStable A) (hB : TableStable B) :
    TableStable fun l h => A l h ∧ B l h :=
  fun _ _ _ _ hw hf h => ⟨hA hw hf h.1, hB hw hf h.2⟩

/-- The fact that the trades are stored may be forgotten. -/
theorem Legs.weaken (hl : Legs a ids intents todo done ok l h) (hok : ok' → ok) :
    Legs a ids intents todo done ok' l h := by
  refine ⟨hl.pending, fun legId hid => ?_, hl.known, hl.covers⟩
  obtain ⟨row, hrow, hrow_id, howned, hP⟩ := hl.stored legId hid
  exact ⟨row, hrow, hrow_id, howned, fun h => hP (hok h)⟩

/-- A transaction that leaves these legs alone. -/
theorem Legs.trade {o : TradeOp} (he : Effect o l l') (hl : Legs a ids intents todo done ok l h)
    (hmove : ∀ old new, LegMove o l old new → old.id ∉ todo.map (·.id) ∧ old.id ∉ done)
    (hadds : ∀ new, AddsLeg o l new → new.leg.isCompensation = true)
    (hfetched : ∀ legId ∈ done, legId ∈ h.fetched → legId ∈ h'.fetched) :
    Legs a ids intents todo done ok l' h' := by
  refine ⟨fun row hrow => ?_, fun legId hid => ?_, fun i hi => ?_, fun row hrow hi hname => ?_⟩
  · obtain ⟨hmem, howned⟩ := hl.pending row hrow
    obtain ⟨new, hnew, -, rfl | hm⟩ := he.leg_forth hmem
    · exact ⟨hnew, howned.effect he rfl⟩
    · exact absurd (List.mem_map_of_mem hrow) (hmove _ _ hm).1
  · obtain ⟨row, hrow, hrow_id, howned, hP⟩ := hl.stored legId hid
    obtain ⟨new, hnew, -, rfl | hm⟩ := he.leg_forth hrow
    · refine ⟨new, hnew, hrow_id, howned.effect he rfl, fun hok => (hP hok).imp (fun hf => ?_) id⟩
      rw [hrow_id] at hf ⊢
      exact hfetched legId hid hf
    · exact absurd (hrow_id ▸ hid) (hmove _ _ hm).2
  · obtain ⟨row, hrow, hid, howns⟩ := hl.known i hi
    obtain ⟨new, hnew, hsame, -⟩ := he.intent_forth hrow
    exact ⟨new, hnew, hsame.id.trans hid, hsame.exchange.trans howns.1,
      hsame.environment.trans howns.2⟩
  · rcases he.leg_back hrow with ⟨old, hold, hsame, -⟩ | ⟨-, -, -, -, hnew⟩
    · rw [hsame.id]
      refine hl.covers old hold ?_ ?_
      · rw [← hsame.intent]
        exact hi
      · rw [← hsame.leg]
        exact hname
    · rw [hadds row hnew] at hname
      cases hname

/-- The leg in hand is done. -/
theorem Legs.finish (hl : Legs a ids intents todo done ok l h)
    (hleg : HasLeg a legId (fun row => ok → IsFetched h row) l) :
    Legs a ids intents todo (legId :: done) ok l h := by
  refine ⟨hl.pending, fun x hx => ?_, hl.known, hl.covers⟩
  rcases List.mem_cons.mp hx with rfl | hx
  · exact hleg
  · exact hl.stored x hx

end Legs

/-- Everything about the orders and the trades is known. -/
def Tally.Complete (t : Tally) : Prop := t.orderComplete ∧ t.fillComplete

/-- The leg in hand: it has no order, or it was submitted. -/
def Located (exchangeOrderId : Option String) (row : OrderLegRow) : Prop :=
  match exchangeOrderId with
  | none => row.exchangeOrderId = none
  | some _ => row.status ≠ .created

section OneLeg

variable {a : Account} {ids intents done : List Nat} {rest : List OrderLegRow} {p : Pass}
  (hp : p.Reconciles a)

/-- The loop over the legs is at the leg with this id. -/
abbrev AtLeg (a : Account) (ids intents done : List Nat) (rest : List OrderLegRow) (ok : Prop)
    (legId : Nat) (P : OrderLegRow → Prop) : Ledger → Hand → Prop :=
  fun l h => Legs a ids intents rest done ok l h ∧ HasLeg a legId P l

/-- How a part of the loop ends: `A` holds of its value, and an exception leaves
the pass where it is. -/
def EndsIn {α : Type} (A : α → Ledger → Hand → Prop) (p : Pass) (r : Except Exc α) (w : World) :
    Prop :=
  match r with
  | .ok x => At (A x) p w
  | .error _ => Sound w ∧ w.pass = p

/-- A part that raises leaves the pass where it is. -/
theorem At.endsIn_error {α : Type} {A : Ledger → Hand → Prop} {B : α → Ledger → Hand → Prop}
    {w : World} (h : At A p w) (e : Exc) : EndsIn B p (.error e : Except Exc α) w :=
  ⟨h.sound, h.pass⟩

/-- The transactions on one leg leave the pass alone. -/
theorem traded_pass {o : TradeOp} {r : Except Exc o.Result} {w w' : World}
    (he : w.traded o = (r, w')) : w'.pass = w.pass ∧ w'.hand = w.hand.wrote o r := by
  cases he
  exact ⟨rfl, rfl⟩

include hp in
/-- The trades of a leg: the leg is done, and its trades are stored if the
listing was complete. -/
theorem wp_reconcileFills {t : Tally} {leg : OrderLegRow} {x : Option String}
    (hrest : leg.id ∉ rest.map (·.id)) (hdone : leg.id ∉ done) {w : World}
    (h : At (AtLeg a ids intents done rest t.Complete leg.id (Located x)) p w) :
    Wp (reconcileFills a t leg x) (EndsIn (fun t' l h => (t'.Complete → t.Complete)
      ∧ Legs a ids intents rest (leg.id :: done) t'.Complete l h) p) w := by
  have hstable : TableStable (AtLeg a ids intents done rest t.Complete leg.id (Located x)) :=
    legs_stable.and hasLeg_stable
  cases x with
  -- Without an exchange id there are no fills to ask for.
  | none =>
      obtain ⟨hlegs, row, hrow, hid, howned, hnone⟩ := h.holds
      have hfinish : ∀ ok, (ok → t.Complete) →
          Legs a ids intents rest (leg.id :: done) ok w.ledger w.hand := fun ok hok =>
        (hlegs.weaken hok).finish ⟨row, hrow, hid, howned, fun _ => .inr hnone⟩
      simp only [reconcileFills]
      split
      · exact ⟨h.sound, ⟨id, hfinish _ id⟩, h.pass⟩
      · have hopen : ∀ reason, (t.fillsOpen reason).Complete → t.Complete :=
          fun reason hc => absurd hc.2 (by simp [Tally.fillsOpen])
        exact ⟨h.sound, ⟨hopen _, hfinish _ (hopen _)⟩, h.pass⟩
  | some exchangeOrderId =>
      refine System.wp_bind _ _ _ (wp_ask hstable h (fun _ _ h => (by cases h)) fun w h r => ?_)
      -- When the request raises, only the bookkeeping is known.
      cases r with
      | error e => exact ⟨h.sound.of_books rfl, h.pass⟩
      | ok batch =>
          have hlegs := h.holds.1
          have h₁ : At (fun l h => AtLeg a ids intents done rest t.Complete leg.id
              (Located (some exchangeOrderId)) l h ∧ h.complete = batch.complete) p
              { w with hand := { w.hand with complete := batch.complete } } :=
            ⟨h.sound.of_books rfl,
              ⟨⟨⟨hlegs.pending, hlegs.stored, hlegs.known, hlegs.covers⟩, h.holds.2⟩, rfl⟩, h.pass⟩
          refine System.wp_bind _ _ _ (wp_trade (hstable.and fun _ _ _ _ _ _ h => h) h₁ (fun w h => ?_)
            fun w h r w' he hsound heffect => ?_)
          · obtain ⟨row, hrow, hid, howned, hstatus⟩ := h.holds.1.2
            exact ⟨a, h.pass ▸ hp, row, hrow, hid, howned, hstatus⟩
          · obtain ⟨hpass, hhand⟩ := traded_pass he
            cases r with
            | error e => exact ⟨hsound, hpass.trans h.pass⟩
            | ok n =>
                obtain ⟨⟨hlegs, row, hrow, hid, howned, -⟩, hcomplete⟩ := h.holds
                have hfetched : w'.hand.fetched = (if batch.complete then [leg.id] else [])
                    ++ w.hand.fetched.filter (· ≠ leg.id) := by
                  rw [hhand, ← hcomplete]
                  rfl
                -- The fills of this leg do not touch what was found out about the others.
                have hlegs' : Legs a ids intents rest done t.Complete w'.ledger w'.hand := by
                  refine hlegs.trade heffect (fun old new hm => ?_) (fun new hn => (by cases hn))
                    fun legId hmem hf => ?_
                  · rw [hm.1]
                    exact ⟨hrest, hdone⟩
                  · rw [hfetched]
                    refine List.mem_append.mpr (.inr (List.mem_filter.mpr ⟨hf, ?_⟩))
                    have hne : legId ≠ leg.id := fun heq => hdone (heq ▸ hmem)
                    simpa using hne
                obtain ⟨new, hnew, hsame, -⟩ := heffect.leg_forth hrow
                have hfinish : ∀ ok, (ok → t.Complete) → (ok → batch.complete) →
                    Legs a ids intents rest (leg.id :: done) ok w'.ledger w'.hand := by
                  intro ok hok hbatch
                  refine (hlegs'.weaken hok).finish
                    ⟨new, hnew, hsame.id.trans hid, howned.effect heffect hsame.intent,
                      fun ho => .inl ?_⟩
                  rw [hfetched, if_pos (hbatch ho), hsame.id, hid]
                  exact List.mem_append.mpr (.inl (List.mem_singleton_self _))
                dsimp only
                split
                · next hc =>
                    exact ⟨hsound, ⟨id, hfinish _ id fun _ => hc⟩, hpass.trans h.pass⟩
                · exact ⟨hsound, ⟨fun hc => absurd hc.2 (by simp [Tally.fillsOpen]),
                    hfinish _ (fun hc => absurd hc.2 (by simp [Tally.fillsOpen]))
                      fun hc => absurd hc.2 (by simp [Tally.fillsOpen])⟩, hpass.trans h.pass⟩

/-- What the lookup of an order leaves of the leg. -/
abbrev AfterLookup (a : Account) (ids intents done : List Nat) (rest : List OrderLegRow) (t : Tally)
    (leg : OrderLegRow) (x : Tally × OrderLegRow × Option String) : Ledger → Hand → Prop :=
  fun l h => (x.1.Complete → t.Complete) ∧ x.2.1.id = leg.id
    ∧ x.2.1.tradeIntentId = leg.tradeIntentId
    ∧ AtLeg a ids intents done rest t.Complete leg.id (Located x.2.2) l h

/-- An order that is still open leaves the tally incomplete. -/
theorem Tally.not_complete_orderOpen (t : Tally) (reason : String) :
    ¬(t.orderOpen reason).Complete := fun h => by cases h.1

include hp in
/-- The lookup of an active order: the leg comes out with what was reported, or
the tally is incomplete. -/
theorem wp_reconcileOrder {t : Tally} {leg : OrderLegRow} (hactive : leg.status.isActive)
    (hrest : leg.id ∉ rest.map (·.id)) (hdone : leg.id ∉ done) {w : World}
    (h : At (AtLeg a ids intents done rest t.Complete leg.id (· = leg)) p w) :
    Wp (reconcileOrder a t leg) (EndsIn (AfterLookup a ids intents done rest t leg) p) w := by
  have hstable : TableStable (AtLeg a ids intents done rest t.Complete leg.id (· = leg)) :=
    legs_stable.and hasLeg_stable
  have hcreated : leg.status ≠ .created := by
    intro hc
    rw [hc] at hactive
    cases hactive
  -- As long as nothing is written the row is the leg in hand.
  have hstays : ∀ w, At (AtLeg a ids intents done rest t.Complete leg.id (· = leg)) p w →
      ∀ t' : Tally, (t'.Complete → t.Complete) →
        At (AfterLookup a ids intents done rest t leg (t', leg, leg.exchangeOrderId)) p w := by
    intro w h t' ht
    obtain ⟨hlegs, row, hrow, hid, howned, rfl⟩ := h.holds
    refine ⟨h.sound, ⟨ht, rfl, rfl, hlegs, row, hrow, rfl, howned, ?_⟩, h.pass⟩
    cases hx : row.exchangeOrderId with
    | none => exact hx
    | some x => exact hcreated
  have hguard : ∀ w, At (AtLeg a ids intents done rest t.Complete leg.id (· = leg)) p w →
      LegGuard leg.id w := by
    intro w h
    obtain ⟨-, row, hrow, hid, howned, rfl⟩ := h.holds
    exact ⟨a, h.pass ▸ hp, row, hrow, rfl, howned, hcreated⟩
  refine System.wp_bind _ _ _ (wp_ask hstable h (fun _ _ h => (by cases h)) fun w h r => ?_)
  have h₁ : At (AtLeg a ids intents done rest t.Complete leg.id (· = leg)) p
      { w with pass := w.pass.heard (.orderByClientId a leg.market leg.symbol leg.clientOrderId) r
               hand := w.hand.heard (.orderByClientId a leg.market leg.symbol leg.clientOrderId) r } :=
    ⟨h.sound.of_books rfl, h.holds, h.pass⟩
  cases r with
  | error e => exact h₁.endsIn_error e
  | ok lookup =>
      dsimp only
      split
      · exact hstays _ h₁ _ fun hc => absurd hc (t.not_complete_orderOpen _)
      · split
        · -- The exchange does not know the order.
          by_cases hunknown : leg.status = .unknown
          · rw [if_pos hunknown]
            refine System.wp_bind _ _ _ (wp_trade hstable h₁ (fun w h => hguard w h)
              fun w h r w' he hsound heffect => ?_)
            obtain ⟨hpass, hhand⟩ := traded_pass he
            cases r with
            | error e => exact ⟨hsound, hpass.trans h.pass⟩
            | ok missing =>
                obtain ⟨hlegs, row, hrow, hid, howned, rfl⟩ := h.holds
                have hlegs' : Legs a ids intents rest done t.Complete w'.ledger w'.hand := by
                  refine hlegs.trade heffect (fun old new hm => ?_) (fun new hn => (by cases hn))
                    fun legId _ hf => ?_
                  · rw [hm.1]
                    exact ⟨hrest, hdone⟩
                  · rw [hhand]
                    exact hf
                obtain ⟨new, hnew, hsame, hmove⟩ := heffect.leg_forth hrow
                have hlocated : Located row.exchangeOrderId new := by
                  rcases hmove with heq | ⟨-, -, hnone, heq⟩
                  · rw [heq]
                    cases hx : row.exchangeOrderId with
                    | none => exact hx
                    | some x => exact hcreated
                  · rw [hnone, heq]
                    exact hnone
                have hrow' : AtLeg a ids intents done rest t.Complete row.id
                    (Located row.exchangeOrderId) w'.ledger w'.hand :=
                  ⟨hlegs', new, hnew, hsame.id, howned.effect heffect hsame.intent, hlocated⟩
                dsimp only
                split
                · exact ⟨hsound, ⟨id, rfl, rfl, hrow'⟩, hpass.trans h.pass⟩
                · exact ⟨hsound, ⟨fun hc => absurd hc (t.not_complete_orderOpen _), rfl, rfl, hrow'⟩,
                    hpass.trans h.pass⟩
          · rw [if_neg hunknown]
            exact hstays _ h₁ _ fun hc => absurd hc (t.not_complete_orderOpen _)
        · next order _ =>
            refine System.wp_bind _ _ _ (wp_trade hstable h₁ (fun w h => hguard w h)
              fun w h r w' he hsound heffect => ?_)
            obtain ⟨hpass, hhand⟩ := traded_pass he
            cases r with
            | error e => exact ⟨hsound, hpass.trans h.pass⟩
            | ok exchangeOrderId =>
                obtain ⟨hlegs, row, hrow, hid, howned, rfl⟩ := h.holds
                have hlegs' : Legs a ids intents rest done t.Complete w'.ledger w'.hand := by
                  refine hlegs.trade heffect (fun old new hm => ?_) (fun new hn => (by cases hn))
                    fun legId hmem hf => ?_
                  · rw [hm.1]
                    exact ⟨hrest, hdone⟩
                  · rw [hhand]
                    refine List.mem_filter.mpr ⟨hf, ?_⟩
                    have hne : legId ≠ row.id := fun heq => hdone (heq ▸ hmem)
                    simpa using hne
                obtain ⟨new, hnew, hsame, hmove⟩ := heffect.leg_forth hrow
                have hstatus : new.status ≠ .created := by
                  rcases hmove with heq | hm
                  · rw [heq]
                    exact hcreated
                  · exact fun hc => hcreated (created_of_move hm rfl hc).1
                exact ⟨hsound, ⟨id, rfl, rfl, hlegs', new, hnew, hsame.id,
                  howned.effect heffect hsame.intent, hstatus⟩, hpass.trans h.pass⟩

/-- Sequencing inside the loop. -/
theorem wp_endsIn_bind {α β : Type} {A : α → Ledger → Hand → Prop} {B : β → Ledger → Hand → Prop}
    {m : Worker Exc α} {f : α → Worker Exc β} {w : World} (hm : Wp m (EndsIn A p) w)
    (hf : ∀ x w, At (A x) p w → Wp (f x) (EndsIn B p) w) : Wp (m >>= f) (EndsIn B p) w := by
  refine System.wp_bind m f _ (System.wp_mono m (fun r w' hr => ?_) w hm)
  cases r with
  | ok x => exact hf x w' hr
  | error e => exact hr

include hp in
/-- One leg of the loop: its order, then its trades. -/
theorem wp_reconcileLeg {t : Tally} {leg : OrderLegRow}
    (hids : leg.id ∉ rest.map (·.id) ∧ leg.id ∉ done) {w : World}
    (h : At (Legs a ids intents (leg :: rest) done t.Complete) p w) :
    Wp (reconcileLeg a t leg) (EndsIn (fun x l h => (x.1.Complete → t.Complete) ∧ x.2.id = leg.id
      ∧ x.2.tradeIntentId = leg.tradeIntentId
      ∧ Legs a ids intents rest (leg.id :: done) x.1.Complete l h) p) w := by
  have hlegs : Legs a ids intents rest done t.Complete w.ledger w.hand :=
    ⟨fun row hrow => h.holds.pending row (List.mem_cons_of_mem _ hrow), h.holds.stored,
      h.holds.known, h.holds.covers⟩
  obtain ⟨hmem, howned⟩ := h.holds.pending leg List.mem_cons_self
  -- The trades, once it is known where the leg stands.
  have hfills : ∀ x w, At (AfterLookup a ids intents done rest t leg x) p w →
      Wp (reconcileFills a x.1 x.2.1 x.2.2 >>= fun t' => pure (t', x.2.1)) (EndsIn (fun y l h =>
        (y.1.Complete → t.Complete) ∧ y.2.id = leg.id ∧ y.2.tradeIntentId = leg.tradeIntentId
        ∧ Legs a ids intents rest (leg.id :: done) y.1.Complete l h) p) w := by
    rintro ⟨t', leg', x⟩ w h
    obtain ⟨ht, hid, hintent, hlegs, hleg⟩ := h.holds
    dsimp only at ht hid hintent hlegs hleg
    rw [← hid] at hids hleg
    refine wp_endsIn_bind (wp_reconcileFills hp hids.1 hids.2
      ⟨h.sound, ⟨hlegs.weaken ht, hleg⟩, h.pass⟩) fun t'' w h => ?_
    obtain ⟨ht', hlegs⟩ := h.holds
    rw [hid] at hlegs
    exact ⟨h.sound, ⟨fun hc => ht (ht' hc), hid, hintent, hlegs⟩, h.pass⟩
  unfold reconcileLeg
  split
  · next hactive =>
      refine wp_endsIn_bind (wp_reconcileOrder hp hactive hids.1 hids.2
        ⟨h.sound, ⟨hlegs, leg, hmem, rfl, howned, rfl⟩, h.pass⟩) fun x w h => ?_
      exact hfills x w h
  · refine hfills (t, leg, leg.exchangeOrderId) w
      ⟨h.sound, ⟨id, rfl, rfl, hlegs, leg, hmem, rfl, howned, ?_⟩, h.pass⟩
    cases hx : leg.exchangeOrderId with
    | none => exact hx
    | some x =>
        intro hc
        rw [h.sound.created leg hmem a howned hc] at hx
        cases hx

include hp in
/-- The loop over the legs, by induction on what is left of it. -/
theorem wp_reconcileLegs : ∀ (rows : List OrderLegRow) (t : Tally) (done : List Nat) (w : World),
    (rows.map (·.id) ++ done).Nodup → At (Legs a ids intents rows done t.Complete) p w →
    Wp (reconcileLegs a t rows) (EndsIn (fun x l h => (x.1.Complete → t.Complete)
      ∧ x.2.map (·.tradeIntentId) = rows.map (·.tradeIntentId)
      ∧ Legs a ids intents [] ((rows.map (·.id)).reverse ++ done) x.1.Complete l h) p) w
  | [], t, done, w, _, h => ⟨h.sound, ⟨id, rfl, h.holds⟩, h.pass⟩
  | leg :: rest, t, done, w, hnodup, h => by
      have hcons : leg.id ∉ rest.map (·.id) ++ done ∧ (rest.map (·.id) ++ done).Nodup :=
        List.nodup_cons.mp hnodup
      have hids : leg.id ∉ rest.map (·.id) ∧ leg.id ∉ done := by
        simpa only [List.mem_append, not_or] using hcons.1
      refine wp_endsIn_bind (wp_reconcileLeg hp hids h) fun x w h => ?_
      obtain ⟨ht, hid, hintent, hlegs⟩ := h.holds
      refine wp_endsIn_bind (wp_reconcileLegs rest x.1 (leg.id :: done) w
        (List.nodup_middle.mpr hnodup) ⟨h.sound, hlegs, h.pass⟩) fun y w h => ?_
      obtain ⟨ht', hintents, hlegs⟩ := h.holds
      refine ⟨h.sound, ⟨fun hc => ht (ht' hc), ?_, ?_⟩, h.pass⟩
      · show x.2.tradeIntentId :: y.2.map (·.tradeIntentId) = _
        rw [hintents, hintent]
        rfl
      · rw [List.map_cons, List.reverse_cons, List.append_assoc]
        exact hlegs

/-! ## §2. The settlements. -/

/-- The intents of the account among these are in the tables. -/
def Known (a : Account) (items : List TradeIntentRow) (l : Ledger) : Prop :=
  ∀ intent ∈ items, a.owns intent → ∃ i ∈ l.intents, i.id = intent.id ∧ a.owns i

omit hp in
/-- Others delete no intent. -/
theorem known_stable (items : List TradeIntentRow) : TableStable fun l _ => Known a items l :=
  fun _ _ _ _ _ hf h intent hmem howns => hf.intent (h intent hmem howns)

/-- An intent that is due belongs to the account, and one of its legs was looked
at. -/
theorem isDue_intent {legs : List OrderLegRow} {intent : TradeIntentRow} (h : isDue a legs intent) :
    a.owns intent ∧ intent.id ∈ legs.map (·.tradeIntentId) := by
  obtain ⟨howns, -, hlayout⟩ := h
  simp only [isSettlementLayout, Bool.and_eq_true, List.contains_iff_mem] at hlayout
  obtain ⟨leg, hleg, -⟩ := List.mem_map.mp hlayout.1.1
  obtain ⟨hmem, hid⟩ := List.mem_filter.mp hleg
  exact ⟨howns, List.mem_map.mpr ⟨leg, hmem, by simpa using hid⟩⟩

/-- What holds while the intents of an account are settled. -/
abbrev Settling (a : Account) (ids intents done : List Nat) (items : List TradeIntentRow) :
    Ledger → Hand → Prop :=
  fun l h => Legs a ids intents [] done True l h ∧ Known a items l

/-- What the settlements rely on is stable as well. -/
theorem settling_stable (items : List TradeIntentRow) :
    TableStable (Settling a ids intents done items) :=
  legs_stable.and (known_stable items)

include hp in
/-- One settlement: every leg of the intent was looked at, so the guard of the
settlement holds. -/
theorem wp_settle {items : List TradeIntentRow} (hall : ∀ legId ∈ ids, legId ∈ done)
    {intent : TradeIntentRow} (hmem : intent ∈ items) (howns : a.owns intent)
    (hintent : intent.id ∈ intents) {w : World}
    (h : At (Settling a ids intents done items) p w) :
    Wp (settle intent) (EndsIn (fun _ => Settling a ids intents done items) p) w := by
  -- The fills of all legs of the intent have been fetched in this pass.
  have hguard : ∀ w, At (Settling a ids intents done items) p w → SettleGuard intent.id w := by
    intro w h
    have hw := h.sound.wellFormed
    obtain ⟨hlegs, hknown⟩ := h.holds
    refine ⟨a, h.pass ▸ hp, fun i hi hid => ?_, fun leg hleg hid hname => ?_⟩
    · obtain ⟨j, hj, hjid, hjowns⟩ := hknown intent hmem howns
      rw [hw.intents_unique.eq hi hj (hid.trans hjid.symm)]
      exact hjowns
    · obtain ⟨row, hrow, hrow_id, -, hfetched⟩ :=
        hlegs.stored leg.id (hall _ (hlegs.covers leg hleg (hid ▸ hintent) hname))
      rw [← hw.legs_unique.eq hrow hleg hrow_id]
      exact hfetched trivial
  -- A settlement moves no leg and keeps what was fetched.
  have hnext : ∀ w o (r : Except Exc o.Result) w', At (Settling a ids intents done items) p w →
      (o = .settleOpen intent.id ∨ o = .settleClose intent.id) → w.traded o = (r, w') → Sound w' →
      Effect o w.ledger w'.ledger → At (Settling a ids intents done items) p w' := by
    intro w o r w' h ho he hsound heffect
    obtain ⟨hpass, hhand⟩ := traded_pass he
    obtain ⟨hlegs, hknown⟩ := h.holds
    have hsame : w'.hand = w.hand := by
      rcases ho with rfl | rfl <;> exact hhand
    refine ⟨hsound, ⟨?_, fun intent hmem howns => ?_⟩, hpass.trans h.pass⟩
    · refine hlegs.trade heffect (fun old new hm => ?_) (fun new hn => ?_) fun _ _ hf => hsame ▸ hf
      · rcases ho with rfl | rfl <;> cases hm
      · rcases ho with rfl | rfl <;> exact hn.1
    · obtain ⟨i, hi, hid, hiowns⟩ := hknown intent hmem howns
      obtain ⟨i', hi', hs, -⟩ := heffect.intent_forth hi
      exact ⟨i', hi', hs.id.trans hid, hs.exchange.trans hiowns.1,
        hs.environment.trans hiowns.2⟩
  unfold settle
  split
  · refine wp_endsIn_bind (A := fun _ => Settling a ids intents done items)
      (wp_trade (settling_stable items) h (fun w h => hguard w h) fun w h r w' he hsound heff => ?_)
      fun _ w h => h
    have h' := hnext w _ r w' h (.inl rfl) he hsound heff
    cases r with
    | ok x => exact h'
    | error e => exact h'.endsIn_error e
  · refine wp_endsIn_bind (A := fun _ => Settling a ids intents done items)
      (wp_trade (settling_stable items) h (fun w h => hguard w h) fun w h r w' he hsound heff => ?_)
      fun _ w h => h
    have h' := hnext w _ r w' h (.inr rfl) he hsound heff
    cases r with
    | ok x => exact h'
    | error e => exact h'.endsIn_error e

include hp in
/-- All settlements, one intent after the other. -/
theorem wp_settleAll {legs : List OrderLegRow} (hall : ∀ legId ∈ ids, legId ∈ done)
    (hintents : legs.map (·.tradeIntentId) = intents) {items : List TradeIntentRow} :
    ∀ (todo : List TradeIntentRow), (∀ intent ∈ todo, intent ∈ items) → ∀ w,
      At (Settling a ids intents done items) p w →
      Wp (settleAll a legs todo) (EndsIn (fun _ => Settling a ids intents done items) p) w
  | [], _, w, h => h
  | intent :: rest, hsub, w, h => by
      have hrest := wp_settleAll hall hintents rest fun i hi => hsub i (List.mem_cons_of_mem _ hi)
      unfold settleAll
      split
      · next hdue =>
          obtain ⟨howns, hintent⟩ := isDue_intent hdue
          rw [hintents] at hintent
          exact wp_endsIn_bind (wp_settle hp hall (hsub intent List.mem_cons_self) howns hintent h)
            fun _ w h => hrest w h
      · exact hrest w h

end OneLeg

/-! ## §3. One account. -/

/-- A call whose answer no pass takes down. -/
def OutOp.isNeutral : OutOp → Prop
  | .elsewhere .transfers | .listCredentials | .snapshot _ | .tradingState _ | .fillsForOrder ..
  | .privateStreamReady _ | .placeLimitIoc .. => False
  | _ => True

/-- A neutral question is not taken down in the pass. -/
theorem neutral_heard {o : OutOp} (ho : o.isNeutral) (p : Pass) (h : Hand)
    (r : Except Exc o.Answer) : p.heard o r = p ∧ h.heard o r = h := by
  cases o with
  | elsewhere s => cases s <;> first | exact ⟨rfl, rfl⟩ | cases ho
  | _ => first | exact ⟨rfl, rfl⟩ | cases ho

/-- Nothing but the pass is known. -/
abbrev Passing (p : Pass) : World → Prop := At (fun _ _ => True) p

theorem passing_stable : TableStable fun _ _ => True := fun _ _ _ _ _ _ _ => trivial

/-- So it keeps the pass. -/
theorem keeps_neutral {p : Pass} {o : OutOp} (ho : o.isNeutral) :
    Keeps (Passing p) (ask o) := by
  intro w h
  refine wp_ask passing_stable h (fun a order heq => ?_) fun w h r => ?_
  · subst heq
    exact ho
  · rw [(neutral_heard ho w.pass w.hand r).1, (neutral_heard ho w.pass w.hand r).2]
    exact ⟨h.sound, trivial, h.pass⟩

/-- A look at a private stream while the accounts are being reconciled. -/
theorem keeps_streamReady {p : Pass} {checking : Bool} (hp : p.stage = .checking checking)
    (a : Account) : Keeps (Passing p) (ask (.privateStreamReady a)) := by
  intro w h
  refine wp_ask passing_stable h (fun _ _ heq => (by cases heq)) fun w h r => ?_
  refine ⟨h.sound.of_books rfl, trivial, ?_⟩
  show w.pass.heard _ r = p
  rw [h.pass]
  cases r with
  | error e => rfl
  | ok ready =>
      refine if_neg fun hc => ?_
      rw [hp] at hc
      cases hc.1

/-- Cancelling the open orders keeps the pass, order by order. -/
theorem keeps_cancelOpenOrders {p : Pass} (a : Account) :
    ∀ orders counts, Keeps (Passing p) (cancelOpenOrders a orders counts)
  | [], _ => .done _
  | order :: rest, (submitted, failed) => by
      refine (keeps_neutral (by exact trivial)).attempt.bind fun outcome => ?_
      split
      · exact keeps_cancelOpenOrders a rest _
      · split
        · exact keeps_cancelOpenOrders a rest _
        · exact keeps_cancelOpenOrders a rest _

/-- So does reading the funding. -/
theorem keeps_reconcileFunding {p : Pass} (a : Account) : Keeps (Passing p) (reconcileFunding a) := by
  refine (keeps_neutral (by exact trivial)).bind fun latest => ?_
  -- Without a stored income the last day is asked for; the rest is the same.
  cases latest
  case' none => refine (keeps_neutral (by exact trivial)).bind fun now => ?_
  all_goals
    refine (keeps_neutral (by exact trivial)).attempt.bind fun outcome => ?_
    split
    · exact .done _
    · exact (keeps_neutral (by exact trivial)).bind fun _ => .done _

/-- The legs of an account are those of its intents that are not at an end. -/
theorem mem_orderLegsForReconciliation {a : Account} {l : Ledger} {row : OrderLegRow} :
    row ∈ l.orderLegsForReconciliation a.exchange a.environment ↔ row ∈ l.legs
      ∧ ∃ i ∈ l.intentOf row, i.exchange = a.exchange ∧ i.environment = a.environment
        ∧ ¬i.status.isTerminal := by
  rw [Ledger.orderLegsForReconciliation, (List.perm_insertionSort _ _).mem_iff, List.mem_filter,
    decide_eq_true_eq]

/-- The legs a pass reads of an account are its legs, each once, with all primary
legs of their intents. -/
theorem legs_of_query {a : Account} {l : Ledger} {seen : List PairedPositionRow}
    (hw : WellFormed seen l) {rows : List OrderLegRow}
    (hrows : rows = l.orderLegsForReconciliation a.exchange a.environment) (ok : Prop) (h : Hand) :
    (rows.map (·.id)).Nodup
      ∧ Legs a (rows.map (·.id)) (rows.map (·.tradeIntentId)) rows [] ok l h := by
  subst hrows
  have hintent : ∀ row ∈ l.orderLegsForReconciliation a.exchange a.environment,
      row ∈ l.legs ∧ Owned a l row := by
    intro row hrow
    obtain ⟨hmem, i, hi, hexchange, henvironment, -⟩ := mem_orderLegsForReconciliation.mp hrow
    obtain ⟨hi, hid⟩ := Table.find?_some hi
    exact ⟨hmem, i, hi, hid, hexchange, henvironment⟩
  refine ⟨?_, hintent, fun legId hid => (by cases hid), fun i hi => ?_, fun row hrow hi _ => ?_⟩
  · refine ((List.perm_insertionSort _ _).map _).nodup_iff.mpr ?_
    exact hw.legs_unique.sublist (List.filter_sublist.map _)
  · obtain ⟨row, hrow, rfl⟩ := List.mem_map.mp hi
    exact (hintent row hrow).2
  · obtain ⟨other, hother, hsame⟩ := List.mem_map.mp hi
    obtain ⟨-, i, hi, hrest⟩ := mem_orderLegsForReconciliation.mp hother
    refine List.mem_map.mpr ⟨row, mem_orderLegsForReconciliation.mpr ⟨hrow, i, ?_, hrest⟩, rfl⟩
    rw [Ledger.intentOf, ← hsame]
    exact hi

/-- How the work on an account ends, seen from the pass it begins with: an
account without a reason has been found to agree. -/
structure AccountEnds (a : Account) (p : Pass) (clean : Prop) (w : World) : Prop where
  sound : Sound w
  stage : w.pass.stage = p.stage
  listed : w.pass.listed = p.listed
  others : ∀ x ∈ p.agreed, x ≠ a → x ∈ w.pass.agreed
  agreed : clean → p.stage = .checking false → a ∈ w.pass.agreed

/-- The pass has only taken down what concerns the account. -/
structure SameButAccount (a : Account) (p q : Pass) : Prop where
  stage : q.stage = p.stage
  listed : q.listed = p.listed
  others : ∀ x ∈ p.agreed, x ≠ a → x ∈ q.agreed

/-- A pass that has heard nothing is the same. -/
theorem SameButAccount.refl (a : Account) (p : Pass) : SameButAccount a p p :=
  ⟨rfl, rfl, fun _ h _ => h⟩

/-- An account that is not clean may end on whatever was taken down for it. -/
theorem SameButAccount.ends {a : Account} {p q : Pass} {clean : Prop} {w : World}
    (h : SameButAccount a p q) (hclean : ¬clean) (hs : Sound w) (hq : w.pass = q) :
    AccountEnds a p clean w := by
  subst hq
  exact ⟨hs, h.stage, h.listed, h.others, fun hc => absurd hc hclean⟩

/-- The result of an account is that it has no reason to be blocked. -/
def IsClean (r : Except Exc AccountReconciliation) : Prop := ∃ x, r = .ok x ∧ x.reasons = []

theorem not_isClean_error (e : Exc) : ¬IsClean (.error e) := by
  rintro ⟨x, h, -⟩
  cases h

/-- A part of the work on an account that keeps the pass, then the rest. -/
theorem wp_account_bind {α : Type} {a : Account} {p q : Pass} {m : Worker Exc α}
    {f : α → Worker Exc AccountReconciliation} (hq : SameButAccount a p q) {w : World}
    (hm : Keeps (Passing q) m) (h : Passing q w)
    (hf : ∀ x w, Passing q w → Wp (f x) (fun r => AccountEnds a p (IsClean r)) w) :
    Wp (m >>= f) (fun r => AccountEnds a p (IsClean r)) w := by
  refine System.wp_bind m f _ (System.wp_mono m (fun r w' hr => ?_) w (hm w h))
  cases r with
  | ok x => exact hf x w' hr
  | error e => exact hq.ends (not_isClean_error e) hr.sound hr.pass

/-- The end of the work on an account: the comparison of its positions. -/
theorem wp_compare {a : Account} {p q : Pass} (hq : SameButAccount a p q)
    {snapshot : LiveSnapshot} {state : RemoteTradingState} (hsnapshot : q.snapshot = some snapshot)
    (hstate : q.state = some state)
    {f : List Ledger.PerpExposure → AccountReconciliation}
    (hf : ∀ exposures, (f exposures).reasons = [] →
      positionReasons state.positions exposures (snapshot.perpMarginMode = .isolated) = [])
    {w : World} (h : Passing q w) :
    Wp (do
      let exposures ← look (.pairedPerpExposures a)
      return f exposures) (fun r => AccountEnds a p (IsClean r)) w := by
  refine System.wp_bind _ _ _ (wp_look passing_stable h fun w h => ?_)
  have hq' := h.pass
  show AccountEnds a p _ { w with pass := w.pass.looked _ _, hand := _ }
  rw [hq']
  by_cases hagrees : q.stage = .checking false ∧ q.Agrees
      (Query.eval w.ledger (.pairedPerpExposures a))
  · have hlooked : q.looked (.pairedPerpExposures a) (Query.eval w.ledger (.pairedPerpExposures a))
        = { q with agreed := a :: q.agreed } := if_pos hagrees
    rw [hlooked]
    exact ⟨h.sound.of_books rfl, hq.stage, hq.listed,
      fun x hx hne => List.mem_cons_of_mem _ (hq.others x hx hne), fun _ _ => List.mem_cons_self⟩
  · have hlooked : q.looked (.pairedPerpExposures a) (Query.eval w.ledger (.pairedPerpExposures a))
        = q := if_neg hagrees
    rw [hlooked]
    refine ⟨h.sound.of_books rfl, hq.stage, hq.listed, hq.others, fun hclean hstage => ?_⟩
    obtain ⟨x, hx, hreasons⟩ := hclean
    cases hx
    refine absurd ⟨hq.stage.trans hstage, ?_⟩ hagrees
    exact ⟨state, hstate, snapshot, hsnapshot, hf _ hreasons⟩

/-- The body of the loop over the accounts: a clean account was found to agree
with the tables. -/
theorem wp_reconcileWith {a : Account} {paused checking : Bool} {p : Pass}
    (hp : p.stage = .checking checking) {w : World} (h : Passing p w) :
    Wp (reconcileWith a paused) (fun r => AccountEnds a p (IsClean r)) w := by
  have hstable := passing_stable
  have hheard : ∀ {w : World} {q : Pass} {o : OutOp} (r : Except Exc o.Answer), Passing q w →
      Passing (q.heard o r) { w with pass := w.pass.heard o r, hand := w.hand.heard o r } :=
    fun r h => ⟨h.sound.of_books rfl, trivial, by rw [← h.pass]⟩
  -- The snapshot and the trading state are taken down.
  refine System.wp_bind _ _ _ (wp_ask hstable h (fun _ _ h => (by cases h)) fun w h r => ?_)
  have h₁ := hheard r h
  cases r with
  | error e => exact (SameButAccount.refl a p).ends (not_isClean_error e) h₁.sound h₁.pass
  | ok snapshot =>
  obtain ⟨q₁, hq₁, hsnapshot₁, hbut₁⟩ : ∃ q₁, p.heard (.snapshot a) (.ok snapshot) = q₁
      ∧ q₁.snapshot = some snapshot ∧ SameButAccount a p q₁ := by
    refine ⟨_, rfl, ?_⟩
    simp only [Pass.heard, hp]
    exact ⟨trivial, hp.symm, rfl, fun _ h _ => h⟩
  rw [hq₁] at h₁
  refine System.wp_bind _ _ _ (wp_ask hstable h₁ (fun _ _ h => (by cases h)) fun w h r => ?_)
  have h₂ := hheard r h
  cases r with
  | error e => exact hbut₁.ends (not_isClean_error e) h₂.sound h₂.pass
  | ok state =>
  obtain ⟨q₂, hq₂, hsnapshot₂, hstate₂, hbut₂⟩ : ∃ q₂, q₁.heard (.tradingState a) (.ok state) = q₂
      ∧ q₂.snapshot = some snapshot ∧ q₂.state = some state ∧ SameButAccount a p q₂ := by
    refine ⟨_, rfl, ?_⟩
    have hq₁_stage : q₁.stage = .checking checking := hbut₁.stage.trans hp
    simp only [Pass.heard, hq₁_stage]
    exact ⟨hsnapshot₁, trivial, hp.symm, hbut₁.listed, hbut₁.others⟩
  rw [hq₂] at h₂
  refine wp_account_bind hbut₂ (keeps_reconcileFunding a) h₂ fun funding w h => ?_
  have hcancel : ∀ (f : Nat × Nat → Worker Exc AccountReconciliation),
      (∀ counts w, Passing q₂ w → Wp (f counts) (fun r => AccountEnds a p (IsClean r)) w) →
      Wp (if paused then cancelOpenOrders a state.openOrders (0, 0) >>= f else f (0, 0))
        (fun r => AccountEnds a p (IsClean r)) w := by
    intro f hf
    split
    · exact wp_account_bind hbut₂ (keeps_cancelOpenOrders a _ _) h hf
    · exact hf _ w h
  refine hcancel _ fun counts w h => ?_
  refine wp_account_bind hbut₂ (keeps_streamReady (hbut₂.stage.trans hp) a) h
    fun streamReady w h => ?_
  -- The legs are read; from here on the account is the one being reconciled.
  refine System.wp_bind _ _ _ (wp_look hstable h fun w h => ?_)
  generalize hrows : Query.eval w.ledger (.orderLegsForReconciliation a) = rows
  obtain ⟨q, hq, hbut, hsnapshot, hstate, hreconciles⟩ : ∃ q, q₂.looked
      (.orderLegsForReconciliation a) rows = q
      ∧ SameButAccount a p q ∧ q.snapshot = some snapshot ∧ q.state = some state
      ∧ q.Reconciles a := by
    refine ⟨_, rfl, ⟨hbut₂.stage, hbut₂.listed, fun x hx hne => ?_⟩, hsnapshot₂, hstate₂,
      ⟨checking, hbut₂.stage.trans hp⟩, rfl, ?_⟩
    · exact List.mem_filter.mpr ⟨hbut₂.others x hx hne, by simpa using hne⟩
    · intro hmem
      simpa using (List.mem_filter.mp hmem).2
  obtain ⟨hnodup, hlegs⟩ := legs_of_query h.sound.wellFormed (a := a) hrows.symm
    (Tally.Complete ⟨openingReasons counts streamReady, true, 0, true, 0⟩)
    (w.hand.looked (.orderLegsForReconciliation a))
  have h₃ : At (Legs a _ _ _ [] _) q { w with
      pass := w.pass.looked (.orderLegsForReconciliation a) rows
      hand := w.hand.looked (.orderLegsForReconciliation a) } :=
    ⟨h.sound.of_books rfl, hlegs, by rw [h.pass]; exact hq⟩
  refine System.wp_bind _ _ _ (System.wp_mono _ (fun r w h => ?_) _
    (wp_reconcileLegs hreconciles _ _ [] _ (by rw [List.append_nil]; exact hnodup) h₃))
  cases r with
  | error e => exact hbut.ends (not_isClean_error e) h.1 h.2
  | ok x =>
  obtain ⟨t, localLegs⟩ := x
  obtain ⟨-, hintents, hlegs⟩ := h.holds
  -- The positions are compared whatever became of the legs.
  have hcompare : ∀ w, Passing q w →
      Wp (compareAccount a snapshot state funding streamReady t localLegs)
        (fun r => AccountEnds a p (IsClean r)) w := by
    intro w h
    refine wp_compare hbut hsnapshot hstate (fun exposures hreasons => ?_) h
    simp only [List.append_eq_nil_iff] at hreasons
    exact hreasons.1.2
  dsimp only
  split
  · next hcomplete =>
      have h₄ : Passing q w := ⟨h.sound, trivial, h.pass⟩
      have hsettling : ∀ ids done, Legs a ids (localLegs.map (·.tradeIntentId)) [] done t.Complete
          w.ledger w.hand → At (fun l h => Legs a ids (localLegs.map (·.tradeIntentId)) [] done True
            l h) q w := fun ids done hlegs => ⟨h.sound, hlegs.weaken fun _ => hcomplete, h.pass⟩
      rw [← hintents] at hlegs
      refine System.wp_bind _ _ _ (wp_look legs_stable (hsettling _ _ hlegs) fun w h => ?_)
      have hknown : Known a (Query.eval w.ledger .recoverableTradeIntents) w.ledger := by
        intro intent hmem howns
        have hmem : intent ∈ w.ledger.recoverableTradeIntents := hmem
        rw [Ledger.recoverableTradeIntents, (List.perm_insertionSort _ _).mem_iff] at hmem
        exact ⟨intent, List.mem_of_mem_filter hmem, rfl, howns⟩
      refine System.wp_bind _ _ _ (System.wp_mono _ (fun r w h => ?_) _
        (wp_settleAll hreconciles (fun legId hid => ?_) rfl _ (fun _ hi => hi) _
          ⟨h.sound.of_books rfl, ⟨h.holds, hknown⟩, h.pass⟩))
      · cases r with
        | error e => exact hbut.ends (not_isClean_error e) h.1 h.2
        | ok u => exact hcompare w ⟨h.sound, trivial, h.pass⟩
      · simpa using hid
  · exact hcompare w ⟨h.sound, trivial, h.pass⟩

/-- A weaker cleanness asks for less. -/
theorem AccountEnds.dirty {a : Account} {p : Pass} {c c' : Prop} {w : World}
    (h : AccountEnds a p c w) (hc : c' → c) : AccountEnds a p c' w :=
  ⟨h.sound, h.stage, h.listed, h.others, fun h' => h.agreed (hc h')⟩

/-- What no pass takes down does not matter any more. -/
theorem AccountEnds.keeps {ε α : Type} {a : Account} {p : Pass} {c : Prop} {w : World}
    (h : AccountEnds a p c w) {m : Worker ε α} (hm : ∀ q, Keeps (Passing q) m) :
    Wp m (fun _ w => AccountEnds a p c w) w := by
  refine System.wp_mono m (fun r w' hr => ?_) w (hm w.pass w ⟨h.sound, trivial, rfl⟩)
  have hpass : w'.pass = w.pass := hr.pass
  refine ⟨hr.sound, ?_, ?_, ?_, ?_⟩ <;> rw [hpass]
  · exact h.stage
  · exact h.listed
  · exact h.others
  · exact h.agreed

/-- The handler never makes an account ready. -/
theorem wp_recordFailure {a : Account} {p : Pass} {c : Prop} {e : Exc} {w : World}
    (h : AccountEnds a p c w) :
    Wp (recordFailure a e) (fun r => AccountEnds a p (r = .ok .ready)) w := by
  refine System.wp_bind _ _ _ (System.wp_mono _ (fun r w h => ?_) w
    (h.keeps (m := ask _) fun q => keeps_neutral (by exact trivial)))
  cases r with
  | ok u => exact h.dirty fun hc => (by cases hc)
  | error e => exact h.dirty fun hc => (by cases hc)

/-- The same with the result stored: only a ready account has to agree. -/
theorem wp_reconcileOpened {a : Account} {paused checking : Bool} {p : Pass}
    (hp : p.stage = .checking checking) {w : World} (h : Passing p w) :
    Wp (reconcileOpened a paused) (fun r => AccountEnds a p (r = .ok .ready)) w := by
  refine System.wp_bind _ _ _ (System.wp_mono _ (fun r w h => ?_) w (wp_reconcileWith hp h))
  cases r with
  | error e => exact h.dirty fun hc => (by cases hc)
  | ok x =>
      refine System.wp_bind _ _ _ (System.wp_mono _ (fun r w h => ?_) w
        (h.keeps (m := ask _) fun q => keeps_neutral (by exact trivial)))
      cases r with
      | error e => exact h.dirty fun hc => (by cases hc)
      | ok u =>
          refine h.dirty fun hc => ?_
          by_cases hreasons : x.reasons = []
          · exact ⟨x, rfl, hreasons⟩
          · rw [if_neg hreasons] at hc
            cases hc

/-- And with the client opened and closed. -/
theorem wp_reconcileAccount {a : Account} {paused checking : Bool} {p : Pass}
    (hp : p.stage = .checking checking) {w : World} (h : Passing p w) :
    Wp (reconcileAccount a paused) (fun r => AccountEnds a p (r = .ok .ready)) w := by
  have hnone : ∀ w, Passing p w → AccountEnds a p False w := by
    intro w h
    exact (SameButAccount.refl a p).ends id h.sound h.pass
  have hopen : Keeps (Passing p) (do
      let present ← ask (.loadSecrets a)
      pyEval (raiseIf (¬present) (.ofKind .runtime "credential disappeared during reconciliation"))
      ask (.openClient a) : Worker Exc Unit) :=
    (keeps_neutral (by exact trivial)).bind fun _ => Keeps.bind (.done _) fun _ =>
      keeps_neutral (by exact trivial)
  refine System.wp_bind _ _ _ (System.wp_mono _ (fun r w h => ?_) w (hopen.attempt w h))
  cases r with
  | error e => exact (hnone w h).dirty fun hc => (by cases hc)
  | ok opened =>
      cases opened with
      | error e => exact wp_recordFailure (hnone w h)
      | ok u =>
          refine System.wp_resume _ _ _ _ (System.wp_mono _ (fun r w h => ?_) w
            (System.wp_catching _ _ (fun r => AccountEnds a p (r = .ok .ready))
              (System.wp_mono _ (fun r w h => ?_) w (wp_reconcileOpened hp h))))
          · refine System.wp_resume _ _ _ _ (System.wp_mono _ (fun _ w h => ?_) w
              (h.keeps (m := ask _) fun q => keeps_neutral (by exact trivial)))
            exact h
          · cases r with
            | ok outcome => exact h
            | error e => exact wp_recordFailure h

/-- The pass after the loop over the accounts. -/
structure AccountsEnd (accounts : List Account) (p : Pass) (clean : Prop) (w : World) : Prop where
  sound : Sound w
  stage : w.pass.stage = p.stage
  listed : w.pass.listed = p.listed
  agreed : clean → p.stage = .checking false → ∀ x, x ∈ p.agreed ∨ x ∈ accounts →
    x ∈ w.pass.agreed

/-- All accounts are ready. -/
def AllReady (r : Except Exc (List Outcome)) : Prop :=
  ∃ outcomes, r = .ok outcomes ∧ outcomes.all (· = .ready)

/-- The loop over the accounts: where all are ready, each of them agrees. -/
theorem wp_reconcileAccounts {paused checking : Bool} : ∀ (accounts : List Account) (p : Pass) (w),
    p.stage = .checking checking → Passing p w →
    Wp (reconcileAccounts paused accounts) (fun r => AccountsEnd accounts p (AllReady r)) w
  | [], p, w, _, h => by
      refine ⟨h.sound, by rw [h.pass], by rw [h.pass], fun _ _ x hx => ?_⟩
      rw [h.pass]
      exact hx.resolve_right List.not_mem_nil
  | a :: rest, p, w, hp, h => by
      -- The first account, then the rest in the state that it leaves.
      refine System.wp_bind _ _ _ (System.wp_mono _ (fun r w h => ?_) w (wp_reconcileAccount hp h))
      cases r with
      | error e =>
          refine ⟨h.sound, h.stage, h.listed, fun hc => ?_⟩
          obtain ⟨outcomes, hr, -⟩ := hc
          cases hr
      | ok first =>
          refine System.wp_bind _ _ _ (System.wp_mono _ (fun r w' h' => ?_) w
            (wp_reconcileAccounts rest w.pass w (h.stage.trans hp) ⟨h.sound, trivial, rfl⟩))
          have hstage := h'.stage.trans h.stage
          have hlisted := h'.listed.trans h.listed
          -- An account that raises ends the loop.
          cases r with
          | error e =>
              refine ⟨h'.sound, hstage, hlisted, fun hc => ?_⟩
              obtain ⟨outcomes, hr, -⟩ := hc
              cases hr
          | ok others =>
              refine ⟨h'.sound, hstage, hlisted, fun hc hchecking x hx => ?_⟩
              obtain ⟨outcomes, hr, hall⟩ := hc
              cases hr
              rw [List.all_cons, Bool.and_eq_true, decide_eq_true_eq] at hall
              obtain ⟨rfl, hothers⟩ := hall
              -- All are ready: the first agreed before the rest was looked at, and stays so.
              have hfirst : a ∈ w.pass.agreed := h.agreed rfl hchecking
              refine h'.agreed ⟨others, rfl, hothers⟩ (h.stage.trans hchecking) x ?_
              by_cases hxa : x = a
              · rw [hxa]
                exact .inl hfirst
              · rcases hx with hx | hx
                · exact .inl (h.others x hx hxa)
                · exact .inr ((List.mem_cons.mp hx).resolve_left hxa)

/-! ## §4. The pass. -/

/-- A pass goes on unpaused exactly where the control was not paused when it
looked. -/
theorem pauseReason_eq_none {c : Control} : pauseReason c = none ↔ ¬c.Paused := by
  unfold pauseReason Control.Paused
  cases c with
  | none => simp
  | some row => by_cases h : row.state = .paused <;> simp [h]

/-- Nothing is promised at the end of a pass. -/
theorem wp_passing {ε α : Type} {p : Pass} {m : Worker ε α} (hm : Keeps (Passing p) m) {w : World}
    (h : Passing p w) : Wp m (fun _ _ => True) w :=
  System.wp_mono m (fun _ _ _ => trivial) w (hm w h)

/-- The control is written where the guard of the new state holds. -/
theorem wp_setControl {state : ControlState} {reason : String} {p : Pass} {w : World}
    {Q : Except Exc Unit → World → Prop} (h : Passing p w) (hguard : ControlGuard state p)
    (hnext : ∀ w, Passing p.controlled w → Q (.ok ()) w) : Wp (setControl state reason) Q w := by
  refine System.wp_call_of_stable (At.stable passing_stable p) h (fun w _ h => ?_) ?_
  · show ControlGuard state w.pass
    rw [h.pass]
    exact hguard
  · intro w r w' _ h he hsound
    refine hnext w' ⟨hsound, trivial, ?_⟩
    rw [show w' = _ from he]
    show w.pass.controlled = p.controlled
    rw [h.pass]

/-- The pass has come as far as `q`, and has looked at more streams since. -/
structure Watching (q q' : Pass) : Prop where
  stage : q'.stage = q.stage
  listed : q'.listed = q.listed
  agreed : q'.agreed = q.agreed
  streaming : ∀ a ∈ q.streaming, a ∈ q'.streaming

theorem Watching.refl (q : Pass) : Watching q q := ⟨rfl, rfl, rfl, fun _ h => h⟩

/-- Looking at more streams, and at more again. -/
theorem Watching.trans {q q' q'' : Pass} (h : Watching q q') (h' : Watching q' q'') :
    Watching q q'' :=
  ⟨h'.stage.trans h.stage, h'.listed.trans h.listed, h'.agreed.trans h.agreed,
    fun a ha => h'.streaming a (h.streaming a ha)⟩

/-- A look at one stream adds to what was looked at. -/
theorem watching_heard (q : Pass) (a : Account) (r : Except Exc Bool) :
    Watching q (q.heard (.privateStreamReady a) r) := by
  cases r with
  | error e => exact .refl q
  | ok ready =>
      show Watching q (if q.stage = .deciding ∧ ready then { q with
        streaming := a :: q.streaming } else q)
      split
      · exact ⟨rfl, rfl, rfl, fun x hx => List.mem_cons_of_mem a hx⟩
      · exact .refl q

/-- The second look at the streams: if all are ready, all were found so. -/
theorem wp_streamsReady : ∀ (accounts : List Account) (q : Pass) (w : World), Passing q w →
    Wp (streamsReady accounts) (fun r w => ∃ q', Watching q q' ∧ Passing q' w
      ∧ (q.stage = .deciding → r = .ok true → ∀ a ∈ accounts, a ∈ q'.streaming)) w
  | [], q, w, h => ⟨q, .refl q, h, fun _ _ a ha => absurd ha List.not_mem_nil⟩
  | a :: rest, q, w, h => by
      refine System.wp_bind _ _ _ (wp_ask passing_stable h (fun _ _ heq => (by cases heq))
        fun w h r => ?_)
      have h₁ : Passing (q.heard (.privateStreamReady a) r) { w with
          pass := w.pass.heard (.privateStreamReady a) r
          hand := w.hand.heard (.privateStreamReady a) r } :=
        ⟨h.sound.of_books rfl, trivial, by rw [← h.pass]⟩
      have hwatch := watching_heard q a r
      cases r with
      | error e => exact ⟨_, hwatch, h₁, fun _ hr => (by cases hr)⟩
      | ok ready =>
          dsimp only
          cases ready with
          | false => exact ⟨_, hwatch, h₁, fun _ hr => (by cases hr)⟩
          | true =>
              refine System.wp_mono _ (fun r w h => ?_) _ (wp_streamsReady rest _ _ h₁)
              obtain ⟨q', hwatch', h', hall⟩ := h
              refine ⟨q', hwatch.trans hwatch', h', fun hstage hr x hx => ?_⟩
              rcases List.mem_cons.mp hx with rfl | hx
              · refine hwatch'.streaming x ?_
                show x ∈ (if q.stage = .deciding ∧ true then { q with
                  streaming := x :: q.streaming } else q : Pass).streaming
                rw [if_pos ⟨hstage, rfl⟩]
                exact List.mem_cons_self
              · exact hall (hwatch.stage.trans hstage) hr x hx

/-- The end of a pass: if the accounts came out ready and no pause was found, all of
them agree, and their streams are ready. -/
theorem wp_conclude {accounts : List Account} {pause : Option String} {outcomes : List Outcome}
    {p : Pass} (hp : p.stage = .finishing pause.isSome) (hlisted : p.listed = accounts)
    (hne : accounts ≠ [])
    (hagreed : outcomes.all (· = .ready) → pause = none → ∀ a ∈ p.listed, a ∈ p.agreed) {w : World}
    (h : Passing p w) : Wp (conclude accounts pause outcomes) (fun _ _ => True) w := by
  refine System.wp_bind _ _ _ (wp_look passing_stable h fun w h => ?_)
  generalize hcontrol : Query.eval w.ledger (.executionControl .closing) = control
  obtain ⟨q, hq, hlisted', hagreed', hdeciding⟩ : ∃ q, p.looked (.executionControl .closing) control = q
      ∧ q.listed = p.listed ∧ q.agreed = p.agreed
      ∧ ((pauseReason control).or pause = none → q.stage = .deciding) := by
    refine ⟨_, rfl, rfl, rfl, fun hnone => ?_⟩
    obtain ⟨hcontrol, hpause⟩ := Option.or_eq_none_iff.mp hnone
    rw [hpause] at hp
    exact if_pos ⟨hp, pauseReason_eq_none.mp hcontrol⟩
  have h₁ : Passing q { w with
      pass := w.pass.looked (.executionControl .closing) control
      hand := w.hand.looked (.executionControl .closing) } :=
    ⟨h.sound.of_books rfl, trivial, by rw [h.pass]; exact hq⟩
  -- What follows from the last look.
  have hdecide : ∀ (allReady : Bool) (result : Result) q', Watching q q' →
      (allReady → outcomes.all (· = .ready)
        ∧ (q.stage = .deciding → ∀ a ∈ accounts, a ∈ q'.streaming)) → ∀ w,
      Passing q' w → Wp (do
        if (pauseReason control).or pause = none then
          if allReady then do
            setControl .ready "all configured accounts passed startup reconciliation"
            ask (.elsewhere .automaticTrader)
          else
            setControl .blocked ("startup reconciliation is incomplete; "
              ++ "order, fill, and position matching is required before execution")
        return result) (fun _ _ => True) w := by
    intro allReady result q' hwatch hready w h
    dsimp only
    split
    · next hnone =>
        have hstage := hdeciding hnone
        have hstage' := hwatch.stage.trans hstage
        cases allReady with
        | true =>
            refine System.wp_bind _ _ _
              (wp_setControl h ⟨hstage', ?_, fun a ha => ?_⟩ fun w h => ?_)
            · rw [hwatch.listed, hlisted', hlisted]
              exact hne
            · rw [hwatch.listed, hlisted'] at ha
              rw [hwatch.agreed, hagreed']
              exact ⟨hagreed (hready rfl).1 (Option.or_eq_none_iff.mp hnone).2 a ha,
                (hready rfl).2 hstage a (hlisted ▸ ha)⟩
            · refine System.wp_bind _ _ _ (System.wp_mono _ (fun r w _ => ?_) w
                (wp_passing (m := ask _) (keeps_neutral (by exact trivial)) h))
              cases r <;> exact trivial
        | false =>
            exact System.wp_bind _ _ _ (wp_setControl h (.inl hstage') fun w _ => trivial)
    · exact trivial
  dsimp only
  split
  · next hall =>
      refine System.wp_bind _ _ _ (System.wp_mono _ (fun r w h => ?_) _
        (wp_streamsReady accounts q _ h₁))
      obtain ⟨q', hwatch, h, hstreams⟩ := h
      cases r with
      | error e => exact trivial
      | ok allReady =>
          refine hdecide allReady _ q' hwatch (fun hready => ⟨hall, fun hstage => ?_⟩) w h
          exact hstreams hstage (by rw [hready])
  · exact hdecide false _ q (.refl q) (fun hc => (by cases hc)) _ h₁

/-- The compensator looks again, and the pass ends. -/
theorem wp_afterAccounts {accounts : List Account} {pause : Option String} {outcomes : List Outcome}
    {p : Pass} (hp : p.stage = .checking pause.isSome) (hlisted : p.listed = accounts)
    (hne : accounts ≠ [])
    (hagreed : outcomes.all (· = .ready) → pause = none → ∀ a ∈ p.listed, a ∈ p.agreed) {w : World}
    (h : Passing p w) : Wp (do
      let _ ← LiveCompensation.runOnce .lateCompensator
      conclude accounts pause outcomes) (fun _ _ => True) w := by
  have hlate : Wp (LiveCompensation.runOnce .lateCompensator) (fun _ w =>
      Passing { p with stage := .finishing pause.isSome } w) w := by
    refine System.wp_bind _ _ _ (wp_look passing_stable h fun w h => ?_)
    have hexecuting : Executing [] { p with stage := .finishing pause.isSome } { w with
        pass := w.pass.looked (.executionControl .lateCompensator) (Query.eval w.ledger _)
        hand := w.hand.looked (.executionControl .lateCompensator) } := by
      refine ⟨h.sound.of_books rfl, fun cid hcid => (by cases hcid), ?_⟩
      show w.pass.looked (.executionControl .lateCompensator) w.ledger.control = _
      rw [h.pass]
      simp only [Pass.looked, hp]
    refine System.wp_mono _ (fun r w h => ?_) _ (keeps_compensateFirst
      (p := { p with stage := .finishing pause.isSome }) trivial _ _ hexecuting)
    exact ⟨h.sound, trivial, h.pass⟩
  refine System.wp_bind _ _ _ (System.wp_mono _ (fun r w h => ?_) w hlate)
  cases r with
  | error e => exact trivial
  | ok result =>
      exact wp_conclude (p := { p with stage := .finishing pause.isSome }) rfl hlisted hne hagreed h

/-- The second half of a pass: the accounts, the streams once more, and the
control. -/
theorem wp_reconcile {accounts : List Account} {pause : Option String} {p : Pass}
    (hp : p.stage = .checking pause.isSome) (hlisted : p.listed = accounts) (hne : accounts ≠ [])
    {w : World} (h : Passing p w) : Wp (reconcile accounts pause) (fun _ _ => True) w := by
  refine System.wp_bind _ _ _ (System.wp_mono _ (fun r w h => ?_) w
    (wp_reconcileAccounts accounts p w hp h))
  cases r with
  | error e => exact trivial
  | ok outcomes =>
      refine wp_afterAccounts (h.stage.trans hp) (h.listed.trans hlisted) hne
        (fun hall hpause a ha => ?_)
        ⟨h.sound, trivial, rfl⟩
      rw [h.listed, hlisted] at ha
      refine h.agreed ⟨outcomes, rfl, hall⟩ ?_ a (.inr ha)
      rw [hp, hpause]
      rfl

/-- From the list of accounts on. -/
theorem wp_listed {pause : Option String} {p : Pass} (hp : p.stage = .checking pause.isSome)
    {w : World} (h : Passing p w) : Wp (do
      let summaries ← ask .listCredentials
      match (summaries.filter (·.isDefault)).map (·.account) with
      | [] => withoutAccounts pause
      | a :: rest => reconcile (a :: rest) pause) (fun _ _ => True) w := by
  refine System.wp_bind _ _ _ (wp_ask passing_stable h (fun _ _ h => (by cases h)) fun w h r => ?_)
  have h₁ : Passing (p.heard .listCredentials r) { w with
      pass := w.pass.heard .listCredentials r, hand := w.hand.heard .listCredentials r } :=
    ⟨h.sound.of_books rfl, trivial, by rw [← h.pass]⟩
  cases r with
  | error e => exact trivial
  | ok summaries =>
      -- The accounts that the pass goes through are the default ones.
      generalize haccounts : (summaries.filter (·.isDefault)).map (·.account) = accounts at h₁
      have hheard : p.heard .listCredentials (.ok summaries) = { p with
          listed := accounts
          stage := if accounts = [] ∧ p.stage = .checking false then .vacant else p.stage } := by
        rw [← haccounts]
        rfl
      rw [hheard] at h₁
      show Wp (match (summaries.filter (·.isDefault)).map (·.account) with
        | [] => _
        | a :: rest => _) _ _
      rw [haccounts]
      -- Without accounts a pass that found no pause leaves the control to the startup.
      cases accounts with
      | nil =>
          show Wp (withoutAccounts pause) _ _
          unfold withoutAccounts
          dsimp only
          by_cases hpause : pause = none
          · rw [if_pos hpause]
            refine System.wp_bind _ _ _ (wp_setControl h₁ ?_ fun w _ => ?_)
            · rw [hpause] at hp
              exact Or.inr (if_pos ⟨rfl, hp⟩)
            · exact trivial
          · rw [if_neg hpause]
            exact trivial
      -- With accounts the pass checks them.
      | cons a rest =>
          show Wp (reconcile (a :: rest) pause) _ _
          have hne : ¬(a :: rest = [] ∧ p.stage = .checking false) :=
            fun hc => List.cons_ne_nil a rest hc.1
          rw [if_neg hne] at h₁
          exact wp_reconcile (p := { p with listed := a :: rest }) hp rfl (List.cons_ne_nil a rest) h₁

/-- A whole pass keeps the guards of all its operations. -/
theorem wp_reconcileAll {p : Pass} {w : World} (h : Passing p w) :
    Wp reconcileAll (fun _ _ => True) w := by
  refine System.wp_bind _ _ _ (wp_look passing_stable h fun w h => ?_)
  generalize Query.eval w.ledger (.executionControl .opening) = control
  have h₁ : Passing { stage := if Control.Paused control then .checking true else .starting }
      { w with
        pass := w.pass.looked (.executionControl .opening) control
        hand := w.hand.looked (.executionControl .opening) } :=
    ⟨h.sound.of_books rfl, trivial, rfl⟩
  dsimp only
  split
  · next hpause =>
      have hnot := pauseReason_eq_none.mp hpause
      rw [if_neg hnot] at h₁
      refine System.wp_bind _ _ _ (wp_setControl h₁ rfl fun w h => ?_)
      rw [hpause]
      exact wp_listed rfl h
  · next hpause =>
      have hpaused : Control.Paused control := by
        by_contra hc
        exact hpause (pauseReason_eq_none.mpr hc)
      rw [if_pos hpaused] at h₁
      refine wp_listed ?_ h₁
      show Stage.checking true = _
      rw [Option.isSome_iff_ne_none.mpr hpause]

/-- What another service does between keeps an empty hand. -/
theorem keeps_elsewhere {p : Pass} (hs : p.stage.isExecuting) {s : Service} (h : s ≠ .transfers) :
    Keeps (Executing [] p) (ask (.elsewhere s)) := by
  refine keeps_ask hs ?_
  cases s <;> first | exact trivial | exact absurd rfl h

/-- A whole pass meets its guards. -/
theorem runOnce_guarded {w : World} (h : Sound w) : Wp runOnce (fun _ _ => True) w := by
  have hpreceding : Wp precedingPasses (fun _ w => Executing [] {} w) w := by
    refine System.wp_bind _ _ _ (wp_ask passing_stable ⟨h, trivial, rfl⟩
      (fun _ _ h => (by cases h)) fun w h r => ?_)
    have h₁ : Executing [] {} { w with
        pass := w.pass.heard (.elsewhere .transfers) r
        hand := w.hand.heard (.elsewhere .transfers) r } :=
      ⟨h.sound.of_books rfl, fun cid hcid => (by cases hcid), rfl⟩
    have hs : ({} : Pass).stage.isExecuting := trivial
    cases r with
    | error e => exact h₁
    | ok u =>
        refine Keeps.bind (keeps_elsewhere hs (by decide)) (fun _ => ?_) _ h₁
        refine Keeps.bind (keeps_elsewhere hs (by decide)) fun _ => ?_
        refine Keeps.bind (keeps_elsewhere hs (by decide)) fun _ => ?_
        exact (keeps_liveExecution hs).bind fun _ => (keeps_liveCompensation hs).bind fun _ => .done _
  refine System.wp_bind _ _ _ (System.wp_mono _ (fun r w h => ?_) w hpreceding)
  cases r with
  | error e => exact trivial
  | ok u => exact wp_reconcileAll ⟨h.sound, trivial, h.pass⟩

/-! ## §5. Runs. -/

variable {allow : World → Label Op Rep Act → Prop}

/-- In every reachable state the world is sound. -/
theorem Reachable.sound {s : State} (hs : Reachable allow s) : Sound s.world :=
  (hs.guarded preserves (fun _ => sound_of_initial) fun _ => runOnce_guarded).1

/-- And the guard of the operation that comes next holds. -/
theorem Reachable.pre {w : World} {o : Op} {k : Rep o → Worker Exc Result}
    (hs : Reachable allow ⟨w, some (.call o k)⟩) : Pre o w :=
  System.Reach.pre preserves (fun _ => sound_of_initial) (fun _ => runOnce_guarded) hs

/-- What one step keeps, given the guard of an operation. -/
structure Kept (allow : World → Label Op Rep Act → Prop) (J : World → Prop) : Prop where
  act : ∀ a w, a.isPossible w → allow w (.act a) → Sound w → J w → J (a.apply w)
  trade : ∀ o w r w', w.traded o = (r, w') → allow w (.call (.trade o) r) → Pre (.trade o) w →
    Sound w → Effect o w.ledger w'.ledger → J w → J w'
  query : ∀ q w, allow w (.call (.query q) (q.eval w.ledger)) → Pre (.query q) w → Sound w → J w →
    J { w with pass := w.pass.looked q (q.eval w.ledger), hand := w.hand.looked q }
  control : ∀ state reason w, allow w (.call (.setControl state reason) ()) →
    ControlGuard state w.pass → Sound w → J w → J { w with
      books := writeControl (Control.setExecutionControl state reason w.control) w.books
      pass := w.pass.controlled }
  place : ∀ a order r w arrives, allow w (.call (.out (.placeLimitIoc a order)) r) →
    order.clientOrderId ∈ w.hand.prepared → Sound w → J w →
    J (w.place order.clientOrderId arrives)
  out : ∀ o r w, (∀ a order, o ≠ .placeLimitIoc a order) → allow w (.call (.out o) r) → Sound w →
    J w → J { w with pass := w.pass.heard o r, hand := w.hand.heard o r }
  idle : ∀ w, J w → J { w with pass := {}, hand := {} }

/-- An invariant that every allowed step keeps survives the call of an
operation. -/
theorem Kept.call {J : World → Prop} (hk : Kept allow J) {o : Op} {w w' : World} {r : Rep o}
    (he : system.exec o w r w') (ha : allow w (.call o r)) (hpre : Pre o w) (hs : Sound w)
    (hJ : J w) : J w' := by
  cases o with
  | trade o =>
      refine hk.trade o w r w' he ha hpre hs ?_ hJ
      cases he
      exact transact_effect hs.reachable rfl
  | query q =>
      obtain ⟨rfl, rfl⟩ := he
      exact hk.query q w ha hpre hs hJ
  | setControl state reason =>
      rw [show w' = _ from he]
      exact hk.control state reason w ha hpre hs hJ
  | out o =>
      by_cases hplace : ∃ a order, o = .placeLimitIoc a order
      · obtain ⟨a, order, rfl⟩ := hplace
        obtain ⟨arrives, rfl⟩ := he
        exact hk.place a order r w arrives ha hpre hs hJ
      · have hne : ∀ a order, o ≠ .placeLimitIoc a order :=
          fun a order heq => hplace ⟨a, order, heq⟩
        have hw : w' = { w with pass := w.pass.heard o r, hand := w.hand.heard o r } := by
          cases o <;> first | exact he | exact absurd rfl (hne _ _)
        rw [hw]
        exact hk.out o r w hne ha hs hJ

/-- What allowed steps keep from a configuration on that was reached by steps of
whatever other kind. -/
theorem Kept.runs_from {J : World → Prop} {before : World → Label Op Rep Act → Prop}
    (hk : Kept allow J) {s s' : State} (hs : Reachable before s) (hr : RunsTo allow s s')
    (hJ : J s.world) : J s'.world :=
  System.Run.invariant_from preserves (fun _ => sound_of_initial) (fun _ => runOnce_guarded)
    (fun a w _ h ha hs hJ => h.2 ▸ hk.act a w h.1 ha hs hJ)
    (fun _ _ _ _ he ha hpre hs hJ => hk.call he ha hpre hs hJ) (fun w _ hJ => hk.idle w hJ) hs hr hJ

/-- And holds in every reachable state. -/
theorem Kept.reachable {J : World → Prop} (hk : Kept allow J) (hinit : ∀ w, Initial w → J w)
    {s : State} (hs : Reachable allow s) : J s.world :=
  System.Reach.invariant preserves (fun _ => sound_of_initial) (fun _ => runOnce_guarded) hinit
    (fun a w _ h ha hs hJ => h.2 ▸ hk.act a w h.1 ha hs hJ)
    (fun _ _ _ _ he ha hpre hs hJ => hk.call he ha hpre hs hJ) (fun w _ hJ => hk.idle w hJ) hs

end BasisHawk.Reconciliation
