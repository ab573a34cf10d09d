/-
  BasisHawk.Reconciliation.AtMostOnce
  ───────────────────────────────────
  An order leg is submitted at most once, whatever the worker's passes and
  crashes and the other actors do.

  The worker holds an advisory lock and awaits one service at a time, so a run
  is a sequence of passes of the three services.  An order is placed only for a
  leg that a transaction has just moved out of `created`; no transaction moves
  a leg back, so no leg is prepared twice.

  Main results:
    • `created_before`: a leg that is `created` was so before,
    • `oncePlaced_kept`: client order ids are prepared once and placed once,
    • `submitted_at_most_once`: the same of the legs, and how a leg leaves
      `created`.
-/
import BasisHawk.Reconciliation.GuardedPass

namespace BasisHawk.Reconciliation

open Domain Lib Accounts Paired

/-! ## §1. The services. -/

/-- The services of the two-leg executor. -/
inductive Entry where
  | liveExecution | liveCompensation | reconciliation
  deriving DecidableEq, Repr

/-- A pass of a service. -/
def Entry.runOnce : Entry → Worker Exc Unit
  | .liveExecution => do let _ ← LiveExecution.runOnce
  | .liveCompensation => do let _ ← LiveCompensation.runOnce .compensator
  | .reconciliation => do let _ ← Reconciliation.runOnce

/-- The worker that runs any of the services, one pass after the other. -/
abbrev services : System (Op ⊕ Unit) (Sum.elim Rep fun _ => Entry) Act World :=
  system.choosing Entry

/-- A pass of that worker. -/
abbrev anyPass : Prog (Op ⊕ Unit) (Sum.elim Rep fun _ => Entry) Exc Unit :=
  System.anyOf Entry.runOnce

/-- The configurations of that worker. -/
abbrev ServicesState : Type :=
  Config (Op ⊕ Unit) (Sum.elim Rep fun _ => Entry) Exc Unit World

/-- The configurations it reaches. -/
abbrev ServicesReachable : ServicesState → Prop :=
  services.Reach anyPass Initial System.anyStep

/-- Every pass of a service meets its guards. -/
theorem entry_guarded (e : Entry) (w : World) (h : Sound w) :
    Wp e.runOnce (fun _ _ => True) (system.idle w) := by
  have hidle : Sound (system.idle w) := preserves.idle w h
  have hexec : Executing [] {} (system.idle w) :=
    ⟨hidle, fun cid hcid => (by cases hcid), rfl⟩
  have hfree : ∀ r : Except Exc Unit, ∀ w' : World, Executing [] {} w' → True :=
    fun _ _ _ => trivial
  cases e with
  | liveExecution =>
      refine System.wp_mono _ hfree _ ?_
      exact (keeps_liveExecution (p := {}) trivial).bind (fun _ => .done _) _ hexec
  | liveCompensation =>
      refine System.wp_mono _ hfree _ ?_
      exact (keeps_liveCompensation (p := {}) trivial).bind (fun _ => .done _) _ hexec
  | reconciliation =>
      refine System.wp_bind _ _ _ (System.wp_mono _ (fun r w' _ => ?_) _ (runOnce_guarded hidle))
      cases r with
      | ok r => exact trivial
      | error e => exact trivial

/-- The guards, with nothing asked of the choice. -/
abbrev ServicesPre : Op ⊕ Unit → World → Prop := Sum.elim Pre fun _ _ => True

/-- Every service keeps the guards of the operations it calls, whichever pass it
is in. -/
theorem services_guarded (w : World) (_ : Sound w) :
    services.wp Sound ServicesPre anyPass (fun _ _ => True) w :=
  System.wp_anyOf entry_guarded w

/-- In every reachable state of the services the world is sound. -/
theorem ServicesReachable.sound {s : ServicesState} (hs : ServicesReachable s) : Sound s.world :=
  (hs.guarded (preserves.choosing Entry) (fun _ => sound_of_initial) services_guarded).1

/-- What every step keeps holds whichever services run. -/
theorem Kept.services {J : World → Prop} (hk : Kept System.anyStep J)
    (hinit : ∀ w, Initial w → J w) {s : ServicesState} (hs : ServicesReachable s) : J s.world := by
  refine System.Reach.invariant (preserves.choosing Entry) (fun _ => sound_of_initial)
    services_guarded hinit ?_ ?_ (fun w _ hJ => hk.idle w hJ) hs
  · intro a w w' h _ hsound hJ
    have hw' : w' = a.apply w := h.2
    rw [hw']
    exact hk.act a w h.1 trivial hsound hJ
  · intro o w r w' he _ hpre hsound hJ
    cases o with
    | inl o => exact hk.call he trivial hpre hsound hJ
    | inr u =>
        have hw' : w' = system.idle w := he
        rw [hw']
        exact hk.idle w hJ

/-! ## §2. A leg never comes back to `created`. -/

/-- A leg that is `created` after a transaction was so before. -/
theorem created_before {o : TradeOp} {l : Ledger} {old new : OrderLegRow}
    (h : LegMove o l old new) (hs : new.status = .created) : old.status = .created := by
  cases ho : isForeign o with
  | false => exact (created_of_move h ho hs).1
  | true =>
      -- The paper executor fills or fails the legs it writes.
      cases o with
      | paperOpenFills => exact absurd hs h.2
      | paperCompensation => exact absurd hs h.2
      | paperCloseFills => exact absurd hs h.2
      | paperCloseCompensation => exact absurd hs h.2
      | createOpen plan => cases h
      | createClose plan => cases h
      | _ => cases ho

/-- A leg with this client order id has left `created`. -/
def WasPrepared (l : Ledger) (clientOrderId : String) : Prop :=
  ∃ leg ∈ l.legs, leg.clientOrderId = clientOrderId ∧ leg.status ≠ .created

/-- A leg that has left `created` does not come back, whatever an operation
does. -/
theorem WasPrepared.effect {o : TradeOp} {l l' : Ledger} (he : Effect o l l') {cid : String}
    (h : WasPrepared l cid) : WasPrepared l' cid := by
  obtain ⟨leg, hleg, hcid, hstatus⟩ := h
  obtain ⟨new, hnew, hsame, rfl | hmove⟩ := he.leg_forth hleg
  · exact ⟨new, hnew, hcid, hstatus⟩
  · exact ⟨new, hnew, hsame.clientOrderId.trans hcid, fun hs => hstatus (created_before hmove hs)⟩

/-- Nor through what other components do. -/
theorem WasPrepared.foreign {l l' : Ledger} (hf : ForeignStep l l') {cid : String}
    (h : WasPrepared l cid) : WasPrepared l' cid := by
  rcases hf with ⟨o, -, he⟩ | ⟨c, rfl⟩
  · exact h.effect he
  · exact h

/-! ## §3. An order is prepared once and placed once. -/

/-- The legs a transaction hands out were `created` before it and are not any
more. -/
theorem preparedLegs_spec {w w' : World} {o : TradeOp} {r : Except Exc o.Result}
    (hsound : Sound w) (he : w.traded o = (r, w')) {legs : List OrderLegRow}
    (hlegs : preparedLegs o r = some legs) {leg : OrderLegRow} (hleg : leg ∈ legs) :
    WasPrepared w'.ledger leg.clientOrderId
      ∧ ∃ old ∈ w.ledger.legs, old.clientOrderId = leg.clientOrderId ∧ old.status = .created := by
  have hw := hsound.wellFormed
  have hcommit : transact o w.now w.books = (r, w'.books) := by
    cases he
    rfl
  -- A submitted row stands for the row it replaces.
  have hput : ∀ {legs : List OrderLegRow} {old new : OrderLegRow}, old ∈ legs → new.id = old.id →
      new ∈ Table.put legs new := by
    intro legs old new hold hid
    exact Table.mem_put.mpr (.inl ⟨rfl, old, hold, hid.symm⟩)
  rcases transact_cases hcommit with ⟨x, l, htx, rfl, hbooks⟩ | ⟨e, -, rfl, -⟩
  · have hledger : w'.ledger = l := by
      show w'.books.ledger = l
      rw [hbooks]
      rfl
    rw [hledger]
    cases o with
    | prepareSubmission intentId adjusted =>
        rcases Ledger.prepareLiveSubmission_ok htx with ⟨-, hno⟩ | ⟨i, spot, perp, price, hq, -, -, -,
          -, hprimary, hspot, hperp, rfl, rfl⟩
        · obtain ⟨i, hr⟩ := handedOut_some.mp hlegs
          exact absurd hr (hno i legs)
        · cases hlegs
          obtain ⟨⟨hs_mem, -, hs_name⟩, hp_mem, -, hp_name⟩ := Ledger.primaryLegs_ok hprimary
          have hne : spot.id ≠ perp.id := by
            intro hid
            have hsame : spot = perp := hw.legs_unique.eq hs_mem hp_mem hid
            rw [hsame, hp_name] at hs_name
            cases hs_name
          rcases List.mem_cons.mp hleg with rfl | hleg
          · refine ⟨⟨_, Table.mem_put.mpr (.inr ⟨hput hs_mem rfl, hne⟩), rfl, ?_⟩,
              spot, hs_mem, rfl, hspot⟩
            exact fun h => by cases h
          · rw [List.mem_singleton.mp hleg]
            refine ⟨⟨_, Table.mem_put.mpr (.inl ⟨rfl, perp, ?_, rfl⟩), rfl, ?_⟩,
              perp, hp_mem, rfl, hperp⟩
            · exact Table.mem_put.mpr (.inr ⟨hp_mem, fun h => hne h.symm⟩)
            · exact fun h => by cases h
    | prepareCompensation intentId limit quantity tolerance =>
        rcases Ledger.prepareLiveCompensation_ok htx with ⟨-, hno⟩ | ⟨i, c, hq, ht, -, -, hc,
          hcreated, -, rfl, rfl⟩
        · obtain ⟨i, hr⟩ := handedOut_some.mp hlegs
          exact absurd hr (hno i legs)
        · cases hlegs
          obtain ⟨hmem, -, -⟩ := Ledger.mem_of_filter_eq hc
          rw [List.mem_singleton.mp hleg]
          exact ⟨⟨_, hput hmem rfl, rfl, fun h => by cases h⟩, c, hmem, rfl, hcreated⟩
    | _ => cases hlegs
  · cases o <;> cases hlegs

/-- A transaction leaves the prepared orders alone, unless it hands out legs. -/
theorem wrote_prepared_cases (h : Hand) (o : TradeOp) (r : Except Exc o.Result) :
    (h.wrote o r).prepared = h.prepared
      ∨ ∃ legs, preparedLegs o r = some legs
        ∧ (h.wrote o r).prepared = legs.map (·.clientOrderId) := by
  cases hlegs : preparedLegs o r with
  | none =>
      refine .inl ?_
      cases o <;> cases r <;> first | rfl | simp only [Hand.wrote, hlegs]
  | some legs =>
      refine .inr ⟨legs, rfl, ?_⟩
      cases o with
      | prepareSubmission => exact wrote_prepared rfl hlegs h
      | prepareCompensation => exact wrote_prepared rfl hlegs h
      | _ => cases hlegs

/-- The orders in hand were prepared once and not yet placed; those placed were
placed once. -/
structure OncePlaced (w : World) : Prop where
  placed : w.history.placed.Nodup
  prepared : w.hand.prepared.Nodup
  fresh : ∀ cid ∈ w.hand.prepared, cid ∉ w.history.placed
  left : ∀ cid, cid ∈ w.hand.prepared ∨ cid ∈ w.history.placed → WasPrepared w.ledger cid

/-- Two legs with one client order id are the same. -/
theorem Sound.leg_of_cid {w : World} (h : Sound w) {a b : OrderLegRow} (ha : a ∈ w.ledger.legs)
    (hb : b ∈ w.ledger.legs) (heq : a.clientOrderId = b.clientOrderId) : a = b :=
  List.inj_on_of_nodup_map h.reachable.client_ids ha hb heq

/-- The step lemma: a leg is handed out when it leaves `created`, and what was
handed out is placed no second time. -/
theorem oncePlaced_kept : Kept System.anyStep OncePlaced where
  act := by
    intro a w hp _ hs h
    have hf := Act.foreignStep hs.reachable hp
    have hpass := Act.apply_pass a w
    have hhistory : (a.apply w).history = w.history := by
      cases a <;> rfl
    refine ⟨?_, ?_, ?_, ?_⟩
    · rw [hhistory]
      exact h.placed
    · rw [hpass.2]
      exact h.prepared
    · rw [hhistory, hpass.2]
      exact h.fresh
    · rw [hhistory, hpass.2]
      exact fun cid hcid => (h.left cid hcid).foreign hf
  trade := by
    intro o w r w' he _ _ hs heffect h
    have hhistory : w'.history.placed = w.history.placed := by
      cases he
      cases o <;> rfl
    have hhand : w'.hand = w.hand.wrote o r := (traded_pass he).2
    have hplaced : ∀ cid ∈ w'.history.placed, WasPrepared w'.ledger cid := by
      rw [hhistory]
      exact fun cid hcid => (h.left cid (.inr hcid)).effect heffect
    rcases wrote_prepared_cases w.hand o r with hsame | ⟨legs, hlegs, hnew⟩
    · refine ⟨?_, ?_, ?_, fun cid hcid => hcid.elim (fun hcid => ?_) (hplaced cid)⟩
      · rw [hhistory]
        exact h.placed
      · rw [hhand, hsame]
        exact h.prepared
      · rw [hhistory, hhand, hsame]
        exact h.fresh
      · rw [hhand, hsame] at hcid
        exact (h.left cid (.inl hcid)).effect heffect
    · have hspec := @preparedLegs_spec _ _ _ _ hs he _ hlegs
      refine ⟨?_, ?_, ?_, fun cid hcid => hcid.elim (fun hcid => ?_) (hplaced cid)⟩
      · rw [hhistory]
        exact h.placed
      · rw [hhand, hnew]
        exact preparedLegs_nodup hs he hlegs
      · -- A leg that was `created` has no order that was placed.
        rw [hhistory, hhand, hnew]
        intro cid hcid hbefore
        obtain ⟨leg, hleg, rfl⟩ := List.mem_map.mp hcid
        obtain ⟨-, old, hold, hold_cid, hcreated⟩ := hspec hleg
        obtain ⟨leg', hleg', hcid', hstatus⟩ := h.left _ (.inr hbefore)
        have hsame : leg' = old := hs.leg_of_cid hleg' hold (hcid'.trans hold_cid.symm)
        rw [hsame] at hstatus
        exact hstatus hcreated
      · rw [hhand, hnew] at hcid
        obtain ⟨leg, hleg, rfl⟩ := List.mem_map.mp hcid
        exact (hspec hleg).1
  query := by
    intro q w _ _ _ h
    have hhand : (w.hand.looked q).prepared = w.hand.prepared := by
      cases q <;> rfl
    refine ⟨h.placed, ?_, ?_, ?_⟩
    · show (w.hand.looked q).prepared.Nodup
      rw [hhand]
      exact h.prepared
    · show ∀ cid ∈ (w.hand.looked q).prepared, cid ∉ w.history.placed
      rw [hhand]
      exact h.fresh
    · show ∀ cid, cid ∈ (w.hand.looked q).prepared ∨ cid ∈ w.history.placed → _
      rw [hhand]
      exact h.left
  control := fun state reason w _ _ _ h => ⟨h.placed, h.prepared, h.fresh, h.left⟩
  place := by
    intro a order r w arrives _ hprepared _ h
    have hnext : ∀ cid, cid ∈ (w.hand.placed order.clientOrderId).prepared →
        cid ∈ w.hand.prepared ∧ cid ≠ order.clientOrderId := by
      intro cid hcid
      have hmem := List.mem_filter.mp hcid
      exact ⟨hmem.1, by simpa using hmem.2⟩
    refine ⟨?_, ?_, ?_, ?_⟩
    · exact List.nodup_cons.mpr ⟨h.fresh _ hprepared, h.placed⟩
    · exact h.prepared.filter _
    · intro cid hcid hmem
      obtain ⟨hcid, hne⟩ := hnext cid hcid
      rcases List.mem_cons.mp hmem with heq | hmem
      · exact hne heq
      · exact h.fresh cid hcid hmem
    · intro cid hcid
      rcases hcid with hcid | hmem
      · exact h.left cid (.inl (hnext cid hcid).1)
      · rcases List.mem_cons.mp hmem with rfl | hmem
        · exact h.left _ (.inl hprepared)
        · exact h.left cid (.inr hmem)
  out := by
    intro o r w _ _ _ h
    have hhand : (w.hand.heard o r).prepared = w.hand.prepared := by
      unfold Hand.heard
      split <;> rfl
    refine ⟨h.placed, ?_, ?_, ?_⟩
    · show (w.hand.heard o r).prepared.Nodup
      rw [hhand]
      exact h.prepared
    · show ∀ cid ∈ (w.hand.heard o r).prepared, cid ∉ w.history.placed
      rw [hhand]
      exact h.fresh
    · show ∀ cid, cid ∈ (w.hand.heard o r).prepared ∨ cid ∈ w.history.placed → _
      rw [hhand]
      exact h.left
  idle := by
    intro w h
    refine ⟨h.placed, List.nodup_nil, fun cid hcid => (by cases hcid), fun cid hcid => ?_⟩
    exact h.left cid (.inr (hcid.resolve_left fun hmem => by cases hmem))

/-- So no order was placed twice in any reachable state. -/
theorem ServicesReachable.oncePlaced {s : ServicesState} (hs : ServicesReachable s) :
    OncePlaced s.world := by
  refine oncePlaced_kept.services (fun w hw => ?_) hs
  refine ⟨?_, ?_, fun cid hcid => ?_, fun cid hcid => ?_⟩
  · rw [hw.history]
    exact List.nodup_nil
  · rw [hw.hand]
    exact List.nodup_nil
  · rw [hw.hand] at hcid
    cases hcid
  · rw [hw.hand, hw.history] at hcid
    rcases hcid with hcid | hcid <;> cases hcid

/-! ## §4. How a leg leaves `created`. -/

/-- A leg of a sandbox or live intent leaves `created`. -/
structure LeavesCreated (l l' : Ledger) (old new : OrderLegRow) : Prop where
  before : old ∈ l.legs
  after : new ∈ l'.legs
  same : new.id = old.id
  created : old.status = .created
  left : new.status ≠ .created
  live : ¬OnPaper l old.tradeIntentId

/-- Both legs of the intent are submitted at once, while the execution is ready
or the intent is an emergency close and the execution paused. -/
structure Submitted (l l' : Ledger) (intentId : Nat) : Prop where
  together : ∀ leg ∈ l.legs, leg.tradeIntentId = intentId → leg.status = .created
    ∧ ∃ leg' ∈ l'.legs, leg'.id = leg.id ∧ leg'.status = .submitted
  permitted : ∃ i ∈ l.intents, i.id = intentId
    ∧ (Control.Ready l.control ∨ (Control.Paused l.control ∧ i.emergency ∧ i.action = .closing))

section Leaving

variable {l l' : Ledger} {seen : List PairedPositionRow} {old new : OrderLegRow}

/-- A leg that leaves `created` is rewritten. -/
theorem LeavesCreated.move {o : TradeOp} (hw : WellFormed seen l) (he : Effect o l l')
    (h : LeavesCreated l l' old new) : LegMove o l old new := by
  rcases he.leg_back h.after with ⟨row, hrow, hsame, hmove⟩ | ⟨-, -, -, hfresh, -⟩
  · have hrow_old : row = old := hw.legs_unique.eq hrow h.before (hsame.id.symm.trans h.same)
    rw [hrow_old] at hmove
    rcases hmove with heq | hmove
    · exact absurd (heq ▸ h.created) h.left
    · exact hmove
  · have hbelow : old.id < l.nextId := hw.legs_below old h.before
    have hid := h.same
    omega

/-- It does not happen where the legs stay as they are. -/
theorem LeavesCreated.not_same (hw : WellFormed seen l) (hl : l'.legs = l.legs)
    (h : LeavesCreated l l' old new) : False := by
  have hmem := h.after
  rw [hl] at hmem
  have heq : new = old := hw.legs_unique.eq hmem h.before h.same
  rw [heq] at h
  exact h.left h.created

/-- The other actors leave it alone. -/
theorem LeavesCreated.not_foreign (hw : WellFormed seen l) (hf : ForeignStep l l')
    (h : LeavesCreated l l' old new) : False := by
  rcases hf with ⟨o, ho, he⟩ | ⟨c, rfl⟩
  · exact h.live (foreign_move ho (h.move hw he))
  · have hlegs : ({ l with control := c } : Ledger).legs = l.legs := rfl
    exact h.not_same hw hlegs

/-- An intent with two primary legs has no other leg. -/
theorem primaryLegs_all {intentId : Nat} {spot perp : OrderLegRow}
    (h : l.primaryLegs intentId = .ok (spot, perp)) {leg : OrderLegRow} (hleg : leg ∈ l.legs)
    (hintent : leg.tradeIntentId = intentId) : leg = spot ∨ leg = perp := by
  simp only [Ledger.primaryLegs] at h
  split at h
  · next s p hs hp =>
      split at h
      · next htwo =>
          cases h
          have hmem : leg ∈ l.legsOfIntent intentId := mem_legsOfIntent.mpr ⟨hleg, hintent⟩
          obtain ⟨a, b, hab⟩ := List.length_eq_two.mp htwo
          have hspot := List.mem_of_find?_eq_some hs
          have hperp := List.mem_of_find?_eq_some hp
          have hne : spot ≠ perp := by
            intro heq
            have hs_name := List.find?_some hs
            have hp_name := List.find?_some hp
            rw [heq] at hs_name
            simp only [decide_eq_true_eq] at hs_name hp_name
            rw [hs_name] at hp_name
            cases hp_name
          rw [hab] at hmem hspot hperp
          simp only [List.mem_cons, List.not_mem_nil, or_false] at hmem hspot hperp
          grind
      · cases h
  · cases h

/-- The transactions of the worker that move a leg out of `created`. -/
theorem LeavesCreated.trade {o : TradeOp} {w w' : World} {r : Except Exc o.Result}
    (hsound : Sound w) (hpre : Pre (.trade o) w) (he : w.traded o = (r, w'))
    (h : LeavesCreated w.ledger w'.ledger old new) :
    (old.leg.isCompensation = false
        ∧ (∃ adjusted, o = .prepareSubmission old.tradeIntentId adjusted)
        ∧ Submitted w.ledger w'.ledger old.tradeIntentId)
      ∨ (old.leg.isCompensation = true
        ∧ (∃ limit quantity tolerance,
          o = .prepareCompensation old.tradeIntentId limit quantity tolerance)
        ∧ w.control.Paused) := by
  have hw := hsound.wellFormed
  have hcommit : transact o w.now w.books = (r, w'.books) := by
    cases he
    rfl
  have hmove := h.move hw (transact_effect hsound.reachable hcommit)
  have hledger : ∀ {l}, w'.books = w.books.after l → w'.ledger = l := fun hbooks => by
    show w'.books.ledger = _
    rw [hbooks]
    rfl
  rcases transact_cases hcommit with ⟨x, l, htx, -, hbooks⟩ | ⟨e, -, -, hbooks⟩
  swap
  · refine absurd h fun h => h.not_same hw ?_
    show w'.books.ledger.legs = _
    rw [hbooks]
  -- A leg that is brought up to date is not `created`.
  have hguard : ∀ legId, LegGuard legId w → old.id ≠ legId := by
    rintro legId ⟨a, -, row, hrow, hid, -, hstatus⟩ hold
    have hsame : row = old := hw.legs_unique.eq hrow h.before (hid.trans hold.symm)
    rw [hsame] at hstatus
    exact hstatus h.created
  cases o with
  | prepareSubmission intentId adjusted =>
      obtain ⟨hintent, hname, -, -⟩ := hmove
      refine .inl ⟨hname, ⟨adjusted, by rw [hintent]⟩, ?_⟩
      rw [hintent]
      rcases Ledger.prepareLiveSubmission_ok htx with ⟨hsame, -⟩ | ⟨i, spot, perp, price, hq, hi, -,
        -, hmay, hprimary, hspot, hperp, hl, -⟩
      · refine absurd h fun h => h.not_same hw ?_
        rw [hledger hbooks, hsame]
      · obtain ⟨hi_mem, hid⟩ := Table.find?_some hi
        have hid : i.id = intentId := hid
        obtain ⟨⟨hs_mem, -, hs_name⟩, hp_mem, -, hp_name⟩ := Ledger.primaryLegs_ok hprimary
        have hne : spot.id ≠ perp.id := by
          intro hsp
          have hsame : spot = perp := hw.legs_unique.eq hs_mem hp_mem hsp
          rw [hsame, hp_name] at hs_name
          cases hs_name
        refine ⟨fun leg hleg hleg_intent => ?_, i, hi_mem, hid, ?_⟩
        · rw [hledger hbooks, hl]
          rcases primaryLegs_all hprimary hleg (hleg_intent.trans hid.symm) with rfl | rfl
          · refine ⟨hspot, _, Table.mem_put.mpr (.inr ⟨Table.mem_put.mpr (.inl ⟨rfl, _, hs_mem, rfl⟩),
              hne⟩), rfl, rfl⟩
          · refine ⟨hperp, _, Table.mem_put.mpr (.inl ⟨rfl, _, Table.mem_put.mpr (.inr ⟨hp_mem, ?_⟩),
              rfl⟩), rfl, rfl⟩
            exact fun heq => hne heq.symm
        · obtain ⟨c, hc, hready | ⟨hpaused, hemergency, hclosing⟩⟩ := hmay
          · exact .inl ⟨c, hc, hready⟩
          · exact .inr ⟨⟨c, hc, hpaused⟩, hemergency, hclosing⟩
  | prepareCompensation intentId limit quantity tolerance =>
      obtain ⟨hintent, hname, -, -⟩ := hmove
      refine .inr ⟨hname, ⟨limit, quantity, tolerance, by rw [hintent]⟩, ?_⟩
      rcases Ledger.prepareLiveCompensation_ok htx with ⟨hsame, -⟩ | ⟨i, c, hq, ht, -, -, -, -,
        hpaused, -⟩
      · refine absurd h fun h => h.not_same hw ?_
        rw [hledger hbooks, hsame]
      · exact hpaused
  | recordSubmission legId s =>
      obtain ⟨-, hs | hs, -⟩ := hmove <;> rw [h.created] at hs <;> cases hs
  | markSubmissionUnknown legId =>
      have hs := hmove.2.1
      rw [h.created] at hs
      cases hs
  | markSubmissionRejected legId code =>
      have hs := hmove.2.1
      rw [h.created] at hs
      cases hs
  | markUnknownNotFound legId =>
      have hs := hmove.2.1
      rw [h.created] at hs
      cases hs
  | persistFills legId fills => exact absurd hmove.1 (hguard legId hpre)
  | reconcileOrder legId order => exact absurd hmove.1 (hguard legId hpre)
  | paperOpenFills => cases hpre.1
  | paperCompensation => cases hpre.1
  | paperCloseFills => cases hpre.1
  | paperCloseCompensation => cases hpre.1
  | _ => cases hmove

end Leaving

/-! ## §5. At most once. -/

/-- A leg of a sandbox or live intent is submitted at most once, its order known
by its client order id.  A primary leg leaves `created` only together with the
other one, in `prepare_live_submission`, while the execution is ready or paused
for an emergency close; a protection leg only in `prepare_live_compensation`,
while the execution is paused. -/
theorem submitted_at_most_once {s : ServicesState} (hs : ServicesReachable s) :
    (s.world.ledger.legs.map (·.clientOrderId)).Nodup
      ∧ (∀ leg ∈ s.world.ledger.legs, s.world.history.placed.count leg.clientOrderId ≤ 1)
      ∧ (∀ cid ∈ s.world.history.placed, WasPrepared s.world.ledger cid)
      ∧ ∀ step s', services.Step anyPass s step s' → ∀ old new,
        LeavesCreated s.world.ledger s'.world.ledger old new →
        (old.leg.isCompensation = false
            ∧ (∃ adjusted r,
              step = .call (.inl (.trade (.prepareSubmission old.tradeIntentId adjusted))) r)
            ∧ Submitted s.world.ledger s'.world.ledger old.tradeIntentId)
          ∨ (old.leg.isCompensation = true
            ∧ (∃ limit quantity tolerance r, step = .call (.inl (.trade
              (.prepareCompensation old.tradeIntentId limit quantity tolerance))) r)
            ∧ s.world.control.Paused) := by
  have hsound := hs.sound
  have honce := hs.oncePlaced
  refine ⟨hsound.reachable.client_ids, fun leg _ => ?_, fun cid hcid => honce.left cid (.inr hcid),
    fun step s' hstep old new hleaves => ?_⟩
  · exact List.nodup_iff_count_le_one.mp honce.placed _
  · have hw := hsound.wellFormed
    -- A leg leaves `created` in a transaction of the services; all other steps keep its status.
    cases hstep with
    | act h =>
        obtain ⟨hp, rfl⟩ := h
        exact absurd hleaves fun h => h.not_foreign hw (Act.foreignStep hsound.reachable hp)
    | start => exact absurd hleaves fun h => h.not_same hw rfl
    | @call o w r w' k h =>
        cases o with
        | inr u =>
            have hw' : w' = system.idle w := h
            rw [hw'] at hleaves
            exact absurd hleaves fun h => h.not_same hw rfl
        | inl o =>
            have hpre : Pre o w := System.Reach.pre (preserves.choosing Entry)
              (fun _ => sound_of_initial) services_guarded hs
            cases o with
            | trade o =>
                rcases hleaves.trade hsound hpre h with ⟨hname, ⟨adjusted, rfl⟩, hsub⟩ |
                  ⟨hname, ⟨limit, quantity, tolerance, rfl⟩, hpaused⟩
                · exact .inl ⟨hname, ⟨adjusted, r, rfl⟩, hsub⟩
                · exact .inr ⟨hname, ⟨limit, quantity, tolerance, r, rfl⟩, hpaused⟩
            | query q =>
                obtain ⟨-, rfl⟩ := h
                exact absurd hleaves fun h => h.not_same hw rfl
            | setControl state reason =>
                refine absurd hleaves fun h' => h'.not_same hw ?_
                have hw' : w' = _ := h
                rw [hw']
                rfl
            | out o =>
                refine absurd hleaves fun h' => h'.not_same hw ?_
                show w'.books.ledger.legs = w.books.ledger.legs
                rw [exec_out h]
    | finish => exact absurd hleaves fun h => h.not_same hw rfl
    | crash => exact absurd hleaves fun h => h.not_same hw rfl

namespace Sample

/-- The answers of a pass of the service `e`. -/
def serviceAnswers (v : Outside) (e : Entry) :
    (o : Op ⊕ Unit) → World → Sum.elim Rep (fun _ => Entry) o × World
  | .inl o => answers v o
  | .inr _ => fun w => (e, system.idle w)

/-- The sample answers are answers that the services can get. -/
theorem exec_serviceAnswers (v : Outside) (e : Entry) (o : Op ⊕ Unit) (w : World) :
    services.exec o w (serviceAnswers v e o w).1 (serviceAnswers v e o w).2 := by
  cases o with
  | inl o => exact exec_answer (outside v) true o w
  | inr u => rfl

/-- A whole pass of a service, and what it leaves behind. -/
def passed (v : Outside) (e : Entry) (w : World) : World :=
  system.idle (System.play (serviceAnswers v e) (fun _ => false) anyPass w).world

theorem reached_passed {v : Outside} {e : Entry} {w : World}
    (hw : ServicesReachable ⟨w, none⟩) : ServicesReachable ⟨passed v e w, none⟩ := by
  have hpass : services.Run anyPass System.anyStep ⟨w, none⟩
      (System.play (serviceAnswers v e) (fun _ => false) anyPass w) :=
    System.Run.pass (exec_serviceAnswers v e) trivial (System.follows_anyStep _ w)
  exact (hw.run hpass).run (System.Run.leave (System.play_isSome _ w) trivial)

/-- A pair is planned once the execution is ready. -/
def planned : World :=
  (Act.trade (.createOpen Paired.Sample.openPlan)).apply (passed calm .reconciliation empty)

/-- Both its orders are placed. -/
def submitted : World := passed calm .liveExecution planned

theorem reached_submitted : ServicesReachable ⟨submitted, none⟩ := by
  have hempty : ServicesReachable ⟨empty, none⟩ := .init empty_initial
  have henv : services.env (.trade (.createOpen Paired.Sample.openPlan))
      (passed calm .reconciliation empty) planned := ⟨⟨rfl, trivial⟩, rfl⟩
  have hplan : services.Run anyPass System.anyStep ⟨passed calm .reconciliation empty, none⟩
      ⟨planned, none⟩ := System.Run.act henv trivial
  exact reached_passed ((reached_passed hempty).run hplan)

end Sample

/-- Both legs of a pair have been submitted, each once. -/
theorem submitted_at_most_once_pair :
    ∃ s, ServicesReachable s
      ∧ s.world.history.placed = ["bh-0123456789abcdef01234567-p", "bh-0123456789abcdef01234567-s"]
      ∧ ∀ leg ∈ s.world.ledger.legs, s.world.history.placed.count leg.clientOrderId ≤ 1 :=
  ⟨⟨Sample.submitted, none⟩, Sample.reached_submitted, by decide +kernel,
    (submitted_at_most_once Sample.reached_submitted).2.1⟩

end BasisHawk.Reconciliation
