/-
  BasisHawk.Planning.TwinTrades
  ─────────────────────────────
  The planners of `TradeLedger` (`trading.py`) among their twins: requests with
  one idempotency key and one payload, which differ in what each of them draws
  and in the quote it reads of the market.

  A paper request hashes its quote into its fingerprint, a live one does not.  So
  a paper request whose creation meets the rows of a twin with another quote is
  refused, although the planner's own lookup would have let it pass.

  Main results:
    • `planLiveOpen_idempotent` — live openings are idempotent in any order of
      steps,
    • `planPaperOpen_idempotent` — paper openings are, as long as no creation
      meets the rows of a twin with another quote,
    • `planLiveClose_idempotent`, `planPaperClose_idempotent` — closings are, as
      long as none reads or locks the position after a twin has committed, and
      on paper as long as the openings' condition is kept as well.
-/
import BasisHawk.Planning.Idempotency

namespace BasisHawk.Planning

open Domain Lib
open Lib.Schema (goal goal_open alone alone_call)
open Paired (PairedPositionRow TradeIntentRow OrderLegRow)
open Tx

variable {ι : Type}

/-! ## §1. Twins. -/

/-- The identifiers the requests draw are new. -/
structure FreshDraws (d₀ : Tables) (environment : ExchangeEnvironment) (exchange : Exchange)
    (draw : ι → Draw) : Prop where
  intentId : ∀ i, .intentId (draw i).id ∉ keys d₀
  legIds : ∀ i, (draw i).spotLegId ≠ (draw i).perpLegId
    ∧ .legId (draw i).spotLegId ∉ keys d₀ ∧ .legId (draw i).perpLegId ∉ keys d₀
  clientOrderIds : ∀ i m,
    .clientOrderId (Paired.primaryClientOrderId environment exchange (draw i).token m) ∉ keys d₀

/-- A key without a stored trade is not in use. -/
theorem storedTrades_nil {d : Tables} {key : String} (h : storedTrades key d = []) :
    .intentKey key ∉ keys d := by
  rw [storedTrades, List.map_eq_nil_iff, List.filter_eq_nil_iff] at h
  intro hmem
  obtain ⟨t, ht, heq⟩ := mem_keys.mp hmem
  exact h t ht (decide_eq_true heq.symm)

/-- Rows with drawn identifiers are new. -/
theorem FreshDraws.new {d₀ : Tables} {environment : ExchangeEnvironment} {exchange : Exchange}
    {draw : ι → Draw} (hd : FreshDraws d₀ environment exchange draw) (hl : d₀.Linked) {i : ι}
    {key : String} {p : Prepared} (hrows : p.Rows (draw i) key)
    (henv : p.intent.environment = environment) (hex : p.intent.exchange = exchange) :
    p.New d₀ where
  intentId := hrows.id ▸ hd.intentId i
  -- A stored position names intents that are stored, and the drawn one is not.
  closing := by
    intro hmem
    obtain ⟨position, hposition, hclosing⟩ := mem_keys.mp hmem
    obtain ⟨t, ht, hid⟩ := hl.closing position hposition _ hclosing
    exact hd.intentId i (mem_keys.mpr ⟨t, ht, (hid.trans hrows.id).symm⟩)
  legs := by
    intro k hk
    obtain ⟨leg, hleg, hk⟩ := List.mem_flatMap.mp hk
    simp only [legKeys, List.mem_cons, List.not_mem_nil, or_false] at hk
    -- The identifiers of the legs are drawn.
    rcases hk with rfl | rfl | rfl
    · have hmem : leg.id ∈ [(draw i).spotLegId, (draw i).perpLegId] :=
        hrows.legIds ▸ List.mem_map_of_mem hleg
      rcases List.mem_cons.mp hmem with heq | hmem
      · exact heq ▸ (hd.legIds i).2.1
      · exact List.mem_singleton.mp hmem ▸ (hd.legIds i).2.2
    · -- Their client order ids end in the drawn token.
      have hmem : leg.clientOrderId ∈ p.legs.map (·.clientOrderId) := List.mem_map_of_mem hleg
      rw [hrows.clientOrderIds, henv, hex] at hmem
      rcases List.mem_cons.mp hmem with heq | hmem
      · exact heq ▸ hd.clientOrderIds i .spot
      · exact List.mem_singleton.mp hmem ▸ hd.clientOrderIds i .perp
    · -- And a leg belongs to the drawn intent.
      intro hmem
      obtain ⟨o, ho, hid, -⟩ := mem_keys.mp hmem
      obtain ⟨t, ht, ht'⟩ := hl.legs o ho
      refine hd.intentId i (mem_keys.mpr ⟨t, ht, ?_⟩)
      rw [ht', ← hid, hrows.legIntents leg hleg]
  legs_nodup := by
    obtain ⟨spot, rest, hlegs, hspot, hrest⟩ := List.map_eq_cons_iff.mp hrows.legIds
    obtain ⟨perp, rest, rfl, hperp, hnil⟩ := List.map_eq_cons_iff.mp hrest
    rw [List.map_eq_nil_iff.mp hnil] at hlegs
    have hnames := hrows.legNames
    have hcids := hrows.clientOrderIds
    -- The two legs differ in their names, identifiers and client order ids.
    rw [hlegs] at hnames hcids ⊢
    simp only [List.map_cons, List.map_nil, List.cons.injEq, and_true] at hnames hcids
    have hids := (hd.legIds i).1
    have hne := Paired.primaryClientOrderId_ne p.intent.environment p.intent.exchange (draw i).token
    simp [legKeys, hspot, hperp, hnames, hcids, hids, hne]

/-! ## §2. Opening trades. -/

/-- What an opening makes of the tables. -/
def openTables (p : Prepared) (d : Tables) : Tables :=
  apply (.legs p.legs) (apply (.intent p.intent) d)

/-- After the insertion of an intent and its legs these are the rows under its
key. -/
theorem storedTrades_insert {d d' : Tables} {p : Prepared} {key : String} {w : Draw}
    (hrows : p.Rows w key) (habsent : storedTrades key d = []) (hnew : p.New d) (hl : d.Linked)
    (hintents : d'.intents = d.intents ++ [p.intent]) (hlegs : d'.legs = d.legs ++ p.legs) :
    storedTrades key d' = [p] := by
  have hold : d.intents.filter (·.idempotencyKey = key) = [] := List.map_eq_nil_iff.mp habsent
  have hfilter : d.legs.filter (·.tradeIntentId = p.intent.id) = [] := by
    rw [List.filter_eq_nil_iff]
    intro leg hleg heq
    obtain ⟨t, ht, hid⟩ := hl.legs leg hleg
    exact hnew.intentId (mem_keys.mpr ⟨t, ht, ((of_decide_eq_true heq).symm.trans hid.symm)⟩)
  have hown : p.legs.filter (·.tradeIntentId = p.intent.id) = p.legs := by
    rw [List.filter_eq_self]
    intro leg hleg
    exact decide_eq_true ((hrows.legIntents leg hleg).trans hrows.id.symm)
  unfold storedTrades
  rw [hintents, List.filter_append, hold, List.nil_append, List.filter_singleton,
    decide_eq_true hrows.key, cond_true, List.map_singleton, hlegs, List.filter_append, hfilter,
    hown]
  rfl

/-- Requests that prepare rows of one trade, each with what it has drawn and with
the prices it has read. -/
structure Twins (d₀ : Tables) (key : String) (isSame : ι → TradeIntent → Prop)
    (rows : ι → Except Exc Prepared) : Prop where
  linked : d₀.Linked
  absent : storedTrades key d₀ = []
  drawn : ∀ i p, rows i = .ok p → ∃ w, p.Rows w key
  new : ∀ i p, rows i = .ok p → p.New d₀
  same : ∀ i j p, rows j = .ok p → isSame i p.intent
  errors : ∀ i, RaisesValue (rows i)

/-- Where the creation of a request meets the rows of a twin, these have its own
fingerprint. -/
def PricedAlike (allow : ι → Sql → Base ι → Prop) (key : String) (rows : ι → Except Exc Prepared) :
    Prop :=
  ∀ i p, rows i = .ok p → MeetsOnly allow (fun i => (rows i).toOption) key i
    fun q => q.intent.requestFingerprint = p.intent.requestFingerprint

/-- Openings that meet no rows but with their own fingerprint are idempotent. -/
theorem Twins.idempotent_open [DecidableEq ι] {d₀ : Tables} {key : String}
    {isSame : ι → TradeIntent → Prop}
    [∀ i, DecidablePred (isSame i)] {prepare : ι → Except Exc Prepared}
    {allow : ι → Sql → Base ι → Prop} (h : Twins d₀ key isSame prepare)
    (hpriced : PricedAlike allow key prepare) {c : Run ι Prepared}
    (hc : Reaches (fun i => planTrade key (isSame i) (pure' (prepare i)) createTradeIntent) d₀
      allow c) :
    Idempotent (fun i => planTrade key (isSame i) (pure' (prepare i)) createTradeIntent)
      (storedTrades key) SameTrade d₀ c := by
  have hrow : ∀ i p, (prepare i).toOption = some p ↔ prepare i = .ok p := fun i p => toOption_some
  -- What each twin would store if it were alone.
  have hout : Outcomes (storedTrades key) (fun i => (prepare i).toOption)
      (fun i => (prepare i).toOption.map fun p => openTables p d₀) d₀ := {
    absent := h.absent
    stores := by
      intro i d hd
      obtain ⟨p, hp, rfl⟩ := Option.map_eq_some_iff.mp hd
      obtain ⟨w, hrows⟩ := h.drawn i p ((hrow i p).mp hp)
      exact ⟨p, hp, storedTrades_insert hrows h.absent (h.new i p ((hrow i p).mp hp)) h.linked rfl rfl⟩ }
  refine idempotent_of_goal [.inr (.intentKey key)] hout (fun i => ?_) hc
  refine goal_planTrade hout (fun j p hp => h.same i j p ((hrow j p).mp hp)) ?_ ?_
    ⟨rfl, fun h => by cases h⟩
  · -- The lookup finds nothing, and the twin prepares its own rows.
    intro b hs hne
    refine ⟨hs, hne, rfl, ?_⟩
    cases hp : prepare i with
    | ok p => exact (hrow i p).mpr hp
    | error e =>
        intro hkind
        rw [h.errors i e hp] at hkind
        cases hkind
  · -- Its rows meet those of a faster twin, or are stored.
    intro p b hp hs hne
    obtain ⟨w, hrows⟩ := h.drawn i p ((hrow i p).mp hp)
    refine goal_createTradeIntent hout hrows.key (storedTrades_nil h.absent)
      (h.new i p ((hrow i p).mp hp)) hp ?_ (hpriced i p ((hrow i p).mp hp)) ⟨hs, hne⟩
    show ((prepare i).toOption.map fun p => openTables p d₀) = _
    rw [hp]
    rfl

/-! ## §3. Closing trades. -/

/-- The statement leaves a closed session and the tables as they are. -/
def isRead : Sql → Prop
  | .select _ => True
  | .rollback => True
  | _ => False

/-- A read leaves the tables and the transaction as they are. -/
theorem answer_isRead {o : Sql} (ho : isRead o) {d : Tables} :
    (schema.answer o (d, .closed)).2 = (d, .closed) := by
  cases o with
  | select q => rfl
  | rollback => rfl
  | selectForUpdate q => exact ho.elim
  | flush w => exact ho.elim
  | commit => exact ho.elim

section Closing

variable {made : ι → Option Tables} {d₀ : Tables} {gates : List (RowLock ⊕ UniqueKey)}
  {allow : ι → Sql → Base ι → Prop} {i : ι} {α β : Type}

/-- The program only reads, and where its steps are allowed it reads what it
reads of the first tables. -/
def ReadsAlike (allow : ι → Sql → Base ι → Prop) (made : ι → Option Tables) (d₀ : Tables) (i : ι) :
    Tx α → Prop
  | .done _ => True
  | .call o k => isRead o
      ∧ (∀ j b, made j = some b.data → allow i o b →
          (schema.answer o (b.data, .closed)).1 = (schema.answer o (d₀, .closed)).1)
      ∧ ReadsAlike allow made d₀ i (k (schema.answer o (d₀, .closed)).1)

/-- Programs that read alike can be put one after the other. -/
theorem ReadsAlike.bind {p : Tx α} {f : α → Tx β} (hp : ReadsAlike allow made d₀ i p)
    (hf : ∀ a, alone schema d₀ .closed p = .ok a → ReadsAlike allow made d₀ i (f a)) :
    ReadsAlike allow made d₀ i (p >>= f) := by
  induction p with
  | done r =>
      cases r with
      | ok a => exact hf a rfl
      | error e => trivial
  | call o k ih =>
      refine ⟨hp.1, hp.2.1, ih _ hp.2.2 fun a ha => hf a ?_⟩
      unfold alone at ha ⊢
      rw [Prog.run_call, answer_isRead hp.1]
      exact ha

/-- A session around such a program reads alike as well. -/
theorem ReadsAlike.withSession {p : Tx α} (hp : ReadsAlike allow made d₀ i p) :
    ReadsAlike allow made d₀ i (withSession p) := by
  induction p with
  | done r => exact ⟨trivial, fun _ _ _ _ => rfl, trivial⟩
  | call o k ih => exact ⟨hp.1, hp.2.1, ih _ hp.2.2⟩

/-- Run on the first tables, such a program gives what it gives alone and
changes nothing. -/
theorem ReadsAlike.run {p : Tx α} (hp : ReadsAlike allow made d₀ i p) :
    p.run schema.answer (d₀, .closed) = (alone schema d₀ .closed p, (d₀, .closed)) := by
  induction p with
  | done r => rfl
  | call o k ih =>
      unfold alone
      rw [Prog.run_call, answer_isRead hp.1]
      exact ih _ hp.2.2

/-- Such a program ends as it would alone. -/
theorem goal_readsAlike [DecidableEq ι] {p : Tx α} (hp : ReadsAlike allow made d₀ i p) :
    ∀ {b : Base ι}, b.session i = .closed → b.author ≠ some i →
      goal schema d₀ made gates allow i p (fun r b => b.session i = .closed
        ∧ b.author ≠ some i ∧ r = alone schema d₀ .closed p) b := by
  induction p with
  | done r => exact fun hs hne => ⟨hs, hne, rfl⟩
  | call o k ih =>
      intro b hs hne
      have ho : o ≠ .commit := by
        rintro rfl
        exact hp.1.elim
      have halone : alone schema d₀ .closed (.call o k)
          = alone schema d₀ .closed (k (schema.answer o (d₀, .closed)).1) := by
        rw [alone_call ho, answer_isRead hp.1]
      rw [halone]
      refine goal_open ho ⟨hs, hne⟩ ?_ ?_
      · intro _ b' _ _ hs' hd'
        rw [answer_isRead hp.1] at hs'
        refine ih _ hp.2.2 hs' ?_
        rw [hd'.1]
        exact fun h => by cases h
      · intro j d b₁ b' hj hmade hallowed hd hs' hd'
        obtain ⟨-, rfl⟩ := hd
        rw [answer_isRead hp.1] at hs'
        rw [hp.2.1 j b₁ hmade hallowed]
        refine ih _ hp.2.2 hs' ?_
        rw [hd'.1]
        exact fun heq => hj (Option.some.inj heq)

end Closing

/-- The statement reads the position. -/
def readsPosition (positionId : Nat) : Sql → Bool
  | .select (.position id) => id = positionId
  | .selectForUpdate (.position id) => id = positionId
  | _ => false

/-- The steps of a closing that may only be taken before a twin has committed:
the reads of the position. -/
def closeCondition (key : String) (positionId : Nat) (_ : ι) (o : Sql) (b : Base ι) : Prop :=
  readsPosition positionId o → storedTrades key b.data = []

instance (key : String) (positionId : Nat) (i : ι) (o : Sql) (b : Base ι) :
    Decidable (closeCondition key positionId i o b) := inferInstanceAs (Decidable (_ → _))

/-- The steps of a paper request that may only be taken where no twin with another
quote has committed: those of its creation that meet what is stored under the
key. -/
def quoteCondition (key : String) (fingerprint : ι → Option String) (i : ι) (o : Sql) (b : Base ι) :
    Prop :=
  meetsKey key o → ∀ p ∈ storedTrades key b.data, some p.intent.requestFingerprint = fingerprint i

instance (key : String) (fingerprint : ι → Option String) (i : ι) (o : Sql) (b : Base ι) :
    Decidable (quoteCondition key fingerprint i o b) := inferInstanceAs (Decidable (_ → _))

instance (position : Position) : Decidable position.isOpen := inferInstanceAs (Decidable (_ ∧ _))

/-- What a closing request alone makes of the tables. -/
def closeMade (d₀ : Tables) (positionId : Nat) (rows : ι → Except Exc Prepared) (i : ι) :
    Option Tables := do
  let position ← ask (.position positionId) d₀
  let p ← (rows i).toOption
  if position.isOpen then some (closeTables positionId p d₀) else none

/-- A closing that was stored was prepared before. -/
theorem closeMade_some {d₀ d : Tables} {positionId : Nat} {rows : ι → Except Exc Prepared} {i : ι}
    (h : closeMade d₀ positionId rows i = some d) :
    ∃ p, rows i = .ok p ∧ d = closeTables positionId p d₀ := by
  unfold closeMade at h
  obtain ⟨position, -, h⟩ := Option.bind_eq_some_iff.mp h
  obtain ⟨p, hp, h⟩ := Option.bind_eq_some_iff.mp h
  split at h
  · exact ⟨p, toOption_some.mp hp, (Option.some.inj h).symm⟩
  · cases h

/-- Closings that read the position before any twin has committed, and meet no rows
but with their own fingerprint, are idempotent. -/
theorem Twins.idempotent_close [DecidableEq ι] {d₀ : Tables} {key : String} {positionId : Nat}
    {isSame : ι → TradeIntent → Prop} [∀ i, DecidablePred (isSame i)] {prepare : ι → Tx Prepared}
    {rows : ι → Except Exc Prepared} {allow : ι → Sql → Base ι → Prop} (h : Twins d₀ key isSame rows)
    (hclose : ∀ i o b, allow i o b → closeCondition key positionId i o b)
    (hpriced : PricedAlike allow key rows)
    (halone : ∀ i, alone schema d₀ .closed (prepare i) = rows i)
    (hreads : ∀ i, ReadsAlike allow (closeMade d₀ positionId rows) d₀ i (prepare i))
    {c : Run ι Prepared}
    (hc : Reaches (fun i => planTrade key (isSame i) (prepare i) (createPaperCloseIntent positionId)) d₀
      allow c) :
    Idempotent (fun i => planTrade key (isSame i) (prepare i) (createPaperCloseIntent positionId))
      (storedTrades key) SameTrade d₀ c := by
  have hrow : ∀ i p, (rows i).toOption = some p ↔ rows i = .ok p := fun i p => toOption_some
  -- What each twin would store if it were alone and found the position open.
  have hout : Outcomes (storedTrades key) (fun i => (rows i).toOption)
      (closeMade d₀ positionId rows) d₀ := {
    absent := h.absent
    stores := by
      intro i d hd
      obtain ⟨p, hp, rfl⟩ := closeMade_some hd
      obtain ⟨w, hrows⟩ := h.drawn i p hp
      exact ⟨p, (hrow i p).mpr hp,
        storedTrades_insert hrows h.absent (h.new i p hp) h.linked rfl rfl⟩ }
  refine idempotent_of_goal (closeGates key positionId) hout (fun i => ?_) hc
  refine goal_planTrade hout (fun j p hp => h.same i j p ((hrow j p).mp hp)) ?_ ?_
    ⟨rfl, fun h => by cases h⟩
  · -- What a twin reads before its write is what it would read alone.
    intro b hs hne
    refine goal_mono (goal_readsAlike (hreads i) hs hne) ?_
    rintro r b' ⟨hs', hne', rfl⟩
    refine ⟨hs', hne', (hreads i).run, ?_⟩
    rw [halone i]
    cases hp : rows i with
    | ok p => exact (hrow i p).mpr hp
    | error e =>
        intro hkind
        rw [h.errors i e hp] at hkind
        cases hkind
  · -- Its rows meet those of a faster twin, or are stored with the position reserved.
    intro p b hp hs hne
    obtain ⟨w, hrows⟩ := h.drawn i p ((hrow i p).mp hp)
    refine goal_createPaperCloseIntent hout hrows.key (storedTrades_nil h.absent)
      (h.new i p ((hrow i p).mp hp)) hp ⟨fun b hallow => ?_, ?_⟩ (hpriced i p ((hrow i p).mp hp))
      ⟨hs, hne⟩
    · -- No twin locks the position after another has committed.
      exact hclose i _ b hallow (decide_eq_true rfl)
    intro position hpos hopen
    unfold closeMade
    rw [hpos, Option.bind_eq_bind, Option.bind_some, hp, Option.bind_eq_bind, Option.bind_some,
      if_pos hopen]

/-! ## §4. The planners. -/

section Planners

variable {sha256 : Digested → String} {d₀ : Tables} {key : String} {draw : ι → Draw}

/-- Requests that prepare rows of one trade with identifiers of their own are
twins. -/
theorem Twins.of_draws {environment : ExchangeEnvironment} {exchange : Exchange}
    (isSame : ι → TradeIntent → Prop) {rows : ι → Except Exc Prepared}
    (hlinked : d₀.Linked) (habsent : storedTrades key d₀ = [])
    (hdraw : FreshDraws d₀ environment exchange draw)
    (hrows : ∀ i p, rows i = .ok p → p.Rows (draw i) key ∧ (∀ j, isSame j p.intent)
      ∧ p.intent.environment = environment ∧ p.intent.exchange = exchange)
    (herrors : ∀ i, RaisesValue (rows i)) : Twins d₀ key isSame rows where
  linked := hlinked
  absent := habsent
  drawn := fun i p h => ⟨draw i, (hrows i p h).1⟩
  new := by
    intro i p h
    obtain ⟨hp, -, henv, hex⟩ := hrows i p h
    exact hdraw.new hlinked hp henv hex
  same := fun i j p h => (hrows j p h).2.1 i
  errors := herrors

/-- Live rows have one fingerprint, whatever their quote. -/
theorem pricedAlike_of_eq {allow : ι → Sql → Base ι → Prop} {rows : ι → Except Exc Prepared}
    {fingerprint : String}
    (h : ∀ i p, rows i = .ok p → p.intent.requestFingerprint = fingerprint) :
    PricedAlike allow key rows := fun i p hi _ _ j q _ _ hj _ =>
  (h j q (toOption_some.mp hj)).trans (h i p hi).symm

/-- Paper rows meet no others where the condition on the quotes is kept. -/
theorem pricedAlike_of_condition {allow : ι → Sql → Base ι → Prop}
    {rows : ι → Except Exc Prepared} {fingerprint : ι → Option String}
    (hallow : ∀ i o b, allow i o b → quoteCondition key fingerprint i o b)
    (h : ∀ i p, rows i = .ok p → some p.intent.requestFingerprint = fingerprint i) :
    PricedAlike allow key rows := by
  intro i p hi o b j q hmeets hstep _ hstored
  have hq : some q.intent.requestFingerprint = fingerprint i :=
    hallow i o b hstep hmeets q (hstored ▸ List.mem_singleton_self q)
  exact Option.some.inj (hq.trans (h i p hi).symm)

/-- The market as another request reads it. -/
def OpenTerms.at (t : OpenTerms) (market : Opportunity) : OpenTerms := { t with opportunity := market }

/-- Readings of the market of one base asset on one exchange. -/
def SameMarket (o : Opportunity) (market : ι → Opportunity) : Prop :=
  ∀ i, (market i).exchange = o.exchange ∧ (market i).baseAsset = o.baseAsset

/-- Whether a stored row is the same opening does not depend on the quote. -/
theorem OpenTerms.at_isSame {t : OpenTerms} {market : ι → Opportunity}
    (h : SameMarket t.opportunity market) (i : ι) (row : TradeIntent) :
    (t.at (market i)).isSame row ↔ t.isSame row := by
  unfold OpenTerms.isSame OpenTerms.at
  rw [(h i).1, (h i).2]

/-- Nor does the fingerprint of a live opening. -/
theorem OpenTerms.at_fingerprint {t : OpenTerms} {market : ι → Opportunity}
    (h : SameMarket t.opportunity market) (i : ι) :
    (t.at (market i)).fingerprint sha256 = t.fingerprint sha256 := by
  unfold OpenTerms.fingerprint OpenTerms.configVersion OpenTerms.at
  rw [(h i).1, (h i).2]

/-- Live openings with one key and one payload are idempotent, wherever their
steps fall and however the market moves between them. -/
theorem planLiveOpen_idempotent [DecidableEq ι] {t : OpenTerms} {market : ι → Opportunity}
    (hmarket : SameMarket t.opportunity market) {spotLimitPrice perpLimitPrice : Option Limit}
    (hlinked : d₀.Linked) (habsent : storedTrades key d₀ = [])
    (hdraw : FreshDraws d₀ t.environment t.opportunity.exchange draw) {c : Run ι Prepared}
    (hc : Reaches (fun i => planLiveOpen sha256 (t.at (market i)) key spotLimitPrice perpLimitPrice
      (draw i)) d₀ Requests.anyOrder c) :
    Idempotent (fun i => planLiveOpen sha256 (t.at (market i)) key spotLimitPrice perpLimitPrice
      (draw i)) (storedTrades key) SameTrade d₀ c := by
  have hpriced : ∀ i p, prepareLiveOpen sha256 (t.at (market i)) key spotLimitPrice perpLimitPrice
      (draw i) = .ok p → p.intent.requestFingerprint = t.fingerprint sha256 := by
    intro i p hp
    exact (prepareLiveOpen_spec hp).2.2.trans (OpenTerms.at_fingerprint hmarket i)
  refine Twins.idempotent_open (Twins.of_draws _ hlinked habsent hdraw ?_
    fun i => prepareLiveOpen_raises) (pricedAlike_of_eq hpriced) hc
  intro i p hp
  obtain ⟨hrows, hsame, -⟩ := prepareLiveOpen_spec hp
  rw [OpenTerms.at_isSame hmarket] at hsame
  exact ⟨hrows, fun j => (OpenTerms.at_isSame hmarket j _).mpr hsame, hsame.1, hsame.2.2.1⟩

/-- The market as another request reads it. -/
def PaperOpenTerms.at (t : PaperOpenTerms) (market : Opportunity) : PaperOpenTerms :=
  { t with opportunity := market }

/-- Whether a stored row is the same paper opening does not depend on the quote;
its fingerprint does. -/
theorem PaperOpenTerms.at_isSame {t : PaperOpenTerms} {market : ι → Opportunity}
    (h : SameMarket t.opportunity market) (i : ι) (row : TradeIntent) :
    (t.at (market i)).isSame row ↔ t.isSame row := by
  unfold PaperOpenTerms.isSame PaperOpenTerms.at
  rw [(h i).1, (h i).2]

/-- The condition of a paper opening: its creation meets no twin with another
quote. -/
def PaperOpenTerms.condition (sha256 : Digested → String) (t : PaperOpenTerms)
    (market : ι → Opportunity) (key : String) : ι → Sql → Base ι → Prop :=
  quoteCondition key fun i => some ((t.at (market i)).fingerprint sha256)

instance (sha256 : Digested → String) (t : PaperOpenTerms) (market : ι → Opportunity) (key : String)
    (i : ι) (o : Sql) (b : Base ι) : Decidable (t.condition sha256 market key i o b) :=
  inferInstanceAs (Decidable (quoteCondition ..))

/-- Paper openings are idempotent, as long as no creation meets the rows of a twin
with another quote. -/
theorem planPaperOpen_idempotent [DecidableEq ι] {t : PaperOpenTerms} {market : ι → Opportunity}
    (hmarket : SameMarket t.opportunity market) (hlinked : d₀.Linked)
    (habsent : storedTrades key d₀ = []) (hdraw : FreshDraws d₀ .paper t.opportunity.exchange draw)
    {c : Run ι Prepared}
    (hc : Reaches (fun i => planPaperOpen sha256 (t.at (market i)) key (draw i)) d₀
      (t.condition sha256 market key) c) :
    Idempotent (fun i => planPaperOpen sha256 (t.at (market i)) key (draw i)) (storedTrades key)
      SameTrade d₀ c := by
  refine Twins.idempotent_open (Twins.of_draws _ hlinked habsent hdraw ?_
    fun i => preparePaperOpen_raises) (pricedAlike_of_condition (fun _ _ _ h => h) ?_) hc
  · intro i p hp
    obtain ⟨hrows, hsame, -⟩ := preparePaperOpen_spec hp
    rw [PaperOpenTerms.at_isSame hmarket] at hsame
    exact ⟨hrows, fun j => (PaperOpenTerms.at_isSame hmarket j _).mpr hsame, hsame.1, hsame.2.2.1⟩
  · intro i p hp
    exact congrArg some (preparePaperOpen_spec hp).2.2

/-! What the closings read, and what they make of it. -/

theorem alone_pure' {α β : Type} {d : Tables} {s : Transaction} {r : Except Exc α} {f : α → Tx β} :
    alone schema d s (pure' r >>= f) = r >>= fun a => alone schema d s (f a) := by
  cases r with
  | ok a => rfl
  | error e => rfl

/-- A select in a session of its own gives what the tables hold. -/
theorem alone_select {β : Type} {d : Tables} {q : Query} {f : Ans q → Tx β} :
    alone schema d .closed (withSession (select q) >>= f) = alone schema d .closed (f (ask q d)) :=
  rfl

/-- The intent with this id, with its legs. -/
def tradeOf (d : Tables) (id : Nat) : Option Prepared :=
  (ask (.intent id) d).map fun row => ⟨row, ask (.legsOfIntent row.id) d⟩

/-- Reading an intent with its legs gives the stored trade and changes nothing.
-/
theorem run_tradeIntent {d : Tables} {id : Nat} :
    (tradeIntent id).run schema.answer (d, .closed) = (.ok (tradeOf d id), (d, .closed)) := by
  unfold tradeIntent tradeOf withSession Prog.finallyQuietly select
  rw [Prog.run_resume, Prog.run_bind, Prog.run_call,
    show schema.answer (.select (.intent id)) (d, .closed) = (ask (.intent id) d, (d, .closed))
      from rfl]
  cases ask (.intent id) d with
  | none => rfl
  | some row => rfl

theorem alone_tradeIntent {β : Type} {d : Tables} {id : Nat} {f : Option Prepared → Tx β} :
    alone schema d .closed (tradeIntent id >>= f) = alone schema d .closed (f (tradeOf d id)) := by
  unfold alone
  rw [Prog.run_bind, run_tradeIntent]

/-- What a live closing prepares from the tables. -/
def liveCloseOn (sha256 : Digested → String) (d : Tables) (t : CloseTerms) (key : String)
    (spotLimitPrice perpLimitPrice : Option Limit) (w : Draw) : Except Exc Prepared := do
  checkCloseTerms t
  let position ← closablePosition t ((ask (.position t.positionId) d).map (·.toPairedPositionRow))
  let opening ← openingOf t position ((tradeOf d position.openingIntentId).map fun p =>
    (p.intent.toTradeIntentRow, p.legs))
  prepareLiveClose sha256 t key spotLimitPrice perpLimitPrice position opening w

/-- The reads of a live closing, run alone, prepare it from the position in the
first tables. -/
theorem alone_readLiveClose {t : CloseTerms} {spotLimitPrice perpLimitPrice : Option Limit}
    {w : Draw} : alone schema d₀ .closed
      (readLiveClose sha256 t key spotLimitPrice perpLimitPrice w)
        = liveCloseOn sha256 d₀ t key spotLimitPrice perpLimitPrice w := by
  unfold readLiveClose liveCloseOn
  rw [alone_pure']
  refine bind_congr fun _ => ?_
  rw [alone_select, alone_pure']
  refine bind_congr fun position => ?_
  rw [alone_tradeIntent, alone_pure']
  rfl

/-- So do those of a paper closing. -/
theorem alone_readPaperClose {t : PaperCloseTerms} {w : Draw} :
    alone schema d₀ .closed (readPaperClose sha256 t key w)
      = preparePaperClose sha256 t key (ask (.position t.positionId) d₀) w := rfl

/-- A position that can be closed is the one that was read. -/
theorem closablePosition_eq_ok {t : CloseTerms} {read : Option PairedPositionRow}
    {position : PairedPositionRow} (h : closablePosition t read = .ok position) :
    read = some position := by
  simp only [closablePosition, found_bind_eq_ok, raiseIf_bind_eq_ok] at h
  obtain ⟨row, hread, -, -, h⟩ := h
  obtain ⟨_, -, h⟩ := bind_eq_ok.mp h
  injection h with h
  exact h ▸ hread

/-- A position found by its identifier is stored under it. -/
theorem position_mem {d : Tables} {id : Nat} {position : Position}
    (h : ask (.position id) d = some position) : position ∈ d.positions ∧ position.id = id := by
  have hfind : d.positions.find? (fun p => decide (p.id = id)) = some position := h
  exact ⟨List.mem_of_find?_eq_some hfind, of_decide_eq_true (List.find?_some hfind :)⟩

/-- The market as another request reads it. -/
def CloseTerms.at (t : CloseTerms) (market : Opportunity) : CloseTerms :=
  { t with opportunity := market }

/-- `request_fingerprint` of a live closing of the position. -/
def CloseTerms.fingerprint (sha256 : Digested → String) (t : CloseTerms)
    (position : PairedPositionRow) : String :=
  sha256 (.liveClose t.emergency position.id t.opportunity.exchange t.environment
    t.opportunity.baseAsset position.quantity (instrumentRulesPayload t.pair)
    (t.configVersion sha256))

/-- The fingerprint of a live closing does not depend on the quote. -/
theorem CloseTerms.at_fingerprint {t : CloseTerms} {market : ι → Opportunity}
    (h : SameMarket t.opportunity market) (i : ι) (position : PairedPositionRow) :
    (t.at (market i)).fingerprint sha256 position = t.fingerprint sha256 position := by
  unfold CloseTerms.fingerprint CloseTerms.configVersion CloseTerms.at
  rw [(h i).1, (h i).2]

/-- What a live closing prepares from given tables: rows under drawn
identifiers, and the fingerprint of the position it read. -/
theorem liveCloseOn_spec {t : CloseTerms} {spotLimitPrice perpLimitPrice : Option Limit} {w : Draw}
    {p : Prepared} (h : liveCloseOn sha256 d₀ t key spotLimitPrice perpLimitPrice w = .ok p) :
    p.Rows w key ∧ t.isSame p.intent ∧ p.intent.exchange = t.opportunity.exchange
      ∧ ∃ position, ask (.position t.positionId) d₀ = some position
        ∧ p.intent.requestFingerprint = t.fingerprint sha256 position.toPairedPositionRow := by
  unfold liveCloseOn at h
  obtain ⟨_, -, h⟩ := bind_eq_ok.mp h
  obtain ⟨row, hrow, h⟩ := bind_eq_ok.mp h
  obtain ⟨opening, -, h⟩ := bind_eq_ok.mp h
  obtain ⟨position, hposition, rfl⟩ := Option.map_eq_some_iff.mp (closablePosition_eq_ok hrow)
  obtain ⟨hrows, hsame, hexchange, hfingerprint⟩ := prepareLiveClose_spec h
  exact ⟨hrows, hsame, hexchange, position, hposition, hfingerprint⟩

/-- It is refused with a `ValueError` and nothing else. -/
theorem liveCloseOn_raises {t : CloseTerms} {spotLimitPrice perpLimitPrice : Option Limit}
    {w : Draw} : RaisesValue (liveCloseOn sha256 d₀ t key spotLimitPrice perpLimitPrice w) :=
  .bind checkCloseTerms_raises fun _ => .bind closablePosition_raises fun _ =>
    .bind openingOf_raises fun _ => prepareLiveClose_raises

/-- The trade that opened a position is there as before after a closing. -/
theorem tradeOf_closeTables {p : Prepared} {w : Draw} {positionId id : Nat}
    (hrows : p.Rows w key) (hnew : p.New d₀) (hid : ∃ t ∈ d₀.intents, t.id = id) :
    ask (.intent id) (closeTables positionId p d₀) = ask (.intent id) d₀
      ∧ ask (.legsOfIntent id) (closeTables positionId p d₀) = ask (.legsOfIntent id) d₀ := by
  obtain ⟨t, ht, hid⟩ := hid
  have hother : p.intent.id ≠ id := fun heq =>
    hnew.intentId (mem_keys.mpr ⟨t, ht, heq.trans hid.symm⟩)
  constructor
  · show (d₀.intents ++ [p.intent]).find? _ = d₀.intents.find? _
    rw [List.find?_append]
    have hfound : (d₀.intents.find? (·.id = id)).isSome :=
      List.find?_isSome.mpr ⟨t, ht, decide_eq_true hid⟩
    exact Option.or_of_isSome hfound
  · show ((d₀.legs ++ p.legs).filter _).insertionSort _ = (d₀.legs.filter _).insertionSort _
    have hnone : p.legs.filter (·.tradeIntentId = id) = [] := by
      rw [List.filter_eq_nil_iff]
      intro leg hleg heq
      refine hother (hrows.id.trans ?_)
      rw [← hrows.legIntents leg hleg]
      exact of_decide_eq_true heq
    rw [List.filter_append, hnone, List.append_nil]

variable {isSame : ι → TradeIntent → Prop} {rows : ι → Except Exc Prepared}
  {allow : ι → Sql → Base ι → Prop} {positionId : Nat}

/-- The others have not stored anything where the position may be read. -/
theorem Twins.unread (h : Twins d₀ key isSame rows) {i j : ι} {b : Base ι}
    (hmade : closeMade d₀ positionId rows j = some b.data) :
    ¬closeCondition key positionId i (.select (.position positionId)) b := by
  intro hallow
  obtain ⟨p, hp, hd⟩ := closeMade_some hmade
  obtain ⟨w, hrows⟩ := h.drawn j p hp
  have hstored : storedTrades key b.data = [p] :=
    hd ▸ storedTrades_insert hrows h.absent (h.new j p hp) h.linked rfl rfl
  rw [hallow (decide_eq_true rfl)] at hstored
  cases hstored

/-- Twins read the position alike as long as none reads it after a twin has
committed. -/
theorem Twins.readsAlike_select (h : Twins d₀ key isSame rows)
    (hclose : ∀ i o b, allow i o b → closeCondition key positionId i o b) {i : ι} :
    ReadsAlike allow (closeMade d₀ positionId rows) d₀ i
      (withSession (select (.position positionId))) :=
  .withSession ⟨trivial, fun _ b hmade hallow => absurd (hclose i _ b hallow) (h.unread hmade),
    trivial⟩

/-- Twins read a trade of the first tables alike in every run. -/
theorem Twins.readsAlike_tradeIntent (h : Twins d₀ key isSame rows) {id : Nat} {i : ι}
    (hid : ∃ t ∈ d₀.intents, t.id = id) :
    ReadsAlike allow (closeMade d₀ positionId rows) d₀ i (tradeIntent id) := by
  have hsame : ∀ j (b : Base ι), closeMade d₀ positionId rows j = some b.data →
      ask (.intent id) b.data = ask (.intent id) d₀
        ∧ ask (.legsOfIntent id) b.data = ask (.legsOfIntent id) d₀ := by
    intro j b hmade
    obtain ⟨p, hp, hd⟩ := closeMade_some hmade
    obtain ⟨w, hrows⟩ := h.drawn j p hp
    rw [hd]
    exact tradeOf_closeTables hrows (h.new j p hp) hid
  refine .withSession ⟨trivial, fun j b hmade _ => (hsame j b hmade).1, ?_⟩
  have hanswer : (schema.answer (.select (.intent id)) (d₀, .closed)).1 = ask (.intent id) d₀ := rfl
  rw [hanswer]
  cases hrow : ask (.intent id) d₀ with
  | none => trivial
  | some row =>
      have hfind : d₀.intents.find? (fun t => decide (t.id = id)) = some row := hrow
      have hrowid : row.id = id := of_decide_eq_true (List.find?_some hfind :)
      refine ⟨trivial, fun j b hmade _ => ?_, trivial⟩
      rw [hrowid]
      exact (hsame j b hmade).2

/-- Live closings are idempotent, as long as none reads or locks the position
after a twin has committed. -/
theorem planLiveClose_idempotent [DecidableEq ι] {t : CloseTerms} {market : ι → Opportunity}
    (hmarket : SameMarket t.opportunity market) {spotLimitPrice perpLimitPrice : Option Limit}
    (hlinked : d₀.Linked) (habsent : storedTrades key d₀ = [])
    (hdraw : FreshDraws d₀ t.environment t.opportunity.exchange draw) {c : Run ι Prepared}
    (hc : Reaches (fun i => planLiveClose sha256 (t.at (market i)) key spotLimitPrice perpLimitPrice
      (draw i)) d₀ (closeCondition key t.positionId) c) :
    Idempotent (fun i => planLiveClose sha256 (t.at (market i)) key spotLimitPrice perpLimitPrice
      (draw i)) (storedTrades key) SameTrade d₀ c := by
  -- Alone, the rows of each twin carry the identifiers that it has drawn.
  have htwins : Twins d₀ key (fun i => (t.at (market i)).isSame)
      (fun i => liveCloseOn sha256 d₀ (t.at (market i)) key spotLimitPrice perpLimitPrice (draw i)) := by
    refine Twins.of_draws _ hlinked habsent hdraw ?_ fun i => liveCloseOn_raises
    intro i p hp
    obtain ⟨hrows, hsame, hexchange, -⟩ := liveCloseOn_spec hp
    exact ⟨hrows, fun j => hsame, hsame.1, hexchange.trans (hmarket i).1⟩
  -- And one fingerprint, which has neither quote nor time in it.
  have hpriced : ∀ i p, liveCloseOn sha256 d₀ (t.at (market i)) key spotLimitPrice perpLimitPrice
      (draw i) = .ok p → p.intent.requestFingerprint
        = ((ask (.position t.positionId) d₀).map fun position =>
            t.fingerprint sha256 position.toPairedPositionRow).getD "" := by
    intro i p hp
    obtain ⟨-, -, -, position, hposition, hfingerprint⟩ := liveCloseOn_spec hp
    rw [show ask (.position t.positionId) d₀ = some position from hposition, hfingerprint,
      CloseTerms.at_fingerprint hmarket]
    rfl
  refine Twins.idempotent_close htwins (fun _ _ _ h => h) (pricedAlike_of_eq hpriced)
    (fun i => alone_readLiveClose) (fun i => ?_) hc
  -- The reads of the source: the position, its opening intent, the accounts.
  refine ReadsAlike.bind trivial fun _ _ =>
    ReadsAlike.bind (htwins.readsAlike_select fun _ _ _ h => h) fun read hread => ?_
  refine ReadsAlike.bind trivial fun position hposition => ReadsAlike.bind ?_ fun _ _ =>
    ReadsAlike.bind trivial fun _ _ => trivial
  have hmapped := closablePosition_eq_ok (show closablePosition _ _ = .ok position from hposition)
  have hread : ask (.position t.positionId) d₀ = read := by
    injection hread
  obtain ⟨row, hrow, rfl⟩ := Option.map_eq_some_iff.mp hmapped
  exact htwins.readsAlike_tradeIntent (hlinked.opening row (position_mem (hread.trans hrow)).1)

/-- The market as another request reads it. -/
def PaperCloseTerms.at (t : PaperCloseTerms) (market : Opportunity) : PaperCloseTerms :=
  { t with opportunity := market }

/-- The condition of a paper closing: it reads the position before any twin has
committed, and its creation meets no twin with another quote. -/
def PaperCloseTerms.condition (sha256 : Digested → String) (t : PaperCloseTerms)
    (market : ι → Opportunity) (key : String) (d₀ : Tables) (i : ι) (o : Sql) (b : Base ι) : Prop :=
  closeCondition key t.positionId i o b
    ∧ quoteCondition key (fun i => (ask (.position t.positionId) d₀).map fun position =>
        (t.at (market i)).fingerprint sha256 position.toPairedPositionRow) i o b

instance (sha256 : Digested → String) (t : PaperCloseTerms) (market : ι → Opportunity) (key : String)
    (d₀ : Tables) (i : ι) (o : Sql) (b : Base ι) :
    Decidable (t.condition sha256 market key d₀ i o b) := inferInstanceAs (Decidable (_ ∧ _))

/-- Paper closings are idempotent under the conditions of both. -/
theorem planPaperClose_idempotent [DecidableEq ι] {t : PaperCloseTerms} {market : ι → Opportunity}
    (hmarket : SameMarket t.opportunity market) (hlinked : d₀.Linked)
    (habsent : storedTrades key d₀ = []) (hdraw : FreshDraws d₀ .paper t.opportunity.exchange draw)
    {c : Run ι Prepared}
    (hc : Reaches (fun i => planPaperClose sha256 (t.at (market i)) key (draw i)) d₀
      (t.condition sha256 market key d₀) c) :
    Idempotent (fun i => planPaperClose sha256 (t.at (market i)) key (draw i)) (storedTrades key)
      SameTrade d₀ c := by
  -- The fingerprint has the quote in it, so it differs from twin to twin.
  have hspec : ∀ i p, preparePaperClose sha256 (t.at (market i)) key
      (ask (.position t.positionId) d₀) (draw i) = .ok p → p.Rows (draw i) key ∧ t.isSame p.intent
        ∧ p.intent.exchange = (market i).exchange ∧ some p.intent.requestFingerprint
          = (ask (.position t.positionId) d₀).map fun position =>
              (t.at (market i)).fingerprint sha256 position.toPairedPositionRow := by
    intro i p hp
    cases hread : ask (.position t.positionId) d₀ with
    | none =>
        rw [hread] at hp
        cases hp
    | some position =>
        rw [hread] at hp
        obtain ⟨hrows, hsame, hexchange, hfingerprint⟩ :=
          preparePaperClose_spec (t := t.at (market i)) (position_mem hread).2 hp
        exact ⟨hrows, hsame, hexchange, congrArg some hfingerprint⟩
  have htwins : Twins d₀ key (fun i => (t.at (market i)).isSame) (fun i =>
      preparePaperClose sha256 (t.at (market i)) key (ask (.position t.positionId) d₀) (draw i)) := by
    refine Twins.of_draws _ hlinked habsent hdraw ?_ fun i => preparePaperClose_raises
    intro i p hp
    obtain ⟨hrows, hsame, hexchange, -⟩ := hspec i p hp
    exact ⟨hrows, fun _ => hsame, hsame.1, hexchange.trans (hmarket i).1⟩
  -- The condition on the quotes is about just that.
  refine Twins.idempotent_close htwins (fun _ _ _ h => h.1)
    (pricedAlike_of_condition (fun _ _ _ h => h.2) fun i p hp => (hspec i p hp).2.2.2)
    (fun i => alone_readPaperClose) (fun i => ?_) hc
  exact ReadsAlike.bind (htwins.readsAlike_select fun _ _ _ h => h.1) fun _ _ => trivial

end Planners

end BasisHawk.Planning
