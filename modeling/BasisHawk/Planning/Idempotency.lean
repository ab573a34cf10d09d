/-
  BasisHawk.Planning.Idempotency
  ──────────────────────────────
  Any number of requests with one idempotency key and one payload, at any
  positions relative to each other.

  Only one of them can come to commit: the unique key of its row, or a row it
  has locked, keeps the others away.  What remains is what the others make of
  the rows they find.  Nothing is assumed about the rows of different requests:
  they may be the same, as those of a transfer are, and only the run tells who
  has stored them.

  Main results:
    • `idempotent_of_goal` — requests each of which answers as it may among its
      twins are idempotent,
    • `goal_createTradeIntent`, `goal_createPaperCloseIntent` — the two
      creations of trade intents do, the second one as long as it locks the
      position before a twin has committed,
    • `goal_planTrade` — and so do the planners on top of them.
-/
import BasisHawk.Planning.Creation

namespace BasisHawk.Planning

open Domain Lib
open Lib.Schema (others goal goal_known goal_open goal_commit stable_known stable_undisturbed
  stable_author stable_notMine CommitsOnce Once alone alone_call)
open Paired (PairedPositionRow TradeIntentRow OrderLegRow)
open MultiLeg (ExecutionTaskLegRow)
open Transfers (InternalTransferRow TransferLimitSettings transferLimitSettings)
open Tx

/-- The committed tables and the open transactions of the requests. -/
abbrev Base (ι : Type) : Type := Shared ι Tables RowLock UniqueKey Write

/-- The transaction of one request. -/
abbrev Transaction : Type := Session RowLock UniqueKey Write

variable {ι R : Type} [DecidableEq ι]

/-! ## §1. What idempotent creation means. -/

/-- A run of requests, somewhere on its way. -/
abbrev Run (ι R : Type) : Type := Requests.Config ι Sql (Stmt.Rep Ans) Exc (R × Bool) (Base ι)

/-- The runs of the requests `main` from the tables `d₀`, under a condition on
their steps. -/
abbrev Reaches (main : ι → Tx (R × Bool)) (d₀ : Tables) (allow : ι → Sql → Base ι → Prop)
    (c : Run ι R) : Prop :=
  (schema.requests ι).Reach main (Shared.initial d₀) allow c

/-- What the request answers when it is the only one. -/
def verdict (main : ι → Tx (R × Bool)) (d₀ : Tables) (i : ι) : Except Exc (R × Bool) :=
  alone schema d₀ .closed (main i)

/-- At most one row is stored under the key, with its legs; the callers agree on
it, one of them at most has created it, and nobody fails who would not have
failed alone.  `stored` lists the rows under the key. -/
structure Idempotent (main : ι → Tx (R × Bool)) (stored : Tables → List R)
    (Same : R → R → Prop) (d₀ : Tables) (c : Run ι R) : Prop where
  atMostOne : (stored c.world.data).length ≤ 1
  created : ∀ i r, c.rest i = .done (.ok (r, true)) → stored c.world.data = [r]
  existing : ∀ i r, c.rest i = .done (.ok (r, false)) → ∃ r₀, stored c.world.data = [r₀] ∧ Same r r₀
  once : ∀ i j r r', c.rest i = .done (.ok (r, true)) → c.rest j = .done (.ok (r', true)) → i = j
  errors : ∀ i e, c.rest i = .done (.error e) → e.kind ≠ .integrity ∧ verdict main d₀ i = .error e
  settled : (∀ i, ∃ r, c.rest i = .done r) → (∃ i x, verdict main d₀ i = .ok x) →
    ∃ i r, c.rest i = .done (.ok (r, true))

/-! ## §2. From one request to all of them. -/

/-- What one request may answer among its twins: its own rows, if it has committed
them, and otherwise those of the twin that has, or the error it meets alone. -/
def Answer (Same : R → R → Prop) (row : ι → Option R) (verdict : ι → Except Exc (R × Bool)) (i : ι) :
    Except Exc (R × Bool) → Base ι → Prop
  | .ok (r, true), b => b.author = some i ∧ row i = some r
  | .ok (r, false), b => ∃ j r₀, j ≠ i ∧ b.author = some j ∧ row j = some r₀ ∧ Same r r₀
  | .error e, b => b.author ≠ some i ∧ e.kind ≠ .integrity ∧ verdict i = .error e

/-- What the requests of one creation make of the first tables. -/
structure Outcomes (stored : Tables → List R) (row : ι → Option R) (made : ι → Option Tables)
    (d₀ : Tables) : Prop where
  absent : stored d₀ = []
  stores : ∀ i d, made i = some d → ∃ r, row i = some r ∧ stored d = [r]

section General

variable {main : ι → Tx (R × Bool)} {stored : Tables → List R} {Same : R → R → Prop}
  {row : ι → Option R} {made : ι → Option Tables} {d₀ : Tables} {gates : List (RowLock ⊕ UniqueKey)}
  {allow : ι → Sql → Base ι → Prop}

/-- An answer stays right whatever the others do. -/
theorem Answer.lasting (verdict : ι → Except Exc (R × Bool)) (i : ι) :
    Requests.Lasting (schema.requests ι) allow (Once d₀ made) (CommitsOnce schema d₀ made gates) i
      (Answer Same row verdict i) := by
  intro r a b b' hs hr
  rcases r with e | ⟨r, _ | _⟩
  · exact ⟨stable_notMine a b b' hs hr.1, hr.2⟩
  · obtain ⟨j, r₀, hj, hauthor, hrow⟩ := hr
    exact ⟨j, r₀, hj, stable_author a b b' hs hauthor, hrow⟩
  · exact ⟨stable_author a b b' hs hr.1, hr.2⟩

/-- Requests that answer as they may are idempotent. -/
theorem idempotent_of_goal (gates : List (RowLock ⊕ UniqueKey)) (h : Outcomes stored row made d₀)
    (hmain : ∀ i, goal schema d₀ made gates allow i (main i)
      (Answer Same row (verdict main d₀) i) (Shared.initial d₀))
    {c : Run ι R} (hc : Reaches main d₀ allow c) : Idempotent main stored Same d₀ c := by
  have hinit : Once d₀ made (Shared.initial d₀ : Base ι) := ⟨.closed, .inl ⟨rfl, rfl⟩⟩
  have hanswer : ∀ i r, c.rest i = .done r → Answer Same row (verdict main d₀) i r c.world :=
    fun i r hi => hc.answer Schema.preserves (Answer.lasting (verdict main d₀)) hinit hmain hi
  have hI := (hc.guarded Schema.preserves (Answer.lasting (verdict main d₀)) hinit hmain).1
  have hstored : ∀ j r, c.world.author = some j → row j = some r → stored c.world.data = [r] := by
    intro j r hj hr
    rcases hI.data with hnone | ⟨j', d, hmade, hd⟩
    · cases hj.symm.trans hnone.1
    · obtain rfl : j' = j := Option.some.inj (hd.1.symm.trans hj)
      obtain ⟨r', hr', hs⟩ := h.stores j' d hmade
      rw [hd.2, hs, Option.some.inj (hr.symm.trans hr')]
  exact {
    atMostOne := by
      rcases hI.data with hnone | ⟨j, d, hmade, hd⟩
      · rw [hnone.2, h.absent]
        exact Nat.zero_le 1
      · obtain ⟨r, -, hr⟩ := h.stores j d hmade
        rw [hd.2, hr]
        exact le_refl 1
    created := fun i r hi => hstored i r (hanswer i _ hi).1 (hanswer i _ hi).2
    existing := by
      intro i r hi
      obtain ⟨j, r₀, -, hj, hr₀, hsame⟩ := hanswer i _ hi
      exact ⟨r₀, hstored j r₀ hj hr₀, hsame⟩
    once := fun i j r r' hi hj =>
      Option.some.inj ((hanswer i _ hi).1.symm.trans (hanswer j _ hj).1)
    errors := fun i e hi => (hanswer i _ hi).2
    settled := by
      intro hall ⟨i, x, hx⟩
      -- Somebody's rows are stored, since the request that succeeds alone did not fail.
      have hsome : ∃ j, c.world.author = some j := by
        obtain ⟨r, hi⟩ := hall i
        have hr := hanswer i r hi
        rcases r with e | ⟨r, _ | _⟩
        · rw [hr.2.2] at hx
          cases hx
        · obtain ⟨j, _, -, hj, -⟩ := hr
          exact ⟨j, hj⟩
        · exact ⟨i, hr.1⟩
      -- And the request they belong to has said so.
      obtain ⟨j, hj⟩ := hsome
      obtain ⟨r, hrest⟩ := hall j
      have hr := hanswer j r hrest
      rcases r with e | ⟨r, _ | _⟩
      · exact absurd hj hr.1
      · obtain ⟨k, _, hk, hauthor, -⟩ := hr
        exact absurd (Option.some.inj (hauthor.symm.trans hj)) hk
      · exact ⟨j, r, hrest⟩ }

end General

/-! ## §3. Sessions and lookups. -/

section Rules

variable {made : ι → Option Tables} {d₀ : Tables} {gates : List (RowLock ⊕ UniqueKey)}
  {allow : ι → Sql → Base ι → Prop} {i : ι} {α β : Type}

/-- An assertion on who has committed that the other requests cannot break. -/
structure Enduring (made : ι → Option Tables) (d₀ : Tables) (gates : List (RowLock ⊕ UniqueKey))
    (allow : ι → Sql → Base ι → Prop) (i : ι) (Q : Except Exc α → Base ι → Prop) : Prop where
  stable : ∀ r, (others schema d₀ made gates allow i).Stable (Q r)
  author : ∀ r b b', b'.author = b.author → Q r b → Q r b'

/-- What a request has answered holds on, whatever the others do. -/
theorem Answer.enduring {Same : R → R → Prop} {row : ι → Option R}
    {verdict : ι → Except Exc (R × Bool)} :
    Enduring made d₀ gates allow i (Answer Same row verdict i) where
  stable := Answer.lasting verdict i
  author := by
    intro r b b' hd hr
    rcases r with e | ⟨r, _ | _⟩
    · exact ⟨hd ▸ hr.1, hr.2⟩
    · obtain ⟨j, r₀, hj, hauthor, hrow⟩ := hr
      exact ⟨j, r₀, hj, hd.trans hauthor, hrow⟩
    · exact ⟨hd.trans hr.1, hr.2⟩

/-- The end of a session gives back what it holds. -/
theorem goal_withSession {p : Tx α} {Q : Except Exc α → Base ι → Prop} {b : Base ι}
    (hQ : Enduring made d₀ gates allow i Q) (h : goal schema d₀ made gates allow i p Q b) :
    goal schema d₀ made gates allow i (withSession p)
      (fun r b => b.session i = .closed ∧ Q r b) b := by
  refine System.wp_resume p _ _ b (System.wp_mono p (fun r b₁ hr => ?_) b h)
  refine System.wp_call_of_stable (hQ.stable r) hr (fun _ _ _ => trivial) ?_
  intro b₂ u b₃ _ hb₂ he _
  refine ⟨?_, hQ.author r b₂ b₃ (Schema.exec_author he.2 (fun h => by cases h)) hb₂⟩
  rw [he.2.2.2]
  exact Function.update_self ..

/-- A session opened and closed around a program changes nothing of what it does
alone. -/
theorem alone_withSession {d : Tables} {s : Transaction} {p : Tx α} :
    alone schema d s (withSession p) = alone schema d s p := by
  unfold alone withSession Prog.finallyQuietly
  rw [Prog.run_resume]
  rfl

/-- The goal of a sequence: the first part reaches what the second starts from.
-/
theorem goal_bind {p : Tx α} {f : α → Tx β} {Q : Except Exc β → Base ι → Prop} {b : Base ι}
    (h : goal schema d₀ made gates allow i p (fun r b => match r with
      | .ok a => goal schema d₀ made gates allow i (f a) Q b
      | .error e => Q (.error e) b) b) :
    goal schema d₀ made gates allow i (p >>= f) Q b := by
  refine System.wp_bind p f Q (System.wp_mono p (fun r b hr => ?_) b h)
  cases r with
  | ok a => exact hr
  | error e => exact hr

/-- A weaker goal is reached where a stronger one is. -/
theorem goal_mono {p : Tx α} {Q Q' : Except Exc α → Base ι → Prop} {b : Base ι}
    (h : goal schema d₀ made gates allow i p Q b) (hQ : ∀ r b, Q r b → Q' r b) :
    goal schema d₀ made gates allow i p Q' b :=
  System.wp_mono p hQ b h

/-- The session after the flush of new rows. -/
def Transaction.after (s : Transaction) (w : Write) : Transaction :=
  { s with claims := s.claims ++ claims w, writes := s.writes ++ [w] }

/-- The rule for a flush of new rows while the request holds a gate. -/
theorem goal_flush {s : Transaction} {g : RowLock ⊕ UniqueKey} (hg : g ∈ gates) (hheld : s.Holds g)
    {w : Write} {f : Unit → Tx α} {Q : Except Exc α → Base ι → Prop} {b : Base ι}
    (hb : b.session i = s ∧ b.At none d₀) (hnodup : (claims w).Nodup)
    (hnew : ∀ k ∈ claims w, k ∉ keys (schema.view s d₀))
    (hnext : ∀ b', b'.session i = s.after w → b'.At none d₀ →
      goal schema d₀ made gates allow i (f ()) Q b') :
    goal schema d₀ made gates allow i (flush w >>= f) Q b := by
  refine goal_known (stable_undisturbed hg hheld) (fun h => by cases h) hb ?_
  intro b' hs hd
  rw [answer_flush_new hnodup hnew] at hs ⊢
  exact hnext b' hs hd

/-- The rule for the commit of the request's rows. -/
theorem goal_commit_rows {s : Transaction} {g : RowLock ⊕ UniqueKey} (hg : g ∈ gates)
    (hheld : ∀ g ∈ gates, s.Holds g) (hmade : made i = some (schema.view s d₀)) {f : Unit → Tx α}
    {Q : Except Exc α → Base ι → Prop} {b : Base ι} (hb : b.session i = s ∧ b.At none d₀)
    (hnext : ∀ b', b'.author = some i → goal schema d₀ made gates allow i (f ()) Q b') :
    goal schema d₀ made gates allow i (commit >>= f) Q b :=
  goal_commit hg hheld hmade hb fun b' _ hd => hnext b' hd.1

end Rules

/-! ## §4. Trade intents. -/

section Intents

variable {made : ι → Option Tables} {d₀ : Tables} {gates : List (RowLock ⊕ UniqueKey)}
  {allow : ι → Sql → Base ι → Prop} {i : ι} {key : String} {row : ι → Option Prepared}

/-- The same intent with the same legs, in whatever order they are listed. -/
def SameTrade (p q : Prepared) : Prop := p.intent = q.intent ∧ p.legs.Perm q.legs

/-- The intents under a key, with their legs. -/
def storedTrades (key : String) (d : Tables) : List Prepared :=
  (d.intents.filter (·.idempotencyKey = key)).map fun t =>
    ⟨t, d.legs.filter (·.tradeIntentId = t.id)⟩

theorem ask_intentByKey_none {d : Tables} (h : storedTrades key d = []) :
    ask (.intentByKey key) d = none := by
  rw [storedTrades, List.map_eq_nil_iff, List.filter_eq_nil_iff] at h
  exact List.find?_eq_none.mpr h

/-- Both lookups find the one row that is stored under the key. -/
theorem ask_intentByKey_some {d : Tables} {p : Prepared} (h : storedTrades key d = [p]) :
    ask (.intentByKey key) d = some p.intent
      ∧ (ask (.legsOfIntent p.intent.id) d).Perm p.legs := by
  rw [storedTrades, List.map_eq_singleton_iff] at h
  obtain ⟨t, hfilter, rfl⟩ := h
  refine ⟨?_, List.perm_insertionSort _ _⟩
  show d.intents.find? _ = some t
  rw [← List.head?_filter, hfilter]
  rfl

/-- The key of a stored intent is taken. -/
theorem intentKey_mem {d : Tables} {p : Prepared} (h : storedTrades key d = [p]) :
    UniqueKey.intentKey key ∈ keys d := by
  rw [storedTrades, List.map_eq_singleton_iff] at h
  obtain ⟨t, hfilter, rfl⟩ := h
  have ht : t ∈ d.intents.filter (·.idempotencyKey = key) := by
    rw [hfilter]
    exact List.mem_singleton_self t
  obtain ⟨hmem, hkey⟩ := List.mem_filter.mp ht
  have hmine : UniqueKey.intentKey key ∈ d.intents.flatMap intentKeys :=
    List.mem_flatMap.mpr ⟨t, hmem, by simp [intentKeys, of_decide_eq_true hkey]⟩
  simp only [keys, List.mem_append, hmine, true_or]

/-- The statement of a creation that meets what is stored under the key: its own
lookup, and the flush of its row. -/
def meetsKey (key : String) : Sql → Bool
  | .select (.intentByKey k) => k = key
  | .flush (.intent row) => row.idempotencyKey = key
  | _ => false

/-- Where the request meets the rows of a twin they have this property. -/
def MeetsOnly (allow : ι → Sql → Base ι → Prop) (row : ι → Option Prepared) (key : String) (i : ι)
    (P : Prepared → Prop) : Prop :=
  ∀ o b j p, meetsKey key o → allow i o b → row j = some p → storedTrades key b.data = [p] → P p

/-- What a lookup of the key finds: nothing, as far as the request itself is
concerned, or the rows of another one, with a property. -/
def Looked (row : ι → Option Prepared) (P : Prepared → Prop) (i : ι) :
    Except Exc (Option Prepared) → Base ι → Prop
  | .ok none, b => b.author ≠ some i
  | .ok (some x), b => ∃ j p, j ≠ i ∧ b.author = some j ∧ row j = some p ∧ SameTrade x p ∧ P p
  | .error _, _ => False

/-- What a lookup has found holds on until somebody commits under the same key.
-/
theorem Looked.enduring {P : Prepared → Prop} : Enduring made d₀ gates allow i (Looked row P i) where
  stable := by
    intro r a b b' hs hr
    rcases r with e | _ | x
    · exact hr
    · exact stable_notMine a b b' hs hr
    · obtain ⟨j, p, hj, hauthor, hrow⟩ := hr
      exact ⟨j, p, hj, stable_author a b b' hs hauthor, hrow⟩
  author := by
    intro r b b' hd hr
    rcases r with e | _ | x
    · exact hr
    · show b'.author ≠ some i
      rw [hd]
      exact hr
    · obtain ⟨j, p, hj, hauthor, hrow⟩ := hr
      exact ⟨j, p, hj, hd.trans hauthor, hrow⟩

/-- The legs of a row that a twin has stored are read with the row. -/
theorem goal_withLegs {j : ι} {d : Tables} {p : Prepared} (hstored : storedTrades key d = [p])
    {s : Transaction} (hwrites : s.writes = []) {b : Base ι}
    (hb : b.session i = s ∧ b.At (some j) d)
    {Q : Except Exc (Option Prepared) → Base ι → Prop}
    (hnext : ∀ x b', SameTrade x p → b'.session i = s → b'.At (some j) d → Q (.ok (some x)) b') :
    goal schema d₀ made gates allow i (withLegs (some p.intent)) Q b := by
  unfold withLegs select
  refine goal_known stable_known (fun h => by cases h) hb ?_
  intro b' hs hd
  have hview : schema.view s d = d := by
    unfold Schema.view
    rw [hwrites]
    rfl
  have hlegs : (schema.answer (.select (.legsOfIntent p.intent.id)) (d, s)).1
      = ask (.legsOfIntent p.intent.id) d := by
    show ask (.legsOfIntent p.intent.id) (schema.view s d) = _
    rw [hview]
  rw [hlegs]
  exact hnext ⟨p.intent, _⟩ b' ⟨rfl, (ask_intentByKey_some hstored).2⟩ hs hd

/-- The lookup of a creation. -/
theorem goal_intentByKey {P : Prepared → Prop} {b : Base ι}
    (h : Outcomes (storedTrades key) row made d₀) (hmeets : MeetsOnly allow row key i P)
    (hb : b.session i = .closed ∧ b.author ≠ some i) :
    goal schema d₀ made gates allow i (intentByKey key)
      (fun r b => b.session i = .closed ∧ Looked row P i r b) b := by
  unfold intentByKey select
  refine goal_open (fun h => by cases h) hb ?_ ?_
  · intro _ b' _ _ hs hd
    rw [show (schema.answer (.select (.intentByKey key)) (d₀, .closed)).1
      = ask (.intentByKey key) d₀ from rfl, ask_intentByKey_none h.absent]
    refine ⟨hs, ?_⟩
    show b'.author ≠ some i
    rw [hd.1]
    exact fun h => by cases h
  · intro j d b₁ b' hj hmade hallow hd₁ hs hd
    obtain ⟨p, hp, hstored⟩ := h.stores j d hmade
    rw [show (schema.answer (.select (.intentByKey key)) (d, .closed)).1
      = ask (.intentByKey key) d from rfl, (ask_intentByKey_some hstored).1]
    refine goal_withLegs (s := .closed) hstored rfl ⟨hs, hd⟩ fun x b₂ hx hs₂ hd₂ => ?_
    exact ⟨hs₂, j, p, hj, hd₂.1, hp, hx,
      hmeets (.select (.intentByKey key)) b₁ j p (decide_eq_true rfl) hallow hp (hd₁.2 ▸ hstored)⟩

/-- The lookup of a planner, in a session of its own. -/
theorem goal_tradeIntentByIdempotency {b : Base ι} (h : Outcomes (storedTrades key) row made d₀)
    (hb : b.session i = .closed ∧ b.author ≠ some i) :
    goal schema d₀ made gates allow i (tradeIntentByIdempotency key)
      (fun r b => b.session i = .closed ∧ Looked row (fun _ => True) i r b) b := by
  refine goal_withSession Looked.enduring ?_
  unfold select
  refine goal_open (fun h => by cases h) hb ?_ ?_
  · intro _ b' _ _ hs hd
    rw [show (schema.answer (.select (.tradeIntentByIdempotency key)) (d₀, .closed)).1
      = ask (.intentByKey key) d₀ from rfl, ask_intentByKey_none h.absent]
    show b'.author ≠ some i
    rw [hd.1]
    exact fun h => by cases h
  · intro j d b₁ b' hj hmade _ _ hs hd
    obtain ⟨p, hp, hstored⟩ := h.stores j d hmade
    rw [show (schema.answer (.select (.tradeIntentByIdempotency key)) (d, .closed)).1
      = ask (.intentByKey key) d from rfl, (ask_intentByKey_some hstored).1]
    refine goal_withLegs (s := .closed) hstored rfl ⟨hs, hd⟩ fun x b₂ hx _ hd₂ => ?_
    exact ⟨j, p, hj, hd₂.1, hp, hx, trivial⟩

/-- Alone and with no stored trade under its key, a lookup finds nothing and the
rest goes on. -/
theorem alone_intentByKey {f : Option Prepared → Tx R} (h : storedTrades key d₀ = []) :
    alone schema d₀ .closed (intentByKey key >>= f) = alone schema d₀ .closed (f none) := by
  unfold intentByKey select
  refine (alone_call (fun h => by cases h)).trans ?_
  rw [show (schema.answer (.select (.intentByKey key)) (d₀, .closed)).1
    = ask (.intentByKey key) d₀ from rfl, ask_intentByKey_none h]
  rfl

/-- The identifiers of the rows are new. -/
structure Prepared.New (d₀ : Tables) (p : Prepared) : Prop where
  intentId : .intentId p.intent.id ∉ keys d₀
  closing : .closingIntent p.intent.id ∉ keys d₀
  legs : ∀ k ∈ p.legs.flatMap legKeys, k ∉ keys d₀
  legs_nodup : (p.legs.flatMap legKeys).Nodup

theorem intentKeys_nodup (t : TradeIntent) : (intentKeys t).Nodup := by
  simp [intentKeys]

/-- The unique keys of a new intent are all unused. -/
theorem intentKeys_new {d : Tables} {p : Prepared} (hnew : p.New d)
    (hkey : UniqueKey.intentKey p.intent.idempotencyKey ∉ keys d) :
    ∀ k ∈ intentKeys p.intent, k ∉ keys d := by
  intro k hk
  rcases List.mem_cons.mp hk with rfl | hk
  · exact hnew.intentId
  · rw [List.mem_singleton.mp hk]
    exact hkey

/-- The keys of legs are none of an intent. -/
theorem legKeys_not_intentKeys {legs : List OrderLegRow} {t : TradeIntent} {k : UniqueKey}
    (hk : k ∈ legs.flatMap legKeys) : k ∉ intentKeys t ∧ ∀ n, k ≠ .closingIntent n := by
  obtain ⟨leg, -, hk⟩ := List.mem_flatMap.mp hk
  simp only [legKeys, List.mem_cons, List.not_mem_nil, or_false] at hk
  rcases hk with rfl | rfl | rfl <;> simp [intentKeys]

/-- What another caller has stored is what the recovery finds. -/
theorem goal_recoverIntent {e : Exc} {Q : Except Exc (Prepared × Bool) → Base ι → Prop} {b : Base ι}
    {j : ι} {d : Tables} {p : Prepared} (hstored : storedTrades key d = [p])
    {s : Transaction} (hb : b.session i = s ∧ b.At (some j) d)
    (hsome : ∀ x b', SameTrade x p → b'.At (some j) d → Q (.ok (x, false)) b') :
    goal schema d₀ made gates allow i (recoverIntent key e) Q b := by
  unfold recoverIntent rollback
  refine goal_known stable_known (fun h => by cases h) hb ?_
  intro b₁ hs₁ hd₁
  refine goal_bind ?_
  unfold intentByKey select
  refine goal_known stable_known (fun h => by cases h) ⟨hs₁, hd₁⟩ ?_
  intro b₂ hs₂ hd₂
  rw [show (schema.answer (.select (.intentByKey key)) (d, (schema.answer .rollback (d, s)).2.2)).1
    = ask (.intentByKey key) d from rfl, (ask_intentByKey_some hstored).1]
  exact goal_withLegs (s := .closed) hstored rfl ⟨hs₂, hd₂⟩ fun x b₃ hx _ hd₃ => hsome x b₃ hx hd₃

/-- What a request for new rows ends in; the rows of a twin have a property. -/
abbrev Created (row : ι → Option Prepared) (P : Prepared → Prop) (d₀ : Tables)
    (p : Tx (Prepared × Bool)) (i : ι) : Except Exc (Prepared × Bool) → Base ι → Prop :=
  Answer (fun x q => SameTrade x q ∧ P q) row (fun _ => alone schema d₀ .closed p) i

/-- The creation of a trade intent: its own rows are stored, or the rows of the twin
that was faster are found, at its lookup or by the recovery after its flush. -/
theorem goal_createTradeIntent {p : Prepared} {P : Prepared → Prop} {b : Base ι}
    (h : Outcomes (storedTrades key) row made d₀) (hkey : p.intent.idempotencyKey = key)
    (habsent : .intentKey key ∉ keys d₀) (hnew : p.New d₀) (hrow : row i = some p)
    (hmade : made i = some (apply (.legs p.legs) (apply (.intent p.intent) d₀)))
    (hmeets : MeetsOnly allow row key i P) (hb : b.session i = .closed ∧ b.author ≠ some i) :
    goal schema d₀ made [.inr (.intentKey key)] allow i (createTradeIntent p)
      (fun r b => b.session i = .closed ∧ Created row P d₀ (createTradeIntent p) i r b) b := by
  subst hkey
  refine goal_withSession Answer.enduring (goal_bind (goal_mono (goal_intentByKey h hmeets hb) ?_))
  rintro (e | _ | x) b₁ ⟨hs₁, hlooked⟩
  · exact hlooked.elim
  · have hne₁ : b₁.author ≠ some i := hlooked
    refine System.wp_catching _ _ _ ?_
    refine goal_open (fun h => by cases h) ⟨hs₁, hne₁⟩ ?_ ?_
    · -- The first to flush its intent keeps everybody else away from the key.
      intro _ b₂ _ _ hs₂ hd₂
      rw [answer_flush_new (w := .intent p.intent) (s := .closed) (intentKeys_nodup p.intent)
        (intentKeys_new hnew habsent)] at hs₂ ⊢
      have hheld : ∀ ks ws, (⟨[], intentKeys p.intent ++ ks, ws⟩ : Transaction).Holds
          (.inr (.intentKey p.intent.idempotencyKey)) := by
        simp [Session.Holds, intentKeys]
      refine goal_flush (s := ⟨[], intentKeys p.intent, [.intent p.intent]⟩)
        (List.mem_singleton_self _) (hheld [] _) ⟨hs₂, hd₂⟩ hnew.legs_nodup ?_ ?_
      · intro k hk hmem
        rcases mem_keys_apply (w := .intent p.intent) (fun _ h => by cases h) hmem with hold | hown
        · exact hnew.legs k hk hold
        · exact (legKeys_not_intentKeys hk).1 hown
      · intro b₃ hs₃ hd₃
        refine goal_commit_rows (List.mem_singleton_self _) ?_ hmade ⟨hs₃, hd₃⟩ ?_
        · intro g hg
          rw [List.mem_singleton.mp hg]
          exact hheld _ _
        · intro b₄ hd₄
          exact ⟨hd₄, hrow⟩
    · -- Its twin has committed: the flush fails, and the recovery finds the twin's rows.
      intro j d b₁' b₂ hj hmade₂ hallow hd₁ hs₂ hd₂
      obtain ⟨q, hq, hstored⟩ := h.stores j d hmade₂
      have hflush := answer_flush_taken (w := .intent p.intent) (s := .closed)
        (k := .intentKey p.intent.idempotencyKey) (by simp [claims, intentKeys])
        (intentKey_mem hstored)
      rw [hflush] at hs₂ ⊢
      refine goal_recoverIntent hstored ⟨hs₂, hd₂⟩ fun x b₃ hsame hd₃ => ?_
      exact ⟨j, q, hj, hd₃.1, hq, hsame,
        hmeets (.flush (.intent p.intent)) b₁' j q (decide_eq_true rfl) hallow hq
          (hd₁.2 ▸ hstored)⟩
  · exact hlooked

/-- The gates of a closing: its key and the row of the position. -/
def closeGates (key : String) (positionId : Nat) : List (RowLock ⊕ UniqueKey) :=
  [.inr (.intentKey key), .inl (.position positionId)]

/-- What a closing makes of the tables. -/
def closeTables (positionId : Nat) (p : Prepared) (d : Tables) : Tables :=
  apply (.legs p.legs) (apply (.reservePosition positionId p.intent.id) (apply (.intent p.intent) d))

/-- With the position locked nobody else commits: the rows are stored. -/
theorem goal_storeClose {p : Prepared} {positionId : Nat} {b : Base ι}
    {Q : Except Exc (Prepared × Bool) → Base ι → Prop} (hkey : p.intent.idempotencyKey = key)
    (habsent : .intentKey key ∉ keys d₀) (hnew : p.New d₀)
    (hmade : made i = some (closeTables positionId p d₀))
    (hb : b.session i = ⟨[.position positionId], [], []⟩ ∧ b.At none d₀)
    (hnext : ∀ b', b'.author = some i → Q (.ok (p, true)) b') :
    goal schema d₀ made (closeGates key positionId) allow i
      (do
        flush (.intent p.intent)
        flush (.reservePosition positionId p.intent.id)
        flush (.legs p.legs)
        commit
        return (p, true)) Q b := by
  subst hkey
  -- The lock on the position keeps the twins away through all four steps.
  have hlock : .inl (.position positionId) ∈ closeGates p.intent.idempotencyKey positionId := by
    simp [closeGates]
  have hheld : ∀ ks ws, (⟨[.position positionId], ks, ws⟩ : Transaction).Holds
      (.inl (.position positionId)) := fun ks ws => List.mem_singleton_self _
  refine goal_flush hlock (hheld [] []) hb (intentKeys_nodup p.intent)
    (intentKeys_new hnew habsent) ?_
  intro b₁ hs₁ hd₁
  refine goal_flush hlock (hheld _ _) ⟨hs₁, hd₁⟩ (List.nodup_singleton _) ?_ ?_
  · intro k hk hmem
    rw [List.mem_singleton.mp hk] at hmem
    rcases mem_keys_apply (w := .intent p.intent) (fun _ h => by cases h) hmem with hold | hown
    · exact hnew.closing hold
    · simp [claims, intentKeys] at hown
  intro b₂ hs₂ hd₂
  refine goal_flush hlock (hheld _ _) ⟨hs₂, hd₂⟩ hnew.legs_nodup ?_ ?_
  · intro k hk hmem
    rcases mem_keys_apply (w := .reservePosition positionId p.intent.id) (fun _ h => by cases h)
      hmem with hmem | hown
    · rcases mem_keys_apply (w := .intent p.intent) (fun _ h => by cases h) hmem with hold | hown
      · exact hnew.legs k hk hold
      · exact (legKeys_not_intentKeys hk).1 hown
    · exact (legKeys_not_intentKeys (t := p.intent) hk).2 _ (List.mem_singleton.mp hown)
  intro b₃ hs₃ hd₃
  refine goal_commit_rows hlock ?_ hmade ⟨hs₃, hd₃⟩ ?_
  · intro g hg
    rcases List.mem_cons.mp hg with rfl | hg
    · simp [Session.Holds, Transaction.after, claims, intentKeys]
    · rw [List.mem_singleton.mp hg]
      exact hheld _ _
  · intro b₄ hd₄
    exact hnext b₄ hd₄

/-- The position can be closed. -/
def Position.isOpen (position : Position) : Prop :=
  position.status = .opened ∧ position.closingIntentId = none

theorem not_isOpen {position : Position} : ¬position.isOpen
    ↔ position.status ≠ .opened ∨ position.closingIntentId ≠ none := by
  unfold Position.isOpen
  exact not_and_or

/-- What a closing has to find in the first tables, and may only lock there. -/
structure Closable (allow : ι → Sql → Base ι → Prop) (made : ι → Option Tables) (key : String)
    (positionId : Nat) (d₀ : Tables) (i : ι) (p : Prepared) : Prop where
  allowed : ∀ b, allow i (.selectForUpdate (.position positionId)) b → storedTrades key b.data = []
  made : ∀ position, ask (.position positionId) d₀ = some position → position.isOpen →
    made i = some (closeTables positionId p d₀)

/-- The creation of a closing: the twins wait for the position, and whoever locks it
before another has committed stores its rows. -/
theorem goal_createPaperCloseIntent {p : Prepared} {P : Prepared → Prop} {positionId : Nat}
    {b : Base ι} (h : Outcomes (storedTrades key) row made d₀) (hkey : p.intent.idempotencyKey = key)
    (habsent : .intentKey key ∉ keys d₀) (hnew : p.New d₀) (hrow : row i = some p)
    (hclose : Closable allow made key positionId d₀ i p) (hmeets : MeetsOnly allow row key i P)
    (hb : b.session i = .closed ∧ b.author ≠ some i) :
    goal schema d₀ made (closeGates key positionId) allow i (createPaperCloseIntent positionId p)
      (fun r b => b.session i = .closed
        ∧ Created row P d₀ (createPaperCloseIntent positionId p) i r b) b := by
  subst hkey
  refine goal_withSession Answer.enduring (goal_bind (goal_mono (goal_intentByKey h hmeets hb) ?_))
  rintro (e | _ | x) b₁ ⟨hs₁, hlooked⟩
  · exact hlooked.elim
  · have hne₁ : b₁.author ≠ some i := hlooked
    refine goal_open (fun h => by cases h) ⟨hs₁, hne₁⟩ ?_ ?_
    · intro _ b₂ _ _ hs₂ hd₂
      have hne₂ : b₂.author ≠ some i := by
        rw [hd₂.1]
        exact fun h => by cases h
      have hask : (schema.answer (.selectForUpdate (.position positionId)) (d₀, .closed)).1
        = ask (.position positionId) d₀ := rfl
      -- What the request answers alone is what it answers from here.
      have halone : ∀ e, (ask (.position positionId) d₀ = none
            ∧ e = .value "paired position was not found")
          ∨ (∃ position, ask (.position positionId) d₀ = some position ∧ ¬position.isOpen
            ∧ e = .value "paired position is not open") →
          alone schema d₀ .closed (createPaperCloseIntent positionId p) = .error e := by
        intro e he
        unfold createPaperCloseIntent
        rw [alone_withSession, alone_intentByKey h.absent]
        refine (alone_call (fun h => by cases h)).trans ?_
        rw [hask]
        rcases he with ⟨hpos, rfl⟩ | ⟨position, hpos, hopen, rfl⟩
        · rw [hpos]
          rfl
        · rw [hpos]
          show alone schema d₀ _ (pure' (raiseIf _ _) >>= _) = _
          rw [raiseIf_pos (by rwa [← not_isOpen])]
          rfl
      cases hpos : ask (.position positionId) d₀ with
      | none =>
          rw [hask, hpos]
          exact ⟨hne₂, (fun h => by cases h), halone _ (.inl ⟨hpos, rfl⟩)⟩
      | some position =>
          rw [hask, hpos]
          by_cases hopen : position.isOpen
          · show goal schema d₀ made _ allow i (pure' (raiseIf _ _) >>= _) _ b₂
            rw [raiseIf_neg (by rwa [← not_isOpen, not_not])]
            refine System.wp_catching _ _ _ (goal_storeClose rfl habsent hnew
              (hclose.made position hpos hopen) ⟨?_, hd₂⟩ fun b₃ hd₃ => ⟨hd₃, hrow⟩)
            rw [hs₂]
            show (⟨[] ++ locks (.position positionId) d₀, [], []⟩ : Transaction) = _
            rw [locks, hpos]
            rfl
          · show goal schema d₀ made _ allow i (pure' (raiseIf _ _) >>= _) _ b₂
            rw [raiseIf_pos (by rwa [← not_isOpen])]
            exact ⟨hne₂, (fun h => by cases h), halone _ (.inr ⟨position, hpos, hopen, rfl⟩)⟩
    · -- A twin's rows are there: the step is not allowed.
      intro j d b₁' b₂ _ hmade₂ hallowed hd _ _
      obtain ⟨q, -, hstored⟩ := h.stores j d hmade₂
      rw [← hd.2, hclose.allowed b₁' hallowed] at hstored
      cases hstored
  · exact hlooked

/-- The preparation of a request ends in its row or in the error it ends in
alone, before anything of the request is stored. -/
def Prepares (row : ι → Option Prepared) (d₀ : Tables) (prepare : Tx Prepared) (i : ι)
    (r : Except Exc Prepared) (b : Base ι) : Prop :=
  b.session i = .closed ∧ b.author ≠ some i
    ∧ prepare.run schema.answer (d₀, .closed) = (r, (d₀, .closed))
    ∧ match r with
      | .ok p => row i = some p
      | .error e => e.kind ≠ .integrity

theorem run_tradeIntentByIdempotency (h : storedTrades key d₀ = []) :
    (tradeIntentByIdempotency key).run schema.answer (d₀, .closed)
      = (.ok none, (d₀, .closed)) := by
  unfold tradeIntentByIdempotency withSession Prog.finallyQuietly select
  rw [Prog.run_resume, Prog.run_bind, Prog.run_call,
    show schema.answer (.select (.tradeIntentByIdempotency key)) (d₀, .closed)
      = (ask (.intentByKey key) d₀, (d₀, .closed)) from rfl, ask_intentByKey_none h]
  rfl

section Planner

variable {isSame : TradeIntent → Prop} [DecidablePred isSame] {prepare : Tx Prepared}
  {create : Prepared → Tx (Prepared × Bool)}

/-- Alone, a planner's lookup finds nothing. -/
theorem alone_planTrade (h : storedTrades key d₀ = []) :
    alone schema d₀ .closed (planTrade key isSame prepare create)
      = alone schema d₀ .closed (prepare >>= createAndCompare create) := by
  unfold alone planTrade
  rw [Prog.run_bind, run_tradeIntentByIdempotency h]

/-- Alone, a preparation that succeeds hands its plan on. -/
theorem alone_prepare_ok {f : Prepared → Tx R} {p : Prepared}
    (h : prepare.run schema.answer (d₀, .closed) = (.ok p, (d₀, .closed))) :
    alone schema d₀ .closed (prepare >>= f) = alone schema d₀ .closed (f p) := by
  unfold alone
  rw [Prog.run_bind, h]

theorem alone_bind_error {α : Type} {p : Tx α} {f : α → Tx R} {d : Tables} {s : Transaction}
    {e : Exc} (h : alone schema d s p = .error e) : alone schema d s (p >>= f) = .error e := by
  unfold alone at h ⊢
  rw [Prog.run_bind]
  generalize p.run schema.answer (d, s) = out at h ⊢
  obtain ⟨r, t⟩ := out
  dsimp only at h
  subst h
  rfl

/-- A planner answers as it may, if its creation does and finds no twin's rows but
those with its own fingerprint. -/
theorem goal_planTrade {b : Base ι} (h : Outcomes (storedTrades key) row made d₀)
    (hsame : ∀ j p, row j = some p → isSame p.intent)
    (hprepare : ∀ b, b.session i = .closed → b.author ≠ some i →
      goal schema d₀ made gates allow i prepare (Prepares row d₀ prepare i) b)
    (hcreate : ∀ p b, row i = some p → b.session i = .closed → b.author ≠ some i →
      goal schema d₀ made gates allow i (create p) (fun r b => b.session i = .closed
        ∧ Created row (fun q => q.intent.requestFingerprint = p.intent.requestFingerprint) d₀
          (create p) i r b) b)
    (hb : b.session i = .closed ∧ b.author ≠ some i) :
    goal schema d₀ made gates allow i (planTrade key isSame prepare create)
      (Answer SameTrade row
        (fun _ => alone schema d₀ .closed (planTrade key isSame prepare create)) i) b := by
  rw [alone_planTrade h.absent]
  unfold planTrade
  refine goal_bind (goal_mono (goal_tradeIntentByIdempotency h hb) ?_)
  rintro (e | _ | x) b₁ ⟨hs₁, hlooked⟩
  · exact hlooked.elim
  · -- The key is free: prepare, store and compare what has been stored.
    refine goal_bind (goal_mono (hprepare b₁ hs₁ hlooked) ?_)
    rintro (e | p) b₂ ⟨hs₂, hne₂, hrun, hp⟩
    · refine ⟨hne₂, hp, alone_bind_error ?_⟩
      unfold alone
      rw [hrun]
    · dsimp only at hp
      rw [alone_prepare_ok hrun]
      unfold createAndCompare
      refine goal_bind (goal_mono (hcreate p b₂ hp hs₂ hne₂) ?_)
      rintro (e | ⟨stored, _ | _⟩) b₃ ⟨-, hr⟩
      · exact ⟨hr.1, hr.2.1, alone_bind_error hr.2.2⟩
      · -- The rows of a twin that has the same fingerprint.
        obtain ⟨j, q, hj, hauthor, hq, hsameq, hprint⟩ := hr
        have hsameprint : stored.intent.requestFingerprint = p.intent.requestFingerprint := by
          rw [hsameq.1]
          exact hprint
        show goal schema d₀ made gates allow i (if _ then _ else _) _ b₃
        rw [if_neg (not_not.mpr hsameprint)]
        exact ⟨j, q, hj, hauthor, hq, hsameq⟩
      · have hsameprint : stored.intent.requestFingerprint = p.intent.requestFingerprint := by
          rw [Option.some.inj (hp.symm.trans hr.2)]
        show goal schema d₀ made gates allow i (if _ then _ else _) _ b₃
        rw [if_neg (not_not.mpr hsameprint)]
        exact hr
  · -- A twin was here first, and asked for the same.
    obtain ⟨j, p, hj, hauthor, hp, hx, -⟩ := hlooked
    show goal schema d₀ made gates allow i (if _ then _ else _) _ b₁
    rw [if_pos (hx.1 ▸ hsame j p hp)]
    exact ⟨j, p, hj, hauthor, hp, hx⟩

end Planner

end Intents

end BasisHawk.Planning
