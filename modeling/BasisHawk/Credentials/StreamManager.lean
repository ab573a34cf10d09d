/-
  BasisHawk.Credentials.StreamManager
  ───────────────────────────────────
  `DynamicPrivateStreamManager` (`private_stream.py`): one private stream for
  each exchange and environment, started and stopped as the list of accounts
  changes.

  Each iteration collapses the list into a dictionary by exchange and
  environment, in which the account listed last stays; stops the streams whose
  entry is gone or has another revision; and starts the ones that are missing.

  Main results:
    • `mem_byScope` — what stays in the dictionary,
    • `Manager.Sound` — one stream for a scope, and a scope without one has been
      registered as disconnected,
    • `streams_follow_default` — after every iteration in which the connections
      could be made the streams are those of the defaults, exactly if the
      accounts listed last are.
-/
import BasisHawk.Credentials.Defaults

namespace BasisHawk.Credentials

open Domain Lib
open Reconciliation (Account Control)

/-! ## §1. The list of accounts. -/

/-- The fields of `CredentialSummary` that the manager and the factory read. -/
structure CredentialSummary where
  id : Nat
  account : Account
  label : String
  isDefault : Bool
  updatedAt : Int
  deriving DecidableEq

/-- `_summary`. -/
def ExchangeCredentialRow.summary (r : ExchangeCredentialRow) : CredentialSummary :=
  ⟨r.id, r.account, r.label, r.isDefault, r.updatedAt⟩

/-- `CredentialService.list`. -/
def Vault.list (v : Vault) : List CredentialSummary :=
  v.listExchangeCredentials.map (·.summary)

/-- `summaries[key] = item`: a key keeps its place. -/
def setItem (d : List CredentialSummary) (item : CredentialSummary) : List CredentialSummary :=
  if ∃ old ∈ d, old.account = item.account
  then d.map fun old => if old.account = item.account then item else old
  else d ++ [item]

/-- `{(item.exchange, item.environment): item for item in ...}`. -/
def byScope (summaries : List CredentialSummary) : List CredentialSummary :=
  summaries.foldl setItem []

/-- The account listed last for a scope. -/
def listedLast (summaries : List CredentialSummary) (a : Account) : Option CredentialSummary :=
  (summaries.filter (·.account = a)).getLast?

/-! ## §2. The manager. -/

/-- `_ManagedPrivateStream`: the stream of a scope, the revision it belongs to,
and the summary its connection was made from. -/
structure ManagedPrivateStream where
  account : Account
  revision : Int
  source : CredentialSummary
  deriving DecidableEq

/-- What the registry is told, and when a stream is started. -/
inductive StreamEvent where
  | supervised (a : Account)
  | disconnected (a : Account)
  deriving DecidableEq

/-- The streams under management, what happened so far, and
`execution_control`. -/
structure Manager where
  managed : List ManagedPrivateStream
  events : List StreamEvent
  control : Control

/-- One round of the loop: the list the provider returns, and for which
summaries the factory makes a connection. -/
structure Iteration where
  summaries : List CredentialSummary
  factory : CredentialSummary → Bool

/-- The stream has the revision of its entry. -/
def Current (d : List CredentialSummary) (m : ManagedPrivateStream) : Prop :=
  ∃ s ∈ d, s.account = m.account ∧ s.updatedAt = m.revision

instance (d : List CredentialSummary) (m : ManagedPrivateStream) : Decidable (Current d m) :=
  inferInstanceAs (Decidable (∃ s ∈ d, _))

/-- The order in which streams are stopped. -/
def stoppedBefore (a b : Account) : Prop :=
  a.exchange.name < b.exchange.name
    ∨ (a.exchange = b.exchange ∧ a.environment.name ≤ b.environment.name)

instance (a b : Account) : Decidable (stoppedBefore a b) :=
  inferInstanceAs (Decidable (_ ∨ (_ ∧ _)))

namespace Manager

/-- `desired_revisions == current_revisions`. -/
def SameRevisions (w : Manager) (d : List CredentialSummary) : Prop :=
  (∀ m ∈ w.managed, Current d m) ∧ ∀ s ∈ d, ∃ m ∈ w.managed, m.account = s.account

instance (w : Manager) (d : List CredentialSummary) : Decidable (w.SameRevisions d) :=
  inferInstanceAs (Decidable (_ ∧ _))

/-- `_stop` of a stream that is taken out of the dictionary. -/
def stop (w : Manager) (a : Account) : Manager :=
  { w with
    managed := w.managed.filter (·.account ≠ a)
    events := w.events ++ [.disconnected a] }

/-- The body of the loop that starts streams. -/
def start (factory : CredentialSummary → Bool) (w : Manager) (s : CredentialSummary) : Manager :=
  if ∃ m ∈ w.managed, m.account = s.account then w
  else if factory s then
    { w with
      managed := w.managed ++ [⟨s.account, s.updatedAt, s⟩]
      events := w.events ++ [.supervised s.account] }
  else { w with events := w.events ++ [.disconnected s.account] }

/-- The keys of the streams that are stopped. -/
def stale (w : Manager) (d : List CredentialSummary) : List Account :=
  ((w.managed.filter fun m => ¬Current d m).map (·.account)).insertionSort stoppedBefore

/-- The request that precedes a change. -/
def announces (w : Manager) (d : List CredentialSummary) : Manager :=
  if w.SameRevisions d then w
  else { w with control := Control.requestExecutionReconciliation configurationChanged w.control }

/-- One round of `DynamicPrivateStreamManager.run`. -/
def iterate (w : Manager) (it : Iteration) : Manager :=
  let d := byScope it.summaries
  d.foldl (start it.factory) ((w.stale d).foldl stop (w.announces d))

/-- The rounds so far. -/
def runs (its : List Iteration) (control : Control) : Manager :=
  its.foldl iterate ⟨[], [], control⟩

/-- The factory is asked for a connection of `s`. -/
def Asked (w : Manager) (it : Iteration) (s : CredentialSummary) : Prop :=
  s ∈ byScope it.summaries ∧ ¬∃ m ∈ w.managed, m.account = s.account
    ∧ m.revision = s.updatedAt

/-- The factory succeeds throughout the round. -/
def Succeeds (w : Manager) (it : Iteration) : Prop := ∀ s, w.Asked it s → it.factory s = true

end Manager

/-! ## §3. The dictionary. -/

/-- Assigning an item of a dict replaces the entry of its scope and leaves the
others. -/
theorem mem_setItem {d : List CredentialSummary} {item s : CredentialSummary} :
    s ∈ setItem d item ↔ s = item ∨ (s ∈ d ∧ s.account ≠ item.account) := by
  unfold setItem
  split
  · next h =>
      rw [List.mem_map]
      constructor
      · rintro ⟨old, hold, rfl⟩
        by_cases ha : old.account = item.account
        · exact .inl (if_pos ha)
        · rw [if_neg ha]
          exact .inr ⟨hold, ha⟩
      · rintro (rfl | ⟨hs, hne⟩)
        · obtain ⟨old, hold, ha⟩ := h
          exact ⟨old, hold, if_pos ha⟩
        · exact ⟨s, hs, if_neg hne⟩
  · next h =>
      rw [List.mem_append, List.mem_singleton, or_comm]
      refine or_congr_right (iff_self_and.mpr fun hs ha => h ⟨s, hs, ha⟩)

/-- A dict has one entry for each scope. -/
theorem setItem_nodup {d : List CredentialSummary} {item : CredentialSummary}
    (h : (d.map (·.account)).Nodup) : ((setItem d item).map (·.account)).Nodup := by
  unfold setItem
  split
  · have hkeys : (d.map fun old => if old.account = item.account then item else old).map (·.account)
        = d.map (·.account) := by
      rw [List.map_map]
      refine List.map_congr_left fun old _ => ?_
      show (if old.account = item.account then item else old).account = old.account
      split
      · next ha => exact ha.symm
      · rfl
    rw [hkeys]
    exact h
  · next hnone =>
      rw [List.map_append]
      refine List.nodup_append.mpr ⟨h, List.nodup_singleton _, fun a ha b hb hab => ?_⟩
      obtain ⟨old, hold, rfl⟩ := List.mem_map.mp ha
      exact hnone ⟨old, hold, hab.trans (List.mem_singleton.mp hb)⟩

/-- The comprehension assigns the summaries one after another: the last one
listed is assigned last. -/
theorem byScope_append (summaries : List CredentialSummary) (item : CredentialSummary) :
    byScope (summaries ++ [item]) = setItem (byScope summaries) item := by
  simp [byScope]

/-- And the last listed of a scope is the last assigned to it. -/
theorem listedLast_append (summaries : List CredentialSummary) (item : CredentialSummary)
    (a : Account) : listedLast (summaries ++ [item]) a
      = if item.account = a then some item else listedLast summaries a := by
  unfold listedLast
  rw [List.filter_append]
  by_cases ha : item.account = a
  · simp [ha]
  · simp [ha]

/-- Each scope keeps the account listed last. -/
theorem mem_byScope {summaries : List CredentialSummary} {s : CredentialSummary} :
    s ∈ byScope summaries ↔ listedLast summaries s.account = some s := by
  induction summaries using List.reverseRecOn with
  | nil => simp [byScope, listedLast]
  | append_singleton rest item ih =>
      rw [byScope_append, mem_setItem, listedLast_append, ih]
      by_cases ha : item.account = s.account
      · rw [if_pos ha]
        simp [ha, eq_comm]
      · rw [if_neg ha]
        constructor
        · rintro (rfl | ⟨h, -⟩)
          · exact absurd rfl ha
          · exact h
        · exact fun h => .inr ⟨h, fun h' => ha h'.symm⟩

theorem byScope_nodup (summaries : List CredentialSummary) :
    ((byScope summaries).map (·.account)).Nodup := by
  induction summaries using List.reverseRecOn with
  | nil => exact List.nodup_nil
  | append_singleton rest item ih =>
      rw [byScope_append]
      exact setItem_nodup ih

/-- What is listed last for a scope is a summary of that scope. -/
theorem listedLast_some {summaries : List CredentialSummary} {a : Account} {s : CredentialSummary}
    (h : listedLast summaries a = some s) : s ∈ summaries ∧ s.account = a := by
  have hmem := List.mem_of_getLast? h
  simpa using List.mem_filter.mp hmem

/-- A scope that is listed at all has a last one. -/
theorem listedLast_of_mem {summaries : List CredentialSummary} {s : CredentialSummary}
    (h : s ∈ summaries) : ∃ last, listedLast summaries s.account = some last := by
  have hmem : s ∈ summaries.filter (·.account = s.account) := List.mem_filter.mpr ⟨h, by simp⟩
  cases hlast : (summaries.filter (·.account = s.account)).getLast? with
  | none =>
      rw [List.getLast?_eq_none_iff.mp hlast] at hmem
      cases hmem
  | some last => exact ⟨last, hlast⟩

/-! ## §4. What every round keeps. -/

namespace Manager

/-- The stream of the scope counts as running: it was started after it was last
registered as disconnected. -/
def running (a : Account) (events : List StreamEvent) : Bool :=
  events.foldl (fun r e => match e with
    | .supervised b => if b = a then true else r
    | .disconnected b => if b = a then false else r) false

/-- The start of a stream makes its scope run and leaves the others as they
were. -/
theorem running_supervised (a b : Account) (events : List StreamEvent) :
    running a (events ++ [.supervised b]) = if b = a then true else running a events := by
  simp [running]

/-- The end of a stream stops its scope and leaves the others as they were. -/
theorem running_disconnected (a b : Account) (events : List StreamEvent) :
    running a (events ++ [.disconnected b]) = if b = a then false else running a events := by
  simp [running]

/-- One stream for a scope, made from a summary of it at the stream's revision;
and exactly the managed ones run. -/
structure Sound (w : Manager) : Prop where
  single : (w.managed.map (·.account)).Nodup
  source : ∀ m ∈ w.managed, m.source.account = m.account ∧ m.source.updatedAt = m.revision
  runs : ∀ a, running a w.events = true ↔ ∃ m ∈ w.managed, m.account = a

/-- Stopping the stream of a scope keeps the manager in order. -/
theorem sound_stop {w : Manager} (h : w.Sound) (a : Account) : (w.stop a).Sound where
  single := h.single.sublist (List.filter_sublist.map _)
  source := fun m hm => h.source m (List.mem_filter.mp hm).1
  runs := fun b => by
    show running b (w.events ++ [.disconnected a]) = true ↔ ∃ m ∈ w.managed.filter _, _
    rw [running_disconnected]
    simp only [List.mem_filter, decide_eq_true_eq]
    split
    · next hab =>
        refine ⟨fun h => (by cases h), fun ⟨m, ⟨_, hne⟩, hm⟩ => absurd (hm.trans hab.symm) hne⟩
    · next hab =>
        rw [h.runs b]
        exact ⟨fun ⟨m, hm, hb⟩ => ⟨m, ⟨hm, fun ha => hab (ha.symm.trans hb)⟩, hb⟩,
          fun ⟨m, ⟨hm, _⟩, hb⟩ => ⟨m, hm, hb⟩⟩

/-- So does starting one, where the factory builds a connection and where it
fails. -/
theorem sound_start {w : Manager} (h : w.Sound) (factory : CredentialSummary → Bool)
    (s : CredentialSummary) : (w.start factory s).Sound := by
  unfold start
  split
  · exact h
  · -- The factory builds a connection, so one more stream is managed.
    next hnone =>
      split
      · constructor
        · rw [List.map_append]
          refine List.nodup_append.mpr ⟨h.single, List.nodup_singleton _, fun a ha b hb hab => ?_⟩
          obtain ⟨m, hm, rfl⟩ := List.mem_map.mp ha
          exact hnone ⟨m, hm, hab.trans (List.mem_singleton.mp hb)⟩
        · intro m hm
          rcases List.mem_append.mp hm with hm | hm
          · exact h.source m hm
          · rw [List.mem_singleton.mp hm]
            exact ⟨rfl, rfl⟩
        · intro a
          rw [running_supervised]
          simp only [List.mem_append, List.mem_singleton, or_and_right, exists_or,
            exists_eq_left]
          split
          · next ha => exact ⟨fun _ => .inr ha, fun _ => rfl⟩
          · next ha =>
              rw [h.runs a]
              exact (or_iff_left ha).symm
      · -- It fails, and only an event says so.
        refine ⟨h.single, h.source, fun a => ?_⟩
        rw [running_disconnected]
        split
        · next ha => exact ⟨fun h => (by cases h), fun ⟨m, hm, hma⟩ =>
            absurd ⟨m, hm, hma.trans ha.symm⟩ hnone⟩
        · exact h.runs a

/-- Announcing the summaries changes nothing that the invariant speaks of. -/
theorem sound_announces {w : Manager} (h : w.Sound) (d : List CredentialSummary) :
    (w.announces d).Sound := by
  unfold announces
  split
  · exact h
  · exact ⟨h.single, h.source, h.runs⟩

/-- What holds of one entry holds of a loop over the entries. -/
theorem foldl_sound {α : Type} {f : Manager → α → Manager} (hf : ∀ w x, w.Sound → (f w x).Sound)
    (xs : List α) : ∀ {w : Manager}, w.Sound → (xs.foldl f w).Sound := by
  induction xs with
  | nil => exact fun h => h
  | cons x rest ih => exact fun h => ih (hf _ x h)

/-- One iteration of the manager's loop keeps it in order: stale streams are
stopped, missing ones started. -/
theorem sound_iterate {w : Manager} (h : w.Sound) (it : Iteration) : (w.iterate it).Sound :=
  foldl_sound (fun _ s h => sound_start h it.factory s) _
    (foldl_sound (fun _ a h => sound_stop h a) _ (sound_announces h _))

/-- So does any sequence of iterations, whatever is listed in each. -/
theorem sound_runs (its : List Iteration) (control : Control) : (runs its control).Sound :=
  foldl_sound (fun _ it h => sound_iterate h it) its
    ⟨List.nodup_nil, fun _ hm => (by cases hm), fun a =>
      ⟨fun h => (by cases h), fun ⟨_, hm, _⟩ => (by cases hm)⟩⟩

/-! ## §5. The streams after a round. -/

/-- Stopping a list of scopes leaves the streams of the others. -/
theorem mem_foldl_stop {w : Manager} {keys : List Account} {m : ManagedPrivateStream} :
    m ∈ (keys.foldl stop w).managed ↔ m ∈ w.managed ∧ m.account ∉ keys := by
  induction keys generalizing w with
  | nil => simp
  | cons a rest ih =>
      rw [List.foldl_cons, ih]
      simp only [stop, List.mem_filter, decide_eq_true_eq, List.mem_cons, not_or]
      tauto

/-- What the loop that stops streams leaves: those that are current. -/
theorem mem_stopped {w : Manager} (h : w.Sound) {d : List CredentialSummary}
    {m : ManagedPrivateStream} :
    m ∈ ((w.stale d).foldl stop (w.announces d)).managed ↔ m ∈ w.managed ∧ Current d m := by
  have hmanaged : (w.announces d).managed = w.managed := by
    unfold announces
    split <;> rfl
  rw [mem_foldl_stop, hmanaged]
  refine and_congr_right fun hm => ?_
  have hstale : m.account ∈ w.stale d ↔ ¬Current d m := by
    unfold stale
    rw [(List.perm_insertionSort _ _).mem_iff, List.mem_map]
    constructor
    · rintro ⟨m', hm', ha⟩
      obtain ⟨hm', hcurrent⟩ := List.mem_filter.mp hm'
      have heq : m' = m := List.inj_on_of_nodup_map h.single hm' hm ha
      rw [heq] at hcurrent
      simpa using hcurrent
    · exact fun hnot => ⟨m, List.mem_filter.mpr ⟨hm, by simpa using hnot⟩, rfl⟩
  rw [hstale, not_not]

/-- What the loop that starts streams leaves: what there was, and a stream for
every summary without one that got a connection. -/
theorem mem_foldl_start {factory : CredentialSummary → Bool} {d : List CredentialSummary} :
    ∀ {w : Manager}, (d.map (·.account)).Nodup → ∀ {m : ManagedPrivateStream},
      m ∈ (d.foldl (start factory) w).managed ↔ m ∈ w.managed
        ∨ ∃ s ∈ d, (¬∃ m' ∈ w.managed, m'.account = s.account) ∧ factory s = true
          ∧ m = ⟨s.account, s.updatedAt, s⟩ := by
  induction d with
  | nil => simp
  | cons s rest ih =>
      intro w hnodup m
      obtain ⟨hfresh, hrest⟩ := List.nodup_cons.mp hnodup
      have hne : ∀ s' ∈ rest, s'.account ≠ s.account :=
        fun s' hs' ha => hfresh (List.mem_map.mpr ⟨s', hs', ha⟩)
      rw [List.foldl_cons, ih hrest, List.exists_mem_cons_iff]
      -- What is started for `s` is in nobody else's way.
      have hsame : ∀ s' ∈ rest, (∃ m' ∈ (w.start factory s).managed, m'.account = s'.account)
          ↔ ∃ m' ∈ w.managed, m'.account = s'.account := by
        intro s' hs'
        unfold start
        split
        · rfl
        · split
          · simp only [List.mem_append, List.mem_singleton, or_and_right, exists_or, exists_eq_left]
            exact or_iff_left fun ha => hne s' hs' ha.symm
          · rfl
      have hothers : (∃ s' ∈ rest, (¬∃ m' ∈ (w.start factory s).managed, m'.account = s'.account)
            ∧ factory s' = true ∧ m = ⟨s'.account, s'.updatedAt, s'⟩)
          ↔ ∃ s' ∈ rest, (¬∃ m' ∈ w.managed, m'.account = s'.account)
            ∧ factory s' = true ∧ m = ⟨s'.account, s'.updatedAt, s'⟩ :=
        exists_congr fun s' => and_congr_right fun hs' => by rw [hsame s' hs']
      rw [hothers, ← or_assoc]
      refine or_congr_left ?_
      unfold start
      split
      · next hthere => exact (or_iff_left fun h => h.1 hthere).symm
      · next hnone =>
          split
          · next hmade =>
              rw [List.mem_append, List.mem_singleton]
              exact or_congr_right ⟨fun h => ⟨hnone, hmade, h⟩, fun h => h.2.2⟩
          · next hfailed => exact (or_iff_left fun h => hfailed h.2.1).symm

/-- The streams after a round: the current ones stay, the others are those of
the summaries in the dictionary that got a connection. -/
theorem mem_iterate {w : Manager} (h : w.Sound) {it : Iteration} {m : ManagedPrivateStream} :
    m ∈ (w.iterate it).managed ↔ (m ∈ w.managed ∧ Current (byScope it.summaries) m)
      ∨ ∃ s, w.Asked it s ∧ it.factory s = true ∧ m = ⟨s.account, s.updatedAt, s⟩ := by
  unfold iterate
  dsimp only
  rw [mem_foldl_start (byScope_nodup _), mem_stopped h]
  refine or_congr_right (exists_congr fun s => ?_)
  rw [← and_assoc]
  refine and_congr_left fun _ => and_congr_right fun hs => not_congr ?_
  constructor
  · rintro ⟨m', hm', ha⟩
    obtain ⟨hm', s', hs', ha', hrev⟩ := (mem_stopped h).mp hm'
    have heq : s' = s := List.inj_on_of_nodup_map (byScope_nodup _) hs' hs (ha'.trans ha)
    exact ⟨m', hm', ha, by rw [← heq]; exact hrev.symm⟩
  · rintro ⟨m', hm', ha, hrev⟩
    exact ⟨m', (mem_stopped h).mpr ⟨hm', s, hs, ha.symm, hrev.symm⟩, ha⟩

/-- And records one stop for each of them. -/
theorem foldl_stop_events {keys : List Account} : ∀ {w : Manager},
    (keys.foldl stop w).events = w.events ++ keys.map .disconnected := by
  induction keys with
  | nil => simp
  | cons a rest ih =>
      intro w
      rw [List.foldl_cons, ih]
      simp [stop]

theorem foldl_start_events {factory : CredentialSummary → Bool} {d : List CredentialSummary} :
    ∀ {w : Manager}, ∃ new, (d.foldl (start factory) w).events = w.events ++ new := by
  induction d with
  | nil => exact ⟨[], by simp⟩
  | cons s rest ih =>
      intro w
      obtain ⟨new, hnew⟩ := @ih (w.start factory s)
      have hfirst : ∃ first, (w.start factory s).events = w.events ++ first := by
        unfold start
        split
        · exact ⟨[], by simp⟩
        · split
          · exact ⟨_, rfl⟩
          · exact ⟨_, rfl⟩
      obtain ⟨first, hfirst⟩ := hfirst
      exact ⟨first ++ new, by rw [List.foldl_cons, hnew, hfirst, List.append_assoc]⟩

/-- Every stream that does not survive a round is registered as disconnected in
it. -/
theorem iterate_events {w : Manager} (h : w.Sound) (it : Iteration) :
    ∃ new, (w.iterate it).events = w.events ++ new
      ∧ ∀ m ∈ w.managed, m ∉ (w.iterate it).managed → .disconnected m.account ∈ new := by
  have hevents : (w.announces (byScope it.summaries)).events = w.events := by
    unfold announces
    split <;> rfl
  obtain ⟨new, hnew⟩ := @foldl_start_events it.factory (byScope it.summaries)
    ((w.stale (byScope it.summaries)).foldl stop (w.announces (byScope it.summaries)))
  refine ⟨(w.stale (byScope it.summaries)).map .disconnected ++ new, ?_, fun m hm hgone => ?_⟩
  · unfold iterate
    dsimp only
    rw [hnew, foldl_stop_events, hevents, List.append_assoc]
  · have hstale : ¬Current (byScope it.summaries) m :=
      fun hcurrent => hgone ((mem_iterate h).mpr (.inl ⟨hm, hcurrent⟩))
    refine List.mem_append_left _ (List.mem_map_of_mem ?_)
    unfold stale
    rw [(List.perm_insertionSort _ _).mem_iff]
    exact List.mem_map_of_mem (List.mem_filter.mpr ⟨hm, by simpa using hstale⟩)

/-! ## §6. The streams of the defaults. -/

/-- What is expected of a round. -/
structure Follows (before : Manager) (it : Iteration) (w : Manager) : Prop where
  /-- One stream for every scope that is listed, made from a default of it. -/
  default : ∀ s ∈ it.summaries, ∃! m, m ∈ w.managed ∧ m.account = s.account
    ∧ ∃ d ∈ it.summaries, d.account = s.account ∧ d.isDefault = true ∧ m.source.id = d.id
      ∧ m.source.updatedAt = d.updatedAt
  single : (w.managed.map (·.account)).Nodup
  /-- A stream that was stopped is registered as disconnected. -/
  stopped : ∃ new, w.events = before.events ++ new
    ∧ ∀ m ∈ before.managed, m ∉ w.managed → .disconnected m.account ∈ new
  /-- So is a scope that has no stream any more. -/
  missing : ∀ a, (¬∃ m ∈ w.managed, m.account = a) → running a w.events = false

/-- In every scope the account listed last has the revision of a default, and
it is that default, or the stream of that revision was made from it. -/
def DefaultListedLast (w : Manager) (summaries : List CredentialSummary) : Prop :=
  ∀ s ∈ summaries, ∀ last ∈ listedLast summaries s.account,
    ∃ d ∈ summaries, d.account = s.account ∧ d.isDefault = true ∧ d.updatedAt = last.updatedAt
      ∧ ((∃ m ∈ w.managed, m.account = s.account ∧ m.revision = last.updatedAt
            ∧ m.source.id = d.id)
        ∨ ((¬∃ m ∈ w.managed, m.account = s.account ∧ m.revision = last.updatedAt)
          ∧ last.id = d.id))

/-- The entry of the account listed last. -/
theorem current_iff {summaries : List CredentialSummary} {m : ManagedPrivateStream}
    {last : CredentialSummary} (hlast : listedLast summaries m.account = some last) :
    Current (byScope summaries) m ↔ m.revision = last.updatedAt := by
  have hmem : last ∈ byScope summaries :=
    mem_byScope.mpr (by rw [(listedLast_some hlast).2]; exact hlast)
  constructor
  · rintro ⟨s, hs, ha, hrev⟩
    have heq : s = last := List.inj_on_of_nodup_map (byScope_nodup _) hs hmem
      (ha.trans (listedLast_some hlast).2.symm)
    rw [← hrev, heq]
  · exact fun hrev => ⟨last, hmem, (listedLast_some hlast).2, hrev.symm⟩

/-- The stream of a scope after a round in which the connections could be made. -/
theorem stream_iterate {w : Manager} (h : w.Sound) {it : Iteration} (hok : w.Succeeds it)
    {last : CredentialSummary} {a : Account} (hlast : listedLast it.summaries a = some last)
    {m : ManagedPrivateStream} (ha : m.account = a) :
    m ∈ (w.iterate it).managed ↔ (m ∈ w.managed ∧ m.revision = last.updatedAt)
      ∨ ((¬∃ m' ∈ w.managed, m'.account = a ∧ m'.revision = last.updatedAt)
        ∧ m = ⟨last.account, last.updatedAt, last⟩) := by
  have hacc : last.account = a := (listedLast_some hlast).2
  have hmem : last ∈ byScope it.summaries := mem_byScope.mpr (by rw [hacc]; exact hlast)
  rw [mem_iterate h, current_iff (ha ▸ hlast)]
  refine or_congr_right ?_
  constructor
  · rintro ⟨s, ⟨hs, hnone⟩, -, rfl⟩
    have heq : s = last := List.inj_on_of_nodup_map (byScope_nodup _) hs hmem
      (ha.trans hacc.symm)
    rw [heq, hacc] at hnone
    exact ⟨hnone, by rw [heq]⟩
  · rintro ⟨hnone, rfl⟩
    have hasked : w.Asked it last := ⟨hmem, by rw [hacc]; exact hnone⟩
    exact ⟨last, hasked, hok last hasked, rfl⟩

/-- A round follows the defaults exactly if the accounts listed last do. -/
theorem follows_iff {w : Manager} (h : w.Sound) {it : Iteration} (hok : w.Succeeds it) :
    Follows w it (w.iterate it) ↔ DefaultListedLast w it.summaries := by
  have hafter := sound_iterate h it
  constructor
  · intro hf s hs last hlast
    have hlast : listedLast it.summaries s.account = some last := hlast
    -- The stream of the account is the default's, and it comes from the account listed last.
    obtain ⟨m, ⟨hm, ha, d, hd, hda, hdefault, hid, hrev⟩, -⟩ := hf.default s hs
    have hsource := (hafter.source m hm).2
    rcases (stream_iterate h hok hlast ha).mp hm with ⟨hold, hold'⟩ | ⟨hnone, rfl⟩
    · exact ⟨d, hd, hda, hdefault, by rw [← hrev, hsource, hold'], .inl ⟨m, hold, ha, hold', hid⟩⟩
    · exact ⟨d, hd, hda, hdefault, hrev.symm, .inr ⟨hnone, hid⟩⟩
  · intro hc
    refine ⟨fun s hs => ?_, hafter.single, iterate_events h it, fun a hnone => ?_⟩
    · obtain ⟨last, hlast⟩ := listedLast_of_mem hs
      obtain ⟨d, hd, hda, hdefault, hdrev, hd'⟩ := hc s hs last hlast
      have hacc : last.account = s.account := (listedLast_some hlast).2
      -- The stream that runs afterwards: the old one if it is up to date, else a new one.
      have hstream : ∃ m ∈ (w.iterate it).managed, m.account = s.account ∧ m.source.id = d.id
          ∧ m.revision = last.updatedAt := by
        rcases hd' with ⟨m, hm, ha, hrev, hid⟩ | ⟨hnone, hid⟩
        · exact ⟨m, (stream_iterate h hok hlast ha).mpr (.inl ⟨hm, hrev⟩), ha, hid, hrev⟩
        · have hnew : (⟨last.account, last.updatedAt, last⟩ : ManagedPrivateStream).account
              = s.account := hacc
          exact ⟨_, (stream_iterate h hok hlast hnew).mpr (.inr ⟨hnone, rfl⟩), hacc, hid, rfl⟩
      obtain ⟨m, hm, ha, hid, hrev⟩ := hstream
      -- One stream for an account, so there is no other.
      refine ⟨m, ⟨hm, ha, d, hd, hda, hdefault, hid, ?_⟩, fun m' ⟨hm', ha', _⟩ => ?_⟩
      · rw [(hafter.source m hm).2, hrev, hdrev]
      · exact List.inj_on_of_nodup_map hafter.single hm' hm (ha'.trans ha.symm)
    · have hruns := hafter.runs a
      cases hr : running a (w.iterate it).events with
      | true => exact absurd (hruns.mp hr) hnone
      | false => rfl

end Manager

/-- **The streams follow the defaults**: through every history of account lists
and connection failures, after every round in which the connections could be
made, exactly if in every such round the accounts listed last are the
defaults. -/
theorem streams_follow_default (its : List Iteration) (control : Control) :
    (∀ n (hn : n < its.length),
        (Manager.runs (its.take n) control).Succeeds (its.get ⟨n, hn⟩) →
          (Manager.runs (its.take n) control).Follows (its.get ⟨n, hn⟩)
            (Manager.runs (its.take (n + 1)) control))
      ↔ ∀ n (hn : n < its.length),
        (Manager.runs (its.take n) control).Succeeds (its.get ⟨n, hn⟩) →
          (Manager.runs (its.take n) control).DefaultListedLast (its.get ⟨n, hn⟩).summaries := by
  refine forall_congr' fun n => forall_congr' fun hn => imp_congr_right fun hok => ?_
  have hstep : Manager.runs (its.take (n + 1)) control
      = (Manager.runs (its.take n) control).iterate (its.get ⟨n, hn⟩) := by
    unfold Manager.runs
    rw [List.take_succ_eq_append_getElem hn, List.foldl_append]
    rfl
  rw [hstep]
  exact Manager.follows_iff (Manager.sound_runs _ _) hok

/-! ## §7. Two accounts at one exchange. -/

namespace Sample

/-- Two accounts at Binance, the first of which is the default. -/
def twoAccounts : Vault :=
  perform [(.createAccount account "main" secrets ⟨"c", "n", 1⟩ false false none, 0),
    (.createAccount account "second" secrets ⟨"c", "n", 1⟩ false false none, 1)]
    (unconfigured none)

end Sample

/-- The stream is made from the one listed last, which is not the default. -/
theorem stream_of_second :
    ¬∀ (its : List Iteration) (control : Control) n (hn : n < its.length),
      (Manager.runs (its.take n) control).Succeeds (its.get ⟨n, hn⟩) →
        (Manager.runs (its.take n) control).Follows (its.get ⟨n, hn⟩)
          (Manager.runs (its.take (n + 1)) control) := by
  intro h
  have hf := h [⟨Sample.twoAccounts.list, fun _ => true⟩] none 0 (by decide) fun _ _ => rfl
  have hlisted : ∃ s ∈ Sample.twoAccounts.list, s.account = Sample.account := by decide
  obtain ⟨s, hs, ha⟩ := hlisted
  obtain ⟨m, ⟨hm, -, d, hd, -, hdefault, hid, -⟩, -⟩ := hf.default s hs
  have hsource : ∀ m ∈ (Manager.runs [⟨Sample.twoAccounts.list, fun _ => true⟩] none).managed,
      ∀ d ∈ Sample.twoAccounts.list, d.isDefault = true → m.source.id ≠ d.id := by decide
  exact hsource m hm d hd hdefault hid

end BasisHawk.Credentials
