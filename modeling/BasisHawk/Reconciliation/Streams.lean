/-
  BasisHawk.Reconciliation.Streams
  ────────────────────────────────
  The private account event streams next to the reconciliation worker
  (`private_stream.py`, `set_private_stream_state` in `storage.py`).

  A disconnect pauses the execution if it finds it `ready`.  The worker looks
  at the streams before it publishes `ready`, in transactions of their own, so
  a disconnect in between finds nothing to pause, and is not found either.

  Main results:
    • `ready_connected` — while `ready` every default account is connected, in
      runs without a disconnect after the worker's last look at the stream,
    • `ready_disconnected` — a disconnect in between leaves `ready` behind.
-/
import BasisHawk.Reconciliation.Pause

namespace BasisHawk.Reconciliation

open Domain Lib Accounts Paired

/-! ## §1. The stream states. -/

/-- `PrivateStreamStateRow`, as far as `private_stream_ready` reads it. -/
structure PrivateStreamStateRow where
  account : Account
  connected : Bool
  authenticated : Bool
  ordersSubscribed : Bool
  fillsSubscribed : Bool
  positionsSubscribed : Bool
  lastHeartbeatAt : Option Int
  deriving DecidableEq

abbrev Streams : Type := List PrivateStreamStateRow

/-- The arguments of `set_private_stream_state`. -/
structure StreamState where
  account : Account
  connected : Bool
  authenticated : Bool
  ordersSubscribed : Bool
  fillsSubscribed : Bool
  positionsSubscribed : Bool
  heartbeat : Bool

/-- What `PrivateStreamRegistry.connected` passes on. -/
def StreamState.connect (a : Account) (orders fills positions : Bool) : StreamState :=
  ⟨a, true, true, orders, fills, positions, true⟩

/-- What `PrivateStreamRegistry.disconnected` passes on. -/
def StreamState.disconnect (a : Account) : StreamState :=
  ⟨a, false, false, false, false, false, false⟩

namespace Streams

/-- The row of an account. -/
def row? (s : Streams) (a : Account) : Option PrivateStreamStateRow := s.find? (·.account = a)

/-- The row after `set_private_stream_state`. -/
def written (u : StreamState) (now : Int) (old : Option PrivateStreamStateRow) :
    PrivateStreamStateRow where
  account := u.account
  connected := u.connected
  authenticated := u.authenticated
  ordersSubscribed := u.ordersSubscribed
  fillsSubscribed := u.fillsSubscribed
  positionsSubscribed := u.positionsSubscribed
  lastHeartbeatAt := if u.heartbeat then some now else old.bind (·.lastHeartbeatAt)

/-- `set_private_stream_state`, without what it does to the control row. -/
def setPrivateStreamState (u : StreamState) (now : Int) (s : Streams) : Streams :=
  match s.row? u.account with
  | none => s ++ [written u now none]
  | some old => s.map fun row => if row.account = u.account then written u now (some old) else row

/-- `reset_private_stream_states`, at the start of the worker process. -/
def resetPrivateStreamStates (s : Streams) : Streams :=
  s.map fun row => { row with
    connected := false, authenticated := false, ordersSubscribed := false
    fillsSubscribed := false, positionsSubscribed := false }

/-- `private_stream_ready`. -/
def privateStreamReady (s : Streams) (a : Account) (now : Int) : Bool :=
  match s.row? a with
  | none => false
  | some row => match row.lastHeartbeatAt with
    | none => false
    | some heartbeat => row.connected && row.authenticated && row.ordersSubscribed
        && row.fillsSubscribed && row.positionsSubscribed && decide (now - seconds 30 ≤ heartbeat)

/-- The row of the account says that its stream is connected. -/
def Connected (s : Streams) (a : Account) : Prop := ∃ row ∈ s.row? a, row.connected = true

instance (s : Streams) (a : Account) : Decidable (s.Connected a) :=
  inferInstanceAs (Decidable (∃ row ∈ s.row? a, row.connected = true))

/-- A stream that counts as ready is connected. -/
theorem connected_of_ready {s : Streams} {a : Account} {now : Int}
    (h : s.privateStreamReady a now = true) : s.Connected a := by
  unfold privateStreamReady at h
  split at h
  · cases h
  · next row hrow =>
      split at h
      · cases h
      · simp only [Bool.and_eq_true] at h
        exact ⟨row, hrow, h.1.1.1.1.1⟩

/-- A write shows in the account's row, and in no other. -/
theorem row?_setPrivateStreamState (u : StreamState) (now : Int) (s : Streams) (a : Account) :
    (s.setPrivateStreamState u now).row? a
      = if a = u.account then some (written u now (s.row? u.account)) else s.row? a := by
  unfold setPrivateStreamState
  cases hrow : s.row? u.account with
  -- A first row of the account is appended.
  | none =>
      dsimp only [row?] at hrow ⊢
      rw [List.find?_append]
      by_cases ha : a = u.account
      · subst ha
        rw [hrow, if_pos rfl]
        simp [written]
      · rw [if_neg ha]
        have hne : u.account ≠ a := fun h => ha h.symm
        simp [written, hne]
  -- A row that is there is updated in place, which keeps its account.
  | some old =>
      dsimp only [row?] at hrow ⊢
      have hsame : (fun row : PrivateStreamStateRow => decide (row.account = a))
          ∘ (fun row => if row.account = u.account then written u now (some old) else row)
          = fun row => decide (row.account = a) := by
        funext row
        dsimp only [Function.comp]
        split
        · next h => rw [h]; rfl
        · rfl
      rw [List.find?_map, hsame]
      by_cases ha : a = u.account
      · subst ha
        rw [hrow, if_pos rfl, Option.map_some]
        have hold : old.account = u.account := by simpa using List.find?_some hrow
        rw [if_pos hold]
      · rw [if_neg ha]
        cases hfind : s.find? (fun row => row.account = a) with
        | none => rfl
        | some row =>
            have hrow : row.account = a := by simpa using List.find?_some hfind
            rw [Option.map_some, if_neg (hrow ▸ ha)]

/-- A stream that is disconnected after a write was so before, or the write
disconnects it. -/
theorem Connected.setPrivateStreamState {u : StreamState} {now : Int} {s : Streams} {a : Account}
    (h : s.Connected a) (hu : u.connected = true ∨ a ≠ u.account) :
    (s.setPrivateStreamState u now).Connected a := by
  unfold Connected
  rw [row?_setPrivateStreamState]
  split
  · next ha => exact ⟨_, rfl, hu.resolve_right (fun hne => hne ha)⟩
  · exact h

end Streams

/-! ## §2. The system. -/

/-- The world of the worker, with the stream states. -/
structure StreamWorld where
  world : World
  streams : Streams

/-- What the other actors do. -/
inductive StreamAct where
  | other (a : Act)
  /-- A connect, a disconnect, or a heartbeat with what it has read before. -/
  | setState (u : StreamState)
  /-- The worker process starts again. -/
  | reset

/-- A disconnect looks at the control row. -/
def StreamAct.apply : StreamAct → StreamWorld → StreamWorld
  | .other a, w => { w with world := a.apply w.world }
  | .setState u, w => {
      world := if u.connected then w.world else (Act.control .streamDisconnected).apply w.world
      streams := w.streams.setPrivateStreamState u w.world.now }
  | .reset, w => { w with streams := w.streams.resetPrivateStreamStates }

def StreamAct.isPossible (w : StreamWorld) : StreamAct → Prop
  | .other a => a.isPossible w.world
  | _ => True

/-- The answers that come from the shared tables: the stream states, and the
default accounts. -/
def Answers (defaults : List Account) (w : StreamWorld) : (o : Op) → Rep o → Prop
  | .out (.privateStreamReady a), .ok ready => ready = w.streams.privateStreamReady a w.world.now
  | .out .listCredentials, .ok summaries =>
      (summaries.filter (·.isDefault)).map (·.account) = defaults
  | _, _ => True

/-- The worker, with these default accounts, among the streams. -/
def streamSystem (defaults : List Account) : System Op Rep StreamAct StreamWorld where
  exec := fun o w r w' => exec o w.world r w'.world ∧ w'.streams = w.streams ∧ Answers defaults w o r
  env := fun a w w' => a.isPossible w ∧ w' = a.apply w
  idle := fun w => { w with world := system.idle w.world }

/-- Nothing has been planned or connected yet, and the control state is not
`ready`. -/
structure StreamInitial (w : StreamWorld) : Prop where
  world : Initial w.world
  control : ¬w.world.control.Ready
  streams : w.streams = []

abbrev StreamConfig : Type := Config Op Rep Exc Result StreamWorld

abbrev StreamReachable (defaults : List Account)
    (allow : StreamWorld → Label Op Rep StreamAct → Prop) : StreamConfig → Prop :=
  (streamSystem defaults).Reach runOnce StreamInitial allow

variable {defaults : List Account}

/-- Without the streams it is the worker's system. -/
theorem stream_projects : System.Projects (streamSystem defaults) system StreamWorld.world where
  act := by
    rintro a w w' ⟨hp, rfl⟩
    cases a with
    | other a => exact .single ⟨a, hp, rfl⟩
    | setState u =>
        show system.Drift w.world (if u.connected then _ else _)
        split
        · exact .refl
        · exact .single ⟨.control .streamDisconnected, trivial, rfl⟩
    | reset => exact .refl
  call := fun o w r w' h => h.1
  idle := fun w => rfl

/-! ## §3. Ready means connected. -/

/-- No default account is disconnected after the worker's last look at its stream
and before the write that follows, and the worker does not start again while
`ready` or in that window. -/
def StreamsTimely (defaults : List Account) (w : StreamWorld) : Label Op Rep StreamAct → Prop
  | .act (.setState u) => u.connected = false → u.account ∈ defaults →
      w.world.pass.stage = .deciding → u.account ∉ w.world.pass.streaming
  | .act .reset => ¬w.world.control.Ready ∧ w.world.pass.stage ≠ .deciding
  | _ => True

instance (defaults : List Account) (w : StreamWorld) (l : Label Op Rep StreamAct) :
    Decidable (StreamsTimely defaults w l) :=
  match l with
  | .act (.setState _) => inferInstanceAs (Decidable (_ → _ → _ → _))
  | .act .reset => inferInstanceAs (Decidable (_ ∧ _))
  | .act (.other _) | .start | .call .. | .finish | .crash => inferInstanceAs (Decidable True)

/-- What every allowed step keeps. -/
structure Watched (defaults : List Account) (w : StreamWorld) : Prop where
  ready : w.world.control.Ready → ∀ a ∈ defaults, w.streams.Connected a
  found : w.world.pass.stage = .deciding → ∀ a ∈ w.world.pass.streaming, a ∈ defaults →
    w.streams.Connected a
  listed : w.world.pass.listed = [] ∨ w.world.pass.listed = defaults

/-- A step that leaves the streams alone, does not make the execution ready and
finds no stream ready. -/
theorem Watched.of_frame {w w' : StreamWorld} (h : Watched defaults w)
    (hstreams : w'.streams = w.streams)
    (hready : w'.world.control.Ready → w.world.control.Ready)
    (hfound : w'.world.pass.stage = .deciding → ∀ a ∈ w'.world.pass.streaming,
      w.world.pass.stage = .deciding ∧ a ∈ w.world.pass.streaming)
    (hlisted : w'.world.pass.listed = w.world.pass.listed ∨ w'.world.pass.listed = []
      ∨ w'.world.pass.listed = defaults) : Watched defaults w' where
  ready := by
    rw [hstreams]
    exact fun hr => h.ready (hready hr)
  found := by
    rw [hstreams]
    intro hstage a ha hd
    obtain ⟨hstage', ha'⟩ := hfound hstage a ha
    exact h.found hstage' a ha' hd
  listed := by
    rcases hlisted with heq | hlisted
    · rw [heq]
      exact h.listed
    · exact hlisted

/-- A pause is not `ready`. -/
theorem Control.Paused.not_ready {c : Control} (h : c.Paused) : ¬c.Ready := by
  obtain ⟨row, hrow, hstate⟩ := h
  rintro ⟨row', hrow', hstate'⟩
  cases hrow.symm.trans hrow'
  rw [hstate] at hstate'
  cases hstate'

/-- A transaction never makes the execution ready. -/
theorem Effect.ready {o : TradeOp} {l l' : Ledger} (h : Effect o l l')
    (hr : Control.Ready l'.control) : Control.Ready l.control := by
  rcases h.control with heq | hpaused
  · rw [← heq]
    exact hr
  · exact absurd hr (Control.Paused.not_ready hpaused)

/-- No act of others makes the control ready. -/
theorem Act.ready {a : Act} {w : World} (hb : Paired.Reachable w.books)
    (hr : (a.apply w).control.Ready) : w.control.Ready := by
  cases a with
  | clock now => exact hr
  | control op => exact ControlOp.apply_ready hr
  | trade o => exact Effect.ready (transact_effect hb rfl : Effect o w.ledger _) hr

/-- After a disconnect the execution is not ready. -/
theorem streamDisconnected_not_ready (c : Control) : ¬(Control.streamDisconnected c).Ready := by
  rintro ⟨row, hrow, hstate⟩
  cases c with
  | none => cases hrow
  | some old =>
      simp only [Control.streamDisconnected] at hrow
      split at hrow <;> cases hrow
      · cases hstate
      · next hne => exact hne hstate

/-- The step lemma for the events of a stream. -/
theorem Watched.setState {w : StreamWorld} {u : StreamState} (h : Watched defaults w)
    (ha : StreamsTimely defaults w (.act (.setState u))) :
    Watched defaults ((StreamAct.setState u).apply w) := by
  cases hu : u.connected with
  | true =>
      simp only [StreamAct.apply, hu, if_true]
      exact ⟨fun hr a hd => (h.ready hr a hd).setPrivateStreamState (.inl hu),
        fun hs a hf hd => (h.found hs a hf hd).setPrivateStreamState (.inl hu), h.listed⟩
  | false =>
      simp only [StreamAct.apply, hu]
      refine ⟨fun hr => absurd hr (streamDisconnected_not_ready _), fun hs a hf hd => ?_, h.listed⟩
      refine (h.found hs a hf hd).setPrivateStreamState (.inr ?_)
      rintro rfl
      exact ha hu hd hs hf

/-- For all that others do. -/
theorem Watched.act {a : StreamAct} {w : StreamWorld} (h : Watched defaults w)
    (hb : Paired.Reachable w.world.books) (ha : StreamsTimely defaults w (.act a)) :
    Watched defaults (a.apply w) := by
  cases a with
  | other a =>
      have hpass := (Act.apply_pass a w.world).1
      refine h.of_frame rfl (fun hr => Act.ready hb hr) (fun hs x hx => ?_) (.inl ?_)
      · rw [show ((StreamAct.other a).apply w).world.pass = w.world.pass from hpass] at hs hx
        exact ⟨hs, hx⟩
      · exact congrArg Pass.listed hpass
  | setState u => exact h.setState ha
  | reset => exact ⟨fun hr => absurd hr ha.1, fun hs => absurd hs ha.2, h.listed⟩

/-- An answer about anything but the streams and the accounts. -/
theorem heard_frame {o : OutOp} (hs : ∀ a, o ≠ .privateStreamReady a) (hl : o ≠ .listCredentials)
    (p : Pass) (r : Except Exc o.Answer) :
    ((p.heard o r).stage = .deciding →
        p.stage = .deciding ∧ (p.heard o r).streaming = p.streaming)
      ∧ ((p.heard o r).listed = p.listed ∨ (p.heard o r).listed = []) := by
  unfold Pass.heard
  split
  · exact ⟨fun h => (by cases h), .inr rfl⟩
  · exact absurd rfl hl
  · split <;> exact ⟨fun h => ⟨h, rfl⟩, .inl rfl⟩
  · split <;> exact ⟨fun h => ⟨h, rfl⟩, .inl rfl⟩
  · next a _ => exact absurd rfl (hs a)
  · exact ⟨fun h => ⟨h, rfl⟩, .inl rfl⟩

/-- The answer about a stream is what the table says. -/
theorem Watched.streamReady {w w' : StreamWorld} {a : Account} {r : Except Exc Bool}
    (h : Watched defaults w) (hstreams : w'.streams = w.streams)
    (hw : w'.world = { w.world with
      pass := w.world.pass.heard (.privateStreamReady a) r
      hand := w.world.hand.heard (.privateStreamReady a) r })
    (hans : Answers defaults w (.out (.privateStreamReady a)) r) : Watched defaults w' := by
  have hsame : ∀ q : Pass, q = w.world.pass → w'.world.pass = q → Watched defaults w' := by
    rintro q rfl hq
    refine h.of_frame hstreams (fun hr => ?_) (fun hs x hx => ?_) (.inl (by rw [hq]))
    · rw [hw] at hr
      exact hr
    · rw [hq] at hs hx
      exact ⟨hs, hx⟩
  have hpass : w'.world.pass = w.world.pass.heard (.privateStreamReady a) r := by rw [hw]
  cases r with
  -- No answer, so nothing is noted.
  | error e => exact hsame _ rfl hpass
  | ok ready =>
      have hheard : w.world.pass.heard (.privateStreamReady a) (.ok ready)
          = if w.world.pass.stage = .deciding ∧ ready then
              { w.world.pass with streaming := a :: w.world.pass.streaming }
            else w.world.pass := rfl
      rw [hheard] at hpass
      -- Noted while deciding: the stream is connected in the table.
      by_cases hc : w.world.pass.stage = .deciding ∧ ready = true
      · rw [if_pos hc] at hpass
        have hready : ready = w.streams.privateStreamReady a w.world.now := hans
        refine ⟨fun hr => ?_, fun hs x hx hd => ?_, ?_⟩
        · rw [hstreams]
          rw [hw] at hr
          exact h.ready hr
        · rw [hstreams]
          rw [hpass] at hx
          rcases List.mem_cons.mp hx with rfl | hx
          · exact Streams.connected_of_ready (hready.symm.trans hc.2)
          · exact h.found hc.1 x hx hd
        · rw [hpass]
          exact h.listed
      · -- Not noted otherwise.
        rw [if_neg hc] at hpass
        exact hsame _ rfl hpass

/-- The answer about the accounts lists the default ones. -/
theorem Watched.listCredentials {w w' : StreamWorld} {r : Except Exc (List CredentialSummary)}
    (h : Watched defaults w) (hstreams : w'.streams = w.streams)
    (hw : w'.world = { w.world with
      pass := w.world.pass.heard .listCredentials r
      hand := w.world.hand.heard .listCredentials r })
    (hans : Answers defaults w (.out .listCredentials) r) : Watched defaults w' := by
  have hready : w'.world.control.Ready → w.world.control.Ready := by
    rw [hw]
    exact id
  have hpass : w'.world.pass = w.world.pass.heard .listCredentials r := by rw [hw]
  cases r with
  | error e =>
      refine h.of_frame hstreams hready (fun hs x hx => ?_) (.inl (by rw [hpass]; rfl))
      rw [hpass] at hs hx
      exact ⟨hs, hx⟩
  | ok summaries =>
      refine h.of_frame hstreams hready (fun hs x hx => ?_) (.inr (.inr ?_))
      · rw [hpass] at hs hx
        refine ⟨?_, hx⟩
        simp only [Pass.heard] at hs
        split at hs
        · cases hs
        · exact hs
      · rw [hpass]
        exact hans

/-- For a look, which leaves the streams and the control. -/
theorem Watched.query {w w' : StreamWorld} {q : Query} (h : Watched defaults w)
    (hstreams : w'.streams = w.streams)
    (hw : w'.world = { w.world with
      pass := w.world.pass.looked q (q.eval w.world.ledger), hand := w.world.hand.looked q }) :
    Watched defaults w' := by
  have hpass : w'.world.pass = w.world.pass.looked q (q.eval w.world.ledger) := by rw [hw]
  refine h.of_frame hstreams (by rw [hw]; exact id) (fun hs x hx => ?_) ?_
  · rw [hpass] at hs hx
    cases q with
    -- A query leaves the stage it came from, or enters none that depends on streams.
    | executionControl reader =>
        cases reader with
        | opening => cases hx
        | closing => cases hx
        | lateCompensator =>
            simp only [Pass.looked] at hs hx
            split at hs
            · cases hs
            · next hne => exact ⟨hs, by simpa [hs] using hx⟩
        | executor => exact ⟨hs, hx⟩
        | compensator => exact ⟨hs, hx⟩
    -- Exposures are looked at while checking, and change no stage.
    | pairedPerpExposures a =>
        simp only [Pass.looked] at hs hx
        split at hs
        · next hc =>
            rw [if_pos hc] at hx
            exact ⟨hs, hx⟩
        · next hc =>
            rw [if_neg hc] at hx
            exact ⟨hs, hx⟩
    | _ => exact ⟨hs, hx⟩
  · -- It leaves the list of accounts, or begins the pass anew.
    rw [hpass]
    cases q with
    | executionControl reader =>
        cases reader with
        | opening => exact .inr (.inl rfl)
        | lateCompensator =>
            refine .inl ?_
            simp only [Pass.looked]
            split <;> rfl
        | _ => exact .inl rfl
    | pairedPerpExposures a =>
        refine .inl ?_
        simp only [Pass.looked]
        split <;> rfl
    | _ => exact .inl rfl

/-- `ready` is published after all streams were found ready. -/
theorem Watched.setControl {w w' : StreamWorld} {state : ControlState} {reason : String}
    (h : Watched defaults w) (hstreams : w'.streams = w.streams)
    (hguard : ControlGuard state w.world.pass)
    (hw : w'.world = { w.world with
      books := writeControl (Control.setExecutionControl state reason w.world.control) w.world.books
      pass := w.world.pass.controlled }) : Watched defaults w' := by
  have hpass : w'.world.pass = w.world.pass.controlled := by rw [hw]
  refine ⟨fun hr a hd => ?_, fun hs => ?_, ?_⟩
  · rw [hw] at hr
    obtain ⟨row, hrow, hstate⟩ := hr
    cases hrow
    cases (show state = .ready from hstate)
    obtain ⟨hstage, hne, hall⟩ := hguard
    have hlisted := h.listed.resolve_left hne
    rw [hstreams]
    exact h.found hstage a (hall a (hlisted ▸ hd)).2 hd
  · rw [hpass] at hs
    simp only [Pass.controlled] at hs
    split at hs <;> cases hs
  · rw [hpass]
    exact h.listed

/-- And for the calls of the worker: it writes `ready` only with every stream
connected. -/
theorem Watched.call {o : Op} {w w' : StreamWorld} {r : Rep o} (h : Watched defaults w)
    (hs : Sound w.world) (hpre : Pre o w.world) (he : (streamSystem defaults).exec o w r w') :
    Watched defaults w' := by
  obtain ⟨he, hstreams, hans⟩ := he
  cases o with
  -- A transaction writes neither streams nor `ready`.
  | trade o =>
      have hw : w'.world = (w.world.traded o).2 := by
        rw [show w.world.traded o = (r, w'.world) from he]
      have hpass : w'.world.pass = w.world.pass := by
        rw [hw]
        rfl
      have heffect : Effect o w.world.ledger w'.world.ledger := by
        rw [hw]
        exact transact_effect hs.reachable rfl
      refine h.of_frame hstreams (Effect.ready heffect) (fun hd x hx => ?_) (.inl (by rw [hpass]))
      rw [hpass] at hd hx
      exact ⟨hd, hx⟩
  | query q =>
      obtain ⟨rfl, hw⟩ := he
      exact h.query hstreams hw
  -- The control is written by the pass alone.
  | setControl state reason => exact h.setControl hstreams hpre he
  | out o =>
      cases o with
      -- Of the answers only those about streams and accounts are noted.
      | placeLimitIoc a order =>
          obtain ⟨arrives, hw⟩ := he
          refine h.of_frame hstreams (by rw [hw]; exact id) (fun hd x hx => ?_) (.inl (by rw [hw]; rfl))
          rw [hw] at hd hx
          exact ⟨hd, hx⟩
      | privateStreamReady a => exact h.streamReady hstreams he hans
      | listCredentials => exact h.listCredentials hstreams he hans
      | _ =>
          have hw : w'.world = { w.world with
            pass := w.world.pass.heard _ r, hand := w.world.hand.heard _ r } := he
          obtain ⟨hfound, hlisted⟩ := heard_frame (fun a h => (by cases h)) (fun h => (by cases h))
            w.world.pass r
          refine h.of_frame hstreams (by rw [hw]; exact id) (fun hd x hx => ?_) ?_
          · rw [hw] at hd hx
            obtain ⟨hd', hsame⟩ := hfound hd
            exact ⟨hd', hsame ▸ hx⟩
          · rw [hw]
            exact hlisted.imp_right .inl

/-- While the execution is `ready`, every default account is connected, in runs in
which no default account is disconnected behind the worker's back. -/
theorem ready_connected {s : StreamConfig}
    (hs : StreamReachable defaults (StreamsTimely defaults) s) (hready : s.world.world.control.Ready) :
    ∀ a ∈ defaults, s.world.streams.Connected a := by
  have h : Watched defaults s.world := by
    refine System.Reach.history stream_projects preserves (fun _ => sound_of_initial)
      (fun _ => runOnce_guarded) (fun _ h => h.world) (fun w hw => ?_) ?_ ?_ ?_ hs
    · refine ⟨fun hr => absurd hr hw.control, fun hd => ?_, .inl ?_⟩
      · rw [hw.world.pass] at hd
        cases hd
      · rw [hw.world.pass]
    · rintro a w w' ⟨hp, rfl⟩ ha hsound hJ
      exact hJ.act hsound.reachable ha
    · intro o w r w' he _ hpre hsound hJ
      exact hJ.call hsound hpre he
    · intro w hJ
      exact ⟨hJ.ready, fun hd => (by cases hd), .inl rfl⟩
  exact h.ready hready

/-! ## §4. Concrete runs. -/

namespace Sample

/-- The answers of a pass; the tables answer for the streams. -/
def streamAnswers (v : Outside) : (o : Op) → StreamWorld → Rep o × StreamWorld
  | .out (.privateStreamReady a), w =>
      let r : Except Exc Bool := .ok (w.streams.privateStreamReady a w.world.now)
      (r, { w with world := { w.world with
        pass := w.world.pass.heard (.privateStreamReady a) r
        hand := w.world.hand.heard (.privateStreamReady a) r } })
  | o, w =>
      let r := answers v o w.world
      (r.1, { w with world := r.2 })

/-- The sample answers are answers that the worker can get. -/
theorem exec_streamAnswers (v : Outside) (o : Op) (w : StreamWorld) :
    (streamSystem v.accounts).exec o w (streamAnswers v o w).1 (streamAnswers v o w).2 := by
  cases o with
  | out o =>
      cases o with
      | privateStreamReady a => exact ⟨rfl, rfl, rfl⟩
      | listCredentials =>
          refine ⟨rfl, rfl, ?_⟩
          show ((v.accounts.map fun a => (⟨a, true⟩ : CredentialSummary)).filter (·.isDefault)).map
            (·.account) = v.accounts
          simp [List.filter_map, Function.comp_def]
      | placeLimitIoc a order => exact ⟨⟨true, rfl⟩, rfl, trivial⟩
      | _ => exact ⟨rfl, rfl, trivial⟩
  | trade o => exact ⟨rfl, rfl, trivial⟩
  | query q => exact ⟨⟨rfl, rfl⟩, rfl, trivial⟩
  | setControl state reason => exact ⟨rfl, rfl, trivial⟩

/-- Before the first pass ever. -/
def fresh : StreamWorld := ⟨⟨⟨⟨none, [], [], [], [], [], 0⟩, []⟩, 0, {}, {}, {}⟩, []⟩

/-- The account's stream is connected. -/
def connected : StreamWorld := (StreamAct.setState (.connect account true true true)).apply fresh

/-- A pass up to its last write of the control state. -/
def publishing : StreamConfig :=
  System.play (streamAnswers calm) (fun o => o matches .setControl .ready _) runOnce connected

/-- The same pass after that write. -/
def published (c : StreamConfig) : StreamConfig :=
  System.resume (streamAnswers calm) (fun o => o matches .out (.elsewhere .automaticTrader)) c

/-- The account's stream is disconnected. -/
def disconnected (c : StreamConfig) : StreamConfig :=
  { c with world := (StreamAct.setState (.disconnect account)).apply c.world }

variable {allow : StreamWorld → Label Op Rep StreamAct → Prop}

theorem runsTo_setState (u : StreamState) (c : StreamConfig)
    (ha : allow c.world (.act (.setState u))) : (streamSystem [account]).Run runOnce allow c
      { c with world := (StreamAct.setState u).apply c.world } := by
  have h : (streamSystem [account]).env (.setState u) c.world ((StreamAct.setState u).apply c.world) :=
    ⟨trivial, rfl⟩
  exact System.Run.act h ha

variable [∀ w l, Decidable (allow w l)]

theorem reached_publishing (hconnect : allow fresh (.act (.setState (.connect account true true true))))
    (hstart : allow connected .start)
    (hf : System.follows (streamAnswers calm) (fun o => o matches .setControl .ready _) allow
      runOnce connected) : StreamReachable [account] allow publishing := by
  have hfresh : StreamReachable [account] allow ⟨fresh, none⟩ :=
    .init ⟨⟨⟨rfl, rfl, rfl, rfl, rfl⟩, rfl, rfl, rfl, rfl⟩, by decide, rfl⟩
  exact System.Reach.run hfresh (.trans (runsTo_setState _ _ hconnect)
    (System.Run.pass (exec_streamAnswers calm) hstart hf))

end Sample

/-- The account that was connected is so when the execution becomes ready. -/
theorem ready_connected_published :
    ∃ s, StreamReachable [Sample.account] (StreamsTimely [Sample.account]) s
      ∧ s.world.world.control.Ready ∧ ∀ a ∈ [Sample.account], s.world.streams.Connected a := by
  have hs : StreamReachable [Sample.account] (StreamsTimely [Sample.account])
      (Sample.published Sample.publishing) :=
    System.Reach.run (Sample.reached_publishing (by decide) trivial (by decide))
      (System.Run.resume (Sample.exec_streamAnswers Sample.calm) (by decide))
  have hready : (Sample.published Sample.publishing).world.world.control.Ready := by decide
  exact ⟨_, hs, hready, ready_connected hs hready⟩

/-- A stream that is disconnected between the worker's last look and its write is
found neither by the worker nor by the disconnect. -/
theorem ready_disconnected :
    ¬∀ defaults s, StreamReachable defaults System.anyStep s → s.world.world.control.Ready →
      ∀ a ∈ defaults, s.world.streams.Connected a := by
  intro h
  have hs : StreamReachable [Sample.account] System.anyStep
      (Sample.published (Sample.disconnected Sample.publishing)) :=
    System.Reach.run
      (System.Reach.run (Sample.reached_publishing trivial trivial (by decide))
        (Sample.runsTo_setState _ _ trivial))
      (System.Run.resume (Sample.exec_streamAnswers Sample.calm) (by decide))
  have hlost : ¬(Sample.published (Sample.disconnected Sample.publishing)).world.streams.Connected
      Sample.account := by decide
  exact hlost (h _ _ hs (by decide) _ (List.mem_singleton_self _))

end BasisHawk.Reconciliation
