/-
  BasisHawk.Lib.Sessions
  ──────────────────────
  Transactions at the isolation level READ COMMITTED.

  A session collects its writes, reads the committed tables through them, and
  holds the row locks of its locking queries and the unique keys of the rows it
  has flushed until it ends.  Another session that wants one of these waits;
  a flush of a unique key that is stored already violates the constraint.

  The tables do not tell who has written them, so the shared state also records
  who has committed last.  No statement reads that; it is there for the proofs.

  §3 is about requests of which only one can come to store its rows: every one
  that commits holds the same lock or unique key, its gate.

  Main results:
    • `exec_session`, `exec_data` — what a statement leaves alone,
    • `Exclusive.exec` — no lock and no key is ever held twice,
    • `preserves` — the tables are the first ones or those that one request has
      left behind,
    • `stable_undisturbed` — nobody commits while a request holds a gate,
    • `goal_known`, `goal_open`, `goal_commit` — the rules for one statement of
      such a request,
    • `goal_alone` — once it holds a gate, it runs as it would alone.
-/
import BasisHawk.Lib.Requests
import Mathlib.Data.Fintype.Basic

namespace BasisHawk.Lib

/-- The tables `D` as sessions use them. -/
structure Schema (Query : Type) (Ans : Query → Type) (D Lock Key Write : Type) where
  /-- What a query answers. -/
  ask : (q : Query) → D → Ans q
  /-- The row locks `SELECT … FOR UPDATE` takes. -/
  locks : Query → D → List Lock
  /-- The unique keys of the rows a write inserts. -/
  claims : Write → List Key
  /-- The unique keys of the stored rows. -/
  keys : D → List Key
  /-- What a write does to the tables. -/
  apply : Write → D → D

/-- The statements of a session. -/
inductive Stmt (Query Write : Type) where
  | select (q : Query)
  | selectForUpdate (q : Query)
  | flush (w : Write)
  | commit
  | rollback

/-- What a statement replies: a flush, whether no constraint was violated. -/
@[reducible] def Stmt.Rep {Query : Type} (Ans : Query → Type) {Write : Type} :
    Stmt Query Write → Type
  | .select q => Ans q
  | .selectForUpdate q => Ans q
  | .flush _ => Bool
  | .commit => Unit
  | .rollback => Unit

/-- An open transaction. -/
structure Session (Lock Key Write : Type) where
  locks : List Lock
  claims : List Key
  writes : List Write

/-- A session that has not begun a transaction. -/
def Session.closed {Lock Key Write : Type} : Session Lock Key Write := ⟨[], [], []⟩

/-- The session holds the lock or the unique key. -/
def Session.Holds {Lock Key Write : Type} (s : Session Lock Key Write) : Lock ⊕ Key → Prop
  | .inl l => l ∈ s.locks
  | .inr k => k ∈ s.claims

/-- The committed tables, everybody's transaction, and who has committed last. -/
structure Shared (ι D Lock Key Write : Type) where
  data : D
  session : ι → Session Lock Key Write
  author : Option ι

/-- Nobody has begun a transaction. -/
def Shared.initial {ι D Lock Key Write : Type} (d : D) : Shared ι D Lock Key Write :=
  ⟨d, fun _ => .closed, none⟩

/-- The tables are these, and these are whose they are. -/
def Shared.At {ι D Lock Key Write : Type} (b : Shared ι D Lock Key Write) (author : Option ι) (d : D) :
    Prop :=
  b.author = author ∧ b.data = d

namespace Schema

variable {ι Query : Type} {Ans : Query → Type} {D Lock Key Write ε α : Type} [DecidableEq Key]
  (S : Schema Query Ans D Lock Key Write)

/-! ## §1. Statements. -/

/-- The tables as a session sees them. -/
def view (s : Session Lock Key Write) (d : D) : D := s.writes.foldl (fun d w => S.apply w d) d

/-- The write violates a unique constraint. -/
def conflicts (w : Write) (d : D) : Prop := ¬(S.claims w).Nodup ∨ ∃ k ∈ S.claims w, k ∈ S.keys d

instance (w : Write) (d : D) : Decidable (S.conflicts w d) := inferInstanceAs (Decidable (_ ∨ _))

/-- What a session does when nothing keeps it waiting. -/
def answer : (o : Stmt Query Write) → D × Session Lock Key Write →
    Stmt.Rep Ans o × (D × Session Lock Key Write)
  | .select q, (d, s) => (S.ask q (S.view s d), (d, s))
  | .selectForUpdate q, (d, s) =>
      (S.ask q (S.view s d), (d, { s with locks := s.locks ++ S.locks q (S.view s d) }))
  | .flush w, (d, s) =>
      if S.conflicts w (S.view s d) then (false, (d, s))
      else (true, (d, { s with claims := s.claims ++ S.claims w, writes := s.writes ++ [w] }))
  | .commit, (d, s) => ((), (S.view s d, .closed))
  | .rollback, (d, _) => ((), (d, .closed))

theorem answer_flush (w : Write) (d : D) (s : Session Lock Key Write) :
    S.answer (.flush w) (d, s)
      = if S.conflicts w (S.view s d) then (false, (d, s))
        else (true, (d, { s with claims := s.claims ++ S.claims w, writes := s.writes ++ [w] })) :=
  rfl

/-- No other session keeps the statement waiting. -/
def Unblocked (i : ι) (b : Shared ι D Lock Key Write) : Stmt Query Write → Prop
  | .selectForUpdate q =>
      ∀ l ∈ S.locks q (S.view (b.session i) b.data), ∀ j, j ≠ i → l ∉ (b.session j).locks
  | .flush w => ∀ k ∈ S.claims w, ∀ j, j ≠ i → k ∉ (b.session j).claims
  | _ => True

instance [Fintype ι] [DecidableEq ι] [DecidableEq Lock] (i : ι) (b : Shared ι D Lock Key Write)
    (o : Stmt Query Write) : Decidable (S.Unblocked i b o) :=
  match o with
  | .selectForUpdate q => inferInstanceAs (Decidable
      (∀ l ∈ S.locks q (S.view (b.session i) b.data), ∀ j, j ≠ i → l ∉ (b.session j).locks))
  | .flush w => inferInstanceAs (Decidable
      (∀ k ∈ S.claims w, ∀ j, j ≠ i → k ∉ (b.session j).claims))
  | .select _ => instDecidableTrue
  | .commit => instDecidableTrue
  | .rollback => instDecidableTrue

variable [DecidableEq ι]

/-- Who has committed last, after a statement of session `i`. -/
def authorAfter (i : ι) : Stmt Query Write → Option ι → Option ι
  | .commit, _ => some i
  | _, author => author

/-- What a statement of session `i` makes of the shared state. -/
def next (i : ι) (o : Stmt Query Write) (b : Shared ι D Lock Key Write) :
    Shared ι D Lock Key Write where
  data := (S.answer o (b.data, b.session i)).2.1
  session := Function.update b.session i (S.answer o (b.data, b.session i)).2.2
  author := authorAfter i o b.author

/-- The statements of all sessions, on shared tables. -/
def requests (ι : Type) [DecidableEq ι] :
    Requests ι (Stmt Query Write) (Stmt.Rep Ans) (Shared ι D Lock Key Write) where
  exec i o b r b' :=
    S.Unblocked i b o ∧ (S.answer o (b.data, b.session i)).1 = r ∧ b' = S.next i o b

/-- The step of one session where nothing keeps it waiting and the step is
allowed. -/
def proceed [Fintype ι] [DecidableEq Lock]
    (allow : ι → Stmt Query Write → Shared ι D Lock Key Write → Prop) [∀ i o b, Decidable (allow i o b)]
    (i : ι) (o : Stmt Query Write) (b : Shared ι D Lock Key Write) :
    Option (Stmt.Rep Ans o × Shared ι D Lock Key Write) :=
  if S.Unblocked i b o ∧ allow i o b then
    some ((S.answer o (b.data, b.session i)).1, S.next i o b)
  else none

theorem proceed_exec [Fintype ι] [DecidableEq Lock]
    {allow : ι → Stmt Query Write → Shared ι D Lock Key Write → Prop} [∀ i o b, Decidable (allow i o b)]
    (i : ι) (o : Stmt Query Write) (b : Shared ι D Lock Key Write) (r : Stmt.Rep Ans o)
    (b' : Shared ι D Lock Key Write) (h : S.proceed allow i o b = some (r, b')) :
    (S.requests ι).exec i o b r b' ∧ allow i o b := by
  unfold proceed at h
  split at h
  · next hc =>
      injection h with h
      injection h with hr hb
      exact ⟨⟨hc.1, hr, hb.symm⟩, hc.2⟩
  · cases h

variable {S}

/-! ## §2. What statements leave alone. -/

section Frame

variable {i : ι} {o : Stmt Query Write} {b b' : Shared ι D Lock Key Write} {r : Stmt.Rep Ans o}

/-- A statement works on its own session. -/
theorem exec_session (h : (S.requests ι).exec i o b r b') {j : ι} (hj : j ≠ i) :
    b'.session j = b.session j := by
  rw [h.2.2]
  exact Function.update_of_ne hj ..

/-- Only a commit makes anybody the author of the tables. -/
theorem exec_author (h : (S.requests ι).exec i o b r b') (ho : o ≠ .commit) :
    b'.author = b.author := by
  rw [h.2.2]
  cases o with
  | commit => exact absurd rfl ho
  | select q => rfl
  | selectForUpdate q => rfl
  | flush w => rfl
  | rollback => rfl

/-- Only a commit changes the tables. -/
theorem exec_data (h : (S.requests ι).exec i o b r b') (ho : o ≠ .commit) : b'.data = b.data := by
  rw [h.2.2]
  cases o with
  | select q => rfl
  | selectForUpdate q => rfl
  | flush w =>
      show (S.answer (.flush w) (b.data, b.session i)).2.1 = b.data
      rw [answer_flush]
      split <;> rfl
  | commit => exact absurd rfl ho
  | rollback => rfl

/-- A commit stores what the session has written, closes it, and makes its request
the author of the tables. -/
theorem exec_commit {u : Unit} (h : (S.requests ι).exec i .commit b u b') :
    b'.data = S.view (b.session i) b.data ∧ b'.session i = .closed ∧ b'.author = some i := by
  rw [h.2.2]
  exact ⟨rfl, Function.update_self .., rfl⟩

/-- What a statement adds to the locks and keys of its session was free. -/
theorem exec_held (h : (S.requests ι).exec i o b r b') :
    (∀ l ∈ (b'.session i).locks, l ∈ (b.session i).locks ∨ ∀ j, j ≠ i → l ∉ (b.session j).locks)
      ∧ ∀ k ∈ (b'.session i).claims,
          k ∈ (b.session i).claims ∨ ∀ j, j ≠ i → k ∉ (b.session j).claims := by
  obtain ⟨hfree, -, rfl⟩ := h
  have hself : (S.next i o b).session i = (S.answer o (b.data, b.session i)).2.2 :=
    Function.update_self ..
  rw [hself]
  cases o with
  | select q => exact ⟨fun l hl => .inl hl, fun k hk => .inl hk⟩
  | selectForUpdate q =>
      refine ⟨fun l hl => ?_, fun k hk => .inl hk⟩
      rcases List.mem_append.mp hl with hold | hnew
      · exact .inl hold
      · exact .inr (hfree l hnew)
  | flush w =>
      rw [answer_flush]
      split
      · exact ⟨fun l hl => .inl hl, fun k hk => .inl hk⟩
      · refine ⟨fun l hl => .inl hl, fun k hk => ?_⟩
        rcases List.mem_append.mp hk with hold | hnew
        · exact .inl hold
        · exact .inr (hfree k hnew)
  | commit => exact ⟨fun l hl => (by cases hl), fun k hk => (by cases hk)⟩
  | rollback => exact ⟨fun l hl => (by cases hl), fun k hk => (by cases hk)⟩

/-- No lock and no unique key is held by two sessions. -/
structure Exclusive (b : Shared ι D Lock Key Write) : Prop where
  locks : ∀ i j l, l ∈ (b.session i).locks → l ∈ (b.session j).locks → i = j
  claims : ∀ i j k, k ∈ (b.session i).claims → k ∈ (b.session j).claims → i = j

omit [DecidableEq Key] [DecidableEq ι] in
theorem Exclusive.closed {d : D} :
    Exclusive (Shared.initial d : Shared ι D Lock Key Write) where
  locks := fun _ _ _ h => by cases h
  claims := fun _ _ _ h => by cases h

/-- One kind of thing held: what was held once is held once after one session
has taken only free ones. -/
theorem exclusive_update {X : Type} {held held' : ι → List X} {i : ι}
    (h : ∀ j k x, x ∈ held j → x ∈ held k → j = k) (hother : ∀ j, j ≠ i → held' j = held j)
    (hown : ∀ x ∈ held' i, x ∈ held i ∨ ∀ j, j ≠ i → x ∉ held j) :
    ∀ j k x, x ∈ held' j → x ∈ held' k → j = k := by
  have hmine : ∀ j x, j ≠ i → x ∈ held' i → x ∉ held' j := by
    intro j x hj hx hxj
    rw [hother j hj] at hxj
    rcases hown x hx with hold | hfree
    · exact hj (h j i x hxj hold)
    · exact hfree j hj hxj
  intro j k x hj hk
  by_cases hji : j = i
  · by_cases hki : k = i
    · rw [hji, hki]
    · exact absurd hk (hmine k x hki (hji ▸ hj))
  · by_cases hki : k = i
    · exact absurd hj (hmine j x hji (hki ▸ hk))
    · exact h j k x (hother j hji ▸ hj) (hother k hki ▸ hk)

theorem Exclusive.exec (hb : Exclusive b) (h : (S.requests ι).exec i o b r b') :
    Exclusive b' where
  locks := exclusive_update hb.locks (fun j hj => by rw [exec_session h hj]) (exec_held h).1
  claims := exclusive_update hb.claims (fun j hj => by rw [exec_session h hj]) (exec_held h).2

end Frame

/-! ## §3. Requests of which one stores its rows. -/

omit [DecidableEq Key] [DecidableEq ι] in
/-- A lock or key is held once. -/
theorem Exclusive.holds {b : Shared ι D Lock Key Write} (hb : Exclusive b) {i j : ι}
    {g : Lock ⊕ Key} (hi : Session.Holds (b.session i) g) (hj : Session.Holds (b.session j) g) :
    i = j := by
  cases g with
  | inl l => exact hb.locks i j l hi hj
  | inr k => exact hb.claims i j k hi hj

section Once

variable (S) (d₀ : D) (made : ι → Option D) (gates : List (Lock ⊕ Key))
  (allow : ι → Stmt Query Write → Shared ι D Lock Key Write → Prop)

/-- The tables are the first ones, or those that their author has left behind.
`made j` is what request `j` alone makes of the first ones, if it stores
anything. -/
structure Once (b : Shared ι D Lock Key Write) : Prop where
  exclusive : Exclusive b
  data : b.At none d₀ ∨ ∃ j d, made j = some d ∧ b.At (some j) d

/-- A request commits its own rows where nobody has committed, and holds every
gate. -/
def CommitsOnce (i : ι) : Stmt Query Write → Shared ι D Lock Key Write → Prop
  | .commit, b =>
      b.At none d₀ ∧ made i = some (S.view (b.session i) d₀) ∧ ∀ g ∈ gates, Session.Holds (b.session i) g
  | _, _ => True

variable {S d₀ made gates allow}

/-- What the step of another request does to the tables: nothing, unless it is the
one commit. -/
theorem commitsOnce_data {i : ι} {o : Stmt Query Write} {b b' : Shared ι D Lock Key Write}
    {r : Stmt.Rep Ans o} (h : (S.requests ι).exec i o b r b')
    (hpre : CommitsOnce S d₀ made gates i o b) :
    b'.At b.author b.data ∨ (b.At none d₀ ∧ (∃ d, made i = some d ∧ b'.At (some i) d)
      ∧ ∀ g ∈ gates, Session.Holds (b.session i) g) := by
  by_cases ho : o = .commit
  · subst ho
    obtain ⟨hd, hmade, hg⟩ := hpre
    obtain ⟨hdata, -, hauthor⟩ := exec_commit h
    rw [hd.2] at hdata
    exact .inr ⟨hd, ⟨_, hmade, hauthor, hdata⟩, hg⟩
  · exact .inl ⟨exec_author h ho, exec_data h ho⟩

/-- The invariant of such requests: there is one commit at most, and the tables are
what its request has made of the first ones. -/
theorem preserves : Requests.Preserves (S.requests ι) allow (Once d₀ made)
    (CommitsOnce S d₀ made gates) := by
  intro i o b r b' _ h hpre hI
  refine ⟨hI.exclusive.exec h, ?_⟩
  rcases commitsOnce_data h hpre with ⟨hauthor, hdata⟩ | ⟨-, ⟨d, hmade, hd⟩, -⟩
  · unfold Shared.At
    rw [hauthor, hdata]
    exact hI.data
  · exact .inr ⟨i, d, hmade, hd⟩

section Stable

variable {i : ι}

/-- The others as request `i` sees them. -/
abbrev others (S : Schema Query Ans D Lock Key Write) (d₀ : D) (made : ι → Option D)
    (gates : List (Lock ⊕ Key))
    (allow : ι → Stmt Query Write → Shared ι D Lock Key Write → Prop) (i : ι) :
    System (Stmt Query Write) (Stmt.Rep Ans) Unit (Shared ι D Lock Key Write) :=
  (S.requests ι).member allow (Once d₀ made) (CommitsOnce S d₀ made gates) i

/-- A request's own session. -/
theorem stable_session {s : Session Lock Key Write} :
    (others S d₀ made gates allow i).Stable fun b => b.session i = s := by
  intro a b b' h hs
  cases h with
  | call _ hj _ _ h => rw [exec_session h (Ne.symm hj), hs]

/-- What one request has stored stays. -/
theorem stable_made {j : ι} {d : D} :
    (others S d₀ made gates allow i).Stable fun b => b.At (some j) d := by
  intro a b b' h hs
  cases h with
  | call _ _ _ hpre h =>
      rcases commitsOnce_data h hpre with ⟨hauthor, hdata⟩ | ⟨hd, -⟩
      · exact ⟨hauthor.trans hs.1, hdata.trans hs.2⟩
      · cases hs.1.symm.trans hd.1

/-- And so stays its author, whatever the tables are. -/
theorem stable_author {j : ι} :
    (others S d₀ made gates allow i).Stable fun b => b.author = some j := fun a b b' h hs =>
  (stable_made (d := b.data) a b b' h ⟨hs, rfl⟩).1

/-- A request that has not committed knows that the rows are not its own. -/
theorem stable_notMine : (others S d₀ made gates allow i).Stable fun b => b.author ≠ some i := by
  intro a b b' h hs
  cases h with
  | call _ hj _ hpre h =>
      rcases commitsOnce_data h hpre with ⟨hauthor, -⟩ | ⟨-, ⟨_, -, hauthor, -⟩, -⟩
      · rw [hauthor]
        exact hs
      · rw [hauthor]
        exact fun heq => hj (Option.some.inj heq)

/-- Nobody commits while a request holds a gate. -/
theorem stable_undisturbed {s : Session Lock Key Write} {g : Lock ⊕ Key} (hg : g ∈ gates)
    (hs : Session.Holds s g) :
    (others S d₀ made gates allow i).Stable fun b => b.session i = s ∧ b.At none d₀ := by
  intro a b b' h hb
  refine ⟨stable_session a b b' h hb.1, ?_⟩
  cases h with
  | call hI hj _ hpre h =>
      rcases commitsOnce_data h hpre with ⟨hauthor, hdata⟩ | ⟨-, -, hheld⟩
      · exact ⟨hauthor.trans hb.2.1, hdata.trans hb.2.2⟩
      · refine absurd (hI.exclusive.holds (hheld g hg) ?_) hj
        rw [hb.1]
        exact hs

/-- Nor does a request's own session change. -/
theorem stable_known {s : Session Lock Key Write} {j : ι} {d : D} :
    (others S d₀ made gates allow i).Stable fun b => b.session i = s ∧ b.At (some j) d :=
  fun a b b' h hb => ⟨stable_session a b b' h hb.1, stable_made a b b' h hb.2⟩

end Stable

/-! ## §4. Rules for such a request. -/

section Rules

variable {i : ι} {o : Stmt Query Write} {k : Stmt.Rep Ans o → Prog (Stmt Query Write) (Stmt.Rep Ans) ε α}
  {Q : Except ε α → Shared ι D Lock Key Write → Prop} {b : Shared ι D Lock Key Write}
  {s : Session Lock Key Write} {author : Option ι} {d : D}

/-- The guarantee request `i` works under. -/
abbrev goal (S : Schema Query Ans D Lock Key Write) (d₀ : D) (made : ι → Option D)
    (gates : List (Lock ⊕ Key))
    (allow : ι → Stmt Query Write → Shared ι D Lock Key Write → Prop) (i : ι)
    (p : Prog (Stmt Query Write) (Stmt.Rep Ans) ε α)
    (Q : Except ε α → Shared ι D Lock Key Write → Prop) (b : Shared ι D Lock Key Write) : Prop :=
  (others S d₀ made gates allow i).wp (Once d₀ made) (CommitsOnce S d₀ made gates i) p Q b

omit [DecidableEq Key] [DecidableEq ι] in
theorem commitsOnce_of_ne (ho : o ≠ .commit) : CommitsOnce S d₀ made gates i o b := by
  cases o with
  | commit => exact absurd rfl ho
  | select q => trivial
  | selectForUpdate q => trivial
  | flush w => trivial
  | rollback => trivial

/-- What a statement that is no commit replies and leaves of its session. -/
theorem exec_spec {b' : Shared ι D Lock Key Write} {r : Stmt.Rep Ans o}
    (h : (S.requests ι).exec i o b r b') (ho : o ≠ .commit) (hs : b.session i = s)
    (hd : b.data = d) :
    r = (S.answer o (d, s)).1 ∧ b'.session i = (S.answer o (d, s)).2.2 ∧ b'.data = d := by
  have hdata := exec_data h ho
  obtain ⟨-, hr, rfl⟩ := h
  rw [hs, hd] at hr
  refine ⟨hr.symm, ?_, hdata.trans hd⟩
  show Function.update b.session i (S.answer o (b.data, b.session i)).2.2 i = _
  rw [Function.update_self, hs, hd]

/-- The rule for a statement where the tables are known. -/
theorem goal_known
    (hstable : (others S d₀ made gates allow i).Stable fun b => b.session i = s ∧ b.At author d)
    (ho : o ≠ .commit) (hb : b.session i = s ∧ b.At author d)
    (hnext : ∀ b', b'.session i = (S.answer o (d, s)).2.2 → b'.At author d →
      goal S d₀ made gates allow i (k (S.answer o (d, s)).1) Q b') :
    goal S d₀ made gates allow i (.call o k) Q b := by
  refine System.wp_call_of_stable hstable hb (fun b _ _ => commitsOnce_of_ne ho) ?_
  intro b₁ r b' _ hb₁ h _
  obtain ⟨rfl, hs', hd'⟩ := exec_spec h.2 ho hb₁.1 hb₁.2.2
  exact hnext b' hs' ⟨(exec_author h.2 ho).trans hb₁.2.1, hd'⟩

/-- The rule for a statement before the request holds a gate: another one may
have stored its rows. -/
theorem goal_open (ho : o ≠ .commit) (hb : b.session i = s ∧ b.author ≠ some i)
    (hfirst : ∀ b₁ b', allow i o b₁ → b₁.At none d₀ → b'.session i = (S.answer o (d₀, s)).2.2 →
      b'.At none d₀ → goal S d₀ made gates allow i (k (S.answer o (d₀, s)).1) Q b')
    (hother : ∀ j d b₁ b', j ≠ i → made j = some d → allow i o b₁ → b₁.At (some j) d →
      b'.session i = (S.answer o (d, s)).2.2 → b'.At (some j) d →
      goal S d₀ made gates allow i (k (S.answer o (d, s)).1) Q b') :
    goal S d₀ made gates allow i (.call o k) Q b := by
  have hstable : (others S d₀ made gates allow i).Stable
      fun b => b.session i = s ∧ b.author ≠ some i :=
    fun a b b' h hb => ⟨stable_session a b b' h hb.1, stable_notMine a b b' h hb.2⟩
  refine System.wp_call_of_stable hstable hb (fun b _ _ => commitsOnce_of_ne ho) ?_
  intro b₁ r b' hI hb₁ h _
  have hauthor := exec_author h.2 ho
  rcases hI.data with hd | ⟨j, d, hmade, hd⟩
  · obtain ⟨rfl, hs', hd'⟩ := exec_spec h.2 ho hb₁.1 hd.2
    exact hfirst b₁ b' h.1 hd hs' ⟨hauthor.trans hd.1, hd'⟩
  · have hj : j ≠ i := fun hj => hb₁.2 (hj ▸ hd.1)
    obtain ⟨rfl, hs', hd'⟩ := exec_spec h.2 ho hb₁.1 hd.2
    exact hother j d b₁ b' hj hmade h.1 hd hs' ⟨hauthor.trans hd.1, hd'⟩

/-- The rule for the commit of a request's own rows. -/
theorem goal_commit {k : Unit → Prog (Stmt Query Write) (Stmt.Rep Ans) ε α} {g : Lock ⊕ Key}
    (hg : g ∈ gates) (hheld : ∀ g ∈ gates, Session.Holds s g) (hmade : made i = some (S.view s d₀))
    (hb : b.session i = s ∧ b.At none d₀)
    (hnext : ∀ b', b'.session i = .closed → b'.At (some i) (S.view s d₀) →
      goal S d₀ made gates allow i (k ()) Q b') :
    goal S d₀ made gates allow i (.call .commit k) Q b := by
  refine System.wp_call_of_stable (stable_undisturbed hg (hheld g hg)) hb ?_ ?_
  · intro b₁ _ hb₁
    refine ⟨hb₁.2, ?_, ?_⟩
    · rw [hb₁.1]
      exact hmade
    · rw [hb₁.1]
      exact hheld
  · intro b₁ r b' _ hb₁ h _
    obtain ⟨hdata, hclosed, hauthor⟩ := exec_commit h.2
    refine hnext b' hclosed ⟨hauthor, ?_⟩
    rw [hdata, hb₁.1, hb₁.2.2]

/-- What the request answers when it is alone. -/
def alone (S : Schema Query Ans D Lock Key Write) (d : D) (s : Session Lock Key Write)
    (p : Prog (Stmt Query Write) (Stmt.Rep Ans) ε α) : Except ε α :=
  (p.run S.answer (d, s)).1

@[simp] theorem alone_done {r : Except ε α} : alone S d s (.done r) = r := rfl

/-- Alone, a statement that is no commit is answered from the same tables. -/
theorem alone_call (ho : o ≠ .commit) :
    alone S d s (.call o k) = alone S d (S.answer o (d, s)).2.2 (k (S.answer o (d, s)).1) := by
  have hd : (S.answer o (d, s)).2.1 = d := by
    cases o with
    | commit => exact absurd rfl ho
    | select q => rfl
    | selectForUpdate q => rfl
    | flush w =>
        rw [answer_flush]
        split <;> rfl
    | rollback => rfl
  show ((k (S.answer o (d, s)).1).run S.answer (S.answer o (d, s)).2).1 = _
  rw [show (S.answer o (d, s)).2 = (d, (S.answer o (d, s)).2.2) from Prod.ext hd rfl]
  rfl

end Rules

/-! ## §5. Requests that run as they would alone. -/

section Ends

variable {i : ι} {d : D} {s : Session Lock Key Write}

/-- The statement keeps the transaction open. -/
def Keeps : Stmt Query Write → Prop
  | .commit => False
  | .rollback => False
  | _ => True

/-- What a session holds it holds until its end. -/
theorem holds_answer {o : Stmt Query Write} (ho : Keeps o) {g : Lock ⊕ Key} (hs : s.Holds g) :
    Session.Holds (S.answer o (d, s)).2.2 g := by
  cases o with
  | select q => exact hs
  | selectForUpdate q =>
      cases g with
      | inl l => exact List.mem_append_left _ hs
      | inr k => exact hs
  | flush w =>
      rw [answer_flush]
      split
      · exact hs
      · cases g with
        | inl l => exact hs
        | inr k => exact List.mem_append_left _ hs
  | commit => exact ho.elim
  | rollback => exact ho.elim

/-- Run alone, the program ends in `R` without a commit, or with the commit of
a session and an answer that satisfy `P` as its last statement. -/
def Ends (S : Schema Query Ans D Lock Key Write) (d : D) (R : Except ε α → Prop)
    (P : Session Lock Key Write → Except ε α → Prop) :
    Prog (Stmt Query Write) (Stmt.Rep Ans) ε α → Session Lock Key Write → Prop
  | .done r, _ => R r
  | .call .commit k, s => ∃ r, k () = .done r ∧ P s r
  | .call .rollback _, _ => False
  | .call (.select q) k, s =>
      Ends S d R P (k (S.answer (.select q) (d, s)).1) (S.answer (.select q) (d, s)).2.2
  | .call (.selectForUpdate q) k, s =>
      Ends S d R P (k (S.answer (.selectForUpdate q) (d, s)).1)
        (S.answer (.selectForUpdate q) (d, s)).2.2
  | .call (.flush w) k, s =>
      Ends S d R P (k (S.answer (.flush w) (d, s)).1) (S.answer (.flush w) (d, s)).2.2

theorem ends_call {R : Except ε α → Prop} {P : Session Lock Key Write → Except ε α → Prop}
    {o : Stmt Query Write} (ho : Keeps o)
    {k : Stmt.Rep Ans o → Prog (Stmt Query Write) (Stmt.Rep Ans) ε α} :
    Ends S d R P (.call o k) s
      ↔ Ends S d R P (k (S.answer o (d, s)).1) (S.answer o (d, s)).2.2 := by
  cases o with
  | select q => rfl
  | selectForUpdate q => rfl
  | flush w => rfl
  | commit => exact ho.elim
  | rollback => exact ho.elim

/-- Statements that keep the transaction open leave the tables alone. -/
theorem answer_keeps {o : Stmt Query Write} (ho : Keeps o) :
    S.answer o (d, s) = ((S.answer o (d, s)).1, (d, (S.answer o (d, s)).2.2)) := by
  cases o with
  | select q => rfl
  | selectForUpdate q => rfl
  | flush w =>
      rw [answer_flush]
      split <;> rfl
  | commit => exact ho.elim
  | rollback => exact ho.elim

/-- The sequencing rule. -/
theorem Ends.bind {β : Type} {R : Except ε α → Prop}
    {P : Session Lock Key Write → Except ε α → Prop}
    {p : Prog (Stmt Query Write) (Stmt.Rep Ans) ε β}
    {f : β → Prog (Stmt Query Write) (Stmt.Rep Ans) ε α} (hp : p.Ensures Keeps fun _ => True)
    (hok : ∀ a s', p.run S.answer (d, s) = (.ok a, (d, s')) → Ends S d R P (f a) s')
    (herr : ∀ e, (p.run S.answer (d, s)).1 = .error e → R (.error e)) :
    Ends S d R P (p >>= f) s := by
  induction p generalizing s with
  | done r =>
      cases r with
      | ok a => exact hok a s rfl
      | error e => exact herr e rfl
  | call o k ih =>
      refine (ends_call hp.1).mpr (ih _ (hp.2 _) ?_ ?_)
      · intro a s' h
        refine hok a s' ?_
        rw [Prog.run_call, answer_keeps hp.1]
        exact h
      · intro e h
        refine herr e ?_
        rw [Prog.run_call, answer_keeps hp.1]
        exact h

/-- The two ways such a program comes to its end. -/
theorem Ends.run {R : Except ε α → Prop} {P : Session Lock Key Write → Except ε α → Prop}
    {p : Prog (Stmt Query Write) (Stmt.Rep Ans) ε α} (h : Ends S d R P p s) :
    (R (p.run S.answer (d, s)).1 ∧ (p.run S.answer (d, s)).2.1 = d)
      ∨ ∃ s', P s' (p.run S.answer (d, s)).1 ∧ (p.run S.answer (d, s)).2.1 = S.view s' d := by
  induction p generalizing s with
  | done r => exact .inl ⟨h, rfl⟩
  | call o k ih =>
      by_cases ho : Keeps o
      · rw [Prog.run_call, answer_keeps ho]
        exact ih _ ((ends_call ho).mp h)
      · cases o with
        | commit =>
            obtain ⟨r, hk, hP⟩ := h
            rw [Prog.run_call, hk]
            exact .inr ⟨s, hP, rfl⟩
        | rollback => exact h.elim
        | select q => exact absurd trivial ho
        | selectForUpdate q => exact absurd trivial ho
        | flush w => exact absurd trivial ho

/-- How a program that runs as it would alone leaves the tables: without a commit
as they were, and otherwise as the author of what its session has written. -/
def Left (S : Schema Query Ans D Lock Key Write) (d₀ : D) (R : Except ε α → Prop)
    (P : Session Lock Key Write → Except ε α → Prop) (i : ι) (r : Except ε α)
    (b : Shared ι D Lock Key Write) : Prop :=
  (R r ∧ b.At none d₀) ∨ ∃ s, P s r ∧ b.At (some i) (S.view s d₀)

/-- A request that holds a gate runs as it would alone. -/
theorem goal_alone {R : Except ε α → Prop} {P : Session Lock Key Write → Except ε α → Prop}
    {p : Prog (Stmt Query Write) (Stmt.Rep Ans) ε α} {g : Lock ⊕ Key} (hg : g ∈ gates)
    (hheld : s.Holds g) (h : Ends S d₀ R P p s)
    (hcommit : ∀ s', P s' (p.run S.answer (d₀, s)).1 →
      (p.run S.answer (d₀, s)).2.1 = S.view s' d₀ →
      (∀ g ∈ gates, s'.Holds g) ∧ made i = some (S.view s' d₀))
    {b : Shared ι D Lock Key Write} (hb : b.session i = s ∧ b.At none d₀) :
    goal S d₀ made gates allow i p
      (fun r b' => r = (p.run S.answer (d₀, s)).1 ∧ Left S d₀ R P i r b') b := by
  induction p generalizing s b with
  | done r => exact ⟨rfl, .inl ⟨h, hb.2⟩⟩
  | call o k ih =>
      -- A statement within the transaction: nobody disturbs what a gate protects.
      by_cases ho : Keeps o
      · rw [Prog.run_call, answer_keeps ho] at hcommit ⊢
        refine goal_known (stable_undisturbed hg hheld) ?_ hb ?_
        · rintro rfl
          exact ho
        · intro b' hs' hd'
          exact ih _ (holds_answer ho hheld) ((ends_call ho).mp h) hcommit ⟨hs', hd'⟩
      · -- Of the statements that end it, only the commit is left by `Ends`.
        cases o with
        | commit =>
            obtain ⟨r, hk, hP⟩ := h
            rw [Prog.run_call, hk] at hcommit ⊢
            obtain ⟨hgates, hmade⟩ := hcommit s hP rfl
            refine goal_commit hg hgates hmade hb ?_
            intro b' _ hd'
            rw [hk]
            exact ⟨rfl, .inr ⟨s, hP, hd'⟩⟩
        | rollback => exact h.elim
        | select q => exact absurd trivial ho
        | selectForUpdate q => exact absurd trivial ho
        | flush w => exact absurd trivial ho

end Ends

end Once

end Schema

end BasisHawk.Lib
