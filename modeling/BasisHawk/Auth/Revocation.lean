/-
  BasisHawk.Auth.Revocation
  ─────────────────────────
  What a token gives access to after a password change or a TOTP rotation.

  Main results:
    • `Sound` — what the requests keep: a session stems from a login that
      verified the row as it is now,
    • `access_verified_current` — in a run in which no change of the
      administrator comes between the read of a login and its write, a token
      gives access only if its login verified the current row.
-/
import BasisHawk.Auth.Service

namespace BasisHawk.Auth

open Domain Lib

variable {ι : Type}

/-! ## §1. What the requests keep. -/

variable {s : AuthService}

/-- The login has verified the row. -/
def Verified (s : AuthService) (user : AdminUserRow) : Prop :=
  ∃ password code now, s.passwordMatches user password ∧ s.totpMatches user code now

/-- What was read is still what is stored, unless the administrator has changed. -/
structure Reading.Known (w : World ι) (r : Reading) : Prop where
  le : r.changes ≤ w.changes r.user.id
  current : r.changes = w.changes r.user.id → r.user ∈ w.db.admins

/-- The login of a session verified the row that is stored now. -/
def Backed (s : AuthService) (w : World ι) (session : AdminSessionRow) : Prop :=
  ∃ r, w.origin session.tokenHash = some r ∧ r.Known w ∧ r.user.id = session.adminId
    ∧ r.changes = w.changes session.adminId ∧ Verified s r.user

/-- What holds in every reachable world. -/
structure Sound (s : AuthService) (w : World ι) : Prop where
  unique : Table.Unique w.db.admins
  below : Table.KeysBelow w.db.admins w.db.nextId
  read : ∀ i, ∀ r ∈ w.read i, r.Known w
  sessions : ∀ session ∈ w.db.sessions, Backed s w session

/-- A session is created for the administrator that was read and verified. -/
def Pre (s : AuthService) (i : ι) : AuthOp → World ι → Prop
  | .createSession adminId _ _ _, w => ∃ r, w.read i = some r ∧ r.user.id = adminId
      ∧ Verified s r.user
  | _, _ => True

/-- What was read stays known where rows join and nothing else happens. -/
theorem Reading.Known.mono {w w' : World ι} {r : Reading} (h : r.Known w)
    (hadmins : ∀ row ∈ w.db.admins, row ∈ w'.db.admins) (hchanges : w'.changes = w.changes) :
    r.Known w' where
  le := by
    rw [hchanges]
    exact h.le
  current := fun hc => by
    rw [hchanges] at hc
    exact hadmins _ (h.current hc)

/-- A session stays backed, too. -/
theorem Backed.mono {w w' : World ι} {session : AdminSessionRow} (h : Backed s w session)
    (hadmins : ∀ row ∈ w.db.admins, row ∈ w'.db.admins) (hchanges : w'.changes = w.changes)
    (horigin : w'.origin session.tokenHash = w.origin session.tokenHash) : Backed s w' session := by
  obtain ⟨r, hr, hknown, huser, hcount, hverified⟩ := h
  refine ⟨r, horigin.trans hr, hknown.mono hadmins hchanges, huser, ?_, hverified⟩
  rw [hchanges]
  exact hcount

/-- The other actors create administrators and let the clock run; neither
touches what a login has read. -/
theorem Sound.act [DecidableEq ι] {cond : Condition ι} {a : AuthAct} {w w' : World ι}
    (he : (pool cond).env a w w') (h : Sound s w) : Sound s w' := by
  cases a with
  | createAdmin username passwordHash totpCiphertext totpNonce keyVersion =>
      obtain ⟨row, db, hok, rfl⟩ := he
      obtain ⟨hid, rfl⟩ := AdminTables.createAdmin_ok hok
      have hmono : ∀ r ∈ w.db.admins, r ∈ w.db.admins ++ [row] := fun r hr =>
        List.mem_append_left _ hr
      refine ⟨h.unique.append h.below (Nat.le_of_eq hid.symm), ?_, ?_, ?_⟩
      · have hlt : key row < w.db.nextId + 1 := by
          show row.id < w.db.nextId + 1
          omega
        exact h.below.append (Nat.le_succ _) hlt
      · exact fun i r hr => (h.read i r hr).mono hmono rfl
      · exact fun session hs => (h.sessions session hs).mono hmono rfl rfl
  | tick d =>
      have hw' : w' = { w with now := w.now + d } := he
      subst hw'
      refine ⟨h.unique, h.below, fun i r hr => ?_, fun session hs => ?_⟩
      · exact (h.read i r hr).mono (fun _ hrow => hrow) rfl
      · exact (h.sessions session hs).mono (fun _ hrow => hrow) rfl rfl

/-- A change that was refused counts for no one. -/
theorem changes_refused (w : World ι) (username : String) (db : AdminTables) :
    (w.changed username (false, db)).changes = w.changes := by
  funext k
  show (if (false : Bool) = true ∧ (w.db.getAdminByUsername username).map (·.id) = some k
    then w.changes k + 1 else w.changes k) = w.changes k
  exact if_neg fun hc => Bool.false_ne_true hc.1

/-- A change counts for the administrator of the name. -/
theorem changes_made {w : World ι} {username : String} {row : AdminUserRow}
    (hfound : w.db.getAdminByUsername username = some row) (db : AdminTables) :
    (w.changed username (true, db)).changes
      = fun k => if k = row.id then w.changes k + 1 else w.changes k := by
  funext k
  show (if true = true ∧ (w.db.getAdminByUsername username).map (·.id) = some k
    then w.changes k + 1 else w.changes k) = _
  rw [hfound]
  simp only [Option.map_some, Option.some.injEq, true_and, eq_comm]

/-- A change of an administrator puts what was read of the row out of date. -/
theorem Reading.Known.replaced {w w' : World ι} {r : Reading} {row new : AdminUserRow}
    (h : r.Known w) (hid : new.id = row.id)
    (hadmins : w'.db.admins = Table.put w.db.admins new)
    (hchanges : w'.changes = fun k => if k = row.id then w.changes k + 1 else w.changes k) :
    r.Known w' := by
  have hle := h.le
  by_cases hrow : r.user.id = row.id
  · have hnow : w'.changes r.user.id = w.changes r.user.id + 1 := by
      rw [hchanges]
      exact if_pos hrow
    constructor
    · omega
    · intro hc
      omega
  · have hnow : w'.changes r.user.id = w.changes r.user.id := by
      rw [hchanges]
      exact if_neg hrow
    constructor
    · omega
    · intro hc
      rw [hadmins]
      refine Table.mem_put.mpr (Or.inr ⟨h.current (by omega), fun hkey => hrow ?_⟩)
      exact Eq.trans hkey hid

/-- A change of an administrator: its sessions are gone. -/
theorem Sound.changed {w : World ι} (h : Sound s w) (username : String)
    (expected : AdminUserRow → Bool) (change : AdminUserRow → AdminUserRow)
    (hid : ∀ row, (change row).id = row.id) :
    Sound s (w.changed username (w.db.replaceAdmin username expected change)) := by
  rcases w.db.replaceAdmin_cases username expected change with hsame | ⟨row, -, hfound, -, heq⟩
  · rw [hsame]
    have hchanges := changes_refused w username w.db
    refine ⟨h.unique, h.below, fun i r hr => ?_, fun session hs => ?_⟩
    · exact (h.read i r hr).mono (fun _ hrow => hrow) hchanges
    · exact (h.sessions session hs).mono (fun _ hrow => hrow) hchanges rfl
  · rw [heq]
    have hchanges := changes_made hfound { w.db with
      admins := Table.put w.db.admins (change row)
      sessions := w.db.sessions.filter (·.adminId ≠ row.id) }
    refine ⟨h.unique.put _, h.below.put _, fun i r hr => ?_, fun session hs => ?_⟩
    · exact (h.read i r hr).replaced (hid row) rfl hchanges
    · obtain ⟨hs, hne⟩ := List.mem_filter.mp hs
      have hne : session.adminId ≠ row.id := by simpa using hne
      obtain ⟨r, horigin, hknown, huser, hcount, hverified⟩ := h.sessions session hs
      refine ⟨r, horigin, hknown.replaced (hid row) rfl hchanges, huser, ?_, hverified⟩
      rw [hchanges]
      show r.changes = if session.adminId = row.id then _ else _
      rw [if_neg hne]
      exact hcount

variable [DecidableEq ι]

/-- A login whose reading is up to date creates a session. -/
theorem Sound.opened {w : World ι} (h : Sound s w) {i : ι} {adminId : Nat}
    {tokenHash csrfHash : String} {expiresAt : Int} {db : AdminTables}
    (hok : w.db.createSession adminId tokenHash csrfHash expiresAt w.now = .ok db)
    (hpre : Pre s i (.createSession adminId tokenHash csrfHash expiresAt) w)
    (hcond : unchangedSinceRead i (.createSession adminId tokenHash csrfHash expiresAt) w) :
    Sound s (w.opened i tokenHash db) := by
  obtain ⟨hnew, hdb⟩ := AdminTables.createSession_ok hok
  have hadmins : ∀ row ∈ w.db.admins, row ∈ (w.opened i tokenHash db).db.admins := by
    intro row hrow
    show row ∈ db.admins
    rw [hdb]
    exact hrow
  -- The new session belongs to what this login has read last.
  have hself : (w.opened i tokenHash db).origin tokenHash = w.read i := Function.update_self ..
  constructor
  · show Table.Unique db.admins
    rw [hdb]
    exact h.unique
  · show Table.KeysBelow db.admins db.nextId
    rw [hdb]
    exact h.below
  · -- The readings of all logins stay known, as the accounts do not change.
    exact fun j r hr => (h.read j r hr).mono hadmins rfl
  · intro session hs
    have hs : session ∈ db.sessions := hs
    rw [hdb] at hs
    rcases List.mem_append.mp hs with hs | hs
    · -- An older session keeps its origin.
      exact (h.sessions session hs).mono hadmins rfl (Function.update_of_ne (hnew session hs) ..)
    · rw [List.mem_singleton.mp hs]
      -- The new one was verified against the reading, which is up to date by the condition.
      obtain ⟨r, hread, hid, hverified⟩ := hpre
      exact ⟨r, hself.trans hread, (h.read i r hread).mono hadmins rfl, hid, hcond r hread,
        hverified⟩

/-- A request reads an administrator as it is stored. -/
theorem Sound.reads {w : World ι} (h : Sound s w) (i : ι) (username : String) :
    Sound s (w.reads i (w.db.getAdminByUsername username)) := by
  refine ⟨h.unique, h.below, fun j r hr => ?_, fun session hs => ?_⟩
  · by_cases hj : j = i
    · subst hj
      have hself : (w.reads j (w.db.getAdminByUsername username)).read j
          = (w.db.getAdminByUsername username).map fun u => ⟨u, w.changes u.id⟩ :=
        Function.update_self ..
      rw [hself] at hr
      obtain ⟨user, huser, rfl⟩ := Option.map_eq_some_iff.mp hr
      exact ⟨Nat.le_refl _, fun _ => (AdminTables.getAdminByUsername_some huser).1⟩
    · have hother : (w.reads i (w.db.getAdminByUsername username)).read j = w.read j :=
        Function.update_of_ne hj ..
      rw [hother] at hr
      exact (h.read j r hr).mono (fun _ hrow => hrow) rfl
  · exact (h.sessions session hs).mono (fun _ hrow => hrow) rfl rfl

/-- A request that starts or ends leaves the tables alone. -/
theorem Sound.idle {w : World ι} (h : Sound s w) (cond : Condition ι) (i : ι) :
    Sound s ((pool cond).idle i w) := by
  refine ⟨h.unique, h.below, fun j r hr => ?_, fun session hs => ?_⟩
  · by_cases hj : j = i
    · subst hj
      have hself : ((pool cond).idle j w).read j = none := Function.update_self ..
      rw [hself] at hr
      cases hr
    · have hother : ((pool cond).idle i w).read j = w.read j := Function.update_of_ne hj ..
      rw [hother] at hr
      exact (h.read j r hr).mono (fun _ hrow => hrow) rfl
  · exact (h.sessions session hs).mono (fun _ hrow => hrow) rfl rfl

/-- One operation of one request, under the condition that no change comes
between the read of a login and its session. -/
theorem Sound.call {i : ι} {o : AuthOp} {w w' : World ι} {r : AuthRep o}
    (he : (pool unchangedSinceRead).exec i o w r w') (hpre : Pre s i o w) (h : Sound s w) :
    Sound s w' := by
  obtain ⟨hcond, he⟩ := he
  cases he with
  | request | now | tokenUrlsafe | hash | encryptSecret | adminForSession | appendAudit
  | raises => exact h
  | getAdminByUsername => exact h.reads i _
  | createSession hok => exact h.opened hok hpre hcond
  | rotateAdminTotp => exact h.changed _ _ _ fun _ => rfl
  | changeAdminPassword => exact h.changed _ _ _ fun _ => rfl
  | deleteSession =>
      refine ⟨h.unique, h.below, fun j r hr => ?_, fun session hs => ?_⟩
      · exact (h.read j r hr).mono (fun _ hrow => hrow) rfl
      · exact (h.sessions session (List.mem_filter.mp hs).1).mono (fun _ hrow => hrow) rfl rfl

/-- The step lemma of the invariant for the pool of all requests, each operation
with the precondition that its program establishes. -/
theorem sound_preserved (s : AuthService) :
    (pool (unchangedSinceRead : Condition ι)).Preserves (Sound s) (Pre s) where
  act := fun _ _ _ he h => h.act he
  call := fun _ _ _ _ _ he hpre h => h.call he hpre
  idle := fun i _ h => h.idle unchangedSinceRead i

/-! ## §2. A login creates a session for what it has verified. -/

/-- The operations that read no administrator and create no session. -/
def quiet : AuthOp → Prop
  | .getAdminByUsername _ | .createSession _ _ _ _ => False
  | _ => True

/-- The operations other than the creation of a session. -/
def free : AuthOp → Prop
  | .createSession _ _ _ _ => False
  | _ => True

/-- What request `i` has read last is this row. -/
def HasRead (i : ι) (user : AdminUserRow) (w : World ι) : Prop :=
  ∃ r, w.read i = some r ∧ r.user = user

/-- A request as the others let it go on. -/
abbrev requestSystem (s : AuthService) (i : ι) : System AuthOp AuthRep Unit (World ι) :=
  (pool unchangedSinceRead).member (Sound s) (Pre s) i

/-- The readings of a request are its own. -/
theorem read_other {i j : ι} (hj : j ≠ i) {o : AuthOp} {w w' : World ι} {r : AuthRep o}
    (he : Performs j o w r w') : w'.read i = w.read i := by
  cases he with
  | getAdminByUsername => exact Function.update_of_ne hj.symm ..
  | _ => rfl

/-- What a request has read is its own record: no step of another request takes
it away. -/
theorem hasRead_stable (s : AuthService) (i : ι) (user : AdminUserRow) :
    (requestSystem s i).Stable (HasRead i user) := by
  intro _ w w' he ⟨r, hr, huser⟩
  refine ⟨r, ?_, huser⟩
  cases he with
  | @act a _ _ _ he =>
      cases a with
      | createAdmin =>
          obtain ⟨_, _, -, rfl⟩ := he
          exact hr
      | tick d => cases he; exact hr
  | call _ hj _ he => exact (read_other hj he.2).trans hr
  | idle _ hj => exact (Function.update_of_ne hj.symm ..).trans hr

/-- A quiet operation leaves what was read. -/
theorem hasRead_quiet {i : ι} {user : AdminUserRow} {o : AuthOp} {w w' : World ι} {r : AuthRep o}
    (ho : quiet o) (he : Performs i o w r w') (h : HasRead i user w) : HasRead i user w' := by
  cases he with
  | getAdminByUsername => cases ho
  | createSession => cases ho
  | _ => exact h

omit [DecidableEq ι] in
/-- An operation other than `create_session` has no precondition. -/
theorem pre_of_free {i : ι} {o : AuthOp} (ho : free o) (w : World ι) : Pre s i o w := by
  cases o with
  | createSession => cases ho
  | _ => trivial

/-- A program that creates no session meets its guards. -/
theorem wp_free {α : Type} {i : ι} {p : Auth α} (hp : p.Ensures free fun _ => True) (w : World ι) :
    (requestSystem s i).wp (Sound s) (Pre s i) p (fun _ _ => True) w := by
  have hstable : (requestSystem s i).Stable fun _ => True := fun _ _ _ _ _ => trivial
  refine System.wp_mono p (fun _ _ _ => trivial) w (System.wp_of_ensures hstable
    (fun o w ho _ _ => pre_of_free ho w) (fun _ _ _ _ _ _ _ _ => trivial) p w trivial hp)

/-- A program of quiet operations goes on with what was read. -/
theorem wp_quiet {α β : Type} {i : ι} {user : AdminUserRow} {p : Auth α} {f : α → Auth β}
    {R : Except Exc α → Prop} (hp : p.Ensures quiet R) {w : World ι} (h : HasRead i user w)
    (hf : ∀ a w', R (.ok a) → HasRead i user w' →
      (requestSystem s i).wp (Sound s) (Pre s i) (f a) (fun _ _ => True) w') :
    (requestSystem s i).wp (Sound s) (Pre s i) (p >>= f) (fun _ _ => True) w := by
  have hfree : ∀ o w, quiet o → Sound s w → HasRead i user w → Pre s i o w := by
    intro o w ho _ _
    cases o with
    | createSession => cases ho
    | _ => trivial
  refine System.wp_bind _ _ _ (System.wp_mono p ?_ w (System.wp_of_ensures
    (hasRead_stable s i user) hfree (fun _ _ _ _ ho _ hw he => hasRead_quiet ho he.2 hw) p w h hp))
  intro r w' ⟨hw', hr⟩
  cases r with
  | ok a => exact hf a w' hr hw'
  | error e => trivial

/-- What verification returns is the row that was read, verified. -/
theorem verified_ensures (s : AuthService) (user : Option AdminUserRow) (password : String)
    (totpCode : String) : (s.verified user password (some totpCode)).Ensures quiet
      fun r => ∀ u, r = .ok (some u) → user = some u ∧ Verified s u := by
  cases user with
  | none => exact fun u hu => by cases hu
  | some user =>
      show Prog.Ensures _ _ (if _ then _ else _)
      by_cases hpassword : s.passwordMatches user password
      · rw [if_pos hpassword]
        refine ⟨trivial, fun r => ?_⟩
        cases r with
        | error e => exact fun u hu => by cases hu
        | ok now =>
            intro u hu
            injection hu with hu
            by_cases hcode : s.totpMatches user totpCode now
            · rw [if_pos hcode] at hu
              injection hu with hu
              subst hu
              exact ⟨rfl, password, totpCode, now, hpassword, hcode⟩
            · rw [if_neg hcode] at hu
              cases hu
      · rw [if_neg hpassword]
        exact fun u hu => by cases hu

/-- A login establishes the precondition of `create_session`: it has read the
administrator, and it goes on only if password and code were verified against
that row. -/
theorem wp_login (i : ι) (username password totpCode : String) (w : World ι) :
    (requestSystem s i).wp (Sound s) (Pre s i) (s.login username password totpCode)
      (fun _ _ => True) w := by
  refine System.wp_bind _ _ _ fun w₁ _ _ => ⟨trivial, fun r w₂ he _ => ?_⟩
  cases he.2 with
  | raises e => trivial
  | getAdminByUsername =>
      -- A failed verification ends with an audit event.
      have hfailed : ∀ w : World ι, (requestSystem s i).wp (Sound s) (Pre s i)
          (do
            let _ ← .call (.appendAudit "auth.login_failed" (orUnknown (strip username))) .done
            throw (authenticationError "invalid username, password, or TOTP code") :
              Auth AuthenticatedSession) (fun _ _ => True) w :=
        wp_free ⟨trivial, fun r => by cases r <;> trivial⟩
      cases hfound : w₁.db.getAdminByUsername (strip username) with
      | none => exact hfailed _
      | some user =>
          have hread : HasRead i user (w₁.reads i (some user)) :=
            ⟨⟨user, w₁.changes user.id⟩, Function.update_self .., rfl⟩
          refine wp_quiet (verified_ensures s (some user) password totpCode) hread ?_
          intro found w₃ hfound hread
          cases found with
          | none => exact hfailed w₃
          | some u =>
              obtain ⟨hu, hverified⟩ := hfound u rfl
              injection hu with hu
              subst hu
              have htoken : (Prog.call .tokenUrlsafe .done : Auth String).Ensures quiet
                  fun _ => True := ⟨trivial, fun _ => trivial⟩
              have hclock : (Prog.call .now .done : Auth Int).Ensures quiet fun _ => True :=
                ⟨trivial, fun _ => trivial⟩
              refine wp_quiet htoken hread fun sessionToken w₄ _ hread => ?_
              refine wp_quiet htoken hread fun csrfToken w₅ _ hread => ?_
              refine wp_quiet hclock hread fun now w₆ _ hread => ?_
              refine System.wp_call_of_stable (hasRead_stable s i user) hread ?_ ?_
              · intro w _ ⟨r, hr, huser⟩
                exact ⟨r, hr, congrArg _ huser, huser ▸ hverified⟩
              · intro w r w' _ _ _ _
                cases r with
                | error e => trivial
                | ok a =>
                    refine wp_free ?_ w'
                    exact ⟨trivial, fun r => by cases r <;> trivial⟩

/-! ## §3. The other requests create no session. -/

/-- Programs without a `create_session` compose. -/
theorem free_bind {α β : Type} {p : Auth α} {f : α → Auth β} (hp : p.Ensures free fun _ => True)
    (hf : ∀ a, (f a).Ensures free fun _ => True) : (p >>= f).Ensures free fun _ => True :=
  Prog.Ensures.bind hp (fun a _ => hf a) fun _ _ => trivial

theorem check_free (c : Prop) [Decidable c] (e : Exc) :
    (check c e).Ensures free fun _ => True := by
  unfold check
  split <;> trivial

/-- The verification of a password and a code creates no session. -/
theorem verified_free (s : AuthService) (user : Option AdminUserRow) (password : String)
    (totpCode : Option String) :
    (s.verified user password totpCode).Ensures free fun _ => True := by
  unfold AuthService.verified
  split
  · trivial
  · split
    · split
      · trivial
      · exact ⟨trivial, fun r => by cases r <;> trivial⟩
    · trivial

/-- A password change creates no session; that a change bumps the counter of its
administrator is the tables' part. -/
theorem changeAdminPassword_free (username currentPassword totpCode newPassword : String) :
    (s.changeAdminPassword username currentPassword totpCode newPassword).Ensures free
      fun _ => True := by
  refine free_bind (check_free ..) fun _ => ?_
  refine free_bind (check_free ..) fun _ => ?_
  refine free_bind (check_free ..) fun _ => ?_
  refine free_bind ⟨trivial, fun _ => trivial⟩ fun user => ?_
  refine free_bind (verified_free ..) fun found => ?_
  cases found with
  | none => exact free_bind ⟨trivial, fun _ => trivial⟩ fun _ => trivial
  | some user =>
      refine free_bind ⟨trivial, fun _ => trivial⟩ fun passwordHash => ?_
      exact free_bind ⟨trivial, fun _ => trivial⟩ fun changed => check_free ..

/-- Nor does a rotation of the second factor. -/
theorem rotateAdminTotp_free (username password : String) (totpCode : Option String) :
    (s.rotateAdminTotp username password totpCode).Ensures free fun _ => True := by
  refine free_bind ⟨trivial, fun _ => trivial⟩ fun user => ?_
  refine free_bind (verified_free ..) fun found => ?_
  cases found with
  | none => exact free_bind ⟨trivial, fun _ => trivial⟩ fun _ => trivial
  | some user =>
      refine free_bind ⟨trivial, fun _ => trivial⟩ fun encrypted => ?_
      exact free_bind ⟨trivial, fun _ => trivial⟩ fun rotated => check_free ..

theorem authenticate_free (sessionToken : Option String) :
    (s.authenticate sessionToken).Ensures free fun _ => True := by
  unfold AuthService.authenticate
  split
  · trivial
  · split
    · trivial
    · exact free_bind ⟨trivial, fun _ => trivial⟩ fun now => ⟨trivial, fun _ => trivial⟩

theorem logout_free (sessionToken : Option String) (actor : String) :
    (s.logout sessionToken actor).Ensures free fun _ => True := by
  unfold AuthService.logout
  cases sessionToken with
  | none => exact ⟨trivial, fun _ => trivial⟩
  | some token =>
      by_cases h : token = ""
      · simp only [h, if_true]
        exact ⟨trivial, fun _ => trivial⟩
      · simp only [h, if_false]
        exact free_bind ⟨trivial, fun _ => trivial⟩ fun _ => ⟨trivial, fun _ => trivial⟩

/-- Every request of the service establishes the precondition of each operation
it performs. -/
theorem wp_handle (i : ι) (w : World ι) :
    (requestSystem s i).wp (Sound s) (Pre s i) s.handle (fun _ _ => True) w := by
  refine System.wp_bind _ _ _ fun w₁ _ _ => ⟨trivial, fun r w₂ _ _ => ?_⟩
  match r with
  | .error e => trivial
  | .ok (.login username password totpCode) =>
      refine System.wp_bind _ _ _ (System.wp_mono _ ?_ w₂ (wp_login i username password totpCode w₂))
      intro r w' _
      cases r <;> trivial
  | .ok (.changePassword username currentPassword totpCode newPassword) =>
      refine wp_free (free_bind (changeAdminPassword_free ..) fun _ => ?_) w₂
      trivial
  | .ok (.rotateTotp username password totpCode) =>
      refine wp_free (free_bind (rotateAdminTotp_free ..) fun _ => ?_) w₂
      trivial
  | .ok (.authenticate sessionToken) =>
      refine wp_free (free_bind (authenticate_free ..) fun _ => ?_) w₂
      trivial
  | .ok (.logout sessionToken actor) =>
      refine wp_free (free_bind (logout_free ..) fun _ => ?_) w₂
      trivial

/-- The invariant holds in every reachable configuration. -/
theorem Reachable.sound {c : Pool.Config ι AuthOp AuthRep Exc Answer (World ι)}
    (hc : Reachable unchangedSinceRead s c) : Sound s c.world := by
  refine (hc.guarded (sound_preserved s) (fun w hw => ?_) fun i w _ => wp_handle i w).1
  obtain ⟨hadmins, hsessions, hread⟩ := hw
  constructor
  · rw [hadmins]
    exact List.nodup_nil
  · intro r hr
    rw [hadmins] at hr
    cases hr
  · intro i r hr
    rw [hread i] at hr
    cases hr
  · intro session hs
    rw [hsessions] at hs
    cases hs

/-- In a run in which no change of an administrator is committed between the
read of a login and its `create_session`: a token gives access to an
administrator only if its login verified the row as it is stored, and no
password change or TOTP rotation has been committed since the login read it. -/
theorem access_verified_current {c : Pool.Config ι AuthOp AuthRep Exc Answer (World ι)}
    (hc : Reachable unchangedSinceRead s c) {token : String} {admin : AdminUserRow}
    (h : c.world.db.adminForSession (s.digest token) c.world.now = some admin) :
    ∃ r, c.world.origin (s.digest token) = some r ∧ Verified s r.user ∧ r.user = admin
      ∧ r.changes = c.world.changes admin.id := by
  have hsound := hc.sound
  obtain ⟨session, hs, htoken, -, hid, hadmin⟩ := AdminTables.adminForSession_some h
  obtain ⟨r, horigin, hknown, huser, hcount, hverified⟩ := hsound.sessions session hs
  have hcurrent : r.user ∈ c.world.db.admins := hknown.current (by rw [huser, hcount])
  refine ⟨r, htoken ▸ horigin, hverified, ?_, hid ▸ hcount⟩
  exact hsound.unique.eq hcurrent hadmin (huser.trans hid)

/-! ## §4. A login that a password change overtakes. -/

namespace Sample

def service : AuthService where
  cipher := ⟨fun _ ciphertext _ => some ciphertext, 1⟩
  verify := fun passwordHash password => passwordHash = "argon2:" ++ password
  totpVerify := fun secret code _ => code = secret
  digest := fun token => "sha256:" ++ token

/-- What a request is answered when nothing fails. -/
def answers (i : Bool) (r : Request) : (o : AuthOp) → World Bool → AuthRep o × World Bool
  | .request, w => (.ok r, w)
  | .now, w => (.ok w.now, w)
  | .tokenUrlsafe, w => (.ok "token", w)
  | .hash password, w => (.ok ("argon2:" ++ password), w)
  | .encryptSecret _, w => (.ok ("654321", "nonce"), w)
  | .getAdminByUsername username, w =>
      (.ok (w.db.getAdminByUsername username), w.reads i (w.db.getAdminByUsername username))
  | .createSession adminId tokenHash csrfHash expiresAt, w =>
      match w.db.createSession adminId tokenHash csrfHash expiresAt w.now with
      | .ok db => (.ok (), w.opened i tokenHash db)
      | .error e => (.error e, w)
  | .rotateAdminTotp username expectedNonce totpCiphertext totpNonce keyVersion, w =>
      let r := w.db.rotateAdminTotp username expectedNonce totpCiphertext totpNonce keyVersion
      (.ok r.1, w.changed username r)
  | .changeAdminPassword username expectedPasswordHash passwordHash, w =>
      let r := w.db.changeAdminPassword username expectedPasswordHash passwordHash
      (.ok r.1, w.changed username r)
  | .adminForSession tokenHash now, w => (.ok (w.db.adminForSession tokenHash now), w)
  | .deleteSession tokenHash, w => (.ok (), { w with db := w.db.deleteSession tokenHash })
  | .appendAudit _ _, w => (.ok (), w)

/-- The answers of the sample are answers the tables give. -/
theorem performs_answers (i : Bool) (r : Request) (o : AuthOp) (w : World Bool) :
    Performs i o w (answers i r o w).1 (answers i r o w).2 := by
  cases o with
  | request => exact .request r
  | now => exact .now
  | tokenUrlsafe => exact .tokenUrlsafe "token"
  | hash password => exact .hash _
  | encryptSecret username => exact .encryptSecret _
  | getAdminByUsername username => exact .getAdminByUsername
  | createSession adminId tokenHash csrfHash expiresAt =>
      simp only [answers]
      split
      · next db h => exact .createSession h
      · next e h => exact .raises e
  | rotateAdminTotp => exact .rotateAdminTotp
  | changeAdminPassword => exact .changeAdminPassword
  | adminForSession => exact .adminForSession
  | deleteSession => exact .deleteSession
  | appendAudit => exact .appendAudit

/-- The condition on the steps of one request: its `create_session` meets no
change since the request has read. -/
def unchanged (i : Bool) (w : World Bool) : Label AuthOp AuthRep AuthAct → Prop
  | .call o _ => unchangedSinceRead i o w
  | _ => True

instance (i : Bool) (w : World Bool) : ∀ l, Decidable (unchanged i w l)
  | .call (.createSession adminId _ _ _) _ =>
      inferInstanceAs (Decidable (∀ r ∈ w.read i, r.changes = w.changes adminId))
  | .call .request _ | .call .now _ | .call .tokenUrlsafe _ | .call (.hash _) _
  | .call (.encryptSecret _) _ | .call (.getAdminByUsername _) _
  | .call (.rotateAdminTotp _ _ _ _ _) _ | .call (.changeAdminPassword _ _ _) _
  | .call (.adminForSession _ _) _ | .call (.deleteSession _) _ | .call (.appendAudit _ _) _
  | .act _ | .start | .finish | .crash => .isTrue trivial

def empty : World Bool where
  db := ⟨[], [], 1⟩
  now := 0
  changes := fun _ => 0
  read := fun _ => none
  origin := fun _ => none

/-- The administrator before the change, and after it. -/
def original : AdminUserRow := ⟨1, "admin", "argon2:first password", "123456", "nonce", 1, 0⟩

def renewed : AdminUserRow := { original with passwordHash := "argon2:second password" }

def admitted : World Bool := { empty with db := ⟨[original], [], 2⟩ }

def loginRequest : Request := .login "admin" "first password" "123456"

/-- The login after the change. -/
def secondLoginRequest : Request := .login "admin" "second password" "123456"

def changeRequest : Request :=
  .changePassword "admin" "first password" "123456" "second password"

abbrev SampleConfig := Config AuthOp AuthRep Exc Answer (World Bool)

def isCreateSession : AuthOp → Bool
  | .createSession _ _ _ _ => true
  | _ => false

/-- The login has verified and is about to create its session. -/
def verifiedLogin : SampleConfig :=
  System.play (answers true loginRequest) isCreateSession service.handle admitted

/-- The password change goes through. -/
def changedPassword : SampleConfig :=
  System.play (answers false changeRequest) (fun _ => false) service.handle verifiedLogin.world

/-- The login goes on. -/
def overtaken : SampleConfig :=
  System.resume (answers true loginRequest) (fun _ => false)
    ⟨changedPassword.world, verifiedLogin.pass⟩

/-- The password change alone. -/
def rekeyed : SampleConfig :=
  System.play (answers false changeRequest) (fun _ => false) service.handle admitted

/-- A login with the new password, after the change is committed. -/
def loggedIn : SampleConfig :=
  System.play (answers true secondLoginRequest) (fun _ => false) service.handle rekeyed.world

end Sample

namespace Sample

theorem reachable_admitted (cond : Condition Bool) :
    Reachable cond service ⟨admitted, fun _ => none⟩ := by
  have henv : (pool cond).env
      (.createAdmin "admin" "argon2:first password" "123456" "nonce" 1) empty admitted :=
    ⟨original, ⟨[original], [], 2⟩, rfl, rfl⟩
  exact .step (.init ⟨rfl, rfl, fun _ => rfl⟩) (.act henv)

/-- The password changes, and the login that follows verifies the new one: both
requests meet the condition at each of their steps. -/
theorem reachable_loggedIn : ∃ ps, Reachable unchangedSinceRead service ⟨loggedIn.world, ps⟩ := by
  have hans : ∀ i r o w, unchanged i w (.call o (answers i r o w).1) →
      (pool unchangedSinceRead).exec i o w (answers i r o w).1 (answers i r o w).2 :=
    fun i r o w h => ⟨h, performs_answers i r o w⟩
  have hchange := Pool.Reach.step (reachable_admitted unchangedSinceRead) (.start (i := false) rfl)
  have hrekeyed : Reachable unchangedSinceRead service ⟨rekeyed.world, _⟩ :=
    hchange.play (hans false changeRequest) service.handle (Function.update_self ..) (by decide)
  have hlogin := Pool.Reach.step hrekeyed (.start (i := true) rfl)
  exact ⟨_, hlogin.play (hans true secondLoginRequest) service.handle
    (Function.update_self ..) (by decide)⟩

/-- The login verifies, the password changes, and the login goes on. -/
theorem reachable_overtaken : ∃ ps, Reachable anyOperation service ⟨overtaken.world, ps⟩ := by
  have hans : ∀ i r o w, (System.anyStep : World Bool → Label AuthOp AuthRep AuthAct → Prop) w
        (.call o (answers i r o w).1) →
      (pool anyOperation).exec i o w (answers i r o w).1 (answers i r o w).2 :=
    fun i r o w _ => ⟨trivial, performs_answers i r o w⟩
  have hlogin := Pool.Reach.step (reachable_admitted anyOperation) (.start (i := true) rfl)
  have hverified : Reachable anyOperation service ⟨verifiedLogin.world,
      Function.update (Function.update (fun _ => none) true (some service.handle)) true
        verifiedLogin.pass⟩ :=
    hlogin.play (hans true loginRequest) service.handle (Function.update_self ..)
      (System.follows_anyStep _ _)
  have hchange := Pool.Reach.step hverified (.start (i := false) rfl)
  have hchanged : Reachable anyOperation service ⟨changedPassword.world, _⟩ :=
    hchange.play (hans false changeRequest) service.handle (Function.update_self ..)
      (System.follows_anyStep _ _)
  obtain ⟨p, hp⟩ : ∃ p, verifiedLogin.pass = some p :=
    Option.isSome_iff_exists.mp (System.play_isSome _ _)
  have hovertaken : overtaken
      = System.play (answers true loginRequest) (fun _ => false) p changedPassword.world := by
    unfold overtaken
    rw [hp]
    rfl
  rw [hovertaken]
  refine ⟨_, hchanged.play (hans true loginRequest) p ?_ (System.follows_anyStep _ _)⟩
  rw [Function.update_of_ne (by decide), Function.update_of_ne (by decide), Function.update_self]
  exact hp

end Sample

/-- A login that has verified the first password creates its session after the
password has changed, and the token gives access. -/
theorem stale_login_accepted : ∃ c : Pool.Config Bool AuthOp AuthRep Exc Answer (World Bool),
    Reachable anyOperation Sample.service c
      ∧ c.world.db.adminForSession (Sample.service.digest "token") c.world.now
          = some Sample.renewed
      ∧ ∃ r, c.world.origin (Sample.service.digest "token") = some r
        ∧ r.user.passwordHash ≠ Sample.renewed.passwordHash
        ∧ r.changes < c.world.changes Sample.renewed.id := by
  obtain ⟨ps, hc⟩ := Sample.reachable_overtaken
  have haccess : Sample.overtaken.world.db.adminForSession (Sample.service.digest "token")
      Sample.overtaken.world.now = some Sample.renewed := by decide
  have horigin : Sample.overtaken.world.origin (Sample.service.digest "token")
      = some ⟨Sample.original, 0⟩ := by decide
  have hchanges : 0 < Sample.overtaken.world.changes Sample.renewed.id := by decide
  exact ⟨_, hc, haccess, _, horigin, by decide, hchanges⟩

/-- A run with a password change in it: the login that follows gives access
under the new password, which is the one it verified. -/
theorem access_verified_current_login :
    ∃ c : Pool.Config Bool AuthOp AuthRep Exc Answer (World Bool),
      Reachable unchangedSinceRead Sample.service c
        ∧ c.world.changes Sample.renewed.id = 1
        ∧ c.world.db.adminForSession (Sample.service.digest "token") c.world.now
            = some Sample.renewed
        ∧ ∃ r, c.world.origin (Sample.service.digest "token") = some r
          ∧ Verified Sample.service r.user ∧ r.user = Sample.renewed
          ∧ r.changes = c.world.changes Sample.renewed.id := by
  obtain ⟨ps, hc⟩ := Sample.reachable_loggedIn
  have hchanges : Sample.loggedIn.world.changes Sample.renewed.id = 1 := by decide
  have haccess : Sample.loggedIn.world.db.adminForSession (Sample.service.digest "token")
      Sample.loggedIn.world.now = some Sample.renewed := by decide
  exact ⟨_, hc, hchanges, haccess, access_verified_current hc haccess⟩

end BasisHawk.Auth
