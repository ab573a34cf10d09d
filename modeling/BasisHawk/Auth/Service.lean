/-
  BasisHawk.Auth.Service
  ──────────────────────
  `AuthService` (`auth.py`): logins, password changes and TOTP rotations of
  any number of requests at once.

  A request reads the administrator, verifies, and then writes, each step a
  transaction of its own.  A change compares what it has read when it writes;
  a login does not.
-/
import BasisHawk.Auth.Storage
import BasisHawk.Lib.Pool

namespace BasisHawk.Auth

open Domain Lib

/-! ## §1. Verification. -/

/-- `SecretCipher`: `AESGCM.decrypt` of a nonce, a ciphertext and associated
data under the master key, and the version of the key. -/
structure SecretCipher where
  aead : String → String → String → Option String
  keyVersion : Nat

/-- `SecretCipher.decrypt`, without a value where it raises. -/
def SecretCipher.decrypt (c : SecretCipher) (ciphertext nonce : String) (keyVersion : Nat)
    (associatedData : String) : Option String :=
  if keyVersion = c.keyVersion then c.aead nonce ciphertext associatedData else none

/-- `str.strip`. -/
def strip (s : String) : String := String.ofList (pyStrip s)

/-- One hour in microseconds. -/
def hour : Int := 3600000000

/-- `AuthService` with the functions of the packages it calls: `verify` is
`PasswordHasher.verify` of a hash and a password, `totpVerify` is
`pyotp.TOTP.verify` of a secret and a code at an instant, `digest` is SHA-256. -/
structure AuthService where
  cipher : SecretCipher
  verify : String → String → Bool
  totpVerify : String → String → Int → Bool
  digest : String → String
  sessionHours : Nat := 168

namespace AuthService

/-- `_password_matches`. -/
def passwordMatches (s : AuthService) (user : AdminUserRow) (password : String) : Bool :=
  s.verify user.passwordHash password

/-- `_totp_matches` at `now`. -/
def totpMatches (s : AuthService) (user : AdminUserRow) (code : String) (now : Int) : Bool :=
  match s.cipher.decrypt user.totpCiphertext user.totpNonce user.keyVersion
      ("admin:" ++ user.username) with
  | none => false
  | some secret => s.totpVerify secret (strip code) now

end AuthService

/-! ## §2. Operations. -/

inductive AuthOp where
  | request
  | now
  | tokenUrlsafe
  | hash (password : String)
  | encryptSecret (username : String)
  | getAdminByUsername (username : String)
  | createSession (adminId : Nat) (tokenHash csrfHash : String) (expiresAt : Int)
  | rotateAdminTotp (username expectedNonce totpCiphertext totpNonce : String) (keyVersion : Nat)
  | changeAdminPassword (username expectedPasswordHash passwordHash : String)
  | adminForSession (tokenHash : String) (now : Int)
  | deleteSession (tokenHash : String)
  | appendAudit (eventType actor : String)
  deriving DecidableEq

/-- What a client asks for. -/
inductive Request where
  | login (username password totpCode : String)
  | changePassword (username currentPassword totpCode newPassword : String)
  | rotateTotp (username password : String) (totpCode : Option String)
  | authenticate (sessionToken : Option String)
  | logout (sessionToken : Option String) (actor : String)

/-- What the random draws give is a reply; every transaction may raise. -/
abbrev AuthRep : AuthOp → Type
  | .request => Except Exc Request
  | .now => Except Exc Int
  | .tokenUrlsafe | .hash _ => Except Exc String
  | .encryptSecret _ => Except Exc (String × String)
  | .getAdminByUsername _ | .adminForSession _ _ => Except Exc (Option AdminUserRow)
  | .createSession _ _ _ _ | .deleteSession _ | .appendAudit _ _ => Except Exc Unit
  | .rotateAdminTotp _ _ _ _ _ | .changeAdminPassword _ _ _ => Except Exc Bool

/-- The reply of an operation that raised. -/
def failing (e : Exc) : (o : AuthOp) → AuthRep o
  | .request | .now | .tokenUrlsafe | .hash _ | .encryptSecret _ | .getAdminByUsername _
  | .adminForSession _ _ | .createSession _ _ _ _ | .deleteSession _ | .appendAudit _ _
  | .rotateAdminTotp _ _ _ _ _ | .changeAdminPassword _ _ _ => .error e

abbrev Auth (α : Type) := Prog AuthOp AuthRep Exc α

/-- `AuthenticatedSession`. -/
structure AuthenticatedSession where
  username : String
  sessionToken : String
  csrfToken : String
  expiresAt : Int

/-- What a request gets. -/
inductive Answer where
  | session (s : AuthenticatedSession)
  | admin (row : Option AdminUserRow)
  | done

/-- `AuthenticationError` is a `RuntimeError`. -/
def authenticationError (message : String) : Exc := Exc.ofKind .runtime message

/-- `value or "unknown"`. -/
def orUnknown (value : String) : String := if value = "" then "unknown" else value

def isAscii (s : String) : Bool := s.toList.all (·.toNat < 128)

/-- Raise if the condition holds. -/
def check (c : Prop) [Decidable c] (e : Exc) : Auth Unit := if c then throw e else pure ()

namespace AuthService

variable (s : AuthService)

/-! ## §3. Requests. -/

/-- The administrator that was read, if password and code match.  Without a
code only the password counts. -/
def verified (user : Option AdminUserRow) (password : String) (totpCode : Option String) :
    Auth (Option AdminUserRow) :=
  match user with
  | none => pure none
  | some user =>
      if s.passwordMatches user password then
        match totpCode with
        | none => pure (some user)
        | some code => do
            let now ← .call .now .done
            pure (if s.totpMatches user code now then some user else none)
      else pure none

/-- `login`. -/
def login (username password totpCode : String) : Auth AuthenticatedSession := do
  let user ← .call (.getAdminByUsername (strip username)) .done
  match ← s.verified user password (some totpCode) with
  | none => do
      let _ ← .call (.appendAudit "auth.login_failed" (orUnknown (strip username))) .done
      throw (authenticationError "invalid username, password, or TOTP code")
  | some user => do
      let sessionToken ← .call .tokenUrlsafe .done
      let csrfToken ← .call .tokenUrlsafe .done
      let now ← .call .now .done
      let expiresAt := now + s.sessionHours * hour
      let _ ← .call (.createSession user.id (s.digest sessionToken) (s.digest csrfToken) expiresAt)
        .done
      let _ ← .call (.appendAudit "auth.login_succeeded" user.username) .done
      pure {
        username := user.username
        sessionToken
        csrfToken
        expiresAt }

/-- `change_admin_password`.  `compare_digest` takes ASCII strings only. -/
def changeAdminPassword (username currentPassword totpCode newPassword : String) : Auth Unit := do
  check (newPassword.length < 12) (.value "password must contain at least 12 characters")
  check (¬(isAscii currentPassword ∧ isAscii newPassword))
    (.ofKind .type "comparing strings with non-ASCII characters is not supported")
  check (currentPassword = newPassword)
    (.value "new password must differ from the current password")
  let user ← .call (.getAdminByUsername (strip username)) .done
  match ← s.verified user currentPassword (some totpCode) with
  | none => do
      let _ ← .call (.appendAudit "auth.password_change_failed" (orUnknown (strip username))) .done
      throw (authenticationError "invalid administrator password or TOTP code")
  | some user => do
      let passwordHash ← .call (.hash newPassword) .done
      let changed ← .call
        (.changeAdminPassword user.username user.passwordHash passwordHash) .done
      check (changed = false)
        (.ofKind .runtime "administrator password changed concurrently; retry")

/-- `rotate_admin_totp`. -/
def rotateAdminTotp (username password : String) (totpCode : Option String) : Auth Unit := do
  let user ← .call (.getAdminByUsername (strip username)) .done
  match ← s.verified user password totpCode with
  | none => do
      let _ ← .call (.appendAudit "auth.totp_rotation_failed" (orUnknown (strip username))) .done
      throw (authenticationError (if totpCode.isSome
        then "invalid administrator password or TOTP code"
        else "invalid administrator username or password"))
  | some user => do
      let encrypted ← .call (.encryptSecret user.username) .done
      let rotated ← .call (.rotateAdminTotp user.username user.totpNonce encrypted.1 encrypted.2
        s.cipher.keyVersion) .done
      check (rotated = false) (.ofKind .runtime "administrator TOTP changed concurrently; retry")

/-- `authenticate`. -/
def authenticate (sessionToken : Option String) : Auth (Option AdminUserRow) :=
  match sessionToken with
  | none => pure none
  | some token =>
      if token = "" then pure none
      else do
        let now ← .call .now .done
        .call (.adminForSession (s.digest token) now) .done

/-- `logout`. -/
def logout (sessionToken : Option String) (actor : String) : Auth Unit := do
  match sessionToken with
  | none => pure ()
  | some token =>
      if token = "" then pure () else .call (.deleteSession (s.digest token)) .done
  .call (.appendAudit "auth.logout" actor) .done

/-- The request that comes next. -/
def handle : Auth Answer := do
  match ← .call .request .done with
  | .login username password totpCode => do
      let session ← s.login username password totpCode
      pure (.session session)
  | .changePassword username currentPassword totpCode newPassword => do
      s.changeAdminPassword username currentPassword totpCode newPassword
      pure .done
  | .rotateTotp username password totpCode => do
      s.rotateAdminTotp username password totpCode
      pure .done
  | .authenticate sessionToken => do
      let row ← s.authenticate sessionToken
      pure (.admin row)
  | .logout sessionToken actor => do
      s.logout sessionToken actor
      pure .done

end AuthService

/-! ## §4. The world. -/

/-- What a request has read: the row, and how often it had changed by then. -/
structure Reading where
  user : AdminUserRow
  changes : Nat
  deriving DecidableEq

/-- The tables and the clock.  The last three components are history
variables: how often an administrator changed, what each request has read, and
what the login of a session had read. -/
structure World (ι : Type) where
  db : AdminTables
  now : Int
  changes : Nat → Nat
  read : ι → Option Reading
  origin : String → Option Reading

/-- What the other actors do: `bootstrap_admin` adds an administrator, and time
passes. -/
inductive AuthAct where
  | createAdmin (username passwordHash totpCiphertext totpNonce : String) (keyVersion : Nat)
  | tick (d : Nat)

variable {ι : Type}

namespace World

/-- A request reads an administrator. -/
def reads [DecidableEq ι] (w : World ι) (i : ι) (user : Option AdminUserRow) : World ι :=
  { w with read := Function.update w.read i (user.map fun u => ⟨u, w.changes u.id⟩) }

/-- The outcome of a change of the administrator of a name. -/
def changed (w : World ι) (username : String) (r : Bool × AdminTables) : World ι :=
  { w with
    db := r.2
    changes := fun k =>
      if r.1 ∧ (w.db.getAdminByUsername username).map (·.id) = some k then w.changes k + 1
      else w.changes k }

/-- A login of request `i` has created a session. -/
def opened [DecidableEq ι] (w : World ι) (i : ι) (tokenHash : String) (db : AdminTables) :
    World ι :=
  { w with
    db
    origin := Function.update w.origin tokenHash (w.read i) }

end World

/-- What an operation of request `i` does. -/
inductive Performs [DecidableEq ι] (i : ι) : (o : AuthOp) → World ι → AuthRep o → World ι → Prop
  | request {w} (r : Request) : Performs i .request w (.ok r) w
  | now {w} : Performs i .now w (.ok w.now) w
  | tokenUrlsafe {w} (token : String) : Performs i .tokenUrlsafe w (.ok token) w
  | hash {password w} (passwordHash : String) :
      Performs i (.hash password) w (.ok passwordHash) w
  | encryptSecret {username w} (payload : String × String) :
      Performs i (.encryptSecret username) w (.ok payload) w
  | getAdminByUsername {username w} :
      Performs i (.getAdminByUsername username) w (.ok (w.db.getAdminByUsername username))
        (w.reads i (w.db.getAdminByUsername username))
  | createSession {adminId tokenHash csrfHash expiresAt w db}
      (h : w.db.createSession adminId tokenHash csrfHash expiresAt w.now = .ok db) :
      Performs i (.createSession adminId tokenHash csrfHash expiresAt) w (.ok ())
        (w.opened i tokenHash db)
  | rotateAdminTotp {username expectedNonce totpCiphertext totpNonce keyVersion w} :
      Performs i (.rotateAdminTotp username expectedNonce totpCiphertext totpNonce keyVersion) w
        (.ok (w.db.rotateAdminTotp username expectedNonce totpCiphertext totpNonce keyVersion).1)
        (w.changed username
          (w.db.rotateAdminTotp username expectedNonce totpCiphertext totpNonce keyVersion))
  | changeAdminPassword {username expectedPasswordHash passwordHash w} :
      Performs i (.changeAdminPassword username expectedPasswordHash passwordHash) w
        (.ok (w.db.changeAdminPassword username expectedPasswordHash passwordHash).1)
        (w.changed username (w.db.changeAdminPassword username expectedPasswordHash passwordHash))
  | adminForSession {tokenHash now w} :
      Performs i (.adminForSession tokenHash now) w (.ok (w.db.adminForSession tokenHash now)) w
  | deleteSession {tokenHash w} :
      Performs i (.deleteSession tokenHash) w (.ok ())
        { w with db := w.db.deleteSession tokenHash }
  | appendAudit {eventType actor w} : Performs i (.appendAudit eventType actor) w (.ok ()) w
  | raises {o w} (e : Exc) : Performs i o w (failing e o) w

/-- A condition on the operations of the requests. -/
abbrev Condition (ι : Type) := ι → AuthOp → World ι → Prop

def anyOperation : Condition ι := fun _ _ _ => True

/-- No change of the administrator has been committed since the login read it. -/
def unchangedSinceRead : Condition ι
  | i, .createSession adminId _ _ _, w => ∀ r ∈ w.read i, r.changes = w.changes adminId
  | _, _, _ => True

/-- The requests among the other actors, each operation under the condition. -/
def pool [DecidableEq ι] (cond : Condition ι) : Pool ι AuthOp AuthRep AuthAct (World ι) where
  exec := fun i o w r w' => cond i o w ∧ Performs i o w r w'
  env
    | .createAdmin username passwordHash totpCiphertext totpNonce keyVersion, w, w' =>
        ∃ row db, w.db.createAdmin username passwordHash totpCiphertext totpNonce keyVersion w.now
          = .ok (row, db) ∧ w' = { w with db }
    | .tick d, w, w' => w' = { w with now := w.now + d }
  idle := fun i w => { w with read := Function.update w.read i none }

/-- Before the first administrator. -/
def Initial (w : World ι) : Prop :=
  w.db.admins = [] ∧ w.db.sessions = [] ∧ ∀ i, w.read i = none

/-- The configurations of the runs whose operations all meet the condition. -/
def Reachable [DecidableEq ι] (cond : Condition ι) (s : AuthService) :
    Pool.Config ι AuthOp AuthRep Exc Answer (World ι) → Prop :=
  (pool cond).Reach s.handle Initial

end BasisHawk.Auth
