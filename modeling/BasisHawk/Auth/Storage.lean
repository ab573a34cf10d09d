/-
  BasisHawk.Auth.Storage
  ──────────────────────
  Administrators and their sessions: the tables `admin_users` and
  `admin_sessions` with their transactions (`storage.py`).

  A password change and a TOTP rotation compare the stored row with the one
  their verification read, and delete the administrator's sessions in the same
  transaction.  A session is created without such a comparison.

  Main results:
    • `replaceAdmin_cases` — what a change of an administrator does,
    • `createSession_ok` — what a login adds,
    • `adminForSession_some` — what a token gives access to.
-/
import BasisHawk.Domain.Basic
import BasisHawk.Lib.Table
import BasisHawk.Lib.Transaction

namespace BasisHawk.Auth

open Domain Lib

/-! ## §1. Rows. -/

/-- `AdminUserRow`. -/
structure AdminUserRow where
  id : Nat
  username : String
  passwordHash : String
  totpCiphertext : String
  totpNonce : String
  keyVersion : Nat
  createdAt : Int
  deriving DecidableEq

instance : Keyed AdminUserRow := ⟨(·.id)⟩

/-- `AdminSessionRow`. -/
structure AdminSessionRow where
  tokenHash : String
  adminId : Nat
  csrfHash : String
  createdAt : Int
  expiresAt : Int
  deriving DecidableEq

/-- The two tables and the supply of ids. -/
structure AdminTables where
  admins : List AdminUserRow
  sessions : List AdminSessionRow
  nextId : Nat

namespace AdminTables

/-! ## §2. Queries. -/

/-- `get_admin_by_username`. -/
def getAdminByUsername (db : AdminTables) (username : String) : Option AdminUserRow :=
  db.admins.find? (·.username = username)

/-- The session a token opens at `now`. -/
def openSession (db : AdminTables) (tokenHash : String) (now : Int) : Option AdminSessionRow :=
  db.sessions.find? fun s => s.tokenHash = tokenHash ∧ now < s.expiresAt

/-- `admin_for_session`. -/
def adminForSession (db : AdminTables) (tokenHash : String) (now : Int) : Option AdminUserRow := do
  let s ← db.openSession tokenHash now
  Table.find? db.admins s.adminId

/-! ## §3. Transactions. -/

/-- `create_admin`. -/
def createAdmin (username passwordHash totpCiphertext totpNonce : String) (keyVersion : Nat)
    (now : Int) (db : AdminTables) : Except Exc (AdminUserRow × AdminTables) := do
  raiseIf (∃ row ∈ db.admins, row.username = username) (.integrity "admin_users.username")
  let row : AdminUserRow := {
    id := db.nextId
    username
    passwordHash
    totpCiphertext
    totpNonce
    keyVersion
    createdAt := now }
  .ok (row, { db with
    admins := db.admins ++ [row]
    nextId := db.nextId + 1 })

/-- An administrator's row changes if it is the expected one, and all of the
administrator's sessions end. -/
def replaceAdmin (username : String) (expected : AdminUserRow → Bool)
    (change : AdminUserRow → AdminUserRow) (db : AdminTables) : Bool × AdminTables :=
  match db.getAdminByUsername username with
  | none => (false, db)
  | some row =>
      if expected row then (true, { db with
        admins := Table.put db.admins (change row)
        sessions := db.sessions.filter (·.adminId ≠ row.id) })
      else (false, db)

/-- `rotate_admin_totp`. -/
def rotateAdminTotp (username expectedNonce totpCiphertext totpNonce : String) (keyVersion : Nat)
    (db : AdminTables) : Bool × AdminTables :=
  db.replaceAdmin username (·.totpNonce = expectedNonce) fun row => { row with
    totpCiphertext
    totpNonce
    keyVersion }

/-- `change_admin_password`. -/
def changeAdminPassword (username expectedPasswordHash passwordHash : String) (db : AdminTables) :
    Bool × AdminTables :=
  db.replaceAdmin username (·.passwordHash = expectedPasswordHash) fun row => { row with
    passwordHash }

/-- `create_session`.  The hash of the token is the primary key, and the
administrator a foreign one. -/
def createSession (adminId : Nat) (tokenHash csrfHash : String) (expiresAt now : Int)
    (db : AdminTables) : Except Exc AdminTables := do
  raiseIf (∃ s ∈ db.sessions, s.tokenHash = tokenHash) (.integrity "admin_sessions.token_hash")
  raiseIf (Table.find? db.admins adminId = none) (.integrity "admin_sessions.admin_id")
  .ok { db with sessions := db.sessions ++ [{
    tokenHash
    adminId
    csrfHash
    createdAt := now
    expiresAt }] }

/-- `delete_session`. -/
def deleteSession (tokenHash : String) (db : AdminTables) : AdminTables :=
  { db with sessions := db.sessions.filter (·.tokenHash ≠ tokenHash) }

/-! ## §4. What they do. -/

theorem getAdminByUsername_some {db : AdminTables} {username : String} {row : AdminUserRow}
    (h : db.getAdminByUsername username = some row) : row ∈ db.admins ∧ row.username = username := by
  refine ⟨List.mem_of_find?_eq_some h, ?_⟩
  simpa using List.find?_some h

/-- A token gives access to the administrator of an open session under its hash. -/
theorem adminForSession_some {db : AdminTables} {tokenHash : String} {now : Int}
    {admin : AdminUserRow} (h : db.adminForSession tokenHash now = some admin) :
    ∃ s ∈ db.sessions, s.tokenHash = tokenHash ∧ now < s.expiresAt ∧ s.adminId = admin.id
      ∧ admin ∈ db.admins := by
  obtain ⟨s, hs, hadmin⟩ := Option.bind_eq_some_iff.mp h
  have hopen : s.tokenHash = tokenHash ∧ now < s.expiresAt := by
    simpa using List.find?_some hs
  obtain ⟨hmem, hid⟩ := Table.find?_some hadmin
  exact ⟨s, List.mem_of_find?_eq_some hs, hopen.1, hopen.2, hid.symm, hmem⟩

/-- A change of an administrator does nothing, or replaces the row it is about
and ends the sessions. -/
theorem replaceAdmin_cases (username : String) (expected : AdminUserRow → Bool)
    (change : AdminUserRow → AdminUserRow) (db : AdminTables) :
    db.replaceAdmin username expected change = (false, db)
      ∨ ∃ row ∈ db.admins, db.getAdminByUsername username = some row ∧ expected row
          ∧ db.replaceAdmin username expected change = (true, { db with
              admins := Table.put db.admins (change row)
              sessions := db.sessions.filter (·.adminId ≠ row.id) }) := by
  unfold replaceAdmin
  cases hfound : db.getAdminByUsername username with
  | none => exact Or.inl rfl
  | some row =>
      by_cases he : expected row
      · exact Or.inr ⟨row, (getAdminByUsername_some hfound).1, rfl, he, if_pos he⟩
      · exact Or.inl (if_neg he)

/-- A login adds one session, under a hash that is new. -/
theorem createSession_ok {db db' : AdminTables} {adminId : Nat} {tokenHash csrfHash : String}
    {expiresAt now : Int} (h : db.createSession adminId tokenHash csrfHash expiresAt now = .ok db') :
    (∀ s ∈ db.sessions, s.tokenHash ≠ tokenHash)
      ∧ db' = { db with sessions := db.sessions ++ [{
          tokenHash
          adminId
          csrfHash
          createdAt := now
          expiresAt }] } := by
  obtain ⟨hnew, h⟩ := raiseIf_bind_eq_ok.mp h
  obtain ⟨-, h⟩ := raiseIf_bind_eq_ok.mp h
  injection h with h
  exact ⟨fun s hs heq => hnew ⟨s, hs, heq⟩, h.symm⟩

/-- A new administrator gets the next identifier, and the row is stored as it
was given. -/
theorem createAdmin_ok {db db' : AdminTables} {row : AdminUserRow}
    {username passwordHash totpCiphertext totpNonce : String} {keyVersion : Nat} {now : Int}
    (h : db.createAdmin username passwordHash totpCiphertext totpNonce keyVersion now
      = .ok (row, db')) :
    row.id = db.nextId ∧ db' = { db with
      admins := db.admins ++ [row]
      nextId := db.nextId + 1 } := by
  obtain ⟨-, h⟩ := raiseIf_bind_eq_ok.mp h
  injection h with h
  rw [Prod.mk.injEq] at h
  obtain ⟨hrow, hdb⟩ := h
  rw [← hrow]
  exact ⟨rfl, hdb.symm⟩

end AdminTables

end BasisHawk.Auth
