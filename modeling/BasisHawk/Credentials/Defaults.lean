/-
  BasisHawk.Credentials.Defaults
  ──────────────────────────────
  The two default flags of an account through every sequence of operations of
  `CredentialService`.

  Both flags are marks in the sense of `Lib.Marks`: the group is the exchange
  and environment, the members are its credentials.  A save hands a mark over,
  leaves it where it is or lets a new member join; a deletion promotes the
  oldest member left; `set_defaults` hands it over or takes it away.

  Main results:
    • `save_single`, `withoutRow_single`, `setDefaults_single` — the operations
      on one flag,
    • `default_accounts` — every group has exactly one default of either kind,
      after every operation, exactly if no `set_defaults` takes a flag away
      from its holder.
-/
import BasisHawk.Credentials.Storage
import BasisHawk.Lib.Marks

namespace BasisHawk.Credentials

open Domain Lib
open Reconciliation (Account Control)

/-! ## §1. Operations. -/

/-- The operations of `CredentialService` that write.  `encrypted` is what the
cipher returns; `referenced` says whether tasks or strategies use the row. -/
inductive CredentialOp where
  | save (a : Account) (label : String) (secrets : ExchangeSecrets) (encrypted : EncryptedPayload)
  | createAccount (a : Account) (label : String) (secrets : ExchangeSecrets)
      (encrypted : EncryptedPayload) (tradingDefault scannerDefault : Bool)
      (fees : Option AccountFeeSchedule)
  | replaceAccount (accountId : Nat) (label : String) (secrets : ExchangeSecrets)
      (encrypted : EncryptedPayload) (fees : Option AccountFeeSchedule)
  | updatePositionMode (environment : ExchangeEnvironment) (backed : environment ≠ .paper)
      (encrypted : Except Exc EncryptedPayload)
  | updateAccountMetadata (accountId : Nat) (capabilities : Option AccountCapabilities)
      (fees : Option AccountFeeSchedule) (encrypted : Except Exc EncryptedPayload)
  | setDefaults (accountId : Nat) (tradingDefault scannerDefault : Bool)
  | delete (a : Account) (referenced : Bool)
  | deleteAccount (accountId : Nat) (referenced : Bool)

/-- The state a transaction leaves behind. -/
def after {α : Type} (tx : Vault → Except Exc (α × Vault)) (v : Vault) : Vault := (commit tx v).2

/-- One operation at an instant. -/
def CredentialOp.perform (now : Int) : CredentialOp → Vault → Vault
  | .save a label secrets encrypted => after (Vault.save a label secrets encrypted now)
  | .createAccount a label secrets encrypted trading scanner fees =>
      after (Vault.createAccount a label secrets encrypted trading scanner fees now)
  | .replaceAccount accountId label secrets encrypted fees =>
      after (Vault.replaceAccount accountId label secrets encrypted fees now)
  | .updatePositionMode environment backed encrypted =>
      after (Vault.updatePositionMode ⟨.bybit, environment, backed⟩ encrypted now)
  | .updateAccountMetadata accountId capabilities fees encrypted =>
      after (Vault.updateAccountMetadata accountId capabilities fees encrypted now)
  | .setDefaults accountId trading scanner => after (Vault.setDefaults accountId trading scanner now)
  | .delete a referenced => after (Vault.delete a referenced)
  | .deleteAccount accountId referenced => after (Vault.deleteAccount accountId referenced)

/-- A sequence of operations, each at its instant. -/
def perform (ops : List (CredentialOp × Int)) (v : Vault) : Vault :=
  ops.foldl (fun v op => op.1.perform op.2 v) v

/-- No account is configured. -/
def unconfigured (control : Control) : Vault := ⟨[], control, 0⟩

/-! ## §2. The two flags. -/

/-- The two kinds of default. -/
inductive DefaultRole where
  | trading | scanner
  deriving DecidableEq

/-- The flag of a row. -/
def ExchangeCredentialRow.flag (r : ExchangeCredentialRow) : DefaultRole → Bool
  | .trading => r.isDefault
  | .scanner => r.scannerDefault

/-- One of two values by role. -/
def DefaultRole.pick {α : Type} (trading scanner : α) : DefaultRole → α
  | .trading => trading
  | .scanner => scanner

/-- What a save asks of a flag. -/
def SaveRequest.requested (req : SaveRequest) (role : DefaultRole) : Option Bool :=
  role.pick req.isDefault req.scannerDefault

/-- The rows as members of their accounts, with the mark of a role. -/
def marks (role : DefaultRole) (rows : List ExchangeCredentialRow) : List (Mark Account) :=
  rows.map fun r => ⟨r.id, r.account, r.flag role⟩

/-- The marks of a table, read back: an account has a member for each of its
rows. -/
theorem member_marks {role : DefaultRole} {rows : List ExchangeCredentialRow} {a : Account}
    {k : Nat} : Mark.Member (marks role rows) a k ↔ ∃ r ∈ rows, r.account = a ∧ r.id = k := by
  simp [Mark.Member, marks]

/-- The holders of a mark are the rows whose flag is set; both flags go through
the one notion of a mark. -/
theorem holder_marks {role : DefaultRole} {rows : List ExchangeCredentialRow} {a : Account}
    {k : Nat} : Mark.Holder (marks role rows) a k
      ↔ ∃ r ∈ rows, r.account = a ∧ r.id = k ∧ r.flag role = true := by
  simp [Mark.Holder, marks]

/-- Ids are unique, and new ones are fresh. -/
structure Stored (v : Vault) : Prop where
  unique : Table.Unique v.rows
  below : Table.KeysBelow v.rows v.nextId

/-- The rows after a replacement. -/
theorem marks_put {role : DefaultRole} {rows : List ExchangeCredentialRow}
    {row : ExchangeCredentialRow} :
    marks role (Table.put rows row) = (marks role rows).map fun m =>
      if m.key = row.id then ⟨row.id, row.account, row.flag role⟩ else m := by
  unfold marks Table.put
  rw [List.map_map, List.map_map]
  refine List.map_congr_left fun r _ => ?_
  show (⟨(if r.id = row.id then row else r).id, (if r.id = row.id then row else r).account,
    (if r.id = row.id then row else r).flag role⟩ : Mark Account)
      = if r.id = row.id then _ else ⟨r.id, r.account, r.flag role⟩
  split <;> rfl

@[simp] theorem clearedRow_id (a : Account) (trading scanner : Bool) (r : ExchangeCredentialRow) :
    (clearedRow a trading scanner r).id = r.id := by
  unfold clearedRow
  split <;> rfl

@[simp] theorem clearedRow_account (a : Account) (trading scanner : Bool)
    (r : ExchangeCredentialRow) : (clearedRow a trading scanner r).account = r.account := by
  unfold clearedRow
  split <;> rfl

/-- Clearing the defaults of an account takes the flags that the request picks
from its rows, and no other. -/
theorem clearedRow_flag (role : DefaultRole) (a : Account) (trading scanner : Bool)
    (r : ExchangeCredentialRow) : (clearedRow a trading scanner r).flag role
      = if r.account = a then r.flag role && !role.pick trading scanner else r.flag role := by
  unfold clearedRow
  split
  · cases role <;> rfl
  · rfl

/-- The rows after the flags of an account are cleared. -/
theorem marks_clearDefaults {role : DefaultRole} {a : Account} {trading scanner : Bool}
    {rows : List ExchangeCredentialRow} :
    marks role (clearDefaults a trading scanner rows) = (marks role rows).map fun m =>
      if m.group = a then { m with held := m.held && !role.pick trading scanner } else m := by
  unfold marks clearDefaults
  rw [List.map_map, List.map_map]
  refine List.map_congr_left fun r _ => ?_
  show (⟨_, _, _⟩ : Mark Account) = if r.account = a then _ else _
  rw [clearedRow_id, clearedRow_account, clearedRow_flag]
  split <;> rfl

/-! ## §3. One row of an account is rewritten. -/

section Rewrite

variable {role : DefaultRole} {rows : List ExchangeCredentialRow} {row new : ExchangeCredentialRow}
  {trading scanner : Bool} {a : Account}

/-- The row under a key is replaced, the other rows of its account cleared. -/
theorem marks_rewrite (hkey : new.id = row.id) :
    marks role (Table.put (clearDefaults row.account trading scanner rows) new)
      = rows.map fun r => if r.id = row.id then ⟨row.id, new.account, new.flag role⟩
          else ⟨r.id, r.account, if r.account = row.account
            then r.flag role && !role.pick trading scanner else r.flag role⟩ := by
  rw [marks_put, marks_clearDefaults, hkey, marks, List.map_map, List.map_map]
  refine List.map_congr_left fun r _ => ?_
  simp only [Function.comp_apply]
  by_cases ha : r.account = row.account
  · rw [if_pos ha, if_pos ha]
  · rw [if_neg ha, if_neg ha]

/-- The row gets the mark. -/
theorem marks_give (hu : Table.Unique rows) (hrow : row ∈ rows) (hkey : new.id = row.id)
    (hsame : new.account = row.account) (hclear : role.pick trading scanner = true)
    (hflag : new.flag role = true) :
    marks role (Table.put (clearDefaults row.account trading scanner rows) new)
      = Mark.give row.account row.id (marks role rows) := by
  rw [marks_rewrite hkey, marks, Mark.give, List.map_map]
  refine List.map_congr_left fun r hr => ?_
  simp only [Function.comp_apply, hclear, Bool.not_true, Bool.and_false]
  by_cases hid : r.id = row.id
  · have heq : r = row := hu.eq hr hrow hid
    rw [if_pos hid, heq, if_pos rfl, hsame, hflag]
    simp
  · rw [if_neg hid]
    by_cases ha : r.account = row.account
    · simp [ha, hid]
    · simp [ha]

/-- The flags stay. -/
theorem marks_same (hu : Table.Unique rows) (hrow : row ∈ rows) (hkey : new.id = row.id)
    (hsame : new.account = row.account) (hclear : role.pick trading scanner = false)
    (hflag : new.flag role = row.flag role) :
    marks role (Table.put (clearDefaults row.account trading scanner rows) new)
      = marks role rows := by
  rw [marks_rewrite hkey, marks]
  refine List.map_congr_left fun r hr => ?_
  simp only [hclear, Bool.not_false, Bool.and_true, ite_self]
  split
  · next hid =>
      have heq : r = row := hu.eq hr hrow hid
      rw [heq, hsame, hflag]
  · rfl

/-- The row loses the mark. -/
theorem marks_drop (hu : Table.Unique rows) (hrow : row ∈ rows) (hkey : new.id = row.id)
    (hsame : new.account = row.account) (hclear : role.pick trading scanner = false)
    (hflag : new.flag role = false) :
    marks role (Table.put (clearDefaults row.account trading scanner rows) new)
      = Mark.drop row.id (marks role rows) := by
  rw [marks_rewrite hkey, marks, Mark.drop, List.map_map]
  refine List.map_congr_left fun r hr => ?_
  simp only [Function.comp_apply, hclear, Bool.not_false, Bool.and_true, ite_self]
  split
  · next hid =>
      have heq : r = row := hu.eq hr hrow hid
      rw [heq, hsame, hflag]
  · rfl

/-- Unless the row loses a mark it holds, every group keeps exactly one. -/
theorem rewrite_single (hu : Table.Unique rows) (hrow : row ∈ rows) (hkey : new.id = row.id)
    (hsame : new.account = row.account)
    (hflag : new.flag role = (role.pick trading scanner || (row.flag role && new.flag role)))
    (hkept : row.flag role = true → new.flag role = true)
    (h : ∀ a, Mark.SingleIn (marks role rows) a) (a : Account) :
    Mark.SingleIn (marks role (Table.put (clearDefaults row.account trading scanner rows) new))
      a := by
  cases hclear : role.pick trading scanner with
  | true =>
      have hnew : new.flag role = true := by rw [hflag, hclear, Bool.true_or]
      rw [marks_give hu hrow hkey hsame hclear hnew]
      by_cases ha : a = row.account
      · rw [ha]
        exact Mark.singleIn_give (member_marks.mpr ⟨row, hrow, rfl, rfl⟩)
      · exact (Mark.singleIn_give_ne ha).mpr (h a)
  | false =>
      have hnew : new.flag role = row.flag role := by
        rw [hclear, Bool.false_or] at hflag
        cases hr : row.flag role with
        | true => exact hkept hr
        | false => rw [hflag, hr, Bool.false_and]
      rw [marks_same hu hrow hkey hsame hclear hnew]
      exact h a

end Rewrite

/-! ## §4. Saving. -/

theorem mem_accountRows {v : Vault} {a : Account} {r : ExchangeCredentialRow} :
    r ∈ v.accountRows a ↔ r ∈ v.rows ∧ r.account = a := by
  simp [Vault.accountRows]

theorem oldest_some {rows : List ExchangeCredentialRow} {r : ExchangeCredentialRow}
    (h : oldest rows = some r) : r ∈ rows :=
  List.argmin_mem h

/-- No oldest row only where there is no row at all, so a default can always be
handed on. -/
theorem oldest_none {rows : List ExchangeCredentialRow} (h : oldest rows = none) : rows = [] :=
  List.argmin_eq_none.mp h

/-- The row that is preferred as the next default is one of the rows. -/
theorem preferred_some {rows : List ExchangeCredentialRow} {r : ExchangeCredentialRow}
    (h : preferred rows = some r) : r ∈ rows := by
  rcases Option.or_eq_some_iff.mp h with h | ⟨-, h⟩
  · exact (List.mem_filter.mp (oldest_some h)).1
  · exact oldest_some h

/-- The row that a request replaces belongs to the account of the request. -/
theorem savedTarget_some {v : Vault} {req : SaveRequest} {row : ExchangeCredentialRow}
    (h : v.savedTarget req = some row) : row ∈ v.rows ∧ row.account = req.account := by
  unfold Vault.savedTarget at h
  split at h
  · exact mem_accountRows.mp (List.mem_of_find?_eq_some h)
  · exact mem_accountRows.mp (preferred_some h)

/-- A request that names a row replaces that row or none. -/
theorem savedTarget_id {v : Vault} {req : SaveRequest} {row : ExchangeCredentialRow} {id : Nat}
    (h : v.savedTarget req = some row) (hid : req.credentialId = some id) : row.id = id := by
  unfold Vault.savedTarget at h
  rw [hid] at h
  have h : (v.accountRows req.account).find? (·.id = id) = some row := h
  simpa using List.find?_some h

/-- The two ways a save ends: a row of the account is brought up to date, or a
new one joins under an id that was free. -/
theorem saveExchangeCredential_ok {v v' : Vault} {req : SaveRequest} {now : Int}
    {r : ExchangeCredentialRow} (h : v.saveExchangeCredential req now = .ok (r, v')) :
    (∃ row, v.savedTarget req = some row ∧ v'.nextId = v.nextId
        ∧ v'.rows = Table.put
          (clearDefaults req.account (makesDefault (v.accountRows req.account) req.isDefault)
            (makesDefault (v.accountRows req.account) req.scannerDefault) v.rows)
          (savedRow req (makesDefault (v.accountRows req.account) req.isDefault)
            (makesDefault (v.accountRows req.account) req.scannerDefault) now row))
      ∨ ((∀ id ∈ req.credentialId, v.exchangeCredentialById id = none)
        ∧ v'.nextId = max v.nextId (req.credentialId.getD v.nextId) + 1
        ∧ v'.rows = clearDefaults req.account
            (makesDefault (v.accountRows req.account) req.isDefault)
            (makesDefault (v.accountRows req.account) req.scannerDefault) v.rows
          ++ [newRow req (req.credentialId.getD v.nextId)
            (makesDefault (v.accountRows req.account) req.isDefault)
            (makesDefault (v.accountRows req.account) req.scannerDefault) now]) := by
  unfold Vault.saveExchangeCredential at h
  simp only [raiseIf_bind_eq_ok] at h
  obtain ⟨hfree, -, h⟩ := h
  split at h
  · -- A row to save to: the id given, or the only row of the account.
    next row htarget =>
      injection h with h
      obtain ⟨-, rfl⟩ := Prod.mk.inj h
      exact .inl ⟨row, htarget, rfl, rfl⟩
  · -- No such row, so an id that was given is free.
    next htarget =>
      injection h with h
      obtain ⟨-, rfl⟩ := Prod.mk.inj h
      refine .inr ⟨fun id hid => ?_, rfl, rfl⟩
      by_contra hne
      exact hfree ⟨htarget, id, hid, hne⟩

/-- Clearing the defaults changes flags, not keys. -/
theorem clearDefaults_keys {a : Account} {trading scanner : Bool}
    {rows : List ExchangeCredentialRow} :
    (clearDefaults a trading scanner rows).map key = rows.map key := by
  unfold clearDefaults
  rw [List.map_map]
  exact List.map_congr_left fun r _ => clearedRow_id a trading scanner r

/-- Distinct keys stay distinct where only other columns change. -/
theorem unique_of_keys {rows rows' : List ExchangeCredentialRow} (h : rows'.map key = rows.map key)
    (hu : Table.Unique rows) : Table.Unique rows' := by
  unfold Table.Unique
  rw [h]
  exact hu

/-- And keys below the next identifier stay below it. -/
theorem below_of_keys {rows rows' : List ExchangeCredentialRow} {n : Nat}
    (h : rows'.map key = rows.map key) (hb : Table.KeysBelow rows n) :
    Table.KeysBelow rows' n := by
  intro r hr
  have hmem : key r ∈ rows.map key := h ▸ List.mem_map_of_mem hr
  obtain ⟨r', hr', hk⟩ := List.mem_map.mp hmem
  exact hk ▸ hb r' hr'

/-- The id of a new row is not in the table. -/
theorem free_id {v : Vault} (hs : Stored v) {credentialId : Option Nat}
    (h : ∀ id ∈ credentialId, v.exchangeCredentialById id = none) :
    ∀ r ∈ v.rows, r.id ≠ credentialId.getD v.nextId := by
  intro r hr heq
  cases credentialId with
  | none => exact absurd (hs.below r hr) (by rw [show key r = v.nextId from heq]; omega)
  | some id =>
      have hnone : Table.find? v.rows id = none := h id rfl
      have hsome : Table.find? v.rows id = some r :=
        (Table.find?_eq_some_iff hs.unique).mpr ⟨hr, heq⟩
      rw [hsome] at hnone
      cases hnone

/-- Saving a credential keeps the table in order: distinct keys, all below the
next identifier. -/
theorem save_stored {v v' : Vault} {req : SaveRequest} {now : Int} {r : ExchangeCredentialRow}
    (hs : Stored v) (h : v.saveExchangeCredential req now = .ok (r, v')) : Stored v' := by
  have hclear := @clearDefaults_keys req.account
    (makesDefault (v.accountRows req.account) req.isDefault)
    (makesDefault (v.accountRows req.account) req.scannerDefault) v.rows
  have hu := unique_of_keys hclear hs.unique
  have hb := below_of_keys hclear hs.below
  rcases saveExchangeCredential_ok h with ⟨row, -, hnext, hrows⟩ | ⟨hfree, hnext, hrows⟩
  · constructor
    · rw [hrows]
      exact hu.put _
    · rw [hrows, hnext]
      exact hb.put _
  · constructor
    · rw [hrows]
      unfold Table.Unique
      rw [List.map_append, hclear]
      refine List.nodup_append.mpr ⟨hs.unique, List.nodup_singleton _, fun k hk k' hk' heq => ?_⟩
      obtain ⟨old, hold, rfl⟩ := List.mem_map.mp hk
      exact free_id hs hfree old hold (heq.trans (List.mem_singleton.mp hk'))
    · rw [hrows, hnext]
      refine hb.append (by omega) ?_
      show req.credentialId.getD v.nextId < _
      omega

/-- The flag of a row that is replaced: made default, or as requested, or as it
was. -/
theorem savedRow_flag (role : DefaultRole) (req : SaveRequest) (trading scanner : Bool) (now : Int)
    (row : ExchangeCredentialRow) : (savedRow req trading scanner now row).flag role
      = (role.pick trading scanner || (req.requested role).getD (row.flag role)) := by
  cases role <;> rfl

/-- The flag of a new row: set exactly if the request makes it default. -/
theorem newRow_flag (role : DefaultRole) (req : SaveRequest) (id : Nat) (trading scanner : Bool)
    (now : Int) : (newRow req id trading scanner now).flag role = role.pick trading scanner := by
  cases role <;> rfl

/-- Whether a request makes its row the default is decided for the two flags in
the same way. -/
theorem pick_makesDefault (role : DefaultRole) (rows : List ExchangeCredentialRow)
    (req : SaveRequest) :
    role.pick (makesDefault rows req.isDefault) (makesDefault rows req.scannerDefault)
      = makesDefault rows (req.requested role) := by
  cases role <;> rfl

/-- A new row that makes itself the default. -/
theorem marks_join_give {role : DefaultRole} {rows : List ExchangeCredentialRow}
    {new : ExchangeCredentialRow} {trading scanner : Bool} (hfree : ∀ r ∈ rows, r.id ≠ new.id)
    (hclear : role.pick trading scanner = true) (hflag : new.flag role = true) :
    marks role (clearDefaults new.account trading scanner rows ++ [new])
      = Mark.give new.account new.id (marks role (rows ++ [new])) := by
  unfold Mark.give marks
  rw [List.map_append, List.map_append, List.map_append]
  have hold := @marks_clearDefaults role new.account trading scanner rows
  unfold marks at hold
  rw [hold]
  congr 1
  · rw [List.map_map, List.map_map]
    refine List.map_congr_left fun r hr => ?_
    have hne : ¬r.id = new.id := hfree r hr
    simp [hclear, hne]
  · simp [hflag]

/-- A new row that leaves the flags alone. -/
theorem marks_join {role : DefaultRole} {rows : List ExchangeCredentialRow}
    {new : ExchangeCredentialRow} {trading scanner : Bool}
    (hclear : role.pick trading scanner = false) :
    marks role (clearDefaults new.account trading scanner rows ++ [new])
      = marks role rows ++ [⟨new.id, new.account, new.flag role⟩] := by
  have hsame : marks role (clearDefaults new.account trading scanner rows) = marks role rows := by
    rw [marks_clearDefaults, hclear]
    simp
  rw [← hsame]
  exact List.map_append

/-- A save keeps one mark in every group, unless it takes the mark away from the
row it is about. -/
theorem save_single {v v' : Vault} {req : SaveRequest} {now : Int} {r : ExchangeCredentialRow}
    {role : DefaultRole} (hs : Stored v) (h : v.saveExchangeCredential req now = .ok (r, v'))
    (hreq : ∀ row, v.savedTarget req = some row → row.flag role = true →
      req.requested role ≠ some false)
    (hsingle : ∀ a, Mark.SingleIn (marks role v.rows) a) (a : Account) :
    Mark.SingleIn (marks role v'.rows) a := by
  rcases saveExchangeCredential_ok h with ⟨row, htarget, -, hrows⟩ | ⟨hfree, -, hrows⟩
  · obtain ⟨hrow, haccount⟩ := savedTarget_some htarget
    have hmember : (v.accountRows req.account).isEmpty = false := by
      have hmem := mem_accountRows.mpr ⟨hrow, haccount⟩
      cases hcase : v.accountRows req.account with
      | nil =>
          rw [hcase] at hmem
          cases hmem
      | cons _ _ => rfl
    rw [hrows, ← haccount]
    rw [← haccount] at hmember
    have hkey : (savedRow req (makesDefault (v.accountRows row.account) req.isDefault)
        (makesDefault (v.accountRows row.account) req.scannerDefault) now row).id = row.id := rfl
    refine rewrite_single hs.unique hrow hkey rfl ?_ ?_ hsingle a
    · rw [savedRow_flag, pick_makesDefault]
      unfold makesDefault
      rw [hmember, Bool.false_or]
      cases req.requested role with
      | none => simp
      | some b => cases b <;> simp
    · intro hflag
      have hask := hreq row htarget hflag
      rw [savedRow_flag, pick_makesDefault]
      unfold makesDefault
      rw [hmember, Bool.false_or]
      cases hb : req.requested role with
      | none => simpa using hflag
      | some b =>
          cases b with
          | true => rfl
          | false => exact absurd hb hask
  · rw [hrows]
    generalize hnew : newRow req (req.credentialId.getD v.nextId)
      (makesDefault (v.accountRows req.account) req.isDefault)
      (makesDefault (v.accountRows req.account) req.scannerDefault) now = new
    have hid : new.id = req.credentialId.getD v.nextId := by rw [← hnew]; rfl
    have haccount : new.account = req.account := by rw [← hnew]; rfl
    have hflag : new.flag role = makesDefault (v.accountRows req.account) (req.requested role) := by
      rw [← hnew, newRow_flag, pick_makesDefault]
    have hpick := pick_makesDefault role (v.accountRows req.account) req
    rw [← haccount] at hpick hflag ⊢
    cases hmake : makesDefault (v.accountRows new.account) (req.requested role) with
    | true =>
        rw [hmake] at hpick hflag
        rw [marks_join_give (fun r hr => hid ▸ free_id hs hfree r hr) hpick hflag]
        by_cases ha : a = new.account
        · rw [ha]
          exact Mark.singleIn_give (member_marks.mpr
            ⟨new, List.mem_append_right _ List.mem_cons_self, rfl, rfl⟩)
        · rw [Mark.singleIn_give_ne ha]
          unfold marks
          rw [List.map_append]
          exact (Mark.singleIn_append_ne (m := ⟨new.id, new.account, new.flag role⟩) ha).mpr
            (hsingle a)
    | false =>
        rw [hmake] at hpick hflag
        rw [marks_join hpick, hflag]
        by_cases ha : a = new.account
        · rw [ha]
          -- The group has members, or the new row would make itself the default.
          refine Mark.singleIn_append ?_ (hsingle _)
          unfold makesDefault at hmake
          cases hcase : v.accountRows new.account with
          | nil =>
              rw [hcase] at hmake
              cases hmake
          | cons old _ =>
              have hold : old ∈ v.accountRows new.account := hcase ▸ List.mem_cons_self
              obtain ⟨hold, hacc⟩ := mem_accountRows.mp hold
              exact ⟨old.id, member_marks.mpr ⟨old, hold, hacc, rfl⟩⟩
        · exact (Mark.singleIn_append_ne (m := ⟨new.id, new.account, false⟩) ha).mpr (hsingle a)

/-! ## §5. Deleting. -/

section Delete

variable {rows : List ExchangeCredentialRow} {row : ExchangeCredentialRow} {role : DefaultRole}

/-- Deleting a row removes its mark and leaves the others. -/
theorem marks_filter : marks role (rows.filter (·.id ≠ row.id))
    = Mark.remove row.id (marks role rows) := by
  unfold marks Mark.remove
  rw [List.filter_map]
  rfl

/-- The two ways a row leaves: it was the last of its account, or the oldest one
left inherits its flags. -/
theorem withoutRow_cases (hu : Table.Unique rows) :
    (withoutRow row rows = rows.filter (·.id ≠ row.id)
        ∧ ∀ r ∈ rows, r.account = row.account → r.id = row.id)
      ∨ ∃ heir ∈ rows, heir.account = row.account ∧ heir.id ≠ row.id
        ∧ (withoutRow row rows).map key = (rows.filter (·.id ≠ row.id)).map key
        ∧ ∀ role, marks role (withoutRow row rows)
          = if row.flag role then Mark.promote heir.id (Mark.remove row.id (marks role rows))
            else Mark.remove row.id (marks role rows) := by
  unfold withoutRow
  have hrest : Table.Unique (rows.filter (·.id ≠ row.id)) :=
    hu.sublist (List.filter_sublist.map key)
  dsimp only
  split
  · next hnone =>
      refine .inl ⟨rfl, fun r hr haccount => ?_⟩
      by_contra hne
      have hmem : r ∈ (rows.filter (·.id ≠ row.id)).filter (·.account = row.account) := by
        simp [hr, hne, haccount]
      rw [oldest_none hnone] at hmem
      cases hmem
  · next heir hsome =>
      obtain ⟨hheir, haccount⟩ := List.mem_filter.mp (oldest_some hsome)
      obtain ⟨hmem, hne⟩ := List.mem_filter.mp hheir
      refine .inr ⟨heir, hmem, by simpa using haccount, by simpa using hne, Table.map_key_put,
        fun role => ?_⟩
      rw [marks_put, ← marks_filter]
      -- The heir's flag is the row's or its own.
      have hflag : ({ heir with
          isDefault := heir.isDefault || row.isDefault
          scannerDefault := heir.scannerDefault || row.scannerDefault } :
            ExchangeCredentialRow).flag role = (heir.flag role || row.flag role) := by
        cases role <;> rfl
      rw [hflag]
      unfold Mark.promote marks
      split
      · next hheld =>
          refine List.map_congr_left fun m hm => ?_
          obtain ⟨r, hr, rfl⟩ := List.mem_map.mp hm
          by_cases hid : r.id = heir.id
          · have heq : r = heir := hrest.eq hr hheir hid
            simp [heq, hheld]
          · simp [hid]
      · next hheld =>
          refine (List.map_congr_left fun m hm => ?_).trans (List.map_id _)
          obtain ⟨r, hr, rfl⟩ := List.mem_map.mp hm
          by_cases hid : r.id = heir.id
          · have heq : r = heir := hrest.eq hr hheir hid
            simp [heq, hheld]
          · simp [hid]

/-- A deletion keeps one mark in every group that is left. -/
theorem withoutRow_single (hu : Table.Unique rows) (hrow : row ∈ rows)
    (hsingle : ∀ a, Mark.SingleIn (marks role rows) a) (a : Account) :
    Mark.SingleIn (marks role (withoutRow row rows)) a := by
  -- The row is a member of its own account only.
  have hother : a ≠ row.account → ¬Mark.Member (marks role rows) a row.id := by
    intro ha hmember
    obtain ⟨r, hr, haccount, hid⟩ := member_marks.mp hmember
    have heq : r = row := hu.eq hr hrow hid
    exact ha (by rw [← haccount, heq])
  have hholder : Mark.Holder (marks role rows) row.account row.id ↔ row.flag role = true := by
    rw [holder_marks]
    constructor
    · rintro ⟨r, hr, -, hid, hflag⟩
      have heq : r = row := hu.eq hr hrow hid
      exact heq ▸ hflag
    · exact fun hflag => ⟨row, hrow, rfl, rfl, hflag⟩
  -- Either nobody of the account is left, or there is an heir.
  rcases @withoutRow_cases rows row hu with ⟨hrows, hlast⟩ | ⟨heir, hheir, haccount, hne, -, hmarks⟩
  · rw [hrows, marks_filter]
    by_cases ha : a = row.account
    · rintro ⟨k, hmember⟩
      obtain ⟨hmember, hk⟩ := Mark.member_remove.mp hmember
      obtain ⟨r, hr, hacc, hid⟩ := member_marks.mp hmember
      exact absurd (hid.symm.trans (hlast r hr (hacc.trans ha))) hk
    · exact (Mark.singleIn_remove_ne (hother ha)).mpr (hsingle a)
  · have hleft : Mark.Member (Mark.remove row.id (marks role rows)) row.account heir.id :=
      Mark.member_remove.mpr ⟨member_marks.mpr ⟨heir, hheir, haccount, rfl⟩, hne⟩
    rw [hmarks role]
    split
    · -- The row held the mark: the heir gets it.
      next hflag =>
        by_cases ha : a = row.account
        · rw [ha]
          exact Mark.singleIn_promote (hholder.mpr hflag) (hsingle _) hleft
        · have hheirNot : ¬Mark.Member (Mark.remove row.id (marks role rows)) a heir.id := by
            intro hmember
            obtain ⟨r, hr, hacc, hid⟩ := member_marks.mp (Mark.member_remove.mp hmember).1
            have heq : r = heir := hu.eq hr hheir hid
            exact ha (by rw [← hacc, heq, haccount])
          rw [Mark.singleIn_promote_ne hheirNot, Mark.singleIn_remove_ne (hother ha)]
          exact hsingle a
    · -- The row did not hold it: nothing is handed over.
      next hflag =>
        by_cases ha : a = row.account
        · rw [ha]
          exact Mark.singleIn_remove (mt hholder.mp hflag) (hsingle _)
        · exact (Mark.singleIn_remove_ne (hother ha)).mpr (hsingle a)

/-- Deleting a row keeps the table in order. -/
theorem withoutRow_stored {v : Vault} (hs : Stored v) (row : ExchangeCredentialRow)
    (control : Control) : Stored { v with
      rows := withoutRow row v.rows
      control } := by
  have hrest : Table.Unique (v.rows.filter (·.id ≠ row.id)) :=
    hs.unique.sublist (List.filter_sublist.map key)
  have hkeys : (withoutRow row v.rows).map key = (v.rows.filter (·.id ≠ row.id)).map key := by
    rcases @withoutRow_cases v.rows row hs.unique with ⟨hrows, -⟩ | ⟨heir, -, -, -, hkeys, -⟩
    · rw [hrows]
    · exact hkeys
  refine ⟨unique_of_keys hkeys hrest, below_of_keys hkeys fun r hr => ?_⟩
  exact hs.below r (List.mem_filter.mp hr).1

end Delete

/-! ## §6. What an operation does. -/

/-- The save leaves every mark with the row it is about. -/
def KeepsMarks (v : Vault) (req : SaveRequest) : Prop :=
  ∀ role row, v.savedTarget req = some row → row.flag role = true →
    req.requested role ≠ some false

/-- A save of a row by its id, with flags that are the row's own or set. -/
theorem keepsMarks_of_row {v : Vault} {req : SaveRequest} (hu : Table.Unique v.rows)
    {old : ExchangeCredentialRow} (hold : old ∈ v.rows) (hid : req.credentialId = some old.id)
    (htrading : req.isDefault = some true ∨ req.isDefault = some old.isDefault)
    (hscanner : req.scannerDefault = some old.scannerDefault) : KeepsMarks v req := by
  intro role row htarget hflag
  have hrow := (savedTarget_some htarget).1
  have heq : row = old := hu.eq hrow hold (savedTarget_id htarget hid)
  rw [heq] at hflag
  cases role with
  | trading =>
      have hflag : old.isDefault = true := hflag
      show req.isDefault ≠ some false
      rcases htrading with h | h
      · rw [h]
        decide
      · rw [h, hflag]
        decide
  | scanner =>
      have hflag : old.scannerDefault = true := hflag
      show req.scannerDefault ≠ some false
      rw [hscanner, hflag]
      decide

/-- What a saved account comes to: one request to the table, for this account,
with both flags as the caller gave them. -/
theorem saveAccount_ok {v v' : Vault} {accountId : Option Nat} {a : Account} {label : String}
    {secrets : ExchangeSecrets} {encrypted : EncryptedPayload} {trading scanner : Bool}
    {fees : Option AccountFeeSchedule} {now : Int} {r : ExchangeCredentialRow}
    (h : v.saveAccount accountId a label secrets encrypted trading scanner fees now = .ok (r, v')) :
    ∃ req : SaveRequest, v.saveExchangeCredential req now = .ok (r, v') ∧ req.account = a
      ∧ req.credentialId = accountId ∧ req.isDefault = some trading
      ∧ req.scannerDefault = some scanner := by
  obtain ⟨-, -, h⟩ := bind_eq_ok.mp h
  exact ⟨_, h, rfl, rfl, rfl, rfl⟩

/-- The API's `save` is one request that keeps the marks single. -/
theorem save_ok {v v' : Vault} (hs : Stored v) {a : Account} {label : String}
    {secrets : ExchangeSecrets} {encrypted : EncryptedPayload} {now : Int}
    {r : ExchangeCredentialRow} (h : v.save a label secrets encrypted now = .ok (r, v')) :
    ∃ req, v.saveExchangeCredential req now = .ok (r, v') ∧ KeepsMarks v req := by
  obtain ⟨req, hreq, haccount, hid, htrading, hscanner⟩ := saveAccount_ok h
  refine ⟨req, hreq, ?_⟩
  cases hexisting : v.exchangeCredential a with
  | none =>
      rw [hexisting] at hid
      intro role row htarget
      unfold Vault.savedTarget at htarget
      rw [hid, haccount] at htarget
      have hnone : v.exchangeCredential a = some row := htarget
      rw [hexisting] at hnone
      cases hnone
  | some old =>
      rw [hexisting] at hid hscanner
      have hold := (mem_accountRows.mp (preferred_some hexisting)).1
      exact keepsMarks_of_row hs.unique hold hid (.inl htrading) hscanner

/-- So is the creation of an account, whose key is new. -/
theorem createAccount_ok {v v' : Vault} (hs : Stored v) {a : Account} {label : String}
    {secrets : ExchangeSecrets} {encrypted : EncryptedPayload} {trading scanner : Bool}
    {fees : Option AccountFeeSchedule} {now : Int} {r : ExchangeCredentialRow}
    (h : v.createAccount a label secrets encrypted trading scanner fees now = .ok (r, v')) :
    ∃ req, v.saveExchangeCredential req now = .ok (r, v') ∧ KeepsMarks v req := by
  obtain ⟨req, hreq, -, hid, -, -⟩ := saveAccount_ok h
  refine ⟨req, hreq, fun role row htarget => ?_⟩
  -- No row has the fresh id.
  have hbelow : row.id < v.nextId := hs.below row (savedTarget_some htarget).1
  have hfresh := savedTarget_id htarget hid
  omega

/-- And the replacement of an account, whose flags are those that its row has
had. -/
theorem replaceAccount_ok {v v' : Vault} (hs : Stored v) {accountId : Nat} {label : String}
    {secrets : ExchangeSecrets} {encrypted : EncryptedPayload} {fees : Option AccountFeeSchedule}
    {now : Int} {r : ExchangeCredentialRow}
    (h : v.replaceAccount accountId label secrets encrypted fees now = .ok (r, v')) :
    ∃ req, v.saveExchangeCredential req now = .ok (r, v') ∧ KeepsMarks v req := by
  obtain ⟨old, hfound, h⟩ := found_bind_eq_ok.mp h
  obtain ⟨req, hreq, -, hid, htrading, hscanner⟩ := saveAccount_ok h
  obtain ⟨hold, hkey⟩ := Table.find?_some hfound
  have hkey : old.id = accountId := hkey
  rw [← hkey] at hid
  exact ⟨req, hreq, keepsMarks_of_row hs.unique hold hid (.inr htrading) hscanner⟩

/-- A change of the position mode goes through the same request, with no flag
given. -/
theorem updatePositionMode_ok {v v' : Vault} {a : Account}
    {encrypted : Except Exc EncryptedPayload} {now : Int} {r : ExchangeCredentialRow}
    (h : v.updatePositionMode a encrypted now = .ok (r, v')) :
    ∃ req, v.saveExchangeCredential req now = .ok (r, v') ∧ KeepsMarks v req := by
  obtain ⟨row, -, h⟩ := found_bind_eq_ok.mp h
  obtain ⟨payload, -, h⟩ := bind_eq_ok.mp h
  refine ⟨_, h, fun role row _ _ => ?_⟩
  cases role <;> exact fun h => by cases h

/-- So does a change of the fees and the capabilities. -/
theorem updateAccountMetadata_ok {v v' : Vault} (hs : Stored v) {accountId : Nat}
    {capabilities : Option AccountCapabilities} {fees : Option AccountFeeSchedule}
    {encrypted : Except Exc EncryptedPayload} {now : Int} {r : ExchangeCredentialRow}
    (h : v.updateAccountMetadata accountId capabilities fees encrypted now = .ok (r, v')) :
    ∃ req, v.saveExchangeCredential req now = .ok (r, v') ∧ KeepsMarks v req := by
  obtain ⟨row, hfound, h⟩ := found_bind_eq_ok.mp h
  obtain ⟨payload, -, h⟩ := bind_eq_ok.mp h
  obtain ⟨hrow, -⟩ := Table.find?_some hfound
  exact ⟨_, h, keepsMarks_of_row hs.unique hrow rfl (.inr rfl) rfl⟩

/-- What `set_exchange_credential_defaults` leaves of a row. -/
def defaultedRow (trading scanner : Bool) (now : Int) (row : ExchangeCredentialRow) :
    ExchangeCredentialRow :=
  { row with
    isDefault := trading
    scannerDefault := scanner
    updatedAt := now }

/-- What `set_defaults` writes into a row: exactly the two flags it is given. -/
theorem defaultedRow_flag (role : DefaultRole) (trading scanner : Bool) (now : Int)
    (row : ExchangeCredentialRow) :
    (defaultedRow trading scanner now row).flag role = role.pick trading scanner := by
  cases role <;> rfl

/-- Setting the defaults of an account that is not there changes nothing. -/
theorem setDefaults_missing {v : Vault} {accountId : Nat} {trading scanner : Bool} {now : Int}
    (h : v.exchangeCredentialById accountId = none) :
    CredentialOp.perform now (.setDefaults accountId trading scanner) v = v := by
  show (commit _ v).2 = v
  unfold commit Vault.setDefaults Vault.setExchangeCredentialDefaults
  rw [h]

/-- Setting the defaults of an account: the flags that are given are taken from
its scope and written into its row. -/
theorem setDefaults_found {v : Vault} {accountId : Nat} {trading scanner : Bool} {now : Int}
    {row : ExchangeCredentialRow} (h : v.exchangeCredentialById accountId = some row) :
    CredentialOp.perform now (.setDefaults accountId trading scanner) v = { v with
      rows := Table.put (clearDefaults row.account trading scanner v.rows)
        (defaultedRow trading scanner now row)
      control := requestReconciliation (some "exchange account defaults changed") v.control } := by
  show (commit _ v).2 = _
  unfold commit Vault.setDefaults Vault.setExchangeCredentialDefaults
  rw [h]
  rfl

/-- A deletion by account removes one row at most, and hands its flags on. -/
theorem deleteExchangeCredential_ok {v v' : Vault} {a : Account} {referenced deleted : Bool}
    {reason : Option String}
    (h : v.deleteExchangeCredential a referenced reason = .ok (deleted, v')) :
    v' = v ∨ ∃ row ∈ v.rows, ∃ control, v' = { v with
      rows := withoutRow row v.rows
      control } := by
  unfold Vault.deleteExchangeCredential at h
  split at h
  · cases h
    exact .inl rfl
  · next row hrow =>
      obtain ⟨-, h⟩ := raiseIf_bind_eq_ok.mp h
      cases h
      exact .inr ⟨row, (mem_accountRows.mp (preferred_some hrow)).1, _, rfl⟩

/-- A deletion by identifier does the same. -/
theorem deleteExchangeCredentialById_ok {v v' : Vault} {id : Nat} {referenced deleted : Bool}
    {reason : Option String}
    (h : v.deleteExchangeCredentialById id referenced reason = .ok (deleted, v')) :
    v' = v ∨ ∃ row ∈ v.rows, ∃ control, v' = { v with
      rows := withoutRow row v.rows
      control } := by
  unfold Vault.deleteExchangeCredentialById at h
  split at h
  · cases h
    exact .inl rfl
  · next row hrow =>
      obtain ⟨-, h⟩ := raiseIf_bind_eq_ok.mp h
      cases h
      exact .inr ⟨row, (Table.find?_some hrow).1, _, rfl⟩

/-- A request that raises leaves the tables as they were, the other requests
leave what they return. -/
theorem after_cases {α : Type} (tx : Vault → Except Exc (α × Vault)) (v : Vault) :
    after tx v = v ∨ ∃ r, tx v = .ok (r, after tx v) := by
  rcases commit_cases (rfl : commit tx v = ((commit tx v).1, (commit tx v).2)) with
    ⟨r, -, h⟩ | ⟨e, -, -, h⟩
  · exact .inr ⟨r, h⟩
  · exact .inl h

/-- What one operation does to the table: nothing, a save that keeps the marks, a
deletion, or a change of one row's flags. -/
theorem perform_cases {v : Vault} (hs : Stored v) (op : CredentialOp) (now : Int) :
    op.perform now v = v
      ∨ (∃ req r, v.saveExchangeCredential req now = .ok (r, op.perform now v) ∧ KeepsMarks v req)
      ∨ (∃ row ∈ v.rows, ∃ control, op.perform now v = { v with
          rows := withoutRow row v.rows
          control })
      ∨ ∃ row ∈ v.rows, ∃ trading scanner control, op = .setDefaults row.id trading scanner
        ∧ op.perform now v = { v with
          rows := Table.put (clearDefaults row.account trading scanner v.rows)
            (defaultedRow trading scanner now row)
          control } := by
  cases op with
  -- The writes that go through `save_exchange_credential`, each with its own request.
  | save a label secrets encrypted =>
      refine (after_cases _ v).imp_right fun ⟨r, h⟩ => .inl ?_
      obtain ⟨req, hreq, hkeep⟩ := save_ok hs h
      exact ⟨req, r, hreq, hkeep⟩
  | createAccount a label secrets encrypted trading scanner fees =>
      refine (after_cases _ v).imp_right fun ⟨r, h⟩ => .inl ?_
      obtain ⟨req, hreq, hkeep⟩ := createAccount_ok hs h
      exact ⟨req, r, hreq, hkeep⟩
  | replaceAccount accountId label secrets encrypted fees =>
      refine (after_cases _ v).imp_right fun ⟨r, h⟩ => .inl ?_
      obtain ⟨req, hreq, hkeep⟩ := replaceAccount_ok hs h
      exact ⟨req, r, hreq, hkeep⟩
  | updatePositionMode environment backed encrypted =>
      refine (after_cases _ v).imp_right fun ⟨r, h⟩ => .inl ?_
      obtain ⟨req, hreq, hkeep⟩ := updatePositionMode_ok h
      exact ⟨req, r, hreq, hkeep⟩
  | updateAccountMetadata accountId capabilities fees encrypted =>
      refine (after_cases _ v).imp_right fun ⟨r, h⟩ => .inl ?_
      obtain ⟨req, hreq, hkeep⟩ := updateAccountMetadata_ok hs h
      exact ⟨req, r, hreq, hkeep⟩
  -- The one operation that moves the marks.
  | setDefaults accountId trading scanner =>
      cases hfound : v.exchangeCredentialById accountId with
      | none => exact .inl (setDefaults_missing hfound)
      | some row =>
          obtain ⟨hrow, hid⟩ := Table.find?_some hfound
          have hop : CredentialOp.setDefaults accountId trading scanner
              = .setDefaults row.id trading scanner := by rw [← hid]; rfl
          exact .inr (.inr (.inr ⟨row, hrow, trading, scanner, _, hop, setDefaults_found hfound⟩))
  -- A deletion takes the row out, or is refused.
  | delete a referenced =>
      rcases after_cases (Vault.delete a referenced) v with h | ⟨r, h⟩
      · exact .inl h
      · exact (deleteExchangeCredential_ok h).imp_right fun h => .inr (.inl h)
  | deleteAccount accountId referenced =>
      rcases after_cases (Vault.deleteAccount accountId referenced) v with h | ⟨r, h⟩
      · exact .inl h
      · have hop : CredentialOp.perform now (.deleteAccount accountId referenced) v
            = after (Vault.deleteAccount accountId referenced) v := rfl
        rw [hop]
        generalize after (Vault.deleteAccount accountId referenced) v = v' at h
        unfold Vault.deleteAccount at h
        split at h
        · cases h
          exact .inl rfl
        · exact (deleteExchangeCredentialById_ok h).imp_right fun h => .inr (.inl h)

/-! ## §7. Every sequence of operations. -/

/-- Every operation keeps the table in order. -/
theorem perform_stored {v : Vault} (hs : Stored v) (op : CredentialOp) (now : Int) :
    Stored (op.perform now v) := by
  rcases perform_cases hs op now with h | ⟨req, r, h, -⟩ | ⟨row, -, control, h⟩
    | ⟨row, -, trading, scanner, control, -, h⟩
  · rw [h]
    exact hs
  · exact save_stored hs h
  · rw [h]
    exact withoutRow_stored hs row control
  · rw [h]
    exact ⟨(unique_of_keys clearDefaults_keys hs.unique).put _,
      (below_of_keys clearDefaults_keys hs.below).put _⟩

/-- The operation takes no flag away from the account that holds it. -/
def KeepsFlags (v : Vault) : CredentialOp → Prop
  | .setDefaults accountId trading scanner =>
      ∀ row ∈ v.exchangeCredentialById accountId,
        (row.isDefault = true → trading = true) ∧ (row.scannerDefault = true → scanner = true)
  | _ => True

/-- Every account group has exactly one trading default and one scanner default,
and the account the services load is one that is reconciled. -/
def OneDefault (v : Vault) : Prop :=
  ∀ a, (∃ row ∈ v.rows, row.account = a) →
    (∃! row, row ∈ v.rows ∧ row.account = a ∧ row.isDefault = true)
      ∧ (∃! row, row ∈ v.rows ∧ row.account = a ∧ row.scannerDefault = true)
      ∧ ∃ row ∈ v.reconciled, v.load a = some row

/-- One mark in a group, in terms of rows. -/
theorem singleIn_marks_iff {role : DefaultRole} {rows : List ExchangeCredentialRow} {a : Account}
    (hu : Table.Unique rows) : Mark.SingleIn (marks role rows) a
      ↔ ((∃ row ∈ rows, row.account = a)
        → ∃! row, row ∈ rows ∧ row.account = a ∧ row.flag role = true) := by
  have hmembers : (∃ k, Mark.Member (marks role rows) a k) ↔ ∃ row ∈ rows, row.account = a := by
    simp only [member_marks]
    exact ⟨fun ⟨_, r, hr, ha, _⟩ => ⟨r, hr, ha⟩, fun ⟨r, hr, ha⟩ => ⟨_, r, hr, ha, rfl⟩⟩
  unfold Mark.SingleIn
  rw [hmembers]
  refine imp_congr_right fun _ => ?_
  simp only [holder_marks]
  constructor
  · rintro ⟨k, hk⟩
    obtain ⟨row, hrow, ha, hid, hflag⟩ := (hk k).mpr rfl
    refine ⟨row, ⟨hrow, ha, hflag⟩, fun r ⟨hr, hra, hrflag⟩ => ?_⟩
    exact hu.eq hr hrow (((hk r.id).mp ⟨r, hr, hra, rfl, hrflag⟩).trans hid.symm)
  · rintro ⟨row, ⟨hrow, ha, hflag⟩, honly⟩
    refine ⟨row.id, fun k => ⟨fun ⟨r, hr, hra, hid, hrflag⟩ => ?_, fun hk => ?_⟩⟩
    · rw [← hid, honly r ⟨hr, hra, hrflag⟩]
    · exact ⟨row, hrow, ha, hk.symm, hflag⟩

/-- The account the services load is the default, where there is one. -/
theorem load_default {v : Vault} {a : Account} {row : ExchangeCredentialRow}
    (hrow : row ∈ v.rows) (ha : row.account = a) (hflag : row.isDefault = true) :
    ∃ loaded ∈ v.reconciled, v.load a = some loaded := by
  have hmem : row ∈ (v.accountRows a).filter (·.isDefault) := by
    simp [Vault.accountRows, hrow, ha, hflag]
  cases hold : oldest ((v.accountRows a).filter (·.isDefault)) with
  | none =>
      rw [oldest_none hold] at hmem
      cases hmem
  | some loaded =>
      have hload : v.load a = some loaded := by
        show (oldest _).or _ = some loaded
        rw [hold]
        rfl
      obtain ⟨hloaded, hdefault⟩ := List.mem_filter.mp (oldest_some hold)
      refine ⟨loaded, List.mem_filter.mpr ⟨?_, hdefault⟩, hload⟩
      exact (List.perm_insertionSort _ _).mem_iff.mpr (mem_accountRows.mp hloaded).1

/-- One mark of either role in every group is all that `OneDefault` says. -/
theorem oneDefault_iff {v : Vault} (hs : Stored v) :
    OneDefault v ↔ ∀ role a, Mark.SingleIn (marks role v.rows) a := by
  constructor
  · intro h role a
    rw [singleIn_marks_iff hs.unique]
    intro hsome
    obtain ⟨htrading, hscanner, -⟩ := h a hsome
    cases role with
    | trading => exact htrading
    | scanner => exact hscanner
  · intro h a hsome
    have htrading : ∃! row, row ∈ v.rows ∧ row.account = a ∧ row.isDefault = true :=
      (singleIn_marks_iff hs.unique).mp (h .trading a) hsome
    have hscanner : ∃! row, row ∈ v.rows ∧ row.account = a ∧ row.scannerDefault = true :=
      (singleIn_marks_iff hs.unique).mp (h .scanner a) hsome
    have ⟨row, ⟨hrow, ha, hflag⟩, _⟩ := htrading
    exact ⟨htrading, hscanner, load_default hrow ha hflag⟩

/-- `set_defaults` keeps the defaults exactly if it takes no flag from its
holder. -/
theorem setDefaults_single {v : Vault} (hs : Stored v)
    (h : ∀ role a, Mark.SingleIn (marks role v.rows) a) {accountId : Nat} {trading scanner : Bool}
    {now : Int} :
    (∀ role a, Mark.SingleIn
        (marks role (CredentialOp.perform now (.setDefaults accountId trading scanner) v).rows) a)
      ↔ KeepsFlags v (.setDefaults accountId trading scanner) := by
  cases hfound : v.exchangeCredentialById accountId with
  | none =>
      rw [setDefaults_missing hfound]
      refine ⟨fun _ row hrow => ?_, fun _ => h⟩
      rw [hfound] at hrow
      cases hrow
  | some row =>
      rw [setDefaults_found hfound]
      have hrow := (Table.find?_some hfound).1
      have hkeeps : KeepsFlags v (.setDefaults accountId trading scanner)
          ↔ ∀ role : DefaultRole, row.flag role = true → role.pick trading scanner = true := by
        show (∀ r ∈ v.exchangeCredentialById accountId, _) ↔ _
        rw [hfound]
        constructor
        · intro hk role
          cases role with
          | trading => exact (hk row rfl).1
          | scanner => exact (hk row rfl).2
        · intro hk r hr
          cases hr
          exact ⟨hk .trading, hk .scanner⟩
      rw [hkeeps]
      have hkey : (defaultedRow trading scanner now row).id = row.id := rfl
      constructor
      · -- A flag that is cleared leaves its account without a default.
        intro hsingle role hflag
        by_contra hclear
        have hclear : role.pick trading scanner = false := by simpa using hclear
        have hdrop := @marks_drop role v.rows row _ trading scanner hs.unique hrow hkey rfl hclear
          ((defaultedRow_flag role trading scanner now row).trans hclear)
        have hafter := hsingle role row.account
        rw [hdrop] at hafter
        exact Mark.not_singleIn_drop (holder_marks.mpr ⟨row, hrow, rfl, rfl, hflag⟩)
          (h role row.account) hafter
      · -- Otherwise the default of its account moves to this row.
        intro hkept role a
        refine rewrite_single hs.unique hrow hkey rfl ?_ ?_ (h role) a
        · rw [defaultedRow_flag]
          cases role.pick trading scanner <;> simp
        · rw [defaultedRow_flag]
          exact hkept role

/-- An operation keeps the defaults exactly if it takes no flag from its holder. -/
theorem perform_oneDefault {v : Vault} (hs : Stored v) (h : OneDefault v) (op : CredentialOp)
    (now : Int) : OneDefault (op.perform now v) ↔ KeepsFlags v op := by
  rw [oneDefault_iff (perform_stored hs op now)]
  have hsingle := (oneDefault_iff hs).mp h
  -- The other operations always do.
  have hothers : (∀ accountId trading scanner, op ≠ .setDefaults accountId trading scanner) →
      ∀ role a, Mark.SingleIn (marks role (op.perform now v).rows) a := by
    intro hne role a
    rcases perform_cases hs op now with heq | ⟨req, r, hsave, hkeep⟩ | ⟨row, hrow, control, heq⟩
      | ⟨row, -, trading, scanner, -, hop, -⟩
    · rw [heq]
      exact hsingle role a
    · exact save_single hs hsave (hkeep role) (hsingle role) a
    · rw [heq]
      exact withoutRow_single hs.unique hrow (hsingle role) a
    · exact absurd hop (hne _ _ _)
  cases op with
  | setDefaults accountId trading scanner => exact setDefaults_single hs hsingle
  | _ => exact ⟨fun _ => trivial, fun _ => hothers fun _ _ _ => nofun⟩

/-- The last operation of a sequence acts on what the ones before have left: the
form in which the induction on a sequence uses it. -/
theorem perform_append (ops : List (CredentialOp × Int)) (op : CredentialOp × Int) (v : Vault) :
    perform (ops ++ [op]) v = op.1.perform op.2 (perform ops v) := by
  simp [perform]

/-- Every sequence of operations keeps the table in order. -/
theorem stored_perform (ops : List (CredentialOp × Int)) {v : Vault} (hs : Stored v) :
    Stored (perform ops v) := by
  induction ops generalizing v with
  | nil => exact hs
  | cons op rest ih => exact ih (perform_stored hs op.1 op.2)

/-- An empty table is in order. -/
theorem stored_unconfigured (control : Control) : Stored (unconfigured control) :=
  ⟨List.nodup_nil, fun _ hr => by cases hr⟩

/-- **Exactly one default**: starting from no account, after every operation of a
sequence every exchange and environment with accounts has one trading and one
scanner default, exactly if no `set_defaults` of the sequence takes a flag away
from the account that holds it. -/
theorem default_accounts (control : Control) (ops : List (CredentialOp × Int)) :
    (∀ n ≤ ops.length, OneDefault (perform (ops.take n) (unconfigured control)))
      ↔ ∀ n (hn : n < ops.length),
        KeepsFlags (perform (ops.take n) (unconfigured control)) (ops.get ⟨n, hn⟩).1 := by
  have hstored := fun n => stored_perform (ops.take n) (stored_unconfigured control)
  -- One operation more.
  have hstep : ∀ n (hn : n < ops.length), perform (ops.take (n + 1)) (unconfigured control)
      = (ops.get ⟨n, hn⟩).1.perform (ops.get ⟨n, hn⟩).2
          (perform (ops.take n) (unconfigured control)) := by
    intro n hn
    rw [← perform_append]
    congr 1
    exact List.take_succ_eq_append_getElem hn
  constructor
  · intro h n hn
    have hnow := h n hn.le
    have hnext := h (n + 1) hn
    rw [hstep n hn] at hnext
    exact (perform_oneDefault (hstored n) hnow _ _).mp hnext
  · intro h n
    induction n with
    | zero =>
        intro _ a hsome
        obtain ⟨row, hrow, -⟩ := hsome
        cases hrow
    | succ n ih =>
        intro hn
        have hnow := ih (Nat.le_of_lt hn)
        rw [hstep n hn]
        exact (perform_oneDefault (hstored n) hnow _ _).mpr (h n hn)

/-! ## §8. A flag that is taken away. -/

namespace Sample

/-- Credentials of an account at Binance. -/
def account : Account := ⟨.binance, .live, ExchangeEnvironment.live_ne_paper⟩

def secrets : ExchangeSecrets := ⟨"0123456789", "0123456789", none, none⟩

/-- An account is created and loses its flags. -/
def ops : List (CredentialOp × Int) :=
  [(.createAccount account "main" secrets ⟨"c", "n", 1⟩ false false none, 0),
    (.setDefaults 0 false false, 1)]

end Sample

/-- Its exchange is left with an account and no default. -/
theorem default_taken_away :
    ¬∀ (control : Control) (ops : List (CredentialOp × Int)),
      OneDefault (perform ops (unconfigured control)) := by
  intro h
  have hsome : ∃ row ∈ (perform Sample.ops (unconfigured none)).rows,
      row.account = Sample.account := by decide
  have hnone : ∀ row ∈ (perform Sample.ops (unconfigured none)).rows, row.isDefault = false := by
    decide
  obtain ⟨⟨row, ⟨hrow, -, hflag⟩, -⟩, -, -⟩ := h none Sample.ops Sample.account hsome
  rw [hnone row hrow] at hflag
  cases hflag

end BasisHawk.Credentials
