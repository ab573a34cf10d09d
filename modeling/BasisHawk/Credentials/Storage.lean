/-
  BasisHawk.Credentials.Storage
  ─────────────────────────────
  The accounts an administrator configures: the table `exchange_credentials`
  with its transactions (`storage.py`), and `CredentialService`
  (`credentials.py`) on top of it.

  A payload column holds the value its JSON text encodes.  What the cipher
  returns comes with the request: it depends on a key and a random nonce.
-/
import Mathlib.Data.List.MinMax
import Mathlib.Data.List.Sort
import BasisHawk.Lib.Table
import BasisHawk.Reconciliation.Operations

namespace BasisHawk.Credentials

open Domain Lib
open Reconciliation (Account Control)

/-! ## §1. Rows. -/

/-- `EncryptedPayload`. -/
structure EncryptedPayload where
  ciphertext : String
  nonce : String
  keyVersion : Nat
  deriving DecidableEq

/-- `ExchangeSecrets`. -/
structure ExchangeSecrets where
  apiKey : String
  apiSecret : String
  passphrase : Option String
  positionMode : Option PositionMode
  deriving DecidableEq

/-- `AccountCapabilities`. -/
structure AccountCapabilities where
  spot : Option Bool := none
  perpetual : Option Bool := none
  maker : Option Bool := none
  protectedIoc : Option Bool := none
  market : Option Bool := none
  isolatedMargin : Option Bool := none
  crossMargin : Option Bool := none
  adlRank : Option Bool := none
  internalTransfer : Option Bool := none
  detectedAt : Option Int := none
  deriving DecidableEq

inductive FeeSource where
  | actual | manual | default
  deriving DecidableEq, Repr

/-- `AccountFeeSchedule`. -/
structure AccountFeeSchedule where
  spotMaker : Option ℚ := none
  spotTaker : Option ℚ := none
  perpetualMaker : Option ℚ := none
  perpetualTaker : Option ℚ := none
  source : FeeSource := .default
  checkedAt : Option Int := none
  deriving DecidableEq

/-- `ExchangeCredentialRow`. -/
structure ExchangeCredentialRow where
  id : Nat
  account : Account
  label : String
  maskedApiKey : String
  payload : EncryptedPayload
  isDefault : Bool
  scannerDefault : Bool
  capabilities : AccountCapabilities
  fees : AccountFeeSchedule
  createdAt : Int
  updatedAt : Int
  deriving DecidableEq

instance : Keyed ExchangeCredentialRow := ⟨(·.id)⟩

/-- The table, `execution_control` and the supply of fresh UUIDs. -/
structure Vault where
  rows : List ExchangeCredentialRow
  control : Control
  nextId : Nat

/-! ## §2. Queries. -/

/-- `ORDER BY created_at LIMIT 1`. -/
def oldest (rows : List ExchangeCredentialRow) : Option ExchangeCredentialRow :=
  @List.argmin ExchangeCredentialRow Int Int.instLinearOrder.toPreorder
    Int.instLinearOrder.toDecidableLT (·.createdAt) rows

/-- `ORDER BY is_default DESC, created_at LIMIT 1`. -/
def preferred (rows : List ExchangeCredentialRow) : Option ExchangeCredentialRow :=
  (oldest (rows.filter (·.isDefault))).or (oldest rows)

namespace Vault

/-- The rows of an account: one exchange and environment. -/
def accountRows (v : Vault) (a : Account) : List ExchangeCredentialRow :=
  v.rows.filter (·.account = a)

/-- `exchange_credential`. -/
def exchangeCredential (v : Vault) (a : Account) : Option ExchangeCredentialRow :=
  preferred (v.accountRows a)

/-- `exchange_credential_by_id`. -/
def exchangeCredentialById (v : Vault) (id : Nat) : Option ExchangeCredentialRow :=
  Table.find? v.rows id

end Vault

/-- The order of `list_exchange_credentials`: exchange, environment, the default
first, label. -/
def listedBefore (r r' : ExchangeCredentialRow) : Prop :=
  r.account.exchange.name < r'.account.exchange.name
    ∨ (r.account.exchange = r'.account.exchange
      ∧ (r.account.environment.name < r'.account.environment.name
        ∨ (r.account.environment = r'.account.environment
          ∧ ((r.isDefault = true ∧ r'.isDefault = false)
            ∨ (r.isDefault = r'.isDefault ∧ r.label ≤ r'.label)))))

instance (r r' : ExchangeCredentialRow) : Decidable (listedBefore r r') :=
  inferInstanceAs (Decidable (_ ∨ (_ ∧ (_ ∨ (_ ∧ (_ ∨ _))))))

/-- `list_exchange_credentials`. -/
def Vault.listExchangeCredentials (v : Vault) : List ExchangeCredentialRow :=
  v.rows.insertionSort listedBefore

/-! ## §3. Transactions. -/

/-- The arguments of `save_exchange_credential`. -/
structure SaveRequest where
  account : Account
  label : String
  maskedApiKey : String
  payload : EncryptedPayload
  credentialId : Option Nat := none
  isDefault : Option Bool := none
  scannerDefault : Option Bool := none
  capabilities : Option AccountCapabilities := none
  fees : Option AccountFeeSchedule := none
  reconciliationReason : Option String := none

/-- `_request_execution_reconciliation_in_session`, if there is a reason. -/
def requestReconciliation (reason : Option String) (c : Control) : Control :=
  match reason with
  | some reason => Control.requestExecutionReconciliation reason c
  | none => c

/-- The first row of an account is a default whatever the request says. -/
def makesDefault (accountRows : List ExchangeCredentialRow) (requested : Option Bool) : Bool :=
  accountRows.isEmpty || requested.getD false

/-- A row of the account gives up the flags that are handed over. -/
def clearedRow (a : Account) (trading scanner : Bool) (item : ExchangeCredentialRow) :
    ExchangeCredentialRow :=
  if item.account = a then { item with
    isDefault := item.isDefault && !trading
    scannerDefault := item.scannerDefault && !scanner } else item

/-- All rows of the account do. -/
def clearDefaults (a : Account) (trading scanner : Bool) (rows : List ExchangeCredentialRow) :
    List ExchangeCredentialRow :=
  rows.map (clearedRow a trading scanner)

/-- The row with the new key and what the request says of it. -/
def savedRow (req : SaveRequest) (makeDefault makeScannerDefault : Bool) (now : Int)
    (row : ExchangeCredentialRow) : ExchangeCredentialRow :=
  { row with
    label := req.label
    maskedApiKey := req.maskedApiKey
    payload := req.payload
    isDefault := makeDefault || req.isDefault.getD row.isDefault
    scannerDefault := makeScannerDefault || req.scannerDefault.getD row.scannerDefault
    capabilities := req.capabilities.getD row.capabilities
    fees := req.fees.getD row.fees
    updatedAt := now }

/-- The row of a new account. -/
def newRow (req : SaveRequest) (id : Nat) (makeDefault makeScannerDefault : Bool) (now : Int) :
    ExchangeCredentialRow where
  id
  account := req.account
  label := req.label
  maskedApiKey := req.maskedApiKey
  payload := req.payload
  isDefault := makeDefault
  scannerDefault := makeScannerDefault
  capabilities := req.capabilities.getD {}
  fees := req.fees.getD {}
  createdAt := now
  updatedAt := now

/-- The row leaves the table, and the oldest one left of the account takes over
the flags it had. -/
def withoutRow (row : ExchangeCredentialRow) (rows : List ExchangeCredentialRow) :
    List ExchangeCredentialRow :=
  let rest := rows.filter (·.id ≠ row.id)
  match oldest (rest.filter (·.account = row.account)) with
  | none => rest
  | some heir => Table.put rest { heir with
      isDefault := heir.isDefault || row.isDefault
      scannerDefault := heir.scannerDefault || row.scannerDefault }

namespace Vault

/-- The row a save is about. -/
def savedTarget (v : Vault) (req : SaveRequest) : Option ExchangeCredentialRow :=
  match req.credentialId with
  | some id => (v.accountRows req.account).find? (·.id = id)
  | none => v.exchangeCredential req.account

/-- `save_exchange_credential`. -/
def saveExchangeCredential (req : SaveRequest) (now : Int) (v : Vault) :
    Except Exc (ExchangeCredentialRow × Vault) := do
  let accountRows := v.accountRows req.account
  let target := v.savedTarget req
  raiseIf (target = none ∧ ∃ id ∈ req.credentialId, v.exchangeCredentialById id ≠ none)
    (.value "credential ID belongs to another account")
  raiseIf (∃ item ∈ accountRows, item.label = req.label ∧ ∀ row ∈ target, item.id ≠ row.id)
    (.value "credential label is already used for this exchange")
  let makeDefault := makesDefault accountRows req.isDefault
  let makeScannerDefault := makesDefault accountRows req.scannerDefault
  let rows := clearDefaults req.account makeDefault makeScannerDefault v.rows
  let control := requestReconciliation req.reconciliationReason v.control
  match target with
  | some row =>
      let row := savedRow req makeDefault makeScannerDefault now row
      .ok (row, { v with
        rows := Table.put rows row
        control })
  | none =>
      let row := newRow req (req.credentialId.getD v.nextId) makeDefault makeScannerDefault now
      .ok (row, {
        rows := rows ++ [row]
        control
        nextId := max v.nextId row.id + 1 })

/-- `set_exchange_credential_defaults`. -/
def setExchangeCredentialDefaults (id : Nat) (tradingDefault scannerDefault : Bool)
    (reason : Option String) (now : Int) (v : Vault) : Option ExchangeCredentialRow × Vault :=
  match v.exchangeCredentialById id with
  | none => (none, v)
  | some row =>
      let updated := { row with
        isDefault := tradingDefault
        scannerDefault := scannerDefault
        updatedAt := now }
      (some updated, { v with
        rows := Table.put (clearDefaults row.account tradingDefault scannerDefault v.rows) updated
        control := requestReconciliation reason v.control })

/-- `delete_exchange_credential_by_id`.  A row that tasks or strategies
reference stays. -/
def deleteExchangeCredentialById (id : Nat) (referenced : Bool) (reason : Option String)
    (v : Vault) : Except Exc (Bool × Vault) :=
  match v.exchangeCredentialById id with
  | none => .ok (false, v)
  | some row => do
      raiseIf (referenced = true) (.value "account is referenced by a task or strategy")
      .ok (true, { v with
        rows := withoutRow row v.rows
        control := requestReconciliation reason v.control })

/-- `delete_exchange_credential`. -/
def deleteExchangeCredential (a : Account) (referenced : Bool) (reason : Option String)
    (v : Vault) : Except Exc (Bool × Vault) :=
  match v.exchangeCredential a with
  | none => .ok (false, v)
  | some row => do
      raiseIf (referenced = true) (.integrity "exchange_credentials is referenced")
      .ok (true, { v with
        rows := withoutRow row v.rows
        control := requestReconciliation reason v.control })

end Vault

/-! ## §4. `CredentialService`. -/

/-- `_mask_api_key`. -/
def maskApiKey (apiKey : List Char) : String :=
  let n := if apiKey.length ≤ 8 then 2 else 4
  String.ofList (apiKey.take n) ++ "…" ++ String.ofList (apiKey.drop (apiKey.length - n))

/-- The exchanges whose credentials have a passphrase. -/
def passphraseExchanges : List Exchange := [.okx, .bitget]

/-- The reason the accounts are reconciled for after a change. -/
def configurationChanged : String := "exchange credential configuration changed"

/-- The checks of `_save_account`. -/
def checkSecrets (exchange : Exchange) (label : String) (secrets : ExchangeSecrets) :
    Except Exc Unit := do
  raiseIf (pyStrip label = []) (.value "label is required")
  raiseIf ((pyStrip secrets.apiKey).length < 8 ∨ (pyStrip secrets.apiSecret).length < 8)
    (.value "API key and secret must each contain at least 8 characters")
  raiseIf (exchange ∈ passphraseExchanges ∧ ∀ p ∈ secrets.passphrase, pyStrip p = [])
    (.value (exchange.name ++ " credentials require a passphrase"))
  raiseIf (exchange = .bybit ∧ secrets.positionMode = none)
    (.value "Bybit credentials require the configured position mode")
  raiseIf (exchange ≠ .bybit ∧ secrets.positionMode ≠ none)
    (.value "position mode is only configurable for Bybit")

namespace Vault

/-- `_save_account`. -/
def saveAccount (accountId : Option Nat) (a : Account) (label : String) (secrets : ExchangeSecrets)
    (encrypted : EncryptedPayload) (tradingDefault scannerDefault : Bool)
    (fees : Option AccountFeeSchedule) (now : Int) (v : Vault) :
    Except Exc (ExchangeCredentialRow × Vault) := do
  checkSecrets a.exchange label secrets
  v.saveExchangeCredential {
    account := a
    label := String.ofList (pyStrip label)
    maskedApiKey := maskApiKey (pyStrip secrets.apiKey)
    payload := encrypted
    credentialId := accountId
    isDefault := some tradingDefault
    scannerDefault := some scannerDefault
    fees := some (fees.getD {})
    reconciliationReason := some configurationChanged } now

/-- `CredentialService.save`. -/
def save (a : Account) (label : String) (secrets : ExchangeSecrets) (encrypted : EncryptedPayload)
    (now : Int) (v : Vault) : Except Exc (ExchangeCredentialRow × Vault) :=
  let existing := v.exchangeCredential a
  v.saveAccount (existing.map (·.id)) a label secrets encrypted true
    (match existing with
      | none => true
      | some existing => existing.scannerDefault) none now

/-- `create_account`, under a fresh id. -/
def createAccount (a : Account) (label : String) (secrets : ExchangeSecrets)
    (encrypted : EncryptedPayload) (tradingDefault scannerDefault : Bool)
    (fees : Option AccountFeeSchedule) (now : Int) (v : Vault) :
    Except Exc (ExchangeCredentialRow × Vault) :=
  v.saveAccount (some v.nextId) a label secrets encrypted tradingDefault scannerDefault fees now

/-- `replace_account`. -/
def replaceAccount (accountId : Nat) (label : String) (secrets : ExchangeSecrets)
    (encrypted : EncryptedPayload) (fees : Option AccountFeeSchedule) (now : Int) (v : Vault) :
    Except Exc (ExchangeCredentialRow × Vault) := do
  let existing ← found (v.exchangeCredentialById accountId) (.value "account is not configured")
  v.saveAccount (some accountId) existing.account label secrets encrypted existing.isDefault
    existing.scannerDefault (some (fees.getD existing.fees)) now

/-- `update_position_mode`: the secrets are decrypted and encrypted again with
the mode. -/
def updatePositionMode (a : Account) (encrypted : Except Exc EncryptedPayload) (now : Int)
    (v : Vault) : Except Exc (ExchangeCredentialRow × Vault) := do
  let row ← found (v.exchangeCredential a) (.value "Bybit credentials are not configured")
  let encrypted ← encrypted
  v.saveExchangeCredential {
    account := a
    label := row.label
    maskedApiKey := row.maskedApiKey
    payload := encrypted
    reconciliationReason := some configurationChanged } now

/-- `update_account_metadata`. -/
def updateAccountMetadata (accountId : Nat) (capabilities : Option AccountCapabilities)
    (fees : Option AccountFeeSchedule) (encrypted : Except Exc EncryptedPayload) (now : Int)
    (v : Vault) : Except Exc (ExchangeCredentialRow × Vault) := do
  let row ← found (v.exchangeCredentialById accountId) (.value "account is not configured")
  let encrypted ← encrypted
  v.saveExchangeCredential {
    account := row.account
    label := row.label
    maskedApiKey := row.maskedApiKey
    payload := encrypted
    credentialId := some row.id
    isDefault := some row.isDefault
    scannerDefault := some row.scannerDefault
    capabilities := some (capabilities.getD row.capabilities)
    fees := some (fees.getD row.fees) } now

/-- `set_defaults`. -/
def setDefaults (accountId : Nat) (tradingDefault scannerDefault : Bool) (now : Int) (v : Vault) :
    Except Exc (ExchangeCredentialRow × Vault) :=
  match v.setExchangeCredentialDefaults accountId tradingDefault scannerDefault
      (some "exchange account defaults changed") now with
  | (some updated, v) => .ok (updated, v)
  | (none, _) => .error (.value "account is not configured")

/-- `CredentialService.delete`. -/
def delete (a : Account) (referenced : Bool) (v : Vault) : Except Exc (Bool × Vault) :=
  v.deleteExchangeCredential a referenced (some configurationChanged)

/-- `delete_account`. -/
def deleteAccount (accountId : Nat) (referenced : Bool) (v : Vault) : Except Exc (Bool × Vault) :=
  match v.exchangeCredentialById accountId with
  | none => .ok (false, v)
  | some _ => v.deleteExchangeCredentialById accountId referenced (some configurationChanged)

/-- `CredentialService.load`: the row whose secrets the services work with. -/
def load (a : Account) (v : Vault) : Option ExchangeCredentialRow := v.exchangeCredential a

/-- The accounts `ReconciliationService.run_once` reconciles. -/
def reconciled (v : Vault) : List ExchangeCredentialRow :=
  v.listExchangeCredentials.filter (·.isDefault)

end Vault

end BasisHawk.Credentials
