import ChainGuard.Library.Async
import ChainGuard.OffChain.Js

/-! The keyring of the browser: `clientKeyringService`, what it uses of `opaqueKeyringService`, and the lock
of `SessionLockManager`. Ciphertexts are ideal: they hold what they were made from, and only their own secret
opens them. Awaits between which nothing shared is accessed are one await. -/
namespace ChainGuard.OffChain.ClientKeyring
open Async Methods
set_option autoImplicit false

/-- The string functions and the key formats. -/
structure Config where
  /-- `toLowerCase` -/
  lower : JsString → JsString
  lower_lower (account : JsString) : lower (lower account) = lower account
  publicKeyOf : JsString → JsString
  /-- Whether `importECIESPublicKey` and `importECIESPrivateKey` return. -/
  importsPublicKey : JsString → Bool
  importsPrivateKey : JsString → Bool

/-! ## Ciphertexts -/

/-- By `secretsService.encryptWithPassphrase`. -/
structure PassphraseCiphertext where
  passphrase : JsString
  plaintext : JsString
  deriving DecidableEq

def PassphraseCiphertext.decrypt (c : PassphraseCiphertext) (passphrase : JsString) : Option JsString :=
  if passphrase = c.passphrase then some c.plaintext else none

/-- What the authenticator's PRF output, and the AES key derived from it, is determined by. -/
structure PrfKey where
  credentialId : JsString
  prfSalt : JsString
  deriving DecidableEq

structure PasskeyCiphertext where
  key : PrfKey
  plaintext : JsString
  deriving DecidableEq

/-- `decryptWithPrfKey` -/
def PasskeyCiphertext.decrypt (c : PasskeyCiphertext) (key : PrfKey) : Option JsString :=
  if key = c.key then some c.plaintext else none

/-- `account` and `publicKey` are the additional data. -/
structure OpaqueKeyringEnvelope where
  exportKey : JsString
  account : JsString
  publicKey : JsString
  plaintext : JsString
  deriving DecidableEq

def OpaqueKeyringEnvelope.decrypt (c : OpaqueKeyringEnvelope) (exportKey account publicKey : JsString) :
    Option JsString :=
  if exportKey = c.exportKey ∧ account = c.account ∧ publicKey = c.publicKey then some c.plaintext else none

structure ZkppEnvelope where
  oprfKey : JsString
  account : JsString
  pin : JsString
  plaintext : JsString
  deriving DecidableEq

def ZkppEnvelope.decrypt (c : ZkppEnvelope) (oprfKey account pin : JsString) : Option JsString :=
  if oprfKey = c.oprfKey ∧ account = c.account ∧ pin = c.pin then some c.plaintext else none

/-! ## State -/

/-- Strings that may be missing are `[]`, and ciphertexts that may be are `none`. -/
structure KeyPairRecord where
  account : JsString
  publicKey : JsString
  encryptedPrivateKey : Option PassphraseCiphertext := none
  createdAt : ℕ
  updatedAt : ℕ
  hasPin : Bool
  hasPasskey : Bool := false
  passkeyCredentialId : JsString := []
  passkeyPrfSalt : JsString := []
  passkeyEncryptedPrivateKey : Option PasskeyCiphertext := none
  opaqueEnvelope : Option OpaqueKeyringEnvelope := none
  zkpp : Option ZkppEnvelope := none
  /-- When it is a `CryptoKey` of type `secret`. -/
  oprfKey : Option JsString := none
  deriving DecidableEq

/-- What the OPAQUE server holds for an account. -/
structure Credential where
  pin : JsString
  exportKey : JsString
  deriving DecidableEq

structure Keyring where
  records : JsString → Option KeyPairRecord := fun _ => none
  sessionKeyCache : JsString → Option JsString := fun _ => none
  managementTokens : JsString → Option JsString := fun _ => none
  server : JsString → Option Credential := fun _ => none

inductive Failure
  | error (message : JsString)
  /-- `OpaqueTransportError` -/
  | transport (code : String)
  /-- `WebAuthnError`, for `NOT_ALLOWED` or for something else. -/
  | webAuthn (cancelled : Bool)
  /-- By `importECIESPublicKey` or `importECIESPrivateKey`. -/
  | keyFormat
  deriving DecidableEq

/-- With a message of the source that has no parameter. -/
def failure (message : String) : Failure := .error (js message)

/-- What the awaits of an operation are answered with: by the browser, the authenticator and the server. -/
structure Answers where
  now : ℕ := 0
  /-- The private key of `generateECIESKeyPairBase64`. -/
  generated : JsString := []
  /-- Of `registerPasskey`, where it yields a PRF output. -/
  passkeyCreated : Option PrfKey := none
  /-- Of `authenticatePasskey`. -/
  passkeyFailure : Option Failure := none
  registrationFailure : Option Failure := none
  tokenAccepted : Bool := true
  exportKey : JsString := []
  managementToken : JsString := []
  loginFailure : Option Failure := none
  deletionFailure : Option Failure := none

abbrev Method (α : Type) := Program Keyring Answers Failure α

def Keyring.setRecord (account : JsString) (record : Option KeyPairRecord) (s : Keyring) : Keyring :=
  { s with records := Function.update s.records account record }

def Keyring.setCached (account : JsString) (key : Option JsString) (s : Keyring) : Keyring :=
  { s with sessionKeyCache := Function.update s.sessionKeyCache account key }

def Keyring.setToken (account : JsString) (token : Option JsString) (s : Keyring) : Keyring :=
  { s with managementTokens := Function.update s.managementTokens account token }

def Keyring.setCredential (account : JsString) (credential : Option Credential) (s : Keyring) : Keyring :=
  { s with server := Function.update s.server account credential }

/-! ## The session cache -/

def cachePrivateKey (account privateKey : JsString) : Method Unit :=
  modify (Keyring.setCached account (some privateKey))

def readCachedPrivateKey (account : JsString) (s : Keyring) : Option JsString := s.sessionKeyCache account

def wipeCachedPrivateKey (account : JsString) : Method Unit := modify (Keyring.setCached account none)

/-! ## `opaqueKeyringService` -/

section Service
variable (cfg : Config)

def register (account pin : JsString) : Method JsString := do
  let normalized := cfg.lower account
  let started ← Program.answer
  Program.rethrow started.registrationFailure
  let token := (← get).managementTokens normalized
  let finished ← Program.answer
  Program.rethrow finished.registrationFailure
  let existing := (← get).server normalized
  Program.throwIf (existing.isSome ∧ ¬ (token.isSome ∧ finished.tokenAccepted)) (.transport "OPAQUE_CREDENTIAL_EXISTS")
  modify (Keyring.setCredential normalized (some ⟨pin, finished.exportKey⟩))
  modify (Keyring.setToken normalized (some finished.managementToken))
  return finished.exportKey

def login (account pin : JsString) : Method JsString := do
  let normalized := cfg.lower account
  let started ← Program.answer
  Program.rethrow started.loginFailure
  let credential := (← get).server normalized
  let credential ← Program.orThrow (credential.filter fun c => c.pin = pin) (failure "OPAQUE_VERIFICATION_FAILED")
  let finished ← Program.answer
  Program.rethrow finished.loginFailure
  modify (Keyring.setToken normalized (some finished.managementToken))
  return credential.exportKey

def enrollAndWrap (account pin publicKey privateKey : JsString) : Method OpaqueKeyringEnvelope := do
  Program.throwIf (trim pin = []) (failure "A PIN or passphrase is required for OPAQUE enrollment")
  let exportKey ← tryCatch (register cfg account (trim pin)) fun error =>
    if error = .transport "OPAQUE_CREDENTIAL_EXISTS" then login cfg account (trim pin) else throw error
  return ⟨exportKey, cfg.lower account, publicKey, privateKey⟩

def verifyAndUnwrap (account pin publicKey : JsString) (envelope : OpaqueKeyringEnvelope) : Method JsString := do
  Program.throwIf (trim pin = []) (failure "OPAQUE_VERIFICATION_FAILED")
  let exportKey ← login cfg account (trim pin)
  Program.orThrow (envelope.decrypt exportKey (cfg.lower account) publicKey)
    (failure "OPAQUE keyring envelope verification failed")

def deleteCredential (account : JsString) : Method Unit := do
  let normalized := cfg.lower account
  match (← get).managementTokens normalized with
  | none => return
  | some _ =>
    let finished ← Program.answer
    Program.rethrow finished.deletionFailure
    modify (Keyring.setCredential normalized none)
    modify (Keyring.setToken normalized none)

/-! ## Storage -/

/-- The key path of the store is `account`. -/
def idbGet (account : JsString) : Method (Option KeyPairRecord) := do
  let normalized := cfg.lower account
  let _ ← Program.answer
  return ((← get).records normalized).map fun record => { record with account := normalized }

def idbPut (record : KeyPairRecord) : Method Unit := do
  let normalized := cfg.lower record.account
  let _ ← Program.answer
  modify (Keyring.setRecord normalized (some { record with account := normalized }))

def idbDelete (account : JsString) : Method Unit := do
  let _ ← Program.answer
  modify (Keyring.setRecord (cfg.lower account) none)

/-! ## Protections -/

/-- `existing?.createdAt || now` -/
def createdAt (now : ℕ) (existing : Option KeyPairRecord) : ℕ :=
  match existing with
  | some record => if record.createdAt = 0 then now else record.createdAt
  | none => now

/-- `{ ...existing, account, publicKey, … }`: what is not named is that of the existing record. -/
def replaced (account publicKey : JsString) (opaqueEnvelope : OpaqueKeyringEnvelope) (now : ℕ)
    (existing : Option KeyPairRecord) : KeyPairRecord :=
  { existing.getD { account := account, publicKey := publicKey, createdAt := now, updatedAt := now, hasPin := true } with
    account := account
    publicKey := publicKey
    encryptedPrivateKey := none
    createdAt := createdAt now existing
    updatedAt := now
    hasPin := true
    opaqueEnvelope := some opaqueEnvelope
    zkpp := none
    oprfKey := none }

/-- A missing `pinOrPassphrase` is `[]`. -/
def persistKeyPair (account publicKey privateKey pinOrPassphrase : JsString) (existing : Option KeyPairRecord) :
    Method Unit := do
  let normalized := cfg.lower account
  let passphrase := trim pinOrPassphrase
  Program.throwIf (passphrase = []) (failure "A PIN or passphrase is required when no passkey protects the keyring")
  let opaqueEnvelope ← enrollAndWrap cfg normalized passphrase publicKey privateKey
  let now := (← Program.answer).now
  idbPut cfg (replaced normalized publicKey opaqueEnvelope now existing)
  cachePrivateKey normalized privateKey

/-- With whether it is a custom PIN. -/
def getEffectivePassphrase (account pinOrPassphrase : JsString) : JsString × Bool :=
  if trim pinOrPassphrase = [] then (js "spoovault:keyring:default:" ++ cfg.lower account, false)
  else (trim pinOrPassphrase, true)

def incorrectPin : Failure := failure "Incorrect PIN or passphrase. Please verify your PIN."

def undecryptable (record : KeyPairRecord) : Failure :=
  if record.hasPin then incorrectPin else failure "Failed to decrypt client private key from secure storage."

def needsNewPin : Failure := failure "This legacy keyring needs a new PIN before it can be migrated to OPAQUE."

def loginError : Failure → Failure
  | .transport code =>
    if code = "OPAQUE_RATE_LIMITED" then failure "Too many PIN attempts. Please wait before trying again."
    else if code = "OPAQUE_SERVER_UNAVAILABLE" ∨ code = "OPAQUE_SERVER_NOT_CONFIGURED" then .transport code
    else incorrectPin
  | error => if error = failure "OPAQUE server identity verification failed" then error else incorrectPin

def migrate (record : KeyPairRecord) (privateKey passphrase : JsString) (isCustomPin : Bool) : Method JsString := do
  Program.throwIf (isCustomPin = false) needsNewPin
  persistKeyPair cfg record.account record.publicKey privateKey passphrase (some record)
  return privateKey

def unlockRecord (record : KeyPairRecord) (pinOrPassphrase : JsString) : Method JsString :=
  let normalized := record.account
  match record.opaqueEnvelope with
  | some envelope =>
    tryCatch (verifyAndUnwrap cfg normalized (trim pinOrPassphrase) record.publicKey envelope) fun error =>
      throw (loginError error)
  | none =>
    let (passphrase, isCustomPin) := getEffectivePassphrase cfg normalized pinOrPassphrase
    match record.zkpp with
    | some envelope => do
      let oprfKey ← Program.orThrow record.oprfKey (failure
        "ZKPP credential file is incomplete: the non-extractable OPRF secret is missing from this storage dump.")
      let _ ← Program.answer
      let privateKey ← Program.orThrow (envelope.decrypt oprfKey (cfg.lower normalized) passphrase)
        (undecryptable record)
      migrate cfg record privateKey passphrase isCustomPin
    | none => do
      let ciphertext ← Program.orThrow record.encryptedPrivateKey
        (failure "No decryptable key material in keyring record")
      let _ ← Program.answer
      let privateKey ← Program.orThrow (ciphertext.decrypt passphrase) (undecryptable record)
      migrate cfg record privateKey passphrase isCustomPin

/-- The ciphertext that `createPasskeyProtection` returns, with its credential and salt. -/
def createPasskeyProtection (privateKey : JsString) : Method (Option PasskeyCiphertext) := do
  let created := (← Program.answer).passkeyCreated
  return created.map fun key => ⟨key, privateKey⟩

/-- `options.enablePasskey !== false ? await createPasskeyProtection(…) : null` -/
def requestedPasskey (enablePasskey : Bool) (privateKey : JsString) : Method (Option PasskeyCiphertext) :=
  if enablePasskey then createPasskeyProtection privateKey else pure none

def decryptRecordWithPasskey (record : KeyPairRecord) (ciphertext : PasskeyCiphertext) : Method JsString := do
  Program.rethrow (← Program.answer).passkeyFailure
  Program.orThrow (ciphertext.decrypt ⟨record.passkeyCredentialId, record.passkeyPrfSalt⟩) (.webAuthn false)

def passkeyError (record : KeyPairRecord) (error : Failure) : Failure :=
  let cancelled := error = .webAuthn true
  if record.hasPin ∧ (record.encryptedPrivateKey.isSome ∨ record.opaqueEnvelope.isSome ∨ record.zkpp.isSome) then
    if cancelled then failure "Passkey authentication cancelled. Unlock with your PIN/passphrase instead."
    else failure "Passkey authentication failed. Unlock with your PIN/passphrase instead."
  else if cancelled then failure "Passkey authentication cancelled. Please try again when you are ready to unlock."
  else failure "Passkey authentication failed. Please verify your hardware authenticator."

/-! ## `clientKeyringService` -/

/-- What an operation returns. -/
inductive Reply
  | unit
  | publicKey (key : JsString)
  | privateKey (key : JsString)
  deriving DecidableEq

def KeyPairRecord.withPasskey (record : KeyPairRecord) (passkey : PasskeyCiphertext) : KeyPairRecord :=
  { record with
    hasPasskey := true
    passkeyCredentialId := passkey.key.credentialId
    passkeyPrfSalt := passkey.key.prfSalt
    passkeyEncryptedPrivateKey := some passkey }

def storeGenerated (normalized publicKey privateKey pin : JsString) (passkey : Option PasskeyCiphertext)
    (existing : Option KeyPairRecord) : Method Unit :=
  if pin ≠ [] then persistKeyPair cfg normalized publicKey privateKey pin existing
  else
    match passkey with
    | some passkey => do
      let now := (← Program.answer).now
      let record : KeyPairRecord :=
        { account := normalized, publicKey := publicKey, createdAt := createdAt now existing, updatedAt := now,
          hasPin := false }
      idbPut cfg (record.withPasskey passkey)
    | none => throw (failure "A PIN/passphrase is required because a WebAuthn PRF passkey could not be created.")

def addPasskey (pin : JsString) (passkey : Option PasskeyCiphertext) (updatedRecord : Option KeyPairRecord) :
    Method Unit :=
  match passkey, updatedRecord with
  | some passkey, some record => if pin ≠ [] then idbPut cfg (record.withPasskey passkey) else pure ()
  | _, _ => pure ()

def generateAndSaveKeyPair (account pinOrPassphrase : JsString) (enablePasskey : Bool) : Method Reply := do
  Program.throwIf (account = []) (failure "Account address is required to generate a keypair")
  let normalized := cfg.lower account
  let privateKey := (← Program.answer).generated
  let publicKey := cfg.publicKeyOf privateKey
  let passkey ← requestedPasskey enablePasskey privateKey
  let existing ← idbGet cfg normalized
  let pin := trim pinOrPassphrase
  storeGenerated cfg normalized publicKey privateKey pin passkey existing
  let updatedRecord ← idbGet cfg normalized
  addPasskey cfg pin passkey updatedRecord
  cachePrivateKey normalized privateKey
  return .publicKey publicKey

def saveKeyPair (account publicKey privateKey pinOrPassphrase : JsString) : Method Reply := do
  Program.throwIf (account = [] ∨ publicKey = [] ∨ privateKey = []) (failure "Account, publicKey, and privateKey are required")
  let _ ← Program.answer
  Program.throwIf (cfg.importsPublicKey publicKey = false ∨ cfg.importsPrivateKey privateKey = false) .keyFormat
  let normalized := cfg.lower account
  Program.throwIf (trim pinOrPassphrase = []) (failure "A PIN or passphrase is required to save a keypair without a passkey")
  let existing ← idbGet cfg normalized
  persistKeyPair cfg normalized publicKey privateKey pinOrPassphrase existing
  return .unit

def KeyPairRecord.unlockingPasskey (record : KeyPairRecord) : Option PasskeyCiphertext :=
  if record.hasPasskey ∧ record.passkeyCredentialId ≠ [] ∧ record.passkeyPrfSalt ≠ [] then
    record.passkeyEncryptedPrivateKey
  else none

def KeyPairRecord.hasKey (record : KeyPairRecord) : Bool :=
  record.encryptedPrivateKey.isSome || record.passkeyEncryptedPrivateKey.isSome ||
    record.opaqueEnvelope.isSome || record.zkpp.isSome

def missingKeyPair (account : JsString) : Failure :=
  .error (js "No local encryption keypair found for wallet " ++ account ++
    js ". Please generate one in your Profile page.")

def unlockStored (record : KeyPairRecord) (pinOrPassphrase : JsString) : Method JsString :=
  match if trim pinOrPassphrase = [] then record.unlockingPasskey else none with
  | some ciphertext =>
    tryCatch (decryptRecordWithPasskey record ciphertext) fun error => throw (passkeyError record error)
  | none => unlockRecord cfg record pinOrPassphrase

def getDecryptedPrivateKey (account pinOrPassphrase : JsString) : Method Reply := do
  Program.throwIf (account = []) (failure "Account address is required")
  let normalized := cfg.lower account
  let cached := readCachedPrivateKey normalized (← get)
  match cached.filter (· ≠ []) with
  | some privateKey => return .privateKey privateKey
  | none =>
    let record ← idbGet cfg normalized
    let record ← Program.orThrow (record.filter KeyPairRecord.hasKey) (missingKeyPair account)
    let privateKey ← unlockStored cfg record pinOrPassphrase
    cachePrivateKey normalized privateKey
    return .privateKey privateKey

def isUnlocked (account : JsString) (s : Keyring) : Bool :=
  account ≠ [] && (s.sessionKeyCache (cfg.lower account)).isSome

def lockAccount (account : JsString) : Method Reply :=
  if account = [] then return .unit
  else do
    wipeCachedPrivateKey (cfg.lower account)
    modify (Keyring.setToken (cfg.lower account) none)
    return .unit

def clearSessionCache : Method Reply := do
  modify fun s => { s with sessionKeyCache := fun _ => none }
  modify fun s => { s with managementTokens := fun _ => none }
  return .unit

/-- `SessionLockManager.lockNow`: the cached bytes of the `accounts` are overwritten with random ones first. -/
def lockNow (accounts : List JsString) (random : JsString → JsString) : Method Reply := do
  modify fun s =>
    { s with
      sessionKeyCache := fun account =>
        if account ∈ accounts.map cfg.lower then (s.sessionKeyCache account).map random
        else s.sessionKeyCache account }
  clearSessionCache

def deleteKeyPair (account : JsString) : Method Reply :=
  if account = [] then return .unit
  else do
    let normalized := cfg.lower account
    wipeCachedPrivateKey normalized
    -- Local deletion must remain available if the verification server is offline.
    tryCatch (deleteCredential cfg normalized) fun _ => pure ()
    idbDelete cfg normalized
    return .unit

/-- Its `account` is `[]` when the file names none. -/
structure KeyPairBackupPayload where
  version : JsString
  account : JsString
  publicKey : JsString
  encryptedPrivateKey : PassphraseCiphertext

/-- The backup is `none` when it is not JSON. -/
def importKeyBackup (account : JsString) (backup : Option KeyPairBackupPayload)
    (backupPassphrase newPin : JsString) : Method Reply := do
  Program.throwIf (account = []) (failure "Account is required")
  Program.throwIf (backupPassphrase = []) (failure "Backup passphrase is required")
  let parsed ← Program.orThrow backup (failure "Invalid backup file: Malformed JSON")
  Program.throwIf (parsed.version ≠ js "spoovault-keyring-backup-v1")
    (.error (js "Unsupported backup format version: " ++ parsed.version))
  let normalized := cfg.lower account
  Program.throwIf (parsed.account ≠ [] ∧ cfg.lower parsed.account ≠ normalized) (.error
    (js "Backup file was created for wallet " ++ parsed.account ++ js ", but active account is " ++ account))
  let _ ← Program.answer
  let decryptedPrivateKey ← Program.orThrow (parsed.encryptedPrivateKey.decrypt backupPassphrase)
    (failure "Failed to decrypt backup: Incorrect backup passphrase")
  let _ ← saveKeyPair cfg normalized parsed.publicKey decryptedPrivateKey newPin
  return .publicKey parsed.publicKey

/-! ## Operations -/

inductive Operation
  | generateAndSaveKeyPair (account pinOrPassphrase : JsString) (enablePasskey : Bool)
  | saveKeyPair (account publicKey privateKey pinOrPassphrase : JsString)
  | importKeyBackup (account : JsString) (backup : Option KeyPairBackupPayload) (backupPassphrase newPin : JsString)
  | getDecryptedPrivateKey (account pinOrPassphrase : JsString)
  | deleteKeyPair (account : JsString)
  | lockAccount (account : JsString)
  | clearSessionCache
  | lockNow (accounts : List JsString) (random : JsString → JsString)

def program : Operation → Method Reply
  | .generateAndSaveKeyPair account pinOrPassphrase enablePasskey =>
    generateAndSaveKeyPair cfg account pinOrPassphrase enablePasskey
  | .saveKeyPair account publicKey privateKey pinOrPassphrase =>
    saveKeyPair cfg account publicKey privateKey pinOrPassphrase
  | .importKeyBackup account backup backupPassphrase newPin =>
    importKeyBackup cfg account backup backupPassphrase newPin
  | .getDecryptedPrivateKey account pinOrPassphrase => getDecryptedPrivateKey cfg account pinOrPassphrase
  | .deleteKeyPair account => deleteKeyPair cfg account
  | .lockAccount account => lockAccount cfg account
  | .clearSessionCache => clearSessionCache
  | .lockNow accounts random => lockNow cfg accounts random

end Service

/-! ## Keys that are their own public keys -/

def plainKeys : Config where
  lower := id
  lower_lower _ := rfl
  publicKeyOf := id
  importsPublicKey _ := true
  importsPrivateKey _ := true

def wallet : JsString := [97]

end ChainGuard.OffChain.ClientKeyring
