import ChainGuard.OffChain.Encodings
import ChainGuard.OffChain.KeyringAgreement

/-! The passphrase envelopes of `secrets.service.ts`, and the backups of the keyring that carry them. -/
namespace ChainGuard.OffChain.SecretsService
set_option autoImplicit false

def PBKDF2_ITERATIONS : ℕ := 600000
def PBKDF2_PAYLOAD_VERSION : JsString := js "pbkdf2-sha256-aes256gcm-v1"
def ARGON2ID_PAYLOAD_VERSION : JsString := js "argon2id-aes256gcm-v1"

structure Argon2idParams where
  memorySize : ℕ
  iterations : ℕ
  parallelism : ℕ
  hashLength : ℕ

def ARGON2ID_DEFAULTS : Argon2idParams where
  memorySize := 65536
  iterations := 3
  parallelism := 4
  hashLength := 32

/-- Web Crypto and the Argon2id of `hash-wasm`. -/
structure Primitives (Key : Type) where
  /-- Of the bytes of a passphrase, a salt and a number of iterations, with SHA-256. -/
  pbkdf2 : Bytes → Bytes → ℕ → Key
  argon2id : JsString → Bytes → Argon2idParams → Key
  /-- AES-GCM of a key, an initialization vector and a text. -/
  encrypt : Key → Bytes → Bytes → Bytes
  decrypt : Key → Bytes → Bytes → Option Bytes

inductive Failure
  | error (message : JsString)
  /-- By `atob`. -/
  | invalidCharacter
  deriving DecidableEq

def failure (message : String) : Failure := .error (js message)

/-- As `JSON.parse` returns it. -/
structure PassphraseEncryptedPayload where
  version : JsString
  algorithm : JsString
  iterations : ℕ
  memorySize : Option ℕ := none
  parallelism : Option ℕ := none
  salt : JsString
  iv : JsString
  ciphertext : JsString

/-- A number stands for PBKDF2 with as many iterations. -/
inductive KdfOptions
  | pbkdf2 (iterations : Option ℕ)
  | argon2id (memorySize iterations parallelism : Option ℕ)

def DEFAULT_KDF_OPTIONS : KdfOptions := .argon2id none none none

section Envelope
variable {Key : Type} (P : Primitives Key)

def orThrow {α : Type} (o : Option α) (e : Failure) : Except Failure α :=
  match o with
  | some a => .ok a
  | none => .error e

def deriveKeyFromPassphrase (passphrase : JsString) (salt : Bytes) (iterations : ℕ) : Except Failure Key :=
  if passphrase = [] then .error (failure "Passphrase must not be empty")
  else .ok (P.pbkdf2 (stringToUint8Array passphrase) salt iterations)

def deriveKeyFromPassphraseArgon2id (passphrase : JsString) (salt : Bytes) (memorySize iterations parallelism : Option ℕ) :
    Except Failure Key :=
  if passphrase = [] then .error (failure "Passphrase must not be empty")
  else
    .ok (P.argon2id passphrase salt
      { memorySize := memorySize.getD ARGON2ID_DEFAULTS.memorySize
        iterations := iterations.getD ARGON2ID_DEFAULTS.iterations
        parallelism := parallelism.getD ARGON2ID_DEFAULTS.parallelism
        hashLength := ARGON2ID_DEFAULTS.hashLength })

/-- The key of an encryption. -/
def KdfOptions.deriveKey (kdf : KdfOptions) (passphrase : JsString) (salt : Bytes) : Except Failure Key :=
  match kdf with
  | .pbkdf2 iterations => deriveKeyFromPassphrase P passphrase salt (iterations.getD PBKDF2_ITERATIONS)
  | .argon2id memorySize iterations parallelism =>
    deriveKeyFromPassphraseArgon2id P passphrase salt (memorySize.getD ARGON2ID_DEFAULTS.memorySize)
      (iterations.getD ARGON2ID_DEFAULTS.iterations) (parallelism.getD ARGON2ID_DEFAULTS.parallelism)

def KdfOptions.payload (kdf : KdfOptions) (salt iv : Bytes) : PassphraseEncryptedPayload :=
  match kdf with
  | .pbkdf2 iterations =>
    { version := PBKDF2_PAYLOAD_VERSION
      algorithm := js "pbkdf2"
      iterations := iterations.getD PBKDF2_ITERATIONS
      salt := uint8ArrayToBase64 salt
      iv := uint8ArrayToBase64 iv
      ciphertext := [] }
  | .argon2id memorySize iterations parallelism =>
    { version := ARGON2ID_PAYLOAD_VERSION
      algorithm := js "argon2id"
      iterations := iterations.getD ARGON2ID_DEFAULTS.iterations
      memorySize := some (memorySize.getD ARGON2ID_DEFAULTS.memorySize)
      parallelism := some (parallelism.getD ARGON2ID_DEFAULTS.parallelism)
      salt := uint8ArrayToBase64 salt
      iv := uint8ArrayToBase64 iv
      ciphertext := [] }

/-- With the random salt and initialization vector. -/
def encryptWithPassphrase (plaintext passphrase : JsString) (kdf : KdfOptions) (salt iv : Bytes) :
    Except Failure PassphraseEncryptedPayload := do
  let key ← kdf.deriveKey P passphrase salt
  return { kdf.payload salt iv with ciphertext := uint8ArrayToBase64 (P.encrypt key iv (stringToUint8Array plaintext)) }

def payloadKey (payload : PassphraseEncryptedPayload) (salt : Bytes) (passphrase : JsString) : Except Failure Key :=
  if payload.version = PBKDF2_PAYLOAD_VERSION then deriveKeyFromPassphrase P passphrase salt payload.iterations
  else if payload.version = ARGON2ID_PAYLOAD_VERSION then
    deriveKeyFromPassphraseArgon2id P passphrase salt payload.memorySize payload.iterations payload.parallelism
  else .error (.error (js "Unsupported backup payload version: " ++ payload.version))

/-- The payload is `none` when it is not JSON. -/
def decryptWithPassphrase (payload : Option PassphraseEncryptedPayload) (passphrase : JsString) :
    Except Failure JsString := do
  let payload ← orThrow payload (failure "Invalid encrypted backup payload")
  let salt ← orThrow (atob payload.salt) .invalidCharacter
  let iv ← orThrow (atob payload.iv) .invalidCharacter
  let ciphertext ← orThrow (atob payload.ciphertext) .invalidCharacter
  let key ← payloadKey P payload salt passphrase
  let plaintext ← orThrow (P.decrypt key iv ciphertext)
    (failure "Failed to decrypt backup: incorrect passphrase or corrupted data")
  return uint8ArrayToString plaintext

/-! ## The round trip -/

/-- Key derivations are injective, and only the key of an encryption decrypts it. -/
structure Primitives.Ideal : Prop where
  pbkdf2 : ∀ salt iterations, Function.Injective fun passphrase => P.pbkdf2 passphrase salt iterations
  argon2id : ∀ salt params, Function.Injective fun passphrase => P.argon2id passphrase salt params
  own : ∀ key iv plaintext, P.decrypt key iv (P.encrypt key iv plaintext) = some plaintext
  other : ∀ key key' iv plaintext, key' ≠ key → P.decrypt key' iv (P.encrypt key iv plaintext) = none

variable {P} {plaintext passphrase other : JsString} {kdf : KdfOptions} {salt iv : Bytes}

theorem payloadKey_payload (kdf : KdfOptions) (salt iv : Bytes) (ciphertext passphrase : JsString) :
    payloadKey P { kdf.payload salt iv with ciphertext } salt passphrase = kdf.deriveKey P passphrase salt := by
  have hversions : ARGON2ID_PAYLOAD_VERSION ≠ PBKDF2_PAYLOAD_VERSION := by decide
  cases kdf with
  | pbkdf2 iterations => exact if_pos rfl
  | argon2id memorySize iterations parallelism => exact (if_neg hversions).trans (if_pos rfl)

theorem deriveKey_empty (kdf : KdfOptions) (salt : Bytes) :
    kdf.deriveKey P [] salt = .error (failure "Passphrase must not be empty") := by
  cases kdf with
  | pbkdf2 iterations => rfl
  | argon2id memorySize iterations parallelism => rfl

/-- Whether two passphrases derive one key: PBKDF2 is given their bytes. -/
def SameKey : KdfOptions → JsString → JsString → Prop
  | .pbkdf2 _, passphrase, other => stringToUint8Array passphrase = stringToUint8Array other
  | .argon2id .., passphrase, other => passphrase = other

theorem Primitives.Ideal.deriveKey (hP : P.Ideal) (kdf : KdfOptions) (salt : Bytes) (hpassphrase : passphrase ≠ [])
    (hother : other ≠ []) : ∃ key key', kdf.deriveKey P passphrase salt = .ok key ∧
      kdf.deriveKey P other salt = .ok key' ∧ (key' = key ↔ SameKey kdf passphrase other) := by
  cases kdf with
  | pbkdf2 iterations =>
    exact ⟨_, _, if_neg hpassphrase, if_neg hother, (hP.pbkdf2 salt _).eq_iff.trans eq_comm⟩
  | argon2id memorySize iterations parallelism =>
    exact ⟨_, _, if_neg hpassphrase, if_neg hother, (hP.argon2id salt _).eq_iff.trans eq_comm⟩

variable {payload : PassphraseEncryptedPayload}

theorem encryptWithPassphrase_ok {key : Key} (hkey : kdf.deriveKey P passphrase salt = .ok key) :
    encryptWithPassphrase P plaintext passphrase kdf salt iv = .ok { kdf.payload salt iv with
      ciphertext := uint8ArrayToBase64 (P.encrypt key iv (stringToUint8Array plaintext)) } := by
  rw [encryptWithPassphrase, hkey]
  rfl

theorem decryptWithPassphrase_payload (key : Key) (passphrase : JsString) :
    decryptWithPassphrase P (some { kdf.payload salt iv with
        ciphertext := uint8ArrayToBase64 (P.encrypt key iv (stringToUint8Array plaintext)) }) passphrase =
      (do
        let key' ← kdf.deriveKey P passphrase salt
        let plaintext ← orThrow (P.decrypt key' iv (P.encrypt key iv (stringToUint8Array plaintext)))
          (failure "Failed to decrypt backup: incorrect passphrase or corrupted data")
        return uint8ArrayToString plaintext) := by
  have hsalt : atob (kdf.payload salt iv).salt = some salt := by
    cases kdf with
    | pbkdf2 iterations => exact atob_uint8ArrayToBase64 salt
    | argon2id memorySize iterations parallelism => exact atob_uint8ArrayToBase64 salt
  have hiv : atob (kdf.payload salt iv).iv = some iv := by
    cases kdf with
    | pbkdf2 iterations => exact atob_uint8ArrayToBase64 iv
    | argon2id memorySize iterations parallelism => exact atob_uint8ArrayToBase64 iv
  simp only [decryptWithPassphrase, hsalt, hiv, atob_uint8ArrayToBase64, orThrow, Guarded.ok_bind, payloadKey_payload]

theorem decryptWithPassphrase_encrypted (hP : P.Ideal) (hpassphrase : passphrase ≠ []) :
    ∃ payload, encryptWithPassphrase P plaintext passphrase kdf salt iv = .ok payload ∧
      (∀ other, other ≠ [] → SameKey kdf passphrase other →
        decryptWithPassphrase P (some payload) other = .ok (uint8ArrayToString (stringToUint8Array plaintext))) ∧
      ∀ other, other = [] ∨ ¬ SameKey kdf passphrase other →
        ∃ e, decryptWithPassphrase P (some payload) other = .error e := by
  obtain ⟨key, _, hkey, _, _⟩ := hP.deriveKey kdf salt hpassphrase hpassphrase
  refine ⟨_, encryptWithPassphrase_ok hkey, fun other hother hsame => ?_, fun other hdiffers => ?_⟩
  · obtain ⟨key₁, key', hkey₁, hkey', hiff⟩ := hP.deriveKey kdf salt hpassphrase hother
    cases hkey.symm.trans hkey₁
    rw [decryptWithPassphrase_payload, hkey', hiff.mpr hsame]
    simp only [Guarded.ok_bind, hP.own, orThrow]
    rfl
  · rw [decryptWithPassphrase_payload]
    by_cases hother : other = []
    · rw [hother, deriveKey_empty]
      exact ⟨_, rfl⟩
    · obtain ⟨key₁, key', hkey₁, hkey', hiff⟩ := hP.deriveKey kdf salt hpassphrase hother
      cases hkey.symm.trans hkey₁
      have hne : key' ≠ key := fun heq => (hdiffers.resolve_left hother) (hiff.mp heq)
      rw [hkey']
      simp only [Guarded.ok_bind, hP.other key key' iv _ hne, orThrow]
      exact ⟨_, rfl⟩

end Envelope

end ChainGuard.OffChain.SecretsService

namespace ChainGuard.OffChain.KeyringBackup
open Async Methods ClientKeyring SecretsService
set_option autoImplicit false

/-- As `JSON.parse` returns it; the ciphertext is `none` when it is not JSON itself. -/
structure KeyPairBackupPayload where
  version : JsString
  account : JsString
  publicKey : JsString
  encryptedPrivateKey : Option PassphraseEncryptedPayload
  exportedAt : JsString

section Service
variable {Key : Type} (P : Primitives Key) (cfg : Config)

def rethrown : SecretsService.Failure → ClientKeyring.Failure
  | .error message => .error message
  | .invalidCharacter => ClientKeyring.failure "InvalidCharacterError"

def awaited {α : Type} : Except SecretsService.Failure α → Method α
  | .ok a => pure a
  | .error e => throw (rethrown e)

def getStoredPublicKey (account : JsString) : Method JsString :=
  if account = [] then return []
  else do
    let record ← idbGet cfg account
    return (record.map (·.publicKey)).getD []

def replyKey : Reply → JsString
  | .unit => []
  | .publicKey key => key
  | .privateKey key => key

/-- With the random salt and vector of the envelope. -/
def exportKeyBackup (account backupPassphrase currentPin : JsString) (salt iv : Bytes) (exportedAt : JsString) :
    Method KeyPairBackupPayload := do
  Program.throwIf (account = []) (ClientKeyring.failure "Account is required")
  Program.throwIf (trim backupPassphrase = []) (ClientKeyring.failure "A secure backup passphrase is required")
  let normalized := cfg.lower account
  let privateKey ← getDecryptedPrivateKey cfg normalized currentPin
  let publicKey ← getStoredPublicKey cfg normalized
  let _ ← Program.answer
  let encryptedForBackup ← awaited
    (encryptWithPassphrase P (replyKey privateKey) (trim backupPassphrase) DEFAULT_KDF_OPTIONS salt iv)
  return { version := js "spoovault-keyring-backup-v1"
           account := normalized
           publicKey := publicKey
           encryptedPrivateKey := some encryptedForBackup
           exportedAt := exportedAt }

/-- The backup is `none` when it is not JSON. -/
def importKeyBackup (account : JsString) (backup : Option KeyPairBackupPayload)
    (backupPassphrase newPin : JsString) : Method Reply := do
  Program.throwIf (account = []) (ClientKeyring.failure "Account is required")
  Program.throwIf (backupPassphrase = []) (ClientKeyring.failure "Backup passphrase is required")
  let parsed ← Program.orThrow backup (ClientKeyring.failure "Invalid backup file: Malformed JSON")
  Program.throwIf (parsed.version ≠ js "spoovault-keyring-backup-v1")
    (.error (js "Unsupported backup format version: " ++ parsed.version))
  let normalized := cfg.lower account
  Program.throwIf (parsed.account ≠ [] ∧ cfg.lower parsed.account ≠ normalized) (.error
    (js "Backup file was created for wallet " ++ parsed.account ++ js ", but active account is " ++ account))
  let _ ← Program.answer
  let decryptedPrivateKey ← Program.orThrow (decryptWithPassphrase P parsed.encryptedPrivateKey backupPassphrase).toOption
    (ClientKeyring.failure "Failed to decrypt backup: Incorrect backup passphrase")
  let _ ← saveKeyPair cfg normalized parsed.publicKey decryptedPrivateKey newPin
  return .publicKey parsed.publicKey

end Service

/-! ## Imports -/

section Imports
variable {Key : Type} {P : Primitives Key} {cfg : Config} {x : Answers} {s : Keyring}
  {account publicKey privateKey passphrase newPin : JsString}

theorem importKeyBackup_ideal {file : KeyPairBackupPayload} {c : PassphraseCiphertext}
    (hopens : ∀ passphrase ≠ [], (decryptWithPassphrase P file.encryptedPrivateKey passphrase).toOption = c.decrypt passphrase)
    (account backupPassphrase newPin : JsString) (x : Answers) (s : Keyring) :
    outcome (importKeyBackup P cfg account (some file) backupPassphrase newPin) x s =
      outcome (ClientKeyring.importKeyBackup cfg account
        (some { version := file.version, account := file.account, publicKey := file.publicKey, encryptedPrivateKey := c })
        backupPassphrase newPin) x s := by
  simp only [importKeyBackup, ClientKeyring.importKeyBackup, outcome_bind, outcome_throwIf, outcome_orThrow]
  by_cases hpassphrase : backupPassphrase = []
  · simp only [if_pos hpassphrase]
  · simp only [hopens backupPassphrase hpassphrase]

theorem opens_encrypted (hP : P.Ideal) (hpassphrase : passphrase ≠ []) (hkept : KeptByUtf8 privateKey) (salt iv : Bytes) :
    ∃ payload, encryptWithPassphrase P privateKey passphrase DEFAULT_KDF_OPTIONS salt iv = .ok payload ∧
      ∀ other ≠ [], (decryptWithPassphrase P (some payload) other).toOption =
        PassphraseCiphertext.decrypt ⟨passphrase, privateKey⟩ other := by
  obtain ⟨payload, hpayload, hown, hothers⟩ := @decryptWithPassphrase_encrypted _ P privateKey passphrase
    DEFAULT_KDF_OPTIONS salt iv hP hpassphrase
  refine ⟨payload, hpayload, fun other hother => ?_⟩
  by_cases hsame : other = passphrase
  · rw [hown other hother hsame.symm, (uint8ArrayToString_iff privateKey).mpr hkept]
    exact (if_pos hsame).symm
  · obtain ⟨e, hrefused⟩ := hothers other (.inr (Ne.symm hsame))
    rw [hrefused]
    exact (if_neg hsame).symm

def idealFile (cfg : Config) (account publicKey privateKey passphrase : JsString) : ClientKeyring.KeyPairBackupPayload where
  version := js "spoovault-keyring-backup-v1"
  account := cfg.lower account
  publicKey := publicKey
  encryptedPrivateKey := ⟨passphrase, privateKey⟩

theorem import_refused {other : JsString} (hother : other ≠ passphrase) :
    ∃ e, outcome (ClientKeyring.importKeyBackup cfg account (some (idealFile cfg account publicKey privateKey passphrase))
      other newPin) x s = (.error e, s) := by
  simp only [ClientKeyring.importKeyBackup, outcome_bind, outcome_throwIf, outcome_orThrow, idealFile]
  by_cases haccount : account = []
  · simp only [if_pos haccount]
    exact ⟨_, rfl⟩
  by_cases hempty : other = []
  · simp only [if_neg haccount, if_pos hempty]
    exact ⟨_, rfl⟩
  · simp only [if_neg haccount, if_neg hempty, cfg.lower_lower, ne_eq, not_true_eq_false, and_false, if_false,
      outcome_answer, PassphraseCiphertext.decrypt, if_neg hother]
    exact ⟨_, rfl⟩

theorem import_opened (haccount : account ≠ []) (hpassphrase : passphrase ≠ []) :
    outcome (ClientKeyring.importKeyBackup cfg account (some (idealFile cfg account publicKey privateKey passphrase))
      passphrase newPin) x s =
      match outcome (saveKeyPair cfg (cfg.lower account) publicKey privateKey newPin) x s with
      | (.ok _, s') => (.ok (.publicKey publicKey), s')
      | (.error e, s') => (.error e, s') := by
  simp only [ClientKeyring.importKeyBackup, outcome_bind, outcome_throwIf, outcome_orThrow, idealFile, if_neg haccount,
    if_neg hpassphrase, cfg.lower_lower, ne_eq, not_true_eq_false, and_false, if_false, outcome_answer,
    PassphraseCiphertext.decrypt, if_true]
  rcases outcome (saveKeyPair cfg (cfg.lower account) publicKey privateKey newPin) x s with ⟨_ | _, s'⟩
  · rfl
  · rfl

/-! ## Unlocks of an imported pair -/

theorem enrollment_credential {a pin exportKey : JsString} {s' : Keyring}
    (h : enrollment x s a pin = some (exportKey, s')) :
    ∃ c, s'.server a = some c ∧ c.exportKey = exportKey ∧ c.pin = trim pin := by
  unfold enrollment enrolled at h
  split_ifs at h with hpin hregisters hexists
  · cases h
    exact ⟨⟨trim pin, _⟩, Function.update_self .., rfl, rfl⟩
  · obtain ⟨c, hlogin, heq⟩ := Option.map_eq_some_iff.mp h
    cases heq
    unfold loggedIn at hlogin
    split at hlogin
    · obtain ⟨hserver, hsame⟩ := Option.filter_eq_some_iff.mp hlogin
      exact ⟨c, hserver, rfl, of_decide_eq_true hsame⟩
    · cases hlogin

/-- The pair is stored for the PIN: the record wraps it with the export key of the credential, and no other key is cached. -/
structure StoredUnder (s : Keyring) (a publicKey privateKey pin : JsString) : Prop where
  record : ∃ r c, s.records a = some r ∧ s.server a = some c ∧ r.publicKey = publicKey ∧ c.pin = trim pin ∧
    r.opaqueEnvelope = some ⟨c.exportKey, a, publicKey, privateKey⟩
  cached : ∀ key ∈ s.sessionKeyCache a, key = privateKey

theorem StoredUnder.unlocks {pin : JsString} (h : StoredUnder s (cfg.lower account) publicKey privateKey pin)
    (haccount : account ≠ []) (hpin : trim pin ≠ []) (hx : x.loginFailure = none) :
    (outcome (getDecryptedPrivateKey cfg account pin) x s).1 = .ok (.privateKey privateKey) := by
  obtain ⟨⟨r, c, hr, hc, rfl, hcredential, henvelope⟩, hcache⟩ := h
  simp only [getDecryptedPrivateKey, outcome_bind, outcome_throwIf, if_neg haccount, outcome_get]
  cases hcached : (readCachedPrivateKey (cfg.lower account) s).filter (· ≠ []) with
  | some key =>
    rw [hcache key (Option.filter_eq_some_iff.mp hcached).1]
    rfl
  | none =>
    have hread : (s.read (cfg.lower account)).filter KeyPairRecord.hasKey = some { r with account := cfg.lower account } := by
      rw [Keyring.read, hr]
      simp only [Option.map_some, Option.filter_some, KeyPairRecord.hasKey, henvelope, Option.isSome_some, Bool.or_true,
        Bool.true_or, if_true]
    have hlogin : loggedIn x s (cfg.lower account) (trim (trim pin)) = some c := by
      rw [loggedIn, if_pos hx, hc, trim_trim, Option.filter_some, if_pos (decide_eq_true hcredential)]
    obtain ⟨e, hout⟩ := login_outcome cfg x s (cfg.lower account) (trim (trim pin))
    rw [cfg.lower_lower, hlogin] at hout
    have hunlocked : ∃ s', outcome (unlockStored cfg { r with account := cfg.lower account } pin) x s =
        (.ok privateKey, s') := by
      simp only [unlockStored, unlockRecord, henvelope, outcome_tryCatch, verifyAndUnwrap, outcome_bind,
        outcome_throwIf, trim_trim, if_neg hpin, outcome_orThrow, OpaqueKeyringEnvelope.decrypt, cfg.lower_lower]
      rw [trim_trim] at hout
      simp only [hout, and_self, if_true]
      exact ⟨_, rfl⟩
    obtain ⟨s', hunlocked⟩ := hunlocked
    simp only [outcome_bind, idbGet_outcome, cfg.lower_lower, outcome_orThrow, hread, hunlocked]
    rfl

theorem saved_storedUnder {a pin exportKey : JsString} {s' : Keyring} {existing : Option KeyPairRecord}
    (h : enrollment x s a pin = some (exportKey, s')) :
    StoredUnder (saved x a publicKey privateKey existing exportKey s') a publicKey privateKey pin := by
  obtain ⟨c, hc, rfl, hpin⟩ := enrollment_credential h
  have hcached : (saved x a publicKey privateKey existing c.exportKey s').sessionKeyCache a = some privateKey :=
    Function.update_self ..
  refine ⟨⟨_, c, Function.update_self .., hc, rfl, hpin, rfl⟩, fun key hkey => ?_⟩
  exact (Option.some.inj (hcached.symm.trans hkey)).symm

theorem StoredUnder.locked {pin : JsString} (h : StoredUnder s (cfg.lower account) publicKey privateKey pin)
    (y : Answers) : StoredUnder (outcome (lockAccount cfg account) y s).2 (cfg.lower account) publicKey privateKey pin := by
  unfold lockAccount
  split
  · exact h
  · refine ⟨h.record, fun key hkey => ?_⟩
    cases (Function.update_self ..).symm.trans hkey

/-! ## Exports -/

def SamePublicKeys (s s' : Keyring) : Prop := ∀ a, (s'.records a).map (·.publicKey) = (s.records a).map (·.publicKey)

theorem persistKeyPair_samePublicKeys {r : KeyPairRecord} (hr : s.records (cfg.lower account) = some r)
    (hpublic : r.publicKey = publicKey) (pin : JsString) (existing : Option KeyPairRecord) :
    SamePublicKeys s (outcome (persistKeyPair cfg account publicKey privateKey pin existing) x s).2 := by
  obtain ⟨e, hpersist⟩ := persistKeyPair_outcome cfg x s publicKey privateKey pin existing (rfl : cfg.lower account = _)
  rw [hpersist]
  cases henroll : enrollment x s (cfg.lower account) pin with
  | none => exact fun _ => rfl
  | some yield =>
    obtain ⟨hrecords, _⟩ := enrollment_spec henroll
    intro a
    simp only [saved, Keyring.setCached, Keyring.setRecord, hrecords]
    by_cases ha : a = cfg.lower account
    · rw [ha, Function.update_self, hr]
      exact congrArg some hpublic.symm
    · rw [Function.update_of_ne ha]

theorem migrate_samePublicKeys {r : KeyPairRecord} (hr : s.records (cfg.lower account) = some r) (key pin : JsString)
    (isCustomPin : Bool) :
    SamePublicKeys s (outcome (migrate cfg { r with account := cfg.lower account } key pin isCustomPin) x s).2 := by
  simp only [migrate, outcome_bind, outcome_throwIf]
  cases isCustomPin with
  | false => exact fun _ => rfl
  | true =>
    rw [← cfg.lower_lower] at hr
    have hkept := @persistKeyPair_samePublicKeys cfg x s (cfg.lower account) r.publicKey key r hr rfl pin
      (some { r with account := cfg.lower account })
    simp only [Bool.true_eq_false, if_false]
    revert hkept
    rcases outcome (persistKeyPair cfg (cfg.lower account) r.publicKey key pin
      (some { r with account := cfg.lower account })) x s with ⟨_ | _, s'⟩
    · exact id
    · exact id

theorem unlockRecord_samePublicKeys {r : KeyPairRecord} (hr : s.records (cfg.lower account) = some r) (pin : JsString) :
    SamePublicKeys s (outcome (unlockRecord cfg { r with account := cfg.lower account } pin) x s).2 := by
  unfold unlockRecord
  cases henvelope : r.opaqueEnvelope with
  | some envelope =>
    obtain ⟨e, hlogin⟩ := login_outcome cfg x s (cfg.lower account) (trim (trim pin))
    simp only [outcome_tryCatch, verifyAndUnwrap, outcome_bind, outcome_throwIf, outcome_orThrow]
    by_cases hpin : trim (trim pin) = []
    · simp only [if_pos hpin]
      exact fun _ => rfl
    · simp only [if_neg hpin, hlogin]
      cases loggedIn x s (cfg.lower (cfg.lower account)) (trim (trim pin)) with
      | none => exact fun _ => rfl
      | some c =>
        dsimp only
        cases envelope.decrypt c.exportKey (cfg.lower (cfg.lower account)) r.publicKey with
        | none => exact fun _ => rfl
        | some key => exact fun _ => rfl
  | none =>
    cases hzkpp : r.zkpp with
    | some envelope =>
      cases hoprf : r.oprfKey with
      | none => exact fun _ => rfl
      | some oprfKey =>
        simp only [outcome_bind, outcome_orThrow, outcome_answer]
        cases envelope.decrypt oprfKey (cfg.lower (cfg.lower account)) (getEffectivePassphrase cfg (cfg.lower account) pin).1 with
        | none => exact fun _ => rfl
        | some key => exact migrate_samePublicKeys hr key _ _
    | none =>
      cases hciphertext : r.encryptedPrivateKey with
      | none => exact fun _ => rfl
      | some ciphertext =>
        simp only [outcome_bind, outcome_orThrow, outcome_answer]
        cases ciphertext.decrypt (getEffectivePassphrase cfg (cfg.lower account) pin).1 with
        | none => exact fun _ => rfl
        | some key => exact migrate_samePublicKeys hr key _ _

theorem unlockStored_samePublicKeys {r : KeyPairRecord} (hr : s.records (cfg.lower account) = some r) (pin : JsString) :
    SamePublicKeys s (outcome (unlockStored cfg { r with account := cfg.lower account } pin) x s).2 := by
  unfold unlockStored
  cases if trim pin = [] then ({ r with account := cfg.lower account } : KeyPairRecord).unlockingPasskey else none with
  | none => exact unlockRecord_samePublicKeys hr pin
  | some ciphertext =>
    simp only [outcome_tryCatch, decryptRecordWithPasskey, outcome_bind, outcome_answer, outcome_rethrow]
    cases x.passkeyFailure with
    | some e => exact fun _ => rfl
    | none =>
      simp only [outcome_orThrow]
      cases ciphertext.decrypt ⟨r.passkeyCredentialId, r.passkeyPrfSalt⟩ with
      | none => exact fun _ => rfl
      | some key => exact fun _ => rfl

theorem getDecryptedPrivateKey_samePublicKeys (pin : JsString) :
    SamePublicKeys s (outcome (getDecryptedPrivateKey cfg account pin) x s).2 := by
  simp only [getDecryptedPrivateKey, outcome_bind, outcome_throwIf]
  by_cases haccount : account = []
  · simp only [if_pos haccount]
    exact fun _ => rfl
  simp only [if_neg haccount, outcome_get]
  cases (readCachedPrivateKey (cfg.lower account) s).filter (· ≠ []) with
  | some key => exact fun _ => rfl
  | none =>
    simp only [outcome_bind, idbGet_outcome, outcome_orThrow, cfg.lower_lower]
    cases hrecord : (s.read (cfg.lower account)).filter KeyPairRecord.hasKey with
    | none => exact fun _ => rfl
    | some record =>
      obtain ⟨r, hr, rfl⟩ := Option.map_eq_some_iff.mp (Option.filter_eq_some_iff.mp hrecord).1
      have hkept := unlockStored_samePublicKeys (x := x) hr pin
      dsimp only
      rcases hout : outcome (unlockStored cfg { r with account := cfg.lower account } pin) x s with ⟨_ | key, s'⟩
      · rwa [hout] at hkept
      · rwa [hout] at hkept

end Imports

/-! ## Round trips -/

section RoundTrips
variable {Key : Type} {P : Primitives Key} {cfg : Config}

/-- A stored matching key pair, which `currentPin` unlocks: it is what the formats admit, and its private key is text
that the codec keeps, as base64 is. -/
structure StoredPair (cfg : Config) (x : Answers) (s : Keyring) (account currentPin publicKey privateKey : JsString) :
    Prop where
  record : ∃ r, s.records (cfg.lower account) = some r ∧ r.publicKey = publicKey
  unlocked : (outcome (getDecryptedPrivateKey cfg (cfg.lower account) currentPin) x s).1 = .ok (.privateKey privateKey)
  present : publicKey ≠ [] ∧ privateKey ≠ []
  imports : cfg.importsPublicKey publicKey = true ∧ cfg.importsPrivateKey privateKey = true
  pair : cfg.publicKeyOf privateKey = publicKey
  kept : KeptByUtf8 privateKey

/-- What a backup promises of its import into a keyring: with its passphrase the pair is stored and unlocked by the new
PIN, in the session and after it is locked; with another passphrase nothing is stored. -/
structure RoundTrips (P : Primitives Key) (cfg : Config) (file : KeyPairBackupPayload)
    (account backupPassphrase newPin publicKey privateKey : JsString) (x : Answers) (s : Keyring) : Prop where
  succeeds : (outcome (importKeyBackup P cfg account (some file) backupPassphrase newPin) x s).1 = .ok (.publicKey publicKey)
  stored : ∃ r, (outcome (importKeyBackup P cfg account (some file) backupPassphrase newPin) x s).2.records
    (cfg.lower account) = some r ∧ r.publicKey = publicKey
  unlocks : ∀ y, y.loginFailure = none → (outcome (getDecryptedPrivateKey cfg account newPin) y
    (outcome (importKeyBackup P cfg account (some file) backupPassphrase newPin) x s).2).1 = .ok (.privateKey privateKey)
  unlocksLocked : ∀ y, y.loginFailure = none → (outcome (getDecryptedPrivateKey cfg account newPin) y
    (outcome (lockAccount cfg account) y
      (outcome (importKeyBackup P cfg account (some file) backupPassphrase newPin) x s).2).2).1 = .ok (.privateKey privateKey)
  refuses : ∀ other, trim other ≠ trim backupPassphrase → ∃ e s',
    outcome (importKeyBackup P cfg account (some file) other newPin) x s = (.error e, s') ∧ s'.records = s.records

variable {x x' : Answers} {s s' : Keyring} {account backupPassphrase currentPin newPin publicKey privateKey : JsString}
  {salt iv : Bytes} {exportedAt : JsString}

theorem StoredPair.lower_ne (h : StoredPair cfg x s account currentPin publicKey privateKey) : cfg.lower account ≠ [] := by
  intro hempty
  have hunlocked := h.unlocked
  simp only [getDecryptedPrivateKey, outcome_bind, outcome_throwIf, if_pos hempty] at hunlocked
  cases hunlocked

theorem StoredPair.exports (h : StoredPair cfg x s account currentPin publicKey privateKey) (hP : P.Ideal)
    (haccount : account ≠ []) (hpassphrase : trim backupPassphrase ≠ []) :
    ∃ file, (outcome (exportKeyBackup P cfg account backupPassphrase currentPin salt iv exportedAt) x s).1 = .ok file ∧
      ∀ passphrase pin y t, outcome (importKeyBackup P cfg account (some file) passphrase pin) y t =
        outcome (ClientKeyring.importKeyBackup cfg account
          (some (idealFile cfg account publicKey privateKey (trim backupPassphrase))) passphrase pin) y t := by
  obtain ⟨payload, hpayload, hopens⟩ := opens_encrypted hP hpassphrase h.kept salt iv
  refine ⟨{ version := js "spoovault-keyring-backup-v1"
            account := cfg.lower account
            publicKey := publicKey
            encryptedPrivateKey := some payload
            exportedAt := exportedAt }, ?_, fun passphrase pin y t => ?_⟩
  · have hunlocked := h.unlocked
    have hkept := @getDecryptedPrivateKey_samePublicKeys cfg x s (cfg.lower account) currentPin
    obtain ⟨r, hr, hpublic⟩ := h.record
    simp only [exportKeyBackup, outcome_bind, outcome_throwIf, if_neg haccount, if_neg hpassphrase]
    rcases hout : outcome (getDecryptedPrivateKey cfg (cfg.lower account) currentPin) x s with ⟨result, t⟩
    rw [hout] at hunlocked hkept
    have hstored : (t.records (cfg.lower account)).map (·.publicKey) = some publicKey := by
      rw [hkept, hr, ← hpublic]
      rfl
    obtain ⟨r', hr', hpublic'⟩ := Option.map_eq_some_iff.mp hstored
    have hread : (t.read (cfg.lower account)).map (·.publicKey) = some publicKey := by
      rw [Keyring.read, hr', ← hpublic']
      rfl
    cases hunlocked
    simp only [getStoredPublicKey, if_neg h.lower_ne, outcome_bind, idbGet_outcome, cfg.lower_lower, hread,
      Option.getD_some, outcome_pure, outcome_answer, replyKey, hpayload, awaited]
  · exact importKeyBackup_ideal hopens account passphrase pin y t

/-- A backup holds what it promises exactly where its passphrase has no surrounding blanks and the new PIN is enrolled. -/
theorem round_trips_iff (hP : P.Ideal) (hpair : StoredPair cfg x s account currentPin publicKey privateKey)
    (haccount : account ≠ []) (hpassphrase : trim backupPassphrase ≠ []) (hpin : trim newPin ≠ []) (x' : Answers)
    (s' : Keyring) :
    ∃ file, (outcome (exportKeyBackup P cfg account backupPassphrase currentPin salt iv exportedAt) x s).1 = .ok file ∧
      (RoundTrips P cfg file account backupPassphrase newPin publicKey privateKey x' s' ↔
        trim backupPassphrase = backupPassphrase ∧ (enrollment x' s' (cfg.lower account) newPin).isSome) := by
  obtain ⟨file, hfile, hideal⟩ := hpair.exports hP haccount hpassphrase
  refine ⟨file, hfile, ?_⟩
  have hsaves := saveKeyPair_outcome cfg x' s' (cfg.lower account) publicKey privateKey newPin
  rw [cfg.lower_lower] at hsaves
  have hopened := @import_opened cfg x' s' account publicKey privateKey (trim backupPassphrase) newPin haccount hpassphrase
  constructor
  · intro h
    have htrimmed : trim backupPassphrase = backupPassphrase := by
      by_contra hblanks
      obtain ⟨e, hrefused⟩ := @import_refused cfg x' s' account publicKey privateKey (trim backupPassphrase) newPin
        backupPassphrase (Ne.symm hblanks)
      have hsucceeds := h.succeeds
      rw [hideal, hrefused] at hsucceeds
      cases hsucceeds
    refine ⟨htrimmed, ?_⟩
    have hsucceeds := h.succeeds
    rw [hideal, htrimmed] at hsucceeds
    rw [htrimmed] at hopened
    rcases hsaves with ⟨exportKey, t, henroll, _⟩ | ⟨e, _, hthrown⟩
    · rw [henroll]
      rfl
    · rw [hopened, hthrown] at hsucceeds
      cases hsucceeds
  · rintro ⟨htrimmed, henrolled⟩
    obtain ⟨exportKey, t, henroll, hsaved⟩ : ∃ exportKey t, enrollment x' s' (cfg.lower account) newPin = some (exportKey, t) ∧
        outcome (saveKeyPair cfg (cfg.lower account) publicKey privateKey newPin) x' s' =
          (.ok .unit, saved x' (cfg.lower account) publicKey privateKey (s'.read (cfg.lower account)) exportKey t) := by
      rcases hsaves with ⟨exportKey, t, henroll, _, hsaved⟩ | ⟨e, hnone, _⟩
      · exact ⟨exportKey, t, henroll, hsaved⟩
      · rw [pinSaved, cfg.lower_lower, if_pos ⟨hpair.lower_ne, hpair.present.1, hpair.present.2, hpair.imports.1,
          hpair.imports.2, henrolled⟩] at hnone
        cases hnone
    have himport : outcome (importKeyBackup P cfg account (some file) backupPassphrase newPin) x' s' =
        (.ok (.publicKey publicKey),
          saved x' (cfg.lower account) publicKey privateKey (s'.read (cfg.lower account)) exportKey t) := by
      rw [hideal, htrimmed]
      rw [htrimmed] at hopened
      rw [hopened, hsaved]
    have hstored := @saved_storedUnder x' s' publicKey privateKey (cfg.lower account) newPin exportKey t
      (s'.read (cfg.lower account)) henroll
    constructor
    · rw [himport]
    · rw [himport]
      obtain ⟨r, _, hr, _, hpublic, _⟩ := hstored.record
      exact ⟨r, hr, hpublic⟩
    · intro y hy
      rw [himport]
      exact hstored.unlocks haccount hpin hy
    · intro y hy
      rw [himport]
      exact (hstored.locked y).unlocks haccount hpin hy
    · intro other hother
      have hdiffers : other ≠ trim backupPassphrase := by
        rintro rfl
        exact hother (trim_trim backupPassphrase)
      obtain ⟨e, hrefused⟩ := @import_refused cfg x' s' account publicKey privateKey (trim backupPassphrase) newPin
        other hdiffers
      exact ⟨e, s', (hideal other newPin x' s').trans hrefused, rfl⟩

end RoundTrips

/-! ## Keys in front of texts -/

/-- The units of a key, each after a one, and a zero. -/
def tagged : JsString → Bytes
  | [] => [0]
  | c :: rest => 1 :: UInt8.ofNat (c.toNat / 256) :: UInt8.ofNat (c.toNat % 256) :: tagged rest

theorem tagged_inj {key key' : JsString} {text : Bytes} (h : tagged key <+: tagged key' ++ text) : key = key' := by
  induction key generalizing key' with
  | nil =>
    cases key' with
    | nil => rfl
    | cons c' rest' =>
      rw [tagged, tagged, List.cons_append, List.cons_prefix_cons] at h
      exact absurd h.1 (by decide)
  | cons c rest ih =>
    cases key' with
    | nil =>
      rw [tagged, tagged, List.cons_append, List.cons_prefix_cons] at h
      exact absurd h.1 (by decide)
    | cons c' rest' =>
      simp only [tagged, List.cons_append, List.cons_prefix_cons, true_and] at h
      obtain ⟨hhigh, hlow, hrest⟩ := h
      have hc := c.toNat_lt
      have hc' := c'.toNat_lt
      have hhigh' : c.toNat / 256 % 256 = c'.toNat / 256 % 256 := by
        simpa only [UInt8.toNat_ofNat'] using congrArg UInt8.toNat hhigh
      have hlow' : c.toNat % 256 % 256 = c'.toNat % 256 % 256 := by
        simpa only [UInt8.toNat_ofNat'] using congrArg UInt8.toNat hlow
      have hunit : c = c' := UInt16.toNat_inj.mp (by omega)
      rw [hunit, ih hrest]

def plainPrimitives : Primitives JsString where
  pbkdf2 passphrase _ _ := passphrase.map fun b => b.toUInt16
  argon2id passphrase _ _ := passphrase
  encrypt key _ plaintext := tagged key ++ plaintext
  decrypt key _ ciphertext :=
    if tagged key <+: ciphertext then some (ciphertext.drop (tagged key).length) else none

theorem plainPrimitives_ideal : plainPrimitives.Ideal where
  pbkdf2 _ _ := List.map_injective_iff.mpr fun _ _ h => UInt8.toUInt16_inj.mp h
  argon2id _ _ := Function.injective_id
  own key iv plaintext := by
    simp only [plainPrimitives, List.prefix_append, if_true, List.drop_left]
  other key key' iv plaintext hne := if_neg fun h => hne (tagged_inj h)

/-- The pair of a wallet, saved under the PIN `1`. -/
def savedKeyring : Keyring :=
  (outcome (saveKeyPair plainKeys wallet [1] [1] [49]) { exportKey := [4] } {}).2

theorem savedKeyring_pair : StoredPair plainKeys {} savedKeyring wallet [] [1] [1] where
  record := ⟨_, rfl, rfl⟩
  unlocked := rfl
  present := by decide
  imports := ⟨rfl, rfl⟩
  pair := rfl
  kept := ⟨by decide, by decide⟩

/-- A backup is imported into a new browser under another PIN. -/
theorem round_trips_plain : ∃ file, (outcome (exportKeyBackup plainPrimitives plainKeys wallet (js "pass") [] [] [] [])
      {} savedKeyring).1 = .ok file ∧
    RoundTrips plainPrimitives plainKeys file wallet (js "pass") [50] [1] [1] {} {} := by
  obtain ⟨file, hfile, hiff⟩ := @round_trips_iff JsString plainPrimitives plainKeys {} savedKeyring wallet (js "pass") []
    [50] [1] [1] [] [] [] plainPrimitives_ideal savedKeyring_pair (by decide) (by decide) (by decide) {} {}
  exact ⟨file, hfile, hiff.mpr ⟨by decide, by decide⟩⟩

/-- The passphrase that it was exported with, a blank behind it, does not open it. -/
theorem blank_rejected : ∃ file, (outcome (exportKeyBackup plainPrimitives plainKeys wallet (js "pass ") [] [] [] [])
      {} savedKeyring).1 = .ok file ∧
    (∃ e, outcome (importKeyBackup plainPrimitives plainKeys wallet (some file) (js "pass ") [50]) {} {} = (.error e, {})) ∧
    ¬ RoundTrips plainPrimitives plainKeys file wallet (js "pass ") [50] [1] [1] {} {} := by
  have hpassphrase : trim (js "pass ") ≠ [] := by decide
  obtain ⟨file, hfile, hideal⟩ := @StoredPair.exports JsString plainPrimitives plainKeys {} savedKeyring wallet
    (js "pass ") [] [1] [1] [] [] [] savedKeyring_pair plainPrimitives_ideal (by decide) hpassphrase
  obtain ⟨e, hrefused⟩ := @import_refused plainKeys {} {} wallet [1] [1] (trim (js "pass ")) [50] (js "pass ") (by decide)
  refine ⟨file, hfile, ⟨e, (hideal _ _ _ _).trans hrefused⟩, fun h => ?_⟩
  have hsucceeds := h.succeeds
  rw [hideal, hrefused] at hsucceeds
  cases hsucceeds

end ChainGuard.OffChain.KeyringBackup
