import ChainGuard.OffChain.KeyringBackup

/-! Changes of a protected key or PIN when a step fails: messages to the OPAQUE server are lost before or after it
acted, wrapping fails, or IndexedDB does. -/
namespace ChainGuard.OffChain.KeyringAtomicity
open Methods ClientKeyring
set_option autoImplicit false

/-! ## Two stores -/

structure Browser where
  /-- `isIndexedDBAvailable()` -/
  indexedDB : Bool := true
  db : JsString → Option KeyPairRecord := fun _ => none
  memoryStore : JsString → Option KeyPairRecord := fun _ => none
  sessionKeyCache : JsString → Option JsString := fun _ => none
  managementTokens : JsString → Option JsString := fun _ => none
  server : JsString → Option Credential := fun _ => none

/-- How a call of IndexedDB ends: whether the database opens, and what the request on it fails with. -/
structure Access where
  opens : Bool := true
  request : Option Failure := none

/-- What a step fails with that the server did not answer: any error but the server's own refusal. -/
abbrev Loss := { e : Failure // e ≠ .transport "OPAQUE_CREDENTIAL_EXISTS" }

/-- What becomes of a message: it is lost before the server acts, it is answered, or its answer is lost. -/
inductive Fate
  | lost (loss : Loss)
  | answered
  | unanswered (loss : Loss)

def Fate.arrives : Fate → Bool
  | .lost _ => false
  | .answered | .unanswered _ => true

def Fate.isAnswered : Fate → Bool
  | .answered => true
  | .lost _ | .unanswered _ => false

/-- What the steps of an operation are answered with. -/
structure Faults where
  now : ℕ := 0
  generated : JsString := []
  passkeyCreated : Option PrfKey := none
  /-- Of the first `idbGet` and the first `idbPut`. -/
  read : Access := {}
  write : Access := {}
  /-- Of the second ones. -/
  readAgain : Access := {}
  writeAgain : Access := {}
  /-- What fails before the registration record is sent: a message, the library, or the server's identity. -/
  startRegistration : Option Loss := none
  finishRegistration : Fate := .answered
  tokenAccepted : Bool := true
  exportKey : JsString := []
  managementToken : JsString := []
  /-- What a login fails with, at any of its messages. -/
  login : Option Failure := none
  wrap : Option Failure := none

abbrev Method (α : Type) := Methods.Method Browser Failure α

def Browser.setDb (account : JsString) (record : KeyPairRecord) (s : Browser) : Browser :=
  { s with db := Function.update s.db account (some record) }

def Browser.setMemory (account : JsString) (record : KeyPairRecord) (s : Browser) : Browser :=
  { s with memoryStore := Function.update s.memoryStore account (some record) }

def Browser.setCached (account key : JsString) (s : Browser) : Browser :=
  { s with sessionKeyCache := Function.update s.sessionKeyCache account (some key) }

def Browser.setToken (account token : JsString) (s : Browser) : Browser :=
  { s with managementTokens := Function.update s.managementTokens account (some token) }

def Browser.setCredential (account : JsString) (credential : Credential) (s : Browser) : Browser :=
  { s with server := Function.update s.server account (some credential) }

def rethrow : Option Failure → Method Unit
  | some e => throw e
  | none => pure ()

/-- Whether IndexedDB is asked: where it cannot be opened, the memory is. -/
def Browser.asks (s : Browser) (access : Access) : Bool := s.indexedDB && access.opens

section Service
variable (cfg : Config) (f : Faults)

def idbGet (access : Access) (account : JsString) : Method (Option KeyPairRecord) := do
  let normalized := cfg.lower account
  let s ← get
  if s.asks access then
    rethrow access.request
    return s.db normalized
  else return s.memoryStore normalized

def idbPut (access : Access) (record : KeyPairRecord) : Method Unit := do
  let normalized := cfg.lower record.account
  if (← get).asks access then
    rethrow access.request
    modify (Browser.setDb normalized { record with account := normalized })
  else modify (Browser.setMemory normalized { record with account := normalized })

/-! ## Enrollment -/

/-- The server's `finishRegistration`. -/
def finishRegistration (account pin : JsString) (token : Option JsString) : Method Unit := do
  let existing := (← get).server account
  throwIf (existing.isSome ∧ ¬ (token.isSome ∧ f.tokenAccepted)) (.transport "OPAQUE_CREDENTIAL_EXISTS")
  modify (Browser.setCredential account ⟨pin, f.exportKey⟩)

def register (account pin : JsString) : Method JsString := do
  let normalized := cfg.lower account
  rethrow (f.startRegistration.map Subtype.val)
  let token := (← get).managementTokens normalized
  match f.finishRegistration with
  | .lost loss => throw loss.val
  | .unanswered loss =>
    tryCatch (finishRegistration f normalized pin token) fun _ => pure ()
    throw loss.val
  | .answered =>
    finishRegistration f normalized pin token
    modify (Browser.setToken normalized f.managementToken)
    return f.exportKey

def login (account pin : JsString) : Method JsString := do
  let normalized := cfg.lower account
  rethrow f.login
  let credential := (← get).server normalized
  let credential ← orThrow (credential.filter fun c => c.pin = pin) (failure "OPAQUE_VERIFICATION_FAILED")
  modify (Browser.setToken normalized f.managementToken)
  return credential.exportKey

def enrollAndWrap (account pin publicKey privateKey : JsString) : Method OpaqueKeyringEnvelope := do
  throwIf (trim pin = []) (failure "A PIN or passphrase is required for OPAQUE enrollment")
  let exportKey ← tryCatch (register cfg f account (trim pin)) fun error =>
    if error = .transport "OPAQUE_CREDENTIAL_EXISTS" then login cfg f account (trim pin) else throw error
  rethrow f.wrap
  return ⟨exportKey, cfg.lower account, publicKey, privateKey⟩

def persistKeyPair (account publicKey privateKey pinOrPassphrase : JsString) (existing : Option KeyPairRecord) :
    Method Unit := do
  let normalized := cfg.lower account
  let passphrase := trim pinOrPassphrase
  throwIf (passphrase = []) (failure "A PIN or passphrase is required when no passkey protects the keyring")
  let opaqueEnvelope ← enrollAndWrap cfg f normalized passphrase publicKey privateKey
  idbPut cfg f.write (replaced normalized publicKey opaqueEnvelope f.now existing)
  modify (Browser.setCached normalized privateKey)

/-! ## The three operations -/

def saveKeyPair (account publicKey privateKey pinOrPassphrase : JsString) : Method Reply := do
  throwIf (account = [] ∨ publicKey = [] ∨ privateKey = []) (failure "Account, publicKey, and privateKey are required")
  throwIf (cfg.importsPublicKey publicKey = false ∨ cfg.importsPrivateKey privateKey = false) .keyFormat
  let normalized := cfg.lower account
  throwIf (trim pinOrPassphrase = []) (failure "A PIN or passphrase is required to save a keypair without a passkey")
  let existing ← idbGet cfg f.read normalized
  persistKeyPair cfg f normalized publicKey privateKey pinOrPassphrase existing
  return .unit

def importKeyBackup (account : JsString) (backup : Option KeyPairBackupPayload)
    (backupPassphrase newPin : JsString) : Method Reply := do
  throwIf (account = []) (failure "Account is required")
  throwIf (backupPassphrase = []) (failure "Backup passphrase is required")
  let parsed ← orThrow backup (failure "Invalid backup file: Malformed JSON")
  throwIf (parsed.version ≠ js "spoovault-keyring-backup-v1")
    (.error (js "Unsupported backup format version: " ++ parsed.version))
  let normalized := cfg.lower account
  throwIf (parsed.account ≠ [] ∧ cfg.lower parsed.account ≠ normalized) (.error
    (js "Backup file was created for wallet " ++ parsed.account ++ js ", but active account is " ++ account))
  let decryptedPrivateKey ← orThrow (parsed.encryptedPrivateKey.decrypt backupPassphrase)
    (failure "Failed to decrypt backup: Incorrect backup passphrase")
  let _ ← saveKeyPair cfg f normalized parsed.publicKey decryptedPrivateKey newPin
  return .publicKey parsed.publicKey

def storeGenerated (normalized publicKey privateKey pin : JsString) (passkey : Option PasskeyCiphertext)
    (existing : Option KeyPairRecord) : Method Unit :=
  if pin ≠ [] then persistKeyPair cfg f normalized publicKey privateKey pin existing
  else
    match passkey with
    | some passkey =>
      let record : KeyPairRecord :=
        { account := normalized, publicKey := publicKey, createdAt := createdAt f.now existing, updatedAt := f.now,
          hasPin := false }
      idbPut cfg f.write (record.withPasskey passkey)
    | none => throw (failure "A PIN/passphrase is required because a WebAuthn PRF passkey could not be created.")

def addPasskey (pin : JsString) (passkey : Option PasskeyCiphertext) (updatedRecord : Option KeyPairRecord) :
    Method Unit :=
  match passkey, updatedRecord with
  | some passkey, some record => if pin ≠ [] then idbPut cfg f.writeAgain (record.withPasskey passkey) else pure ()
  | _, _ => pure ()

def generateAndSaveKeyPair (account pinOrPassphrase : JsString) (enablePasskey : Bool) : Method Reply := do
  throwIf (account = []) (failure "Account address is required to generate a keypair")
  let normalized := cfg.lower account
  let privateKey := f.generated
  let publicKey := cfg.publicKeyOf privateKey
  let passkey := if enablePasskey then f.passkeyCreated.map fun key => (⟨key, privateKey⟩ : PasskeyCiphertext) else none
  let existing ← idbGet cfg f.read normalized
  let pin := trim pinOrPassphrase
  storeGenerated cfg f normalized publicKey privateKey pin passkey existing
  let updatedRecord ← idbGet cfg f.readAgain normalized
  addPasskey cfg f pin passkey updatedRecord
  modify (Browser.setCached normalized privateKey)
  return .publicKey publicKey

inductive Change
  | saveKeyPair (account publicKey privateKey pinOrPassphrase : JsString)
  | importKeyBackup (account : JsString) (backup : Option KeyPairBackupPayload) (backupPassphrase newPin : JsString)
  | generateAndSaveKeyPair (account pinOrPassphrase : JsString) (enablePasskey : Bool)

def program : Change → Method Reply
  | .saveKeyPair account publicKey privateKey pinOrPassphrase =>
    saveKeyPair cfg f account publicKey privateKey pinOrPassphrase
  | .importKeyBackup account backup backupPassphrase newPin =>
    importKeyBackup cfg f account backup backupPassphrase newPin
  | .generateAndSaveKeyPair account pinOrPassphrase enablePasskey =>
    generateAndSaveKeyPair cfg f account pinOrPassphrase enablePasskey

end Service

/-! ## The steps on their inputs -/

/-- The request on IndexedDB fails. -/
def Browser.rejects (s : Browser) (access : Access) : Prop := s.asks access = true ∧ access.request ≠ none

instance (s : Browser) (access : Access) : Decidable (s.rejects access) := inferInstanceAs (Decidable (_ ∧ _))

/-- What is written lands in the store that is read once all works: memory stands in only for a lack of IndexedDB. -/
def Browser.lands (s : Browser) (access : Access) : Prop := s.indexedDB = false ∨ s.asks access = true

instance (s : Browser) (access : Access) : Decidable (s.lands access) := inferInstanceAs (Decidable (_ ∨ _))

def Browser.found (s : Browser) (access : Access) (account : JsString) : Option KeyPairRecord :=
  if s.asks access then s.db account else s.memoryStore account

def Browser.written (s : Browser) (access : Access) (account : JsString) (record : KeyPairRecord) : Browser :=
  if s.asks access then s.setDb account record else s.setMemory account record

def Browser.stored (s : Browser) : JsString → Option KeyPairRecord := if s.indexedDB then s.db else s.memoryStore

section Enrollment
variable (f : Faults) (s : Browser)

/-- The server takes the registration record: it arrives, and there is no credential or the management token is live. -/
def Replaces (account : JsString) : Prop :=
  f.startRegistration = none ∧ f.finishRegistration.arrives = true ∧
    (s.server account = none ∨ (s.managementTokens account).isSome ∧ f.tokenAccepted = true)

instance (account : JsString) : Decidable (Replaces f s account) := inferInstanceAs (Decidable (_ ∧ _ ∧ _))

/-- Every message is answered, the server takes the record or the PIN is that of its credential, and wrapping works. -/
def Enrolls (account pin : JsString) : Prop :=
  f.startRegistration = none ∧ f.finishRegistration.isAnswered = true ∧
    (Replaces f s account ∨ f.login = none ∧ ((s.server account).filter fun c => c.pin = pin).isSome) ∧ f.wrap = none

instance (account pin : JsString) : Decidable (Enrolls f s account pin) := inferInstanceAs (Decidable (_ ∧ _ ∧ _ ∧ _))

/-- The credentials after an enrollment, whether that goes through or not. -/
def serverAfter (account pin : JsString) : JsString → Option Credential :=
  if Replaces f s account then Function.update s.server account (some ⟨pin, f.exportKey⟩) else s.server

end Enrollment

structure SameStores (s s' : Browser) : Prop where
  indexedDB : s'.indexedDB = s.indexedDB
  db : s'.db = s.db
  memoryStore : s'.memoryStore = s.memoryStore

theorem SameStores.refl (s : Browser) : SameStores s s := ⟨rfl, rfl, rfl⟩

section Calls
variable {cfg : Config} {f : Faults} {s : Browser} {account a pin publicKey privateKey : JsString}

@[simp] theorem call_rethrow (e : Option Failure) : call (rethrow e) s =
    match e with
    | some e => (.error e, s)
    | none => (.ok (), s) := by
  cases e with
  | none => rfl
  | some e => rfl

theorem finishRegistration_call (token : Option JsString) : call (finishRegistration f a pin token) s =
    if s.server a = none ∨ token.isSome ∧ f.tokenAccepted = true then (.ok (), s.setCredential a ⟨pin, f.exportKey⟩)
    else (.error (.transport "OPAQUE_CREDENTIAL_EXISTS"), s) := by
  simp only [finishRegistration, call_bind, call_get, call_throwIf]
  cases hserver : s.server a with
  | none => simp
  | some c =>
    by_cases hlive : token.isSome ∧ f.tokenAccepted = true
    · simp [hlive]
    · simp [hlive]

/-- A registration returns where it is answered and the server takes the record, and is refused only where it is
answered. -/
theorem register_call (cfg : Config) (f : Faults) (s : Browser) (account pin : JsString) :
    ∃ result s', call (register cfg f account pin) s = (result, s') ∧ SameStores s s' ∧
      s'.server = serverAfter f s (cfg.lower account) pin ∧
      ((result = .ok f.exportKey ∧ Replaces f s (cfg.lower account) ∧ f.finishRegistration.isAnswered = true) ∨
        (result = .error (.transport "OPAQUE_CREDENTIAL_EXISTS") ∧ s' = s ∧ f.startRegistration = none ∧
          f.finishRegistration.isAnswered = true ∧ ¬ Replaces f s (cfg.lower account)) ∨
        ∃ e, result = .error e ∧ e ≠ .transport "OPAQUE_CREDENTIAL_EXISTS" ∧
          ¬ (f.startRegistration = none ∧ f.finishRegistration.isAnswered = true)) := by
  simp only [register, call_bind, call_rethrow]
  cases hstart : f.startRegistration with
  | some loss =>
    have hkeeps : ¬ Replaces f s (cfg.lower account) := fun h => by cases hstart.symm.trans h.1
    exact ⟨_, _, rfl, .refl s, (if_neg hkeeps).symm, .inr (.inr ⟨loss.val, rfl, loss.property, nofun⟩)⟩
  | none =>
    simp only [Option.map_none, call_get]
    have htaken : f.finishRegistration.arrives = true → (Replaces f s (cfg.lower account) ↔
        (s.server (cfg.lower account) = none ∨
          (s.managementTokens (cfg.lower account)).isSome ∧ f.tokenAccepted = true)) :=
      fun harrives => ⟨fun h => h.2.2, fun h => ⟨hstart, harrives, h⟩⟩
    cases hfinish : f.finishRegistration with
    | lost loss =>
      have hkeeps : ¬ Replaces f s (cfg.lower account) := fun h => by
        have harrives := h.2.1
        rw [hfinish] at harrives
        cases harrives
      exact ⟨_, _, rfl, .refl s, (if_neg hkeeps).symm,
        .inr (.inr ⟨loss.val, rfl, loss.property, fun h => by cases h.2⟩)⟩
    | unanswered loss =>
      rw [hfinish] at htaken
      simp only [call_bind, call_tryCatch, finishRegistration_call]
      by_cases hreplaces : Replaces f s (cfg.lower account)
      · rw [if_pos ((htaken rfl).mp hreplaces)]
        exact ⟨_, _, rfl, ⟨rfl, rfl, rfl⟩, (if_pos hreplaces).symm,
          .inr (.inr ⟨loss.val, rfl, loss.property, fun h => by cases h.2⟩)⟩
      · rw [if_neg fun h => hreplaces ((htaken rfl).mpr h)]
        exact ⟨_, _, rfl, .refl s, (if_neg hreplaces).symm,
          .inr (.inr ⟨loss.val, rfl, loss.property, fun h => by cases h.2⟩)⟩
    | answered =>
      rw [hfinish] at htaken
      simp only [call_bind, finishRegistration_call]
      by_cases hreplaces : Replaces f s (cfg.lower account)
      · rw [if_pos ((htaken rfl).mp hreplaces)]
        exact ⟨_, _, rfl, ⟨rfl, rfl, rfl⟩, (if_pos hreplaces).symm, .inl ⟨rfl, hreplaces, rfl⟩⟩
      · rw [if_neg fun h => hreplaces ((htaken rfl).mpr h)]
        exact ⟨_, _, rfl, .refl s, (if_neg hreplaces).symm, .inr (.inl ⟨rfl, rfl, trivial, rfl, hreplaces⟩)⟩

theorem login_call (cfg : Config) (f : Faults) (s : Browser) (account pin : JsString) :
    ∃ result s', call (login cfg f account pin) s = (result, s') ∧ SameStores s s' ∧ s'.server = s.server ∧
      if f.login = none ∧ ((s.server (cfg.lower account)).filter fun c => c.pin = pin).isSome then
        ∃ c, s.server (cfg.lower account) = some c ∧ c.pin = pin ∧ result = .ok c.exportKey
      else ∃ e, result = .error e := by
  simp only [login, call_bind, call_rethrow]
  cases hlogin : f.login with
  | some e => exact ⟨_, _, rfl, .refl s, rfl, by simp⟩
  | none =>
    simp only [call_get, call_orThrow]
    cases hcredential : (s.server (cfg.lower account)).filter fun c => c.pin = pin with
    | none => exact ⟨_, _, rfl, .refl s, rfl, by simp⟩
    | some c =>
      obtain ⟨hserver, hpin⟩ := Option.filter_eq_some_iff.mp hcredential
      refine ⟨_, _, rfl, ⟨rfl, rfl, rfl⟩, rfl, ?_⟩
      rw [if_pos ⟨trivial, rfl⟩]
      exact ⟨c, hserver, of_decide_eq_true hpin, rfl⟩

theorem enrollAndWrap_call (cfg : Config) (f : Faults) (s : Browser) (account publicKey privateKey : JsString)
    {pin : JsString} (hpin : trim pin ≠ []) :
    ∃ result s', call (enrollAndWrap cfg f account pin publicKey privateKey) s = (result, s') ∧ SameStores s s' ∧
      s'.server = serverAfter f s (cfg.lower account) (trim pin) ∧
      if Enrolls f s (cfg.lower account) (trim pin) then
        ∃ c, s'.server (cfg.lower account) = some c ∧ c.pin = trim pin ∧
          result = .ok ⟨c.exportKey, cfg.lower account, publicKey, privateKey⟩
      else ∃ e, result = .error e := by
  obtain ⟨registered, s₁, hregister, hstores, hserver, hcases⟩ := register_call cfg f s account (trim pin)
  simp only [enrollAndWrap, call_bind, call_throwIf, if_neg hpin, call_tryCatch, hregister]
  rcases hcases with ⟨rfl, hreplaces, hanswered⟩ | ⟨rfl, rfl, hstart, hanswered, hkeeps⟩ | ⟨e, rfl, he, hunanswered⟩
  · simp only [call_rethrow]
    cases hwrap : f.wrap with
    | some e =>
      refine ⟨_, _, rfl, hstores, hserver, ?_⟩
      rw [if_neg fun h => by cases hwrap.symm.trans h.2.2.2]
      exact ⟨e, rfl⟩
    | none =>
      refine ⟨_, _, rfl, hstores, hserver, ?_⟩
      rw [if_pos ⟨hreplaces.1, hanswered, .inl hreplaces, hwrap⟩, hserver, serverAfter, if_pos hreplaces]
      exact ⟨⟨trim pin, f.exportKey⟩, Function.update_self .., rfl, rfl⟩
  · obtain ⟨result, s₂, hlogin, hstores₂, hserver₂, hcredential⟩ := login_call cfg f s₁ account (trim pin)
    simp only [if_true, hlogin]
    by_cases hknown : f.login = none ∧ ((s₁.server (cfg.lower account)).filter fun c => c.pin = trim pin).isSome
    · rw [if_pos hknown] at hcredential
      obtain ⟨c, hc, hpinned, rfl⟩ := hcredential
      simp only [call_rethrow]
      cases hwrap : f.wrap with
      | some e =>
        refine ⟨_, _, rfl, hstores₂, hserver₂.trans hserver, ?_⟩
        rw [if_neg fun h => by cases hwrap.symm.trans h.2.2.2]
        exact ⟨e, rfl⟩
      | none =>
        refine ⟨_, _, rfl, hstores₂, hserver₂.trans hserver, ?_⟩
        rw [if_pos ⟨hstart, hanswered, .inr hknown, hwrap⟩, hserver₂]
        exact ⟨c, hc, hpinned, rfl⟩
    · rw [if_neg hknown] at hcredential
      obtain ⟨e, rfl⟩ := hcredential
      refine ⟨_, _, rfl, hstores₂, hserver₂.trans hserver, ?_⟩
      rw [if_neg fun h => h.2.2.1.elim hkeeps hknown]
      exact ⟨e, rfl⟩
  · simp only [if_neg he]
    refine ⟨_, _, rfl, hstores, hserver, ?_⟩
    rw [if_neg fun h => hunanswered ⟨h.1, h.2.1⟩]
    exact ⟨e, rfl⟩

/-! ## The local steps -/

theorem idbGet_call (cfg : Config) (access : Access) (account : JsString) (s : Browser) :
    ∃ e, call (idbGet cfg access account) s =
      if s.rejects access then (.error e, s) else (.ok (s.found access (cfg.lower account)), s) := by
  simp only [idbGet, call_bind, call_get, Browser.found]
  by_cases hasks : s.asks access = true
  · cases hrequest : access.request with
    | none =>
      refine ⟨.keyFormat, ?_⟩
      rw [if_neg fun h : s.rejects access => h.2 hrequest]
      simp only [hasks, if_true, call_bind, call_rethrow, call_pure]
    | some e =>
      refine ⟨e, ?_⟩
      have hrejects : s.rejects access := ⟨hasks, by rw [hrequest]; nofun⟩
      simp only [if_pos hrejects, hasks, if_true, call_bind, call_rethrow]
  · refine ⟨.keyFormat, ?_⟩
    rw [if_neg fun h : s.rejects access => hasks h.1]
    simp only [if_neg hasks, call_pure]

theorem idbPut_call (access : Access) (record : KeyPairRecord) (s : Browser) (ha : cfg.lower record.account = a) :
    ∃ e, call (idbPut cfg access record) s =
      if s.rejects access then (.error e, s) else (.ok (), s.written access a { record with account := a }) := by
  subst ha
  simp only [idbPut, call_bind, call_get, Browser.written]
  by_cases hasks : s.asks access = true
  · cases hrequest : access.request with
    | none =>
      refine ⟨.keyFormat, ?_⟩
      rw [if_neg fun h : s.rejects access => h.2 hrequest]
      simp only [hasks, if_true, call_bind, call_rethrow, call_modify]
    | some e =>
      refine ⟨e, ?_⟩
      have hrejects : s.rejects access := ⟨hasks, by rw [hrequest]; nofun⟩
      simp only [if_pos hrejects, hasks, if_true, call_bind, call_rethrow]
  · refine ⟨.keyFormat, ?_⟩
    rw [if_neg fun h : s.rejects access => hasks h.1]
    simp only [if_neg hasks, call_modify]

theorem written_stored (access : Access) (a : JsString) (record : KeyPairRecord) : (s.written access a record).stored =
    if s.lands access then Function.update s.stored a (some record) else s.stored := by
  rcases s with ⟨indexedDB, db, memoryStore, _, _, _⟩
  rcases access with ⟨opens, _⟩
  cases indexedDB with
  | false => rfl
  | true =>
    cases opens with
    | false => rfl
    | true => rfl

@[simp] theorem written_server (access : Access) (a : JsString) (record : KeyPairRecord) :
    (s.written access a record).server = s.server := by
  unfold Browser.written
  split
  · rfl
  · rfl

@[simp] theorem written_asks (write access : Access) (a : JsString) (record : KeyPairRecord) :
    (s.written write a record).asks access = s.asks access := by
  unfold Browser.written
  split
  · rfl
  · rfl

theorem SameStores.stored {s' : Browser} (h : SameStores s s') : s'.stored = s.stored := by
  rw [Browser.stored, h.indexedDB, h.db, h.memoryStore, Browser.stored]

theorem SameStores.asks {s' : Browser} (h : SameStores s s') (access : Access) : s'.asks access = s.asks access := by
  rw [Browser.asks, h.indexedDB, Browser.asks]

theorem SameStores.written {s' : Browser} (h : SameStores s s') (access : Access) (a : JsString)
    (record : KeyPairRecord) : SameStores (s.written access a record) (s'.written access a record) := by
  simp only [Browser.written, h.asks]
  split
  · have hdb : Function.update s'.db a (some record) = Function.update s.db a (some record) := by rw [h.db]
    exact ⟨h.indexedDB, hdb, h.memoryStore⟩
  · have hmemory : Function.update s'.memoryStore a (some record) = Function.update s.memoryStore a (some record) := by
      rw [h.memoryStore]
    exact ⟨h.indexedDB, h.db, hmemory⟩

/-- The pair is stored in the record under the credential that the server has then, or `persistKeyPair` throws and has
written no record. -/
theorem persistKeyPair_call (f : Faults) (s : Browser) (publicKey privateKey : JsString)
    (existing : Option KeyPairRecord) (ha : cfg.lower account = a) (hpin : trim pin ≠ []) :
    ∃ result s', call (persistKeyPair cfg f account publicKey privateKey pin existing) s = (result, s') ∧
      s'.server = serverAfter f s a (trim pin) ∧
      if Enrolls f s a (trim pin) ∧ ¬ s.rejects f.write then
        result = .ok () ∧ ∃ c, s'.server a = some c ∧ c.pin = trim pin ∧ SameStores (s.written f.write a
          (replaced a publicKey ⟨c.exportKey, a, publicKey, privateKey⟩ f.now existing)) s'
      else (∃ e, result = .error e) ∧ SameStores s s' := by
  obtain ⟨result, s₁, henroll, hstores, hserver, hresult⟩ :=
    enrollAndWrap_call cfg f s (cfg.lower account) publicKey privateKey (by rwa [trim_trim] : trim (trim pin) ≠ [])
  rw [cfg.lower_lower, ha, trim_trim] at hserver hresult
  rw [ha] at henroll
  simp only [persistKeyPair, call_bind, call_throwIf, if_neg hpin, ha, henroll]
  by_cases henrolls : Enrolls f s a (trim pin)
  · rw [if_pos henrolls] at hresult
    obtain ⟨c, hc, hpinned, rfl⟩ := hresult
    have hlower : cfg.lower a = a := ha ▸ cfg.lower_lower account
    obtain ⟨e, hput⟩ := idbPut_call f.write
      (replaced a publicKey ⟨c.exportKey, a, publicKey, privateKey⟩ f.now existing) s₁ hlower
    have hrejects : s₁.rejects f.write ↔ s.rejects f.write := by
      rw [Browser.rejects, hstores.asks, Browser.rejects]
    simp only [hput]
    by_cases hwrite : s.rejects f.write
    · simp only [if_pos (hrejects.mpr hwrite)]
      refine ⟨_, _, rfl, hserver, ?_⟩
      rw [if_neg fun h => h.2 hwrite]
      exact ⟨⟨e, rfl⟩, hstores⟩
    · have hwritten := hstores.written f.write a
        (replaced a publicKey ⟨c.exportKey, a, publicKey, privateKey⟩ f.now existing)
      simp only [if_neg fun h => hwrite (hrejects.mp h)]
      refine ⟨_, _, rfl, ?_, ?_⟩
      · exact (written_server ..).trans hserver
      · rw [if_pos ⟨henrolls, hwrite⟩]
        refine ⟨rfl, c, ?_, hpinned, ⟨hwritten.indexedDB, hwritten.db, hwritten.memoryStore⟩⟩
        exact (congrFun (written_server ..) a).trans hc
  · rw [if_neg henrolls] at hresult
    obtain ⟨e, rfl⟩ := hresult
    refine ⟨_, _, rfl, hserver, ?_⟩
    rw [if_neg fun h => henrolls h.1]
    exact ⟨⟨e, rfl⟩, hstores⟩

end Calls

/-! ## The operations on their inputs -/

section Inputs
variable (cfg : Config) (f : Faults) (s : Browser)

def createdPasskey (enablePasskey : Bool) : Option PasskeyCiphertext :=
  if enablePasskey then f.passkeyCreated.map fun key => ⟨key, f.generated⟩ else none

/-- `saveKeyPair` gets past its checks and its read. -/
def SaveReaches (account publicKey privateKey pinOrPassphrase : JsString) : Prop :=
  ¬ (account = [] ∨ publicKey = [] ∨ privateKey = []) ∧
    ¬ (cfg.importsPublicKey publicKey = false ∨ cfg.importsPrivateKey privateKey = false) ∧
    trim pinOrPassphrase ≠ [] ∧ ¬ s.rejects f.read

/-- An operation gets to its enrollment, or where no PIN is given to the write of a record for the passkey. -/
def Change.Reaches : Change → Prop
  | .saveKeyPair account publicKey privateKey pin => SaveReaches cfg f s account publicKey privateKey pin
  | .importKeyBackup _ none _ _ => False
  | .importKeyBackup account (some parsed) backupPassphrase newPin =>
    account ≠ [] ∧ backupPassphrase ≠ [] ∧ parsed.version = js "spoovault-keyring-backup-v1" ∧
      ¬ (parsed.account ≠ [] ∧ cfg.lower parsed.account ≠ cfg.lower account) ∧
      backupPassphrase = parsed.encryptedPrivateKey.passphrase ∧
      SaveReaches cfg f s (cfg.lower account) parsed.publicKey parsed.encryptedPrivateKey.plaintext newPin
  | .generateAndSaveKeyPair account pin enablePasskey =>
    account ≠ [] ∧ ¬ s.rejects f.read ∧ (trim pin ≠ [] ∨ createdPasskey f enablePasskey ≠ none)

def Change.account : Change → JsString
  | .saveKeyPair account .. | .importKeyBackup account .. | .generateAndSaveKeyPair account .. => account

def Change.pin : Change → JsString
  | .saveKeyPair _ _ _ pin | .importKeyBackup _ _ _ pin | .generateAndSaveKeyPair _ pin _ => trim pin

/-- The server replaces the credential. -/
def Change.Registers (op : Change) : Prop :=
  op.Reaches cfg f s ∧ op.pin ≠ [] ∧ Replaces f s (cfg.lower op.account)

/-- The first write goes through. -/
def Change.Writes (op : Change) : Prop :=
  op.Reaches cfg f s ∧ (op.pin ≠ [] → Enrolls f s (cfg.lower op.account) op.pin) ∧ ¬ s.rejects f.write

def FindsAgain (account : JsString) : Prop :=
  if s.asks f.readAgain then s.asks f.write = true ∨ s.db account ≠ none
  else s.asks f.write = false ∨ s.memoryStore account ≠ none

/-- What follows the first write goes through. -/
def Change.Finishes : Change → Prop
  | .generateAndSaveKeyPair account pin enablePasskey =>
    ¬ s.rejects f.readAgain ∧ (createdPasskey f enablePasskey ≠ none → trim pin ≠ [] →
      FindsAgain f s (cfg.lower account) → ¬ s.rejects f.writeAgain)
  | .saveKeyPair .. | .importKeyBackup .. => True

/-- Nothing fails after the server has replaced the credential, and nothing after the stored record was replaced. -/
def Change.Settles (op : Change) : Prop :=
  (op.Registers cfg f s → op.Writes cfg f s ∧ op.Finishes cfg f s) ∧
    (op.Writes cfg f s → s.lands f.write → op.Finishes cfg f s)

end Inputs

/-! ## What an operation that rejects leaves -/

/-- A record that no PIN unlocks, or one that wraps the key. -/
def Holds (a key : JsString) (r : KeyPairRecord) : Prop :=
  (r.opaqueEnvelope = none ∧ r.zkpp = none ∧ r.encryptedPrivateKey = none) ∨
    ∃ exportKey, r.opaqueEnvelope = some ⟨exportKey, a, r.publicKey, key⟩

/-- The credential is replaced where the operation registers. -/
structure ServerLeft (f : Faults) (s : Browser) (a pin : JsString) (registers : Prop) (s' : Browser) : Prop where
  kept : ¬ registers → s'.server = s.server
  registered : registers → s'.server = Function.update s.server a (some ⟨pin, f.exportKey⟩)

/-- The record is replaced where the operation overwrites it. -/
structure Left (f : Faults) (s : Browser) (a pin key : JsString) (registers overwrites : Prop) (s' : Browser) : Prop
    extends ServerLeft f s a pin registers s' where
  untouched : ¬ overwrites → s'.stored = s.stored
  overwritten : overwrites → ∃ r, s'.stored = Function.update s.stored a (some r) ∧ Holds a key r

/-- An operation resolves, or it rejects and leaves what it has replaced. -/
def Ends (cfg : Config) (f : Faults) (s : Browser) (op : Change) (out : Except Failure Reply × Browser) : Prop :=
  ((∃ reply, out.1 = .ok reply) ∧ op.Writes cfg f s ∧ op.Finishes cfg f s) ∨
    ((∃ e, out.1 = .error e) ∧ ¬ (op.Writes cfg f s ∧ op.Finishes cfg f s) ∧
      Left f s (cfg.lower op.account) op.pin f.generated (op.Registers cfg f s)
        (op.Writes cfg f s ∧ s.lands f.write) out.2)

section Operations
variable {cfg : Config} {f : Faults} {s : Browser} {account publicKey privateKey pin : JsString}

theorem ends_unreached {op : Change} {e : Failure} (h : ¬ op.Reaches cfg f s) : Ends cfg f s op (.error e, s) :=
  .inr ⟨⟨e, rfl⟩, fun hall => h hall.1.1, ⟨fun _ => rfl, fun hregisters => absurd hregisters.1 h⟩, fun _ => rfl,
    fun hwrites => absurd hwrites.1.1 h⟩

theorem saveKeyPair_call (cfg : Config) (f : Faults) (s : Browser) (account publicKey privateKey pin : JsString) :
    ((∃ e, call (saveKeyPair cfg f account publicKey privateKey pin) s = (.error e, s)) ∧
      ¬ SaveReaches cfg f s account publicKey privateKey pin) ∨
    SaveReaches cfg f s account publicKey privateKey pin ∧
      ∃ result s', call (saveKeyPair cfg f account publicKey privateKey pin) s = (result, s') ∧
        s'.server = serverAfter f s (cfg.lower account) (trim pin) ∧
        if Enrolls f s (cfg.lower account) (trim pin) ∧ ¬ s.rejects f.write then result = .ok .unit
        else (∃ e, result = .error e) ∧ SameStores s s' := by
  simp only [saveKeyPair, call_bind, call_throwIf]
  by_cases hmissing : account = [] ∨ publicKey = [] ∨ privateKey = []
  · rw [if_pos hmissing]
    exact .inl ⟨⟨_, rfl⟩, fun h => h.1 hmissing⟩
  simp only [if_neg hmissing]
  by_cases hformat : cfg.importsPublicKey publicKey = false ∨ cfg.importsPrivateKey privateKey = false
  · rw [if_pos hformat]
    exact .inl ⟨⟨_, rfl⟩, fun h => h.2.1 hformat⟩
  simp only [if_neg hformat]
  by_cases hpin : trim pin = []
  · rw [if_pos hpin]
    exact .inl ⟨⟨_, rfl⟩, fun h => h.2.2.1 hpin⟩
  simp only [if_neg hpin]
  obtain ⟨e, hread⟩ := idbGet_call cfg f.read (cfg.lower account) s
  rw [hread]
  by_cases hrejects : s.rejects f.read
  · rw [if_pos hrejects]
    exact .inl ⟨⟨e, rfl⟩, fun h => h.2.2.2 hrejects⟩
  rw [if_neg hrejects]
  refine .inr ⟨⟨hmissing, hformat, hpin, hrejects⟩, ?_⟩
  obtain ⟨result, s', hpersist, hserver, hresult⟩ := persistKeyPair_call f s publicKey privateKey
    (s.found f.read (cfg.lower (cfg.lower account))) (cfg.lower_lower account) hpin
  simp only [hpersist]
  split_ifs at hresult ⊢ with hstored
  · obtain ⟨rfl, _⟩ := hresult
    exact ⟨_, _, rfl, hserver, rfl⟩
  · obtain ⟨⟨e, rfl⟩, hstores⟩ := hresult
    exact ⟨_, _, rfl, hserver, ⟨e, rfl⟩, hstores⟩

theorem serverLeft_of_after {op : Change} (hreaches : op.Reaches cfg f s) (hpin : op.pin ≠ []) {s' : Browser}
    (hserver : s'.server = serverAfter f s (cfg.lower op.account) op.pin) :
    ServerLeft f s (cfg.lower op.account) op.pin (op.Registers cfg f s) s' where
  kept h := hserver.trans (if_neg fun hreplaces => h ⟨hreaches, hpin, hreplaces⟩)
  registered h := hserver.trans (if_pos h.2.2)

theorem ends_saved {op : Change} (hreaches : op.Reaches cfg f s) (hpin : op.pin ≠ []) (hfinishes : op.Finishes cfg f s)
    {result : Except Failure Reply} {s' : Browser} (hserver : s'.server = serverAfter f s (cfg.lower op.account) op.pin)
    (h : if Enrolls f s (cfg.lower op.account) op.pin ∧ ¬ s.rejects f.write then ∃ reply, result = .ok reply
      else (∃ e, result = .error e) ∧ SameStores s s') : Ends cfg f s op (result, s') := by
  split_ifs at h with hstored
  · exact .inl ⟨h, ⟨hreaches, fun _ => hstored.1, hstored.2⟩, hfinishes⟩
  · have hunwritten : ¬ op.Writes cfg f s := fun hwrites => hstored ⟨hwrites.2.1 hpin, hwrites.2.2⟩
    exact .inr ⟨h.1, fun hall => hunwritten hall.1, serverLeft_of_after hreaches hpin hserver, fun _ => h.2.stored,
      fun hover => absurd hover.1 hunwritten⟩

theorem saveKeyPair_ends : Ends cfg f s (.saveKeyPair account publicKey privateKey pin)
    (call (saveKeyPair cfg f account publicKey privateKey pin) s) := by
  rcases saveKeyPair_call cfg f s account publicKey privateKey pin with
    ⟨⟨e, hcall⟩, hunreached⟩ | ⟨hreaches, result, s', hcall, hserver, hresult⟩
  · rw [hcall]
    exact ends_unreached hunreached
  · rw [hcall]
    have hall : (Change.saveKeyPair account publicKey privateKey pin).Reaches cfg f s := hreaches
    refine ends_saved hall hreaches.2.2.1 trivial hserver ?_
    split_ifs at hresult with hstored
    · exact (if_pos hstored).mpr ⟨_, hresult⟩
    · exact (if_neg hstored).mpr hresult

theorem importKeyBackup_ends {backup : Option KeyPairBackupPayload} {backupPassphrase : JsString} :
    Ends cfg f s (.importKeyBackup account backup backupPassphrase pin)
      (call (importKeyBackup cfg f account backup backupPassphrase pin) s) := by
  simp only [importKeyBackup, call_bind, call_throwIf, call_orThrow]
  cases backup with
  | none =>
    have hunreached : ¬ (Change.importKeyBackup account none backupPassphrase pin).Reaches cfg f s := id
    by_cases haccount : account = []
    · simp only [if_pos haccount]
      exact ends_unreached hunreached
    by_cases hpassphrase : backupPassphrase = []
    · simp only [if_neg haccount, if_pos hpassphrase]
      exact ends_unreached hunreached
    · simp only [if_neg haccount, if_neg hpassphrase]
      exact ends_unreached hunreached
  | some parsed =>
    by_cases haccount : account = []
    · simp only [if_pos haccount]
      exact ends_unreached fun h => h.1 haccount
    by_cases hpassphrase : backupPassphrase = []
    · simp only [if_neg haccount, if_pos hpassphrase]
      exact ends_unreached fun h => h.2.1 hpassphrase
    by_cases hversion : parsed.version ≠ js "spoovault-keyring-backup-v1"
    · simp only [if_neg haccount, if_neg hpassphrase, if_pos hversion]
      exact ends_unreached fun h => hversion h.2.2.1
    by_cases hwallet : parsed.account ≠ [] ∧ cfg.lower parsed.account ≠ cfg.lower account
    · simp only [if_neg haccount, if_neg hpassphrase, if_neg hversion, if_pos hwallet]
      exact ends_unreached fun h => h.2.2.2.1 hwallet
    by_cases hdecrypt : backupPassphrase = parsed.encryptedPrivateKey.passphrase
    case neg =>
      simp only [if_neg haccount, if_neg hpassphrase, if_neg hversion, if_neg hwallet, PassphraseCiphertext.decrypt,
        if_neg hdecrypt]
      exact ends_unreached fun h => hdecrypt h.2.2.2.2.1
    simp only [if_neg haccount, if_neg hpassphrase, if_neg hversion, if_neg hwallet, PassphraseCiphertext.decrypt,
      if_pos hdecrypt]
    rcases saveKeyPair_call cfg f s (cfg.lower account) parsed.publicKey parsed.encryptedPrivateKey.plaintext pin with
      ⟨⟨e, hcall⟩, hunreached⟩ | ⟨hreaches, result, s', hcall, hserver, hresult⟩
    · rw [hcall]
      exact ends_unreached fun h => hunreached h.2.2.2.2.2
    · rw [cfg.lower_lower] at hserver hresult
      rw [hcall]
      have hall : (Change.importKeyBackup account (some parsed) backupPassphrase pin).Reaches cfg f s :=
        ⟨haccount, hpassphrase, not_not.mp hversion, hwallet, hdecrypt, hreaches⟩
      split_ifs at hresult with hstored
      · subst hresult
        refine ends_saved hall hreaches.2.2.1 trivial hserver ?_
        exact (if_pos hstored).mpr ⟨_, rfl⟩
      · obtain ⟨⟨e, rfl⟩, hstores⟩ := hresult
        refine ends_saved hall hreaches.2.2.1 trivial hserver ?_
        exact (if_neg hstored).mpr ⟨⟨e, rfl⟩, hstores⟩

/-! ### Generated pairs -/

theorem found_iff {s₁ : Browser} {a : JsString} {record : KeyPairRecord}
    (hstores : SameStores (s.written f.write a record) s₁) : s₁.found f.readAgain a ≠ none ↔ FindsAgain f s a := by
  have hasks : s₁.asks f.readAgain = s.asks f.readAgain := (hstores.asks _).trans (written_asks ..)
  rw [Browser.found, FindsAgain, hasks]
  by_cases hagain : s.asks f.readAgain = true
  · rw [if_pos hagain, if_pos hagain, hstores.db]
    by_cases hwrite : s.asks f.write = true
    · rw [Browser.written, if_pos hwrite]
      exact iff_of_true (by simp [Browser.setDb]) (.inl hwrite)
    · rw [Browser.written, if_neg hwrite]
      exact (or_iff_right hwrite).symm
  · rw [if_neg hagain, if_neg hagain, hstores.memoryStore]
    by_cases hwrite : s.asks f.write = true
    · rw [Browser.written, if_pos hwrite]
      exact (or_iff_right (by simp [hwrite])).symm
    · rw [Browser.written, if_neg hwrite]
      exact iff_of_true (by simp [Browser.setMemory]) (.inl (Bool.not_eq_true _ ▸ hwrite))

theorem finish_call {s₁ : Browser} {a : JsString} {record : KeyPairRecord} (ha : cfg.lower account = a)
    (hstores : SameStores (s.written f.write a record) s₁) (pin : JsString) (enablePasskey : Bool) :
    ∃ result s', call (do
        let updatedRecord ← idbGet cfg f.readAgain a
        addPasskey cfg f (trim pin) (createdPasskey f enablePasskey) updatedRecord
        modify (Browser.setCached a f.generated)
        return Reply.publicKey (cfg.publicKeyOf f.generated) : Method Reply) s₁ = (result, s') ∧
      ((∃ reply, result = .ok reply) ∧ (Change.generateAndSaveKeyPair account pin enablePasskey).Finishes cfg f s ∨
        (∃ e, result = .error e) ∧ s' = s₁ ∧
          ¬ (Change.generateAndSaveKeyPair account pin enablePasskey).Finishes cfg f s) := by
  have hlower : cfg.lower a = a := ha ▸ cfg.lower_lower account
  have hrejects : ∀ access, s₁.rejects access ↔ s.rejects access := by
    intro access
    rw [Browser.rejects, hstores.asks, written_asks, Browser.rejects]
  have hfound := found_iff hstores
  obtain ⟨e, hread⟩ := idbGet_call cfg f.readAgain a s₁
  rw [hlower] at hread
  rw [call_bind, hread]
  by_cases hagain : s.rejects f.readAgain
  · rw [if_pos ((hrejects _).mpr hagain)]
    exact ⟨_, _, rfl, .inr ⟨⟨e, rfl⟩, rfl, fun h => h.1 hagain⟩⟩
  rw [if_neg fun h => hagain ((hrejects _).mp h)]
  dsimp only
  cases hpasskey : createdPasskey f enablePasskey with
  | none => exact ⟨_, _, rfl, .inl ⟨⟨_, rfl⟩, hagain, fun h => absurd hpasskey h⟩⟩
  | some passkey =>
    cases hrecord : s₁.found f.readAgain a with
    | none =>
      refine ⟨_, _, rfl, .inl ⟨⟨_, rfl⟩, hagain, fun _ _ hfinds => ?_⟩⟩
      exact absurd hrecord (hfound.mpr (ha ▸ hfinds))
    | some found =>
      by_cases hpin : trim pin = []
      · simp only [addPasskey, hpin, ne_eq, not_true_eq_false, if_false]
        exact ⟨_, _, rfl, .inl ⟨⟨_, rfl⟩, hagain, fun _ h => absurd hpin h⟩⟩
      · obtain ⟨e', hput⟩ := idbPut_call f.writeAgain (found.withPasskey passkey) s₁ (rfl : cfg.lower _ = _)
        simp only [addPasskey, ne_eq, hpin, not_false_eq_true, if_true]
        rw [call_bind, hput]
        by_cases hwrite : s.rejects f.writeAgain
        · rw [if_pos ((hrejects _).mpr hwrite)]
          refine ⟨_, _, rfl, .inr ⟨⟨e', rfl⟩, rfl, fun h => ?_⟩⟩
          have hfinds : FindsAgain f s (cfg.lower account) := ha ▸ hfound.mp (by rw [hrecord]; nofun)
          exact h.2 (by rw [hpasskey]; nofun) hpin hfinds hwrite
        · rw [if_neg fun h => hwrite ((hrejects _).mp h)]
          exact ⟨_, _, rfl, .inl ⟨⟨_, rfl⟩, hagain, fun _ _ _ => hwrite⟩⟩

theorem ends_finished {op : Change} (hwrites : op.Writes cfg f s) {s₁ : Browser} {record : KeyPairRecord}
    (hstores : SameStores (s.written f.write (cfg.lower op.account) record) s₁)
    (hholds : Holds (cfg.lower op.account) f.generated record)
    (hserver : ServerLeft f s (cfg.lower op.account) op.pin (op.Registers cfg f s) s₁)
    {result : Except Failure Reply} {s' : Browser}
    (h : (∃ reply, result = .ok reply) ∧ op.Finishes cfg f s ∨
      (∃ e, result = .error e) ∧ s' = s₁ ∧ ¬ op.Finishes cfg f s) : Ends cfg f s op (result, s') := by
  rcases h with ⟨hreply, hfinishes⟩ | ⟨herror, rfl, hunfinished⟩
  · exact .inl ⟨hreply, hwrites, hfinishes⟩
  · have hstored := hstores.stored
    rw [written_stored] at hstored
    refine .inr ⟨herror, fun hall => hunfinished hall.2, hserver, fun hkept => ?_, fun hover => ?_⟩
    · rw [hstored, if_neg fun hlands => hkept ⟨hwrites, hlands⟩]
    · rw [hstored, if_pos hover.2]
      exact ⟨record, rfl, hholds⟩

theorem storeGenerated_call (haccount : account ≠ []) (hread : ¬ s.rejects f.read) (pin : JsString)
    (enablePasskey : Bool) (publicKey : JsString) (existing : Option KeyPairRecord) {op : Change}
    (hop : op = .generateAndSaveKeyPair account pin enablePasskey) :
    ∃ result s', call (storeGenerated cfg f (cfg.lower account) publicKey f.generated (trim pin)
        (createdPasskey f enablePasskey) existing) s = (result, s') ∧
      ((∃ e, result = .error e ∧ Ends cfg f s op (.error e, s')) ∨
        result = .ok () ∧ op.Writes cfg f s ∧ ServerLeft f s (cfg.lower account) (trim pin) (op.Registers cfg f s) s' ∧
          ∃ record, Holds (cfg.lower account) f.generated record ∧
            SameStores (s.written f.write (cfg.lower account) record) s') := by
  subst hop
  by_cases hpin : trim pin = []
  · cases hpasskey : createdPasskey f enablePasskey with
    | none =>
      simp only [storeGenerated, hpin, ne_eq, not_true_eq_false, if_false]
      refine ⟨_, _, rfl, .inl ⟨_, rfl, ends_unreached fun h => ?_⟩⟩
      exact h.2.2.elim (fun h => h hpin) fun h => h hpasskey
    | some passkey =>
      have hreaches : (Change.generateAndSaveKeyPair account pin enablePasskey).Reaches cfg f s :=
        ⟨haccount, hread, .inr (by rw [hpasskey]; nofun)⟩
      have hregisters : ¬ (Change.generateAndSaveKeyPair account pin enablePasskey).Registers cfg f s :=
        fun h => h.2.1 hpin
      simp only [storeGenerated, hpin, ne_eq, not_true_eq_false, if_false]
      set record : KeyPairRecord := KeyPairRecord.withPasskey _ passkey with hrecord
      obtain ⟨e, hput⟩ := idbPut_call f.write record s (cfg.lower_lower account : cfg.lower record.account = _)
      rw [hput]
      by_cases hwrite : s.rejects f.write
      · rw [if_pos hwrite]
        refine ⟨_, _, rfl, .inl ⟨e, rfl, .inr ⟨⟨e, rfl⟩, fun h => h.1.2.2 hwrite, ?_, fun _ => rfl, fun h => ?_⟩⟩⟩
        · exact ⟨fun _ => rfl, fun h => absurd h hregisters⟩
        · exact absurd hwrite h.1.2.2
      · rw [if_neg hwrite]
        refine ⟨_, _, rfl, .inr ⟨rfl, ⟨hreaches, fun h => absurd hpin h, hwrite⟩, ?_, record, .inl ⟨rfl, rfl, rfl⟩,
          .refl _⟩⟩
        exact ⟨fun _ => written_server .., fun h => absurd h hregisters⟩
  · have hreaches : (Change.generateAndSaveKeyPair account pin enablePasskey).Reaches cfg f s :=
      ⟨haccount, hread, .inl hpin⟩
    obtain ⟨result, s', hpersist, hserver, hresult⟩ := persistKeyPair_call f s publicKey f.generated existing
      (cfg.lower_lower account) (by rwa [trim_trim] : trim (trim pin) ≠ [])
    rw [trim_trim] at hserver hresult
    have hleft := serverLeft_of_after hreaches hpin hserver
    simp only [storeGenerated, ne_eq, hpin, not_false_eq_true, if_true, hpersist]
    refine ⟨_, _, rfl, ?_⟩
    split_ifs at hresult with hstored
    · obtain ⟨rfl, c, hc, hpinned, hstores⟩ := hresult
      refine .inr ⟨rfl, ⟨hreaches, fun _ => hstored.1, hstored.2⟩, hleft, _, .inr ⟨c.exportKey, rfl⟩, hstores⟩
    · obtain ⟨⟨e, rfl⟩, hstores⟩ := hresult
      have hunwritten : ¬ (Change.generateAndSaveKeyPair account pin enablePasskey).Writes cfg f s :=
        fun hwrites => hstored ⟨hwrites.2.1 hpin, hwrites.2.2⟩
      exact .inl ⟨e, rfl, .inr ⟨⟨e, rfl⟩, fun hall => hunwritten hall.1, hleft, fun _ => hstores.stored,
        fun hover => absurd hover.1 hunwritten⟩⟩

theorem generateAndSaveKeyPair_ends {enablePasskey : Bool} :
    Ends cfg f s (.generateAndSaveKeyPair account pin enablePasskey)
      (call (generateAndSaveKeyPair cfg f account pin enablePasskey) s) := by
  unfold generateAndSaveKeyPair
  rw [call_bind, call_throwIf]
  by_cases haccount : account = []
  · rw [if_pos haccount]
    exact ends_unreached fun h => h.1 haccount
  rw [if_neg haccount]
  obtain ⟨e, hread⟩ := idbGet_call cfg f.read (cfg.lower account) s
  dsimp only
  rw [call_bind, hread]
  by_cases hrejects : s.rejects f.read
  · rw [if_pos hrejects]
    exact ends_unreached fun h => h.2.1 hrejects
  rw [if_neg hrejects]
  dsimp only
  rw [call_bind]
  obtain ⟨result, s₁, hstore, hcases⟩ := storeGenerated_call haccount hrejects pin enablePasskey
    (cfg.publicKeyOf f.generated) (s.found f.read (cfg.lower (cfg.lower account))) rfl
  unfold createdPasskey at hstore
  rw [hstore]
  rcases hcases with ⟨e, rfl, hends⟩ | ⟨rfl, hwrites, hserver, record, hholds, hstores⟩
  · exact hends
  · obtain ⟨result, s', hfinish, hresult⟩ := finish_call rfl hstores pin enablePasskey
    unfold createdPasskey at hfinish
    dsimp only
    rw [hfinish]
    exact ends_finished hwrites hstores hholds hserver hresult

theorem program_ends (cfg : Config) (f : Faults) (s : Browser) (op : Change) :
    Ends cfg f s op (call (program cfg f op) s) := by
  cases op with
  | saveKeyPair account publicKey privateKey pin => exact saveKeyPair_ends
  | importKeyBackup account backup backupPassphrase newPin => exact importKeyBackup_ends
  | generateAndSaveKeyPair account pin enablePasskey => exact generateAndSaveKeyPair_ends

end Operations

/-! ## Unlocks with the PIN -/

def Browser.locked (s : Browser) : Keyring where
  records := s.stored
  managementTokens := s.managementTokens
  server := s.server

section Unlocks
variable (cfg : Config) (s : Browser) (account pin key : JsString)

/-- The PIN unlocks the key from the stored record, whenever the server answers. -/
def PinUnlocks : Prop :=
  ∀ x : Answers, x.loginFailure = none →
    (outcome (getDecryptedPrivateKey cfg account pin) x s.locked).1 = .ok (.privateKey key)

/-- The stored record wraps the key under the credential it was enrolled with, whose PIN it is. -/
structure ProtectedBy : Prop where
  isAccount : account ≠ []
  isPin : trim pin ≠ []
  record : ∃ r c, s.stored (cfg.lower account) = some r ∧ s.server (cfg.lower account) = some c ∧ c.pin = trim pin ∧
    r.opaqueEnvelope = some ⟨c.exportKey, cfg.lower account, r.publicKey, key⟩

variable {cfg} {s} {account pin key}

theorem ProtectedBy.unlocks (h : ProtectedBy cfg s account pin key) {s' : Browser}
    (hstored : s'.stored (cfg.lower account) = s.stored (cfg.lower account))
    (hserver : s'.server (cfg.lower account) = s.server (cfg.lower account)) : PinUnlocks cfg s' account pin key := by
  intro x hx
  obtain ⟨r, c, hr, hc, hpinned, henvelope⟩ := h.record
  have hunder : KeyringBackup.StoredUnder s'.locked (cfg.lower account) r.publicKey key pin :=
    ⟨⟨r, c, hstored.trans hr, hserver.trans hc, rfl, hpinned, henvelope⟩, nofun⟩
  exact hunder.unlocks h.isAccount h.isPin hx

/-- The key comes out of the envelope, under the credential that the server has, or of a legacy ciphertext. -/
def FromPin (s : Browser) (a key : JsString) (r : KeyPairRecord) : Prop :=
  (∃ envelope c, r.opaqueEnvelope = some envelope ∧ s.server a = some c ∧
      envelope.decrypt c.exportKey a r.publicKey = some key) ∨
    r.opaqueEnvelope = none ∧ (r.zkpp ≠ none ∨ r.encryptedPrivateKey ≠ none)

theorem unlockStored_fromPin {x : Answers} {r : KeyPairRecord} {s' : Keyring} (hpin : trim pin ≠ [])
    (hr : r.account = cfg.lower account) (h : outcome (unlockStored cfg r pin) x s.locked = (.ok key, s')) :
    FromPin s (cfg.lower account) key r := by
  rw [unlockStored, if_neg hpin] at h
  cases henvelope : r.opaqueEnvelope with
  | none =>
    refine .inr ⟨henvelope, ?_⟩
    by_contra hlegacy
    obtain ⟨hzkpp, hencrypted⟩ := not_or.mp hlegacy
    simp only [unlockRecord, henvelope, not_not.mp hzkpp, not_not.mp hencrypted, outcome_bind, outcome_orThrow] at h
    cases h
  | some envelope =>
    obtain ⟨e, hlogin⟩ := login_outcome cfg x s.locked (cfg.lower account) (trim pin)
    rw [cfg.lower_lower] at hlogin
    simp only [unlockRecord, henvelope, hr, outcome_tryCatch, verifyAndUnwrap, outcome_bind, outcome_throwIf, trim_trim,
      if_neg hpin, outcome_orThrow, cfg.lower_lower, hlogin] at h
    cases hcredential : loggedIn x s.locked (cfg.lower account) (trim pin) with
    | none =>
      rw [hcredential] at h
      cases h
    | some c =>
      have hserver : s.server (cfg.lower account) = some c := by
        unfold loggedIn at hcredential
        split at hcredential
        · exact (Option.filter_eq_some_iff.mp hcredential).1
        · cases hcredential
      rw [hcredential] at h
      refine .inl ⟨envelope, c, henvelope, hserver, ?_⟩
      cases hdecrypt : envelope.decrypt c.exportKey (cfg.lower account) r.publicKey with
      | none =>
        simp only [hdecrypt] at h
        cases h
      | some opened =>
        simp only [hdecrypt] at h
        cases h
        rfl

theorem PinUnlocks.fromPin (h : PinUnlocks cfg s account pin key) (haccount : account ≠ []) (hpin : trim pin ≠ [])
    {r : KeyPairRecord} (hr : s.stored (cfg.lower account) = some r) : FromPin s (cfg.lower account) key r := by
  have hout := h {} rfl
  have hcache : readCachedPrivateKey (cfg.lower account) s.locked = none := rfl
  have hread : s.locked.read (cfg.lower account) = some { r with account := cfg.lower account } := by
    have hrecord : s.locked.records (cfg.lower account) = some r := hr
    rw [Keyring.read, hrecord]
    rfl
  simp only [getDecryptedPrivateKey, outcome_bind, outcome_throwIf, if_neg haccount, outcome_get, hcache,
    Option.filter_none, idbGet_outcome, cfg.lower_lower, hread, outcome_orThrow] at hout
  by_cases hkey : KeyPairRecord.hasKey { r with account := cfg.lower account } = true
  · rw [Option.filter_some, if_pos hkey] at hout
    dsimp only at hout
    rcases hunlocked : outcome (unlockStored cfg { r with account := cfg.lower account } pin) {} s.locked with
      ⟨e | opened, s'⟩
    · rw [hunlocked] at hout
      cases hout
    · rw [hunlocked] at hout
      cases hout
      have haccount' : ({ r with account := cfg.lower account } : KeyPairRecord).account = cfg.lower account := rfl
      have hfrom := unlockStored_fromPin hpin haccount' hunlocked
      exact hfrom
  · rw [Option.filter_some, if_neg hkey] at hout
    cases hout

theorem Holds.not_pinUnlocks {other : JsString} {r : KeyPairRecord} (h : Holds (cfg.lower account) other r)
    (hr : s.stored (cfg.lower account) = some r) (hother : other ≠ key) (haccount : account ≠ [])
    (hpin : trim pin ≠ []) : ¬ PinUnlocks cfg s account pin key := by
  intro hunlocks
  rcases hunlocks.fromPin haccount hpin hr with ⟨envelope, c, henvelope, _, hdecrypt⟩ | ⟨hnone, hlegacy⟩
  · rcases h with ⟨hnone, _⟩ | ⟨exportKey, hwraps⟩
    · cases hnone.symm.trans henvelope
    · cases hwraps.symm.trans henvelope
      rw [OpaqueKeyringEnvelope.decrypt] at hdecrypt
      split at hdecrypt
      · exact hother (Option.some.inj hdecrypt)
      · cases hdecrypt
  · rcases h with ⟨_, hzkpp, hencrypted⟩ | ⟨exportKey, hwraps⟩
    · exact hlegacy.elim (fun h => h hzkpp) fun h => h hencrypted
    · cases hnone.symm.trans hwraps

/-- Under another credential the envelope is not opened. -/
theorem ProtectedBy.not_pinUnlocks (h : ProtectedBy cfg s account pin key) {s' : Browser} {pin' exportKey : JsString}
    (hstored : s'.stored = s.stored) (hserver : s'.server (cfg.lower account) = some ⟨pin', exportKey⟩)
    (hexportKey : ∀ c, s.server (cfg.lower account) = some c → exportKey ≠ c.exportKey) :
    ¬ PinUnlocks cfg s' account pin key := by
  intro hunlocks
  obtain ⟨r, c, hr, hc, _, henvelope⟩ := h.record
  rcases hunlocks.fromPin h.isAccount h.isPin ((congrFun hstored _).trans hr) with
    ⟨envelope, c', henvelope', hc', hdecrypt⟩ | ⟨hnone, _⟩
  · cases hserver.symm.trans hc'
    cases henvelope.symm.trans henvelope'
    rw [OpaqueKeyringEnvelope.decrypt] at hdecrypt
    split at hdecrypt
    case isTrue hopened => exact hexportKey c hc hopened.1
    case isFalse => cases hdecrypt
  · cases hnone.symm.trans henvelope

end Unlocks

/-! ## Atomicity -/

section Atomicity
variable {cfg : Config} {f : Faults} {s : Browser} {account pin key : JsString}

/-- What an operation of another account leaves is not of this one. -/
theorem Left.elsewhere {a b pin key : JsString} {registers overwrites : Prop} {s' : Browser}
    (h : Left f s b pin key registers overwrites s') (hab : a ≠ b) :
    s'.stored a = s.stored a ∧ s'.server a = s.server a := by
  constructor
  · by_cases hover : overwrites
    · obtain ⟨r, hstored, _⟩ := h.overwritten hover
      rw [hstored, Function.update_of_ne hab]
    · rw [h.untouched hover]
  · by_cases hregisters : registers
    · rw [h.registered hregisters, Function.update_of_ne hab]
    · rw [h.kept hregisters]

/-- An operation that rejects keeps the protected key exactly where nothing fails after its server has replaced the
credential or its record was overwritten. -/
theorem atomic_iff (hprotected : ProtectedBy cfg s account pin key)
    (hexportKey : ∀ c, s.server (cfg.lower account) = some c → f.exportKey ≠ c.exportKey)
    (hgenerated : f.generated ≠ key) (op : Change) :
    ((∃ e, (call (program cfg f op) s).1 = .error e) → PinUnlocks cfg (call (program cfg f op) s).2 account pin key) ↔
      (cfg.lower op.account = cfg.lower account → op.Settles cfg f s) := by
  rcases program_ends cfg f s op with
    ⟨⟨reply, hreply⟩, hwrites, hfinishes⟩ | ⟨herror, hunfinished, hleft⟩
  · have hok : ¬ ∃ e, (call (program cfg f op) s).1 = .error e := by
      rintro ⟨e, he⟩
      cases hreply.symm.trans he
    exact iff_of_true (fun h => absurd h hok) fun _ => ⟨fun _ => ⟨hwrites, hfinishes⟩, fun _ _ => hfinishes⟩
  rw [forall_prop_of_true herror]
  by_cases hsame : cfg.lower op.account = cfg.lower account
  · rw [forall_prop_of_true hsame]
    rw [hsame] at hleft
    constructor
    · intro hunlocks
      by_cases hover : op.Writes cfg f s ∧ s.lands f.write
      · obtain ⟨r, hstored, hholds⟩ := hleft.overwritten hover
        have hr : (call (program cfg f op) s).2.stored (cfg.lower account) = some r := by
          rw [hstored, Function.update_self]
        exact absurd hunlocks (hholds.not_pinUnlocks hr hgenerated hprotected.isAccount hprotected.isPin)
      · refine ⟨fun hregisters => ?_, fun hwrites hlands => absurd ⟨hwrites, hlands⟩ hover⟩
        have hserver : (call (program cfg f op) s).2.server (cfg.lower account) = some ⟨op.pin, f.exportKey⟩ := by
          rw [hleft.registered hregisters, Function.update_self]
        exact absurd hunlocks (hprotected.not_pinUnlocks (hleft.untouched hover) hserver hexportKey)
    · rintro ⟨hsettles, hstored⟩
      have hover : ¬ (op.Writes cfg f s ∧ s.lands f.write) := fun h => hunfinished ⟨h.1, hstored h.1 h.2⟩
      refine hprotected.unlocks (congrFun (hleft.untouched hover) _) (congrFun (hleft.kept ?_) _)
      exact fun hregisters => hunfinished (hsettles hregisters)
  · obtain ⟨hstored, hserver⟩ := hleft.elsewhere (Ne.symm hsame)
    exact iff_of_true (hprotected.unlocks hstored hserver) fun h => absurd h hsame

/-! ### A lost message and a lost answer -/

/-- A wallet with a key under a PIN, and the management token of its credential. -/
def guarded : Browser where
  db := Function.update (fun _ => none) wallet (some {
    account := wallet, publicKey := js "old", createdAt := 1, updatedAt := 1, hasPin := true
    opaqueEnvelope := some ⟨js "export", wallet, js "old", js "old"⟩ })
  managementTokens := Function.update (fun _ => none) wallet (some (js "token"))
  server := Function.update (fun _ => none) wallet (some ⟨js "1234", js "export"⟩)

def disconnected : Loss := ⟨.transport "OPAQUE_SERVER_UNAVAILABLE", by decide⟩

/-- The answer to `finishRegistration` is lost. -/
def answerLost : Faults where
  finishRegistration := .unanswered disconnected
  exportKey := js "export of the new credential"

/-- The first message is lost. -/
def neverSent : Faults where
  startRegistration := some disconnected
  exportKey := js "export of the new credential"

def newPin : Change := .saveKeyPair wallet (js "old") (js "old") (js "5678")

theorem guarded_protected : ProtectedBy plainKeys guarded wallet (js "1234") (js "old") where
  isAccount := by decide
  isPin := by decide
  record := ⟨_, _, rfl, rfl, by decide, rfl⟩

theorem atomic_neverSent : PinUnlocks plainKeys (call (program plainKeys neverSent newPin) guarded).2 wallet (js "1234")
    (js "old") := by
  refine (atomic_iff guarded_protected ?_ (by decide) newPin).mpr ?_ ⟨_, rfl⟩
  · rintro c ⟨⟩
    decide
  · exact fun _ => ⟨fun hregisters => (nomatch hregisters.2.2.1), fun _ _ => trivial⟩

theorem not_atomic_answerLost : ProtectedBy plainKeys guarded wallet (js "1234") (js "old") ∧
    (∀ c, guarded.server wallet = some c → answerLost.exportKey ≠ c.exportKey) ∧ answerLost.generated ≠ js "old" ∧
    (∃ e, (call (program plainKeys answerLost newPin) guarded).1 = .error e) ∧
    ¬ PinUnlocks plainKeys (call (program plainKeys answerLost newPin) guarded).2 wallet (js "1234") (js "old") := by
  refine ⟨guarded_protected, ?_, by decide, ⟨_, rfl⟩, fun h => ?_⟩
  · rintro c ⟨⟩
    decide
  · have hunlocked := h {} rfl
    revert hunlocked
    decide +kernel

end Atomicity

end ChainGuard.OffChain.KeyringAtomicity
