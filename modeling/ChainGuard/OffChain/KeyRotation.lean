import ChainGuard.OffChain.KeyringAgreement

/-! The rotation of a compromised key: `keyRotationService`, over the keyring of the browser, the public key that each
chain has registered for the account, and the envelopes that are stored of the documents. -/
namespace ChainGuard.OffChain.KeyRotation
open Methods ClientKeyring
set_option autoImplicit false

/-! ## Envelopes -/

/-- Public-key encryption, ideal: what was encrypted to a public key is what its private key decrypts, and no other
does. The first argument of the encryption stands for its random draws. -/
structure Ecies (keys : ClientKeyring.Config) where
  Envelope : Type
  encryptWithPublicKey : ℕ → JsString → JsString → Except JsString Envelope
  decryptWithPrivateKey : Envelope → JsString → Except JsString JsString
  ideal {random : ℕ} {plaintext publicKey : JsString} {envelope : Envelope} :
    encryptWithPublicKey random plaintext publicKey = .ok envelope → ∀ privateKey plaintext',
      decryptWithPrivateKey envelope privateKey = .ok plaintext' ↔
        keys.publicKeyOf privateKey = publicKey ∧ plaintext' = plaintext

inductive DocumentId
  | number (n : ℕ)
  | string (s : JsString)
  deriving DecidableEq

variable {keys : ClientKeyring.Config} (ecies : Ecies keys)

/-- The envelope is `none` when it is missing or empty. -/
structure ShareEnvelopeRef where
  documentId : DocumentId
  envelope : Option ecies.Envelope

/-- The entries of the list may be `null`. -/
abbrev Envelopes := List (Option (ShareEnvelopeRef ecies))

structure VaultEnvelopeBatch where
  vaultId : DocumentId
  envelopes : Envelopes ecies

structure KeyRotationFailure where
  documentId : DocumentId
  reason : JsString

/-! ## What a call is given -/

inductive Chain
  | evm
  | soroban
  deriving DecidableEq

/-- A key that is missing is `[]`. -/
structure RotationOptions where
  account : JsString
  oldPublicKey : JsString
  oldPrivateKey : JsString
  newPublicKey : JsString := []
  newPrivateKey : JsString := []
  pinOrPassphrase : JsString
  /-- Whether there is an adapter for the chain. -/
  contract : Chain → Bool := fun _ => false

structure KeyRotationOptions extends RotationOptions where
  envelopes : Envelopes ecies

structure EmergencyRevocationOptions extends RotationOptions where
  vaultBatches : List (VaultEnvelopeBatch ecies)

structure Transaction where
  hash : Option JsString := none
  id : Option JsString := none
  /-- What `wait` is answered with, where there is one. -/
  wait : Option (Except JsString Unit) := none

/-- What becomes of a chain's `revokeKey`: the adapter's answer, and whether the chain has registered the new key by the
time that the call settles. -/
structure RevocationAnswer where
  reply : Except JsString (Option Transaction) := .ok none
  registers : Bool := true

/-- A worker that fails does so with a message, which may be empty. -/
structure ReencryptionAnswer where
  failure : Option JsString := none
  random : ℕ := 0

/-- What the awaits of a call are answered with. -/
structure RotationAnswers where
  /-- The private key of `generateECIESKeyPairBase64`. -/
  generated : JsString := []
  revocation : Chain → RevocationAnswer := fun _ => {}
  /-- The chain whose rejection comes first. -/
  first : Chain := .evm
  /-- For each envelope of each list. -/
  reencryption : ℕ → ℕ → ReencryptionAnswer := fun _ _ => {}
  save : ClientKeyring.Answers := {}
  /-- Of IndexedDB, when the record is put. -/
  storageFailure : Option Failure := none
  rotatedAt : ℕ := 0

/-! ## State -/

structure World where
  keyring : Keyring := {}
  /-- The public key that the chain has registered for the account. -/
  registered : Chain → Option JsString := fun _ => none
  /-- The envelopes that are stored of a document. -/
  documents : DocumentId → List ecies.Envelope := fun _ => []

inductive RotationError
  | error (message : JsString)
  | keyOwnershipProof
  /-- By `importECIESPublicKey` or `importECIESPrivateKey`. -/
  | keyFormat
  /-- By an adapter. -/
  | rejected (message : JsString)
  | keyring (failure : Failure)

abbrev Rotation (α : Type) := Methods.Method (World ecies) RotationError α

structure KeyRotationReport where
  account : JsString
  oldPublicKey : JsString
  newPublicKey : JsString
  rotatedDocumentIds : List DocumentId
  failures : List KeyRotationFailure
  transactionHash : Option JsString
  sorobanTxHash : Option JsString
  rotatedAt : ℕ

structure VaultRevocationResult where
  vaultId : DocumentId
  rotatedDocumentIds : List DocumentId
  failures : List KeyRotationFailure

structure EmergencyRevocationReport where
  account : JsString
  oldPublicKey : JsString
  newPublicKey : JsString
  totalDocumentsRotated : ℕ
  totalFailures : ℕ
  vaultResults : List VaultRevocationResult
  transactionHash : Option JsString
  sorobanTxHash : Option JsString
  revokedAt : ℕ

/-! ## The parts that both methods have -/

section Parts
variable (o : RotationOptions) (x : RotationAnswers)

/-- The pair that was passed, or a generated one where a part of it is missing. -/
def rotatedPair (keys : ClientKeyring.Config) : JsString × JsString :=
  if o.newPublicKey = [] ∨ o.newPrivateKey = [] then (keys.publicKeyOf x.generated, x.generated)
  else (o.newPublicKey, o.newPrivateKey)

def failed (message : String) : RotationError := .error (js message)

def proveOwnership (oldPrivateKey : JsString) (envelopes : Envelopes ecies) : Rotation ecies Unit :=
  match envelopes.findSome? fun item => item.bind (·.envelope) with
  | some envelope =>
    match ecies.decryptWithPrivateKey envelope oldPrivateKey with
    | .ok _ => pure ()
    | .error _ => throw .keyOwnershipProof
  | none => pure ()

def prepare (envelopes : Envelopes ecies) : Rotation ecies (JsString × JsString) := do
  Methods.throwIf (o.account = []) (failed "Account address is required")
  Methods.throwIf (o.oldPublicKey = [] ∨ o.oldPrivateKey = []) (failed "Old public and private keys are required")
  Methods.throwIf (trim o.pinOrPassphrase = []) (failed "A PIN or passphrase is required to protect the rotated keypair")
  let pair := rotatedPair o x keys
  Methods.throwIf (keys.importsPublicKey pair.1 = false ∨ keys.importsPrivateKey pair.2 = false) .keyFormat
  proveOwnership ecies o.oldPrivateKey envelopes
  return pair

/-- The chains that are asked, and accept, have the new key. -/
def World.revoked (newPublicKey : JsString) (w : World ecies) : World ecies :=
  { w with
    registered := fun chain =>
      if o.contract chain && (x.revocation chain).registers then some newPublicKey else w.registered chain }

/-- What `revokeKey` of the chain is answered with, `undefined` without an adapter. -/
def revocation (chain : Chain) : Except JsString (Option Transaction) :=
  if o.contract chain then (x.revocation chain).reply else .ok none

/-- `Promise.all` of the two revocations: it rejects with the first rejection. -/
def revokeKeys (newPublicKey : JsString) : Rotation ecies (Option Transaction × Option Transaction) := do
  modify (World.revoked ecies o x newPublicKey)
  match revocation o x .evm, revocation o x .soroban with
  | .ok evmResult, .ok sorobanResult => return (evmResult, sorobanResult)
  | .error e, .ok _ => throw (.rejected e)
  | .ok _, .error e => throw (.rejected e)
  | .error e, .error e' => throw (.rejected (if x.first = .evm then e else e'))

/-- `await tx.wait()`, and the hash. -/
def confirm (evmResult : Option Transaction) : Rotation ecies (Option JsString) :=
  match evmResult with
  | none => return none
  | some tx =>
    match tx.wait with
    | some (.error e) => throw (.rejected e)
    | _ => return tx.hash

def revoke (newPublicKey : JsString) : Rotation ecies (Option JsString × Option JsString) := do
  let (evmResult, sorobanResult) ← revokeKeys ecies o x newPublicKey
  let transactionHash ← confirm ecies evmResult
  return (transactionHash, sorobanResult.bind fun tx => tx.hash.or tx.id)

/-- `clientKeyringService.saveKeyPair`, which fails as well when IndexedDB refuses the record. -/
def stored (keys : ClientKeyring.Config) (pair : JsString × JsString) (s : Keyring) : Except Failure Unit × Keyring :=
  match outcome (ClientKeyring.saveKeyPair keys o.account pair.1 pair.2 o.pinOrPassphrase) x.save s, x.storageFailure with
  | (.ok _, s'), none => (.ok (), s')
  | (.ok _, s'), some e => (.error e, { s' with records := s.records, sessionKeyCache := s.sessionKeyCache })
  | (.error e, s'), _ => (.error e, s')

def saveKeyPair (pair : JsString × JsString) : Rotation ecies Unit := do
  let w ← get
  modify fun w => { w with keyring := (stored o x keys pair w.keyring).2 }
  match (stored o x keys pair w.keyring).1 with
  | .ok _ => pure ()
  | .error e => throw (.keyring e)

end Parts

/-! ## Re-encryption -/

section Reencryption
variable (oldPrivateKey newPublicKey : JsString)

/-- `cryptoWorkerService.reencryptEnvelopeAsync` -/
def reencryptEnvelopeAsync (x : ReencryptionAnswer) (envelope : ecies.Envelope) : Except JsString ecies.Envelope :=
  match x.failure with
  | some message => .error message
  | none => do
    let plaintext ← ecies.decryptWithPrivateKey envelope oldPrivateKey
    ecies.encryptWithPublicKey x.random plaintext newPublicKey

/-- `item?.documentId ?? "unknown"` -/
def documentIdOf (item : Option (ShareEnvelopeRef ecies)) : DocumentId :=
  match item with
  | some item => item.documentId
  | none => .string (js "unknown")

/-- What one round of the loop reports: the document is rotated, or it failed. The new envelope is dropped. -/
def reencryptItem (x : ReencryptionAnswer) (item : Option (ShareEnvelopeRef ecies)) :
    Except KeyRotationFailure DocumentId :=
  match item.bind (·.envelope) with
  | none => .error ⟨documentIdOf ecies item, js "Missing envelope payload"⟩
  | some envelope =>
    match reencryptEnvelopeAsync ecies oldPrivateKey newPublicKey x envelope with
    | .ok _ => .ok (documentIdOf ecies item)
    | .error message =>
      .error ⟨documentIdOf ecies item, if message = [] then js "Re-encryption failed" else message⟩

/-- The loop over the envelopes, from the `i`-th on: `rotatedDocumentIds` and `failures`. -/
def reencryptEnvelopes (x : ℕ → ReencryptionAnswer) (i : ℕ) :
    Envelopes ecies → List DocumentId × List KeyRotationFailure
  | [] => ([], [])
  | item :: items =>
    let rest := reencryptEnvelopes x (i + 1) items
    match reencryptItem ecies oldPrivateKey newPublicKey (x i) item with
    | .ok documentId => (documentId :: rest.1, rest.2)
    | .error reported => (rest.1, reported :: rest.2)

/-- `_reencryptVaultBatch` -/
def reencryptVaultBatch (x : ℕ → ReencryptionAnswer) (batch : VaultEnvelopeBatch ecies) : VaultRevocationResult :=
  let (rotatedDocumentIds, failures) := reencryptEnvelopes ecies oldPrivateKey newPublicKey x 0 batch.envelopes
  ⟨batch.vaultId, rotatedDocumentIds, failures⟩

end Reencryption

/-! ## The service -/

def rotateCompromisedKey (o : KeyRotationOptions ecies) (x : RotationAnswers) : Rotation ecies KeyRotationReport := do
  let pair ← prepare ecies o.toRotationOptions x o.envelopes
  let (rotatedDocumentIds, failures) :=
    reencryptEnvelopes ecies o.oldPrivateKey pair.1 (x.reencryption 0) 0 o.envelopes
  let (transactionHash, sorobanTxHash) ← revoke ecies o.toRotationOptions x pair.1
  saveKeyPair ecies o.toRotationOptions x pair
  return {
    account := keys.lower o.account
    oldPublicKey := o.oldPublicKey
    newPublicKey := pair.1
    rotatedDocumentIds
    failures
    transactionHash
    sorobanTxHash
    rotatedAt := x.rotatedAt }

def emergencyBatchRevoke (o : EmergencyRevocationOptions ecies) (x : RotationAnswers) :
    Rotation ecies EmergencyRevocationReport := do
  let pair ← prepare ecies o.toRotationOptions x (o.vaultBatches.flatMap (·.envelopes))
  let (transactionHash, sorobanTxHash) ← revoke ecies o.toRotationOptions x pair.1
  let vaultResults := o.vaultBatches.mapIdx fun i batch =>
    reencryptVaultBatch ecies o.oldPrivateKey pair.1 (x.reencryption i) batch
  saveKeyPair ecies o.toRotationOptions x pair
  return {
    account := keys.lower o.account
    oldPublicKey := o.oldPublicKey
    newPublicKey := pair.1
    totalDocumentsRotated := (vaultResults.map (·.rotatedDocumentIds.length)).sum
    totalFailures := (vaultResults.map (·.failures.length)).sum
    vaultResults
    transactionHash
    sorobanTxHash
    revokedAt := x.rotatedAt }

end ChainGuard.OffChain.KeyRotation
