import ChainGuard.Library.History
import ChainGuard.Soroban.Access

/-! The Soroban contract as a transition system. The entry points that write storage come in
families that write the same groups; an invocation that fails leaves no trace, and the host
lets no call back into a running invocation. -/
namespace ChainGuard.Soroban
open Guarded History
set_option autoImplicit false

variable (host : Host) (env : Env) (s : State)

/-! ## Nullifiers -/

/-- `to_storage_bytes` of a nullifier -/
def toStorageBytes (nullifier : Bytes32) : Bytes := 0 :: word nullifier.toNat

/-- `is_nullifier_spent`; bytes are no `bool`. -/
def isNullifierSpent (nullifier : Bytes32) : Result Bool :=
  match s.entries (toStorageBytes nullifier) with
  | none => pure false
  | some .spent => pure true
  | some (.accumulator _) => .error .host

def markNullifierSpent (nullifier : Bytes32) : Entries :=
  Function.update s.entries (toStorageBytes nullifier) (some .spent)

/-- `zk_verifier::verify_proof` -/
def verifyProof (args : ProofArgs) : Result (Output Entries) := do
  let spent ← isNullifierSpent s args.nullifierHash
  revertIf (spent = true) (.zk .NullifierAlreadySpent)
  revertIf (args.ic.length ≠ 4) (.zk .InvalidInputCount)
  match host.groth16 args with
  | .error e => .error (.zk e)
  | .ok _ => pure (markNullifierSpent s args.nullifierHash, [.proofVerified args.nullifierHash args.documentId])

def verifyAccessProof (submitter : Address) (args : ProofArgs) : Result (Output Entries) := do
  requireAuth env submitter
  verifyProof host s args

/-- `verify_access_proof_view`: a transaction keeps what the simulation of a call would drop. Only the verifier's own
errors are `false`. -/
def verifyAccessProofView (args : ProofArgs) : Result (Output (Entries × Bool)) :=
  match verifyProof host s args with
  | .ok (entries, logs) => pure ((entries, true), logs)
  | .error (.zk _) => pure ((s.entries, false), [])
  | .error failure => .error failure

/-- `homomorphic_add`, a stub in the source too. -/
def homomorphicAdd (base _incoming : Bytes) : Bytes := base

/-- The accumulator that `aggregate_share` reads; a flag is no `Bytes`. -/
def loadAccumulator (vaultId : Bytes) : Result Bytes :=
  match s.entries vaultId with
  | none => pure (List.replicate 32 0)
  | some (.accumulator share) => pure share
  | some .spent => .error .host

/-- `aggregate_share` of `FheVaultContract`, in the same Wasm: the caller chooses the storage key. -/
def aggregateShare (vaultId encryptedShare _proof : Bytes) : Result (Output Entries) := do
  let accumulator ← loadAccumulator s vaultId
  pure (Function.update s.entries vaultId (some (.accumulator (homomorphicAdd accumulator encryptedShare))), [])

/-! ## Calls by family -/

inductive IdentityCall
  | registerPublicKey (user : Address) (publicKey : Bytes)
  | revokeKey (user : Address) (oldPublicKey newPublicKey : Bytes)
  | registerCrossChainIdentity (stellarUser : Address) (evmAddress : Bytes) (encryptionPubkey : Option Bytes)

inductive UpgradeCall
  | initAdmins (admins : List Address) (threshold : ℕ)
  | upgradeContract (admin : Address) (newWasmHash : Bytes32)
  | migrate (admin : Address)

inductive VaultCall
  | createVault (creator : Address) (name description : Bytes) (guardians : List Address)
      (approvalThreshold : ℕ)
  | acceptGuardianInvite (guardian : Address) (vaultId : ℕ)
  | registerGuardianBLSKey (guardian : Address) (vaultId : ℕ) (blsPublicKey proofOfPossession : Bytes)
  | setAccessRegistry (owner : Address) (vaultId : ℕ) (registry : Address)
  | deactivateVault (owner : Address) (vaultId : ℕ)

inductive ReleaseCall
  | proveLife (owner : Address) (vaultId : ℕ)
  | authorizeKeeper (owner : Address) (vaultId : ℕ) (keeper : Address) (expiresAt : ℕ)
  | revokeKeeper (owner : Address) (vaultId : ℕ)
  | proveLifeByKeeper (keeper : Address) (vaultId : ℕ)
  | bindCrossChainHeartbeat (owner : Address) (vaultId : ℕ) (gidHash : Bytes32) (evmOwner : EvmAddress)
      (relayer : Address)
  | syncProofOfLife (relayer : Address) (vaultId evmVaultId : ℕ) (gidHash : Bytes32)
      (evmOwner : EvmAddress) (timestamp : ℕ) (signature : Signature) (recoveryId : ℕ)
  | configureVaultRelease (owner : Address) (vaultId inactivityPeriod : ℕ)
  | setEmergencyMode (owner : Address) (vaultId : ℕ) (enabled : Bool)
  | setEmergencyJitterWindow (owner : Address) (vaultId jitterWindow : ℕ)
  | fulfillEmergencyUnlockDelay (vaultId : ℕ)

inductive ApprovalCall
  | approveAccess (approver : Address) (requestId : ℕ) (beneficiaryShare : Option Bytes)
  | approveAccessThreshold (caller : Address) (requestId : ℕ) (signatures : List Signature)
      (publicKeys : List Bytes32) (nonce expirationLedger : ℕ) (beneficiaryShare : Option Bytes)
  | approveAccessBLS (requestId : ℕ) (guardianAddresses : List Address)
      (aggregatedSignature aggregatedPublicKey : Bytes) (encryptedShares : List Bytes)
  | approveAccessFhe (approver : Address) (requestId : ℕ) (fheShare : Bytes)

inductive GrantCall
  | revokeAccess (guardian : Address) (documentId : ℕ) (target : Address)
  | linkCrossChainVault (owner : Address) (vaultId : ℕ) (vaultGid : Bytes32) (evmRevoker : EvmAddress)
  | relayRevokeAccess (vaultGid : Bytes32) (documentId : ℕ) (targetEvmUser : EvmAddress)
      (targetStellarUser : Address) (nonce : ℕ) (signature : Signature) (recoveryId : ℕ)

inductive TokenCall
  | mintAccessToken (minter : Address) (vaultId : ℕ) (recipient : Address) (tokenUri : Bytes)
  | burnAccessToken (owner : Address) (tokenId : ℕ)
  | transfer (source recipient : Address) (tokenId : ℕ)

inductive Call
  | identities (c : IdentityCall)
  | upgrades (c : UpgradeCall)
  | vaults (c : VaultCall)
  | release (c : ReleaseCall)
  | addDocument (uploader : Address) (vaultId : ℕ) (encryptedMetadata ipfsHash : Bytes)
      (requiredAccess : AccessLevel) (releaseCondition : ReleaseCondition) (guardiansList : List Address)
      (shares : List Bytes)
  | saveGuardianSharesFhe (uploader : Address) (documentId : ℕ) (guardiansList : List Address)
      (sharesFhe : List Bytes)
  | requestAccess (requester : Address) (documentId : ℕ)
  | verifyThresholdSignatures (message : Bytes) (signatures : List Signature) (publicKeys : List Bytes32)
      (threshold nonce expirationLedger : ℕ)
  | approval (c : ApprovalCall)
  | grants (c : GrantCall)
  | tokens (c : TokenCall)
  | verifyAccessProof (submitter : Address) (args : ProofArgs)
  | verifyAccessProofView (args : ProofArgs)
  | aggregateShare (vaultId encryptedShare proof : Bytes)

/-! ## Execution -/

def execIdentities (k : Identities) : IdentityCall → Result (Output Identities)
  | .registerPublicKey user publicKey => registerPublicKey env k user publicKey
  | .revokeKey user oldPublicKey newPublicKey => revokeKey env k user oldPublicKey newPublicKey
  | .registerCrossChainIdentity stellarUser evmAddress encryptionPubkey =>
    registerCrossChainIdentity env k stellarUser evmAddress encryptionPubkey

def execUpgrades (u : Upgrades) : UpgradeCall → Result (Output Upgrades)
  | .initAdmins admins threshold => initAdmins env u admins threshold
  | .upgradeContract admin newWasmHash => upgradeContract env u admin newWasmHash
  | .migrate admin => migrate env u admin

def execVaults (v : Vaults) : VaultCall → Result (Output Vaults)
  | .createVault creator name description guardians approvalThreshold =>
    createVault env v creator name description guardians approvalThreshold
  | .acceptGuardianInvite guardian vaultId => acceptGuardianInvite env v guardian vaultId
  | .registerGuardianBLSKey guardian vaultId blsPublicKey proofOfPossession =>
    registerGuardianBLSKey env v guardian vaultId blsPublicKey proofOfPossession
  | .setAccessRegistry owner vaultId registry => setAccessRegistry env v owner vaultId registry
  | .deactivateVault owner vaultId => deactivateVault env v owner vaultId

def execRelease (v : Vaults) (r : Release) : ReleaseCall → Result (Output (Vaults × Release))
  | .proveLife owner vaultId => proveLife env v r owner vaultId
  | .authorizeKeeper owner vaultId keeper expiresAt => authorizeKeeper env v r owner vaultId keeper expiresAt
  | .revokeKeeper owner vaultId => revokeKeeper env v r owner vaultId
  | .proveLifeByKeeper keeper vaultId => proveLifeByKeeper env v r keeper vaultId
  | .bindCrossChainHeartbeat owner vaultId gidHash evmOwner relayer =>
    bindCrossChainHeartbeat env v r owner vaultId gidHash evmOwner relayer
  | .syncProofOfLife relayer vaultId evmVaultId gidHash evmOwner timestamp signature recoveryId =>
    syncProofOfLife host env v r relayer vaultId evmVaultId gidHash evmOwner timestamp signature recoveryId
  | .configureVaultRelease owner vaultId inactivityPeriod =>
    configureVaultRelease env v r owner vaultId inactivityPeriod
  | .setEmergencyMode owner vaultId enabled => setEmergencyMode env v r owner vaultId enabled
  | .setEmergencyJitterWindow owner vaultId jitterWindow =>
    setEmergencyJitterWindow env v r owner vaultId jitterWindow
  | .fulfillEmergencyUnlockDelay vaultId => fulfillEmergencyUnlockDelay env v r vaultId

def execApproval : ApprovalCall → Result (Output (Requests × Grants))
  | .approveAccess approver requestId beneficiaryShare =>
    approveAccess env s approver requestId beneficiaryShare
  | .approveAccessThreshold caller requestId signatures publicKeys nonce expirationLedger beneficiaryShare =>
    approveAccessThreshold host env s caller requestId signatures publicKeys nonce expirationLedger
      beneficiaryShare
  | .approveAccessBLS requestId guardianAddresses aggregatedSignature aggregatedPublicKey encryptedShares =>
    approveAccessBLS env s requestId guardianAddresses aggregatedSignature aggregatedPublicKey
      encryptedShares
  | .approveAccessFhe approver requestId fheShare => approveAccessFhe env s approver requestId fheShare

def execGrants : GrantCall → Result (Output Grants)
  | .revokeAccess guardian documentId target => revokeAccess env s guardian documentId target
  | .linkCrossChainVault owner vaultId vaultGid evmRevoker =>
    linkCrossChainVault env s owner vaultId vaultGid evmRevoker
  | .relayRevokeAccess vaultGid documentId targetEvmUser targetStellarUser nonce signature recoveryId =>
    relayRevokeAccess host s vaultGid documentId targetEvmUser targetStellarUser nonce signature recoveryId

def execTokens (v : Vaults) (t : Tokens) : TokenCall → Result (Output Tokens)
  | .mintAccessToken minter vaultId recipient tokenUri =>
    mintAccessToken env v t minter vaultId recipient tokenUri
  | .burnAccessToken owner tokenId => burnAccessToken env t owner tokenId
  | .transfer source recipient tokenId => transfer env t source recipient tokenId

def exec : Call → Result State
  | .identities c => do
    let (identities, logs) ← execIdentities env s.identities c
    pure { s with identities, logs }
  | .upgrades c => do
    let (upgrades, logs) ← execUpgrades env s.upgrades c
    pure { s with upgrades, logs }
  | .vaults c => do
    let (vaults, logs) ← execVaults env s.vaults c
    pure { s with vaults, logs }
  | .release c => do
    let ((vaults, release), logs) ← execRelease host env s.vaults s.release c
    pure { s with vaults, release, logs }
  | .addDocument uploader vaultId encryptedMetadata ipfsHash requiredAccess releaseCondition guardiansList
      shares => do
    let ((documents, grants), logs) ← addDocument env s uploader vaultId encryptedMetadata ipfsHash
      requiredAccess releaseCondition guardiansList shares
    pure { s with documents, grants, logs }
  | .saveGuardianSharesFhe uploader documentId guardiansList sharesFhe => do
    let (documents, logs) ← saveGuardianSharesFhe env s uploader documentId guardiansList sharesFhe
    pure { s with documents, logs }
  | .requestAccess requester documentId => do
    let (requests, logs) ← requestAccess env s requester documentId
    pure { s with requests, logs }
  | .verifyThresholdSignatures message signatures publicKeys threshold nonce expirationLedger => do
    let (requests, logs) ← verifyThresholdSignatures host env s message signatures publicKeys threshold
      nonce expirationLedger
    pure { s with requests, logs }
  | .approval c => do
    let ((requests, grants), logs) ← execApproval host env s c
    pure { s with requests, grants, logs }
  | .grants c => do
    let (grants, logs) ← execGrants host env s c
    pure { s with grants, logs }
  | .tokens c => do
    let (tokens, logs) ← execTokens env s.vaults s.tokens c
    pure { s with tokens, logs }
  | .verifyAccessProof submitter args => do
    let (entries, logs) ← verifyAccessProof host env s submitter args
    pure { s with entries, logs }
  | .verifyAccessProofView args => do
    let ((entries, _), logs) ← verifyAccessProofView host s args
    pure { s with entries, logs }
  | .aggregateShare vaultId encryptedShare proof => do
    let (entries, logs) ← aggregateShare s vaultId encryptedShare proof
    pure { s with entries, logs }

/-! ## Runs -/

abbrev Invocation := Env × Call

def Steps (host : Host) (s : State) (i : Invocation) (s' : State) : Prop := exec host i.1 s i.2 = .ok s'

def Deployed (s : State) : Prop := s = {}

abbrev StellarRun (host : Host) (hist : List (Transition State Invocation)) (s : State) : Prop :=
  Run Deployed (Steps host) hist s

/-! ## What a transition writes -/

/-- Each family of calls, with the outcome of its body and the storage it leaves. -/
inductive Effect (host : Host) (s : State) : Invocation → State → Prop
  | identities {env : Env} {c : IdentityCall} {identities : Identities} {logs : List Event} :
      execIdentities env s.identities c = .ok (identities, logs) →
      Effect host s (env, .identities c) { s with identities, logs }
  | upgrades {env : Env} {c : UpgradeCall} {upgrades : Upgrades} {logs : List Event} :
      execUpgrades env s.upgrades c = .ok (upgrades, logs) →
      Effect host s (env, .upgrades c) { s with upgrades, logs }
  | vaults {env : Env} {c : VaultCall} {vaults : Vaults} {logs : List Event} :
      execVaults env s.vaults c = .ok (vaults, logs) →
      Effect host s (env, .vaults c) { s with vaults, logs }
  | release {env : Env} {c : ReleaseCall} {vaults : Vaults} {release : Release} {logs : List Event} :
      execRelease host env s.vaults s.release c = .ok ((vaults, release), logs) →
      Effect host s (env, .release c) { s with vaults, release, logs }
  | addDocument {env : Env} {uploader : Address} {vaultId : ℕ} {encryptedMetadata ipfsHash : Bytes}
      {requiredAccess : AccessLevel} {releaseCondition : ReleaseCondition}
      {guardiansList : List Address} {shares : List Bytes} {documents : Documents} {grants : Grants}
      {logs : List Event} :
      addDocument env s uploader vaultId encryptedMetadata ipfsHash requiredAccess releaseCondition
        guardiansList shares = .ok ((documents, grants), logs) →
      Effect host s (env, .addDocument uploader vaultId encryptedMetadata ipfsHash requiredAccess
        releaseCondition guardiansList shares) { s with documents, grants, logs }
  | saveGuardianSharesFhe {env : Env} {uploader : Address} {documentId : ℕ}
      {guardiansList : List Address} {sharesFhe : List Bytes} {documents : Documents} {logs : List Event} :
      saveGuardianSharesFhe env s uploader documentId guardiansList sharesFhe = .ok (documents, logs) →
      Effect host s (env, .saveGuardianSharesFhe uploader documentId guardiansList sharesFhe)
        { s with documents, logs }
  | requestAccess {env : Env} {requester : Address} {documentId : ℕ} {requests : Requests}
      {logs : List Event} : requestAccess env s requester documentId = .ok (requests, logs) →
      Effect host s (env, .requestAccess requester documentId) { s with requests, logs }
  | verifyThresholdSignatures {env : Env} {message : Bytes} {signatures : List Signature}
      {publicKeys : List Bytes32} {threshold nonce expirationLedger : ℕ} {requests : Requests}
      {logs : List Event} :
      verifyThresholdSignatures host env s message signatures publicKeys threshold nonce
        expirationLedger = .ok (requests, logs) →
      Effect host s (env, .verifyThresholdSignatures message signatures publicKeys threshold nonce
        expirationLedger) { s with requests, logs }
  | approval {env : Env} {c : ApprovalCall} {requests : Requests} {grants : Grants} {logs : List Event} :
      execApproval host env s c = .ok ((requests, grants), logs) →
      Effect host s (env, .approval c) { s with requests, grants, logs }
  | grants {env : Env} {c : GrantCall} {grants : Grants} {logs : List Event} :
      execGrants host env s c = .ok (grants, logs) →
      Effect host s (env, .grants c) { s with grants, logs }
  | tokens {env : Env} {c : TokenCall} {tokens : Tokens} {logs : List Event} :
      execTokens env s.vaults s.tokens c = .ok (tokens, logs) →
      Effect host s (env, .tokens c) { s with tokens, logs }
  | verifyAccessProof {env : Env} {submitter : Address} {args : ProofArgs} {entries : Entries} {logs : List Event} :
      verifyAccessProof host env s submitter args = .ok (entries, logs) →
      Effect host s (env, .verifyAccessProof submitter args) { s with entries, logs }
  | verifyAccessProofView {env : Env} {args : ProofArgs} {entries : Entries} {valid : Bool} {logs : List Event} :
      verifyAccessProofView host s args = .ok ((entries, valid), logs) →
      Effect host s (env, .verifyAccessProofView args) { s with entries, logs }
  | aggregateShare {env : Env} {vaultId encryptedShare proof : Bytes} {entries : Entries} {logs : List Event} :
      aggregateShare s vaultId encryptedShare proof = .ok (entries, logs) →
      Effect host s (env, .aggregateShare vaultId encryptedShare proof) { s with entries, logs }

variable {host s}

theorem Steps.effect {i : Invocation} {s' : State} (h : Steps host s i s') : Effect host s i s' := by
  obtain ⟨env, call⟩ := i
  cases call with
  | identities c =>
    simp only [Steps, exec, bind_ok, pure_ok] at h
    obtain ⟨⟨identities, logs⟩, h, rfl⟩ := h
    exact .identities h
  | upgrades c =>
    simp only [Steps, exec, bind_ok, pure_ok] at h
    obtain ⟨⟨upgrades, logs⟩, h, rfl⟩ := h
    exact .upgrades h
  | vaults c =>
    simp only [Steps, exec, bind_ok, pure_ok] at h
    obtain ⟨⟨vaults, logs⟩, h, rfl⟩ := h
    exact .vaults h
  | release c =>
    simp only [Steps, exec, bind_ok, pure_ok] at h
    obtain ⟨⟨⟨vaults, release⟩, logs⟩, h, rfl⟩ := h
    exact .release h
  | addDocument uploader vaultId encryptedMetadata ipfsHash requiredAccess releaseCondition guardiansList
      shares =>
    simp only [Steps, exec, bind_ok, pure_ok] at h
    obtain ⟨⟨⟨documents, grants⟩, logs⟩, h, rfl⟩ := h
    exact .addDocument h
  | saveGuardianSharesFhe uploader documentId guardiansList sharesFhe =>
    simp only [Steps, exec, bind_ok, pure_ok] at h
    obtain ⟨⟨documents, logs⟩, h, rfl⟩ := h
    exact .saveGuardianSharesFhe h
  | requestAccess requester documentId =>
    simp only [Steps, exec, bind_ok, pure_ok] at h
    obtain ⟨⟨requests, logs⟩, h, rfl⟩ := h
    exact .requestAccess h
  | verifyThresholdSignatures message signatures publicKeys threshold nonce expirationLedger =>
    simp only [Steps, exec, bind_ok, pure_ok] at h
    obtain ⟨⟨requests, logs⟩, h, rfl⟩ := h
    exact .verifyThresholdSignatures h
  | approval c =>
    simp only [Steps, exec, bind_ok, pure_ok] at h
    obtain ⟨⟨⟨requests, grants⟩, logs⟩, h, rfl⟩ := h
    exact .approval h
  | grants c =>
    simp only [Steps, exec, bind_ok, pure_ok] at h
    obtain ⟨⟨grants, logs⟩, h, rfl⟩ := h
    exact .grants h
  | tokens c =>
    simp only [Steps, exec, bind_ok, pure_ok] at h
    obtain ⟨⟨tokens, logs⟩, h, rfl⟩ := h
    exact .tokens h
  | verifyAccessProof submitter args =>
    simp only [Steps, exec, bind_ok, pure_ok] at h
    obtain ⟨⟨entries, logs⟩, h, rfl⟩ := h
    exact .verifyAccessProof h
  | verifyAccessProofView args =>
    simp only [Steps, exec, bind_ok, pure_ok] at h
    obtain ⟨⟨⟨entries, valid⟩, logs⟩, h, rfl⟩ := h
    exact .verifyAccessProofView h
  | aggregateShare vaultId encryptedShare proof =>
    simp only [Steps, exec, bind_ok, pure_ok] at h
    obtain ⟨⟨entries, logs⟩, h, rfl⟩ := h
    exact .aggregateShare h

/-! ## Running a list of calls -/

def invoke (host : Host) (s : State) (i : Invocation) : Result State := exec host i.1 s i.2

theorem deployed : Deployed {} := rfl

theorem StellarRun.deployed (host : Host) : StellarRun host [] {} := .start rfl

theorem StellarRun.invoked {hist : List (Transition State Invocation)} {s s' : State}
    (h : StellarRun host hist s) (env : Env) (c : Call) (hexec : exec host env s c = .ok s') :
    StellarRun host (⟨s, (env, c), s'⟩ :: hist) s' :=
  .next h hexec

theorem exists_run (host : Host) (calls : List Invocation)
    (p : List (Transition State Invocation) → State → Bool)
    (h : endsIn (invoke host) {} calls p = true) :
    ∃ hist final, StellarRun host hist final ∧ p hist final = true :=
  exists_run_of_endsIn deployed h

theorem exists_step (host : Host) (calls : List Invocation) (i : Invocation) (p : State → State → Bool)
    (h : endsIn (invoke host) {} calls (fun _ s => stepsTo (invoke host) i p s) = true) :
    ∃ hist s s', StellarRun host hist s ∧ Steps host s i s' ∧ p s s' = true :=
  exists_step_of_endsIn deployed h

/-! ## A concrete host -/

/-- A hash with one value; a signature is valid under the key it carries, and recovers a key. -/
def localHost : Host where
  keccak256 := fun _ => 1
  ed25519Verify := fun key _ signature => signature == key.setWidth 512
  secp256k1Recover := fun _ _ _ => some (List.replicate 65 4)
  toXdr := fun _ => []
  groth16 := fun _ => .error .InvalidProof

def invokedBy (authorized : List Address) (timestamp : ℕ) : Env :=
  { authorized, timestamp, sequence := timestamp / 5, prng := 0, recordGrant := fun _ _ _ => true
    wasmUploaded := fun _ => true }

def acct (key : ℕ) : Address := .account (BitVec.ofNat 256 key)

/-- Guardian 1 opens a vault with guardian 2 and the given threshold and adds a document. -/
def openedVault (approvalThreshold : ℕ) : List Invocation :=
  [(invokedBy [acct 1] 100,
      .vaults (.createVault (acct 1) (ascii "vault") [] [acct 2] approvalThreshold)),
    (invokedBy [acct 2] 101, .vaults (.acceptGuardianInvite (acct 2) 1)),
    (invokedBy [acct 1] 102, .addDocument (acct 1) 1 [] (ascii "Qm") .Read .Anytime [] [])]

end ChainGuard.Soroban
