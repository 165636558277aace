import ChainGuard.Soroban.Primitives

/-! The storage of `SpooVaultStellar`, grouped by what is written together: an entry point returns
the groups it writes and the events it publishes. An absent key is `none`, or the value the
contract reads for it where nothing tells the two apart. Time to live is left out. -/
namespace ChainGuard.Soroban
set_option autoImplicit false

/-! ## Vaults -/

structure Vault where
  id : ℕ
  creator : Address
  name : Bytes
  description : Bytes
  guardians : List Address
  approvalThreshold : ℕ
  isActive : Bool
  createdAt : ℕ

structure VaultReleaseState where
  emergencyMode : Bool
  inactivityPeriod : ℕ
  lastProofOfLife : ℕ
  lastProofOfLifeSequence : ℕ

structure VaultRecord where
  vault : Vault
  releaseState : VaultReleaseState

structure GuardianInvite where
  guardian : Address
  vaultId : ℕ
  accepted : Bool
  expiresAt : ℕ

structure GuardianBLSKeyInfo where
  publicKey : Bytes
  proofOfPossession : Bytes
  registered : Bool
  registeredAt : ℕ

structure Vaults where
  vaultCount : ℕ := 0
  vaults : ℕ → Option VaultRecord := fun _ => none
  invites : Address → Option (List GuardianInvite) := fun _ => none
  guardianBLSKey : ℕ → Address → Option GuardianBLSKeyInfo := fun _ _ => none
  accessRegistry : ℕ → Option Address := fun _ => none

/-! ## Release -/

structure EmergencyUnlockSchedule where
  cycle : ℕ
  requestSequence : ℕ
  fulfilled : Bool
  unlockAt : ℕ
  unlockSequence : ℕ
  jitterSeconds : ℕ

structure KeeperAuthorization where
  keeper : Address
  expiresAt : ℕ

structure CrossChainHeartbeatBinding where
  gidHash : Bytes32
  evmOwner : EvmAddress
  relayer : Address

structure Release where
  emergencyUnlock : ℕ → Option EmergencyUnlockSchedule := fun _ => none
  emergencyJitterWindow : ℕ → Option ℕ := fun _ => none
  emergencyUnlockCycle : ℕ → ℕ := fun _ => 0
  keeperAuth : ℕ → Option KeeperAuthorization := fun _ => none
  crossChainHeartbeat : ℕ → Option CrossChainHeartbeatBinding := fun _ => none

/-! ## Documents -/

inductive AccessLevel
  | Read
  | ReadWrite
  | Admin
  deriving DecidableEq, Repr

inductive ReleaseCondition
  | Anytime
  | LiveOnly
  | EmergencyOnly
  | PostDeathOnly
  deriving DecidableEq, Repr

structure Document where
  id : ℕ
  vaultId : ℕ
  encryptedMetadata : Bytes
  ipfsHash : Bytes
  uploadedBy : Address
  uploadedAt : ℕ
  requiredAccess : AccessLevel

structure Documents where
  docCount : ℕ := 0
  docs : ℕ → Option Document := fun _ => none
  docReleaseCond : ℕ → Option ReleaseCondition := fun _ => none
  gShare : ℕ → Address → Option Bytes := fun _ _ => none
  fheGShare : ℕ → Address → Option Bytes := fun _ _ => none

/-! ## Requests and grants -/

inductive RequestStatus
  | Pending
  | Approved
  | Rejected
  | Expired
  deriving DecidableEq, Repr

structure AccessRequest where
  requestId : ℕ
  documentId : ℕ
  requester : Address
  approvedBy : List Address
  status : RequestStatus
  expiresAt : ℕ
  createdAt : ℕ

structure Requests where
  reqCount : ℕ := 0
  requests : ℕ → Option AccessRequest := fun _ => none
  /-- `ApprovedReq` is only ever stored as `true`. -/
  approvedReq : ℕ → Address → Bool := fun _ _ => false
  latestReq : ℕ → Address → Option ℕ := fun _ _ => none
  bShare : ℕ → Address → Option Bytes := fun _ _ => none
  fheBShare : ℕ → Address → Option Bytes := fun _ _ => none
  fheAccumulator : ℕ → Option Bytes := fun _ => none
  fheAccumulatorCount : ℕ → ℕ := fun _ => 0
  usedNonce : ℕ → Bool := fun _ => false

structure Grants where
  hasAccess : ℕ → Address → Bool := fun _ _ => false
  accessLvl : ℕ → Address → Option AccessLevel := fun _ _ => none
  vaultAccessVersion : ℕ → Address → ℕ := fun _ _ => 1
  vaultGid : Bytes32 → Option ℕ := fun _ => none
  crossChainRevoker : ℕ → Option EvmAddress := fun _ => none
  revocationNonce : Bytes32 → ℕ → Address → ℕ := fun _ _ _ => 0

/-! ## Tokens, identities, upgrades -/

structure Tokens where
  tokenCount : ℕ := 0
  tokenOwner : ℕ → Option Address := fun _ => none
  tokenVault : ℕ → Option ℕ := fun _ => none
  tokenUri : ℕ → Option Bytes := fun _ => none
  ownerBalance : Address → ℕ := fun _ => 0
  vaultTokenBalance : ℕ → Address → ℕ := fun _ _ => 0

structure Identities where
  pubKey : Address → Option Bytes := fun _ => none
  revokedKey : Bytes → Bool := fun _ => false
  evmToStellar : Bytes → Option Address := fun _ => none
  stellarToEvm : Address → Option Bytes := fun _ => none
  evmToPubKey : Bytes → Option Bytes := fun _ => none

structure UpgradeProposal where
  newWasmHash : Bytes32
  approvedBy : List Address

structure Upgrades where
  admins : Option (List Address) := none
  adminThreshold : ℕ := 0
  upgradeProposal : Option UpgradeProposal := none
  schemaVersion : ℕ := 1

/-! ## Events -/

inductive Event
  | contractUpgraded (newWasmHash : Bytes32)
  | proveLife (vaultId : ℕ) (owner : Address) (timestamp : ℕ)
  | proofLifeSynced (vaultId : ℕ) (gidHash : Bytes32) (evmOwner : EvmAddress) (timestamp : ℕ)
  | emergencyMode (vaultId : ℕ) (enabled : Bool)
  | emergencyUnlockRequested (vaultId sequence : ℕ)
  | emergencyJitterWindow (vaultId jitterWindow : ℕ)
  | emergencyUnlockScheduled (vaultId unlockAt unlockSequence jitterSeconds : ℕ)
  | fheGuardianSharesSaved (documentId count : ℕ)
  | fheShareSubmitted (requestId : ℕ) (approver : Address)
  | fheAggregated (requestId documentId : ℕ) (requester : Address) (aggregate : Bytes)
  /-- The call of a vault's access registry. -/
  | recordGrant (registry : Address) (documentId : ℕ) (requester : Address)
  | accessRevoked (documentId : ℕ) (target : Address)
  | revokeAccess (documentId : ℕ) (target : Address)
  | tokenMinted (tokenId vaultId : ℕ) (recipient : Address)
  | tokenBurned (tokenId : ℕ) (owner : Address)
  | tokenTransferred (tokenId : ℕ) (source recipient : Address)
  | proofVerified (nullifierHash documentId : Bytes32)
  deriving DecidableEq, Repr

/-- What a function returns or writes, with the events it publishes in order. -/
abbrev Output (α : Type) := α × List Event

/-! ## The whole storage -/

/-- What lies under a key of bytes: the flag of a spent nullifier, only ever stored as `true`, or an accumulator of
`aggregate_share`. -/
inductive Entry
  | spent
  | accumulator (share : Bytes)
  deriving DecidableEq

abbrev Entries := Bytes → Option Entry

structure State where
  vaults : Vaults := {}
  release : Release := {}
  documents : Documents := {}
  requests : Requests := {}
  grants : Grants := {}
  tokens : Tokens := {}
  identities : Identities := {}
  upgrades : Upgrades := {}
  entries : Entries := fun _ => none
  /-- The events of the last invocation. -/
  logs : List Event := []

/-! ## Loading -/

def loadVaultRecord (vaults : Vaults) (vaultId : ℕ) : Result VaultRecord :=
  expect (vaults.vaults vaultId) "Vault not found"

def tryLoadVaultRecord (vaults : Vaults) (vaultId : ℕ) : Result VaultRecord :=
  okOr (vaults.vaults vaultId) .VaultNotFound

def saveVaultRecord (vaults : Vaults) (vaultId : ℕ) (record : VaultRecord) : Vaults :=
  { vaults with vaults := Function.update vaults.vaults vaultId (some record) }

def loadDocument (documents : Documents) (documentId : ℕ) : Result Document :=
  expect (documents.docs documentId) "Document not found"

@[simp] theorem loadVaultRecord_ok (vaults : Vaults) (vaultId : ℕ) (record : VaultRecord) :
    loadVaultRecord vaults vaultId = .ok record ↔ vaults.vaults vaultId = some record :=
  expect_ok ..

@[simp] theorem tryLoadVaultRecord_ok (vaults : Vaults) (vaultId : ℕ) (record : VaultRecord) :
    tryLoadVaultRecord vaults vaultId = .ok record ↔ vaults.vaults vaultId = some record :=
  okOr_ok ..

@[simp] theorem loadDocument_ok (documents : Documents) (documentId : ℕ) (doc : Document) :
    loadDocument documents documentId = .ok doc ↔ documents.docs documentId = some doc :=
  expect_ok ..

/-! Vault access tokens: one owner and one vault a token, with the counts of a holder kept beside. -/
open Guarded
variable (env : Env) (v : Vaults) (t : Tokens)

/-- `increment_owner_balance` and `increment_vault_balance` -/
def incrementBalances (vaultId : ℕ) (owner : Address) : Tokens :=
  { t with
    ownerBalance := Function.update t.ownerBalance owner (t.ownerBalance owner + 1)
    vaultTokenBalance := Mapping.set₂ t.vaultTokenBalance vaultId owner
      (t.vaultTokenBalance vaultId owner + 1) }

/-- `decrement_owner_balance` and `decrement_vault_balance`, saturating at 0 -/
def decrementBalances (vaultId : ℕ) (owner : Address) : Tokens :=
  { t with
    ownerBalance := Function.update t.ownerBalance owner (t.ownerBalance owner - 1)
    vaultTokenBalance := Mapping.set₂ t.vaultTokenBalance vaultId owner
      (t.vaultTokenBalance vaultId owner - 1) }

def mintAccessToken (minter : Address) (vaultId : ℕ) (recipient : Address) (tokenUri : Bytes) :
    Result (Output Tokens) := do
  requireAuth env minter
  let record ← loadVaultRecord v vaultId
  assert (record.vault.isActive = true) "Vault not active"
  assert (minter ∈ record.vault.guardians) "Only guardians can mint access tokens"
  let nextTokenId := t.tokenCount + 1
  let minted := { t with
    tokenCount := nextTokenId
    tokenOwner := Function.update t.tokenOwner nextTokenId (some recipient)
    tokenVault := Function.update t.tokenVault nextTokenId (some vaultId)
    tokenUri := Function.update t.tokenUri nextTokenId (some tokenUri) }
  pure (incrementBalances minted vaultId recipient, [.tokenMinted nextTokenId vaultId recipient])

/-- The token's vault, once `owner` is its owner. -/
def loadOwnToken (owner : Address) (tokenId : ℕ) : Result ℕ := do
  let currentOwner ← expect (t.tokenOwner tokenId) "Token does not exist"
  assert (currentOwner = owner) "Not token owner"
  expect (t.tokenVault tokenId) "Token vault binding missing"

def burnAccessToken (owner : Address) (tokenId : ℕ) : Result (Output Tokens) := do
  requireAuth env owner
  let vaultId ← loadOwnToken t owner tokenId
  let debited := decrementBalances t vaultId owner
  pure ({ debited with
      tokenOwner := Function.update debited.tokenOwner tokenId none
      tokenVault := Function.update debited.tokenVault tokenId none
      tokenUri := Function.update debited.tokenUri tokenId none }, [.tokenBurned tokenId owner])

def transfer (source recipient : Address) (tokenId : ℕ) : Result (Output Tokens) := do
  requireAuth env source
  let vaultId ← loadOwnToken t source tokenId
  let moved := incrementBalances (decrementBalances t vaultId source) vaultId recipient
  pure ({ moved with tokenOwner := Function.update moved.tokenOwner tokenId (some recipient) },
    [.tokenTransferred tokenId source recipient])

/-- `has_vault_token` -/
def hasVaultToken (user : Address) (vaultId : ℕ) : Bool := decide (0 < t.vaultTokenBalance vaultId user)

/-! Public keys and their revocation, the in-contract identity links, and the governance of code
upgrades. After an upgrade a run goes on with this code. -/

variable (env : Env)

/-! ## Keys and links -/

section Keys
variable (k : Identities)

def registerPublicKey (user : Address) (publicKey : Bytes) : Result (Output Identities) := do
  requireAuth env user
  assert (k.revokedKey publicKey = false) "Public key has been revoked as compromised"
  pure ({ k with pubKey := Function.update k.pubKey user (some publicKey) }, [])

def revokeKey (user : Address) (oldPublicKey newPublicKey : Bytes) : Result (Output Identities) := do
  requireAuth env user
  assert (newPublicKey ≠ []) "New public key is required"
  assert (oldPublicKey ≠ newPublicKey) "New key must differ from old key"
  assert (k.revokedKey newPublicKey = false) "Cannot rotate to a revoked public key"
  let current ← expect (k.pubKey user) "No registered public key for caller"
  assert (current = oldPublicKey) "Caller does not own the old public key"
  assert (k.revokedKey oldPublicKey = false) "Key already revoked"
  pure ({ k with
      revokedKey := Function.update k.revokedKey oldPublicKey true
      pubKey := Function.update k.pubKey user (some newPublicKey) }, [])

def registerCrossChainIdentity (stellarUser : Address) (evmAddress : Bytes)
    (encryptionPubkey : Option Bytes) : Result (Output Identities) := do
  requireAuth env stellarUser
  assert (evmAddress.length = 42) "Invalid EVM address length"
  let linked := { k with
    evmToStellar := Function.update k.evmToStellar evmAddress (some stellarUser)
    stellarToEvm := Function.update k.stellarToEvm stellarUser (some evmAddress) }
  match encryptionPubkey with
  | none => pure (linked, [])
  | some pubkey => do
    assert (k.revokedKey pubkey = false) "Public key has been revoked as compromised"
    pure ({ linked with
        evmToPubKey := Function.update k.evmToPubKey evmAddress (some pubkey)
        pubKey := Function.update k.pubKey stellarUser (some pubkey) }, [])

def isKeyRevoked (publicKey : Bytes) : Bool := k.revokedKey publicKey

def getPublicKey (user : Address) : Option Bytes := k.pubKey user

def resolveEvmToStellar (evmAddress : Bytes) : Option Address := k.evmToStellar evmAddress

def resolveStellarToEvm (stellarUser : Address) : Option Bytes := k.stellarToEvm stellarUser

/-- Fallback to the linked account's key. -/
def resolveEvmToPublicKey (evmAddress : Bytes) : Option Bytes :=
  match k.evmToPubKey evmAddress with
  | some pubkey => some pubkey
  | none => (resolveEvmToStellar k evmAddress).bind (getPublicKey k)

end Keys

/-! ## Upgrades -/

section Upgrades
variable (u : Upgrades)

/-- The loop of `init_admins`; `processed` are the admins before the current one. -/
def checkAdmins : List Address → List Address → Result Unit
  | _, [] => pure ()
  | processed, admin :: admins => do
    requireAuth env admin
    assert (admin ∉ processed) "Duplicate admin found"
    checkAdmins (processed ++ [admin]) admins

def CURRENT_SCHEMA_VERSION : ℕ := 1

def initAdmins (admins : List Address) (threshold : ℕ) : Result (Output Upgrades) := do
  assert (u.admins.isNone = true) "Admins already initialized"
  checkAdmins env [] admins
  assert (0 < threshold ∧ threshold ≤ admins.length) "Invalid admin threshold"
  pure ({ u with
      admins := some admins
      adminThreshold := threshold
      schemaVersion := CURRENT_SCHEMA_VERSION }, [])

def checkAdmin (admin : Address) : Result Unit :=
  match u.admins with
  | none => .error (.upgrade .NotInitialized)
  | some admins => revertIf (admin ∉ admins) (.upgrade .UnauthorizedAdmin)

def upgradeContract (admin : Address) (newWasmHash : Bytes32) : Result (Output Upgrades) := do
  requireAuth env admin
  checkAdmin u admin
  let pending := u.upgradeProposal.getD { newWasmHash, approvedBy := [] }
  -- a different hash supersedes a stale proposal
  let proposal := if pending.newWasmHash ≠ newWasmHash then { newWasmHash, approvedBy := [] } else pending
  revertIf (admin ∈ proposal.approvedBy) (.upgrade .AlreadyApproved)
  let approved := { proposal with approvedBy := proposal.approvedBy ++ [admin] }
  if u.adminThreshold ≤ approved.approvedBy.length then
    -- `update_current_contract_wasm` traps on a Wasm that is not there
    revertIf (env.wasmUploaded newWasmHash = false) .host
    pure ({ u with upgradeProposal := none }, [.contractUpgraded newWasmHash])
  else pure ({ u with upgradeProposal := some approved }, [])

def migrate (admin : Address) : Result (Output Upgrades) := do
  requireAuth env admin
  checkAdmin u admin
  if CURRENT_SCHEMA_VERSION ≤ u.schemaVersion then pure (u, [])
  else pure ({ u with schemaVersion := CURRENT_SCHEMA_VERSION }, [])

end Upgrades
end ChainGuard.Soroban
