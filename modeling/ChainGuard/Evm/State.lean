import ChainGuard.Evm.Primitives

/-! The storage of `SpooVault`, grouped by what is written together: an entry point returns the
groups it writes and the events it emits, and everything else is unchanged by construction.
A field's default is the value of untouched storage. -/
namespace ChainGuard.Evm
set_option autoImplicit false

/-! ## Governance: vaults, guardians, invites and the proposals of `SpooVaultAdminLogic` -/

structure Vault where
  creator : Address := 0
  id : ℕ := 0
  isActive : Bool := false
  name : Bytes := []
  description : Bytes := []
  guardians : List Address := []
  approvalThreshold : ℕ := 0
  createdAt : ℕ := 0

structure GuardianInvite where
  guardian : Address := 0
  vaultId : ℕ := 0
  accepted : Bool := false
  expiresAt : ℕ := 0

/-- `GuardianRemovalProposal` and `ThresholdUpdateProposal`, which differ in their target only. -/
structure Proposal (κ : Type) [Inhabited κ] where
  vaultId : ℕ := 0
  target : κ := default
  proposedBy : Address := 0
  approvedBy : List Address := []
  executed : Bool := false
  vetoed : Bool := false
  createdAt : ℕ := 0
  expiresAt : ℕ := 0
  queuedAt : ℕ := 0

/-- The proposals of one kind by vault and target, with the approval flags kept beside them. -/
structure Ballots (κ : Type) [Inhabited κ] where
  proposals : ℕ → κ → Proposal κ := fun _ _ => {}
  hasApproved : ℕ → κ → Address → Bool := fun _ _ _ => false

structure Governance where
  vaultIdCounter : ℕ := 0
  vaults : ℕ → Vault := fun _ => {}
  isGuardian : ℕ → Address → Bool := fun _ _ => false
  guardianInvites : Address → ℕ → GuardianInvite := fun _ _ => {}
  userInviteVaultIds : Address → List ℕ := fun _ => []
  /-- `guardianRemovalProposals` with `hasApprovedRemoval` -/
  removals : Ballots Address := {}
  /-- `thresholdUpdateProposals` with `hasApprovedThreshold` -/
  thresholds : Ballots ℕ := {}

/-! ## Release: proof of life, block history, keepers and the VRF store -/

structure VaultReleaseState where
  emergencyMode : Bool := false
  inactivityPeriod : ℕ := 0
  lastProofOfLife : ℕ := 0
  lastProofOfLifeBlock : ℕ := 0
  targetBlocks : ℕ := 0

structure KeeperAuthorization where
  keeper : Address := 0
  expiresAt : ℕ := 0

/-- `EmergencyVrfLogic.Store` -/
structure VrfStore where
  coordinator : Address := 0
  keyHash : Bytes32 := 0
  subscriptionId : ℕ := 0
  callbackGasLimit : ℕ := 0
  minimumRequestConfirmations : ℕ := 0
  unlockAt : ℕ → ℕ := fun _ => 0
  unlockBlock : ℕ → ℕ := fun _ => 0
  requestIdByVault : ℕ → ℕ := fun _ => 0
  vaultIdByRequestId : ℕ → ℕ := fun _ => 0
  jitterWindow : ℕ → ℕ := fun _ => 0
  epoch : ℕ → ℕ := fun _ => 0
  epochByRequestId : ℕ → ℕ := fun _ => 0

structure Release where
  vaultReleaseStates : ℕ → VaultReleaseState := fun _ => {}
  blockHistoryHead : ℕ := 0
  blockTimestamps : ℕ → ℕ := fun _ => 0
  blockHistoryCount : ℕ := 0
  vaultBeneficiary : ℕ → Address := fun _ => 0
  keeperAuthorizations : ℕ → KeeperAuthorization := fun _ => {}
  keeperAuthNonces : ℕ → ℕ := fun _ => 0
  vrf : VrfStore := {}

/-! ## Documents and their shares -/

inductive AccessLevel
  | READ
  | READ_WRITE
  | ADMIN
  deriving DecidableEq, Repr

inductive ReleaseCondition
  | ANYTIME
  | LIVE_ONLY
  | EMERGENCY_ONLY
  | POST_DEATH_ONLY
  deriving DecidableEq, Repr

structure Document where
  id : ℕ := 0
  vaultId : ℕ := 0
  encryptedMetadata : Bytes := []
  ipfsHash : Bytes := []
  uploadedBy : Address := 0
  uploadedAt : ℕ := 0
  requiredAccess : AccessLevel := .READ

structure ReshareSession where
  startedAt : ℕ := 0
  deadline : ℕ := 0
  submittedCount : ℕ := 0
  active : Bool := false

structure Documents where
  documentIdCounter : ℕ := 0
  documents : ℕ → Document := fun _ => {}
  documentReleaseCondition : ℕ → ReleaseCondition := fun _ => .ANYTIME
  encryptedGuardianShares : ℕ → Address → Bytes := fun _ _ => []
  guardianShareCommitments : ℕ → Address → Bytes32 := fun _ _ => 0
  documentVssCommitments : ℕ → List Bytes32 := fun _ => []
  fheGuardianShares : ℕ → Address → Bytes := fun _ _ => []
  reshareSessions : ℕ → ReshareSession := fun _ => {}
  shareEpoch : ℕ → ℕ := fun _ => 0
  zeroShareCommitments : ℕ → ℕ → Address → List Bytes32 := fun _ _ _ => []
  zeroShareSubmitted : ℕ → ℕ → Address → Bool := fun _ _ _ => false

/-! ## Access requests and grants -/

inductive RequestStatus
  | PENDING
  | APPROVED
  | REJECTED
  | EXPIRED
  deriving DecidableEq, Repr

structure AccessRequest where
  requestId : ℕ := 0
  documentId : ℕ := 0
  requester : Address := 0
  approvedBy : List Address := []
  status : RequestStatus := .PENDING
  expiresAt : ℕ := 0
  createdAt : ℕ := 0

structure Requests where
  requestIdCounter : ℕ := 0
  accessRequests : ℕ → AccessRequest := fun _ => {}
  hasApprovedRequest : ℕ → Address → Bool := fun _ _ => false
  latestRequestId : ℕ → Address → ℕ := fun _ _ => 0
  beneficiaryKeyShares : ℕ → Address → Bytes := fun _ _ => []
  fheBeneficiaryShares : ℕ → Address → Bytes := fun _ _ => []
  fheRequestAccumulator : ℕ → Bytes := fun _ => []
  fheAccumulatorCount : ℕ → ℕ := fun _ => 0

structure Grants where
  hasAccess : ℕ → Address → Bool := fun _ _ => false
  userAccessLevel : ℕ → Address → AccessLevel := fun _ _ => .READ
  vaultAccessVersion : ℕ → Address → ℕ := fun _ _ => 0
  documentAccessVersion : ℕ → Address → ℕ := fun _ _ => 0
  documentRevocationNonce : ℕ → Address → ℕ := fun _ _ => 0
  crossChainRevocationEnabled : ℕ → Bool := fun _ => false

/-! ## Tokens, keys and accounts -/

structure Tokens (L : Type) where
  tokenIdCounter : ℕ := 0
  ledger : L
  tokenURIs : ℕ → Bytes := fun _ => []
  tokenVaultMapping : ℕ → ℕ := fun _ => 0
  ownedVaultTokenBalance : Address → ℕ → ℕ := fun _ _ => 0
  activeTokenSupply : ℕ := 0

structure GuardianBLSKeyInfo where
  publicKey : Bytes := []
  proofOfPossession : Bytes := []
  registered : Bool := false
  registeredAt : ℕ := 0

structure Keys where
  userPublicKeys : Address → Bytes := fun _ => []
  revokedKeyHashes : Bytes32 → Bool := fun _ => false
  keyRotationCount : Address → ℕ := fun _ => 0
  revokedNonces : Address → ℕ → Bool := fun _ _ => false
  guardianBLSKeys : ℕ → Address → GuardianBLSKeyInfo := fun _ _ => {}

structure Accounts where
  erc6551Registry : Address := 0
  tbaImplementation : Address := 0

/-! ## Events -/

inductive Event
  | PublicKeyRegistered (user : Address) (publicKey : Bytes)
  | KeyRevoked (user : Address) (oldPublicKey newPublicKey : Bytes) (rotationCount : ℕ)
  | DelegationRevoked (guardian : Address) (nonce : ℕ)
  | GuardianBLSKeyRegistered (vaultId : ℕ) (guardian : Address) (blsPublicKey : Bytes)
  | VaultCreated (vaultId : ℕ) (creator : Address) (name : Bytes)
  | GuardianAdded (vaultId : ℕ) (guardian : Address)
  | GuardianRemoved (vaultId : ℕ) (guardian : Address)
  | GuardianRemovalProposed (vaultId : ℕ) (guardian proposedBy : Address)
  | GuardianRemovalApproved (vaultId : ℕ) (guardian approver : Address)
  | ThresholdUpdateProposed (vaultId newThreshold : ℕ) (proposedBy : Address)
  | ThresholdUpdateApproved (vaultId newThreshold : ℕ) (approver : Address)
  | VaultReconfigurationQueued (vaultId : ℕ) (guardianRemoved : Address) (newThreshold eta : ℕ)
  | VaultReconfigurationCanceled (vaultId : ℕ) (guardianRemoved : Address) (newThreshold : ℕ)
      (canceledBy : Address)
  | VaultReconfigurationExecuted (vaultId : ℕ) (guardianRemoved : Address) (newThreshold : ℕ)
  | VaultReleaseConfigured (vaultId inactivityPeriod : ℕ)
  | ProofOfLifeRecorded (vaultId : ℕ) (owner : Address) (timestamp : ℕ) (vaultGid : Bytes)
  | ProofOfLifeRelayed (vaultId : ℕ) (owner keeper : Address) (timestamp : ℕ)
  | KeeperAuthorized (vaultId : ℕ) (owner keeper : Address) (expiresAt : ℕ)
  | KeeperRevoked (vaultId : ℕ) (owner : Address)
  | EmergencyModeUpdated (vaultId : ℕ) (enabled : Bool)
  | BeneficiarySet (vaultId : ℕ) (beneficiary : Address)
  | VrfConfigured (coordinator : Address) (keyHash : Bytes32) (subscriptionId : ℕ)
  | EmergencyJitterWindowSet (vaultId jitterWindow : ℕ)
  | EmergencyUnlockDelayRequested (vaultId requestId : ℕ)
  | EmergencyUnlockScheduled (vaultId unlockAt jitterSeconds unlockBlock : ℕ)
  | DocumentAdded (documentId vaultId : ℕ) (ipfsHash : Bytes)
  | DocumentReleaseConditionSet (documentId : ℕ) (condition : ReleaseCondition)
  | GuardianSharesSaved (documentId : ℕ)
  | FheGuardianSharesSaved (documentId count : ℕ)
  | VSSCommitmentsUpdated (documentId epoch : ℕ) (commitments : List Bytes32)
  | ShareRefreshStarted (documentId epoch deadline : ℕ)
  | ZeroShareCommitmentSubmitted (documentId epoch : ℕ) (guardian : Address) (degree : ℕ)
  | SharesRefreshed (documentId epoch : ℕ)
  | AccessRequested (requestId documentId : ℕ) (requester : Address)
  | AccessApproved (requestId : ℕ) (approver : Address)
  | DelegatedApprovalSubmitted (requestId : ℕ) (guardian delegate : Address)
  | ShareValidated (requestId : ℕ) (guardian : Address) (commitment : Bytes32)
  | ShareSubmittedForBeneficiary (requestId : ℕ) (guardian : Address) (encryptedShare : Bytes)
  | FheShareSubmitted (requestId : ℕ) (guardian : Address)
  | FheSharesAggregated (requestId documentId : ℕ) (requester : Address) (aggregateCiphertext : Bytes)
  | BLSAccessApproved (requestId vaultId guardianCount : ℕ) (aggregatedSignature : Bytes)
  | AccessGranted (requestId documentId : ℕ) (requester : Address)
  | AccessRevoked (documentId : ℕ) (user : Address)
  | CrossChainRevocationBroadcast (vaultGID : Bytes32) (documentId : ℕ) (targetUser : Address) (nonce : ℕ)
  | RevokeAccess (vaultGID : Bytes32) (documentId : ℕ) (targetUser : Address) (nonce : ℕ)
  | NFTMinted (tokenId : ℕ) (recipient : Address) (vaultId : ℕ)
  | NFTBurned (tokenId : ℕ)
  deriving DecidableEq, Repr

/-- What a function returns or writes, with the events it emits in order. -/
abbrev Output (α : Type) := α × List Event

/-! ## The whole storage -/

/-- What a guarded call still has to do after its external call returns. -/
inductive Frame
  | mintAccessToken (tokenId : ℕ) (recipient : Address) (vaultId : ℕ) (tokenURIValue : Bytes)
  | setEmergencyMode (vaultId epoch : ℕ)
  deriving DecidableEq, Repr

/-- The reentrancy lock is entered exactly while a frame is open. -/
structure State (L : Type) where
  governance : Governance := {}
  release : Release := {}
  documents : Documents := {}
  requests : Requests := {}
  grants : Grants := {}
  tokens : Tokens L
  keys : Keys := {}
  accounts : Accounts := {}
  vrfDeployer : Address
  frame : Option Frame := none
  /-- The events of the last call. -/
  logs : List Event := []

/-- The storage after `constructor()`. -/
def State.deployed {L : Type} (nft : ERC721 L) (deployer : Address) : State L :=
  { tokens := { ledger := nft.deployed }, vrfDeployer := deployer }

/-! Vault passes: the `_update` hook with its balance and version accounting, and the entry
points that go through it. `mintAccessToken` calls the receiver between two writes and is
split there; the other transfers have nothing left to write after the call. -/
open Guarded
variable {L : Type} (nft : ERC721 L) (env : Env) (g : Governance)

/-- `_ownsVaultToken` -/
def ownsVaultToken (t : Tokens L) (user : Address) (vaultId : ℕ) : Bool :=
  decide (0 < t.ownedVaultTokenBalance user vaultId)

/-! ## The `_update` hook -/

/-- A mint counts into the supply; otherwise the previous owner's balance goes down. -/
def debitOwner (t : Tokens L) (previousOwner : Address) (vaultId : ℕ) : Tokens L :=
  if previousOwner = 0 then { t with activeTokenSupply := t.activeTokenSupply + 1 }
  else if vaultId ≠ 0 ∧ 0 < t.ownedVaultTokenBalance previousOwner vaultId then
    { t with
      ownedVaultTokenBalance := Mapping.set₂ t.ownedVaultTokenBalance previousOwner vaultId
        (t.ownedVaultTokenBalance previousOwner vaultId - 1) }
  else t

/-- A burn counts out of the supply; otherwise the recipient's balance goes up. -/
def creditRecipient (t : Tokens L) (recipient : Address) (vaultId : ℕ) : Tokens L :=
  if recipient = 0 then { t with activeTokenSupply := t.activeTokenSupply - 1 }
  else if vaultId ≠ 0 then
    { t with
      ownedVaultTokenBalance := Mapping.set₂ t.ownedVaultTokenBalance recipient vaultId
        (t.ownedVaultTokenBalance recipient vaultId + 1) }
  else t

/-- A first recipient starts at version 1. -/
def openVersion (a : Grants) (recipient : Address) (vaultId : ℕ) : Grants :=
  if recipient ≠ 0 ∧ vaultId ≠ 0 ∧ a.vaultAccessVersion vaultId recipient = 0 then
    { a with vaultAccessVersion := Mapping.set₂ a.vaultAccessVersion vaultId recipient 1 }
  else a

def bumpVersion (a : Grants) (previousOwner : Address) (vaultId balance : ℕ) : Grants :=
  if previousOwner ≠ 0 ∧ vaultId ≠ 0 ∧ balance = 0 then
    { a with
      vaultAccessVersion := Mapping.set₂ a.vaultAccessVersion vaultId previousOwner
        (a.vaultAccessVersion vaultId previousOwner + 1) }
  else a

/-- `_update`; also the owner before it. -/
def updateToken (t : Tokens L) (a : Grants) (recipient : Address) (tokenId : ℕ) (auth : Address) :
    Result ((Tokens L × Grants) × Address) := do
  let previousOwner := nft.ownerOf t.ledger tokenId
  let ledger ← nft.update t.ledger recipient tokenId auth
  let vaultId := t.tokenVaultMapping tokenId
  let moved := creditRecipient (debitOwner { t with ledger } previousOwner vaultId) recipient vaultId
  -- read after all balance changes, so a transfer to oneself never sees a zero balance
  let versions := bumpVersion (openVersion a recipient vaultId) previousOwner vaultId
    (moved.ownedVaultTokenBalance previousOwner vaultId)
  pure ((moved, versions), previousOwner)

/-! ## Entry points -/

variable (t : Tokens L) (a : Grants)

/-- `mintAccessToken` up to the receiver's hook. -/
def mintAccessToken (vaultId : ℕ) (recipient : Address) (tokenURIValue : Bytes) :
    Result ((Tokens L × Grants) × Frame) := do
  revertIf ((g.vaults vaultId).isActive = false) .VaultNotActive
  revertIf (g.isGuardian vaultId env.sender = false) .OnlyGuardian
  let tokenId := t.tokenIdCounter + 1
  let numbered := { t with
    tokenIdCounter := tokenId
    tokenVaultMapping := Function.update t.tokenVaultMapping tokenId vaultId }
  revertIf (recipient = 0) .ERC721InvalidReceiver
  let (minted, previousOwner) ← updateToken nft numbered a recipient tokenId 0
  revertIf (previousOwner ≠ 0) .ERC721InvalidSender
  pure (minted, .mintAccessToken tokenId recipient vaultId tokenURIValue)

/-- `mintAccessToken` from the receiver's answer on. -/
def accessTokenMinted (tokenId : ℕ) (recipient : Address) (vaultId : ℕ) (tokenURIValue : Bytes) :
    Output (Tokens L) :=
  ({ t with tokenURIs := Function.update t.tokenURIs tokenId tokenURIValue },
    [.NFTMinted tokenId recipient vaultId])

/-- `_isTokenOwnerOrApproved` -/
def isTokenOwnerOrApproved (owner spender : Address) (tokenId : ℕ) : Bool :=
  spender == owner || nft.getApproved t.ledger tokenId == spender ||
    nft.isApprovedForAll t.ledger owner spender

def burnAccessToken (tokenId : ℕ) : Result (Output (Tokens L × Grants)) := do
  let owner := nft.ownerOf t.ledger tokenId
  revertIf (owner = 0) .ERC721NonexistentToken
  revertIf (!isTokenOwnerOrApproved nft t owner env.sender tokenId) .NotOwnerOrApproved
  let ((burned, versions), _) ← updateToken nft t a 0 tokenId 0
  pure (({ burned with
      tokenVaultMapping := Function.update burned.tokenVaultMapping tokenId 0
      tokenURIs := Function.update burned.tokenURIs tokenId [] }, versions),
    [.NFTBurned tokenId])

/-- `transferFrom`, and `safeTransferFrom` up to the receiver's hook. -/
def transferFrom (source recipient : Address) (tokenId : ℕ) : Result (Output (Tokens L × Grants)) := do
  revertIf (recipient = 0) .ERC721InvalidReceiver
  let (moved, previousOwner) ← updateToken nft t a recipient tokenId env.sender
  revertIf (previousOwner ≠ source) .ERC721IncorrectOwner
  pure (moved, [])

def approveToken (recipient : Address) (tokenId : ℕ) : Result (Output (Tokens L × Grants)) := do
  let ledger ← nft.approve t.ledger env.sender recipient tokenId
  pure (({ t with ledger }, a), [])

def setApprovalForAll (operator : Address) (approved : Bool) : Result (Output (Tokens L × Grants)) := do
  let ledger ← nft.setApprovalForAll t.ledger env.sender operator approved
  pure (({ t with ledger }, a), [])

end ChainGuard.Evm
