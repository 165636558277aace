import ChainGuard.Evm.AdminLogic

/-! Proof of life, the median block interval, keepers, `EmergencyVrfLogic`, and the release
condition of a document. `setEmergencyMode` calls the VRF coordinator between two writes: it
is split there, and what remains to do is a frame. -/
namespace ChainGuard.Evm
open Guarded
set_option autoImplicit false

def BLOCK_HISTORY_SIZE : ℕ := 256
def DEFAULT_BLOCK_INTERVAL : ℕ := 12
def EMERGENCY_UNLOCK_BASE_DELAY : ℕ := minutes 10
def DEFAULT_EMERGENCY_JITTER_WINDOW : ℕ := hours 1
def MIN_JITTER_WINDOW : ℕ := minutes 5
def MAX_JITTER_WINDOW : ℕ := days 7
def MIN_EMERGENCY_UNLOCK_BLOCK_DELTA : ℕ := 256
def EMERGENCY_SECONDS_PER_BLOCK : ℕ := 2

variable (chain : Chain) (env : Env) (g : Governance) (r : Release)

/-! ## Block history -/

def recordBlockTimestamp : Release :=
  { r with
    blockTimestamps := Function.update r.blockTimestamps r.blockHistoryHead env.timestamp
    blockHistoryHead := (r.blockHistoryHead + 1) % BLOCK_HISTORY_SIZE
    blockHistoryCount :=
      if r.blockHistoryCount < BLOCK_HISTORY_SIZE then r.blockHistoryCount + 1 else r.blockHistoryCount }

/-- The recorded timestamps, oldest first. -/
def blockTimestampHistory : List ℕ :=
  let start := (r.blockHistoryHead + BLOCK_HISTORY_SIZE - r.blockHistoryCount) % BLOCK_HISTORY_SIZE
  (List.range r.blockHistoryCount).map fun i => r.blockTimestamps ((start + i) % BLOCK_HISTORY_SIZE)

def getMedianBlockInterval : ℕ :=
  if r.blockHistoryCount < 2 then DEFAULT_BLOCK_INTERVAL
  else
    let timestamps := (blockTimestampHistory r).insertionSort (· ≤ ·)
    let intervals := (List.zipWith (fun later earlier => later - earlier) timestamps.tail timestamps).insertionSort (· ≤ ·)
    let intervalCount := r.blockHistoryCount - 1
    let medianInterval :=
      if intervalCount % 2 = 0 then
        (intervals.getD (intervalCount / 2 - 1) 0 + intervals.getD (intervalCount / 2) 0) / 2
      else intervals.getD (intervalCount / 2) 0
    if medianInterval = 0 then 1 else medianInterval

/-! ## Proof of life -/

/-- `Strings.toHexString(address)` -/
def toHexString (a : Address) : Bytes :=
  let digits := Nat.toDigits 16 a.toNat
  ascii "0x" ++ (List.replicate (40 - digits.length) '0' ++ digits).map fun c => UInt8.ofNat c.toNat

def vaultGidString (vaultId : ℕ) : Bytes :=
  ascii (toString chain.chainId) ++ ascii ":" ++ toHexString chain.self ++ ascii ":" ++
    ascii (toString vaultId)

/-- The release state `createVault` sets. -/
def openVaultRelease (vaultId : ℕ) : Release :=
  { r with
    vaultReleaseStates := Function.update r.vaultReleaseStates vaultId
      { emergencyMode := false, inactivityPeriod := days 30, lastProofOfLife := uint40 env.timestamp,
        lastProofOfLifeBlock := uint40 env.number,
        targetBlocks := days 30 / getMedianBlockInterval r } }

def configureVaultRelease (vaultId inactivityPeriod : ℕ) : Result (Output Release) := do
  revertIf ((g.vaults vaultId).id = 0) .VaultNotExist
  revertIf ((g.vaults vaultId).creator ≠ env.sender) .OnlyVaultCreator
  revertIf ((g.vaults vaultId).isActive = false) .VaultNotActive
  revertIf (inactivityPeriod < days 1 ∨ days 365 < inactivityPeriod) .InvalidInactivityPeriod
  pure ({ r with
      vaultReleaseStates := Function.update r.vaultReleaseStates vaultId
        { r.vaultReleaseStates vaultId with
          lastProofOfLife := uint40 env.timestamp, lastProofOfLifeBlock := uint40 env.number,
          inactivityPeriod := uint40 inactivityPeriod,
          targetBlocks := inactivityPeriod / getMedianBlockInterval r } },
    [.VaultReleaseConfigured vaultId inactivityPeriod])

def recordProofOfLife (vaultId : ℕ) : Output Release :=
  (recordBlockTimestamp env { r with
      vaultReleaseStates := Function.update r.vaultReleaseStates vaultId
        { r.vaultReleaseStates vaultId with
          lastProofOfLife := uint40 env.timestamp, lastProofOfLifeBlock := uint40 env.number } },
    [.ProofOfLifeRecorded vaultId (g.vaults vaultId).creator env.timestamp (vaultGidString chain vaultId)])

def proveLife (vaultId : ℕ) : Result (Output Release) := do
  revertIf ((g.vaults vaultId).id = 0) .VaultNotExist
  revertIf ((g.vaults vaultId).creator ≠ env.sender) .OnlyVaultCreator
  revertIf ((g.vaults vaultId).isActive = false) .VaultNotActive
  pure (recordProofOfLife chain env g r vaultId)

def KEEPER_AUTHORIZATION_TYPEHASH : Bytes32 :=
  chain.keccak256 (ascii "KeeperAuthorization(uint256 vaultId,address keeper,uint256 expiresAt,uint256 nonce)")

def authorizeKeeperBySig (vaultId : ℕ) (keeper : Address) (expiresAt : ℕ) (signature : Bytes) :
    Result (Output Release) := do
  revertIf ((g.vaults vaultId).id = 0) .VaultNotExist
  revertIf ((g.vaults vaultId).isActive = false) .VaultNotActive
  revertIf (expiresAt ≤ env.timestamp) .KeeperExpiryInPast
  let nonce := r.keeperAuthNonces vaultId
  let structHash := chain.keccak256 (abiEncode
    [(KEEPER_AUTHORIZATION_TYPEHASH chain).toNat, vaultId, keeper.toNat, expiresAt, nonce])
  let signer ← match chain.tryRecover (hashTypedDataV4 chain structHash) signature with
    | some signer => pure signer
    | none => .error .ECDSAInvalidSignature
  revertIf (signer ≠ (g.vaults vaultId).creator) .InvalidSigner
  pure ({ r with
      keeperAuthNonces := Function.update r.keeperAuthNonces vaultId (nonce + 1)
      keeperAuthorizations := Function.update r.keeperAuthorizations vaultId { keeper, expiresAt } },
    [.KeeperAuthorized vaultId signer keeper expiresAt])

def revokeKeeper (vaultId : ℕ) : Result (Output Release) := do
  revertIf ((g.vaults vaultId).id = 0) .VaultNotExist
  revertIf ((g.vaults vaultId).creator ≠ env.sender) .OnlyVaultCreator
  pure ({ r with keeperAuthorizations := Function.update r.keeperAuthorizations vaultId {} },
    [.KeeperRevoked vaultId env.sender])

def proveLifeByKeeper (vaultId : ℕ) : Result (Output Release) := do
  revertIf ((g.vaults vaultId).id = 0) .VaultNotExist
  revertIf ((g.vaults vaultId).isActive = false) .VaultNotActive
  let authorization := r.keeperAuthorizations vaultId
  revertIf (authorization.keeper ≠ env.sender) .KeeperNotAuthorized
  revertIf (authorization.expiresAt ≤ env.timestamp) .KeeperAuthorizationExpired
  let recorded := recordProofOfLife chain env g r vaultId
  pure (recorded.1,
    recorded.2 ++ [.ProofOfLifeRelayed vaultId (g.vaults vaultId).creator env.sender env.timestamp])

def setBeneficiary (vaultId : ℕ) (beneficiary : Address) : Result (Output Release) := do
  revertIf ((g.vaults vaultId).id = 0) .VaultNotExist
  revertIf ((g.vaults vaultId).creator ≠ env.sender) .OnlyVaultCreator
  revertIf ((g.vaults vaultId).isActive = false) .VaultNotActive
  revertIf (beneficiary = 0) .ZeroAddressBeneficiary
  revertIf (r.vaultBeneficiary vaultId ≠ 0) .BeneficiaryAlreadySet
  pure ({ r with vaultBeneficiary := Function.update r.vaultBeneficiary vaultId beneficiary },
    [.BeneficiarySet vaultId beneficiary])

/-! ## EmergencyVrfLogic -/

/-- `_clear` -/
def VrfStore.clear (vrf : VrfStore) (vaultId : ℕ) : VrfStore :=
  let oldRequestId := vrf.requestIdByVault vaultId
  let unlinked :=
    if oldRequestId ≠ 0 then
      { vrf with
        vaultIdByRequestId := Function.update vrf.vaultIdByRequestId oldRequestId 0
        epochByRequestId := Function.update vrf.epochByRequestId oldRequestId 0
        requestIdByVault := Function.update vrf.requestIdByVault vaultId 0 }
    else vrf
  { unlinked with
    unlockAt := Function.update unlinked.unlockAt vaultId 0
    unlockBlock := Function.update unlinked.unlockBlock vaultId 0 }

/-- `requestUnlock` up to the coordinator call: the new epoch, with the sentinel in place. -/
def VrfStore.requestUnlock (vrf : VrfStore) (vaultId : ℕ) : Result (VrfStore × ℕ) := do
  revertIf (vrf.requestIdByVault vaultId ≠ 0 ∧ vrf.unlockAt vaultId = 0) .VrfRequestAlreadyPending
  let cleared := vrf.clear vaultId
  let epoch := cleared.epoch vaultId + 1
  pure ({ cleared with
      epoch := Function.update cleared.epoch vaultId epoch
      requestIdByVault := Function.update cleared.requestIdByVault vaultId (2 ^ 256 - 1) },
    epoch)

/-- `requestUnlock` from the coordinator's answer on. -/
def VrfStore.requested (vrf : VrfStore) (vaultId epoch requestId : ℕ) : Output VrfStore :=
  ({ vrf with
      requestIdByVault := Function.update vrf.requestIdByVault vaultId requestId
      vaultIdByRequestId := Function.update vrf.vaultIdByRequestId requestId vaultId
      epochByRequestId := Function.update vrf.epochByRequestId requestId epoch },
    [.EmergencyUnlockDelayRequested vaultId requestId])

def VrfStore.fulfill (vrf : VrfStore) (requestId : ℕ) (randomWords : List ℕ) (emergencyMode : Bool) :
    Result (Output VrfStore) := do
  revertIf (vrf.coordinator = 0 ∨ env.sender ≠ vrf.coordinator) .OnlyVrfCoordinator
  revertIf (randomWords.length = 0) .VrfUnknownRequestId
  let vaultId := vrf.vaultIdByRequestId requestId
  revertIf (vaultId = 0 ∨ vrf.requestIdByVault vaultId ≠ requestId) .VrfUnknownRequestId
  revertIf (vrf.epochByRequestId requestId ≠ vrf.epoch vaultId) .VrfUnknownRequestId
  revertIf (emergencyMode = false) .VrfUnknownRequestId
  revertIf (vrf.unlockAt vaultId ≠ 0) .VrfAlreadyFulfilled
  let window :=
    if vrf.jitterWindow vaultId ≠ 0 then vrf.jitterWindow vaultId else DEFAULT_EMERGENCY_JITTER_WINDOW
  revertIf (window = 0) .InvalidJitterWindow
  let jitter := randomWords.headD 0 % window
  let unlockAt := env.timestamp + EMERGENCY_UNLOCK_BASE_DELAY + jitter
  let baseDelayBlocks := EMERGENCY_UNLOCK_BASE_DELAY / EMERGENCY_SECONDS_PER_BLOCK
  let unlockBlock := env.number + baseDelayBlocks + MIN_EMERGENCY_UNLOCK_BLOCK_DELTA +
    jitter / EMERGENCY_SECONDS_PER_BLOCK
  pure ({ vrf with
      unlockAt := Function.update vrf.unlockAt vaultId unlockAt
      unlockBlock := Function.update vrf.unlockBlock vaultId unlockBlock },
    [.EmergencyUnlockScheduled vaultId unlockAt jitter unlockBlock])

def VrfStore.isReleased (vrf : VrfStore) (vaultId : ℕ) : Bool :=
  vrf.unlockAt vaultId != 0 && vrf.unlockBlock vaultId != 0 &&
    decide (vrf.unlockAt vaultId ≤ env.timestamp) && decide (vrf.unlockBlock vaultId ≤ env.number)

/-! ## Emergency mode -/

/-- `setEmergencyMode`; with a coordinator set, enabling leaves a frame behind. -/
def setEmergencyMode (vaultId : ℕ) (enabled : Bool) : Result (Output (Release × Option Frame)) := do
  revertIf ((g.vaults vaultId).id = 0) .VaultNotExist
  revertIf ((g.vaults vaultId).creator ≠ env.sender) .OnlyVaultCreator
  revertIf ((g.vaults vaultId).isActive = false) .VaultNotActive
  let toggled := { r with
    vaultReleaseStates := Function.update r.vaultReleaseStates vaultId
      { r.vaultReleaseStates vaultId with emergencyMode := enabled } }
  if r.vrf.coordinator ≠ 0 ∧ enabled = true then do
    let (vrf, epoch) ← r.vrf.requestUnlock vaultId
    pure (({ toggled with vrf }, some (.setEmergencyMode vaultId epoch)), [])
  else
    let vrf := if r.vrf.coordinator ≠ 0 then r.vrf.clear vaultId else r.vrf
    pure (({ toggled with vrf }, none), [.EmergencyModeUpdated vaultId enabled])

/-- `setEmergencyMode` from the coordinator's answer on. -/
def emergencyModeRequested (vaultId epoch requestId : ℕ) : Output Release :=
  let requested := r.vrf.requested vaultId epoch requestId
  ({ r with vrf := requested.1 }, requested.2 ++ [.EmergencyModeUpdated vaultId true])

def configureVrf (vrfDeployer coordinator : Address) (keyHash : Bytes32)
    (subscriptionId callbackGasLimit minimumRequestConfirmations : ℕ) : Result (Output Release) := do
  revertIf (env.sender ≠ vrfDeployer) .OnlyVrfCoordinator
  pure ({ r with
      vrf := { r.vrf with
        coordinator, keyHash, subscriptionId, callbackGasLimit, minimumRequestConfirmations } },
    [.VrfConfigured coordinator keyHash subscriptionId])

def setEmergencyJitterWindow (vaultId jitterWindow : ℕ) : Result (Output Release) := do
  revertIf ((g.vaults vaultId).id = 0) .VaultNotExist
  revertIf ((g.vaults vaultId).creator ≠ env.sender) .OnlyVaultCreator
  revertIf (jitterWindow < MIN_JITTER_WINDOW ∨ MAX_JITTER_WINDOW < jitterWindow) .InvalidJitterWindow
  pure ({ r with
      vrf := { r.vrf with jitterWindow := Function.update r.vrf.jitterWindow vaultId jitterWindow } },
    [.EmergencyJitterWindowSet vaultId jitterWindow])

def rawFulfillRandomWords (requestId : ℕ) (randomWords : List ℕ) : Result (Output Release) := do
  let vaultId := r.vrf.vaultIdByRequestId requestId
  let emergencyMode := vaultId != 0 && (r.vaultReleaseStates vaultId).emergencyMode
  let (vrf, events) ← r.vrf.fulfill env requestId randomWords emergencyMode
  pure ({ r with vrf }, events)

/-! ## Release condition -/

def isPostDeathUnlocked (vaultId : ℕ) : Result Bool :=
  let state := r.vaultReleaseStates vaultId
  if state.inactivityPeriod = 0 then pure false
  else do
    -- the sum of two `uint40` is a checked `uint40`
    revertIf (2 ^ 40 ≤ state.lastProofOfLife + state.inactivityPeriod) .Panic
    let timestampExpired := decide (state.lastProofOfLife + state.inactivityPeriod ≤ env.timestamp)
    let blocksElapsed := decide (state.lastProofOfLifeBlock + state.targetBlocks ≤ env.number)
    pure (timestampExpired && blocksElapsed)

def isReleaseConditionSatisfied (d : Documents) (documentId : ℕ) : Result Bool :=
  let vaultId := (d.documents documentId).vaultId
  match d.documentReleaseCondition documentId with
  | .ANYTIME => pure true
  | .LIVE_ONLY => do
    let postDeathUnlocked ← isPostDeathUnlocked env r vaultId
    pure !postDeathUnlocked
  | .EMERGENCY_ONLY => do
    let postDeathUnlocked ← isPostDeathUnlocked env r vaultId
    if postDeathUnlocked then pure true
    else if !(r.vaultReleaseStates vaultId).emergencyMode then pure false
    else if r.vrf.coordinator ≠ 0 then pure (r.vrf.isReleased env vaultId)
    else pure true
  | .POST_DEATH_ONLY => isPostDeathUnlocked env r vaultId

/-! Documents, their guardian shares and the proactive refresh of those shares, and the access
versions that tie a grant to its document and vault. -/

/-! ## Access versions -/

/-- `_currentAccessVersion` -/
def currentAccessVersion (a : Grants) (vaultId : ℕ) (user : Address) : ℕ :=
  let version := a.vaultAccessVersion vaultId user
  if version = 0 then 1 else version

/-- `_grantAccess` -/
def grantAccess (d : Documents) (a : Grants) (requestId documentId : ℕ) (user : Address) : Output Grants :=
  let document := d.documents documentId
  ({ a with
      hasAccess := Mapping.set₂ a.hasAccess documentId user true
      documentAccessVersion := Mapping.set₂ a.documentAccessVersion documentId user
        (currentAccessVersion a document.vaultId user)
      userAccessLevel := Mapping.set₂ a.userAccessLevel documentId user document.requiredAccess },
    [.AccessGranted requestId documentId user])

variable (chain : Chain) (env : Env) (g : Governance) (d : Documents) (a : Grants)

def vaultGID (vaultId : ℕ) : Bytes32 :=
  chain.keccak256 (bytesBE 20 chain.self.toNat ++ word vaultId)

def revokeAccess (documentId : ℕ) (user : Address) : Result (Output Grants) := do
  revertIf ((d.documents documentId).id = 0) .DocumentNotExist
  let vaultId := (d.documents documentId).vaultId
  revertIf (g.isGuardian vaultId env.sender = false) .OnlyGuardian
  let revoked := { a with
    hasAccess := Mapping.set₂ a.hasAccess documentId user false
    userAccessLevel := Mapping.set₂ a.userAccessLevel documentId user .READ
    documentAccessVersion := Mapping.set₂ a.documentAccessVersion documentId user 0
    vaultAccessVersion := Mapping.set₂ a.vaultAccessVersion vaultId user
      (a.vaultAccessVersion vaultId user + 1) }
  if a.crossChainRevocationEnabled vaultId then
    let nonce := a.documentRevocationNonce documentId user + 1
    let gid := vaultGID chain vaultId
    pure ({ revoked with
        documentRevocationNonce := Mapping.set₂ a.documentRevocationNonce documentId user nonce },
      [.AccessRevoked documentId user, .CrossChainRevocationBroadcast gid documentId user nonce,
        .RevokeAccess gid documentId user nonce])
  else pure (revoked, [.AccessRevoked documentId user])

def setCrossChainRevocationEnabled (vaultId : ℕ) (enabled : Bool) : Result (Output Grants) := do
  revertIf ((g.vaults vaultId).id = 0) .VaultNotExist
  revertIf ((g.vaults vaultId).creator ≠ env.sender) .OnlyVaultCreator
  pure ({ a with
      crossChainRevocationEnabled := Function.update a.crossChainRevocationEnabled vaultId enabled }, [])

/-! ## Adding documents -/

/-- Store one guardian's encrypted share and, unless it is empty, its commitment. -/
def saveGuardianShare (documentId : ℕ) (d : Documents) (guardian : Address) (share : Bytes) : Documents :=
  { d with
    encryptedGuardianShares := Mapping.set₂ d.encryptedGuardianShares documentId guardian share
    guardianShareCommitments :=
      if 0 < share.length then
        Mapping.set₂ d.guardianShareCommitments documentId guardian (chain.keccak256 share)
      else d.guardianShareCommitments }

/-- The share loop of `_addDocument`; a missing share is an array access out of bounds. -/
def saveGuardianShares (documentId : ℕ) : Documents → List Address → List Bytes → Result Documents
  | d, [], _ => pure d
  | _, _ :: _, [] => .error .Panic
  | d, guardian :: guardiansList, share :: shares =>
    saveGuardianShares documentId (saveGuardianShare chain documentId d guardian share) guardiansList shares

/-- `_addDocument`; the overloads of `addDocument` and `addDocumentWithReleaseCondition` pass
`ANYTIME` and empty lists for what they lack. -/
def addDocument (vaultId : ℕ) (encryptedMetadata ipfsHash : Bytes) (requiredAccess : AccessLevel)
    (releaseCondition : ReleaseCondition) (guardiansList : List Address) (shares : List Bytes) :
    Result (Output (Documents × Grants)) := do
  revertIf ((g.vaults vaultId).isActive = false) .VaultNotActive
  revertIf (g.isGuardian vaultId env.sender = false) .OnlyGuardian
  revertIf (ipfsHash.length = 0) .IPFSHashRequired
  let documentId := d.documentIdCounter + 1
  let stored := { d with
    documentIdCounter := documentId
    documents := Function.update d.documents documentId
      { id := uint64 documentId, vaultId := uint64 vaultId, encryptedMetadata, ipfsHash,
        uploadedBy := env.sender, uploadedAt := uint40 env.timestamp, requiredAccess }
    documentReleaseCondition := Function.update d.documentReleaseCondition documentId releaseCondition }
  let granted := grantAccess stored a 0 documentId env.sender
  let shared ← saveGuardianShares chain documentId stored guardiansList shares
  pure ((shared, granted.1), granted.2 ++
    [.DocumentAdded documentId vaultId ipfsHash, .DocumentReleaseConditionSet documentId releaseCondition] ++
    if 0 < guardiansList.length then [.GuardianSharesSaved documentId] else [])

def setDocumentReleaseCondition (documentId : ℕ) (condition : ReleaseCondition) :
    Result (Output Documents) := do
  revertIf ((d.documents documentId).id = 0) .DocumentNotExist
  revertIf (g.isGuardian (d.documents documentId).vaultId env.sender = false) .OnlyGuardian
  pure ({ d with
      documentReleaseCondition := Function.update d.documentReleaseCondition documentId condition },
    [.DocumentReleaseConditionSet documentId condition])

def saveGuardianSharesFHE (documentId : ℕ) (guardiansList : List Address) (sharesFHE : List Bytes) :
    Result (Output Documents) := do
  revertIf ((d.documents documentId).id = 0) .DocumentNotExist
  let vaultId := (d.documents documentId).vaultId
  revertIf ((g.vaults vaultId).creator ≠ env.sender ∧ g.isGuardian vaultId env.sender = false) .OnlyGuardian
  revertIf (guardiansList.length ≠ sharesFHE.length) .InvalidShareRefreshInput
  let fheGuardianShares := (guardiansList.zip sharesFHE).foldl
    (fun m entry => Mapping.set₂ m documentId entry.1 entry.2) d.fheGuardianShares
  pure ({ d with fheGuardianShares }, [.FheGuardianSharesSaved documentId guardiansList.length])

/-! ## Proactive share refresh -/

def startShareRefresh (documentId duration : ℕ) : Result (Output Documents) := do
  revertIf ((d.documents documentId).id = 0) .DocumentNotExist
  revertIf (g.isGuardian (d.documents documentId).vaultId env.sender = false) .OnlyGuardian
  revertIf ((d.reshareSessions documentId).active = true) .ReshareSessionAlreadyActive
  revertIf (duration < hours 1 ∨ days 7 < duration) .InvalidReshareDuration
  let deadline := env.timestamp + duration
  pure ({ d with
      reshareSessions := Function.update d.reshareSessions documentId
        { startedAt := env.timestamp, deadline, submittedCount := 0, active := true } },
    [.ShareRefreshStarted documentId (d.shareEpoch documentId + 1) deadline])

def submitZeroShareCommitment (documentId : ℕ) (commitments : List Bytes32) :
    Result (Output Documents) := do
  revertIf ((d.documents documentId).id = 0) .DocumentNotExist
  let session := d.reshareSessions documentId
  revertIf (session.active = false) .ReshareSessionNotActive
  revertIf (session.deadline < env.timestamp) .ReshareDeadlineExceeded
  revertIf (g.isGuardian (d.documents documentId).vaultId env.sender = false) .OnlyGuardian
  let epoch := d.shareEpoch documentId + 1
  revertIf (d.zeroShareSubmitted documentId epoch env.sender = true) .ZeroShareAlreadySubmitted
  revertIf (commitments.length < 2 ∨ commitments.headD 0 ≠ 0) .InvalidZeroShareCommitment
  pure ({ d with
      zeroShareSubmitted := Mapping.set₃ d.zeroShareSubmitted documentId epoch env.sender true
      zeroShareCommitments := Mapping.set₃ d.zeroShareCommitments documentId epoch env.sender commitments
      reshareSessions := Function.update d.reshareSessions documentId
        { session with submittedCount := session.submittedCount + 1 } },
    [.ZeroShareCommitmentSubmitted documentId epoch env.sender (commitments.length - 1)])

def setDocumentVSSCommitments (documentId : ℕ) (commitments : List Bytes32) :
    Result (Output Documents) := do
  revertIf ((d.documents documentId).id = 0) .DocumentNotExist
  revertIf (g.isGuardian (d.documents documentId).vaultId env.sender = false) .OnlyGuardian
  revertIf (commitments.length < 2) .InvalidVSSCommitmentUpdate
  pure ({ d with
      documentVssCommitments := Function.update d.documentVssCommitments documentId commitments },
    [.VSSCommitmentsUpdated documentId (d.shareEpoch documentId) commitments])

/-- The loop of `_applyShareRefresh`; `seen` are the guardians before the current one. -/
def refreshGuardianShares (documentId vaultId : ℕ) :
    Documents → List Address → List Address → List Bytes → Result Documents
  | d, _, [], _ => pure d
  | _, _, _ :: _, [] => .error .Panic
  | d, seen, guardian :: guardiansList, share :: newShares => do
    revertIf (g.isGuardian vaultId guardian = false) .InvalidShareRefreshInput
    revertIf (guardian ∈ seen) .InvalidShareRefreshInput
    refreshGuardianShares documentId vaultId (saveGuardianShare chain documentId d guardian share)
      (seen ++ [guardian]) guardiansList newShares

def refreshedCommitments (currentComm newCommitments : List Bytes32) : Result (List Bytes32) :=
  if newCommitments.length = 0 then pure currentComm
  else do
    revertIf (0 < currentComm.length ∧ (newCommitments.length ≠ currentComm.length ∨
      newCommitments.headD 0 ≠ currentComm.headD 0)) .InvalidVSSCommitmentUpdate
    revertIf (currentComm.length = 0 ∧ newCommitments.length < 2) .InvalidVSSCommitmentUpdate
    pure newCommitments

/-- `_applyShareRefresh`; the overload without commitments passes none. -/
def applyShareRefresh (documentId : ℕ) (guardiansList : List Address) (newShares : List Bytes)
    (newCommitments : List Bytes32) : Result (Output Documents) := do
  revertIf ((d.documents documentId).id = 0) .DocumentNotExist
  let session := d.reshareSessions documentId
  revertIf (session.active = false) .ReshareSessionNotActive
  let vaultId := (d.documents documentId).vaultId
  revertIf (g.isGuardian vaultId env.sender = false) .OnlyGuardian
  let vaultGuardians := (g.vaults vaultId).guardians
  revertIf (guardiansList.length ≠ vaultGuardians.length ∨ newShares.length ≠ guardiansList.length)
    .InvalidShareRefreshInput
  let shared ← refreshGuardianShares chain g documentId vaultId d [] guardiansList newShares
  revertIf (session.submittedCount < vaultGuardians.length ∧ env.timestamp ≤ session.deadline)
    .ReshareDeadlineNotReached
  revertIf (session.submittedCount < vaultGuardians.length) .ReshareIncomplete
  let commitments ← refreshedCommitments (d.documentVssCommitments documentId) newCommitments
  let newEpoch := d.shareEpoch documentId + 1
  pure ({ shared with
      documentVssCommitments := Function.update d.documentVssCommitments documentId commitments
      reshareSessions := Function.update d.reshareSessions documentId { session with active := false }
      shareEpoch := Function.update d.shareEpoch documentId newEpoch },
    .SharesRefreshed documentId newEpoch ::
      if 0 < newCommitments.length then [.VSSCommitmentsUpdated documentId newEpoch newCommitments] else [])

end ChainGuard.Evm
