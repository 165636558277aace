import ChainGuard.Library.History
import ChainGuard.Evm.Access

/-! The contract as a transition system. The entry points come in families that write the same
storage; a call is a member of a family, and a transition is a call that did not revert. A
guarded call that handed control to another contract leaves a frame open: until it is
finished only unguarded entry points run. -/
namespace ChainGuard.Evm
open Guarded History
set_option autoImplicit false

variable {L : Type} (chain : Chain) (nft : ERC721 L) (env : Env) (s : State L)

/-! ## Keys and accounts -/

def registerPublicKey (publicKey : Bytes) : Result (Output Keys) := do
  let k := s.keys
  revertIf (k.revokedKeyHashes (chain.keccak256 publicKey) = true) .RevokedPublicKey
  pure ({ k with userPublicKeys := Function.update k.userPublicKeys env.sender publicKey },
    [.PublicKeyRegistered env.sender publicKey])

def revokeKey (oldPublicKey newPublicKey : Bytes) : Result (Output Keys) := do
  let k := s.keys
  let oldHash := chain.keccak256 oldPublicKey
  let newHash := chain.keccak256 newPublicKey
  revertIf (newPublicKey.length = 0) .InvalidNewPublicKey
  revertIf (oldHash = newHash) .InvalidNewPublicKey
  revertIf (k.revokedKeyHashes newHash = true) .RevokedPublicKey
  let currentKey := k.userPublicKeys env.sender
  revertIf (currentKey.length = 0 ∨ chain.keccak256 currentKey ≠ oldHash) .KeyOwnershipProofFailed
  revertIf (k.revokedKeyHashes oldHash = true) .KeyAlreadyRevoked
  -- the rotation count is `unchecked`
  let rotationCount := (k.keyRotationCount env.sender + 1) % 2 ^ 256
  pure ({ k with
      revokedKeyHashes := Function.update k.revokedKeyHashes oldHash true
      userPublicKeys := Function.update k.userPublicKeys env.sender newPublicKey
      keyRotationCount := Function.update k.keyRotationCount env.sender rotationCount },
    [.KeyRevoked env.sender oldPublicKey newPublicKey rotationCount])

def revokeDelegation (nonce : ℕ) : Result (Output Keys) :=
  let k := s.keys
  pure ({ k with revokedNonces := Mapping.set₂ k.revokedNonces env.sender nonce true },
    [.DelegationRevoked env.sender nonce])

def registerGuardianBLSKey (vaultId : ℕ) (blsPublicKey proofOfPossession : Bytes) :
    Result (Output Keys) := do
  let k := s.keys
  revertIf ((s.governance.vaults vaultId).id = 0) .VaultNotExist
  revertIf (s.governance.isGuardian vaultId env.sender = false) .OnlyGuardian
  revertIf (blsPublicKey.length ≠ 48) .InvalidBLSKeyLength
  revertIf (proofOfPossession.length ≠ 96) .InvalidBLSKeyLength
  revertIf (BLS.verifyProofOfPossession chain blsPublicKey proofOfPossession = false)
    .InvalidProofOfPossession
  pure ({ k with
      guardianBLSKeys := Mapping.set₂ k.guardianBLSKeys vaultId env.sender
        { publicKey := blsPublicKey, proofOfPossession, registered := true, registeredAt := env.timestamp } },
    [.GuardianBLSKeyRegistered vaultId env.sender blsPublicKey])

def isKeyRevoked (publicKey : Bytes) : Bool := s.keys.revokedKeyHashes (chain.keccak256 publicKey)

def initializeERC6551 (registry implementation : Address) : Result (Output Accounts) := do
  revertIf (s.accounts.erc6551Registry ≠ 0) .ERC6551AlreadyInitialized
  pure ({ erc6551Registry := registry, tbaImplementation := implementation }, [])

/-! ## Calls by family -/

inductive KeysCall
  | registerPublicKey (publicKey : Bytes)
  | revokeKey (oldPublicKey newPublicKey : Bytes)
  | revokeDelegation (nonce : ℕ)
  | registerGuardianBLSKey (vaultId : ℕ) (blsPublicKey proofOfPossession : Bytes)

inductive GovernanceCall
  | acceptGuardianInvite (vaultId : ℕ)
  | proposeGuardianRemoval (vaultId : ℕ) (guardianToRemove : Address)
  | approveGuardianRemoval (vaultId : ℕ) (guardianToRemove : Address)
  | proposeThresholdUpdate (vaultId newThreshold : ℕ)
  | approveThresholdUpdate (vaultId newThreshold : ℕ)
  | queueVaultReconfiguration (vaultId : ℕ) (guardianToRemove : Address) (newThreshold : ℕ)
  | cancelVaultReconfiguration (vaultId : ℕ) (guardianToRemove : Address) (newThreshold : ℕ)
  | executeVaultReconfiguration (vaultId : ℕ) (guardianToRemove : Address) (newThreshold : ℕ)

inductive ReleaseCall
  | configureVaultRelease (vaultId inactivityPeriod : ℕ)
  | proveLife (vaultId : ℕ)
  | authorizeKeeperBySig (vaultId : ℕ) (keeper : Address) (expiresAt : ℕ) (signature : Bytes)
  | revokeKeeper (vaultId : ℕ)
  | proveLifeByKeeper (vaultId : ℕ)
  | setBeneficiary (vaultId : ℕ) (beneficiary : Address)
  | configureVrf (coordinator : Address) (keyHash : Bytes32)
      (subscriptionId callbackGasLimit minimumRequestConfirmations : ℕ)
  | setEmergencyJitterWindow (vaultId jitterWindow : ℕ)
  | rawFulfillRandomWords (requestId : ℕ) (randomWords : List ℕ)

inductive DocumentCall
  | setDocumentReleaseCondition (documentId : ℕ) (condition : ReleaseCondition)
  | saveGuardianSharesFHE (documentId : ℕ) (guardiansList : List Address) (sharesFHE : List Bytes)
  | startShareRefresh (documentId duration : ℕ)
  | submitZeroShareCommitment (documentId : ℕ) (commitments : List Bytes32)
  | setDocumentVSSCommitments (documentId : ℕ) (commitments : List Bytes32)
  | applyShareRefresh (documentId : ℕ) (guardiansList : List Address) (newShares : List Bytes)
      (newCommitments : List Bytes32)

inductive ApprovalCall
  | approveAccess (requestId : ℕ) (encryptedShareForBeneficiary : Bytes)
  | approveAccessByDelegation (requestId : ℕ) (guardian : Address) (validUntil nonce : ℕ)
      (signature encryptedShareForBeneficiary : Bytes)
  | approveAccessDelegated (requestId : ℕ) (guardian : Address) (validUntil nonce : ℕ)
      (signature encryptedShareForBeneficiary : Bytes)
  | approveAccessFHE (requestId : ℕ) (fheSharePayload : Bytes)
  | approveAccessBLS (requestId : ℕ) (guardianAddresses : List Address)
      (aggregatedSignature aggregatedPublicKey : Bytes) (encryptedSharesForBeneficiary : List Bytes)

inductive GrantCall
  | revokeAccess (documentId : ℕ) (user : Address)
  | setCrossChainRevocationEnabled (vaultId : ℕ) (enabled : Bool)

inductive TokenCall
  | burnAccessToken (tokenId : ℕ)
  | transferFrom (source recipient : Address) (tokenId : ℕ)
  | safeTransferFrom (source recipient : Address) (tokenId : ℕ)
  | approve (recipient : Address) (tokenId : ℕ)
  | setApprovalForAll (operator : Address) (approved : Bool)

/-- The entry points, and the two ways a frame is finished. -/
inductive Call
  | initializeERC6551 (registry implementation : Address)
  | keys (c : KeysCall)
  | createVault (name description : Bytes) (guardians : List Address) (approvalThreshold : ℕ)
  | governance (c : GovernanceCall)
  | release (c : ReleaseCall)
  | setEmergencyMode (vaultId : ℕ) (enabled : Bool)
  | addDocument (vaultId : ℕ) (encryptedMetadata ipfsHash : Bytes) (requiredAccess : AccessLevel)
      (releaseCondition : ReleaseCondition) (guardiansList : List Address) (shares : List Bytes)
  | documents (c : DocumentCall)
  | requestAccess (documentId : ℕ)
  | approval (c : ApprovalCall)
  | grants (c : GrantCall)
  | mintAccessToken (vaultId : ℕ) (recipient : Address) (tokenURIValue : Bytes)
  | tokens (c : TokenCall)
  /-- The receiver's hook returned. -/
  | tokenReceived
  /-- The coordinator returned this request id. -/
  | randomWordsRequested (requestId : ℕ)

/-- The `nonReentrant` entry points. -/
def Call.guarded : Call → Bool
  | .initializeERC6551 .. => false
  | .keys (.revokeKey ..) | .keys (.registerGuardianBLSKey ..) => true
  | .keys _ => false
  | .release (.configureVaultRelease ..) | .release (.proveLife ..) | .release (.setBeneficiary ..) => true
  | .release _ => false
  | .documents (.setDocumentReleaseCondition ..) | .documents (.saveGuardianSharesFHE ..) => true
  | .documents _ => false
  | .tokens (.burnAccessToken ..) => true
  | .tokens _ => false
  | .tokenReceived | .randomWordsRequested .. => false
  | _ => true

/-! ## Execution -/

def execKeys : KeysCall → Result (Output Keys)
  | .registerPublicKey publicKey => registerPublicKey chain env s publicKey
  | .revokeKey oldPublicKey newPublicKey => revokeKey chain env s oldPublicKey newPublicKey
  | .revokeDelegation nonce => revokeDelegation env s nonce
  | .registerGuardianBLSKey vaultId blsPublicKey proofOfPossession =>
    registerGuardianBLSKey chain env s vaultId blsPublicKey proofOfPossession

def execGovernance (g : Governance) : GovernanceCall → Result (Output Governance)
  | .acceptGuardianInvite vaultId => acceptGuardianInvite env g vaultId
  | .proposeGuardianRemoval vaultId guardianToRemove => proposeGuardianRemoval env g vaultId guardianToRemove
  | .approveGuardianRemoval vaultId guardianToRemove => approveGuardianRemoval env g vaultId guardianToRemove
  | .proposeThresholdUpdate vaultId newThreshold => proposeThresholdUpdate env g vaultId newThreshold
  | .approveThresholdUpdate vaultId newThreshold => approveThresholdUpdate env g vaultId newThreshold
  | .queueVaultReconfiguration vaultId guardianToRemove newThreshold =>
    queueVaultReconfiguration env g vaultId guardianToRemove newThreshold
  | .cancelVaultReconfiguration vaultId guardianToRemove newThreshold =>
    cancelVaultReconfiguration env g vaultId guardianToRemove newThreshold
  | .executeVaultReconfiguration vaultId guardianToRemove newThreshold =>
    executeVaultReconfiguration env g vaultId guardianToRemove newThreshold

def execRelease : ReleaseCall → Result (Output Release)
  | .configureVaultRelease vaultId inactivityPeriod =>
    configureVaultRelease env s.governance s.release vaultId inactivityPeriod
  | .proveLife vaultId => proveLife chain env s.governance s.release vaultId
  | .authorizeKeeperBySig vaultId keeper expiresAt signature =>
    authorizeKeeperBySig chain env s.governance s.release vaultId keeper expiresAt signature
  | .revokeKeeper vaultId => revokeKeeper env s.governance s.release vaultId
  | .proveLifeByKeeper vaultId => proveLifeByKeeper chain env s.governance s.release vaultId
  | .setBeneficiary vaultId beneficiary => setBeneficiary env s.governance s.release vaultId beneficiary
  | .configureVrf coordinator keyHash subscriptionId callbackGasLimit minimumRequestConfirmations =>
    configureVrf env s.release s.vrfDeployer coordinator keyHash subscriptionId callbackGasLimit
      minimumRequestConfirmations
  | .setEmergencyJitterWindow vaultId jitterWindow =>
    setEmergencyJitterWindow env s.governance s.release vaultId jitterWindow
  | .rawFulfillRandomWords requestId randomWords => rawFulfillRandomWords env s.release requestId randomWords

def execDocuments : DocumentCall → Result (Output Documents)
  | .setDocumentReleaseCondition documentId condition =>
    setDocumentReleaseCondition env s.governance s.documents documentId condition
  | .saveGuardianSharesFHE documentId guardiansList sharesFHE =>
    saveGuardianSharesFHE env s.governance s.documents documentId guardiansList sharesFHE
  | .startShareRefresh documentId duration =>
    startShareRefresh env s.governance s.documents documentId duration
  | .submitZeroShareCommitment documentId commitments =>
    submitZeroShareCommitment env s.governance s.documents documentId commitments
  | .setDocumentVSSCommitments documentId commitments =>
    setDocumentVSSCommitments env s.governance s.documents documentId commitments
  | .applyShareRefresh documentId guardiansList newShares newCommitments =>
    applyShareRefresh chain env s.governance s.documents documentId guardiansList newShares newCommitments

def execApproval : ApprovalCall → Result (Output (Requests × Grants))
  | .approveAccess requestId share => approveAccess chain env s requestId share
  | .approveAccessByDelegation requestId guardian validUntil nonce signature share =>
    approveAccessDelegated chain env s requestId guardian validUntil nonce signature share
  | .approveAccessDelegated requestId guardian validUntil nonce signature share =>
    approveAccessDelegated chain env s requestId guardian validUntil nonce signature share
  | .approveAccessFHE requestId fheSharePayload => approveAccessFHE chain env s requestId fheSharePayload
  | .approveAccessBLS requestId guardianAddresses aggregatedSignature aggregatedPublicKey shares =>
    approveAccessBLS chain env s requestId guardianAddresses aggregatedSignature aggregatedPublicKey shares

def execGrants : GrantCall → Result (Output Grants)
  | .revokeAccess documentId user => revokeAccess chain env s.governance s.documents s.grants documentId user
  | .setCrossChainRevocationEnabled vaultId enabled =>
    setCrossChainRevocationEnabled env s.governance s.grants vaultId enabled

def execTokens : TokenCall → Result (Output (Tokens L × Grants))
  | .burnAccessToken tokenId => burnAccessToken nft env s.tokens s.grants tokenId
  | .transferFrom source recipient tokenId => transferFrom nft env s.tokens s.grants source recipient tokenId
  | .safeTransferFrom source recipient tokenId => transferFrom nft env s.tokens s.grants source recipient tokenId
  | .approve recipient tokenId => approveToken nft env s.tokens s.grants recipient tokenId
  | .setApprovalForAll operator approved => setApprovalForAll nft env s.tokens s.grants operator approved

def execBody : Call → Result (State L)
  | .initializeERC6551 registry implementation => do
    let (accounts, logs) ← initializeERC6551 s registry implementation
    pure { s with accounts, logs }
  | .keys c => do
    let (keys, logs) ← execKeys chain env s c
    pure { s with keys, logs }
  | .createVault name description guardians approvalThreshold => do
    let (governance, logs) ← createVault env s.governance name description guardians approvalThreshold
    pure { s with governance, release := openVaultRelease env s.release governance.vaultIdCounter, logs }
  | .governance c => do
    let (governance, logs) ← execGovernance env s.governance c
    pure { s with governance, logs }
  | .release c => do
    let (release, logs) ← execRelease chain env s c
    pure { s with release, logs }
  | .setEmergencyMode vaultId enabled => do
    let ((release, frame), logs) ← setEmergencyMode env s.governance s.release vaultId enabled
    pure { s with release, frame, logs }
  | .addDocument vaultId encryptedMetadata ipfsHash requiredAccess releaseCondition guardiansList shares => do
    let ((documents, grants), logs) ← addDocument chain env s.governance s.documents s.grants vaultId
      encryptedMetadata ipfsHash requiredAccess releaseCondition guardiansList shares
    pure { s with documents, grants, logs }
  | .documents c => do
    let (documents, logs) ← execDocuments chain env s c
    pure { s with documents, logs }
  | .requestAccess documentId => do
    let (requests, logs) ← requestAccess env s documentId
    pure { s with requests, logs }
  | .approval c => do
    let ((requests, grants), logs) ← execApproval chain env s c
    pure { s with requests, grants, logs }
  | .grants c => do
    let (grants, logs) ← execGrants chain env s c
    pure { s with grants, logs }
  | .mintAccessToken vaultId recipient tokenURIValue => do
    let ((tokens, grants), frame) ←
      mintAccessToken nft env s.governance s.tokens s.grants vaultId recipient tokenURIValue
    pure { s with tokens, grants, frame := some frame, logs := [] }
  | .tokens c => do
    let ((tokens, grants), logs) ← execTokens nft env s c
    pure { s with tokens, grants, logs }
  | .tokenReceived =>
    match s.frame with
    | some (.mintAccessToken tokenId recipient vaultId tokenURIValue) =>
      let (tokens, logs) := accessTokenMinted s.tokens tokenId recipient vaultId tokenURIValue
      pure { s with tokens, frame := none, logs }
    | _ => .error .Panic
  | .randomWordsRequested requestId =>
    match s.frame with
    | some (.setEmergencyMode vaultId epoch) =>
      let (release, logs) := emergencyModeRequested s.release vaultId epoch requestId
      pure { s with release, frame := none, logs }
    | _ => .error .Panic

/-- `nonReentrant` and the body. -/
def exec (call : Call) : Result (State L) := do
  revertIf (call.guarded = true ∧ s.frame ≠ none) .ReentrantCall
  execBody chain nft env s call

/-! ## Runs -/

/-- A call with the block and sender it is made with. -/
abbrev Invocation := Env × Call

def Steps (chain : Chain) (nft : ERC721 L) (s : State L) (i : Invocation) (s' : State L) : Prop :=
  exec chain nft i.1 s i.2 = .ok s'

def Deployed (nft : ERC721 L) (s : State L) : Prop := ∃ deployer, s = State.deployed nft deployer

abbrev VaultRun (chain : Chain) (nft : ERC721 L) (hist : List (Transition (State L) Invocation))
    (s : State L) : Prop := Run (Deployed nft) (Steps chain nft) hist s

/-! ## What a transition writes -/

/-- Each family of calls, with the outcome of its body and the storage it leaves. -/
inductive Effect (chain : Chain) (nft : ERC721 L) (s : State L) : Invocation → State L → Prop
  | accounts {env : Env} {registry implementation : Address} {accounts : Accounts} {logs : List Event} :
      initializeERC6551 s registry implementation = .ok (accounts, logs) →
      Effect chain nft s (env, .initializeERC6551 registry implementation) { s with accounts, logs }
  | keys {env : Env} {c : KeysCall} {keys : Keys} {logs : List Event} :
      execKeys chain env s c = .ok (keys, logs) →
      Effect chain nft s (env, .keys c) { s with keys, logs }
  | createVault {env : Env} {name description : Bytes} {guardians : List Address}
      {approvalThreshold : ℕ} {governance : Governance} {logs : List Event} : s.frame = none →
      createVault env s.governance name description guardians approvalThreshold = .ok (governance, logs) →
      Effect chain nft s (env, .createVault name description guardians approvalThreshold)
        { s with governance, release := openVaultRelease env s.release governance.vaultIdCounter, logs }
  | governance {env : Env} {c : GovernanceCall} {governance : Governance} {logs : List Event} :
      s.frame = none → execGovernance env s.governance c = .ok (governance, logs) →
      Effect chain nft s (env, .governance c) { s with governance, logs }
  | release {env : Env} {c : ReleaseCall} {release : Release} {logs : List Event} :
      execRelease chain env s c = .ok (release, logs) →
      Effect chain nft s (env, .release c) { s with release, logs }
  | emergency {env : Env} {vaultId : ℕ} {enabled : Bool} {release : Release} {frame : Option Frame}
      {logs : List Event} : s.frame = none →
      setEmergencyMode env s.governance s.release vaultId enabled = .ok ((release, frame), logs) →
      Effect chain nft s (env, .setEmergencyMode vaultId enabled) { s with release, frame, logs }
  | addDocument {env : Env} {vaultId : ℕ} {encryptedMetadata ipfsHash : Bytes}
      {requiredAccess : AccessLevel} {releaseCondition : ReleaseCondition}
      {guardiansList : List Address} {shares : List Bytes} {documents : Documents} {grants : Grants}
      {logs : List Event} : s.frame = none →
      addDocument chain env s.governance s.documents s.grants vaultId encryptedMetadata ipfsHash
        requiredAccess releaseCondition guardiansList shares = .ok ((documents, grants), logs) →
      Effect chain nft s (env, .addDocument vaultId encryptedMetadata ipfsHash requiredAccess
        releaseCondition guardiansList shares) { s with documents, grants, logs }
  | documents {env : Env} {c : DocumentCall} {documents : Documents} {logs : List Event} :
      execDocuments chain env s c = .ok (documents, logs) →
      Effect chain nft s (env, .documents c) { s with documents, logs }
  | requestAccess {env : Env} {documentId : ℕ} {requests : Requests} {logs : List Event} :
      s.frame = none → requestAccess env s documentId = .ok (requests, logs) →
      Effect chain nft s (env, .requestAccess documentId) { s with requests, logs }
  | approval {env : Env} {c : ApprovalCall} {requests : Requests} {grants : Grants} {logs : List Event} :
      s.frame = none → execApproval chain env s c = .ok ((requests, grants), logs) →
      Effect chain nft s (env, .approval c) { s with requests, grants, logs }
  | grants {env : Env} {c : GrantCall} {grants : Grants} {logs : List Event} : s.frame = none →
      execGrants chain env s c = .ok (grants, logs) →
      Effect chain nft s (env, .grants c) { s with grants, logs }
  | mint {env : Env} {vaultId : ℕ} {recipient : Address} {tokenURIValue : Bytes} {tokens : Tokens L}
      {grants : Grants} {frame : Frame} : s.frame = none →
      mintAccessToken nft env s.governance s.tokens s.grants vaultId recipient tokenURIValue =
        .ok ((tokens, grants), frame) →
      Effect chain nft s (env, .mintAccessToken vaultId recipient tokenURIValue)
        { s with tokens, grants, frame := some frame, logs := [] }
  | tokens {env : Env} {c : TokenCall} {tokens : Tokens L} {grants : Grants} {logs : List Event} :
      execTokens nft env s c = .ok ((tokens, grants), logs) →
      Effect chain nft s (env, .tokens c) { s with tokens, grants, logs }
  | tokenReceived {env : Env} {tokenId : ℕ} {recipient : Address} {vaultId : ℕ} {tokenURIValue : Bytes} :
      s.frame = some (.mintAccessToken tokenId recipient vaultId tokenURIValue) →
      Effect chain nft s (env, .tokenReceived)
        { s with
          tokens := (accessTokenMinted s.tokens tokenId recipient vaultId tokenURIValue).1
          frame := none
          logs := (accessTokenMinted s.tokens tokenId recipient vaultId tokenURIValue).2 }
  | randomWordsRequested {env : Env} {vaultId epoch requestId : ℕ} :
      s.frame = some (.setEmergencyMode vaultId epoch) →
      Effect chain nft s (env, .randomWordsRequested requestId)
        { s with
          release := (emergencyModeRequested s.release vaultId epoch requestId).1
          frame := none
          logs := (emergencyModeRequested s.release vaultId epoch requestId).2 }

variable {chain nft s}

theorem Steps.effect {i : Invocation} {s' : State L} (h : Steps chain nft s i s') :
    Effect chain nft s i s' := by
  obtain ⟨env, call⟩ := i
  simp only [Steps, exec, revertIf_bind] at h
  obtain ⟨hlock, hbody⟩ := h
  have hframe : call.guarded = true → s.frame = none := fun hg => by
    by_contra hne
    exact hlock ⟨hg, hne⟩
  cases call with
  | tokenReceived =>
    simp only [execBody] at hbody
    split at hbody
    · next hf =>
      cases hbody
      exact .tokenReceived hf
    · cases hbody
  | randomWordsRequested requestId =>
    simp only [execBody] at hbody
    split at hbody
    · next hf =>
      cases hbody
      exact .randomWordsRequested hf
    · cases hbody
  | initializeERC6551 registry implementation =>
    simp only [execBody, bind_ok, pure_ok] at hbody
    obtain ⟨⟨accounts, logs⟩, h, rfl⟩ := hbody
    exact .accounts h
  | keys c =>
    simp only [execBody, bind_ok, pure_ok] at hbody
    obtain ⟨⟨keys, logs⟩, h, rfl⟩ := hbody
    exact .keys h
  | createVault name description guardians approvalThreshold =>
    simp only [execBody, bind_ok, pure_ok] at hbody
    obtain ⟨⟨governance, logs⟩, h, rfl⟩ := hbody
    exact .createVault (hframe rfl) h
  | governance c =>
    simp only [execBody, bind_ok, pure_ok] at hbody
    obtain ⟨⟨governance, logs⟩, h, rfl⟩ := hbody
    exact .governance (hframe rfl) h
  | release c =>
    simp only [execBody, bind_ok, pure_ok] at hbody
    obtain ⟨⟨release, logs⟩, h, rfl⟩ := hbody
    exact .release h
  | setEmergencyMode vaultId enabled =>
    simp only [execBody, bind_ok, pure_ok] at hbody
    obtain ⟨⟨⟨release, frame⟩, logs⟩, h, rfl⟩ := hbody
    exact .emergency (hframe rfl) h
  | addDocument vaultId encryptedMetadata ipfsHash requiredAccess releaseCondition guardiansList shares =>
    simp only [execBody, bind_ok, pure_ok] at hbody
    obtain ⟨⟨⟨documents, grants⟩, logs⟩, h, rfl⟩ := hbody
    exact .addDocument (hframe rfl) h
  | documents c =>
    simp only [execBody, bind_ok, pure_ok] at hbody
    obtain ⟨⟨documents, logs⟩, h, rfl⟩ := hbody
    exact .documents h
  | requestAccess documentId =>
    simp only [execBody, bind_ok, pure_ok] at hbody
    obtain ⟨⟨requests, logs⟩, h, rfl⟩ := hbody
    exact .requestAccess (hframe rfl) h
  | approval c =>
    simp only [execBody, bind_ok, pure_ok] at hbody
    obtain ⟨⟨⟨requests, grants⟩, logs⟩, h, rfl⟩ := hbody
    exact .approval (hframe rfl) h
  | grants c =>
    simp only [execBody, bind_ok, pure_ok] at hbody
    obtain ⟨⟨grants, logs⟩, h, rfl⟩ := hbody
    exact .grants (hframe rfl) h
  | mintAccessToken vaultId recipient tokenURIValue =>
    simp only [execBody, bind_ok, pure_ok] at hbody
    obtain ⟨⟨⟨tokens, grants⟩, frame⟩, h, rfl⟩ := hbody
    exact .mint (hframe rfl) h
  | tokens c =>
    simp only [execBody, bind_ok, pure_ok] at hbody
    obtain ⟨⟨⟨tokens, grants⟩, logs⟩, h, rfl⟩ := hbody
    exact .tokens h

/-! ## Running a list of calls -/

def call (chain : Chain) (nft : ERC721 L) (s : State L) (i : Invocation) : Result (State L) :=
  exec chain nft i.1 s i.2

theorem exists_run (chain : Chain) (nft : ERC721 L) (deployer : Address) (calls : List Invocation)
    (p : List (Transition (State L) Invocation) → State L → Bool)
    (h : endsIn (call chain nft) (State.deployed nft deployer) calls p = true) :
    ∃ hist final, VaultRun chain nft hist final ∧ p hist final = true :=
  exists_run_of_endsIn ⟨deployer, rfl⟩ h

theorem exists_step (chain : Chain) (nft : ERC721 L) (deployer : Address) (calls : List Invocation)
    (i : Invocation) (p : State L → State L → Bool)
    (h : endsIn (call chain nft) (State.deployed nft deployer) calls
      (fun _ s => stepsTo (call chain nft) i p s) = true) :
    ∃ hist s s', VaultRun chain nft hist s ∧ Steps chain nft s i s' ∧ p s s' = true :=
  exists_step_of_endsIn ⟨deployer, rfl⟩ h

/-! ## A concrete chain -/

/-- A hash with one value, signatures that carry their digest and signer, no pairing precompile. -/
def localChain : Chain where
  keccak256 := fun _ => 1
  tryRecover := fun digest signature =>
    if signature.length = 52 ∧ natBE (signature.take 32) = digest.toNat then
      some (BitVec.ofNat 160 (natBE (signature.drop 32)))
    else none
  domainSeparator := 0
  blsPairing := fun _ => none
  chainId := 43114
  self := 0x5900

theorem localChain_keccak256 (b : Bytes) : localChain.keccak256 b ≠ 0 := by
  change (1 : Bytes32) ≠ 0
  decide

/-- A block in which `sender` calls. -/
def callBy (sender : Address) (timestamp : ℕ) (hs : decide (sender ≠ 0) = true := by exact (rfl : true = true))
    (ht : decide (0 < timestamp) = true := by exact (rfl : true = true)) : Env :=
  ⟨sender, timestamp, timestamp / 2, ne_zero_of_decide hs, pos_of_decide ht⟩

/-- Guardian 1 opens a vault with guardians 2 and 3 and threshold 2, adds a document and mints a
pass for 9, who requests the document. -/
def openedRequest : List Invocation :=
  [(callBy 1 100, .createVault (ascii "vault") [] [2, 3] 2),
    (callBy 2 101, .governance (.acceptGuardianInvite 1)),
    (callBy 3 102, .governance (.acceptGuardianInvite 1)),
    (callBy 1 103, .addDocument 1 [] (ascii "Qm") .READ .ANYTIME [] []),
    (callBy 1 104, .mintAccessToken 1 9 []),
    (callBy 9 104, .tokenReceived),
    (callBy 9 105, .requestAccess 1)]

end ChainGuard.Evm
