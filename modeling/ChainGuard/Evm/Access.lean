import ChainGuard.Evm.Release

/-! Access requests and their approval: by a guardian, through a delegate, with an encrypted
share, or by an aggregated signature. The approval paths share the checks on the request and
on the guardian's key and end in the same settlement. -/
namespace ChainGuard.Evm
open Guarded
set_option autoImplicit false

variable {L : Type} (chain : Chain) (env : Env) (s : State L)

/-! ## Active access -/

/-- `_hasActiveAccess` -/
def hasActiveAccessInternal (documentId : ℕ) (user : Address) : Bool :=
  let vaultId := (s.documents.documents documentId).vaultId
  s.governance.isGuardian vaultId user ||
    (s.grants.hasAccess documentId user && ownsVaultToken s.tokens user vaultId &&
      s.grants.documentAccessVersion documentId user == currentAccessVersion s.grants vaultId user)

def hasActiveAccess (documentId : ℕ) (user : Address) : Bool :=
  if (s.documents.documents documentId).id = 0 then false else hasActiveAccessInternal s documentId user

/-! ## Requests -/

def requestAccess (documentId : ℕ) : Result (Output Requests) := do
  revertIf ((s.documents.documents documentId).id = 0) .DocumentNotExist
  revertIf (hasActiveAccessInternal s documentId env.sender = true) .AlreadyHasAccess
  let released ← isReleaseConditionSatisfied env s.release s.documents documentId
  revertIf (released = false) .ReleaseConditionLocked
  let vaultId := (s.documents.documents documentId).vaultId
  revertIf (ownsVaultToken s.tokens env.sender vaultId = false) .NFTRequired
  let q := s.requests
  let existingRequestId := q.latestRequestId documentId env.sender
  let existingRequest := q.accessRequests existingRequestId
  revertIf (existingRequestId ≠ 0 ∧ existingRequest.status = .PENDING ∧
    env.timestamp < existingRequest.expiresAt) .RequestAlreadyPending
  let requestId := q.requestIdCounter + 1
  pure ({ q with
      requestIdCounter := requestId
      accessRequests := Function.update q.accessRequests requestId
        { requestId, documentId, requester := env.sender, approvedBy := [], status := .PENDING,
          expiresAt := env.timestamp + days 3, createdAt := env.timestamp }
      latestRequestId := Mapping.set₂ q.latestRequestId documentId env.sender requestId },
    [.AccessRequested requestId documentId env.sender])

/-! ## What the approval paths share -/

def requestVault (requestId : ℕ) : ℕ :=
  (s.documents.documents (s.requests.accessRequests requestId).documentId).vaultId

def checkPendingRequest (requestId : ℕ) : Result Unit := do
  let request := s.requests.accessRequests requestId
  revertIf (request.requestId = 0) .RequestNotExist
  revertIf (request.status ≠ .PENDING) .RequestNotPending
  revertIf (request.expiresAt ≤ env.timestamp) .RequestExpired

def checkGuardianKey (guardian : Address) : Result Unit :=
  let guardianKey := s.keys.userPublicKeys guardian
  revertIf (guardianKey.length ≠ 0 ∧ s.keys.revokedKeyHashes (chain.keccak256 guardianKey) = true)
    .RevokedPublicKey

def recordApproval (q : Requests) (requestId : ℕ) (guardian : Address) : Requests :=
  let request := q.accessRequests requestId
  { q with
    hasApprovedRequest := Mapping.set₂ q.hasApprovedRequest requestId guardian true
    accessRequests := Function.update q.accessRequests requestId
      { request with approvedBy := request.approvedBy ++ [guardian] } }

/-- The commitment a submitted share has to match; zero when there is none. -/
def expectedCommitment (d : Documents) (documentId : ℕ) (guardian : Address) : Bytes32 :=
  let stored := d.guardianShareCommitments documentId guardian
  if stored = 0 ∧ 0 < (d.encryptedGuardianShares documentId guardian).length then
    chain.keccak256 (d.encryptedGuardianShares documentId guardian)
  else stored

def submitShare (d : Documents) (q : Requests) (requestId documentId : ℕ) (guardian : Address)
    (share : Bytes) : Result (Output Requests) :=
  if share.length = 0 then pure (q, [])
  else do
    let expected := expectedCommitment chain d documentId guardian
    let submittedCommitment := chain.keccak256 share
    revertIf (expected ≠ 0 ∧ submittedCommitment ≠ expected) .InvalidShareCommitment
    pure ({ q with beneficiaryKeyShares := Mapping.set₂ q.beneficiaryKeyShares requestId guardian share },
      (if expected ≠ 0 then [.ShareValidated requestId guardian submittedCommitment] else []) ++
        [.ShareSubmittedForBeneficiary requestId guardian share])

def setStatus (q : Requests) (requestId : ℕ) (status : RequestStatus) : Requests :=
  { q with
    accessRequests := Function.update q.accessRequests requestId
      { q.accessRequests requestId with status } }

/-- The end of an approval that reached its quorum: the request is rejected when the requester
no longer holds a pass, and otherwise approved and granted. -/
def settleRequest (q : Requests) (requestId vaultId : ℕ) : Output (Requests × Grants) :=
  let request := q.accessRequests requestId
  if ownsVaultToken s.tokens request.requester vaultId = false then
    ((setStatus q requestId .REJECTED, s.grants), [])
  else
    let granted := grantAccess s.documents s.grants requestId request.documentId request.requester
    ((setStatus q requestId .APPROVED, granted.1), granted.2)

def thresholdReached (q : Requests) (requestId vaultId : ℕ) : Bool :=
  decide ((s.governance.vaults vaultId).approvalThreshold ≤ (q.accessRequests requestId).approvedBy.length)

def settleIfReached (q : Requests) (requestId vaultId : ℕ) : Output (Requests × Grants) :=
  if thresholdReached s q requestId vaultId then settleRequest s q requestId vaultId else ((q, s.grants), [])

/-! ## Approval by a guardian -/

/-- `_approveAccess`; the overload without a share passes the empty string. -/
def approveAccess (requestId : ℕ) (encryptedShareForBeneficiary : Bytes) :
    Result (Output (Requests × Grants)) := do
  checkPendingRequest env s requestId
  let request := s.requests.accessRequests requestId
  revertIf (request.requester = env.sender) .CannotSelfApproveAccess
  let vaultId := requestVault s requestId
  revertIf (s.governance.isGuardian vaultId env.sender = false) .OnlyGuardian
  revertIf (s.requests.hasApprovedRequest requestId env.sender = true) .AlreadyApproved
  checkGuardianKey chain s env.sender
  let (submitted, shareEvents) ← submitShare chain s.documents
    (recordApproval s.requests requestId env.sender) requestId request.documentId env.sender
    encryptedShareForBeneficiary
  let settled := settleIfReached s submitted requestId vaultId
  pure (settled.1, shareEvents ++ [.AccessApproved requestId env.sender] ++ settled.2)

/-! ## Approval through a delegate -/

def GUARDIAN_DELEGATION_TYPEHASH : Bytes32 :=
  chain.keccak256 (ascii
    "GuardianDelegation(address guardian,address delegate,uint256 vaultId,uint256 validUntil,uint256 nonce)")

/-- The EIP-712 digest of a `GuardianDelegation`. -/
def delegationDigest (guardian delegate : Address) (vaultId validUntil nonce : ℕ) : Bytes32 :=
  hashTypedDataV4 chain (chain.keccak256 (abiEncode
    [(GUARDIAN_DELEGATION_TYPEHASH chain).toNat, guardian.toNat, delegate.toNat, vaultId, validUntil, nonce]))

def verifyDelegation (guardian delegate : Address) (vaultId validUntil nonce : ℕ) (signature : Bytes) :
    Bool :=
  if validUntil < env.timestamp then false
  else if s.keys.revokedNonces guardian nonce then false
  else if !s.governance.isGuardian vaultId guardian then false
  else chain.tryRecover (delegationDigest chain guardian delegate vaultId validUntil nonce) signature ==
    some guardian

/-- `_approveAccessDelegated`, behind `approveAccessByDelegation` and both overloads of
`approveAccessDelegated`; the one without a share passes the empty string. -/
def approveAccessDelegated (requestId : ℕ) (guardian : Address) (validUntil nonce : ℕ)
    (signature encryptedShareForBeneficiary : Bytes) : Result (Output (Requests × Grants)) := do
  checkPendingRequest env s requestId
  let request := s.requests.accessRequests requestId
  revertIf (request.requester = guardian ∨ request.requester = env.sender) .CannotSelfApproveAccess
  let vaultId := requestVault s requestId
  revertIf (verifyDelegation chain env s guardian env.sender vaultId validUntil nonce signature = false)
    .DelegationInvalidOrExpired
  revertIf (s.requests.hasApprovedRequest requestId guardian = true) .AlreadyApproved
  checkGuardianKey chain s guardian
  let (submitted, shareEvents) ← submitShare chain s.documents
    (recordApproval s.requests requestId guardian) requestId request.documentId guardian
    encryptedShareForBeneficiary
  let settled := settleIfReached s submitted requestId vaultId
  pure (settled.1, shareEvents ++
    [.AccessApproved requestId guardian, .DelegatedApprovalSubmitted requestId guardian env.sender] ++
    settled.2)

/-! ## Approval with a homomorphically encrypted share -/

def accumulateFheShare (q : Requests) (requestId : ℕ) (guardian : Address) (fheSharePayload : Bytes) :
    Result (Output Requests) :=
  if fheSharePayload.length = 0 then pure (q, [])
  else do
    let sum ← FHEEngine.fheAdd (q.fheRequestAccumulator requestId) fheSharePayload
    pure ({ q with
        fheBeneficiaryShares := Mapping.set₂ q.fheBeneficiaryShares requestId guardian fheSharePayload
        fheRequestAccumulator := Function.update q.fheRequestAccumulator requestId sum
        fheAccumulatorCount := Function.update q.fheAccumulatorCount requestId
          (q.fheAccumulatorCount requestId + 1) },
      [.FheShareSubmitted requestId guardian])

def approveAccessFHE (requestId : ℕ) (fheSharePayload : Bytes) : Result (Output (Requests × Grants)) := do
  checkPendingRequest env s requestId
  let request := s.requests.accessRequests requestId
  revertIf (request.requester = env.sender) .CannotSelfApproveAccess
  let vaultId := requestVault s requestId
  revertIf (s.governance.isGuardian vaultId env.sender = false) .OnlyGuardian
  revertIf (s.requests.hasApprovedRequest requestId env.sender = true) .AlreadyApproved
  checkGuardianKey chain s env.sender
  let (accumulated, shareEvents) ← accumulateFheShare
    (recordApproval s.requests requestId env.sender) requestId env.sender fheSharePayload
  let settled := settleIfReached s accumulated requestId vaultId
  let aggregated : List Event :=
    if (settled.1.1.accessRequests requestId).status = .APPROVED then
      [.FheSharesAggregated requestId request.documentId request.requester
        (accumulated.fheRequestAccumulator requestId)]
    else []
  pure (settled.1, shareEvents ++ [.AccessApproved requestId env.sender] ++ settled.2 ++ aggregated)

/-! ## Approval by an aggregated signature -/

/-- The loop of `_processBLSGuardians`; `previous` is the guardian before the current one. -/
def processBLSGuardians (requestId vaultId documentId : ℕ) (requester : Address) :
    Requests → Option Address → List Address → List Bytes → Result (Output Requests)
  | q, _, [], _ => pure (q, [])
  | q, previous, guardian :: guardianAddresses, shares => do
    revertIf (previous.any (fun p => decide (guardian ≤ p)) = true) .DuplicateGuardianBLS
    revertIf (s.governance.isGuardian vaultId guardian = false) .OnlyGuardian
    revertIf (guardian = requester) .CannotSelfApproveAccess
    revertIf ((s.keys.guardianBLSKeys vaultId guardian).registered = false) .GuardianBLSKeyNotRegistered
    let (submitted, events) ← submitShare chain s.documents q requestId documentId guardian (shares.headD [])
    let (processed, rest) ← processBLSGuardians requestId vaultId documentId requester submitted
      (some guardian) guardianAddresses shares.tail
    pure (processed, events ++ rest)

def approveAccessBLS (requestId : ℕ) (guardianAddresses : List Address)
    (aggregatedSignature aggregatedPublicKey : Bytes) (encryptedSharesForBeneficiary : List Bytes) :
    Result (Output (Requests × Grants)) := do
  checkPendingRequest env s requestId
  let request := s.requests.accessRequests requestId
  let vaultId := requestVault s requestId
  let threshold := (s.governance.vaults vaultId).approvalThreshold
  let guardianCount := guardianAddresses.length
  revertIf (guardianCount < threshold) .ThresholdNotMetBLS
  let (processed, shareEvents) ← processBLSGuardians chain s requestId vaultId request.documentId
    request.requester s.requests none guardianAddresses encryptedSharesForBeneficiary
  BLS.verifyThresholdApproval chain requestId vaultId request.documentId request.requester chain.chainId
    aggregatedPublicKey aggregatedSignature guardianCount threshold
  let settled := settleRequest s processed requestId vaultId
  pure (settled.1,
    shareEvents ++ [.BLSAccessApproved requestId vaultId guardianCount aggregatedSignature] ++ settled.2)

end ChainGuard.Evm
