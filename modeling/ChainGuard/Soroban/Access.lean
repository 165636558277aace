import ChainGuard.Soroban.Vaults

/-! Documents, access requests with their four approval paths, and revocation, by a guardian or
relayed from the EVM contract. -/
namespace ChainGuard.Soroban
open Guarded
set_option autoImplicit false

variable (host : Host) (env : Env) (s : State)

/-! ## Documents -/

def addDocument (uploader : Address) (vaultId : ℕ) (encryptedMetadata ipfsHash : Bytes)
    (requiredAccess : AccessLevel) (releaseCondition : ReleaseCondition) (guardiansList : List Address)
    (shares : List Bytes) : Result (Output (Documents × Grants)) := do
  let d := s.documents
  requireAuth env uploader
  let record ← loadVaultRecord s.vaults vaultId
  assert (record.vault.isActive = true) "Vault is deactivated"
  assert (uploader ∈ record.vault.guardians) "Only guardians can upload documents"
  assert (ipfsHash ≠ []) "IPFS hash required"
  assert (guardiansList.length = shares.length) "Guardians list and shares count mismatch"
  let nextDocId := d.docCount + 1
  let gShare := (guardiansList.zip shares).foldl
    (fun m entry => Mapping.set₂ m nextDocId entry.1 (some entry.2)) d.gShare
  pure (({ d with
      docCount := nextDocId
      docs := Function.update d.docs nextDocId (some
        { id := nextDocId, vaultId, encryptedMetadata, ipfsHash, uploadedBy := uploader
          uploadedAt := env.timestamp, requiredAccess })
      docReleaseCond := Function.update d.docReleaseCond nextDocId (some releaseCondition)
      gShare },
    { s.grants with
      hasAccess := Mapping.set₂ s.grants.hasAccess nextDocId uploader true
      accessLvl := Mapping.set₂ s.grants.accessLvl nextDocId uploader (some requiredAccess) }), [])

def saveGuardianSharesFhe (uploader : Address) (documentId : ℕ) (guardiansList : List Address)
    (sharesFhe : List Bytes) : Result (Output Documents) := do
  requireAuth env uploader
  let doc ← loadDocument s.documents documentId
  let record ← loadVaultRecord s.vaults doc.vaultId
  assert (uploader ∈ record.vault.guardians ∨ record.vault.creator = uploader)
    "Only guardians can save FHE shares"
  assert (guardiansList.length = sharesFhe.length) "Guardians and shares length mismatch"
  let fheGShare := (guardiansList.zip sharesFhe).foldl
    (fun m entry => Mapping.set₂ m documentId entry.1 (some entry.2)) s.documents.fheGShare
  pure ({ s.documents with fheGShare }, [.fheGuardianSharesSaved documentId guardiansList.length])

/-! ## Requests -/

def requestAccess (requester : Address) (documentId : ℕ) : Result (Output Requests) := do
  let q := s.requests
  requireAuth env requester
  let doc ← loadDocument s.documents documentId
  let record ← loadVaultRecord s.vaults doc.vaultId
  assert (record.vault.isActive = true) "Vault is deactivated"
  assert (s.grants.hasAccess documentId requester = false) "Already has access"
  let cond := (s.documents.docReleaseCond documentId).getD .Anytime
  assert (isReleaseConditionSatisfied env s.release doc.vaultId record.releaseState cond = true)
    "Release condition locked"
  let nextReqId := q.reqCount + 1
  pure ({ q with
      reqCount := nextReqId
      requests := Function.update q.requests nextReqId (some
        { requestId := nextReqId, documentId, requester, approvedBy := [], status := .Pending
          expiresAt := env.timestamp + days 3, createdAt := env.timestamp })
      latestReq := Mapping.set₂ q.latestReq documentId requester (some nextReqId) }, [])

def loadPending (requestId : ℕ) : Result AccessRequest := do
  let request ← expect (s.requests.requests requestId) "Request not found"
  assert (request.status = .Pending) "Request not pending"
  assert (env.timestamp < request.expiresAt) "Request expired"
  pure request

def loadActive (documentId : ℕ) : Result (Document × VaultRecord) := do
  let doc ← loadDocument s.documents documentId
  let record ← loadVaultRecord s.vaults doc.vaultId
  assert (record.vault.isActive = true) "Vault is deactivated"
  pure (doc, record)

def setRequest (q : Requests) (requestId : ℕ) (request : AccessRequest) : Requests :=
  { q with requests := Function.update q.requests requestId (some request) }

/-- `BShare(request_id, guardian)`, when a share came along. -/
def saveShare (q : Requests) (requestId : ℕ) (guardian : Address) (share : Option Bytes) : Requests :=
  match share with
  | none => q
  | some share => { q with bShare := Mapping.set₂ q.bShare requestId guardian (some share) }

def notifyAccessRegistry (doc : Document) (request : AccessRequest) : Result (List Event) :=
  match s.vaults.accessRegistry doc.vaultId with
  | none => pure []
  | some registry => do
    revertIf (env.recordGrant registry request.documentId request.requester = false) .host
    pure [.recordGrant registry request.documentId request.requester]

def grantRequest (a : Grants) (request : AccessRequest) (doc : Document) : Grants :=
  { a with
    hasAccess := Mapping.set₂ a.hasAccess request.documentId request.requester true
    accessLvl := Mapping.set₂ a.accessLvl request.documentId request.requester (some doc.requiredAccess) }

/-- Approve and grant a request; `announced` is published before the registry is called. -/
def approveRequest (q : Requests) (requestId : ℕ) (request : AccessRequest) (doc : Document)
    (announced : List Event) : Result (Output (Requests × Grants)) := do
  let notified ← notifyAccessRegistry env s doc request
  pure ((setRequest q requestId { request with status := .Approved }, grantRequest s.grants request doc),
    announced ++ notified)

/-- The end of the counted paths: approve from the threshold on, store the request otherwise. -/
def settleRequest (q : Requests) (requestId : ℕ) (request : AccessRequest) (doc : Document)
    (record : VaultRecord) (announced : List Event) : Result (Output (Requests × Grants)) :=
  if record.vault.approvalThreshold ≤ request.approvedBy.length then
    approveRequest env s q requestId request doc announced
  else pure ((setRequest q requestId request, s.grants), [])

def flagApproval (q : Requests) (requestId : ℕ) (approver : Address) : Requests :=
  { q with approvedReq := Mapping.set₂ q.approvedReq requestId approver true }

/-! ## Approval by a guardian -/

def approveAccess (approver : Address) (requestId : ℕ) (beneficiaryShare : Option Bytes) :
    Result (Output (Requests × Grants)) := do
  requireAuth env approver
  let request ← loadPending env s requestId
  let (doc, record) ← loadActive s request.documentId
  assert (approver ∈ record.vault.guardians) "Only guardians can approve access"
  assert (s.requests.approvedReq requestId approver = false) "Already approved"
  let shared := saveShare (flagApproval s.requests requestId approver) requestId approver beneficiaryShare
  settleRequest env s shared requestId { request with approvedBy := request.approvedBy ++ [approver] }
    doc record []

/-! ## Approval by a batch of Ed25519 signatures -/

def verifyThresholdSignatures (message : Bytes) (signatures : List Signature) (publicKeys : List Bytes32)
    (threshold nonce expirationLedger : ℕ) : Result (Output Requests) := do
  let usedNonce ← verifyThresholdSignaturesInternal host env s.requests.usedNonce message signatures
    publicKeys threshold nonce expirationLedger
  pure ({ s.requests with usedNonce }, [])

def approvalMessage (requestId vaultId : ℕ) : Bytes :=
  ascii "ApproveAccess:" ++ bytesBE 8 requestId ++ bytesBE 8 vaultId

/-- The signers are the keys the caller passes; the vault's guardians are not looked at. -/
def approveAccessThreshold (caller : Address) (requestId : ℕ) (signatures : List Signature)
    (publicKeys : List Bytes32) (nonce expirationLedger : ℕ) (beneficiaryShare : Option Bytes) :
    Result (Output (Requests × Grants)) := do
  requireAuth env caller
  let request ← loadPending env s requestId
  let (doc, record) ← loadActive s request.documentId
  let usedNonce ← verifyThresholdSignaturesInternal host env s.requests.usedNonce
    (approvalMessage requestId doc.vaultId) signatures publicKeys record.vault.approvalThreshold nonce
    expirationLedger
  let shared := saveShare { s.requests with usedNonce } requestId caller beneficiaryShare
  approveRequest env s shared requestId request doc []

/-! ## Approval by an aggregated BLS signature -/

def recordListed (requestId : ℕ) (guardian : Address) (q : Requests) (request : AccessRequest) :
    Requests × AccessRequest :=
  if q.approvedReq requestId guardian then (q, request)
  else (flagApproval q requestId guardian, { request with approvedBy := request.approvedBy ++ [guardian] })

/-- The loop over the listed guardians and their shares; an empty share is not stored. -/
def processGuardians (requestId vaultId : ℕ) (guardians : List Address) :
    Requests → AccessRequest → List Address → List Bytes → Result (Requests × AccessRequest)
  | q, request, [], _ => pure (q, request)
  | q, request, guardian :: guardianAddresses, encryptedShares => do
    assert (guardian ∈ guardians) "Non-guardian in approval set"
    assert (guardian ≠ request.requester) "Cannot self approve"
    let keyInfo ← expect (s.vaults.guardianBLSKey vaultId guardian) "Guardian BLS key not registered"
    assert (keyInfo.registered = true) "BLS key not active"
    let recorded := recordListed requestId guardian q request
    let shared := saveShare recorded.1 requestId guardian (encryptedShares.head?.filter (· ≠ []))
    processGuardians requestId vaultId guardians shared recorded.2 guardianAddresses encryptedShares.tail

/-- No authorization is asked for. -/
def approveAccessBLS (requestId : ℕ) (guardianAddresses : List Address)
    (aggregatedSignature aggregatedPublicKey : Bytes) (encryptedShares : List Bytes) :
    Result (Output (Requests × Grants)) := do
  let request ← loadPending env s requestId
  let (doc, record) ← loadActive s request.documentId
  let guardianCount := guardianAddresses.length
  assert (record.vault.approvalThreshold ≤ guardianCount) "Threshold not met"
  let processed ← processGuardians s requestId doc.vaultId record.vault.guardians s.requests request
    guardianAddresses encryptedShares
  assert (BLSVerifier.verifyThresholdSignature requestId doc.vaultId request.documentId
    request.requester aggregatedPublicKey aggregatedSignature guardianCount
    record.vault.approvalThreshold = true) "Invalid aggregated BLS signature"
  settleRequest env s processed.1 requestId processed.2 doc record []

/-! ## Approval with a homomorphically encrypted share -/

def accumulateFheShare (q : Requests) (requestId : ℕ) (approver : Address) (fheShare : Bytes) :
    Result (Output Requests) :=
  if fheShare = [] then pure (q, [])
  else do
    let newAcc ← fheAdd ((q.fheAccumulator requestId).getD []) fheShare
    pure ({ q with
        fheBShare := Mapping.set₂ q.fheBShare requestId approver (some fheShare)
        fheAccumulator := Function.update q.fheAccumulator requestId (some newAcc)
        fheAccumulatorCount := Function.update q.fheAccumulatorCount requestId
          (q.fheAccumulatorCount requestId + 1) },
      [.fheShareSubmitted requestId approver])

def approveAccessFhe (approver : Address) (requestId : ℕ) (fheShare : Bytes) :
    Result (Output (Requests × Grants)) := do
  requireAuth env approver
  let request ← loadPending env s requestId
  assert (request.requester ≠ approver) "Cannot self-approve access"
  let (doc, record) ← loadActive s request.documentId
  assert (approver ∈ record.vault.guardians) "Only guardians can approve access"
  assert (s.requests.approvedReq requestId approver = false) "Already approved"
  let (accumulated, submitted) ← accumulateFheShare (flagApproval s.requests requestId approver) requestId
    approver fheShare
  let aggregate := (accumulated.fheAccumulator requestId).getD []
  let (settled, announced) ← settleRequest env s accumulated requestId
    { request with approvedBy := request.approvedBy ++ [approver] } doc record
    [.fheAggregated requestId request.documentId request.requester aggregate]
  pure (settled, submitted ++ announced)

/-! ## Revocation -/

/-- `apply_revocation`: the document's own grant is cleared; the version is counted and read by
nothing but its getter. -/
def applyRevocation (documentId : ℕ) (target : Address) : Output Grants :=
  let a := s.grants
  ({ a with
      hasAccess := Mapping.set₂ a.hasAccess documentId target false
      accessLvl := Mapping.set₂ a.accessLvl documentId target none
      vaultAccessVersion :=
        match s.documents.docs documentId with
        | none => a.vaultAccessVersion
        | some doc => Mapping.set₂ a.vaultAccessVersion doc.vaultId target
            (a.vaultAccessVersion doc.vaultId target + 1) },
    [.accessRevoked documentId target, .revokeAccess documentId target])

def revokeAccess (guardian : Address) (documentId : ℕ) (target : Address) : Result (Output Grants) := do
  requireAuth env guardian
  let doc ← loadDocument s.documents documentId
  let record ← loadVaultRecord s.vaults doc.vaultId
  assert (guardian ∈ record.vault.guardians) "Only guardians can revoke access"
  pure (applyRevocation s documentId target)

def linkCrossChainVault (owner : Address) (vaultId : ℕ) (vaultGid : Bytes32) (evmRevoker : EvmAddress) :
    Result (Output Grants) := do
  requireAuth env owner
  let record ← loadVaultRecord s.vaults vaultId
  assert (record.vault.creator = owner) "Only creator can link cross-chain vault"
  assert ((s.grants.vaultGid vaultGid).isNone = true) "vault_gid already linked to a vault"
  pure ({ s.grants with
      vaultGid := Function.update s.grants.vaultGid vaultGid (some vaultId)
      crossChainRevoker := Function.update s.grants.crossChainRevoker vaultId (some evmRevoker) }, [])

def revocationPayload (vaultGid : Bytes32) (documentId : ℕ) (targetEvmUser : EvmAddress)
    (targetStellarUser : Address) (nonce : ℕ) : Bytes :=
  ascii "RevokeAccess" ++ word vaultGid.toNat ++ word documentId ++ bytesBE 20 targetEvmUser.toNat ++
    host.toXdr targetStellarUser ++ word nonce

/-- `recover_eth_address`: the key is hashed without its first byte. -/
def recoverEthAddress (vaultGid : Bytes32) (documentId : ℕ) (targetEvmUser : EvmAddress)
    (targetStellarUser : Address) (nonce : ℕ) (signature : Signature) (recoveryId : ℕ) :
    Result EvmAddress :=
  let messageHash := host.keccak256
    (revocationPayload host vaultGid documentId targetEvmUser targetStellarUser nonce)
  match host.secp256k1Recover (ethSignedMessage host messageHash) signature recoveryId with
  | none => .error .host
  | some pubkey => pure (evmAddressOf (host.keccak256 ((pubkey.drop 1).take 64)))

def relayRevokeAccess (vaultGid : Bytes32) (documentId : ℕ) (targetEvmUser : EvmAddress)
    (targetStellarUser : Address) (nonce : ℕ) (signature : Signature) (recoveryId : ℕ) :
    Result (Output Grants) := do
  let vaultId ← expect (s.grants.vaultGid vaultGid) "Unknown vault_gid"
  let doc ← loadDocument s.documents documentId
  assert (doc.vaultId = vaultId) "Document does not belong to linked vault"
  assert (s.grants.revocationNonce vaultGid documentId targetStellarUser < nonce)
    "Stale or replayed revocation nonce"
  let revoker ← expect (s.grants.crossChainRevoker vaultId) "No cross-chain revoker linked for this vault"
  let recovered ← recoverEthAddress host vaultGid documentId targetEvmUser targetStellarUser nonce
    signature recoveryId
  assert (recovered = revoker) "Signature not from linked cross-chain revoker"
  let (revoked, events) := applyRevocation s documentId targetStellarUser
  pure ({ revoked with
      revocationNonce := Mapping.set₃ s.grants.revocationNonce vaultGid documentId targetStellarUser nonce },
    events)

end ChainGuard.Soroban
