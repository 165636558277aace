import ChainGuard.Evm.Quorum
import ChainGuard.Evm.TokenAccounting

/-! Where grants come from and what becomes of them: a transition adds one, takes one back while
raising the user's version in the vault, or moves passes. Grants come from an upload, for its
uploader, and from a settled request, for a requester with a pass. -/
namespace ChainGuard.Evm
open Guarded History
set_option autoImplicit false

variable {L : Type} {chain : Chain} {nft : ERC721 L} {env : Env} {s s' : State L} {q q' : Requests}
  {a : Grants} {logs : List Event}

/-! ## The grant a call leaves in its events -/

def Event.grantee : Event → Option (ℕ × Address)
  | .AccessGranted _ documentId requester => some (documentId, requester)
  | _ => none

def granted (t : Transition (State L) Invocation) : Option (ℕ × Address) :=
  match t.label.2 with
  | .addDocument .. | .approval _ => t.post.logs.findSome? Event.grantee
  | _ => none

def uploaded (t : Transition (State L) Invocation) : Option ℕ :=
  match t.label.2 with
  | .addDocument .. => some t.post.documents.documentIdCounter
  | _ => none

def revoked (t : Transition (State L) Invocation) : Option (ℕ × ℕ × Address) :=
  match t.label.2 with
  | .grants (.revokeAccess documentId user) =>
    some (documentId, (t.pre.documents.documents documentId).vaultId, user)
  | _ => none

theorem submitShare_grantee {d : Documents} {requestId documentId : ℕ} {guardian : Address}
    {share : Bytes} (h : submitShare chain d q requestId documentId guardian share = .ok (q', logs)) :
    logs.findSome? Event.grantee = none := by
  unfold submitShare at h
  split at h
  · rw [pure_ok, Prod.mk.injEq] at h
    rw [← h.2]
    rfl
  · simp only [revertIf_bind, pure_ok, Prod.mk.injEq] at h
    rw [← h.2.2]
    split <;> rfl

theorem accumulateFheShare_grantee {requestId : ℕ} {guardian : Address} {payload : Bytes}
    (h : accumulateFheShare q requestId guardian payload = .ok (q', logs)) :
    logs.findSome? Event.grantee = none := by
  unfold accumulateFheShare at h
  split at h
  · rw [pure_ok, Prod.mk.injEq] at h
    rw [← h.2]
    rfl
  · simp only [bind_ok, pure_ok, Prod.mk.injEq] at h
    obtain ⟨sum, _, _, hlogs⟩ := h
    rw [← hlogs]
    rfl

theorem processBLSGuardians_grantee {requestId vaultId documentId : ℕ} {requester : Address}
    {previous : Option Address} {guardianAddresses : List Address} {shares : List Bytes}
    (h : processBLSGuardians chain s requestId vaultId documentId requester q previous guardianAddresses
      shares = .ok (q', logs)) : logs.findSome? Event.grantee = none := by
  induction guardianAddresses generalizing q previous shares logs with
  | nil =>
    simp only [processBLSGuardians, pure_ok, Prod.mk.injEq] at h
    rw [← h.2]
    rfl
  | cons guardian rest ih =>
    simp only [processBLSGuardians, bind_ok, revertIf_ok, exists_const, pure_ok, Prod.mk.injEq] at h
    obtain ⟨_, _, _, _, ⟨submitted, ev⟩, hshare, ⟨processed, ev'⟩, hrest, hq, rfl⟩ := h
    cases hq
    rw [List.findSome?_append, submitShare_grantee hshare, ih hrest]
    rfl

/-! ## What an approval grants -/

/-- The grant a settled request ends in. -/
structure GrantsRequest (s : State L) (requestId : ℕ) (a : Grants) : Prop where
  existing : (s.requests.accessRequests requestId).requestId ≠ 0
  holder : ownsVaultToken s.tokens (s.requests.accessRequests requestId).requester
    (requestVault s requestId) = true
  grant : a = (grantAccess s.documents s.grants requestId
    (s.requests.accessRequests requestId).documentId
    (s.requests.accessRequests requestId).requester).1

/-- The grants after an approval, with the grantee its events name. -/
inductive GrantOutcome (s : State L) (requestId : ℕ) : Grants → Option (ℕ × Address) → Prop
  | kept : GrantOutcome s requestId s.grants none
  | granted {a : Grants} : GrantsRequest s requestId a → GrantOutcome s requestId a
      (some ((s.requests.accessRequests requestId).documentId,
        (s.requests.accessRequests requestId).requester))

theorem settleRequest_outcome {requestId : ℕ} (hpending : PendingAt env s requestId)
    (hdoc : (q.accessRequests requestId).documentId = (s.requests.accessRequests requestId).documentId)
    (hreq : (q.accessRequests requestId).requester = (s.requests.accessRequests requestId).requester) :
    GrantOutcome s requestId (settleRequest s q requestId (requestVault s requestId)).1.2
      ((settleRequest s q requestId (requestVault s requestId)).2.findSome? Event.grantee) := by
  unfold settleRequest
  dsimp only
  rw [hdoc, hreq]
  split
  · exact .kept
  · next howns =>
    exact .granted ⟨hpending.existing, Bool.eq_true_of_not_eq_false howns, rfl⟩

theorem settleIfReached_outcome {requestId : ℕ} (hpending : PendingAt env s requestId)
    (hdoc : (q.accessRequests requestId).documentId = (s.requests.accessRequests requestId).documentId)
    (hreq : (q.accessRequests requestId).requester = (s.requests.accessRequests requestId).requester) :
    GrantOutcome s requestId (settleIfReached s q requestId (requestVault s requestId)).1.2
      ((settleIfReached s q requestId (requestVault s requestId)).2.findSome? Event.grantee) := by
  unfold settleIfReached
  split
  · exact settleRequest_outcome hpending hdoc hreq
  · exact .kept

theorem PendingAt.settled {requestId : ℕ} {guardian : Address} {submitted : Requests}
    (hpending : PendingAt env s requestId)
    (hsame : SameBookkeeping (recordApproval s.requests requestId guardian) submitted) :
    GrantOutcome s requestId (settleIfReached s submitted requestId (requestVault s requestId)).1.2
      ((settleIfReached s submitted requestId (requestVault s requestId)).2.findSome? Event.grantee) :=
  settleIfReached_outcome hpending (by simp [hsame.requests, recordApproval])
    (by simp [hsame.requests, recordApproval])

theorem approveAccess_outcome {requestId : ℕ} {share : Bytes}
    (h : approveAccess chain env s requestId share = .ok ((q, a), logs)) :
    GrantOutcome s requestId a (logs.findSome? Event.grantee) := by
  simp only [approveAccess, ↓revertIf_bind, bind_ok, pure_ok, Prod.mk.injEq, checkPendingRequest_ok] at h
  obtain ⟨_, hpending, _, _, _, _, _, ⟨submitted, ev⟩, hshare, hq, rfl⟩ := h
  have hsettled := hpending.settled (submitShare_bookkeeping hshare)
  rw [hq] at hsettled
  rw [List.findSome?_append, List.findSome?_append, submitShare_grantee hshare]
  exact hsettled

theorem approveAccessDelegated_outcome {requestId validUntil nonce : ℕ} {guardian : Address}
    {signature share : Bytes}
    (h : approveAccessDelegated chain env s requestId guardian validUntil nonce signature share =
      .ok ((q, a), logs)) : GrantOutcome s requestId a (logs.findSome? Event.grantee) := by
  simp only [approveAccessDelegated, ↓revertIf_bind, bind_ok, pure_ok, Prod.mk.injEq,
    checkPendingRequest_ok] at h
  obtain ⟨_, hpending, _, _, _, _, _, ⟨submitted, ev⟩, hshare, hq, rfl⟩ := h
  have hsettled := hpending.settled (submitShare_bookkeeping hshare)
  rw [hq] at hsettled
  rw [List.findSome?_append, List.findSome?_append, submitShare_grantee hshare]
  exact hsettled

theorem approveAccessFHE_outcome {requestId : ℕ} {payload : Bytes}
    (h : approveAccessFHE chain env s requestId payload = .ok ((q, a), logs)) :
    GrantOutcome s requestId a (logs.findSome? Event.grantee) := by
  simp only [approveAccessFHE, ↓revertIf_bind, bind_ok, pure_ok, Prod.mk.injEq,
    checkPendingRequest_ok] at h
  obtain ⟨_, hpending, _, _, _, _, _, ⟨accumulated, ev⟩, hshare, hq, rfl⟩ := h
  have hsettled := hpending.settled (accumulateFheShare_bookkeeping hshare)
  rw [hq] at hsettled
  rw [List.findSome?_append, List.findSome?_append, List.findSome?_append,
    accumulateFheShare_grantee hshare]
  -- the aggregate is announced after the grant
  have haggregated : (if ((settleIfReached s accumulated requestId (requestVault s requestId)).1.1.accessRequests
      requestId).status = .APPROVED then
      [Event.FheSharesAggregated requestId (s.requests.accessRequests requestId).documentId
        (s.requests.accessRequests requestId).requester (accumulated.fheRequestAccumulator requestId)]
      else []).findSome? Event.grantee = none := by
    split <;> rfl
  rw [haggregated, Option.or_none]
  exact hsettled

theorem approveAccessBLS_outcome {requestId : ℕ} {guardianAddresses : List Address}
    {aggregatedSignature aggregatedPublicKey : Bytes} {shares : List Bytes}
    (h : approveAccessBLS chain env s requestId guardianAddresses aggregatedSignature aggregatedPublicKey
      shares = .ok ((q, a), logs)) : GrantOutcome s requestId a (logs.findSome? Event.grantee) := by
  simp only [approveAccessBLS, ↓revertIf_bind, bind_ok, pure_ok, Prod.mk.injEq,
    checkPendingRequest_ok] at h
  obtain ⟨_, hpending, _, ⟨processed, ev⟩, hloop, _, _, hq, rfl⟩ := h
  have hsame := (processBLSGuardians_ok hloop).1
  have hsettled := settleRequest_outcome (q := processed) hpending (by rw [hsame.requests])
    (by rw [hsame.requests])
  rw [hq] at hsettled
  rw [List.findSome?_append, List.findSome?_append, processBLSGuardians_grantee hloop]
  exact hsettled

theorem execApproval_outcome {c : ApprovalCall}
    (h : execApproval chain env s c = .ok ((q, a), logs)) :
    ∃ requestId, GrantOutcome s requestId a (logs.findSome? Event.grantee) := by
  cases c with
  | approveAccess requestId share => exact ⟨requestId, approveAccess_outcome h⟩
  | approveAccessByDelegation requestId guardian validUntil nonce signature share =>
    exact ⟨requestId, approveAccessDelegated_outcome h⟩
  | approveAccessDelegated requestId guardian validUntil nonce signature share =>
    exact ⟨requestId, approveAccessDelegated_outcome h⟩
  | approveAccessFHE requestId payload => exact ⟨requestId, approveAccessFHE_outcome h⟩
  | approveAccessBLS requestId guardianAddresses aggregatedSignature aggregatedPublicKey shares =>
    exact ⟨requestId, approveAccessBLS_outcome h⟩

/-! ## What a transition does to the grants -/

/-- Each kind of transition, as far as grants, versions and passes go. -/
inductive AccessEffect (nft : ERC721 L) (s : State L) (i : Invocation) (s' : State L) : Prop
  | moved : TokensOk nft s'.tokens s'.grants →
      VersionsFollow s.tokens s.grants s'.tokens s'.grants →
      s'.documents.documents = s.documents.documents → granted ⟨s, i, s'⟩ = none →
      revoked ⟨s, i, s'⟩ = none → uploaded ⟨s, i, s'⟩ = none → AccessEffect nft s i s'
  | uploaded {d vaultId : ℕ} {u : Address} {document : Document} : d = s.documents.documentIdCounter + 1 →
      document.vaultId = uint64 vaultId → s.governance.isGuardian vaultId u = true →
      s'.documents.documents = Function.update s.documents.documents d document →
      s'.documents.documentIdCounter = d → s'.tokens = s.tokens →
      s'.grants = (grantAccess s'.documents s.grants 0 d u).1 →
      granted ⟨s, i, s'⟩ = some (d, u) → revoked ⟨s, i, s'⟩ = none → uploaded ⟨s, i, s'⟩ = some d →
      AccessEffect nft s i s'
  | approved {requestId : ℕ} : GrantsRequest s requestId s'.grants → s'.documents = s.documents →
      s'.tokens = s.tokens →
      granted ⟨s, i, s'⟩ = some ((s.requests.accessRequests requestId).documentId,
        (s.requests.accessRequests requestId).requester) →
      revoked ⟨s, i, s'⟩ = none → uploaded ⟨s, i, s'⟩ = none → AccessEffect nft s i s'
  | revoked {d : ℕ} {u : Address} : (s.documents.documents d).id ≠ 0 → s'.documents = s.documents →
      s'.tokens = s.tokens →
      s'.grants.hasAccess = Mapping.set₂ s.grants.hasAccess d u false →
      s'.grants.documentAccessVersion = Mapping.set₂ s.grants.documentAccessVersion d u 0 →
      s'.grants.vaultAccessVersion = Mapping.set₂ s.grants.vaultAccessVersion
        (s.documents.documents d).vaultId u
        (s.grants.vaultAccessVersion (s.documents.documents d).vaultId u + 1) →
      granted ⟨s, i, s'⟩ = none →
      revoked ⟨s, i, s'⟩ = some (d, (s.documents.documents d).vaultId, u) →
      uploaded ⟨s, i, s'⟩ = none → AccessEffect nft s i s'

theorem addDocument_ok {vaultId : ℕ} {encryptedMetadata ipfsHash : Bytes} {requiredAccess : AccessLevel}
    {releaseCondition : ReleaseCondition} {guardiansList : List Address} {shares : List Bytes}
    {documents : Documents}
    (h : addDocument chain env s.governance s.documents s.grants vaultId encryptedMetadata ipfsHash
      requiredAccess releaseCondition guardiansList shares = .ok ((documents, a), logs)) :
    s.governance.isGuardian vaultId env.sender = true ∧
      (∃ document : Document, document.vaultId = uint64 vaultId ∧ documents.documents =
        Function.update s.documents.documents (s.documents.documentIdCounter + 1) document) ∧
      documents.documentIdCounter = s.documents.documentIdCounter + 1 ∧
      a = (grantAccess documents s.grants 0 (s.documents.documentIdCounter + 1) env.sender).1 ∧
      logs.findSome? Event.grantee = some (s.documents.documentIdCounter + 1, env.sender) := by
  simp only [addDocument, bind_ok, revertIf_ok, exists_const, pure_ok, Prod.mk.injEq] at h
  obtain ⟨_, hguardian, _, shared, hshared, ⟨rfl, rfl⟩, rfl⟩ := h
  obtain ⟨hdocs, hcounter⟩ := saveGuardianShares_documents hshared
  refine ⟨Bool.eq_true_of_not_eq_false hguardian, ⟨_, rfl, hdocs⟩, hcounter, ?_, rfl⟩
  unfold grantAccess
  dsimp only
  rw [hdocs]

theorem revokeAccess_ok {d : ℕ} {u : Address}
    (h : revokeAccess chain env s.governance s.documents s.grants d u = .ok (a, logs)) :
    (s.documents.documents d).id ≠ 0 ∧
      a.hasAccess = Mapping.set₂ s.grants.hasAccess d u false ∧
      a.documentAccessVersion = Mapping.set₂ s.grants.documentAccessVersion d u 0 ∧
      a.vaultAccessVersion = Mapping.set₂ s.grants.vaultAccessVersion
        (s.documents.documents d).vaultId u
        (s.grants.vaultAccessVersion (s.documents.documents d).vaultId u + 1) := by
  simp only [revokeAccess, revertIf_bind] at h
  obtain ⟨hdoc, _, h⟩ := h
  split at h
  · simp only [pure_ok, Prod.mk.injEq] at h
    obtain ⟨rfl, _⟩ := h
    exact ⟨hdoc, rfl, rfl, rfl⟩
  · simp only [pure_ok, Prod.mk.injEq] at h
    obtain ⟨rfl, _⟩ := h
    exact ⟨hdoc, rfl, rfl, rfl⟩

theorem Steps.access_effect {i : Invocation} (hI : TokensOk nft s.tokens s.grants)
    (hstep : Steps chain nft s i s') : AccessEffect nft s i s' := by
  cases hstep.effect with
  | addDocument _ hadd =>
    obtain ⟨hguardian, ⟨document, hvault, hdocs⟩, hcounter, hgrant, hlogs⟩ := addDocument_ok hadd
    exact .uploaded rfl hvault hguardian hdocs hcounter rfl hgrant hlogs rfl (congrArg some hcounter)
  | approval _ happ =>
    obtain ⟨requestId, houtcome⟩ := execApproval_outcome happ
    generalize hgrantee : List.findSome? Event.grantee _ = grantee at houtcome
    cases houtcome with
    | kept => exact .moved hI (.of_same rfl rfl rfl rfl) rfl hgrantee rfl rfl
    | granted hgrants => exact .approved hgrants rfl rfl hgrantee rfl rfl
  | @grants env c grants logs _ hexec =>
    cases c with
    | revokeAccess d u =>
      obtain ⟨hdoc, hhas, hstamp, hversion⟩ := revokeAccess_ok hexec
      exact .revoked hdoc rfl rfl hhas hstamp hversion rfl rfl rfl
    | setCrossChainRevocationEnabled vaultId enabled =>
      simp only [execGrants, setCrossChainRevocationEnabled, ↓revertIf_bind, pure_ok,
        Prod.mk.injEq] at hexec
      obtain ⟨_, _, rfl, _⟩ := hexec
      exact .moved (hI.raised fun _ _ => id) (.of_same rfl rfl rfl rfl) rfl rfl rfl rfl
  | mint _ hmint =>
    obtain ⟨hok, hfollow⟩ := mintAccessToken_follows hI hmint
    exact .moved hok hfollow rfl rfl rfl rfl
  | tokens hexec =>
    obtain ⟨hok, hfollow⟩ := execTokens_ok hI hexec
    exact .moved hok hfollow rfl rfl rfl rfl
  | tokenReceived _ =>
    exact .moved ⟨hI.unminted, hI.balance, hI.nobody, hI.versioned⟩ (.of_same rfl rfl rfl rfl) rfl rfl rfl rfl
  | documents hexec => exact .moved hI (.of_same rfl rfl rfl rfl) (execDocuments_documents hexec).1 rfl rfl rfl
  | _ => exact .moved hI (.of_same rfl rfl rfl rfl) rfl rfl rfl rfl

/-! ## Runs -/

theorem tokensOk {hist : List (Transition (State L) Invocation)} (h : VaultRun chain nft hist s) :
    TokensOk nft s.tokens s.grants := by
  refine h.invariant (I := fun s => TokensOk nft s.tokens s.grants) ?_ ?_
  · rintro s ⟨deployer, rfl⟩
    exact TokensOk.deployed nft
  · intro s i s' hI hstep
    cases hstep.access_effect hI with
    | moved hok _ _ _ _ => exact hok
    | uploaded _ _ _ _ _ htokens hgrants _ _ =>
      rw [htokens, hgrants]
      exact hI.raised fun _ _ => id
    | approved hgrants _ htokens _ _ =>
      rw [htokens, hgrants.grant]
      exact hI.raised fun _ _ => id
    | revoked _ _ htokens _ _ hversion _ _ =>
      rw [htokens]
      refine hI.raised fun u v hpos => ?_
      rw [hversion, Mapping.set₂_apply]
      split
      · omega
      · exact hpos

theorem grants_counted {hist : List (Transition (State L) Invocation)} (h : VaultRun chain nft hist s) :
    ∀ d u, s.grants.hasAccess d u = true → d ≤ s.documents.documentIdCounter := by
  refine h.relates
    (R := fun _ s => ∀ d u, s.grants.hasAccess d u = true → d ≤ s.documents.documentIdCounter) ?_ ?_
  · rintro s ⟨deployer, rfl⟩ d u hd
    cases hd
  · intro hist s i s' hr ih hstep d u hd
    have hcount : s.documents.documentIdCounter ≤ s'.documents.documentIdCounter := by
      cases hstep.document_effect with
      | kept _ hcounter => exact hcounter.ge
      | added _ _ hcounter => omega
    cases hstep.access_effect (tokensOk hr) with
    | moved _ hfollow _ _ _ => exact (ih d u (hfollow.hasAccess ▸ hd)).trans hcount
    | @uploaded d₀ vaultId u₀ document _ _ _ _ hcounter _ hgrants _ _ =>
      rw [hgrants] at hd
      change Mapping.set₂ s.grants.hasAccess d₀ u₀ true d u = true at hd
      rw [Mapping.set₂_apply] at hd
      split at hd
      · next heq => exact (heq.1.trans hcounter.symm).le
      · exact (ih d u hd).trans hcount
    | @approved requestId hgrants hdocs _ _ _ =>
      rw [hgrants.grant] at hd
      change Mapping.set₂ s.grants.hasAccess _ _ true d u = true at hd
      rw [Mapping.set₂_apply] at hd
      split at hd
      · next heq =>
        rw [heq.1]
        exact (documentsCounted hr _ ((requestsOk hr).document _ hgrants.existing)).trans hcount
      · exact (ih d u hd).trans hcount
    | revoked _ _ _ hhas _ _ _ _ =>
      rw [hhas, Mapping.set₂_apply] at hd
      split at hd
      · cases hd
      · exact (ih d u hd).trans hcount

end ChainGuard.Evm
