import ChainGuard.Evm.Contract

/-! What an approval does. Submitting a share leaves the approval bookkeeping alone, the three
per-guardian paths record one approval each, and all paths settle a request the same way. -/
namespace ChainGuard.Evm
open Guarded History
set_option autoImplicit false

variable {L : Type} {chain : Chain} {env : Env} {s : State L} {q q' : Requests} {logs : List Event}

/-! ## Submitted shares -/

/-- The bookkeeping of requests, without the shares stored beside it. -/
structure SameBookkeeping (q q' : Requests) : Prop where
  counter : q'.requestIdCounter = q.requestIdCounter
  requests : q'.accessRequests = q.accessRequests
  flags : q'.hasApprovedRequest = q.hasApprovedRequest
  latest : q'.latestRequestId = q.latestRequestId

theorem SameBookkeeping.refl (q : Requests) : SameBookkeeping q q := ⟨rfl, rfl, rfl, rfl⟩

theorem SameBookkeeping.trans {q₁ q₂ q₃ : Requests} (h : SameBookkeeping q₁ q₂)
    (h' : SameBookkeeping q₂ q₃) : SameBookkeeping q₁ q₃ :=
  ⟨h'.counter.trans h.counter, h'.requests.trans h.requests, h'.flags.trans h.flags,
    h'.latest.trans h.latest⟩

theorem submitShare_bookkeeping {d : Documents} {requestId documentId : ℕ} {guardian : Address}
    {share : Bytes} (h : submitShare chain d q requestId documentId guardian share = .ok (q', logs)) :
    SameBookkeeping q q' := by
  unfold submitShare at h
  split at h
  · rw [pure_ok, Prod.mk.injEq] at h
    rw [← h.1]
    exact .refl q
  · simp only [revertIf_bind, pure_ok, Prod.mk.injEq] at h
    rw [← h.2.1]
    exact ⟨rfl, rfl, rfl, rfl⟩

theorem accumulateFheShare_bookkeeping {requestId : ℕ} {guardian : Address} {payload : Bytes}
    (h : accumulateFheShare q requestId guardian payload = .ok (q', logs)) : SameBookkeeping q q' := by
  unfold accumulateFheShare at h
  split at h
  · rw [pure_ok, Prod.mk.injEq] at h
    rw [← h.1]
    exact .refl q
  · simp only [bind_ok, pure_ok, Prod.mk.injEq] at h
    obtain ⟨sum, _, hq, _⟩ := h
    rw [← hq]
    exact ⟨rfl, rfl, rfl, rfl⟩

/-! ## Settlement -/

inductive Settles (s : State L) (q : Requests) (requestId vaultId : ℕ) : Requests → Grants → Prop
  | rejected : ownsVaultToken s.tokens (q.accessRequests requestId).requester vaultId = false →
      Settles s q requestId vaultId (setStatus q requestId .REJECTED) s.grants
  | approved : ownsVaultToken s.tokens (q.accessRequests requestId).requester vaultId = true →
      Settles s q requestId vaultId (setStatus q requestId .APPROVED)
        (grantAccess s.documents s.grants requestId (q.accessRequests requestId).documentId
          (q.accessRequests requestId).requester).1

theorem settleRequest_settles (s : State L) (q : Requests) (requestId vaultId : ℕ) :
    Settles s q requestId vaultId (settleRequest s q requestId vaultId).1.1
      (settleRequest s q requestId vaultId).1.2 := by
  unfold settleRequest
  cases howns : ownsVaultToken s.tokens (q.accessRequests requestId).requester vaultId with
  | false =>
    rw [if_pos howns]
    exact .rejected howns
  | true =>
    rw [if_neg (by simp [howns])]
    exact .approved howns

/-- After one more approval: nothing more below the threshold, settled from it on. -/
inductive SettlesIfReached (s : State L) (q : Requests) (requestId vaultId : ℕ) :
    Requests → Grants → Prop
  | below : (q.accessRequests requestId).approvedBy.length < (s.governance.vaults vaultId).approvalThreshold →
      SettlesIfReached s q requestId vaultId q s.grants
  | reached {q' : Requests} {a : Grants} :
      (s.governance.vaults vaultId).approvalThreshold ≤ (q.accessRequests requestId).approvedBy.length →
      Settles s q requestId vaultId q' a → SettlesIfReached s q requestId vaultId q' a

theorem settleIfReached_settles (s : State L) (q : Requests) (requestId vaultId : ℕ) :
    SettlesIfReached s q requestId vaultId (settleIfReached s q requestId vaultId).1.1
      (settleIfReached s q requestId vaultId).1.2 := by
  unfold settleIfReached
  by_cases hr : thresholdReached s q requestId vaultId = true
  · rw [if_pos hr]
    exact .reached (of_decide_eq_true hr) (settleRequest_settles s q requestId vaultId)
  · rw [if_neg hr]
    refine .below ?_
    simpa [thresholdReached] using hr

theorem Settles.bookkeeping {requestId vaultId : ℕ} {a : Grants} (h : Settles s q requestId vaultId q' a) :
    ∃ status, (status = .APPROVED ∨ status = .REJECTED) ∧ q' = setStatus q requestId status := by
  cases h with
  | rejected _ => exact ⟨.REJECTED, Or.inr rfl, rfl⟩
  | approved _ => exact ⟨.APPROVED, Or.inl rfl, rfl⟩

/-! ## One approval -/

/-- What every approval path requires of the request. -/
structure PendingAt (env : Env) (s : State L) (requestId : ℕ) : Prop where
  existing : (s.requests.accessRequests requestId).requestId ≠ 0
  pending : (s.requests.accessRequests requestId).status = .PENDING
  unexpired : env.timestamp < (s.requests.accessRequests requestId).expiresAt

theorem checkPendingRequest_ok {requestId : ℕ} {u : Unit} :
    checkPendingRequest env s requestId = .ok u ↔ PendingAt env s requestId := by
  simp only [checkPendingRequest, revertIf_bind, revertIf_ok, not_le, ne_eq, not_not]
  constructor
  · rintro ⟨hexisting, hpending, hunexpired⟩
    exact ⟨hexisting, hpending, hunexpired⟩
  · intro h
    exact ⟨h.existing, h.pending, h.unexpired⟩

/-- A delegation that `verifyDelegation` accepts. -/
structure Delegated (chain : Chain) (env : Env) (s : State L) (guardian : Address)
    (vaultId validUntil nonce : ℕ) (signature : Bytes) : Prop where
  unexpired : env.timestamp ≤ validUntil
  unrevoked : s.keys.revokedNonces guardian nonce = false
  is_guardian : s.governance.isGuardian vaultId guardian = true
  recovered : chain.tryRecover (delegationDigest chain guardian env.sender vaultId validUntil nonce)
    signature = some guardian

theorem verifyDelegation_true {guardian : Address} {vaultId validUntil nonce : ℕ} {signature : Bytes}
    (h : verifyDelegation chain env s guardian env.sender vaultId validUntil nonce signature = true) :
    Delegated chain env s guardian vaultId validUntil nonce signature := by
  unfold verifyDelegation at h
  split at h
  · cases h
  · next hexp =>
    split at h
    · cases h
    · next hrev =>
      split at h
      · cases h
      · next hg =>
        exact ⟨not_lt.mp hexp, by simpa using hrev, by simpa using hg, eq_of_beq h⟩

/-- The approver a per-guardian call approves for, and by what right. -/
inductive ApprovesFor (chain : Chain) (env : Env) (s : State L) (requestId : ℕ) :
    ApprovalCall → Address → Prop
  | own (share : Bytes) : ApprovesFor chain env s requestId (.approveAccess requestId share) env.sender
  | ownFHE (payload : Bytes) :
      ApprovesFor chain env s requestId (.approveAccessFHE requestId payload) env.sender
  | delegation (guardian : Address) (validUntil nonce : ℕ) (signature share : Bytes) :
      Delegated chain env s guardian (requestVault s requestId) validUntil nonce signature →
      ApprovesFor chain env s requestId
        (.approveAccessByDelegation requestId guardian validUntil nonce signature share) guardian
  | delegated (guardian : Address) (validUntil nonce : ℕ) (signature share : Bytes) :
      Delegated chain env s guardian (requestVault s requestId) validUntil nonce signature →
      ApprovesFor chain env s requestId
        (.approveAccessDelegated requestId guardian validUntil nonce signature share) guardian

structure OneApproval (env : Env) (s : State L) (requestId : ℕ) (guardian : Address) (q : Requests)
    (a : Grants) : Prop where
  pending : PendingAt env s requestId
  other : (s.requests.accessRequests requestId).requester ≠ guardian
  is_guardian : s.governance.isGuardian (requestVault s requestId) guardian = true
  unflagged : s.requests.hasApprovedRequest requestId guardian = false
  settles : ∃ recorded, SameBookkeeping (recordApproval s.requests requestId guardian) recorded ∧
    SettlesIfReached s recorded requestId (requestVault s requestId) q a

theorem approveAccess_ok {requestId : ℕ} {share : Bytes} {a : Grants}
    (h : approveAccess chain env s requestId share = .ok ((q, a), logs)) :
    OneApproval env s requestId env.sender q a := by
  simp only [approveAccess, ↓revertIf_bind, bind_ok, pure_ok, Prod.mk.injEq,
    checkPendingRequest_ok, Bool.not_eq_false, Bool.not_eq_true] at h
  obtain ⟨_, hpending, hother, hguardian, hflag, _, _, ⟨submitted, ev⟩, hshare, hq, _⟩ := h
  refine ⟨hpending, hother, hguardian, hflag, submitted, submitShare_bookkeeping hshare, ?_⟩
  have hs := settleIfReached_settles s submitted requestId (requestVault s requestId)
  rwa [hq] at hs

theorem approveAccessFHE_ok {requestId : ℕ} {payload : Bytes} {a : Grants}
    (h : approveAccessFHE chain env s requestId payload = .ok ((q, a), logs)) :
    OneApproval env s requestId env.sender q a := by
  simp only [approveAccessFHE, ↓revertIf_bind, bind_ok, pure_ok, Prod.mk.injEq,
    checkPendingRequest_ok, Bool.not_eq_false, Bool.not_eq_true] at h
  obtain ⟨_, hpending, hother, hguardian, hflag, _, _, ⟨accumulated, ev⟩, hshare, hq, _⟩ := h
  refine ⟨hpending, hother, hguardian, hflag, accumulated, accumulateFheShare_bookkeeping hshare, ?_⟩
  have hs := settleIfReached_settles s accumulated requestId (requestVault s requestId)
  rwa [hq] at hs

theorem approveAccessDelegated_ok {requestId validUntil nonce : ℕ} {guardian : Address}
    {signature share : Bytes} {a : Grants}
    (h : approveAccessDelegated chain env s requestId guardian validUntil nonce signature share =
      .ok ((q, a), logs)) :
    OneApproval env s requestId guardian q a ∧
      Delegated chain env s guardian (requestVault s requestId) validUntil nonce signature := by
  simp only [approveAccessDelegated, ↓revertIf_bind, bind_ok, pure_ok, Prod.mk.injEq,
    checkPendingRequest_ok, Bool.not_eq_false, Bool.not_eq_true, not_or] at h
  obtain ⟨_, hpending, hother, hverify, hflag, _, _, ⟨submitted, ev⟩, hshare, hq, _⟩ := h
  have hdel := verifyDelegation_true hverify
  refine ⟨⟨hpending, hother.1, hdel.is_guardian, hflag, submitted, submitShare_bookkeeping hshare, ?_⟩, hdel⟩
  have hs := settleIfReached_settles s submitted requestId (requestVault s requestId)
  rwa [hq] at hs

/-! ## The batch -/

structure BatchMember (s : State L) (vaultId : ℕ) (requester guardian : Address) : Prop where
  is_guardian : s.governance.isGuardian vaultId guardian = true
  other : guardian ≠ requester
  registered : (s.keys.guardianBLSKeys vaultId guardian).registered = true

theorem processBLSGuardians_ok {requestId vaultId documentId : ℕ} {requester : Address}
    {previous : Option Address} {guardianAddresses : List Address} {shares : List Bytes}
    (h : processBLSGuardians chain s requestId vaultId documentId requester q previous guardianAddresses
      shares = .ok (q', logs)) :
    SameBookkeeping q q' ∧ ∀ guardian ∈ guardianAddresses, BatchMember s vaultId requester guardian := by
  induction guardianAddresses generalizing q previous shares logs with
  | nil =>
    simp only [processBLSGuardians, pure_ok, Prod.mk.injEq] at h
    rw [← h.1]
    exact ⟨.refl q, by simp⟩
  | cons guardian rest ih =>
    simp only [processBLSGuardians, ↓revertIf_bind, bind_ok, pure_ok, Prod.mk.injEq,
      Bool.not_eq_false] at h
    obtain ⟨_, _, hg, hother, hreg, ⟨submitted, ev⟩, hshare, ⟨processed, ev'⟩, hrest, hq, _⟩ := h
    cases hq
    obtain ⟨hsame, hall⟩ := ih hrest
    refine ⟨(submitShare_bookkeeping hshare).trans hsame, ?_⟩
    intro x hx
    rcases List.mem_cons.mp hx with rfl | hx
    · exact ⟨hg, hother, hreg⟩
    · exact hall x hx

structure BatchApproval (chain : Chain) (env : Env) (s : State L) (requestId : ℕ)
    (guardianAddresses : List Address) (aggregatedSignature aggregatedPublicKey : Bytes) (q : Requests)
    (a : Grants) : Prop where
  pending : PendingAt env s requestId
  enough : (s.governance.vaults (requestVault s requestId)).approvalThreshold ≤ guardianAddresses.length
  members : ∀ guardian ∈ guardianAddresses, BatchMember s (requestVault s requestId)
    (s.requests.accessRequests requestId).requester guardian
  verified : BLS.verifyAggregated chain aggregatedPublicKey aggregatedSignature
    (BLS.computeApprovalDigest chain requestId (requestVault s requestId)
      (s.requests.accessRequests requestId).documentId
      (s.requests.accessRequests requestId).requester chain.chainId) = true
  settles : ∃ processed, SameBookkeeping s.requests processed ∧
    Settles s processed requestId (requestVault s requestId) q a

theorem approveAccessBLS_ok {requestId : ℕ} {guardianAddresses : List Address}
    {aggregatedSignature aggregatedPublicKey : Bytes} {shares : List Bytes} {a : Grants}
    (h : approveAccessBLS chain env s requestId guardianAddresses aggregatedSignature aggregatedPublicKey
      shares = .ok ((q, a), logs)) :
    BatchApproval chain env s requestId guardianAddresses aggregatedSignature aggregatedPublicKey q a := by
  simp only [approveAccessBLS, BLS.verifyThresholdApproval, ↓revertIf_bind, bind_ok, revertIf_ok,
    pure_ok, Prod.mk.injEq, checkPendingRequest_ok, not_lt] at h
  obtain ⟨_, hpending, henough, ⟨processed, ev⟩, hloop, _, ⟨_, hverified⟩, hq, _⟩ := h
  obtain ⟨hsame, hmembers⟩ := processBLSGuardians_ok hloop
  refine ⟨hpending, henough, hmembers, by simpa using hverified, processed, hsame, ?_⟩
  have hs := settleRequest_settles s processed requestId (requestVault s requestId)
  rwa [hq] at hs

/-! ## Every approval call -/

inductive ApprovalEffect (chain : Chain) (env : Env) (s : State L) :
    ApprovalCall → Requests → Grants → Prop
  | one {c : ApprovalCall} {requestId : ℕ} {guardian : Address} {q : Requests} {a : Grants} :
      ApprovesFor chain env s requestId c guardian → OneApproval env s requestId guardian q a →
      ApprovalEffect chain env s c q a
  | batch {requestId : ℕ} {guardianAddresses : List Address}
      {aggregatedSignature aggregatedPublicKey : Bytes} {shares : List Bytes} {q : Requests} {a : Grants} :
      BatchApproval chain env s requestId guardianAddresses aggregatedSignature aggregatedPublicKey q a →
      ApprovalEffect chain env s (.approveAccessBLS requestId guardianAddresses aggregatedSignature
        aggregatedPublicKey shares) q a

theorem execApproval_effect {c : ApprovalCall} {a : Grants}
    (h : execApproval chain env s c = .ok ((q, a), logs)) : ApprovalEffect chain env s c q a := by
  cases c with
  | approveAccess requestId share => exact .one (.own share) (approveAccess_ok h)
  | approveAccessByDelegation requestId guardian validUntil nonce signature share =>
    obtain ⟨hone, hdel⟩ := approveAccessDelegated_ok h
    exact .one (.delegation guardian validUntil nonce signature share hdel) hone
  | approveAccessDelegated requestId guardian validUntil nonce signature share =>
    obtain ⟨hone, hdel⟩ := approveAccessDelegated_ok h
    exact .one (.delegated guardian validUntil nonce signature share hdel) hone
  | approveAccessFHE requestId payload => exact .one (.ownFHE payload) (approveAccessFHE_ok h)
  | approveAccessBLS requestId guardianAddresses aggregatedSignature aggregatedPublicKey shares =>
    exact .batch (approveAccessBLS_ok h)

end ChainGuard.Evm
