import ChainGuard.Evm.Approvals

/-! The approval quorum of an access request. The list of approvers and the approval flags say
the same along every run, whatever else the contract does between two approvals, and a
request leaves `PENDING` only when its quorum is there. -/
namespace ChainGuard.Evm
open Guarded History
set_option autoImplicit false

variable {L : Type} {chain : Chain} {nft : ERC721 L} {env : Env} {s s' : State L} {logs : List Event}

/-! ## Stored documents -/

theorem saveGuardianShares_kept {documentId : ℕ} {d d' : Documents} {guardiansList : List Address} {shares : List Bytes}
    (h : saveGuardianShares chain documentId d guardiansList shares = .ok d') :
    d' = { d with
      encryptedGuardianShares := d'.encryptedGuardianShares
      guardianShareCommitments := d'.guardianShareCommitments } := by
  induction guardiansList generalizing d shares with
  | nil =>
    simp only [saveGuardianShares, pure_ok] at h
    rw [h]
  | cons guardian rest ih =>
    cases shares with
    | nil => cases h
    | cons share shares => exact ih (d := saveGuardianShare chain documentId d guardian share) h

/-- A refresh that goes through stores its shares as they are saved. -/
theorem refreshGuardianShares_saved {g : Governance} {documentId vaultId : ℕ} {d d' : Documents}
    {seen guardiansList : List Address} {newShares : List Bytes}
    (h : refreshGuardianShares chain g documentId vaultId d seen guardiansList newShares = .ok d') :
    saveGuardianShares chain documentId d guardiansList newShares = .ok d' := by
  induction guardiansList generalizing d seen newShares with
  | nil => exact h
  | cons guardian rest ih =>
    cases newShares with
    | nil => cases h
    | cons share newShares =>
      simp only [refreshGuardianShares, ↓revertIf_bind] at h
      exact ih h.2.2

theorem saveGuardianShares_documents {documentId : ℕ} {d d' : Documents} {guardiansList : List Address}
    {shares : List Bytes} (h : saveGuardianShares chain documentId d guardiansList shares = .ok d') :
    d'.documents = d.documents ∧ d'.documentIdCounter = d.documentIdCounter := by
  rw [saveGuardianShares_kept h]
  exact ⟨rfl, rfl⟩

theorem execDocuments_documents {c : DocumentCall} {d : Documents}
    (h : execDocuments chain env s c = .ok (d, logs)) :
    d.documents = s.documents.documents ∧ d.documentIdCounter = s.documents.documentIdCounter := by
  cases c with
  | setDocumentReleaseCondition documentId condition =>
    simp only [execDocuments, setDocumentReleaseCondition, ↓revertIf_bind, pure_ok, Prod.mk.injEq] at h
    rw [← h.2.2.1]
    exact ⟨rfl, rfl⟩
  | saveGuardianSharesFHE documentId guardiansList sharesFHE =>
    simp only [execDocuments, saveGuardianSharesFHE, ↓revertIf_bind, pure_ok, Prod.mk.injEq] at h
    rw [← h.2.2.2.1]
    exact ⟨rfl, rfl⟩
  | startShareRefresh documentId duration =>
    simp only [execDocuments, startShareRefresh, ↓revertIf_bind, pure_ok, Prod.mk.injEq] at h
    rw [← h.2.2.2.2.1]
    exact ⟨rfl, rfl⟩
  | submitZeroShareCommitment documentId commitments =>
    simp only [execDocuments, submitZeroShareCommitment, ↓revertIf_bind, pure_ok, Prod.mk.injEq] at h
    rw [← h.2.2.2.2.2.2.1]
    exact ⟨rfl, rfl⟩
  | setDocumentVSSCommitments documentId commitments =>
    simp only [execDocuments, setDocumentVSSCommitments, ↓revertIf_bind, pure_ok, Prod.mk.injEq] at h
    rw [← h.2.2.2.1]
    exact ⟨rfl, rfl⟩
  | applyShareRefresh documentId guardiansList newShares newCommitments =>
    simp only [execDocuments, applyShareRefresh, bind_ok, revertIf_ok, exists_const, pure_ok, Prod.mk.injEq] at h
    obtain ⟨_, _, _, _, shared, hshared, _, _, _, _, hd, _⟩ := h
    have hkept := saveGuardianShares_documents (refreshGuardianShares_saved hshared)
    rw [← hd]
    exact hkept

/-- What a transition does to the stored documents. -/
inductive DocumentEffect (s : State L) (i : Invocation) (s' : State L) : Prop
  | kept : s'.documents.documents = s.documents.documents →
      s'.documents.documentIdCounter = s.documents.documentIdCounter → DocumentEffect s i s'
  | added (document : Document) :
      s'.documents.documents =
        Function.update s.documents.documents (s.documents.documentIdCounter + 1) document →
      s'.documents.documentIdCounter = s.documents.documentIdCounter + 1 → DocumentEffect s i s'

theorem Steps.document_effect {i : Invocation} (h : Steps chain nft s i s') : DocumentEffect s i s' := by
  cases h.effect with
  | addDocument _ hadd =>
    simp only [addDocument, bind_ok, revertIf_ok, exists_const, pure_ok, Prod.mk.injEq] at hadd
    obtain ⟨_, _, _, shared, hshared, ⟨rfl, _⟩, _⟩ := hadd
    obtain ⟨hd, hc⟩ := saveGuardianShares_documents hshared
    exact .added _ hd hc
  | documents hexec =>
    obtain ⟨hd, hc⟩ := execDocuments_documents hexec
    exact .kept hd hc
  | _ => exact .kept rfl rfl

/-- A document lives at a number already counted. -/
def DocumentsCounted (s : State L) : Prop :=
  ∀ d, (s.documents.documents d).id ≠ 0 → d ≤ s.documents.documentIdCounter

theorem documentsCounted {hist : List (Transition (State L) Invocation)} (h : VaultRun chain nft hist s) :
    DocumentsCounted s := by
  refine h.invariant ?_ ?_
  · rintro s ⟨deployer, rfl⟩ d hd
    exact absurd rfl hd
  · intro s i s' hI hstep d hd
    cases hstep.document_effect with
    | kept hdoc hcount =>
      rw [hcount]
      exact hI d (hdoc ▸ hd)
    | added document hdoc hcount =>
      rw [hcount]
      rw [hdoc] at hd
      by_cases he : d = s.documents.documentIdCounter + 1
      · omega
      · rw [Function.update_of_ne he] at hd
        have := hI d hd
        omega

theorem Steps.document_kept {i : Invocation} (h : Steps chain nft s i s') (hc : DocumentsCounted s)
    {d : ℕ} (hd : (s.documents.documents d).id ≠ 0) :
    s'.documents.documents d = s.documents.documents d := by
  cases h.document_effect with
  | kept hdoc _ => rw [hdoc]
  | added document hdoc _ =>
    have hle := hc d hd
    rw [hdoc, Function.update_of_ne (by omega)]

/-! ## What a transition does to the requests -/

/-- The request `requestAccess` opens. -/
structure Opens (env : Env) (s : State L) (documentId : ℕ) (q : Requests) : Prop where
  document : (s.documents.documents documentId).id ≠ 0
  counter : q.requestIdCounter = s.requests.requestIdCounter + 1
  requests : q.accessRequests = Function.update s.requests.accessRequests
    (s.requests.requestIdCounter + 1)
    { requestId := s.requests.requestIdCounter + 1, documentId, requester := env.sender,
      approvedBy := [], status := .PENDING, expiresAt := env.timestamp + days 3,
      createdAt := env.timestamp }
  flags : q.hasApprovedRequest = s.requests.hasApprovedRequest

theorem requestAccess_ok {documentId : ℕ} {q : Requests}
    (h : requestAccess env s documentId = .ok (q, logs)) : Opens env s documentId q := by
  simp only [requestAccess, bind_ok, revertIf_ok, exists_const, pure_ok, Prod.mk.injEq] at h
  obtain ⟨hdoc, _, _, _, _, _, _, rfl, _⟩ := h
  exact ⟨hdoc, rfl, rfl, rfl⟩

inductive RequestEffect (chain : Chain) (s : State L) : Invocation → State L → Prop
  | kept {i : Invocation} {s' : State L} : s'.requests = s.requests → RequestEffect chain s i s'
  | opened {env : Env} {documentId : ℕ} {s' : State L} : Opens env s documentId s'.requests →
      s'.documents = s.documents → RequestEffect chain s (env, .requestAccess documentId) s'
  | approval {env : Env} {c : ApprovalCall} {s' : State L} :
      ApprovalEffect chain env s c s'.requests s'.grants → s'.documents = s.documents →
      s'.governance = s.governance → RequestEffect chain s (env, .approval c) s'

theorem Steps.request_effect {i : Invocation} (h : Steps chain nft s i s') :
    RequestEffect chain s i s' := by
  cases h.effect with
  | requestAccess _ hopen => exact .opened (requestAccess_ok hopen) rfl
  | approval _ happ => exact .approval (execApproval_effect happ) rfl rfl
  | _ => exact .kept rfl

/-! ## One approval, request by request -/

section OneApproval
variable {requestId : ℕ} {guardian : Address} {q : Requests} {a : Grants}

theorem OneApproval.flags (h : OneApproval env s requestId guardian q a) :
    q.hasApprovedRequest = Mapping.set₂ s.requests.hasApprovedRequest requestId guardian true := by
  obtain ⟨recorded, hsame, hset⟩ := h.settles
  have hrec : recorded.hasApprovedRequest =
      Mapping.set₂ s.requests.hasApprovedRequest requestId guardian true := hsame.flags
  cases hset with
  | below _ => exact hrec
  | reached _ hs =>
    obtain ⟨status, _, rfl⟩ := hs.bookkeeping
    exact hrec

theorem OneApproval.counter (h : OneApproval env s requestId guardian q a) :
    q.requestIdCounter = s.requests.requestIdCounter := by
  obtain ⟨recorded, hsame, hset⟩ := h.settles
  have hrec : recorded.requestIdCounter = s.requests.requestIdCounter := hsame.counter
  cases hset with
  | below _ => exact hrec
  | reached _ hs =>
    obtain ⟨status, _, rfl⟩ := hs.bookkeeping
    exact hrec

theorem OneApproval.request (h : OneApproval env s requestId guardian q a) :
    ∃ status, q.accessRequests = Function.update s.requests.accessRequests requestId
        { s.requests.accessRequests requestId with
          approvedBy := (s.requests.accessRequests requestId).approvedBy ++ [guardian], status } ∧
      (status = .PENDING ∨ ((status = .APPROVED ∨ status = .REJECTED) ∧
        (s.governance.vaults (requestVault s requestId)).approvalThreshold ≤
          ((s.requests.accessRequests requestId).approvedBy ++ [guardian]).length)) := by
  obtain ⟨recorded, hsame, hset⟩ := h.settles
  have hrec : recorded.accessRequests = Function.update s.requests.accessRequests requestId
      { s.requests.accessRequests requestId with
        approvedBy := (s.requests.accessRequests requestId).approvedBy ++ [guardian] } := hsame.requests
  cases hset with
  | below _ =>
    refine ⟨.PENDING, ?_, Or.inl rfl⟩
    rw [hrec, ← h.pending.pending]
  | reached hlen hs =>
    obtain ⟨status, hstatus, rfl⟩ := hs.bookkeeping
    refine ⟨status, ?_, Or.inr ⟨hstatus, ?_⟩⟩
    · change Function.update recorded.accessRequests requestId
        { recorded.accessRequests requestId with status } = _
      rw [hrec]
      simp
    · rw [hrec] at hlen
      simpa using hlen

end OneApproval

theorem BatchApproval.bookkeeping {requestId : ℕ} {guardianAddresses : List Address}
    {sig aggPk : Bytes} {q : Requests} {a : Grants}
    (h : BatchApproval chain env s requestId guardianAddresses sig aggPk q a) :
    ∃ status, (status = .APPROVED ∨ status = .REJECTED) ∧
      SameBookkeeping (setStatus s.requests requestId status) q := by
  obtain ⟨processed, hsame, hset⟩ := h.settles
  obtain ⟨status, hstatus, rfl⟩ := hset.bookkeeping
  refine ⟨status, hstatus, hsame.counter, ?_, hsame.flags, hsame.latest⟩
  change Function.update processed.accessRequests requestId
    { processed.accessRequests requestId with status } = _
  rw [hsame.requests]
  rfl

/-! ## The invariant of the requests -/

/-- The bookkeeping of the approvals in every state the contract reaches. -/
structure RequestsOk (s : State L) : Prop where
  unopened : ∀ r, s.requests.requestIdCounter < r → s.requests.accessRequests r = {}
  unflagged : ∀ r g, s.requests.requestIdCounter < r → s.requests.hasApprovedRequest r g = false
  document : ∀ r, (s.requests.accessRequests r).requestId ≠ 0 →
    (s.documents.documents (s.requests.accessRequests r).documentId).id ≠ 0
  counts : ∀ r, Tally.Counts (s.requests.hasApprovedRequest r) (s.requests.accessRequests r).approvedBy
  not_requester : ∀ r, (s.requests.accessRequests r).requester ∉ (s.requests.accessRequests r).approvedBy

theorem RequestsOk.deployed (nft : ERC721 L) (deployer : Address) :
    RequestsOk (State.deployed nft deployer) where
  unopened := fun _ _ => rfl
  unflagged := fun _ _ _ => rfl
  document := fun _ h => absurd rfl h
  counts := fun _ => Tally.Counts.empty fun _ => rfl
  not_requester := fun _ => List.not_mem_nil

theorem RequestsOk.kept {i : Invocation} (hI : RequestsOk s) (hc : DocumentsCounted s)
    (hstep : Steps chain nft s i s') (hreq : s'.requests = s.requests) : RequestsOk s' where
  unopened := by
    rw [hreq]
    exact hI.unopened
  unflagged := by
    rw [hreq]
    exact hI.unflagged
  document := fun r hr => by
    rw [hreq] at hr ⊢
    rw [hstep.document_kept hc (hI.document r hr)]
    exact hI.document r hr
  counts := by
    rw [hreq]
    exact hI.counts
  not_requester := by
    rw [hreq]
    exact hI.not_requester

theorem RequestsOk.opened {documentId : ℕ} (hI : RequestsOk s) (hopen : Opens env s documentId s'.requests)
    (hdoc : s'.documents = s.documents) : RequestsOk s' := by
  have hnew := hopen.requests
  have hold : ∀ r, r ≠ s.requests.requestIdCounter + 1 →
      s'.requests.accessRequests r = s.requests.accessRequests r := fun r hr => by
    rw [hnew, Function.update_of_ne hr]
  refine ⟨?_, ?_, ?_, ?_, ?_⟩
  · intro r hr
    rw [hopen.counter] at hr
    rw [hold r (by omega)]
    exact hI.unopened r (by omega)
  · intro r g hr
    rw [hopen.counter] at hr
    rw [hopen.flags]
    exact hI.unflagged r g (by omega)
  · intro r hr
    rw [hdoc]
    by_cases he : r = s.requests.requestIdCounter + 1
    · subst he
      rw [hnew, Function.update_self]
      exact hopen.document
    · rw [hold r he] at hr ⊢
      exact hI.document r hr
  · intro r
    rw [hopen.flags]
    by_cases he : r = s.requests.requestIdCounter + 1
    · subst he
      rw [hnew, Function.update_self]
      exact Tally.Counts.empty fun g => hI.unflagged _ g (by omega)
    · rw [hold r he]
      exact hI.counts r
  · intro r
    by_cases he : r = s.requests.requestIdCounter + 1
    · subst he
      rw [hnew, Function.update_self]
      exact List.not_mem_nil
    · rw [hold r he]
      exact hI.not_requester r

theorem PendingAt.opened {requestId : ℕ} (h : PendingAt env s requestId) (hI : RequestsOk s) :
    requestId ≤ s.requests.requestIdCounter := by
  by_contra hlt
  exact h.existing (by rw [hI.unopened requestId (by omega)])

theorem RequestsOk.one {requestId : ℕ} {guardian : Address} (hI : RequestsOk s)
    (hone : OneApproval env s requestId guardian s'.requests s'.grants)
    (hdoc : s'.documents = s.documents) : RequestsOk s' := by
  obtain ⟨status, hreq, _⟩ := hone.request
  have hle := hone.pending.opened hI
  have hother : ∀ r, r ≠ requestId → s'.requests.accessRequests r = s.requests.accessRequests r :=
    fun r hr => by rw [hreq, Function.update_of_ne hr]
  have hflags : ∀ r, r ≠ requestId →
      s'.requests.hasApprovedRequest r = s.requests.hasApprovedRequest r := fun r hr => by
    rw [hone.flags, Mapping.set₂_other _ _ _ _ _ hr]
  refine ⟨?_, ?_, ?_, ?_, ?_⟩
  · intro r hr
    rw [hone.counter] at hr
    rw [hother r (by omega)]
    exact hI.unopened r hr
  · intro r g hr
    rw [hone.counter] at hr
    rw [hflags r (by omega)]
    exact hI.unflagged r g hr
  · intro r hr
    rw [hdoc]
    by_cases he : r = requestId
    · subst he
      rw [hreq, Function.update_self]
      exact hI.document r hone.pending.existing
    · rw [hother r he] at hr ⊢
      exact hI.document r hr
  · intro r
    by_cases he : r = requestId
    · subst he
      rw [hreq, Function.update_self, hone.flags, Mapping.set₂_row]
      exact (hI.counts r).push hone.unflagged
    · rw [hother r he, hflags r he]
      exact hI.counts r
  · intro r
    by_cases he : r = requestId
    · subst he
      rw [hreq, Function.update_self]
      simp only [List.mem_append, List.mem_singleton, not_or]
      exact ⟨hI.not_requester r, hone.other⟩
    · rw [hother r he]
      exact hI.not_requester r

theorem RequestsOk.batch {requestId : ℕ} {guardianAddresses : List Address} {sig aggPk : Bytes}
    (hI : RequestsOk s)
    (hbatch : BatchApproval chain env s requestId guardianAddresses sig aggPk s'.requests s'.grants)
    (hdoc : s'.documents = s.documents) : RequestsOk s' := by
  obtain ⟨status, _, hsame⟩ := hbatch.bookkeeping
  have hle := hbatch.pending.opened hI
  have hreq : s'.requests.accessRequests = Function.update s.requests.accessRequests requestId
      { s.requests.accessRequests requestId with status } := hsame.requests
  have hflags : s'.requests.hasApprovedRequest = s.requests.hasApprovedRequest := hsame.flags
  have hcount : s'.requests.requestIdCounter = s.requests.requestIdCounter := hsame.counter
  have hother : ∀ r, r ≠ requestId → s'.requests.accessRequests r = s.requests.accessRequests r :=
    fun r hr => by rw [hreq, Function.update_of_ne hr]
  refine ⟨?_, ?_, ?_, ?_, ?_⟩
  · intro r hr
    rw [hcount] at hr
    rw [hother r (by omega)]
    exact hI.unopened r hr
  · intro r g hr
    rw [hcount] at hr
    rw [hflags]
    exact hI.unflagged r g hr
  · intro r hr
    rw [hdoc]
    by_cases he : r = requestId
    · subst he
      rw [hreq, Function.update_self] at hr ⊢
      exact hI.document r hr
    · rw [hother r he] at hr ⊢
      exact hI.document r hr
  · intro r
    rw [hflags]
    by_cases he : r = requestId
    · subst he
      rw [hreq, Function.update_self]
      exact hI.counts r
    · rw [hother r he]
      exact hI.counts r
  · intro r
    by_cases he : r = requestId
    · subst he
      rw [hreq, Function.update_self]
      exact hI.not_requester r
    · rw [hother r he]
      exact hI.not_requester r

theorem RequestsOk.step {i : Invocation} (hI : RequestsOk s) (hc : DocumentsCounted s)
    (hstep : Steps chain nft s i s') : RequestsOk s' := by
  cases hstep.request_effect with
  | kept hreq => exact hI.kept hc hstep hreq
  | opened hopen hdoc => exact hI.opened hopen hdoc
  | approval happ hdoc _ =>
    cases happ with
    | one _ hone => exact hI.one hone hdoc
    | batch hbatch => exact hI.batch hbatch hdoc

theorem requestsOk {hist : List (Transition (State L) Invocation)} (h : VaultRun chain nft hist s) :
    RequestsOk s := by
  refine h.relates (R := fun _ s => RequestsOk s) ?_ ?_
  · rintro s ⟨deployer, rfl⟩
    exact RequestsOk.deployed nft deployer
  · intro hist s i s' hr hI hstep
    exact hI.step (documentsCounted hr) hstep

/-! ## A request keeps its vault -/

theorem OneApproval.identity {requestId : ℕ} {guardian : Address} {q : Requests} {a : Grants}
    (h : OneApproval env s requestId guardian q a) (r : ℕ) :
    (q.accessRequests r).requestId = (s.requests.accessRequests r).requestId ∧
      (q.accessRequests r).documentId = (s.requests.accessRequests r).documentId := by
  obtain ⟨status, hreq, _⟩ := h.request
  rw [hreq]
  by_cases he : r = requestId
  · subst he
    simp
  · simp [he]

theorem BatchApproval.identity {requestId : ℕ} {guardianAddresses : List Address} {sig aggPk : Bytes}
    {q : Requests} {a : Grants} (h : BatchApproval chain env s requestId guardianAddresses sig aggPk q a)
    (r : ℕ) : (q.accessRequests r).requestId = (s.requests.accessRequests r).requestId ∧
      (q.accessRequests r).documentId = (s.requests.accessRequests r).documentId := by
  obtain ⟨status, _, hsame⟩ := h.bookkeeping
  rw [hsame.requests]
  by_cases he : r = requestId
  · subst he
    simp [setStatus]
  · simp [setStatus, he]

theorem Steps.request_identity {i : Invocation} (hstep : Steps chain nft s i s') (hI : RequestsOk s)
    (hc : DocumentsCounted s) {r : ℕ} (hr : (s.requests.accessRequests r).requestId ≠ 0) :
    (s'.requests.accessRequests r).requestId ≠ 0 ∧ requestVault s' r = requestVault s r := by
  have hdoc := hstep.document_kept hc (hI.document r hr)
  suffices hsame : (s'.requests.accessRequests r).requestId = (s.requests.accessRequests r).requestId ∧
      (s'.requests.accessRequests r).documentId = (s.requests.accessRequests r).documentId by
    refine ⟨hsame.1 ▸ hr, ?_⟩
    rw [requestVault, hsame.2, hdoc, requestVault]
  cases hstep.request_effect with
  | kept hreq => simp [hreq]
  | opened hopen _ =>
    have hne : r ≠ s.requests.requestIdCounter + 1 := by
      rintro rfl
      exact hr (by rw [hI.unopened _ (by omega)])
    rw [hopen.requests]
    simp [hne]
  | approval happ _ _ =>
    cases happ with
    | one _ hone => exact hone.identity r
    | batch hbatch => exact hbatch.identity r

theorem vault_fixed {hist : List (Transition (State L) Invocation)} (h : VaultRun chain nft hist s) :
    ∀ t ∈ hist, ∀ r, (t.pre.requests.accessRequests r).requestId ≠ 0 →
      (s.requests.accessRequests r).requestId ≠ 0 ∧ requestVault t.pre r = requestVault s r := by
  refine h.relates (R := fun hist s => ∀ t ∈ hist, ∀ r,
    (t.pre.requests.accessRequests r).requestId ≠ 0 →
      (s.requests.accessRequests r).requestId ≠ 0 ∧ requestVault t.pre r = requestVault s r)
    (by simp) ?_
  intro hist s i s' hr ih hstep t ht r hex
  have hnow : (s.requests.accessRequests r).requestId ≠ 0 ∧ requestVault t.pre r = requestVault s r := by
    rcases List.mem_cons.mp ht with rfl | ht
    · exact ⟨hex, rfl⟩
    · exact ih t ht r hex
  obtain ⟨hex', hv⟩ := hstep.request_identity (requestsOk hr) (documentsCounted hr) hnow.1
  exact ⟨hex', hnow.2.trans hv.symm⟩

/-! ## Who approved, and when a request is settled -/

/-- The transition adds `g` to the approvers of request `r`. -/
def Adds (r : ℕ) (g : Address) (t : Transition (State L) Invocation) : Prop :=
  g ∉ (t.pre.requests.accessRequests r).approvedBy ∧ g ∈ (t.post.requests.accessRequests r).approvedBy

/-- `approveAccess` or `approveAccessFHE` by `g` itself. -/
def OwnCall (r : ℕ) (g : Address) (t : Transition (State L) Invocation) : Prop :=
  t.label.1.sender = g ∧ ((∃ share, t.label.2 = .approval (.approveAccess r share)) ∨
    ∃ payload, t.label.2 = .approval (.approveAccessFHE r payload))

/-- `approveAccessDelegated` or `approveAccessByDelegation` by a delegate to whom `g` signed an
unexpired and unrevoked delegation for vault `v`. -/
def DelegateCall (chain : Chain) (Signed : Address → Bytes32 → Prop) (r v : ℕ) (g : Address)
    (t : Transition (State L) Invocation) : Prop :=
  ∃ validUntil nonce signature share,
    (t.label.2 = .approval (.approveAccessDelegated r g validUntil nonce signature share) ∨
      t.label.2 = .approval (.approveAccessByDelegation r g validUntil nonce signature share)) ∧
    t.label.1.timestamp ≤ validUntil ∧ t.pre.keys.revokedNonces g nonce = false ∧
    Signed g (delegationDigest chain g t.label.1.sender v validUntil nonce)

def ApprovalCall.perGuardian : ApprovalCall → Bool
  | .approveAccessBLS .. => false
  | _ => true

/-- The status of request `r` changes. -/
def Moves (r : ℕ) (t : Transition (State L) Invocation) : Prop :=
  (t.pre.requests.accessRequests r).status ≠ (t.post.requests.accessRequests r).status

theorem Steps.adds {i : Invocation} (hstep : Steps chain nft s i s') {r : ℕ} {g : Address}
    (hadd : Adds r g ⟨s, i, s'⟩) : ∃ env c, i = (env, .approval c) ∧
      ApprovesFor chain env s r c g ∧ OneApproval env s r g s'.requests s'.grants := by
  obtain ⟨hnot, hin⟩ := hadd
  cases hstep.request_effect with
  | kept hreq => exact absurd (hreq ▸ hin) hnot
  | opened hopen _ =>
    rw [hopen.requests] at hin
    by_cases he : r = s.requests.requestIdCounter + 1
    · subst he
      simp at hin
    · rw [Function.update_of_ne he] at hin
      exact absurd hin hnot
  | @approval env c _ happ _ _ =>
    cases happ with
    | @one _ requestId guardian _ _ hfor hone =>
      obtain ⟨status, hreq, _⟩ := hone.request
      rw [hreq] at hin
      by_cases he : r = requestId
      · subst he
        rw [Function.update_self, List.mem_append, List.mem_singleton] at hin
        rcases hin with hin | rfl
        · exact absurd hin hnot
        · exact ⟨env, c, rfl, hfor, hone⟩
      · rw [Function.update_of_ne he] at hin
        exact absurd hin hnot
    | @batch requestId _ _ _ _ _ _ hbatch =>
      obtain ⟨status, _, hsame⟩ := hbatch.bookkeeping
      rw [hsame.requests] at hin
      refine absurd ?_ hnot
      by_cases he : r = requestId
      · subst he
        simpa [setStatus] using hin
      · simpa [setStatus, he] using hin

theorem Steps.moves {i : Invocation} (hstep : Steps chain nft s i s') (hI : RequestsOk s) {r : ℕ}
    (hmove : Moves r ⟨s, i, s'⟩) :
    (s.requests.accessRequests r).status = .PENDING ∧
      ((s'.requests.accessRequests r).status = .APPROVED ∨
        (s'.requests.accessRequests r).status = .REJECTED) ∧
      ∃ env c, i = (env, .approval c) ∧ PendingAt env s r ∧ (c.perGuardian = true →
        (s'.governance.vaults (requestVault s r)).approvalThreshold ≤
          (s'.requests.accessRequests r).approvedBy.length) := by
  unfold Moves at hmove
  cases hstep.request_effect with
  | kept hreq => exact absurd (by rw [hreq]) hmove
  | opened hopen _ =>
    refine absurd ?_ hmove
    rw [hopen.requests]
    by_cases he : r = s.requests.requestIdCounter + 1
    · subst he
      rw [Function.update_self, hI.unopened _ (by omega)]
    · rw [Function.update_of_ne he]
  | @approval env c _ happ _ hgov =>
    cases happ with
    | @one _ requestId guardian _ _ hfor hone =>
      obtain ⟨status, hreq, hstatus⟩ := hone.request
      by_cases he : r = requestId
      · subst he
        rw [hreq, Function.update_self] at hmove ⊢
        rcases hstatus with rfl | ⟨hstatus, hlen⟩
        · exact absurd hone.pending.pending hmove
        · refine ⟨hone.pending.pending, hstatus, env, c, rfl, hone.pending, fun _ => ?_⟩
          rw [hgov]
          exact hlen
      · rw [hreq, Function.update_of_ne he] at hmove
        exact absurd rfl hmove
    | @batch requestId _ _ _ _ _ _ hbatch =>
      obtain ⟨status, hstatus, hsame⟩ := hbatch.bookkeeping
      have hreq : s'.requests.accessRequests = Function.update s.requests.accessRequests requestId
          { s.requests.accessRequests requestId with status } := hsame.requests
      by_cases he : r = requestId
      · subst he
        refine ⟨hbatch.pending.pending, ?_, env, _, rfl, hbatch.pending, fun hper => by cases hper⟩
        rw [hreq, Function.update_self]
        exact hstatus
      · rw [hreq, Function.update_of_ne he] at hmove
        exact absurd rfl hmove

theorem ApprovesFor.authorized {Signed : Address → Bytes32 → Prop} {s' : State L}
    (hunforgeable : ∀ digest signature signer,
      chain.tryRecover digest signature = some signer → Signed signer digest)
    {r : ℕ} {g : Address} {c : ApprovalCall} (h : ApprovesFor chain env s r c g) :
    OwnCall r g ⟨s, (env, .approval c), s'⟩ ∨
      DelegateCall chain Signed r (requestVault s r) g ⟨s, (env, .approval c), s'⟩ := by
  cases h with
  | own share => exact Or.inl ⟨rfl, Or.inl ⟨share, rfl⟩⟩
  | ownFHE payload => exact Or.inl ⟨rfl, Or.inr ⟨payload, rfl⟩⟩
  | delegation guardian validUntil nonce signature share hdel =>
    exact Or.inr ⟨validUntil, nonce, signature, share, Or.inr rfl, hdel.unexpired, hdel.unrevoked,
      hunforgeable _ _ _ hdel.recovered⟩
  | delegated guardian validUntil nonce signature share hdel =>
    exact Or.inr ⟨validUntil, nonce, signature, share, Or.inl rfl, hdel.unexpired, hdel.unrevoked,
      hunforgeable _ _ _ hdel.recovered⟩

theorem approver_added {hist : List (Transition (State L) Invocation)} (h : VaultRun chain nft hist s)
    (r : ℕ) : ∀ g ∈ (s.requests.accessRequests r).approvedBy, ∃ t ∈ hist, Adds r g t := by
  refine h.relates (R := fun hist s => ∀ g ∈ (s.requests.accessRequests r).approvedBy,
    ∃ t ∈ hist, Adds r g t) ?_ ?_
  · rintro s ⟨deployer, rfl⟩ g hg
    exact absurd hg List.not_mem_nil
  · intro hist s i s' _ ih _ g hg
    by_cases hbefore : g ∈ (s.requests.accessRequests r).approvedBy
    · obtain ⟨t, ht, hadd⟩ := ih g hbefore
      exact ⟨t, List.mem_cons_of_mem _ ht, hadd⟩
    · exact ⟨⟨s, i, s'⟩, List.mem_cons_self .., hbefore, hg⟩

/-- The approval quorum: list and flags agree and leave the requester out, every approver was a
guardian when it was added by its own call or its signed delegation, and a request is settled
once, by a per-guardian approval only with its quorum. -/
theorem approval_quorum {Signed : Address → Bytes32 → Prop}
    (hunforgeable : ∀ digest signature signer,
      chain.tryRecover digest signature = some signer → Signed signer digest)
    {hist : List (Transition (State L) Invocation)} (h : VaultRun chain nft hist s) (r : ℕ) :
    Tally.Counts (s.requests.hasApprovedRequest r) (s.requests.accessRequests r).approvedBy ∧
      (s.requests.accessRequests r).requester ∉ (s.requests.accessRequests r).approvedBy ∧
      (∀ g ∈ (s.requests.accessRequests r).approvedBy, ∃ t ∈ hist, Adds r g t) ∧
      (∀ t ∈ hist, ∀ g, Adds r g t →
        t.pre.governance.isGuardian (requestVault s r) g = true ∧
          (OwnCall r g t ∨ DelegateCall chain Signed r (requestVault s r) g t)) ∧
      (∀ t ∈ hist, Moves r t →
        (t.pre.requests.accessRequests r).status = .PENDING ∧
          ((t.post.requests.accessRequests r).status = .APPROVED ∨
            (t.post.requests.accessRequests r).status = .REJECTED) ∧
          ∀ c, t.label.2 = .approval c → c.perGuardian = true →
            (t.post.governance.vaults (requestVault s r)).approvalThreshold ≤
              (t.post.requests.accessRequests r).approvedBy.length) := by
  have hI := requestsOk h
  refine ⟨hI.counts r, hI.not_requester r, approver_added h r, ?_, ?_⟩
  · intro t ht g hadd
    obtain ⟨earlier, _, hrun, hstep⟩ := h.of_mem ht
    obtain ⟨env, c, hlabel, hfor, hone⟩ := hstep.adds hadd
    obtain ⟨_, hvault⟩ := vault_fixed h t ht r hone.pending.existing
    rw [← hvault]
    obtain ⟨pre, label, post⟩ := t
    cases hlabel
    exact ⟨hone.is_guardian, hfor.authorized hunforgeable⟩
  · intro t ht hmove
    obtain ⟨earlier, _, hrun, hstep⟩ := h.of_mem ht
    obtain ⟨hpending, hstatus, env, c, hlabel, hat, hquorum⟩ := hstep.moves (requestsOk hrun) hmove
    refine ⟨hpending, hstatus, ?_⟩
    intro c' hc' hper
    rw [hlabel] at hc'
    cases hc'
    obtain ⟨_, hvault⟩ := vault_fixed h t ht r hat.existing
    rw [← hvault]
    exact hquorum hper

/-- Guardian 1 approves itself, guardian 2 through delegate 8, and the request is approved. -/
theorem approval_quorum_own_and_delegated : ∃ hist s,
    VaultRun localChain ERC721.standard hist s ∧
      ((s.requests.accessRequests 1).approvedBy = [1, 2] ∧
        (s.requests.accessRequests 1).status = .APPROVED) ∧
      ∀ t ∈ hist, ∀ g, Adds 1 g t → t.pre.governance.isGuardian (requestVault s 1) g = true := by
  obtain ⟨hist, s, hrun, hend⟩ := exists_run localChain ERC721.standard 7
    (openedRequest ++
      [(callBy 1 106, .approval (.approveAccess 1 [])),
        (callBy 8 107, .approval (.approveAccessDelegated 1 2 200 0 (word 1 ++ bytesBE 20 2) []))])
    (fun _ s => decide ((s.requests.accessRequests 1).approvedBy = [1, 2] ∧
      (s.requests.accessRequests 1).status = .APPROVED)) (by decide +kernel)
  refine ⟨hist, s, hrun, of_decide_eq_true hend, fun t ht g hadd => ?_⟩
  have hunforgeable : ∀ digest signature signer, localChain.tryRecover digest signature = some signer →
      ∃ signature', localChain.tryRecover digest signature' = some signer :=
    fun digest signature signer h => ⟨signature, h⟩
  have hquorum := approval_quorum hunforgeable hrun 1
  exact (hquorum.2.2.2.1 t ht g hadd).1

end ChainGuard.Evm
