import ChainGuard.Soroban.Approvals

/-! The bookkeeping of approvals: for every stored request the list of approvers and the flags
agree, and every approver is a guardian. That the requester is not among them holds as long as
nobody approves its own request through `approve_access`, which alone does not refuse it. -/
namespace ChainGuard.Soroban
open Guarded History
set_option autoImplicit false

variable {host : Host} {env : Env} {s s' : State} {q q' : Requests} {a : Grants} {logs : List Event}

/-! ## What a transition does to the requests -/

/-- The request stored again with another list of approvers, and nothing else but its own flags. -/
structure Rewrites (s : State) (requestId : ℕ) (request : AccessRequest) (approvedBy : List Address)
    (q : Requests) : Prop where
  requests : ∃ status, q.requests = Function.update s.requests.requests requestId
    (some { request with approvedBy, status })
  counter : q.reqCount = s.requests.reqCount
  flags : ∀ r, r ≠ requestId → q.approvedReq r = s.requests.approvedReq r
  counts : Tally.Counts (s.requests.approvedReq requestId) request.approvedBy →
    Tally.Counts (q.approvedReq requestId) approvedBy

theorem Settles.rewrites {requestId : ℕ} {request settled : AccessRequest} {doc : Document}
    {record : VaultRecord} (h : Settles s q requestId settled doc record q' a)
    (hsettled : settled = { request with approvedBy := settled.approvedBy })
    (hrequests : q.requests = s.requests.requests) (hcounter : q.reqCount = s.requests.reqCount)
    (hflags : ∀ r, r ≠ requestId → q.approvedReq r = s.requests.approvedReq r)
    (hcounts : Tally.Counts (s.requests.approvedReq requestId) request.approvedBy →
      Tally.Counts (q.approvedReq requestId) settled.approvedBy) :
    Rewrites s requestId request settled.approvedBy q' := by
  cases h with
  | below _ =>
    refine ⟨⟨request.status, ?_⟩, hcounter, hflags, hcounts⟩
    change Function.update q.requests requestId (some settled) = _
    rw [hrequests, hsettled]
  | reached _ =>
    refine ⟨⟨.Approved, ?_⟩, hcounter, hflags, hcounts⟩
    change Function.update q.requests requestId (some { settled with status := .Approved }) = _
    rw [hrequests, hsettled]

theorem OneApproval.rewrites {requestId : ℕ} {approver : Address} {request : AccessRequest}
    {doc : Document} {record : VaultRecord}
    (h : OneApproval env s requestId approver request doc record q a) :
    Rewrites s requestId request (request.approvedBy ++ [approver]) q := by
  obtain ⟨recorded, hsame, hsettles⟩ := h.settles
  refine hsettles.rewrites rfl hsame.requests hsame.counter ?_ ?_
  · intro r hr
    rw [hsame.flags]
    exact Mapping.set₂_other _ _ _ _ _ hr
  · intro hcounts
    rw [hsame.flags]
    change Tally.Counts (Mapping.set₂ s.requests.approvedReq requestId approver true requestId) _
    rw [Mapping.set₂_row]
    exact hcounts.push h.unflagged

theorem OneApproval.approvers {requestId : ℕ} {approver : Address} {request : AccessRequest}
    {doc : Document} {record : VaultRecord} {C : Address → Prop}
    (h : OneApproval env s requestId approver request doc record q a) (hC : C approver) :
    ∀ g ∈ request.approvedBy ++ [approver],
      g ∈ request.approvedBy ∨ (g ∈ record.vault.guardians ∧ C g) := by
  intro g hg
  rcases List.mem_append.mp hg with hg | hg
  · exact Or.inl hg
  · have hgeq : g = approver := List.mem_singleton.mp hg
    subst hgeq
    exact Or.inr ⟨h.is_guardian, hC⟩

theorem BatchApproval.rewrites {requestId : ℕ} {listed : List Address} {sig aggPk : Bytes}
    {request : AccessRequest} {doc : Document} {record : VaultRecord}
    (h : BatchApproval env s requestId listed sig aggPk request doc record q a) :
    ∃ approvedBy, Rewrites s requestId request approvedBy q ∧ ∀ g ∈ approvedBy,
      g ∈ request.approvedBy ∨ (g ∈ record.vault.guardians ∧ g ≠ request.requester) := by
  obtain ⟨processed, request', hprocessed, hsettles⟩ := h.settles
  refine ⟨request'.approvedBy, hsettles.rewrites hprocessed.same hprocessed.requests
    hprocessed.counter hprocessed.flags hprocessed.counts, ?_⟩
  intro g hg
  rcases hprocessed.approvers g hg with hg | hg
  · exact Or.inl hg
  · exact Or.inr (hprocessed.members g hg)

theorem SignedBatch.rewrites {requestId : ℕ} {signatures : List Signature} {publicKeys : List Bytes32}
    {nonce expirationLedger : ℕ} {request : AccessRequest} {doc : Document} {record : VaultRecord}
    (h : SignedBatch host env s requestId signatures publicKeys nonce expirationLedger request doc record
      q a) : Rewrites s requestId request request.approvedBy q := by
  obtain ⟨recorded, hsame, rfl, _⟩ := h.settles
  refine ⟨⟨.Approved, ?_⟩, hsame.counter, fun r _ => ?_, fun hcounts => ?_⟩
  · change Function.update recorded.requests requestId _ = _
    rw [hsame.requests]
  · exact congrFun hsame.flags r
  · change Tally.Counts (recorded.approvedReq requestId) _
    rw [hsame.flags]
    exact hcounts

def OwnApproval (requestId : ℕ) (g : Address) (c : ApprovalCall) : Prop :=
  ∃ share, c = .approveAccess g requestId share

/-- What a transition does to the stored requests and their flags. -/
inductive RequestEffect (s : State) (i : Invocation) (q : Requests) : Prop
  | kept : SameBookkeeping s.requests q → RequestEffect s i q
  | opened (env : Env) (request : AccessRequest) (doc : Document) (record : VaultRecord) :
      s.documents.docs request.documentId = some doc → s.vaults.vaults doc.vaultId = some record →
      request.approvedBy = [] → q.reqCount = s.requests.reqCount + 1 →
      q.requests = Function.update s.requests.requests (s.requests.reqCount + 1) (some request) →
      q.approvedReq = s.requests.approvedReq → RequestEffect s i q
  | approved (env : Env) (c : ApprovalCall) (requestId : ℕ) (request : AccessRequest) (doc : Document)
      (record : VaultRecord) (approvedBy : List Address) : i = (env, .approval c) →
      Approvable env s requestId request doc record → Rewrites s requestId request approvedBy q →
      (∀ g ∈ approvedBy, g ∈ request.approvedBy ∨ (g ∈ record.vault.guardians ∧
        (g ≠ request.requester ∨ OwnApproval requestId g c))) → RequestEffect s i q

theorem execApproval_effect {c : ApprovalCall}
    (h : execApproval host env s c = .ok ((q, a), logs)) : RequestEffect s (env, .approval c) q := by
  cases c with
  | approveAccess approver requestId share =>
    obtain ⟨request, doc, record, hone⟩ := approveAccess_ok h
    have hown : OwnApproval requestId approver (.approveAccess approver requestId share) := ⟨share, rfl⟩
    exact .approved env _ requestId request doc record _ rfl hone.approvable hone.rewrites
      (hone.approvers (Or.inr hown))
  | approveAccessThreshold caller requestId signatures publicKeys nonce expirationLedger share =>
    obtain ⟨request, doc, record, hsigned⟩ := approveAccessThreshold_ok h
    exact .approved env _ requestId request doc record _ rfl hsigned.approvable hsigned.rewrites
      fun g hg => Or.inl hg
  | approveAccessBLS requestId listed sig aggPk shares =>
    obtain ⟨request, doc, record, hbatch⟩ := approveAccessBLS_ok h
    obtain ⟨approvedBy, hrewrites, hmembers⟩ := hbatch.rewrites
    refine .approved env _ requestId request doc record approvedBy rfl hbatch.approvable hrewrites ?_
    intro g hg
    rcases hmembers g hg with hg | ⟨hguardian, hother⟩
    · exact Or.inl hg
    · exact Or.inr ⟨hguardian, Or.inl hother⟩
  | approveAccessFhe approver requestId fheShare =>
    obtain ⟨request, doc, record, hone, hother⟩ := approveAccessFhe_ok h
    exact .approved env _ requestId request doc record _ rfl hone.approvable hone.rewrites
      (hone.approvers (Or.inl (Ne.symm hother)))

theorem Steps.request_effect {i : Invocation} (h : Steps host s i s') :
    RequestEffect s i s'.requests := by
  cases h.effect with
  | @requestAccess env requester documentId requests logs hreq =>
    simp only [requestAccess, bind_ok, requireAuth_ok, assert_ok, loadDocument_ok, loadVaultRecord_ok,
      exists_const, pure_ok, Prod.mk.injEq] at hreq
    obtain ⟨_, doc, hdoc, record, hrecord, _, _, _, rfl, _⟩ := hreq
    exact .opened env _ doc record hdoc hrecord rfl rfl rfl rfl
  | verifyThresholdSignatures hverify =>
    simp only [verifyThresholdSignatures, bind_ok, pure_ok, Prod.mk.injEq] at hverify
    obtain ⟨_, _, rfl, _⟩ := hverify
    exact .kept ⟨rfl, rfl, rfl⟩
  | approval hexec => exact execApproval_effect hexec
  | _ => exact .kept ⟨rfl, rfl, rfl⟩

/-! ## The bookkeeping of every run -/

/-- What holds of a stored request in every run. -/
structure Recorded (s : State) (r : ℕ) (request : AccessRequest) : Prop where
  counts : Tally.Counts (s.requests.approvedReq r) request.approvedBy
  guardians : ∃ doc record, s.documents.docs request.documentId = some doc ∧
    s.vaults.vaults doc.vaultId = some record ∧ ∀ g ∈ request.approvedBy, g ∈ record.vault.guardians

structure RequestsOk (s : State) : Prop where
  opened : ∀ r request, s.requests.requests r = some request → r ≤ s.requests.reqCount
  unflagged : ∀ r, s.requests.reqCount < r → ∀ g, s.requests.approvedReq r g = false
  recorded : ∀ r request, s.requests.requests r = some request → Recorded s r request

theorem Recorded.carried {r : ℕ} {request : AccessRequest} (h : Recorded s r request)
    (hdocs : DocumentsCounted s.documents) (hvaults : VaultsOk s.vaults)
    (hdoc : DocumentEffect s.documents s'.documents) (hvault : VaultEffect s.vaults s'.vaults)
    (hflags : s'.requests.approvedReq r = s.requests.approvedReq r) : Recorded s' r request := by
  obtain ⟨doc, record, hd, hv, hmembers⟩ := h.guardians
  obtain ⟨record', hv', _, hsub⟩ := hvault.record_kept hvaults hv
  refine ⟨?_, doc, record', hdoc.kept_doc hdocs hd, hv', fun g hg => hsub (hmembers g hg)⟩
  rw [hflags]
  exact h.counts

theorem RequestsOk.kept (hI : RequestsOk s) (hdocs : DocumentsCounted s.documents)
    (hvaults : VaultsOk s.vaults) (hdoc : DocumentEffect s.documents s'.documents)
    (hvault : VaultEffect s.vaults s'.vaults) (hsame : SameBookkeeping s.requests s'.requests) :
    RequestsOk s' where
  opened := fun r request hr => by
    rw [hsame.requests] at hr
    rw [hsame.counter]
    exact hI.opened r request hr
  unflagged := fun r hr => by
    rw [hsame.counter] at hr
    rw [hsame.flags]
    exact hI.unflagged r hr
  recorded := fun r request hr => by
    rw [hsame.requests] at hr
    exact (hI.recorded r request hr).carried hdocs hvaults hdoc hvault (congrFun hsame.flags r)

theorem RequestsOk.opens (hI : RequestsOk s) (hdocs : DocumentsCounted s.documents)
    (hvaults : VaultsOk s.vaults) (hdoc : DocumentEffect s.documents s'.documents)
    (hvault : VaultEffect s.vaults s'.vaults) {new : AccessRequest} {doc : Document} {record : VaultRecord}
    (hd : s.documents.docs new.documentId = some doc) (hv : s.vaults.vaults doc.vaultId = some record)
    (hempty : new.approvedBy = []) (hcounter : s'.requests.reqCount = s.requests.reqCount + 1)
    (hrequests : s'.requests.requests =
      Function.update s.requests.requests (s.requests.reqCount + 1) (some new))
    (hflags : s'.requests.approvedReq = s.requests.approvedReq) : RequestsOk s' where
  opened := fun r request hr => by
    rw [hrequests, Function.update_apply] at hr
    rw [hcounter]
    split at hr
    · omega
    · have := hI.opened r request hr
      omega
  unflagged := fun r hr => by
    rw [hcounter] at hr
    rw [hflags]
    exact hI.unflagged r (by omega)
  recorded := fun r request hr => by
    rw [hrequests, Function.update_apply] at hr
    split at hr
    · next heq =>
      cases hr
      have hunflagged : ∀ g, s.requests.approvedReq r g = false := hI.unflagged r (by omega)
      have hnew : Recorded s r new := by
        refine ⟨?_, doc, record, hd, hv, ?_⟩
        · rw [hempty]
          exact Tally.Counts.empty hunflagged
        · rw [hempty]
          exact fun g hg => absurd hg List.not_mem_nil
      exact hnew.carried hdocs hvaults hdoc hvault (congrFun hflags r)
    · exact (hI.recorded r request hr).carried hdocs hvaults hdoc hvault (congrFun hflags r)

theorem Recorded.rewritten {requestId : ℕ} {old : AccessRequest} {doc : Document} {record : VaultRecord}
    {approvedBy : List Address} {status : RequestStatus} (hold : Recorded s requestId old)
    (hdocs : DocumentsCounted s.documents) (hvaults : VaultsOk s.vaults)
    (hdoc : DocumentEffect s.documents s'.documents) (hvault : VaultEffect s.vaults s'.vaults)
    (happ : Approvable env s requestId old doc record)
    (hrewrites : Rewrites s requestId old approvedBy s'.requests)
    (hmembers : ∀ g ∈ approvedBy, g ∈ old.approvedBy ∨ g ∈ record.vault.guardians) :
    Recorded s' requestId { old with approvedBy, status } := by
  obtain ⟨record', hv', _, hsub⟩ := hvault.record_kept hvaults happ.vault
  refine ⟨hrewrites.counts hold.counts, doc, record', hdoc.kept_doc hdocs happ.document, hv', ?_⟩
  intro g hg
  obtain ⟨doc₀, record₀, hd₀, hv₀, hguardians⟩ := hold.guardians
  rw [happ.document] at hd₀
  cases hd₀
  rw [happ.vault] at hv₀
  cases hv₀
  rcases hmembers g hg with hg | hg
  · exact hsub (hguardians g hg)
  · exact hsub hg

theorem RequestsOk.approved (hI : RequestsOk s) (hdocs : DocumentsCounted s.documents)
    (hvaults : VaultsOk s.vaults) (hdoc : DocumentEffect s.documents s'.documents)
    (hvault : VaultEffect s.vaults s'.vaults) {requestId : ℕ} {old : AccessRequest} {doc : Document}
    {record : VaultRecord} {approvedBy : List Address} (happ : Approvable env s requestId old doc record)
    (hrewrites : Rewrites s requestId old approvedBy s'.requests)
    (hmembers : ∀ g ∈ approvedBy, g ∈ old.approvedBy ∨ g ∈ record.vault.guardians) : RequestsOk s' where
  opened := fun r request hr => by
    obtain ⟨status, hrequests⟩ := hrewrites.requests
    rw [hrequests, Function.update_apply] at hr
    rw [hrewrites.counter]
    split at hr
    · next heq =>
      rw [heq]
      exact hI.opened requestId old happ.stored
    · exact hI.opened r request hr
  unflagged := fun r hr => by
    rw [hrewrites.counter] at hr
    have hopen := hI.opened requestId old happ.stored
    rw [hrewrites.flags r (by omega)]
    exact hI.unflagged r hr
  recorded := fun r request hr => by
    obtain ⟨status, hrequests⟩ := hrewrites.requests
    rw [hrequests, Function.update_apply] at hr
    split at hr
    · next heq =>
      cases hr
      subst heq
      exact (hI.recorded r old happ.stored).rewritten hdocs hvaults hdoc hvault happ hrewrites hmembers
    · next hne =>
      exact (hI.recorded r request hr).carried hdocs hvaults hdoc hvault (hrewrites.flags r hne)

theorem RequestsOk.step {i : Invocation} (hI : RequestsOk s) (hdocs : DocumentsCounted s.documents)
    (hvaults : VaultsOk s.vaults) (h : Steps host s i s') : RequestsOk s' := by
  have hdoc := h.document_effect
  have hvault := h.vault_effect
  cases h.request_effect with
  | kept hsame => exact hI.kept hdocs hvaults hdoc hvault hsame
  | opened env new doc record hd hv hempty hcounter hrequests hflags =>
    exact hI.opens hdocs hvaults hdoc hvault hd hv hempty hcounter hrequests hflags
  | approved env c requestId old doc record approvedBy _ happ hrewrites hmembers =>
    have hguardians : ∀ g ∈ approvedBy, g ∈ old.approvedBy ∨ g ∈ record.vault.guardians :=
      fun g hg => (hmembers g hg).imp_right And.left
    exact hI.approved hdocs hvaults hdoc hvault happ hrewrites hguardians

theorem requestsOk {hist : List (Transition State Invocation)} (h : StellarRun host hist s) :
    RequestsOk s := by
  refine h.relates (R := fun _ s => RequestsOk s) ?_ ?_
  · rintro s rfl
    exact ⟨fun _ _ hr => (by cases hr), fun _ _ _ => rfl, fun _ _ hr => (by cases hr)⟩
  · intro hist s i s' hr hI hstep
    exact hI.step (documentsCounted hr) (vaultsOk hr) hstep

/-! ## The requester -/

def Bookkeeping (s : State) : Prop :=
  ∀ r request, s.requests.requests r = some request →
    Recorded s r request ∧ request.requester ∉ request.approvedBy

/-- The requester of a request approves it by `approve_access`. -/
def SelfApproves (t : Transition State Invocation) : Prop :=
  ∃ requestId request share, t.pre.requests.requests requestId = some request ∧
    t.label.2 = .approval (.approveAccess request.requester requestId share)

/-- The same, read off the call. -/
def approvesOwn (t : Transition State Invocation) : Bool :=
  match t.label.2 with
  | .approval (.approveAccess approver requestId _) =>
    (t.pre.requests.requests requestId).any (·.requester == approver)
  | _ => false

theorem approvesOwn_iff (t : Transition State Invocation) : approvesOwn t = true ↔ SelfApproves t := by
  unfold approvesOwn
  split
  · next approver requestId share hlabel =>
    rw [Option.any_eq_true]
    constructor
    · rintro ⟨request, hstored, hown⟩
      have hown : request.requester = approver := by simpa using hown
      exact ⟨requestId, request, share, hstored, by rw [hlabel, hown]⟩
    · rintro ⟨requestId', request, share', hstored, hlabel'⟩
      rw [hlabel] at hlabel'
      cases hlabel'
      exact ⟨request, hstored, by simp⟩
  · next hother =>
    constructor
    · intro h
      cases h
    · rintro ⟨requestId, request, share, _, hlabel⟩
      exact absurd hlabel (hother _ _ _)

instance : DecidablePred SelfApproves := fun t => decidable_of_iff _ (approvesOwn_iff t)

theorem Steps.requester_kept_out {i : Invocation} (h : Steps host s i s')
    (hself : ¬ SelfApproves ⟨s, i, s'⟩)
    (hI : ∀ r request, s.requests.requests r = some request → request.requester ∉ request.approvedBy) :
    ∀ r request, s'.requests.requests r = some request → request.requester ∉ request.approvedBy := by
  intro r request hr
  cases h.request_effect with
  | kept hsame =>
    rw [hsame.requests] at hr
    exact hI r request hr
  | opened env new doc record _ _ hempty _ hrequests _ =>
    rw [hrequests, Function.update_apply] at hr
    split at hr
    · cases hr
      rw [hempty]
      exact List.not_mem_nil
    · exact hI r request hr
  | approved env c requestId old doc record approvedBy hi happ hrewrites hmembers =>
    obtain ⟨status, hrequests⟩ := hrewrites.requests
    rw [hrequests, Function.update_apply] at hr
    split at hr
    · cases hr
      intro hmem
      rcases hmembers old.requester hmem with hmem | ⟨_, hne | hown⟩
      · exact hI requestId old happ.stored hmem
      · exact hne rfl
      · obtain ⟨share, rfl⟩ := hown
        exact hself ⟨requestId, old, share, happ.stored, by rw [hi]⟩
    · exact hI r request hr

theorem Steps.self_approved {i : Invocation} (h : Steps host s i s')
    (hself : SelfApproves ⟨s, i, s'⟩) : ¬ Bookkeeping s' := by
  obtain ⟨env, call⟩ := i
  obtain ⟨requestId, request, share, hstored, hlabel⟩ := hself
  dsimp only at hstored hlabel
  subst hlabel
  cases h.effect with
  | approval hexec =>
    obtain ⟨request', doc, record, hone⟩ := approveAccess_ok hexec
    have heq := hone.approvable.stored
    rw [hstored] at heq
    cases heq
    obtain ⟨status, hrequests⟩ := hone.rewrites.requests
    intro hbook
    have hnot := (hbook requestId _ (by rw [hrequests, Function.update_self])).2
    simp at hnot

/-- The approval bookkeeping holds throughout a run exactly when no requester approved its own
request through `approve_access` in it. -/
theorem approval_bookkeeping {hist : List (Transition State Invocation)} (h : StellarRun host hist s) :
    (∀ early mid, Visits hist s early mid → Bookkeeping mid) ↔ ∀ t ∈ hist, ¬ SelfApproves t := by
  constructor
  · intro hbook t ht hself
    obtain ⟨_, _, _, hstep⟩ := h.of_mem ht
    obtain ⟨early, hvisit⟩ := h.visits_post ht
    exact hstep.self_approved hself (hbook early t.post hvisit)
  · intro hclean early mid hvisit
    have hrun := hvisit.run h
    have hout : ∀ r request, mid.requests.requests r = some request →
        request.requester ∉ request.approvedBy := by
      refine hrun.relates_of (R := fun _ s => ∀ r request, s.requests.requests r = some request →
        request.requester ∉ request.approvedBy) (C := fun t => ¬ SelfApproves t) ?_ ?_ ?_
      · rintro s rfl r request hr
        cases hr
      · intro hist s i s' _ ih hself hstep
        exact hstep.requester_kept_out hself ih
      · exact fun t ht => hclean t (hvisit.suffix.subset ht)
    intro r request hr
    exact ⟨(requestsOk hrun).recorded r request hr, hout r request hr⟩

/-- Guardians 1 and 2 approve the request of an outsider; no requester approves. -/
theorem approval_bookkeeping_two_guardians : ∃ hist s, StellarRun localHost hist s ∧
    ((s.requests.requests 1).map (·.approvedBy) = some [acct 1, acct 2]) ∧
      ∀ early mid, Visits hist s early mid → Bookkeeping mid := by
  obtain ⟨hist, s, hrun, hend⟩ := exists_run localHost
    (openedVault 2 ++
      [(invokedBy [acct 3] 103, .requestAccess (acct 3) 1),
        (invokedBy [acct 1] 104, .approval (.approveAccess (acct 1) 1 none)),
        (invokedBy [acct 2] 105, .approval (.approveAccessFhe (acct 2) 1 []))])
    (fun hist s => decide (((s.requests.requests 1).map (·.approvedBy) = some [acct 1, acct 2]) ∧
      ∀ t ∈ hist, ¬ SelfApproves t)) (by decide +kernel)
  have hend := of_decide_eq_true hend
  exact ⟨hist, s, hrun, hend.1, (approval_bookkeeping hrun).mpr hend.2⟩

/-- Guardian 2 asks for the document and approves its own request. -/
theorem guardian_approves_itself : ∃ hist s, StellarRun localHost hist s ∧ ¬ Bookkeeping s := by
  obtain ⟨hist, s, hrun, hend⟩ := exists_run localHost
    (openedVault 1 ++
      [(invokedBy [acct 2] 103, .requestAccess (acct 2) 1),
        (invokedBy [acct 2] 104, .approval (.approveAccess (acct 2) 1 none))])
    (fun _ s => (s.requests.requests 1).any fun request =>
      request.approvedBy.contains request.requester) (by decide +kernel)
  refine ⟨hist, s, hrun, fun hbook => ?_⟩
  obtain ⟨request, hstored, hmem⟩ := (Option.any_eq_true _ _).mp hend
  exact (hbook 1 request hstored).2 (by simpa using hmem)

end ChainGuard.Soroban
