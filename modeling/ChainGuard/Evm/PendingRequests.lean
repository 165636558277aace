import ChainGuard.Evm.Rotation
import ChainGuard.Evm.Quorum

/-! Pending requests between approvals. An approval compares the collected approvals with the
threshold in force, a reconfiguration that lowers the threshold compares nothing: a request waits
below its threshold exactly as long as no lowered threshold meets one that already has enough. -/
namespace ChainGuard.Evm
open Guarded History
set_option autoImplicit false

variable {L : Type} {chain : Chain} {nft : ERC721 L} {env : Env} {s s' : State L} {now r : ℕ}
  {hist : List (Transition (State L) Invocation)}

/-! ## The vault of a document -/

/-- A stored document belongs to a vault already counted, or to none. -/
def DocumentVaultsCounted (s : State L) : Prop :=
  ∀ d, (s.documents.documents d).vaultId ≤ s.governance.vaultIdCounter

theorem addDocument_stored {d d' : Documents} {a a' : Grants} {g : Governance} {vaultId : ℕ}
    {encryptedMetadata ipfsHash : Bytes} {requiredAccess : AccessLevel}
    {releaseCondition : ReleaseCondition} {guardiansList : List Address} {shares : List Bytes}
    {logs : List Event}
    (h : addDocument chain env g d a vaultId encryptedMetadata ipfsHash requiredAccess releaseCondition
      guardiansList shares = .ok ((d', a'), logs)) :
    g.isGuardian vaultId env.sender = true ∧ ∃ document : Document, document.id = uint64 (d.documentIdCounter + 1) ∧
      document.vaultId = uint64 vaultId ∧
      d'.documents = Function.update d.documents (d.documentIdCounter + 1) document := by
  simp only [addDocument, bind_ok, revertIf_ok, exists_const, pure_ok, Prod.mk.injEq,
    Bool.not_eq_false] at h
  obtain ⟨_, hguardian, _, shared, hshared, ⟨rfl, _⟩, _⟩ := h
  exact ⟨hguardian, _, rfl, rfl, (saveGuardianShares_documents hshared).1⟩

theorem uint64_le (n : ℕ) : uint64 n ≤ n := Nat.mod_le _ _

theorem Steps.vaults_counted {i : Invocation} (hstep : Steps chain nft s i s') :
    s.governance.vaultIdCounter ≤ s'.governance.vaultIdCounter := by
  cases hstep.roster_effect with
  | kept hcounter _ _ => exact hcounter.ge
  | created h => exact h.counter.symm ▸ Nat.le_succ _
  | joined _ h => exact h.counter.ge
  | reconfigured _ _ _ _ h => exact h.vault.1.ge

theorem documentVaultsCounted (h : VaultRun chain nft hist s) : DocumentVaultsCounted s := by
  refine h.relates (R := fun _ s => DocumentVaultsCounted s) ?_ ?_
  · rintro s ⟨deployer, rfl⟩ d
    exact Nat.zero_le _
  · intro hist s i s' hr ih hstep d
    have hcounted := hstep.vaults_counted
    have hbefore := ih d
    cases hstep.effect with
    | addDocument _ hadd =>
      obtain ⟨hguardian, document, _, hvault, hdoc⟩ := addDocument_stored hadd
      have hv := ((rosterOk hr).guardian_existing hguardian).2
      dsimp only
      rw [hdoc]
      by_cases hd : d = s.documents.documentIdCounter + 1
      · subst hd
        rw [Function.update_self, hvault]
        exact (uint64_le _).trans hv
      · rw [Function.update_of_ne hd]
        exact hbefore
    | documents hexec =>
      dsimp only
      rw [(execDocuments_documents hexec).1]
      exact hbefore
    | _ => exact hbefore.trans hcounted

/-! ## Waiting requests -/

/-- The request still collects approvals at the given time. -/
structure Waiting (now : ℕ) (s : State L) (r : ℕ) : Prop where
  existing : (s.requests.accessRequests r).requestId ≠ 0
  pending : (s.requests.accessRequests r).status = .PENDING
  unexpired : now < (s.requests.accessRequests r).expiresAt

instance (now : ℕ) (s : State L) (r : ℕ) : Decidable (Waiting now s r) :=
  decidable_of_iff ((s.requests.accessRequests r).requestId ≠ 0 ∧
      (s.requests.accessRequests r).status = .PENDING ∧ now < (s.requests.accessRequests r).expiresAt)
    ⟨fun h => ⟨h.1, h.2.1, h.2.2⟩, fun h => ⟨h.existing, h.pending, h.unexpired⟩⟩

def approvals (s : State L) (r : ℕ) : ℕ := (s.requests.accessRequests r).approvedBy.length

def thresholdInForce (s : State L) (r : ℕ) : ℕ :=
  (s.governance.vaults (requestVault s r)).approvalThreshold

def NoneStranded (now : ℕ) (s : State L) : Prop :=
  ∀ r, Waiting now s r → approvals s r < thresholdInForce s r

/-! ## The condition -/

def requestedDocument (t : Transition (State L) Invocation) : Option ℕ :=
  match t.label.2 with
  | .requestAccess documentId => some documentId
  | _ => none

/-- A threshold update that takes effect finds no waiting request of its vault with that many
approvals, and a request is for a document of a vault with a threshold. -/
def StrandsNone (t : Transition (State L) Invocation) : Prop :=
  (∀ u ∈ reconfigures t, (thresholdKind.proposal u.1 u.2.2 t.pre).Open t.label.1.timestamp →
      ∀ r ≤ t.pre.requests.requestIdCounter, Waiting t.label.1.timestamp t.pre r →
        requestVault t.pre r = u.1 → approvals t.pre r < uint96 u.2.2) ∧
    ∀ d ∈ requestedDocument t,
      (t.pre.governance.vaults (t.pre.documents.documents d).vaultId).approvalThreshold ≠ 0

instance : DecidablePred (StrandsNone (L := L)) := fun _ =>
  inferInstanceAs (Decidable ((∀ u ∈ _, _ → ∀ r ≤ _, _ → _ → _) ∧ ∀ d ∈ _, _ ≠ _))

/-! ## One step -/

theorem Waiting.opened (h : Waiting now s r) (hI : RequestsOk s) : r ≤ s.requests.requestIdCounter := by
  by_contra hlt
  exact h.existing (by rw [hI.unopened r (not_le.mp hlt)])

theorem OneApproval.stays_pending {requestId : ℕ} {guardian : Address} {q : Requests} {a : Grants}
    (h : OneApproval env s requestId guardian q a)
    (hpending : (q.accessRequests requestId).status = .PENDING) :
    (q.accessRequests requestId).approvedBy.length <
      (s.governance.vaults (requestVault s requestId)).approvalThreshold := by
  obtain ⟨recorded, _, hset⟩ := h.settles
  cases hset with
  | below hlt => exact hlt
  | reached _ hs =>
    obtain ⟨status, hstatus, rfl⟩ := hs.bookkeeping
    have hset : ((setStatus recorded requestId status).accessRequests requestId).status = status := by
      simp [setStatus]
    rw [hset] at hpending
    rcases hstatus with rfl | rfl <;> cases hpending

theorem Steps.requestVault_kept {i : Invocation} (hstep : Steps chain nft s i s')
    (hc : DocumentsCounted s) (hI : RequestsOk s) (hreq : s'.requests = s.requests)
    (hr : (s.requests.accessRequests r).requestId ≠ 0) : requestVault s' r = requestVault s r := by
  unfold requestVault
  rw [hreq, hstep.document_kept hc (hI.document r hr)]

theorem NoneStranded.approved {c : ApprovalCall} (h : NoneStranded now s)
    (happ : ApprovalEffect chain env s c s'.requests s'.grants) (hdoc : s'.documents = s.documents)
    (hgov : s'.governance = s.governance) : NoneStranded now s' := by
  intro r hwait
  have hvault : ∀ r', (s'.requests.accessRequests r').documentId =
      (s.requests.accessRequests r').documentId → thresholdInForce s' r' = thresholdInForce s r' := by
    intro r' hd
    simp only [thresholdInForce, requestVault, hdoc, hgov, hd]
  have hother : ∀ {requestId : ℕ} {request : AccessRequest}, s'.requests.accessRequests =
      Function.update s.requests.accessRequests requestId request → r ≠ requestId →
      approvals s' r < thresholdInForce s' r := by
    intro requestId request hreq hr
    have hkept : s'.requests.accessRequests r = s.requests.accessRequests r := by
      rw [hreq, Function.update_of_ne hr]
    rw [hvault r (by rw [hkept]), approvals, hkept]
    apply h r
    exact ⟨hkept ▸ hwait.existing, hkept ▸ hwait.pending, hkept ▸ hwait.unexpired⟩
  cases happ with
  | @one _ requestId guardian _ _ _ hone =>
    obtain ⟨status, hreq, _⟩ := hone.request
    by_cases hr : r = requestId
    · subst hr
      rw [hvault r (by rw [hreq, Function.update_self])]
      exact hone.stays_pending hwait.pending
    · exact hother hreq hr
  | @batch requestId _ _ _ _ _ _ hbatch =>
    obtain ⟨status, hstatus, hsame⟩ := hbatch.bookkeeping
    have hreq : s'.requests.accessRequests = Function.update s.requests.accessRequests requestId
        { s.requests.accessRequests requestId with status } := hsame.requests
    by_cases hr : r = requestId
    · subst hr
      have hpending := hwait.pending
      rw [hreq, Function.update_self] at hpending
      rcases hstatus with rfl | rfl <;> cases hpending
    · exact hother hreq hr

theorem NoneStranded.requested {documentId : ℕ} (h : NoneStranded now s)
    (hopen : Opens env s documentId s'.requests) (hdoc : s'.documents = s.documents)
    (hgov : s'.governance = s.governance)
    (hthreshold : (s.governance.vaults (s.documents.documents documentId).vaultId).approvalThreshold ≠ 0) :
    NoneStranded now s' := by
  intro r hwait
  by_cases hr : r = s.requests.requestIdCounter + 1
  · subst hr
    have hnew : s'.requests.accessRequests (s.requests.requestIdCounter + 1) = _ :=
      hopen.requests ▸ Function.update_self ..
    simp only [approvals, thresholdInForce, requestVault, hdoc, hgov, hnew, List.length_nil]
    omega
  · have hkept : s'.requests.accessRequests r = s.requests.accessRequests r := by
      rw [hopen.requests, Function.update_of_ne hr]
    have hbefore := h r ⟨hkept ▸ hwait.existing, hkept ▸ hwait.pending, hkept ▸ hwait.unexpired⟩
    simpa only [approvals, thresholdInForce, requestVault, hdoc, hgov, hkept] using hbefore

theorem NoneStranded.kept {i : Invocation} (hr : VaultRun chain nft hist s)
    (hstep : Steps chain nft s i s') (hreq : s'.requests = s.requests)
    (hthreshold : ∀ r, Waiting now s r → approvals s r <
      (s'.governance.vaults (requestVault s r)).approvalThreshold) : NoneStranded now s' := by
  intro r hwait
  have hbefore : Waiting now s r := ⟨hreq ▸ hwait.existing, hreq ▸ hwait.pending, hreq ▸ hwait.unexpired⟩
  have hlt := hthreshold r hbefore
  have hvault := hstep.requestVault_kept (documentsCounted hr) (requestsOk hr) hreq hbefore.existing
  rw [approvals, thresholdInForce, hvault, hreq]
  exact hlt

theorem Steps.threshold_above {i : Invocation} (hr : VaultRun chain nft hist s)
    (hstep : Steps chain nft s i s') (hwait : Waiting now s r) (hnow : i.1.timestamp ≤ now)
    (hC : StrandsNone ⟨s, i, s'⟩) (hlt : approvals s r < thresholdInForce s r) :
    approvals s r < (s'.governance.vaults (requestVault s r)).approvalThreshold := by
  unfold thresholdInForce at hlt
  have hcounted : requestVault s r ≤ s.governance.vaultIdCounter := documentVaultsCounted hr _
  cases hstep.roster_effect with
  | kept _ hvaults _ =>
    rw [hvaults]
    exact hlt
  | created h =>
    obtain ⟨vault, hvaults, _⟩ := h.vaults
    rw [hvaults, Function.update_of_ne (by omega)]
    exact hlt
  | joined w h =>
    rw [h.vaults]
    by_cases hw : requestVault s r = w
    · rw [hw, Function.update_self]
      exact hw ▸ hlt
    · rw [Function.update_of_ne hw]
      exact hlt
  | reconfigured w a n hlabel h =>
    obtain ⟨_, hother, _, _, hthreshold, _, _⟩ := h.vault
    by_cases hw : requestVault s r = w
    · have hrec : (w, a, n) ∈ reconfigures ⟨s, i, s'⟩ := by
        simp [reconfigures, hlabel]
      have hwait' : Waiting i.1.timestamp s r :=
        ⟨hwait.existing, hwait.pending, hnow.trans_lt hwait.unexpired⟩
      rw [hw] at hlt ⊢
      rw [hthreshold]
      split
      · next hopen => exact hC.1 _ hrec hopen r (hwait.opened (requestsOk hr)) hwait' hw
      · exact hlt
    · rw [hother _ hw]
      exact hlt

theorem NoneStranded.step {i : Invocation} (hr : VaultRun chain nft hist s)
    (hstep : Steps chain nft s i s') (h : NoneStranded now s) (hnow : i.1.timestamp ≤ now)
    (hC : StrandsNone ⟨s, i, s'⟩) : NoneStranded now s' := by
  have habove : ∀ r, Waiting now s r → approvals s r <
      (s'.governance.vaults (requestVault s r)).approvalThreshold :=
    fun r hwait => hstep.threshold_above hr hwait hnow hC (h r hwait)
  cases hstep.effect with
  | requestAccess _ hopen => exact h.requested (requestAccess_ok hopen) rfl rfl (hC.2 _ rfl)
  | approval _ happ => exact h.approved (execApproval_effect happ) rfl rfl
  | _ => exact NoneStranded.kept hr hstep rfl habove

theorem strandsNone_of_none {i : Invocation} (hr : VaultRun chain nft hist s)
    (hstep : Steps chain nft s i s') (h : NoneStranded i.1.timestamp s') : StrandsNone ⟨s, i, s'⟩ := by
  refine ⟨?_, ?_⟩
  · rintro ⟨v, a, n⟩ hrec hopen r _ hwait hvault
    obtain ⟨hlabel, hre⟩ := hstep.reconfigured hrec
    obtain ⟨_, _, _, _, hthreshold, _, _⟩ := hre.vault
    have hreq : s'.requests = s.requests := by
      cases hstep.effect with
      | governance _ _ => rfl
      | _ => cases hlabel
    have hvault' := hstep.requestVault_kept (documentsCounted hr) (requestsOk hr) hreq hwait.existing
    have hlt := h r ⟨hreq ▸ hwait.existing, hreq ▸ hwait.pending, hreq ▸ hwait.unexpired⟩
    have hv : requestVault s r = v := hvault
    rw [approvals, thresholdInForce, hvault', hreq, hv, hthreshold] at hlt
    exact hlt.trans_eq (if_pos hopen)
  · intro d hd
    obtain ⟨env, call⟩ := i
    cases hstep.effect with
    | @requestAccess _ documentId _ _ _ hopen =>
      obtain rfl : documentId = d := Option.some.inj hd
      have hopens := requestAccess_ok hopen
      have hlt := h (s.requests.requestIdCounter + 1)
      have hnew := congrFun hopens.requests (s.requests.requestIdCounter + 1)
      rw [Function.update_self] at hnew
      simp only [approvals, thresholdInForce, requestVault, hnew, List.length_nil] at hlt
      have hpos := hlt ⟨by simp [hnew], by simp [hnew], by simp [hnew, days]⟩
      show (s.governance.vaults (s.documents.documents documentId).vaultId).approvalThreshold ≠ 0
      omega
    | _ => cases hd

/-! ## Runs -/

/-- Block times do not go back along the history. -/
def Chronological (hist : List (Transition (State L) Invocation)) : Prop :=
  hist.Pairwise fun later earlier => earlier.label.1.timestamp ≤ later.label.1.timestamp

instance (hist : List (Transition (State L) Invocation)) : Decidable (Chronological hist) :=
  inferInstanceAs (Decidable (List.Pairwise _ _))

/-- No block of the history is later than `now`. -/
def Reached (now : ℕ) (hist : List (Transition (State L) Invocation)) : Prop :=
  ∀ t ∈ hist, t.label.1.timestamp ≤ now

theorem noneStranded_of_condition (h : VaultRun chain nft hist s) (hC : ∀ t ∈ hist, StrandsNone t)
    (hnow : Reached now hist) : NoneStranded now s := by
  refine h.relates_of (R := fun _ s => NoneStranded now s)
    (C := fun t => t.label.1.timestamp ≤ now ∧ StrandsNone t) ?_ ?_ fun t ht => ⟨hnow t ht, hC t ht⟩
  · rintro s ⟨deployer, rfl⟩ r hwait
    exact absurd rfl hwait.existing
  · intro hist s i s' hr ih hcond hstep
    exact ih.step hr hstep hcond.1 hcond.2

/-- No request is ever left waiting with the threshold in force collected, in exactly the runs
where no threshold update meets a request with that many approvals and every vault that is
requested from has a threshold. -/
theorem none_stranded_iff (h : VaultRun chain nft hist s) (htime : Chronological hist) :
    (∀ early s' now, Visits hist s early s' → Reached now early → NoneStranded now s') ↔
      ∀ t ∈ hist, StrandsNone t := by
  constructor
  · intro hnone t ht
    obtain ⟨earlier, hvisit, hr, hstep⟩ := h.visits_of_mem ht
    have hordered := List.pairwise_cons.mp (htime.sublist hvisit.suffix.sublist)
    have hreached : Reached t.label.1.timestamp (t :: earlier) := by
      intro u hu
      rcases List.mem_cons.mp hu with rfl | hu
      · exact le_rfl
      · exact hordered.1 u hu
    exact strandsNone_of_none hr hstep (hnone _ _ _ hvisit hreached)
  · intro hC early s' now hvisit hreached
    exact noneStranded_of_condition (hvisit.run h) (fun t ht => hC t (hvisit.suffix.subset ht)) hreached

/-- While a request waits in a vault with threshold 2, its guardians queue a threshold of 1. -/
def queuedLowering : List Invocation :=
  openedRequest ++
    [(callBy 1 106, .governance (.proposeThresholdUpdate 1 1)),
      (callBy 1 107, .governance (.approveThresholdUpdate 1 1)),
      (callBy 2 108, .governance (.approveThresholdUpdate 1 1)),
      (callBy 3 109, .governance (.approveThresholdUpdate 1 1)),
      (callBy 1 110, .governance (.queueVaultReconfiguration 1 0 1))]

/-- The update, a day later. -/
def lowering : Invocation := (callBy 8 90000, .governance (.executeVaultReconfiguration 1 0 1))

/-- Lowered before anybody approved, the threshold strands nothing. -/
theorem none_stranded_unapproved : ∃ hist s, VaultRun localChain ERC721.standard hist s ∧
    (Waiting 90000 s 1 ∧ thresholdInForce s 1 = 1) ∧ NoneStranded 90000 s := by
  obtain ⟨hist, s, hrun, hend⟩ := exists_run localChain ERC721.standard 7 (queuedLowering ++ [lowering])
    (fun hist s => decide ((Waiting 90000 s 1 ∧ thresholdInForce s 1 = 1) ∧ Chronological hist ∧
      (∀ t ∈ hist, t.label.1.timestamp ≤ 90000) ∧ ∀ t ∈ hist, StrandsNone t)) (by decide +kernel)
  obtain ⟨hwait, htime, hreached, hC⟩ := of_decide_eq_true hend
  exact ⟨hist, s, hrun, hwait, (none_stranded_iff hrun htime).mpr hC hist s 90000 .here hreached⟩

/-- Lowered after guardian 1 approved, it leaves the request pending with its one approval. -/
theorem request_stranded : ∃ hist s, VaultRun localChain ERC721.standard hist s ∧
    Reached 90000 hist ∧ (Waiting 90000 s 1 ∧ approvals s 1 = 1 ∧ thresholdInForce s 1 = 1) ∧
      ¬ NoneStranded 90000 s := by
  obtain ⟨hist, s, hrun, hend⟩ := exists_run localChain ERC721.standard 7
    (queuedLowering ++ [(callBy 1 111, .approval (.approveAccess 1 [])), lowering])
    (fun hist s => decide ((∀ t ∈ hist, t.label.1.timestamp ≤ 90000) ∧
      Waiting 90000 s 1 ∧ approvals s 1 = 1 ∧ thresholdInForce s 1 = 1)) (by decide +kernel)
  obtain ⟨hreached, hwait, hone, hthreshold⟩ := of_decide_eq_true hend
  refine ⟨hist, s, hrun, hreached, ⟨hwait, hone, hthreshold⟩, fun hnone => ?_⟩
  have hlt := hnone 1 hwait
  omega

end ChainGuard.Evm
