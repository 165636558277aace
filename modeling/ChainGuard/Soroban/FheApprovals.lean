import ChainGuard.Soroban.Approvals

/-! What a submission of a ciphertext does to the accumulator of a request and to its counter, and that
nothing else touches them. -/
namespace ChainGuard.Soroban
open Guarded History
set_option autoImplicit false

variable {host : Host} {env : Env} {s s' : State} {q q' : Requests} {a : Grants} {logs : List Event} {r : ℕ}

/-- `FheAccumulator(request_id)`, or the empty bytes. -/
def Requests.accumulator (q : Requests) (r : ℕ) : Bytes := (q.fheAccumulator r).getD []

structure SameAccumulators (q q' : Requests) : Prop where
  accumulator : q'.fheAccumulator = q.fheAccumulator
  count : q'.fheAccumulatorCount = q.fheAccumulatorCount

theorem SameAccumulators.refl (q : Requests) : SameAccumulators q q := ⟨rfl, rfl⟩

theorem SameAccumulators.trans {q q' q'' : Requests} (h : SameAccumulators q q') (h' : SameAccumulators q' q'') :
    SameAccumulators q q'' :=
  ⟨h'.accumulator.trans h.accumulator, h'.count.trans h.count⟩

theorem saveShare_accumulators (q : Requests) (requestId : ℕ) (guardian : Address) (share : Option Bytes) :
    SameAccumulators q (saveShare q requestId guardian share) := by
  cases share with
  | none => exact .refl q
  | some share => exact ⟨rfl, rfl⟩

theorem Settles.accumulators {requestId : ℕ} {request : AccessRequest} {doc : Document} {record : VaultRecord}
    (h : Settles s q requestId request doc record q' a) : SameAccumulators q q' := by
  cases h with
  | below _ => exact ⟨rfl, rfl⟩
  | reached _ => exact ⟨rfl, rfl⟩

theorem recordListed_accumulators (requestId : ℕ) (guardian : Address) (q : Requests) (request : AccessRequest) :
    SameAccumulators q (recordListed requestId guardian q request).1 := by
  unfold recordListed
  split
  · exact .refl q
  · exact ⟨rfl, rfl⟩

theorem processGuardians_accumulators {requestId vaultId : ℕ} {guardians listed : List Address}
    {request request' : AccessRequest} {encryptedShares : List Bytes}
    (h : processGuardians s requestId vaultId guardians q request listed encryptedShares =
      .ok (q', request')) : SameAccumulators q q' := by
  induction listed generalizing q request encryptedShares with
  | nil =>
    simp only [processGuardians, pure_ok, Prod.mk.injEq] at h
    rw [← h.1]
    exact .refl q
  | cons guardian rest ih =>
    simp only [processGuardians, bind_ok, assert_ok, expect_ok, exists_const] at h
    obtain ⟨_, _, keyInfo, _, _, hrest⟩ := h
    exact ((recordListed_accumulators requestId guardian q request).trans (saveShare_accumulators ..)).trans
      (ih hrest)

theorem execApproval_accumulators {c : ApprovalCall} (h : execApproval host env s c = .ok ((q, a), logs))
    (hother : ∀ approver requestId fheShare, c ≠ .approveAccessFhe approver requestId fheShare) :
    SameAccumulators s.requests q := by
  cases c with
  | approveAccess approver requestId share =>
    simp only [execApproval, approveAccess, bind_ok] at h
    obtain ⟨_, _, request, _, ⟨doc, record⟩, _, _, _, _, _, hsettle⟩ := h
    have hflagged : SameAccumulators s.requests (flagApproval s.requests requestId approver) := ⟨rfl, rfl⟩
    exact (hflagged.trans (saveShare_accumulators ..)).trans (settleRequest_ok hsettle).accumulators
  | approveAccessThreshold caller requestId signatures publicKeys nonce expirationLedger share =>
    simp only [execApproval, approveAccessThreshold, verifyThresholdSignaturesInternal, bind_ok,
      revertIf_ok, exists_const, pure_ok, Bool.not_eq_true] at h
    obtain ⟨_, _, request, _, ⟨doc, record⟩, _, used, ⟨_, _, _, _, _, rfl⟩, happrove⟩ := h
    rw [(approveRequest_ok happrove).1]
    have hused : SameAccumulators s.requests
      { s.requests with usedNonce := Function.update s.requests.usedNonce nonce true } := ⟨rfl, rfl⟩
    exact (hused.trans (saveShare_accumulators ..)).trans ⟨rfl, rfl⟩
  | approveAccessBLS requestId listed sig aggPk shares =>
    simp only [execApproval, approveAccessBLS, bind_ok] at h
    obtain ⟨request, _, ⟨doc, record⟩, _, _, _, ⟨processed, request'⟩, hloop, _, _, hsettle⟩ := h
    exact (processGuardians_accumulators hloop).trans (settleRequest_ok hsettle).accumulators
  | approveAccessFhe approver requestId fheShare => exact absurd rfl (hother approver requestId fheShare)

/-! ## Submissions -/

def fheSubmission (r : ℕ) (t : Transition State Invocation) : Option (Address × Bytes) :=
  match t.label.2 with
  | .approval (.approveAccessFhe approver requestId fheShare) =>
    if requestId = r then some (approver, fheShare) else none
  | _ => none

/-- What a submission for a request does to its accumulator and counter: an empty share leaves them. -/
inductive Submits (q q' : Requests) (r : ℕ) (fheShare : Bytes) : Prop
  | empty : fheShare = [] → q'.accumulator r = q.accumulator r →
      q'.fheAccumulatorCount r = q.fheAccumulatorCount r → Submits q q' r fheShare
  | added : fheShare ≠ [] → fheAdd (q.accumulator r) fheShare = .ok (q'.accumulator r) →
      q'.fheAccumulatorCount r = q.fheAccumulatorCount r + 1 → Submits q q' r fheShare

theorem accumulateFheShare_others {requestId : ℕ} {approver : Address} {fheShare : Bytes}
    (h : accumulateFheShare q requestId approver fheShare = .ok (q', logs)) (hr : requestId ≠ r) :
    q'.fheAccumulator r = q.fheAccumulator r ∧ q'.fheAccumulatorCount r = q.fheAccumulatorCount r := by
  unfold accumulateFheShare at h
  split at h
  · simp only [pure_ok, Prod.mk.injEq] at h
    obtain ⟨rfl, _⟩ := h
    exact ⟨rfl, rfl⟩
  · simp only [bind_ok, pure_ok, Prod.mk.injEq] at h
    obtain ⟨newAcc, _, rfl, _⟩ := h
    exact ⟨Function.update_of_ne (Ne.symm hr) _ _, Function.update_of_ne (Ne.symm hr) _ _⟩

theorem accumulateFheShare_submits {approver : Address} {fheShare : Bytes}
    (h : accumulateFheShare q r approver fheShare = .ok (q', logs)) : Submits q q' r fheShare := by
  unfold accumulateFheShare at h
  split at h
  case isTrue hempty =>
    simp only [pure_ok, Prod.mk.injEq] at h
    obtain ⟨rfl, _⟩ := h
    exact .empty hempty rfl rfl
  case isFalse hne =>
    simp only [bind_ok, pure_ok, Prod.mk.injEq] at h
    obtain ⟨newAcc, hsum, rfl, _⟩ := h
    refine .added hne ?_ (Function.update_self ..)
    have hwritten : Requests.accumulator
        { q with fheAccumulator := Function.update q.fheAccumulator r (some newAcc) } r = newAcc := by
      simp [Requests.accumulator]
    exact hsum.trans (congrArg Except.ok hwritten.symm)

/-- What the body of the entry point leaves, up to the end of the counted paths. -/
theorem approveAccessFhe_accumulated {approver : Address} {requestId : ℕ} {fheShare : Bytes}
    (h : approveAccessFhe env s approver requestId fheShare = .ok ((q, a), logs)) :
    ∃ accumulated submitted, accumulateFheShare (flagApproval s.requests requestId approver) requestId approver
      fheShare = .ok (accumulated, submitted) ∧ SameAccumulators accumulated q := by
  simp only [approveAccessFhe, bind_ok, pure_ok] at h
  obtain ⟨_, _, request, _, _, _, ⟨doc, record⟩, _, _, _, _, _, ⟨accumulated, submitted⟩, hshare,
    ⟨⟨q', a'⟩, announced⟩, hsettle, heq⟩ := h
  simp only [Prod.mk.injEq] at heq
  obtain ⟨⟨rfl, rfl⟩, _⟩ := heq
  exact ⟨accumulated, submitted, hshare, (settleRequest_ok hsettle).accumulators⟩

theorem approveAccessFhe_others {approver : Address} {requestId : ℕ} {fheShare : Bytes}
    (h : approveAccessFhe env s approver requestId fheShare = .ok ((q, a), logs)) (hr : requestId ≠ r) :
    q.accumulator r = s.requests.accumulator r ∧
      q.fheAccumulatorCount r = s.requests.fheAccumulatorCount r := by
  obtain ⟨accumulated, submitted, hshare, hsame⟩ := approveAccessFhe_accumulated h
  obtain ⟨hacc, hcount⟩ := accumulateFheShare_others hshare hr
  rw [Requests.accumulator, hsame.accumulator, hacc, hsame.count, hcount]
  exact ⟨rfl, rfl⟩

theorem approveAccessFhe_submits {approver : Address} {fheShare : Bytes}
    (h : approveAccessFhe env s approver r fheShare = .ok ((q, a), logs)) : Submits s.requests q r fheShare := by
  obtain ⟨accumulated, submitted, hshare, hsame⟩ := approveAccessFhe_accumulated h
  have hacc : q.accumulator r = accumulated.accumulator r := by
    rw [Requests.accumulator, hsame.accumulator, Requests.accumulator]
  cases accumulateFheShare_submits hshare with
  | empty hempty hkept hcount =>
    exact .empty hempty (hacc.trans hkept) ((congrFun hsame.count r).trans hcount)
  | added hne hsum hcount =>
    refine .added hne ?_ ((congrFun hsame.count r).trans hcount)
    rw [hacc]
    exact hsum

theorem accumulateFheShare_admits {approver : Address} {fheShare sum : Bytes}
    (h : fheAdd (q.accumulator r) fheShare = .ok sum) :
    ∃ out, accumulateFheShare q r approver fheShare = .ok out := by
  unfold accumulateFheShare
  split
  · exact ⟨_, rfl⟩
  · exact ⟨_, (bind_ok _ _ _).mpr ⟨sum, h, rfl⟩⟩

theorem settleRequest_admits {requestId : ℕ} {request : AccessRequest} {doc : Document} {record : VaultRecord}
    {announced : List Event} {out : Output (Requests × Grants)}
    (h : settleRequest env s q requestId request doc record announced = .ok out) (q' : Requests)
    (announced' : List Event) :
    ∃ out', settleRequest env s q' requestId request doc record announced' = .ok out' := by
  unfold settleRequest at h ⊢
  split at h
  case isTrue hreached =>
    simp only [approveRequest, bind_ok] at h
    obtain ⟨notified, hnotified, _⟩ := h
    rw [if_pos hreached]
    exact ⟨_, (bind_ok _ _ _).mpr ⟨notified, hnotified, rfl⟩⟩
  case isFalse hbelow =>
    rw [if_neg hbelow]
    exact ⟨_, rfl⟩

theorem approveAccessFhe_admits {approver : Address} {fheShare sum : Bytes}
    (h : ∃ out, approveAccessFhe env s approver r [] = .ok out)
    (hsum : fheAdd (s.requests.accumulator r) fheShare = .ok sum) :
    ∃ out, approveAccessFhe env s approver r fheShare = .ok out := by
  obtain ⟨out, h⟩ := h
  obtain ⟨accumulated', hshare'⟩ := @accumulateFheShare_admits (flagApproval s.requests r approver) r approver fheShare sum hsum
  simp only [approveAccessFhe, bind_ok, pure_ok] at h ⊢
  obtain ⟨u, hauth, request, hpending, v, hself, loaded, hactive, w, hguardian, x, hflag, accumulated, hshare,
    settled, hsettle, _⟩ := h
  obtain ⟨settled', hsettle'⟩ := settleRequest_admits hsettle accumulated'.1
    [.fheAggregated r request.documentId request.requester ((accumulated'.1.fheAccumulator r).getD [])]
  exact ⟨_, u, hauth, request, hpending, v, hself, loaded, hactive, w, hguardian, x, hflag, accumulated', hshare',
    settled', hsettle', rfl⟩

theorem Steps.submits {i : Invocation} (h : Steps host s i s') (r : ℕ) :
    (fheSubmission r ⟨s, i, s'⟩ = none ∧ s'.requests.accumulator r = s.requests.accumulator r ∧
      s'.requests.fheAccumulatorCount r = s.requests.fheAccumulatorCount r) ∨
    ∃ approver fheShare, fheSubmission r ⟨s, i, s'⟩ = some (approver, fheShare) ∧
      Submits s.requests s'.requests r fheShare := by
  have hkept : ∀ q : Requests, SameAccumulators s.requests q → q.accumulator r = s.requests.accumulator r ∧
      q.fheAccumulatorCount r = s.requests.fheAccumulatorCount r := by
    intro q hsame
    rw [Requests.accumulator, hsame.accumulator, hsame.count]
    exact ⟨rfl, rfl⟩
  cases h.effect with
  | requestAccess hreq =>
    simp only [requestAccess, bind_ok, pure_ok, Prod.mk.injEq] at hreq
    obtain ⟨_, _, doc, _, record, _, _, _, _, _, _, _, rfl, _⟩ := hreq
    exact .inl ⟨rfl, rfl, rfl⟩
  | verifyThresholdSignatures hverify =>
    simp only [verifyThresholdSignatures, verifyThresholdSignaturesInternal, bind_ok, revertIf_ok,
      exists_const, pure_ok, Prod.mk.injEq, Bool.not_eq_true] at hverify
    obtain ⟨used, ⟨_, _, _, _, _, rfl⟩, rfl, _⟩ := hverify
    exact .inl ⟨rfl, rfl, rfl⟩
  | @approval env c q a logs hexec =>
    by_cases hfhe : ∃ approver requestId fheShare, c = .approveAccessFhe approver requestId fheShare
    · obtain ⟨approver, requestId, fheShare, rfl⟩ := hfhe
      by_cases hr : requestId = r
      · subst hr
        exact .inr ⟨approver, fheShare, if_pos rfl, approveAccessFhe_submits hexec⟩
      · exact .inl ⟨if_neg hr, approveAccessFhe_others hexec hr⟩
    · have hsame := execApproval_accumulators hexec fun approver requestId fheShare hc =>
        hfhe ⟨approver, requestId, fheShare, hc⟩
      refine .inl ⟨?_, hkept q hsame⟩
      cases c with
      | approveAccessFhe approver requestId fheShare => exact absurd ⟨approver, requestId, fheShare, rfl⟩ hfhe
      | _ => rfl
  | _ => exact .inl ⟨rfl, rfl, rfl⟩

end ChainGuard.Soroban
