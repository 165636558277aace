import ChainGuard.Library.Spending
import ChainGuard.Soroban.Approvals

/-! The nonces of threshold signatures. They are numbers of the whole contract, and everybody may spend
one by signing any message with any key: no nonce is accepted twice, but an approval stays
acceptable only as long as nobody else has spent its nonce. -/
namespace ChainGuard.Soroban
open Guarded History
set_option autoImplicit false

variable {host : Host} {env : Env} {s s' : State} {q q' : Requests} {a : Grants} {logs : List Event}
  {hist later : List (Transition State Invocation)} {t : Transition State Invocation}

/-! ## The calls that spend a nonce -/

def Call.spentNonce : Call → Option ℕ
  | .verifyThresholdSignatures _ _ _ _ nonce _ => some nonce
  | .approval (.approveAccessThreshold _ _ _ _ nonce _ _) => some nonce
  | _ => none

def spentNonce (t : Transition State Invocation) : Option ℕ := t.label.2.spentNonce

theorem saveShare_usedNonce (q : Requests) (requestId : ℕ) (guardian : Address) (share : Option Bytes) :
    (saveShare q requestId guardian share).usedNonce = q.usedNonce := by
  cases share with
  | none => rfl
  | some share => rfl

theorem Settles.usedNonce {requestId : ℕ} {request : AccessRequest} {doc : Document} {record : VaultRecord}
    (h : Settles s q requestId request doc record q' a) : q'.usedNonce = q.usedNonce := by
  cases h with
  | below _ => rfl
  | reached _ => rfl

theorem accumulateFheShare_usedNonce {requestId : ℕ} {approver : Address} {fheShare : Bytes}
    (h : accumulateFheShare q requestId approver fheShare = .ok (q', logs)) :
    q'.usedNonce = q.usedNonce := by
  unfold accumulateFheShare at h
  split at h
  · simp only [pure_ok, Prod.mk.injEq] at h
    rw [← h.1]
  · simp only [bind_ok, pure_ok, Prod.mk.injEq] at h
    obtain ⟨newAcc, _, rfl, _⟩ := h
    rfl

theorem processGuardians_usedNonce {requestId vaultId : ℕ} {guardians listed : List Address}
    {request request' : AccessRequest} {encryptedShares : List Bytes}
    (h : processGuardians s requestId vaultId guardians q request listed encryptedShares =
      .ok (q', request')) : q'.usedNonce = q.usedNonce := by
  induction listed generalizing q request encryptedShares with
  | nil =>
    simp only [processGuardians, pure_ok, Prod.mk.injEq] at h
    rw [← h.1]
  | cons guardian rest ih =>
    simp only [processGuardians, bind_ok, assert_ok, expect_ok, exists_const] at h
    obtain ⟨_, _, keyInfo, _, _, hrest⟩ := h
    have hlisted : (recordListed requestId guardian q request).1.usedNonce = q.usedNonce := by
      unfold recordListed
      split
      · rfl
      · rfl
    rw [ih hrest, saveShare_usedNonce, hlisted]

theorem execApproval_nonce {c : ApprovalCall} {i : Invocation} (hi : i = (env, .approval c))
    (h : execApproval host env s c = .ok ((q, a), logs)) :
    Spending.Effect (fun s => s.requests.usedNonce) spentNonce ⟨s, i, { s with requests := q, grants := a, logs }⟩ := by
  subst hi
  cases c with
  | approveAccess approver requestId share =>
    simp only [execApproval, approveAccess, bind_ok] at h
    obtain ⟨_, _, request, _, ⟨doc, record⟩, _, _, _, _, _, hsettle⟩ := h
    refine .kept rfl ?_
    exact (settleRequest_ok hsettle).usedNonce.trans (saveShare_usedNonce ..)
  | approveAccessThreshold caller requestId signatures publicKeys nonce expirationLedger share =>
    simp only [execApproval, approveAccessThreshold, verifyThresholdSignaturesInternal, bind_ok,
      revertIf_ok, exists_const, pure_ok, Bool.not_eq_true] at h
    obtain ⟨_, _, request, _, ⟨doc, record⟩, _, used, ⟨_, _, hfresh, _, _, rfl⟩, happrove⟩ := h
    refine .spends nonce rfl hfresh ?_
    rw [(approveRequest_ok happrove).1]
    exact saveShare_usedNonce ..
  | approveAccessBLS requestId listed sig aggPk shares =>
    simp only [execApproval, approveAccessBLS, bind_ok] at h
    obtain ⟨request, _, ⟨doc, record⟩, _, _, _, ⟨processed, request'⟩, hloop, _, _, hsettle⟩ := h
    refine .kept rfl ?_
    exact (settleRequest_ok hsettle).usedNonce.trans (processGuardians_usedNonce hloop)
  | approveAccessFhe approver requestId fheShare =>
    simp only [execApproval, approveAccessFhe, bind_ok, pure_ok] at h
    obtain ⟨_, _, request, _, _, _, ⟨doc, record⟩, _, _, _, _, _, ⟨accumulated, submitted⟩, hshare,
      ⟨⟨q', a'⟩, announced⟩, hsettle, heq⟩ := h
    simp only [Prod.mk.injEq] at heq
    obtain ⟨⟨rfl, rfl⟩, _⟩ := heq
    refine .kept rfl ?_
    exact (settleRequest_ok hsettle).usedNonce.trans ((accumulateFheShare_usedNonce hshare).trans rfl)

theorem Steps.nonce_effect {i : Invocation} (h : Steps host s i s') :
    Spending.Effect (fun s => s.requests.usedNonce) spentNonce ⟨s, i, s'⟩ := by
  cases h.effect with
  | @requestAccess env requester documentId requests logs hreq =>
    simp only [requestAccess, bind_ok, pure_ok, Prod.mk.injEq] at hreq
    obtain ⟨_, _, doc, _, record, _, _, _, _, _, _, _, rfl, _⟩ := hreq
    exact .kept rfl rfl
  | verifyThresholdSignatures hverify =>
    simp only [verifyThresholdSignatures, verifyThresholdSignaturesInternal, bind_ok, revertIf_ok,
      exists_const, pure_ok, Prod.mk.injEq, Bool.not_eq_true] at hverify
    obtain ⟨used, ⟨_, _, hfresh, _, _, rfl⟩, rfl, _⟩ := hverify
    exact .spends _ rfl hfresh rfl
  | approval hexec => exact execApproval_nonce rfl hexec
  | _ => exact .kept rfl rfl

/-! ## Acceptance of a threshold approval -/

/-- The arguments of a call of `approve_access_threshold`. -/
structure ThresholdApproval where
  caller : Address
  requestId : ℕ
  signatures : List Signature
  publicKeys : List Bytes32
  nonce : ℕ
  expirationLedger : ℕ
  beneficiaryShare : Option Bytes

def Accepts (host : Host) (env : Env) (s : State) (p : ThresholdApproval) : Prop :=
  ∃ out, approveAccessThreshold host env s p.caller p.requestId p.signatures p.publicKeys p.nonce
    p.expirationLedger p.beneficiaryShare = .ok out

instance (host : Host) (env : Env) (s : State) (p : ThresholdApproval) : Decidable (Accepts host env s p) :=
  match h : approveAccessThreshold host env s p.caller p.requestId p.signatures p.publicKeys p.nonce
      p.expirationLedger p.beneficiaryShare with
  | .ok out => isTrue ⟨out, h⟩
  | .error _ => isFalse fun ⟨_, h'⟩ => by cases h.symm.trans h'

/-- Everything that acceptance asks for but a fresh nonce. -/
structure Acceptable (host : Host) (env : Env) (s : State) (p : ThresholdApproval)
    (request : AccessRequest) (doc : Document) (record : VaultRecord) : Prop where
  authorized : p.caller ∈ env.authorized
  approvable : Approvable env s p.requestId request doc record
  enough : ¬ (record.vault.approvalThreshold = 0 ∨ p.signatures.length < record.vault.approvalThreshold ∨
    p.signatures.length ≠ p.publicKeys.length)
  unexpired : ¬ p.expirationLedger < env.sequence
  distinct : p.publicKeys.Nodup
  verified : ¬ ∃ key signature, (key, signature) ∈ p.publicKeys.zip p.signatures ∧
    host.ed25519Verify key (thresholdPayload (approvalMessage p.requestId doc.vaultId) p.nonce
      p.expirationLedger) signature = false
  notified : ∃ events, notifyAccessRegistry env s doc request = .ok events

theorem accepts_iff {p : ThresholdApproval} :
    Accepts host env s p ↔
      (∃ request doc record, Acceptable host env s p request doc record) ∧
        s.requests.usedNonce p.nonce = false := by
  simp only [Accepts, approveAccessThreshold, verifyThresholdSignaturesInternal, approveRequest, bind_ok,
    requireAuth_ok, revertIf_ok, exists_const, pure_ok, Prod.exists]
  constructor
  · rintro ⟨_, _, _, hauthorized, request, hpending, doc, record, hactive, used, ⟨henough, hunexpired, hfresh,
      hdistinct, hverified, _⟩, events, hnotified, _⟩
    obtain ⟨hstored, hstatus, hexpiry⟩ := loadPending_ok.mp hpending
    obtain ⟨hdoc, hrecord, hact⟩ := loadActive_ok.mp hactive
    exact ⟨⟨request, doc, record, hauthorized, ⟨hstored, hstatus, hexpiry, hdoc, hrecord, hact⟩, henough,
      hunexpired, not_not.mp hdistinct, hverified, events, hnotified⟩, Bool.eq_false_iff.mpr hfresh⟩
  · rintro ⟨⟨request, doc, record, h⟩, hfresh⟩
    obtain ⟨events, hnotified⟩ := h.notified
    have happ := h.approvable
    exact ⟨_, _, _, h.authorized, request, loadPending_ok.mpr ⟨happ.stored, happ.pending, happ.unexpired⟩,
      doc, record, loadActive_ok.mpr ⟨happ.document, happ.vault, happ.active⟩, _,
      ⟨h.enough, h.unexpired, Bool.eq_false_iff.mp hfresh, not_not.mpr h.distinct, h.verified, rfl⟩,
      events, hnotified, rfl⟩

/-! ## What others can do to it -/

/-- Somebody has a batch verified, or a threshold approval of another request accepted. -/
def OtherBatch (requestId : ℕ) (t : Transition State Invocation) : Prop :=
  match t.label.2 with
  | .verifyThresholdSignatures .. => True
  | .approval (.approveAccessThreshold _ other _ _ _ _ _) => other ≠ requestId
  | _ => False

/-- What the acceptance of an approval of the request reads, the nonces apart. -/
structure KeepsApproval (requestId : ℕ) (s s' : State) : Prop where
  vaults : s'.vaults = s.vaults
  documents : s'.documents = s.documents
  stored : s'.requests.requests requestId = s.requests.requests requestId

theorem Steps.keepsApproval {i : Invocation} {requestId : ℕ} (h : Steps host s i s')
    (hother : OtherBatch requestId ⟨s, i, s'⟩) : KeepsApproval requestId s s' := by
  cases h.effect with
  | verifyThresholdSignatures hverify =>
    simp only [verifyThresholdSignatures, bind_ok, pure_ok, Prod.mk.injEq] at hverify
    obtain ⟨_, _, rfl, _⟩ := hverify
    exact ⟨rfl, rfl, rfl⟩
  | @approval env c q a logs hexec =>
    cases c with
    | approveAccessThreshold caller other signatures publicKeys nonce expirationLedger share =>
      obtain ⟨request, doc, record, hbatch⟩ := approveAccessThreshold_ok hexec
      obtain ⟨recorded, hsame, rfl, _⟩ := hbatch.settles
      refine ⟨rfl, rfl, ?_⟩
      show Function.update recorded.requests other _ requestId = _
      rw [Function.update_of_ne (Ne.symm hother), hsame.requests]
    | _ => cases hother
  | _ => cases hother

theorem KeepsApproval.symm {requestId : ℕ} (h : KeepsApproval requestId s s') :
    KeepsApproval requestId s' s := ⟨h.vaults.symm, h.documents.symm, h.stored.symm⟩

theorem Acceptable.kept {p : ThresholdApproval} {request : AccessRequest} {doc : Document}
    {record : VaultRecord} (h : Acceptable host env s p request doc record)
    (hkeeps : KeepsApproval p.requestId s s') : Acceptable host env s' p request doc record := by
  have hnotify : notifyAccessRegistry env s' doc request = notifyAccessRegistry env s doc request := by
    rw [notifyAccessRegistry, notifyAccessRegistry, hkeeps.vaults]
  have happ := h.approvable
  refine ⟨h.authorized, ⟨?_, happ.pending, happ.unexpired, ?_, ?_, happ.active⟩, h.enough, h.unexpired,
    h.distinct, h.verified, ?_⟩
  · rw [hkeeps.stored]
    exact happ.stored
  · rw [hkeeps.documents]
    exact happ.document
  · rw [hkeeps.vaults]
    exact happ.vault
  · rw [hnotify]
    exact h.notified

theorem others_keep {p : ThresholdApproval} (h : RunFrom (Steps host) s later s')
    (hothers : ∀ t ∈ later, OtherBatch p.requestId t) {request : AccessRequest} {doc : Document}
    {record : VaultRecord} :
    Acceptable host env s' p request doc record ↔ Acceptable host env s p request doc record := by
  refine h.relates_of (R := fun _ x => Acceptable host env x p request doc record ↔
    Acceptable host env s p request doc record) ?_ ?_ hothers
  · rintro x rfl
    exact Iff.rfl
  · intro hist x i x' _ ih hother hstep
    have hkeeps := hstep.keepsApproval hother
    have hsame : Acceptable host env x' p request doc record ↔ Acceptable host env x p request doc record :=
      ⟨fun h => h.kept hkeeps.symm, fun h => h.kept hkeeps⟩
    exact hsame.trans ih

theorem nonce_used_iff (h : RunFrom (Steps host) s later s') (nonce : ℕ) :
    s'.requests.usedNonce nonce = true ↔
      s.requests.usedNonce nonce = true ∨ nonce ∈ Spending.spentIn spentNonce later := by
  have hstart : ∀ x, s = x → x.requests.usedNonce = s.requests.usedNonce := by
    rintro x rfl
    rfl
  exact Spending.used_iff hstart (fun x i x' hstep => Steps.nonce_effect hstep) h nonce

theorem nonces_spent_once (h : StellarRun host hist s) : (Spending.spentIn spentNonce hist).Nodup := by
  have hstart : ∀ x, Deployed x → x.requests.usedNonce = fun _ => false := by
    rintro x rfl
    rfl
  exact Spending.spent_once hstart (fun x i x' hstep => Steps.nonce_effect hstep) h

/-- In every reachable state an acceptable approval stays acceptable through the calls of others exactly
when none of them spends its nonce; and no nonce is ever accepted twice. -/
theorem threshold_approval_kept_iff (h : StellarRun host hist s) :
    (∀ env p, Accepts host env s p → ∀ later s', RunFrom (Steps host) s later s' →
      (∀ t ∈ later, OtherBatch p.requestId t) →
        (Accepts host env s' p ↔ ∀ t ∈ later, t.label.2.spentNonce ≠ some p.nonce)) ∧
    ∀ later s', RunFrom (Steps host) s later s' → (Spending.spentIn spentNonce (later ++ hist)).Nodup := by
  constructor
  · intro env p haccepts later s' hlater hothers
    obtain ⟨hacceptable, hfresh⟩ := accepts_iff.mp haccepts
    have hkept : (∃ request doc record, Acceptable host env s' p request doc record) := by
      obtain ⟨request, doc, record, h⟩ := hacceptable
      exact ⟨request, doc, record, (others_keep hlater hothers).mpr h⟩
    have hspent : p.nonce ∈ Spending.spentIn spentNonce later ↔
        ∃ t ∈ later, t.label.2.spentNonce = some p.nonce := List.mem_filterMap
    rw [accepts_iff, and_iff_right hkept, ← Bool.not_eq_true, nonce_used_iff hlater, hfresh, hspent]
    simp
  · intro later s' hlater
    exact nonces_spent_once (h.extend hlater)

/-- Account 3 requests the document of a vault with threshold 2. -/
def requestedThreshold : List Invocation :=
  openedVault 2 ++ [(invokedBy [acct 3] 103, .requestAccess (acct 3) 1)]

/-- Guardian 2 approves it with two signatures and nonce 7. -/
def signedApproval : ThresholdApproval :=
  { caller := acct 2, requestId := 1, signatures := [1, 2], publicKeys := [1, 2], nonce := 7
    expirationLedger := 1000, beneficiaryShare := none }

theorem threshold_approval_kept_other : ∃ hist s s', StellarRun localHost hist s ∧
    Steps localHost s (invokedBy [acct 8] 104, .verifyThresholdSignatures [] [9] [9] 1 8 1000) s' ∧
      Accepts localHost (invokedBy [acct 2] 105) s signedApproval ∧
        Accepts localHost (invokedBy [acct 2] 105) s' signedApproval := by
  obtain ⟨hist, s, s', hrun, hstep, hp⟩ := exists_step localHost requestedThreshold
    (invokedBy [acct 8] 104, .verifyThresholdSignatures [] [9] [9] 1 8 1000)
    (fun s _ => decide (Accepts localHost (invokedBy [acct 2] 105) s signedApproval)) (by decide +kernel)
  have haccepts := of_decide_eq_true hp
  have hlater : RunFrom (Steps localHost) s [⟨s, _, s'⟩] s' := .next (.start rfl) hstep
  refine ⟨hist, s, s', hrun, hstep, haccepts, ?_⟩
  refine ((threshold_approval_kept_iff hrun).1 _ _ haccepts _ s' hlater ?_).mpr ?_
  · intro t ht
    cases List.mem_singleton.mp ht
    trivial
  · intro t ht
    cases List.mem_singleton.mp ht
    show some 8 ≠ some 7
    decide

/-- An outsider has a signature of its own on an empty message verified, with nonce 7. -/
theorem threshold_nonce_burned : ∃ hist s s', StellarRun localHost hist s ∧
    Steps localHost s (invokedBy [acct 8] 104, .verifyThresholdSignatures [] [9] [9] 1 7 1000) s' ∧
      Accepts localHost (invokedBy [acct 2] 105) s signedApproval ∧
        ¬ Accepts localHost (invokedBy [acct 2] 105) s' signedApproval := by
  obtain ⟨hist, s, s', hrun, hstep, hp⟩ := exists_step localHost requestedThreshold
    (invokedBy [acct 8] 104, .verifyThresholdSignatures [] [9] [9] 1 7 1000)
    (fun s s' => decide (Accepts localHost (invokedBy [acct 2] 105) s signedApproval ∧
      ¬ Accepts localHost (invokedBy [acct 2] 105) s' signedApproval)) (by decide +kernel)
  exact ⟨hist, s, s', hrun, hstep, of_decide_eq_true hp⟩

end ChainGuard.Soroban
