import ChainGuard.Soroban.Approvals

/-! The access flag of a document and a user: an upload or an approved request sets it, and a
revocation of that document clears it. It reads nothing else, not the user's version. -/
namespace ChainGuard.Soroban
open Guarded History
set_option autoImplicit false

variable {host : Host} {env : Env} {s s' : State} {q q' : Requests} {a : Grants} {logs : List Event}

/-! ## What a transition grants and revokes -/

def ApprovalCall.requestId : ApprovalCall → ℕ
  | .approveAccess _ requestId _ => requestId
  | .approveAccessThreshold _ requestId _ _ _ _ _ => requestId
  | .approveAccessBLS requestId _ _ _ _ => requestId
  | .approveAccessFhe _ requestId _ => requestId

def granted (t : Transition State Invocation) : Option (ℕ × Address) :=
  match t.label.2 with
  | .approval c =>
    if (t.post.requests.requests c.requestId).map (·.status) = some .Approved then
      (t.pre.requests.requests c.requestId).map fun request => (request.documentId, request.requester)
    else none
  | _ => none

def uploaded (t : Transition State Invocation) : Option (ℕ × Address) :=
  match t.label.2 with
  | .addDocument uploader .. => some (t.post.documents.docCount, uploader)
  | _ => none

def revoked (t : Transition State Invocation) : Option (ℕ × Address) :=
  match t.label.2 with
  | .grants (.revokeAccess _ documentId target) => some (documentId, target)
  | .grants (.relayRevokeAccess _ documentId _ target _ _ _) => some (documentId, target)
  | _ => none

/-- The two outcomes of an approval: the request stays pending, or is approved and granted. -/
inductive ApprovalOutcome (s : State) (requestId : ℕ) (request : AccessRequest) (q : Requests) (a : Grants) :
    Prop
  | pending : (q.requests requestId).map (·.status) = some .Pending → a = s.grants →
      ApprovalOutcome s requestId request q a
  | approved : (q.requests requestId).map (·.status) = some .Approved →
      a.hasAccess = Mapping.set₂ s.grants.hasAccess request.documentId request.requester true →
      ApprovalOutcome s requestId request q a

theorem Settles.outcome {requestId : ℕ} {request settled : AccessRequest} {doc : Document}
    {record : VaultRecord} (h : Settles s q requestId settled doc record q' a)
    (hpending : request.status = .Pending)
    (hsettled : settled = { request with approvedBy := settled.approvedBy }) :
    ApprovalOutcome s requestId request q' a := by
  rw [hsettled] at h
  cases h with
  | below _ =>
    refine .pending ?_ rfl
    change (Function.update q.requests requestId _ requestId).map _ = _
    rw [Function.update_self, Option.map_some, hpending]
  | reached _ =>
    refine .approved ?_ rfl
    change (Function.update q.requests requestId _ requestId).map _ = _
    rw [Function.update_self, Option.map_some]

theorem execApproval_outcome {c : ApprovalCall}
    (h : execApproval host env s c = .ok ((q, a), logs)) :
    ∃ request doc record, Approvable env s c.requestId request doc record ∧
      ApprovalOutcome s c.requestId request q a := by
  cases c with
  | approveAccess approver requestId share =>
    obtain ⟨request, doc, record, hone⟩ := approveAccess_ok h
    obtain ⟨recorded, _, hsettles⟩ := hone.settles
    exact ⟨request, doc, record, hone.approvable, hsettles.outcome hone.approvable.pending rfl⟩
  | approveAccessThreshold caller requestId signatures publicKeys nonce expirationLedger share =>
    obtain ⟨request, doc, record, hsigned⟩ := approveAccessThreshold_ok h
    obtain ⟨recorded, _, rfl, rfl⟩ := hsigned.settles
    refine ⟨request, doc, record, hsigned.approvable, .approved ?_ rfl⟩
    change (Function.update recorded.requests requestId _ requestId).map _ = _
    rw [Function.update_self, Option.map_some]
  | approveAccessBLS requestId listed sig aggPk shares =>
    obtain ⟨request, doc, record, hbatch⟩ := approveAccessBLS_ok h
    obtain ⟨processed, request', hprocessed, hsettles⟩ := hbatch.settles
    exact ⟨request, doc, record, hbatch.approvable,
      hsettles.outcome hbatch.approvable.pending hprocessed.same⟩
  | approveAccessFhe approver requestId fheShare =>
    obtain ⟨request, doc, record, hone, _⟩ := approveAccessFhe_ok h
    obtain ⟨recorded, _, hsettles⟩ := hone.settles
    exact ⟨request, doc, record, hone.approvable, hsettles.outcome hone.approvable.pending rfl⟩

/-! ## What a transition does to the flags -/

def documentVault (s : State) (d : ℕ) : Option ℕ := (s.documents.docs d).map (·.vaultId)

inductive FlagEffect (s : State) (i : Invocation) (s' : State) : Prop
  | kept : s'.grants.hasAccess = s.grants.hasAccess → granted ⟨s, i, s'⟩ = none →
      uploaded ⟨s, i, s'⟩ = none → revoked ⟨s, i, s'⟩ = none → FlagEffect s i s'
  | uploaded (v : ℕ) (u : Address) (record : VaultRecord) : s.vaults.vaults v = some record →
      u ∈ record.vault.guardians → documentVault s' (s.documents.docCount + 1) = some v →
      s'.grants.hasAccess = Mapping.set₂ s.grants.hasAccess (s.documents.docCount + 1) u true →
      granted ⟨s, i, s'⟩ = none → uploaded ⟨s, i, s'⟩ = some (s.documents.docCount + 1, u) →
      revoked ⟨s, i, s'⟩ = none → FlagEffect s i s'
  | granted (d : ℕ) (u : Address) : (documentVault s d).isSome = true →
      s'.grants.hasAccess = Mapping.set₂ s.grants.hasAccess d u true →
      granted ⟨s, i, s'⟩ = some (d, u) → uploaded ⟨s, i, s'⟩ = none → revoked ⟨s, i, s'⟩ = none →
      FlagEffect s i s'
  | revoked (d : ℕ) (u : Address) : (documentVault s d).isSome = true →
      s'.grants.hasAccess = Mapping.set₂ s.grants.hasAccess d u false →
      granted ⟨s, i, s'⟩ = none → uploaded ⟨s, i, s'⟩ = none → revoked ⟨s, i, s'⟩ = some (d, u) →
      FlagEffect s i s'

theorem isSome_documentVault {d : ℕ} {doc : Document} (h : s.documents.docs d = some doc) :
    (documentVault s d).isSome = true := by
  rw [documentVault, h]
  rfl

theorem revokeAccess_ok {guardian : Address} {d : ℕ} {target : Address}
    (h : revokeAccess env s guardian d target = .ok (a, logs)) :
    (documentVault s d).isSome = true ∧
      a.hasAccess = Mapping.set₂ s.grants.hasAccess d target false := by
  simp only [revokeAccess, bind_ok, requireAuth_ok, assert_ok, loadDocument_ok, loadVaultRecord_ok,
    exists_const, pure_ok] at h
  obtain ⟨_, doc, hdoc, record, _, _, h⟩ := h
  obtain ⟨rfl, _⟩ := Prod.mk.inj h
  exact ⟨isSome_documentVault hdoc, rfl⟩

theorem relayRevokeAccess_ok {vaultGid : Bytes32} {d : ℕ} {targetEvmUser : EvmAddress}
    {target : Address} {nonce : ℕ} {signature : Signature} {recoveryId : ℕ}
    (h : relayRevokeAccess host s vaultGid d targetEvmUser target nonce signature recoveryId =
      .ok (a, logs)) :
    (documentVault s d).isSome = true ∧
      a.hasAccess = Mapping.set₂ s.grants.hasAccess d target false := by
  simp only [relayRevokeAccess, bind_ok, assert_ok, expect_ok, loadDocument_ok, exists_const,
    pure_ok, Prod.mk.injEq] at h
  obtain ⟨vaultId, _, doc, hdoc, _, _, revoker, _, recovered, _, _, rfl, _⟩ := h
  exact ⟨isSome_documentVault hdoc, rfl⟩

theorem Steps.flag_effect {i : Invocation} (h : Steps host s i s') : FlagEffect s i s' := by
  cases h.effect with
  | addDocument hadd =>
    have hup := addDocument_ok hadd
    obtain ⟨record, hrecord, hguardian⟩ := hup.record
    obtain ⟨doc, hvault, hdocs⟩ := hup.docs
    refine .uploaded _ _ record hrecord hguardian ?_ hup.hasAccess rfl ?_ rfl
    · change Option.map _ (_ : Option Document) = _
      rw [hdocs, Function.update_self, Option.map_some, hvault]
    · change some (_, _) = _
      rw [hup.counter]
  | @approval env c requests grants logs hexec =>
    obtain ⟨request, doc, record, happ, houtcome⟩ := execApproval_outcome hexec
    cases houtcome with
    | pending hstatus hgrants =>
      refine .kept (by rw [hgrants]) ?_ rfl rfl
      change (if (requests.requests c.requestId).map _ = _ then _ else none) = none
      rw [hstatus]
      rfl
    | approved hstatus hhas =>
      refine .granted request.documentId request.requester (isSome_documentVault happ.document) hhas ?_
        rfl rfl
      change (if (requests.requests c.requestId).map _ = _ then
        (s.requests.requests c.requestId).map _ else none) = _
      rw [hstatus, if_pos rfl, happ.stored, Option.map_some]
  | @grants env c grants logs hexec =>
    cases c with
    | revokeAccess guardian d target =>
      obtain ⟨hdoc, hhas⟩ := revokeAccess_ok hexec
      exact .revoked d target hdoc hhas rfl rfl rfl
    | relayRevokeAccess vaultGid d targetEvmUser target nonce signature recoveryId =>
      obtain ⟨hdoc, hhas⟩ := relayRevokeAccess_ok hexec
      exact .revoked d target hdoc hhas rfl rfl rfl
    | linkCrossChainVault owner vaultId vaultGid evmRevoker =>
      simp only [execGrants, linkCrossChainVault, bind_ok, requireAuth_ok, assert_ok, loadVaultRecord_ok,
        exists_const, pure_ok, Prod.mk.injEq] at hexec
      obtain ⟨_, record, _, _, _, rfl, _⟩ := hexec
      exact .kept rfl rfl rfl rfl
  | _ => exact .kept rfl rfl rfl rfl

/-- A user has access to a document exactly when an upload or an approval gave it and no revocation
of that document took it back since. -/
theorem hasAccess_iff_since {hist : List (Transition State Invocation)} (h : StellarRun host hist s)
    (d : ℕ) (u : Address) : s.grants.hasAccess d u = true ↔
      Since (fun t => revoked t ≠ some (d, u)) (fun t => granted t = some (d, u) ∨ uploaded t = some (d, u))
        hist := by
  refine h.relates (R := fun hist s => s.grants.hasAccess d u = true ↔
    Since (fun t => revoked t ≠ some (d, u))
      (fun t => granted t = some (d, u) ∨ uploaded t = some (d, u)) hist) ?_ ?_
  · rintro s rfl
    exact iff_of_false Bool.false_ne_true id
  · intro hist s i s' _ ih hstep
    rw [since_cons, ← ih]
    cases hstep.flag_effect with
    | kept hhas hgranted huploaded hrevoked => simp [hhas, hgranted, huploaded, hrevoked]
    | uploaded v w record _ _ _ hhas hgranted huploaded hrevoked =>
      rw [hhas, Mapping.set₂_true_iff, hgranted, huploaded, hrevoked]
      simp
    | granted d' w _ hhas hgranted huploaded hrevoked =>
      rw [hhas, Mapping.set₂_true_iff, hgranted, huploaded, hrevoked]
      simp
    | revoked d' w _ hhas hgranted huploaded hrevoked =>
      rw [hhas, Mapping.set₂_false_iff, hgranted, huploaded, hrevoked]
      simp

theorem hasAccess_iff_since_upload : ∃ hist s, StellarRun localHost hist s ∧
    Since (fun t => revoked t ≠ some (1, acct 1))
      (fun t => granted t = some (1, acct 1) ∨ uploaded t = some (1, acct 1)) hist := by
  obtain ⟨hist, s, hrun, haccess⟩ := exists_run localHost (openedVault 1)
    (fun _ s => s.grants.hasAccess 1 (acct 1)) (by decide +kernel)
  exact ⟨hist, s, hrun, (hasAccess_iff_since hrun 1 (acct 1)).mp haccess⟩

end ChainGuard.Soroban
