import ChainGuard.Soroban.Approvals

/-! Whose signatures a batch approval has verified. The Ed25519 path takes its keys from the caller
and never asks whether they belong to guardians; the BLS path looks at the form of a key and a
signature that belong to nobody. -/
namespace ChainGuard.Soroban
open Guarded History
set_option autoImplicit false

variable {host : Host} {env : Env} {s s' : State}

/-! ## Who signed -/

/-- Who signed what: the owner of an Ed25519 key a payload, the holder of a BLS key a request. No
Ed25519 signature can be forged; what the BLS check accepts says nothing about its holders. -/
structure Signing (host : Host) where
  signed : Bytes32 → Bytes → Prop
  blsSigned : Bytes → ℕ → Prop
  unforgeable : ∀ key payload signature,
    host.ed25519Verify key payload signature = true → signed key payload

/-- Nothing was signed but what Ed25519 accepts. -/
def Signing.least (host : Host) : Signing host where
  signed := fun key payload => ∃ signature, host.ed25519Verify key payload signature = true
  blsSigned := fun _ _ => False
  unforgeable := fun _ _ signature h => ⟨signature, h⟩

/-- The call verified a signature over the request that the address produced, under key material
bound to it: the key the account is named by, or the BLS key it registered for the vault. -/
inductive Vouched (host : Host) (w : Signing host) (s : State) (requestId : ℕ) (request : AccessRequest)
    (doc : Document) (threshold : ℕ) : ApprovalCall → Address → Prop
  | ed25519 (caller : Address) (signatures : List Signature) (publicKeys : List Bytes32)
      (nonce expirationLedger : ℕ) (share : Option Bytes) (key : Bytes32) (signature : Signature) :
      (key, signature) ∈ publicKeys.zip signatures →
      host.ed25519Verify key (thresholdPayload (approvalMessage requestId doc.vaultId) nonce
        expirationLedger) signature = true →
      w.signed key (thresholdPayload (approvalMessage requestId doc.vaultId) nonce expirationLedger) →
      Vouched host w s requestId request doc threshold (.approveAccessThreshold caller requestId
        signatures publicKeys nonce expirationLedger share) (.account key)
  | bls (listed : List Address) (sig aggPk : Bytes) (shares : List Bytes) (g : Address)
      (keyInfo : GuardianBLSKeyInfo) : g ∈ listed →
      s.vaults.guardianBLSKey doc.vaultId g = some keyInfo → keyInfo.registered = true →
      BLSVerifier.verifyThresholdSignature requestId doc.vaultId request.documentId request.requester
        aggPk sig listed.length threshold = true →
      w.blsSigned keyInfo.publicKey requestId →
      Vouched host w s requestId request doc threshold (.approveAccessBLS requestId listed sig aggPk
        shares) g

/-- Whoever signed what, a threshold of guardians other than the requester vouched for the request. -/
def Authentic (host : Host) (s : State) (requestId : ℕ) (request : AccessRequest) (doc : Document)
    (record : VaultRecord) (c : ApprovalCall) : Prop :=
  ∀ w : Signing host, ∃ signers : List Address, signers.Nodup ∧
    record.vault.approvalThreshold ≤ signers.length ∧
    ∀ g ∈ signers, g ∈ record.vault.guardians ∧ g ≠ request.requester ∧
      Vouched host w s requestId request doc record.vault.approvalThreshold c g

/-! ## Batch approvals -/

def BatchCall (requestId : ℕ) : ApprovalCall → Prop
  | .approveAccessThreshold _ r _ _ _ _ _ => r = requestId
  | .approveAccessBLS r _ _ _ _ => r = requestId
  | _ => False

/-- A batch approval of the request, with its document and vault, that moves it from pending to
approved. -/
structure BatchMoves (host : Host) (env : Env) (s s' : State) (requestId : ℕ) (request : AccessRequest)
    (doc : Document) (record : VaultRecord) (c : ApprovalCall) : Prop where
  step : Steps host s (env, .approval c) s'
  batch : BatchCall requestId c
  stored : s.requests.requests requestId = some request
  document : s.documents.docs request.documentId = some doc
  vault : s.vaults.vaults doc.vaultId = some record
  pending : request.status = .Pending
  approved : (s'.requests.requests requestId).map (·.status) = some .Approved

def GuardianKey (request : AccessRequest) (record : VaultRecord) (key : Bytes32) : Prop :=
  .account key ∈ record.vault.guardians ∧ .account key ≠ request.requester

instance (request : AccessRequest) (record : VaultRecord) : DecidablePred (GuardianKey request record) :=
  fun _ => inferInstanceAs (Decidable (_ ∧ _))

/-- Ed25519 keys of a threshold of guardians other than the requester are among those passed. -/
def PassesGuardianKeys (request : AccessRequest) (record : VaultRecord) : ApprovalCall → Prop
  | .approveAccessThreshold _ _ _ publicKeys _ _ _ =>
    record.vault.approvalThreshold ≤ (publicKeys.filter (GuardianKey request record)).length
  | _ => False

theorem BatchMoves.signed_batch {requestId nonce expirationLedger : ℕ} {caller : Address}
    {request : AccessRequest} {doc : Document} {record : VaultRecord} {signatures : List Signature}
    {publicKeys : List Bytes32} {share : Option Bytes}
    (h : BatchMoves host env s s' requestId request doc record (.approveAccessThreshold caller requestId
      signatures publicKeys nonce expirationLedger share)) :
    SignedBatch host env s requestId signatures publicKeys nonce expirationLedger request doc record
      s'.requests s'.grants := by
  cases h.step.effect with
  | approval hexec =>
    obtain ⟨request', doc', record', hsigned⟩ := approveAccessThreshold_ok hexec
    have hstored := hsigned.approvable.stored
    rw [h.stored] at hstored
    cases hstored
    have hdoc := hsigned.approvable.document
    rw [h.document] at hdoc
    cases hdoc
    have hvault := hsigned.approvable.vault
    rw [h.vault] at hvault
    cases hvault
    exact hsigned

theorem SignedBatch.key_verified {requestId nonce expirationLedger : ℕ} {request : AccessRequest}
    {doc : Document} {record : VaultRecord} {signatures : List Signature} {publicKeys : List Bytes32}
    {q : Requests} {a : Grants}
    (h : SignedBatch host env s requestId signatures publicKeys nonce expirationLedger request doc record
      q a) {key : Bytes32} (hkey : key ∈ publicKeys) :
    ∃ signature, (key, signature) ∈ publicKeys.zip signatures ∧ host.ed25519Verify key
      (thresholdPayload (approvalMessage requestId doc.vaultId) nonce expirationLedger) signature = true := by
  have hfst : (publicKeys.zip signatures).map Prod.fst = publicKeys :=
    List.map_fst_zip (by rw [h.length])
  rw [← hfst, List.mem_map] at hkey
  obtain ⟨⟨key', signature⟩, hmem, rfl⟩ := hkey
  exact ⟨signature, hmem, h.verified _ hmem⟩

theorem Authentic.passes_keys {requestId : ℕ} {request : AccessRequest} {doc : Document}
    {record : VaultRecord} {c : ApprovalCall} (hpos : 0 < record.vault.approvalThreshold)
    (h : Authentic host s requestId request doc record c) : PassesGuardianKeys request record c := by
  -- with nothing signed but what Ed25519 accepts, nobody vouched by a BLS key
  obtain ⟨signers, hnodup, hlen, hvouched⟩ := h (Signing.least host)
  obtain ⟨first, hfirst⟩ := List.exists_mem_of_length_pos (hpos.trans_le hlen)
  cases (hvouched first hfirst).2.2 with
  | bls _ _ _ _ _ keyInfo _ _ _ _ hsigned => exact absurd hsigned id
  | ed25519 caller signatures publicKeys nonce expirationLedger share =>
    have hsub : signers ⊆ (publicKeys.filter (GuardianKey request record)).map .account := by
      intro g hg
      obtain ⟨hguardian, hother, hv⟩ := hvouched g hg
      cases hv with
      | ed25519 _ _ _ _ _ _ key signature hzip _ _ =>
        have hkey : key ∈ publicKeys := (List.of_mem_zip hzip).1
        exact List.mem_map_of_mem (List.mem_filter.mpr ⟨hkey, decide_eq_true ⟨hguardian, hother⟩⟩)
    have hle := (hnodup.subperm hsub).length_le
    rw [List.length_map] at hle
    exact hlen.trans hle

theorem BatchMoves.authentic {requestId : ℕ} {request : AccessRequest} {doc : Document}
    {record : VaultRecord} {c : ApprovalCall}
    (h : BatchMoves host env s s' requestId request doc record c)
    (hkeys : PassesGuardianKeys request record c) : Authentic host s requestId request doc record c := by
  cases c with
  | approveAccessThreshold caller r signatures publicKeys nonce expirationLedger share =>
    obtain rfl : r = requestId := h.batch
    have hsigned := h.signed_batch
    intro w
    refine ⟨(publicKeys.filter (GuardianKey request record)).map .account, ?_, ?_, ?_⟩
    · apply (hsigned.distinct.filter _).map
      intro key key' heq
      injection heq
    · rw [List.length_map]
      exact hkeys
    · intro g hg
      obtain ⟨key, hkey, rfl⟩ := List.mem_map.mp hg
      obtain ⟨hkey, hguardian⟩ := List.mem_filter.mp hkey
      obtain ⟨hmember, hother⟩ := of_decide_eq_true hguardian
      obtain ⟨signature, hzip, hverified⟩ := hsigned.key_verified hkey
      have hproduced := w.unforgeable _ _ _ hverified
      exact ⟨hmember, hother, .ed25519 _ _ _ _ _ _ key signature hzip hverified hproduced⟩
  | _ => exact absurd hkeys id

/-- A batch approval is authentic exactly when it passes Ed25519 keys of a threshold of guardians
other than the requester. -/
theorem batch_authentic_iff {hist : List (Transition State Invocation)} (h : StellarRun host hist s)
    {requestId : ℕ} {request : AccessRequest} {doc : Document} {record : VaultRecord} {c : ApprovalCall}
    (hmove : BatchMoves host env s s' requestId request doc record c) :
    Authentic host s requestId request doc record c ↔ PassesGuardianKeys request record c := by
  have hpos : 0 < record.vault.approvalThreshold := (vaultsOk h).threshold _ _ hmove.vault
  exact ⟨fun hauth => hauth.passes_keys hpos, fun hkeys => hmove.authentic hkeys⟩

/-! ## Concrete batches -/

def requestTest (s : State) (requestId : ℕ) (p : AccessRequest → Document → VaultRecord → Bool) : Bool :=
  (s.requests.requests requestId).any fun request =>
    (s.documents.docs request.documentId).any fun doc =>
      (s.vaults.vaults doc.vaultId).any fun record => p request doc record

theorem requestTest_iff (s : State) (requestId : ℕ) (p : AccessRequest → Document → VaultRecord → Bool) :
    requestTest s requestId p = true ↔ ∃ request doc record, s.requests.requests requestId = some request ∧
      s.documents.docs request.documentId = some doc ∧ s.vaults.vaults doc.vaultId = some record ∧
      p request doc record = true := by
  simp only [requestTest, Option.any_eq_true]
  constructor
  · rintro ⟨request, hr, doc, hd, record, hv, hp⟩
    exact ⟨request, doc, record, hr, hd, hv, hp⟩
  · rintro ⟨request, doc, record, hr, hd, hv, hp⟩
    exact ⟨request, hr, doc, hd, record, hv, hp⟩

/-- The signature that the concrete host takes for a key's. -/
def signedBy (key : ℕ) : Signature := BitVec.ofNat 512 key

/-- Account 5 submits the signatures of two keys for request 1. -/
def submitted (key key' : ℕ) : ApprovalCall :=
  .approveAccessThreshold (acct 5) 1 [signedBy key, signedBy key'] [BitVec.ofNat 256 key, BitVec.ofNat 256 key']
    7 100 none

/-- A vault with guardians 1 and 2, both needed, and a request by account 3. -/
def requestedDocument : List Invocation :=
  openedVault 2 ++ [(invokedBy [acct 3] 103, .requestAccess (acct 3) 1)]

theorem submitted_moves (key key' : ℕ) (passes : Bool)
    (h : endsIn (invoke localHost) {} requestedDocument (fun _ s => stepsTo (invoke localHost)
      (invokedBy [acct 5] 104, .approval (submitted key key')) (fun s s' =>
        ((s'.requests.requests 1).map (·.status) == some .Approved) &&
          requestTest s 1 fun request _ record => (request.status == .Pending) &&
            record.vault.approvalThreshold == 2 && decide (acct 5 ∉ record.vault.guardians) &&
            decide (2 ≤ ([BitVec.ofNat 256 key, BitVec.ofNat 256 key'].filter
              (GuardianKey request record)).length) == passes) s) = true) :
    ∃ hist s s' request doc record, StellarRun localHost hist s ∧
      BatchMoves localHost (invokedBy [acct 5] 104) s s' 1 request doc record (submitted key key') ∧
      acct 5 ∉ record.vault.guardians ∧ 0 < record.vault.approvalThreshold ∧
      (PassesGuardianKeys request record (submitted key key') ↔ passes = true) := by
  obtain ⟨hist, s, s', hrun, hstep, hend⟩ := exists_step localHost requestedDocument _ _ h
  rw [Bool.and_eq_true, requestTest_iff] at hend
  obtain ⟨happroved, request, doc, record, hstored, hdoc, hvault, htest⟩ := hend
  simp only [Bool.and_eq_true, beq_iff_eq, decide_eq_true_eq] at happroved htest
  obtain ⟨⟨⟨hpending, hthreshold⟩, houtside⟩, hpasses⟩ := htest
  refine ⟨hist, s, s', request, doc, record, hrun,
    ⟨hstep, rfl, hstored, hdoc, hvault, hpending, happroved⟩, houtside, by omega, ?_⟩
  rw [← hpasses, decide_eq_true_eq, ← hthreshold]
  rfl

theorem batch_authentic_guardians : ∃ hist s s' request doc record, StellarRun localHost hist s ∧
    BatchMoves localHost (invokedBy [acct 5] 104) s s' 1 request doc record (submitted 1 2) ∧
    Authentic localHost s 1 request doc record (submitted 1 2) := by
  obtain ⟨hist, s, s', request, doc, record, hrun, hmove, _, _, hpasses⟩ :=
    submitted_moves 1 2 true (by decide +kernel)
  exact ⟨hist, s, s', request, doc, record, hrun, hmove,
    (batch_authentic_iff hrun hmove).mpr (hpasses.mpr rfl)⟩

/-- Account 5 is no guardian, signs with two keys of its own, and the request is approved. -/
theorem outsider_approves_by_threshold : ∃ hist s s' request doc record, StellarRun localHost hist s ∧
    BatchMoves localHost (invokedBy [acct 5] 104) s s' 1 request doc record (submitted 5 6) ∧
    acct 5 ∉ record.vault.guardians ∧ ¬ Authentic localHost s 1 request doc record (submitted 5 6) := by
  obtain ⟨hist, s, s', request, doc, record, hrun, hmove, houtside, hpos, hpasses⟩ :=
    submitted_moves 5 6 false (by decide +kernel)
  refine ⟨hist, s, s', request, doc, record, hrun, hmove, houtside, fun hauth => ?_⟩
  exact Bool.false_ne_true (hpasses.mp (hauth.passes_keys hpos))

end ChainGuard.Soroban
